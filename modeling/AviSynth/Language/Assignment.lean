import AviSynth.Language.PrintedIntegers

/-!
# Assignments with a value

The parser knows assignments `name := expr`, which have a value. The tokenizer makes two operators
of `:=`. So the expression ends at the colon, where no statement can begin, and no script assigns
in this way.
-/

namespace AviSynth

namespace Language

open MachineInt Exceptional ScriptParser

section Tokens

variable {D : Type} {ops : DoubleArithmetic D} {r r' : TokenReader D}

theorem skip_blank (pc : Bytes) (line : ℕ) :
    Tokenizer.skip ⟨0x20 :: pc, line⟩ = Tokenizer.skip ⟨pc, line⟩ := by
  have hsame : Tokenizer.skipOnce ⟨0x20 :: pc, line⟩ = Tokenizer.skipOnce ⟨pc, line⟩ := rfl
  cases hskip : Tokenizer.skipOnce ⟨pc, line⟩ with
  | error msg =>
    rw [Tokenizer.skip_of_error hskip, Tokenizer.skip_of_error (hsame.trans hskip)]
  | ok skipped =>
    cases skipped with
    | stops t => rw [Tokenizer.skip_of_stops hskip, Tokenizer.skip_of_stops (hsame.trans hskip)]
    | goesOn t => rw [Tokenizer.skip_of_goesOn hskip, Tokenizer.skip_of_goesOn (hsame.trans hskip)]

/-- The first of some tokens, and those behind it. -/
theorem exists_of_readTokens {n : ℕ} {tokens : List (Token D)}
    (h : readTokens ops n r = some (.ok tokens)) (hnext : r.nextToken ops = .ok r')
    (hmore : r'.token ≠ .eof) :
    ∃ m ts, readTokens ops m r' = some (.ok ts) ∧ tokens = tokenOf r'.token :: ts := by
  cases n with
  | zero => cases h
  | succ n =>
    rw [readTokens, hnext] at h
    dsimp only at h
    split at h
    · contradiction
    · obtain ⟨result, hresult, heq⟩ := Option.map_eq_some_iff.mp h
      cases result with
      | error msg => cases heq
      | ok ts =>
        cases heq
        exact ⟨n, ts, hresult, rfl⟩

/-- Blanks before a token are skipped. -/
theorem nextToken_blanks (blanks : ℕ) {rest : Bytes}
    (hpc : r.pc = List.replicate blanks 0x20 ++ rest) :
    r.nextToken ops = TokenReader.nextToken ops { r with pc := rest } := by
  have hskip (line : ℕ) : Tokenizer.skip ⟨List.replicate blanks 0x20 ++ rest, line⟩ =
      Tokenizer.skip ⟨rest, line⟩ := by
    clear hpc
    induction blanks with
    | zero => rfl
    | succ blanks ih => exact (skip_blank _ line).trans ih
  have hline : TokenReader.resume { r with pc := rest } = ⟨rest, r.resume.line⟩ := by
    unfold TokenReader.resume
    dsimp only
    split <;> rfl
  unfold TokenReader.nextToken
  rw [TokenReader.resume_eq, hpc, hskip, hline]

/-- The tokens of a colon behind blanks. -/
theorem nextToken_colon (ops : DoubleArithmetic D) (blanks : ℕ) {rest : Bytes}
    (hpc : r.pc = List.replicate blanks 0x20 ++ 0x3A :: rest) :
    ∃ r', r.nextToken ops = .ok r' ∧ r'.token = .operator 0x3A ∧ r'.pc = rest := by
  rw [nextToken_blanks blanks hpc, TokenReader.nextToken_cons ops _ (by decide) rfl]
  exact ⟨_, rfl, rfl, rfl⟩

end Tokens

/-- The name of a variable, as it stands in a script: a word that is no keyword and does not end
the script. -/
structure VariableName where
  first : UInt8
  others : Bytes
  first_name : first = 0x5F ∨ isAlpha first = true
  others_name : ∀ b ∈ others, isNameByte b = true
  not_long : others.length + 1 < 2 ^ 31
  not_end : (first :: others).map toLower ≠ TokenReader.endOfScript
  not_keyword : (bytesText (first :: others)).toLower ∉ keywords

namespace VariableName

variable {D : Type} (name : VariableName)

/-- The bytes of the name. -/
def bytes : Bytes := name.first :: name.others

theorem forall_isNameByte : ∀ b ∈ name.bytes, isNameByte b = true := by
  refine List.forall_mem_cons.mpr ⟨?_, name.others_name⟩
  rcases name.first_name with hfirst | hfirst <;> simp [isNameByte, isAlnum, hfirst]

/-- The first byte is none that another kind of token begins with. -/
theorem first_not_mem {marks : Bytes}
    (hmarks : marks.any (fun c => c == 0x5F || isAlpha c) = false) : name.first ∉ marks := by
  intro hmem
  have hmark := List.any_eq_false.mp hmarks name.first hmem
  rw [Bool.or_eq_true, beq_iff_eq] at hmark
  exact hmark name.first_name

theorem not_isDigit_first : ¬isDigit name.first = true := by
  intro hdigit
  have hfirst := name.first_name
  simp only [isDigit, isAlpha, UInt8.le_iff_toNat_le, UInt8.reduceToNat, Bool.and_eq_true,
    Bool.or_eq_true, decide_eq_true_eq, ← UInt8.toNat_inj] at hdigit hfirst
  omega

/-- A name is read up to the first byte that cannot belong to it. -/
theorem readToken_eq (ops : DoubleArithmetic D) {rest : Bytes}
    (hrest : rest.head?.any isNameByte = false) (hmark : rest.headD 0 ≠ quotationMark) (line : ℕ) :
    TokenReader.readToken ops ⟨name.bytes ++ rest, line⟩ =
      .ok (.identifier name.bytes, ⟨rest, line⟩) := by
  have hbehind : rest.takeWhile isNameByte = [] ∧ rest.dropWhile isNameByte = rest := by
    cases rest with
    | nil => exact ⟨rfl, rfl⟩
    | cons b rest =>
      have hb : ¬isNameByte b = true := by simpa using hrest
      exact ⟨List.takeWhile_cons_of_neg hb, List.dropWhile_cons_of_neg hb⟩
  have htake : (name.bytes ++ rest).takeWhile isNameByte = name.bytes := by
    rw [List.takeWhile_append_of_pos name.forall_isNameByte, hbehind.1, List.append_nil]
  have hdrop : (name.bytes ++ rest).dropWhile isNameByte = rest := by
    rw [List.dropWhile_append_of_pos name.forall_isNameByte, hbehind.2]
  have hsave : saveString (name.bytes ++ rest) (i32 name.bytes.length) false = name.bytes := by
    have hlong : name.bytes.length < 2 ^ 31 := name.not_long
    have hlen : i32 name.bytes.length = name.bytes.length := i32_of_range (by omega) (by omega)
    have hcount : ¬(name.bytes.length : ℤ) = -1 := by omega
    rw [hlen]
    simp [saveString, hcount]
  have hmarks : name.first ∉ [0, newline, carriageReturn, 0x2E, 0x24, quotationMark] :=
    name.first_not_mem (by decide)
  have hquote : (name.others ++ rest).headD 0 ≠ quotationMark := by
    cases hothers : name.others with
    | nil => exact hmark
    | cons b others =>
      rintro rfl
      have hname := name.others_name quotationMark (hothers ▸ List.mem_cons_self)
      cases hname
  simp only [List.mem_cons, not_or] at hmarks
  obtain ⟨hzero, hfeed, hreturn, hpoint, hdollar, hstring, -⟩ := hmarks
  have hbreak : Tokenizer.atBreak ⟨name.bytes ++ rest, line⟩ = false := by
    change (name.first == newline || name.first == carriageReturn) = false
    simp [hfeed, hreturn]
  have hnumber : ¬(isDigit name.first = true ∨
      name.first = 0x2E ∧ isDigit ((name.others ++ rest).headD 0) = true) :=
    not_or.mpr ⟨name.not_isDigit_first, fun h => hpoint h.1⟩
  have htext : ¬(name.first = quotationMark ∨
      name.first = letterE ∧ (name.others ++ rest).headD 0 = quotationMark) :=
    not_or.mpr ⟨hstring, fun h => hquote h.2⟩
  unfold TokenReader.readToken
  dsimp only
  have hend : ¬name.bytes.map toLower = TokenReader.endOfScript := name.not_end
  rw [htake, hdrop, hsave, hbreak, if_neg hend]
  change (if name.first = 0 then _ else _) = _
  rw [if_neg hzero, if_neg Bool.false_ne_true]
  refine (if_neg hnumber).trans ((if_neg hpoint).trans ((if_neg hdollar).trans ?_))
  exact (if_neg htext).trans (if_pos name.first_name)

theorem nextToken_eq (ops : DoubleArithmetic D) (r : TokenReader D) {rest : Bytes}
    (hpc : r.pc = name.bytes ++ rest) (hrest : rest.head?.any isNameByte = false)
    (hmark : rest.headD 0 ≠ quotationMark) :
    ∃ r', r.nextToken ops = .ok r' ∧ r'.token = .identifier name.bytes ∧ r'.pc = rest := by
  have hskip : name.first ∉ skippable := name.first_not_mem (by decide)
  have hread := name.readToken_eq ops hrest hmark r.resume.line
  rw [TokenReader.nextToken_cons ops r hskip hpc]
  exact ⟨_, congrArg (Except.map _) hread, rfl, rfl⟩

end VariableName

section Parsing

variable {F D : Type} {name : String}

/-- The first token that the tokenizer makes of `:=`. -/
def colon : Token D := .operator (.single ':')

/-- No operator of an expression is a colon. -/
theorem endsExpression_colon (ts : List (Token D)) : EndsExpression F (colon :: ts) := by
  refine ⟨⟨⟨⟨?_, ?_, ?_⟩, ?_⟩, ?_, ?_, ?_⟩, ?_, ?_, ?_, ?_, ?_⟩ <;> rfl

/-- Wherever an expression can stand, that of `name := expr` is the name. -/
theorem takes_name (knot : Knot F D) (source : Source) (ts : List (Token D)) (rounds : ℕ)
    (hname : name.toLower ∉ keywords) :
    Takes (parseAssignmentWithRet knot source (rounds + 5)) [.identifier name] (colon :: ts)
      (.variableReference name) := by
  have hend : EndsExpression F (colon :: ts) := endsExpression_colon ts
  have hatom : Takes (parseAtom knot source (rounds + 1)) [.identifier name] (colon :: ts)
      (.variableReference name) := by
    refine takes_isIdentifier ?_
    have hfunction : (headToken ([.identifier name] ++ colon :: ts)).isIdentifier "function" =
        false := by
      refine beq_eq_false_iff_ne.mpr fun heq => hname ?_
      rw [heq]
      decide
    rw [hfunction]
    exact takes_token (takes_nextToken _ (takes_pure _ _))
  have hunary : Takes (parseUnary knot source (rounds + 2)) [.identifier name] (colon :: ts)
      (.variableReference name) :=
    takes_isOperator (takes_isOperator (takes_isOperator
      (takes_parseOOP hatom rfl hend.toEndsUnary)))
  exact takes_parseAssignmentWithRet (takes_parseAddition hunary hend.toEndsAddition) hend

/-- No statement begins with a colon. -/
theorem parseStatements_colon (knot : Knot F D) (source : Source) (s : ParserState F D)
    (ts : List (Token D)) (rounds : ℕ) (block : BlockState F D) :
    parseStatements knot source false (rounds + 5) block { s with tokens := colon :: ts } =
      some (.error (.avisynthError "Script error: syntax error"),
        { s with tokens := colon :: ts }) := rfl

/-- A script that begins with a name and a colon is not parsed. -/
theorem parse_name_colon (source : Source) (ts : List (Token D)) (hname : name.toLower ∉ keywords)
    (s : ParserState F D) (n : ℕ) :
    ∃ msg t, parse source (n + 7) { s with tokens := .identifier name :: colon :: ts } =
      some (.error (.avisynthError msg), t) := by
  have hstart : StartsExpression (.identifier name : Token D) := by
    refine ⟨rfl, rfl, fun id hid => beq_eq_false_iff_ne.mpr fun heq => ?_, rfl⟩
    exact hname (heq ▸ hid)
  have hfirst := takes_parseStatement hstart
    (takes_name (level source (n + 7)) source ts (n + 1) hname) rfl s
  have hstatements (block : BlockState F D) (hblock : block.ignoreRemainder = false) :
      parseStatements (level source (n + 7)) source false (n + 7) block
        { s with tokens := .identifier name :: colon :: ts } =
          some (.error (.avisynthError "Script error: syntax error"),
            { s with tokens := colon :: ts }) := by
    rw [parseStatements]
    refine (bind_of_ok (rfl : token _ = _)).trans ?_
    refine (congrFun (if_neg Bool.false_ne_true) _).trans ?_
    refine (bind_of_ok (rfl : atBlockEnd false _ = _)).trans ?_
    refine (congrFun (if_neg Bool.false_ne_true) _).trans ?_
    refine (bind_of_ok hfirst).trans ?_
    dsimp only [kept]
    rw [hblock]
    exact (bind_of_ok (rfl : located _ _ _ = _)).trans (parseStatements_colon _ _ _ _ _ _)
  have hparsed : (do return .rootBlock ((← parseBlock (level source (n + 7)) source false
      (n + 7)).getD (.constant .undefined)) : Parser F D (Exp F D))
        { s with tokens := .identifier name :: colon :: ts } =
      some (.error (.avisynthError "Script error: syntax error"),
        { s with tokens := colon :: ts }) :=
    Option.bind_eq_some_iff.mpr ⟨_, hstatements ⟨List.replicate treesSize none, false⟩ rfl, rfl⟩
  rw [parse, catching, hparsed]
  exact ⟨_, _, rfl⟩

end Parsing

/-- `name := expr`, with blanks behind the name. -/
def assignmentText (name : VariableName) (blanks : ℕ) (expr : Bytes) : Bytes :=
  name.bytes ++ (List.replicate blanks 0x20 ++ 0x3A :: 0x3D :: expr)

variable {W : Type} (calls : Calls Float32 Float W) (source : Source) (rounds : ℕ)
  (s : ParserState Float32 Float)

/-- The evaluation of a text has a value, if the parser has steps enough. -/
def Yields (text : Bytes) (env : Environment Float32 Float W) (value : AVSValue Float32 Float)
    (env' : Environment Float32 Float W) : Prop :=
  ∃ bound, ∀ n, bound ≤ n → eval calls source n rounds s text env = some (.ok value, env')

/-- The assignment has the value of its expression, and a following read of the variable yields
it. That the expression is evaluated once is not even asked for. -/
structure AssignmentYields (name : VariableName) (blanks : ℕ) (expr : Bytes)
    (env : Environment Float32 Float W) (value : AVSValue Float32 Float) : Prop where
  expression : ∃ env', Yields calls source rounds s expr env value env'
  assignment_read : ∃ env' env'',
    Yields calls source rounds s (assignmentText name blanks expr) env value env' ∧
      Yields calls source rounds s name.bytes env' value env''

/-- The script has no other result than an error before anything is evaluated. -/
def Rejected (text : Bytes) (env : Environment Float32 Float W) : Prop :=
  ∃ bound, ∀ n result, bound ≤ n → eval calls source n rounds s text env = some result →
    ∃ msg, result = (.error (.avisynthError msg), env)

variable {calls source rounds s} {env : Environment Float32 Float W}

/-- The tokens of an assignment begin with the name and a colon. -/
theorem readTokens_assignmentText {name : VariableName} {blanks n : ℕ} {expr : Bytes}
    {tokens : List (Token Float)}
    (h : readTokens doubles n (.start (assignmentText name blanks expr)) =
      some (.ok tokens)) :
    ∃ ts, tokens = .identifier (bytesText name.bytes) :: colon :: ts := by
  have hbehind : (List.replicate blanks 0x20 ++ 0x3A :: 0x3D :: expr).head?.any isNameByte = false ∧
      (List.replicate blanks 0x20 ++ 0x3A :: 0x3D :: expr).headD 0 ≠ quotationMark := by
    cases blanks with
    | zero => exact ⟨rfl, nofun⟩
    | succ blanks => exact ⟨rfl, nofun⟩
  obtain ⟨r, hname, htoken, hpc⟩ := name.nextToken_eq doubles
    (.start (assignmentText name blanks expr)) rfl hbehind.1 hbehind.2
  obtain ⟨m, ts, hrest, rfl⟩ := exists_of_readTokens h hname (by rw [htoken]; nofun)
  obtain ⟨r', hcolon, htoken', -⟩ := nextToken_colon doubles blanks hpc
  obtain ⟨m', ts', -, rfl⟩ := exists_of_readTokens hrest hcolon (by rw [htoken']; nofun)
  rw [htoken, htoken']
  exact ⟨ts', rfl⟩

theorem rejected_assignmentText (name : VariableName) (blanks : ℕ) (expr : Bytes) :
    Rejected calls source rounds s (assignmentText name blanks expr) env := by
  refine ⟨7, fun n result hn h => ?_⟩
  obtain ⟨k, rfl⟩ : ∃ k, n = k + 7 := ⟨n - 7, by omega⟩
  unfold eval at h
  cases htokens : readTokens doubles (k + 7)
      (.start (assignmentText name blanks expr)) with
  | none =>
    rw [htokens] at h
    cases h
  | some read =>
    rw [htokens] at h
    cases read with
    | error msg =>
      cases h
      exact ⟨msg, rfl⟩
    | ok tokens =>
      obtain ⟨ts, rfl⟩ := readTokens_assignmentText htokens
      have hkeyword : (bytesText name.bytes).toLower ∉ keywords := name.not_keyword
      obtain ⟨msg, t, hparse⟩ := parse_name_colon source ts hkeyword s k
      dsimp only at h
      rw [hparse] at h
      cases h
      exact ⟨msg, rfl⟩

/-- What is rejected has no value. -/
theorem Rejected.not_yields {text : Bytes} (h : Rejected calls source rounds s text env)
    {value : AVSValue Float32 Float} {env' : Environment Float32 Float W} :
    ¬Yields calls source rounds s text env value env' := by
  rintro ⟨bound, hvalue⟩
  obtain ⟨bound', herror⟩ := h
  obtain ⟨msg, hmsg⟩ := herror _ _ (Nat.le_max_right bound bound')
    (hvalue _ (Nat.le_max_left bound bound'))
  cases hmsg

/-- No assignment with `:=` has a value, whatever the name, the expression and the environment:
the script is rejected. -/
theorem assignment_never_yields (name : VariableName) (blanks : ℕ) (expr : Bytes) :
    Rejected calls source rounds s (assignmentText name blanks expr) env ∧
      ∀ value, ¬AssignmentYields calls source rounds s name blanks expr env value := by
  have hrejected : Rejected calls source rounds s (assignmentText name blanks expr) env :=
    rejected_assignmentText name blanks expr
  refine ⟨hrejected, fun value h => ?_⟩
  obtain ⟨env', env'', hassignment, -⟩ := h.assignment_read
  exact hrejected.not_yields hassignment

/-- The variable `w`. -/
def nameW : VariableName := ⟨0x77, [], by decide, nofun, by decide, by decide, by decide +kernel⟩

/-- `5` has a value, and the script `w :=5` has none. -/
theorem assignment_five_rejected :
    assignmentText nameW 1 (textBytes "5") = textBytes "w :=5" ∧ ∃ v : AVSValue Float32 Float,
      v.Means 5 ∧
      (∃ env, Yields .none ⟨none, fun _ => 0, fun _ => 0⟩ 9 ⟨[], 0, 0, []⟩ (textBytes "5")
        emptyEnvironment v env) ∧
      ¬AssignmentYields .none ⟨none, fun _ => 0, fun _ => 0⟩ 9 ⟨[], 0, 0, []⟩ nameW 1
        (textBytes "5") emptyEnvironment v := by
  obtain ⟨v, hv, hmeans⟩ := evals_toString (z := 5) (by decide) (by decide)
  refine ⟨rfl, v, hmeans, ⟨_, 7, fun n hn => hv Unit _ _ n _ _ _ hn⟩, fun h => ?_⟩
  obtain ⟨env', env'', hassignment, -⟩ := h.assignment_read
  exact (rejected_assignmentText nameW 1 (textBytes "5")).not_yields hassignment

end Language

end AviSynth
