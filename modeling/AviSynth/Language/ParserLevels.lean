import AviSynth.Library.Descent
import AviSynth.Language.Parser

/-!
# The levels of the parser

A level of the parser beyond the number of tokens, and a few more, reaches the end of every
script, and the levels above it do the same. A token is taken before each bracket is entered
and in each round of a loop.
-/

namespace AviSynth

namespace Language

namespace ScriptParser

open Exceptional

variable {F D α β : Type} {s : ParserState F D} {m : ℕ}

/-- The number of tokens that are left. -/
def tokensLeft (s : ParserState F D) : ℕ := s.tokens.length

/-- Both parsers end in the same way, and with less than `m` tokens left where they return. -/
abbrev ParseAlike (m : ℕ) (p q : Parser F D α) (s : ParserState F D) : Prop :=
  EndAlike tokensLeft m p q s

theorem tail_lt_tokensLeft (h : s.tokens ≠ []) : s.tokens.tail.length < tokensLeft s := by
  rw [List.length_tail]
  exact Nat.sub_lt (List.length_pos_of_ne_nil h) Nat.one_pos

/-- Any token that is not the end of the script is there. -/
theorem tokensLeft_of_token {t : Token D} (h : s.tokens.head?.getD .eof = t)
    (ht : t.isEOF = false) : s.tokens.tail.length < tokensLeft s := by
  refine tail_lt_tokensLeft fun hnil => ?_
  rw [← h, hnil] at ht
  cases ht

/-- So is an operator. -/
theorem tokensLeft_of_isOperator {op : Operator}
    (h : (s.tokens.head?.getD .eof).isOperator op = true) :
    s.tokens.tail.length < tokensLeft s := by
  refine tail_lt_tokensLeft fun hnil => ?_
  rw [hnil] at h
  cases h

theorem tokensLeft_of_isIdentifier {id : String}
    (h : (s.tokens.head?.getD .eof).isIdentifier id = true) :
    s.tokens.tail.length < tokensLeft s := by
  refine tail_lt_tokensLeft fun hnil => ?_
  rw [hnil] at h
  cases h

theorem tokensLeft_of_isNewline (h : (s.tokens.head?.getD .eof).isNewline = true) :
    s.tokens.tail.length < tokensLeft s := by
  refine tail_lt_tokensLeft fun hnil => ?_
  rw [hnil] at h
  cases h

theorem parseAlike_nextToken (h : s.tokens.tail.length < m) :
    ParseAlike m (nextToken : Parser F D Unit) nextToken s :=
  endAlike_update _ h

/-- The tokens of `s` without the current one. -/
theorem parseAlike_next {p q : Unit → Parser F D α}
    (h : ∀ t, tokensLeft t ≤ s.tokens.tail.length → ParseAlike m (p ()) (q ()) t) :
    ParseAlike m (nextToken >>= p) (nextToken >>= q) s :=
  (parseAlike_nextToken (Nat.lt_succ_self _)).bind fun _ t ht => h t (Nat.le_of_lt_succ ht)

theorem parseAlike_raiseError (msg : String) :
    ParseAlike m (raiseError msg : Parser F D α) (raiseError msg) s :=
  endAlike_raise _

theorem parseAlike_expectOr {op : Operator} {msg : String} :
    ParseAlike (tokensLeft s) (expectOr op msg : Parser F D Unit) (expectOr op msg) s := by
  refine .step rfl ?_
  split
  · next h => exact parseAlike_nextToken (tokensLeft_of_isOperator h)
  · exact parseAlike_raiseError msg

theorem parseAlike_expect (c : Char) :
    ParseAlike (tokensLeft s) (expect c : Parser F D Unit) (expect c) s :=
  parseAlike_expectOr

theorem parseAlike_takeIdentifier (msg : String) :
    ParseAlike (tokensLeft s) (takeIdentifier msg : Parser F D String) (takeIdentifier msg) s := by
  refine .step rfl ?_
  split
  · next name h =>
    refine parseAlike_next fun t ht => endAlike_pure _ ?_
    exact Nat.lt_of_le_of_lt ht (tokensLeft_of_token h rfl)
  · exact parseAlike_raiseError msg

theorem parseAlike_separator (needComma : Bool) (msg : String) :
    ParseAlike (tokensLeft s + 1) (separator needComma msg : Parser F D Unit)
      (separator needComma msg) s := by
  unfold separator
  split
  · exact parseAlike_expectOr.mono (Nat.le_succ _)
  · exact endAlike_pure _ (Nat.lt_succ_self _)

theorem parseAlike_skipNewlines {rounds rounds' : ℕ} (hrounds : tokensLeft s < min rounds rounds') :
    ParseAlike (tokensLeft s + 1) (skipNewlines rounds : Parser F D Unit)
      (skipNewlines rounds') s := by
  induction rounds generalizing rounds' s with
  | zero => omega
  | succ rounds ih =>
    obtain _ | rounds' := rounds'
    · omega
    refine .step rfl ?_
    split
    · next h =>
      have hlt := tokensLeft_of_isNewline h
      refine parseAlike_next fun t ht => (ih (by omega)).mono (by omega)
    · exact endAlike_pure _ (Nat.lt_succ_self _)

/-- Two knots end alike wherever less than `m` tokens are left, and take a token each. -/
structure Knot.Alike (m : ℕ) (knot knot' : Knot F D) : Prop where
  assignmentWithRet : ∀ s, tokensLeft s < m →
    ParseAlike (tokensLeft s) knot.assignmentWithRet knot'.assignmentWithRet s
  block : ∀ s, tokensLeft s < m → ParseAlike (tokensLeft s) knot.block knot'.block s

section Definitions

variable {rounds rounds' : ℕ}

theorem parseAlike_parseCaptures (varNames : List String)
    (hrounds : tokensLeft s < min rounds rounds') :
    ParseAlike (tokensLeft s) (parseCaptures rounds varNames : Parser F D (List String))
      (parseCaptures rounds' varNames) s := by
  induction rounds generalizing rounds' s varNames with
  | zero => omega
  | succ rounds ih =>
    obtain _ | rounds' := rounds'
    · omega
    refine .step rfl ?_
    split
    · next h =>
      have hlt := tokensLeft_of_isOperator h
      exact parseAlike_next fun t ht => endAlike_pure _ (by omega)
    · refine (parseAlike_separator _ _).bind fun _ t ht => .step rfl ?_
      split
      · exact parseAlike_raiseError _
      · refine (parseAlike_takeIdentifier _).bind fun name u hu => ?_
        exact (ih _ (by omega)).mono (by omega)

theorem parseAlike_parseParameterType :
    ParseAlike (tokensLeft s + 1) (parseParameterType : Parser F D (Option String))
      parseParameterType s := by
  refine .step rfl ?_
  split
  · refine .step rfl ?_
    split
    · split
      · refine parseAlike_next fun t ht => endAlike_pure _ ?_
        have hle := s.tokens.length_tail
        unfold tokensLeft at *
        omega
      · exact parseAlike_raiseError _
    · exact parseAlike_raiseError _
  · exact endAlike_pure _ (Nat.lt_succ_self _)

theorem parseAlike_parseParameterName (params : Parameters) (typeWord : Option String) :
    ParseAlike (tokensLeft s) (parseParameterName params typeWord : Parser F D Declaration)
      (parseParameterName params typeWord) s := by
  refine .step rfl ?_
  split
  · next name h =>
    have hlt := tokensLeft_of_token h rfl
    split
    · exact parseAlike_raiseError _
    · exact parseAlike_next fun t ht => endAlike_pure _ (by omega)
  · next name h =>
    have hlt := tokensLeft_of_token h rfl
    split
    · exact parseAlike_raiseError _
    · exact parseAlike_next fun t ht => endAlike_pure _ (by omega)
  · exact parseAlike_raiseError _

theorem parseAlike_parseParameter (params : Parameters) :
    ParseAlike (tokensLeft s) (parseParameter params : Parser F D Parameters)
      (parseParameter params) s := by
  unfold parseParameter
  split
  · exact parseAlike_raiseError _
  · refine parseAlike_parseParameterType.bind fun typeWord t ht => ?_
    refine (parseAlike_parseParameterName params typeWord).bind fun d u hu => ?_
    exact endAlike_pure _ (by omega)

theorem parseAlike_parseParameters (params : Parameters)
    (hrounds : tokensLeft s < min rounds rounds') :
    ParseAlike (tokensLeft s) (parseParameters rounds params : Parser F D Parameters)
      (parseParameters rounds' params) s := by
  induction rounds generalizing rounds' s params with
  | zero => omega
  | succ rounds ih =>
    obtain _ | rounds' := rounds'
    · omega
    refine .step rfl ?_
    split
    · next h =>
      have hlt := tokensLeft_of_isOperator h
      exact parseAlike_next fun t ht => endAlike_pure _ (by omega)
    · refine (parseAlike_separator _ _).bind fun _ t ht => ?_
      refine (parseAlike_parseParameter params).bind fun params u hu => ?_
      exact (ih _ (by omega)).mono (by omega)

theorem parseAlike_parseFunctionName :
    ParseAlike (tokensLeft s + 1) (parseFunctionName : Parser F D (Option String))
      parseFunctionName s := by
  refine .step rfl ?_
  split
  · next name h =>
    have hlt := tokensLeft_of_token h rfl
    exact parseAlike_next fun t ht => endAlike_pure _ (by omega)
  · exact endAlike_pure _ (Nat.lt_succ_self _)

theorem parseAlike_parseCaptureList (name : Option String)
    (hrounds : tokensLeft s < min rounds rounds') :
    ParseAlike (tokensLeft s + 1) (parseCaptureList rounds name : Parser F D (List String))
      (parseCaptureList rounds' name) s := by
  refine .step rfl ?_
  split
  · next h =>
    have hlt := tokensLeft_of_isOperator h
    split
    · exact parseAlike_raiseError _
    · refine parseAlike_next fun t ht => ?_
      exact (parseAlike_parseCaptures [] (by omega)).mono (by omega)
  · exact endAlike_pure _ (Nat.lt_succ_self _)

theorem parseAlike_parseParameterList (hrounds : tokensLeft s < min rounds rounds') :
    ParseAlike (tokensLeft s + 1) (parseParameterList rounds : Parser F D Parameters)
      (parseParameterList rounds') s := by
  refine .step rfl ?_
  split
  · exact endAlike_pure _ (Nat.lt_succ_self _)
  · refine parseAlike_expectOr.bind fun _ t ht => ?_
    exact (parseAlike_parseParameters _ (by omega)).mono (by omega)

variable {knot knot' : Knot F D} {source : Source} {left : ℕ}
  (hknot : Knot.Alike left knot knot')

include hknot

theorem parseAlike_parseFunctionDefinition (hleft : tokensLeft s < left)
    (hrounds : tokensLeft s < min rounds rounds') :
    ParseAlike (tokensLeft s) (parseFunctionDefinition knot source rounds)
      (parseFunctionDefinition knot' source rounds') s := by
  refine parseAlike_parseFunctionName.bind fun name t ht => ?_
  refine (parseAlike_parseCaptureList name (by omega)).bind fun varNames u hu => ?_
  refine (parseAlike_parseParameterList (by omega)).bind fun params v hv => ?_
  refine .step rfl ((hknot.block v (by omega)).bind fun body w hw => ?_)
  cases name with
  | some name =>
    refine EndAlike.bind (n := tokensLeft s) ?_ fun _ x hx => endAlike_pure _ hx
    unfold addFunction
    split
    · exact endAlike_update _ (show w.tokens.length < _ by unfold tokensLeft at *; omega)
    · exact parseAlike_raiseError _
  | none => exact endAlike_pure _ (by omega)

theorem parseAlike_parseAtom (hleft : tokensLeft s ≤ left)
    (hrounds : tokensLeft s < min rounds rounds') :
    ParseAlike (tokensLeft s) (parseAtom knot source rounds) (parseAtom knot' source rounds')
      s := by
  refine .step rfl ?_
  split
  · next h =>
    have hlt := tokensLeft_of_isIdentifier h
    refine parseAlike_next fun t ht => ?_
    exact (parseAlike_parseFunctionDefinition hknot (by omega) (by omega)).mono
      (by omega)
  · refine .step rfl ?_
    have htake {t : Token D} (h : s.tokens.head?.getD .eof = t) (ht : t.isEOF = false)
        (e : Exp F D) : ParseAlike (tokensLeft s) (nextToken >>= fun _ => pure e)
          (nextToken >>= fun _ => pure e) s :=
      parseAlike_next fun u hu =>
        endAlike_pure _ (Nat.lt_of_le_of_lt hu (tokensLeft_of_token h ht))
    split
    · next h => exact htake h rfl _
    · next h => exact htake h rfl _
    · next h => exact htake h rfl _
    · next h => exact htake h rfl _
    · next h => exact htake h rfl _
    · next h =>
      have hlt := tokensLeft_of_token h rfl
      refine parseAlike_next fun t ht => ?_
      refine (hknot.assignmentWithRet t (by omega)).bind fun result u hu => ?_
      exact (parseAlike_expect ')').bind fun _ v hv => endAlike_pure _ (by omega)
    · exact parseAlike_raiseError _
    · exact parseAlike_raiseError _

end Definitions

section Expressions

variable {knot knot' : Knot F D} {source : Source} {left rounds rounds' : ℕ}
  (hknot : Knot.Alike left knot knot')

include hknot

theorem parseAlike_parseArguments (isArray needComma : Bool)
    (args : List (Option String × Exp F D)) (hleft : tokensLeft s < left)
    (hrounds : tokensLeft s < min rounds rounds') :
    ParseAlike (tokensLeft s) (parseArguments knot isArray rounds needComma args)
      (parseArguments knot' isArray rounds' needComma args) s := by
  induction rounds generalizing rounds' s needComma args with
  | zero => omega
  | succ rounds ih =>
    obtain _ | rounds' := rounds'
    · omega
    refine .step rfl ?_
    by_cases hclose : (s.tokens.head?.getD .eof).isOperator
        (.single (if isArray then ']' else ')')) = true
    · rw [if_pos hclose, if_pos hclose]
      have hlt := tokensLeft_of_isOperator hclose
      exact parseAlike_next fun t ht => endAlike_pure _ (by omega)
    · rw [if_neg hclose, if_neg hclose]
      refine .after (parseAlike_expectOr.mono (Nat.le_succ _)) fun t ht => ?_
      refine .after (parseAlike_raiseError _) fun u hu => ?_
      refine .step rfl (.step rfl ?_)
      have hvalue (name : Option String) (v : ParserState F D) (hv : tokensLeft v ≤ tokensLeft u) :
          ParseAlike (tokensLeft s)
            (knot.assignmentWithRet >>= fun value =>
              parseArguments knot isArray rounds true (args ++ [(name, value)]))
            (knot'.assignmentWithRet >>= fun value =>
              parseArguments knot' isArray rounds' true (args ++ [(name, value)])) v := by
        refine (hknot.assignmentWithRet v (by omega)).bind fun value w hw => ?_
        exact (ih true _ (by omega) (by omega)).mono (by omega)
      have hle := u.tokens.length_tail
      split
      · split
        · exact .step rfl (hvalue none u (Nat.le_refl _))
        · refine parseAlike_next fun v hv => parseAlike_next fun w hw => ?_
          have hle' := v.tokens.length_tail
          exact .step rfl (hvalue _ w (by unfold tokensLeft at *; omega))
      · exact .step rfl (hvalue none u (Nat.le_refl _))

/-- The parser returns, and takes no tokens. -/
def TakesNothing (p : Parser F D α) : Prop :=
  ∀ s, ∃ a t, p s = some (.ok a, t) ∧ t.tokens = s.tokens

omit hknot in
theorem takesNothing_makeCall (e : Exp F D) (hasContext isArray : Bool)
    (args : List (Option String × Exp F D)) :
    TakesNothing (makeCall e hasContext isArray args) := by
  unfold makeCall
  split
  · split
    · exact fun s => ⟨_, _, rfl, rfl⟩
    · exact fun s => ⟨_, _, rfl, rfl⟩
  · exact fun s => ⟨_, _, rfl, rfl⟩

/-- What `ParseCall` makes of the arguments: a call, and the call of its result if a bracket
opens. -/
def parseCallRest (knot : Knot F D) (rounds : ℕ) (left : Exp F D) (context : Option (Exp F D))
    (isArray : Bool) (args : List (Option String × Exp F D)) : Parser F D (Exp F D) := do
  let contextArgs := context.toList.map fun e => ((none : Option String), e)
  if isArray ∧ context.isSome ∧ args.length = contextArgs.length then
    raiseError "Script error: array indexing must have at least one index"
  let result ← makeCall left context.isSome isArray args
  if ← isOperator (.single '(') then parseCall knot rounds result none false
  else pure result

/-- The bracket of a call, unless it was taken before, and the arguments behind it. -/
def parseOpened (knot : Knot F D) (rounds : ℕ) (context : Option (Exp F D)) (isArray : Bool) :
    Parser F D (List (Option String × Exp F D)) := do
  if !(context.isSome && isArray) then nextToken
  parseArguments knot isArray rounds false (context.toList.map fun e => (none, e))

omit hknot in
theorem parseCall_succ (knot : Knot F D) (rounds : ℕ) (e : Exp F D) (context : Option (Exp F D))
    (isArray : Bool) :
    parseCall knot (rounds + 1) e context isArray =
      isOperator (.single '(') >>= fun opens =>
        if isArray || opens then
          parseOpened knot rounds context isArray >>= parseCallRest knot rounds e context isArray
        else parseCallRest knot rounds e context isArray
          (context.toList.map fun e => (none, e)) := by
  unfold parseOpened
  cases context <;> cases isArray <;> rfl

theorem parseAlike_parseOpened (context : Option (Exp F D)) (isArray : Bool)
    (hinside : (context.isSome && isArray) = true → tokensLeft s < left)
    (houtside : (context.isSome && isArray) = false →
      s.tokens.tail.length < tokensLeft s ∧ tokensLeft s ≤ left)
    (hrounds : tokensLeft s < min rounds rounds') :
    ParseAlike (tokensLeft s) (parseOpened knot rounds context isArray)
      (parseOpened knot' rounds' context isArray) s := by
  unfold parseOpened
  cases hcontext : context.isSome && isArray with
  | true => exact parseAlike_parseArguments hknot _ _ _ (hinside hcontext) hrounds
  | false =>
    obtain ⟨hlt, hleft⟩ := houtside hcontext
    refine parseAlike_next fun t ht => ?_
    exact (parseAlike_parseArguments hknot _ _ _ (by omega) (by omega)).mono (by omega)

omit hknot in
theorem parseAlike_parseCallRest (e : Exp F D) (context : Option (Exp F D)) (isArray : Bool)
    (args : List (Option String × Exp F D)) (hm : tokensLeft s < m)
    (hrest : ∀ call t, t.tokens = s.tokens →
      (t.tokens.head?.getD .eof).isOperator (.single '(') = true →
        ParseAlike m (parseCall knot rounds call none false)
          (parseCall knot' rounds' call none false) t) :
    ParseAlike m (parseCallRest knot rounds e context isArray args)
      (parseCallRest knot' rounds' e context isArray args) s := by
  have hcall : ParseAlike m
      (makeCall e context.isSome isArray args >>= fun result => isOperator (.single '(') >>=
        fun opens => if opens then parseCall knot rounds result none false else pure result)
      (makeCall e context.isSome isArray args >>= fun result => isOperator (.single '(') >>=
        fun opens => if opens then parseCall knot' rounds' result none false else pure result)
      s := by
    obtain ⟨call, t, hcall, ht⟩ := takesNothing_makeCall e context.isSome isArray args s
    refine .step hcall (.step rfl ?_)
    split
    · next hopen => exact hrest call t ht hopen
    · exact endAlike_pure _ (by rwa [tokensLeft, ht])
  unfold parseCallRest
  dsimp only
  split
  · exact endAlike_raise _
  · exact hcall

/-- A call takes no tokens where no bracket opens. -/
theorem parseAlike_parseCall (e : Exp F D) (context : Option (Exp F D))
    (hleft : tokensLeft s ≤ left) (hrounds : tokensLeft s + 2 ≤ min rounds rounds') :
    ParseAlike (tokensLeft s + 1) (parseCall knot rounds e context false)
      (parseCall knot' rounds' e context false) s := by
  induction rounds generalizing rounds' s e context with
  | zero => omega
  | succ rounds ih =>
    obtain _ | rounds' := rounds'
    · omega
    rw [parseCall_succ, parseCall_succ]
    refine .step rfl ?_
    rw [Bool.false_or]
    split
    · next hopen =>
      have hlt := tokensLeft_of_isOperator hopen
      have hrounds : tokensLeft s < min rounds rounds' := by omega
      have hopened := parseAlike_parseOpened hknot context false (fun h => by simp at h)
        (fun _ => ⟨hlt, hleft⟩) hrounds
      refine hopened.bind fun args t ht => ?_
      refine parseAlike_parseCallRest e context false args (by omega) fun call u hu _ => ?_
      have hsame : tokensLeft u = tokensLeft t := congrArg List.length hu
      exact (ih call none (by omega) (by omega)).mono (by omega)
    · next hopen =>
      refine parseAlike_parseCallRest e context false _ (Nat.lt_succ_self _)
        fun call t ht hcall => ?_
      rw [ht] at hcall
      exact absurd hcall hopen

theorem parseAlike_parseFunction (context : Option (Exp F D)) (hleft : tokensLeft s ≤ left)
    (hrounds : tokensLeft s + 1 ≤ min rounds rounds') :
    ParseAlike (tokensLeft s) (parseFunction knot source rounds context)
      (parseFunction knot' source rounds' context) s := by
  refine (parseAlike_parseAtom hknot hleft (by omega)).bind fun e t ht => .step rfl ?_
  split
  · exact (parseAlike_parseCall hknot e context (by omega) (by omega)).mono (by omega)
  · exact endAlike_pure _ ht

/-- The bracket of an array is taken, behind an expression before the array is parsed. -/
theorem parseAlike_parseArray (context : Option (Exp F D))
    (hinside : context.isSome = true → tokensLeft s < left)
    (houtside : context.isSome = false → s.tokens.tail.length < tokensLeft s ∧ tokensLeft s ≤ left)
    (hrounds : tokensLeft s + 2 ≤ min rounds rounds') :
    ParseAlike (tokensLeft s) (parseArray knot rounds context) (parseArray knot' rounds' context)
      s := by
  obtain _ | rounds := rounds
  · omega
  obtain _ | rounds' := rounds'
  · omega
  rw [parseArray, parseArray, parseCall_succ, parseCall_succ]
  refine .step rfl ?_
  rw [Bool.true_or, if_pos rfl, if_pos rfl]
  have hleft : tokensLeft s ≤ left := by
    cases hcontext : context.isSome with
    | true => exact Nat.le_of_lt (hinside hcontext)
    | false => exact (houtside hcontext).2
  have hfew : tokensLeft s < min rounds rounds' := by omega
  have hopened := parseAlike_parseOpened hknot context true (by rwa [Bool.and_true])
    (by rwa [Bool.and_true]) hfew
  refine hopened.bind fun args t ht => ?_
  refine parseAlike_parseCallRest _ context true args ht fun call u hu _ => ?_
  have hsame : tokensLeft u = tokensLeft t := congrArg List.length hu
  exact (parseAlike_parseCall hknot call none (by omega) (by omega)).mono (by omega)

theorem parseAlike_parseOOPRest (e : Exp F D) (hleft : tokensLeft s ≤ left)
    (hrounds : tokensLeft s + 2 ≤ min rounds rounds') :
    ParseAlike (tokensLeft s + 1) (parseOOPRest knot source rounds e)
      (parseOOPRest knot' source rounds' e) s := by
  induction rounds generalizing rounds' s e with
  | zero => omega
  | succ rounds ih =>
    obtain _ | rounds' := rounds'
    · omega
    refine .step rfl ?_
    split
    · next hopen =>
      have hlt := tokensLeft_of_isOperator hopen
      refine parseAlike_next fun t ht => ?_
      refine (parseAlike_parseArray hknot (some e) (fun _ => by omega) (fun h => by cases h)
        (by omega)).bind fun e u hu => ?_
      exact (ih e (by omega) (by omega)).mono (by omega)
    · refine .step rfl ?_
      split
      · next hdot =>
        have hlt := tokensLeft_of_isOperator hdot
        refine parseAlike_next fun t ht => ?_
        refine (parseAlike_parseFunction hknot (some e) (by omega) (by omega)).bind fun e u hu => ?_
        exact (ih e (by omega) (by omega)).mono (by omega)
      · exact endAlike_pure _ (Nat.lt_succ_self _)

theorem parseAlike_parseOOP (hleft : tokensLeft s ≤ left)
    (hrounds : tokensLeft s + 2 ≤ min rounds rounds') :
    ParseAlike (tokensLeft s) (parseOOP knot source rounds) (parseOOP knot' source rounds') s := by
  have hrest (e : Exp F D) (t : ParserState F D) (ht : tokensLeft t < tokensLeft s) :
      ParseAlike (tokensLeft s) (parseOOPRest knot source rounds e)
        (parseOOPRest knot' source rounds' e) t :=
    (parseAlike_parseOOPRest hknot e (by omega) (by omega)).mono (by omega)
  refine .step rfl ?_
  split
  · next hopen =>
    have hlt := tokensLeft_of_isOperator hopen
    exact (parseAlike_parseArray hknot none (fun h => by cases h) (fun _ => ⟨hlt, hleft⟩)
      hrounds).bind hrest
  · exact (parseAlike_parseFunction hknot none hleft (by omega)).bind hrest

theorem parseAlike_parseUnary (hleft : tokensLeft s ≤ left)
    (hrounds : tokensLeft s + 3 ≤ min rounds rounds') :
    ParseAlike (tokensLeft s) (parseUnary knot source rounds) (parseUnary knot' source rounds')
      s := by
  induction rounds generalizing rounds' s with
  | zero => omega
  | succ rounds ih =>
    obtain _ | rounds' := rounds'
    · omega
    have hoperand {op : Operator} (h : (s.tokens.head?.getD .eof).isOperator op = true)
        (t : ParserState F D) (ht : tokensLeft t ≤ s.tokens.tail.length) :
        ParseAlike (tokensLeft s) (parseUnary knot source rounds) (parseUnary knot' source rounds')
          t := by
      have hlt := tokensLeft_of_isOperator h
      exact (ih (by omega) (by omega)).mono (by omega)
    refine .step rfl ?_
    split
    · next hplus => exact parseAlike_next (hoperand hplus)
    · refine .step rfl ?_
      split
      · next hminus =>
        exact parseAlike_next fun t ht =>
          (hoperand hminus t ht).bind fun e u hu => endAlike_pure _ hu
      · refine .step rfl ?_
        split
        · next hnot =>
          exact parseAlike_next fun t ht =>
            (hoperand hnot t ht).bind fun e u hu => endAlike_pure _ hu
        · exact parseAlike_parseOOP hknot hleft (by omega)

theorem parseAlike_parseMultiplicationRest (e : Exp F D) (hleft : tokensLeft s ≤ left)
    (hrounds : tokensLeft s + 3 ≤ min rounds rounds') :
    ParseAlike (tokensLeft s + 1) (parseMultiplicationRest knot source rounds e)
      (parseMultiplicationRest knot' source rounds' e) s := by
  induction rounds generalizing rounds' s e with
  | zero => omega
  | succ rounds ih =>
    obtain _ | rounds' := rounds'
    · omega
    refine .step rfl ?_
    split
    · next op hop =>
      have hlt := tokensLeft_of_token (s := s) rfl (by
        cases h : s.tokens.head?.getD .eof with
        | eof => rw [h] at hop; cases hop
        | _ => rfl)
      refine parseAlike_next fun t ht => ?_
      refine (parseAlike_parseUnary hknot (by omega) (by omega)).bind
        fun right u hu => ?_
      exact (ih _ (by omega) (by omega)).mono (by omega)
    · exact endAlike_pure _ (Nat.lt_succ_self _)

theorem parseAlike_parseMultiplication (negationOnHold : Bool) (hleft : tokensLeft s ≤ left)
    (hrounds : tokensLeft s + 3 ≤ min rounds rounds') :
    ParseAlike (tokensLeft s) (parseMultiplication knot source rounds negationOnHold)
      (parseMultiplication knot' source rounds' negationOnHold) s := by
  refine (parseAlike_parseUnary hknot hleft hrounds).bind fun e t ht => ?_
  refine (parseAlike_parseMultiplicationRest hknot e (by omega) (by omega)).bind fun e u hu => ?_
  split
  · exact endAlike_pure _ (by omega)
  · exact endAlike_pure _ (by omega)

theorem parseAlike_parseAddition (negationOnHold : Bool) (hleft : tokensLeft s ≤ left)
    (hrounds : tokensLeft s + 4 ≤ min rounds rounds') :
    ParseAlike (tokensLeft s) (parseAddition knot source rounds negationOnHold)
      (parseAddition knot' source rounds' negationOnHold) s := by
  induction rounds generalizing rounds' s negationOnHold with
  | zero => omega
  | succ rounds ih =>
    obtain _ | rounds' := rounds'
    · omega
    refine (parseAlike_parseMultiplication hknot negationOnHold hleft (by omega)).bind
      fun e t ht => .step rfl (.step rfl (.step rfl ?_))
    split
    · refine parseAlike_next fun u hu => ?_
      have hle := t.tokens.length_tail
      have hu' : tokensLeft u ≤ tokensLeft t := by
        unfold tokensLeft at *
        omega
      refine (ih _ (by omega) (by omega)).bind fun right v hv => ?_
      split
      · exact endAlike_pure _ (by omega)
      · exact endAlike_pure _ (by omega)
    · exact endAlike_pure _ ht

theorem parseAlike_parseComparisonRest (e : Exp F D) (result : Option (Exp F D))
    (hleft : tokensLeft s ≤ left) (hrounds : tokensLeft s + 4 ≤ min rounds rounds') :
    ParseAlike (tokensLeft s + 1) (parseComparisonRest knot source rounds e result)
      (parseComparisonRest knot' source rounds' e result) s := by
  induction rounds generalizing rounds' s e result with
  | zero => omega
  | succ rounds ih =>
    obtain _ | rounds' := rounds'
    · omega
    refine .step rfl ?_
    split
    · next compare hcompare =>
      have hlt := tokensLeft_of_token (s := s) rfl (by
        cases h : s.tokens.head?.getD .eof with
        | eof => rw [h] at hcompare; cases hcompare
        | _ => rfl)
      refine parseAlike_next fun t ht => ?_
      refine (parseAlike_parseAddition hknot false (by omega) (by omega)).bind
        fun right u hu => ?_
      exact (ih _ _ (by omega) (by omega)).mono (by omega)
    · exact endAlike_pure _ (Nat.lt_succ_self _)

section

variable (hleft : tokensLeft s ≤ left)
include hleft

theorem parseAlike_parseComparison (hrounds : tokensLeft s + 4 ≤ min rounds rounds') :
    ParseAlike (tokensLeft s) (parseComparison knot source rounds)
      (parseComparison knot' source rounds') s := by
  refine (parseAlike_parseAddition hknot false hleft hrounds).bind fun e t ht => ?_
  exact (parseAlike_parseComparisonRest hknot e none (by omega) (by omega)).mono
    (by omega)

theorem parseAlike_parseAnd (hrounds : tokensLeft s + 5 ≤ min rounds rounds') :
    ParseAlike (tokensLeft s) (parseAnd knot source rounds) (parseAnd knot' source rounds') s := by
  induction rounds generalizing rounds' s with
  | zero => omega
  | succ rounds ih =>
    obtain _ | rounds' := rounds'
    · omega
    refine (parseAlike_parseComparison hknot hleft (by omega)).bind
      fun e t ht => .step rfl ?_
    split
    · next hand =>
      have hlt := tokensLeft_of_isOperator hand
      refine parseAlike_next fun u hu => ?_
      exact (ih (by omega) (by omega)).bind fun right v hv =>
        endAlike_pure _ (by omega)
    · exact endAlike_pure _ ht

section

variable (hrounds : tokensLeft s + 6 ≤ min rounds rounds')
include hrounds

theorem parseAlike_parseOr :
    ParseAlike (tokensLeft s) (parseOr knot source rounds) (parseOr knot' source rounds') s := by
  induction rounds generalizing rounds' s with
  | zero => omega
  | succ rounds ih =>
    obtain _ | rounds' := rounds'
    · omega
    refine (parseAlike_parseAnd hknot hleft (by omega)).bind
      fun e t ht => .step rfl ?_
    split
    · next hor =>
      have hlt := tokensLeft_of_isOperator hor
      refine parseAlike_next fun u hu => ?_
      exact (ih (by omega) (by omega)).bind fun right v hv =>
        endAlike_pure _ (by omega)
    · exact endAlike_pure _ ht

theorem parseAlike_parseConditional :
    ParseAlike (tokensLeft s) (parseConditional knot source rounds)
      (parseConditional knot' source rounds') s := by
  refine (parseAlike_parseOr hknot hleft hrounds).bind fun a t ht => .step rfl ?_
  split
  · next hop =>
    have hlt := tokensLeft_of_isOperator hop
    refine parseAlike_next fun u hu => ?_
    refine (hknot.assignmentWithRet u (by omega)).bind fun b v hv => ?_
    refine (parseAlike_expect ':').bind fun _ w hw => ?_
    exact (hknot.assignmentWithRet w (by omega)).bind fun c x hx => endAlike_pure _ (by omega)
  · exact endAlike_pure _ ht

theorem parseAlike_parseAssignmentWithRet :
    ParseAlike (tokensLeft s) (parseAssignmentWithRet knot source rounds)
      (parseAssignmentWithRet knot' source rounds') s := by
  refine (parseAlike_parseConditional hknot hleft hrounds).bind
    fun e t ht => .step rfl ?_
  split
  · next hop =>
    have hlt := tokensLeft_of_isOperator hop
    split
    · exact parseAlike_raiseError _
    · refine parseAlike_next fun u hu => ?_
      exact (hknot.assignmentWithRet u (by omega)).bind fun rhs v hv => endAlike_pure _ (by omega)
  · exact endAlike_pure _ ht

theorem parseAlike_parseAssignment :
    ParseAlike (tokensLeft s) (parseAssignment knot source rounds)
      (parseAssignment knot' source rounds') s := by
  refine .step rfl ?_
  split
  · next hglobal =>
    have hlt := tokensLeft_of_isIdentifier hglobal
    refine parseAlike_next fun t ht => ?_
    refine (parseAlike_takeIdentifier _).bind fun name u hu => ?_
    refine (parseAlike_expect '=').bind fun _ v hv => ?_
    exact (parseAlike_parseConditional hknot (by omega) (by omega)).bind
      fun e w hw => endAlike_pure _ (by omega)
  · refine (parseAlike_parseAssignmentWithRet hknot hleft hrounds).bind
      fun e t ht => .step rfl ?_
    split
    · next hop =>
      have hlt := tokensLeft_of_isOperator hop
      split
      · exact parseAlike_raiseError _
      · refine parseAlike_next fun u hu => ?_
        exact (parseAlike_parseAssignmentWithRet hknot (by omega) (by omega)).bind
          fun rhs v hv => endAlike_pure _ (by omega)
    · exact endAlike_pure _ ht

end

end

end Expressions

section Statements

variable {knot knot' : Knot F D} {source : Source} {left rounds rounds' : ℕ}
  (hknot : Knot.Alike left knot knot')

include hknot

section

variable (hleft : tokensLeft s ≤ left)
include hleft

section

variable (hkeyword : s.tokens.tail.length < tokensLeft s)
include hkeyword

theorem parseAlike_parseIf (hrounds : tokensLeft s + 1 ≤ min rounds rounds') :
    ParseAlike (tokensLeft s) (parseIf knot rounds) (parseIf knot' rounds') s := by
  induction rounds generalizing rounds' s with
  | zero => omega
  | succ rounds ih =>
    obtain _ | rounds' := rounds'
    · omega
    refine parseAlike_next fun t ht => (parseAlike_expect '(').bind fun _ u hu => ?_
    refine (hknot.assignmentWithRet u (by omega)).bind fun cond v hv => ?_
    refine (parseAlike_expect ')').bind fun _ w hw => ?_
    refine (hknot.block w (by omega)).bind fun thenBlock x hx => ?_
    refine (parseAlike_skipNewlines (by omega)).bind fun _ y hy => .step rfl ?_
    split
    · next helse =>
      have hlt := tokensLeft_of_isIdentifier helse
      refine parseAlike_next fun z hz => .step rfl ?_
      split
      · next hif =>
        exact (ih (by omega) (tokensLeft_of_isIdentifier hif) (by omega)).bind
          fun e _ _ => endAlike_pure _ (by omega)
      · exact (hknot.block z (by omega)).bind fun e _ _ => endAlike_pure _ (by omega)
    · exact endAlike_pure _ (by omega)

omit hkeyword hleft in
theorem parseAlike_parseLoopBody (hleft : tokensLeft s < left) :
    ParseAlike (tokensLeft s) (parseLoopBody knot) (parseLoopBody knot') s := by
  have henter : ParseAlike (tokensLeft s + 1) (enterLoop : Parser F D Unit) enterLoop s :=
    endAlike_update _ (Nat.lt_succ_self _)
  refine henter.bind fun _ t ht => (hknot.block t (by omega)).bind fun body u hu => ?_
  have hleave : ParseAlike (tokensLeft s) (leaveLoop : Parser F D Unit) leaveLoop u :=
    endAlike_update _ (Nat.lt_of_lt_of_le hu (Nat.le_of_lt_succ ht))
  exact hleave.bind fun _ v hv => endAlike_pure _ hv

theorem parseAlike_parseWhile :
    ParseAlike (tokensLeft s) (parseWhile knot) (parseWhile knot') s := by
  refine parseAlike_next fun t ht => (parseAlike_expect '(').bind fun _ u hu => ?_
  refine (hknot.assignmentWithRet u (by omega)).bind fun cond v hv => ?_
  refine (parseAlike_expect ')').bind fun _ w hw => ?_
  exact (parseAlike_parseLoopBody hknot (by omega)).bind fun body x hx =>
    endAlike_pure _ (by omega)

theorem parseAlike_parseFor :
    ParseAlike (tokensLeft s) (parseFor knot) (parseFor knot') s := by
  refine parseAlike_next fun t ht => (parseAlike_expect '(').bind fun _ u hu => ?_
  refine (parseAlike_takeIdentifier _).bind fun id v hv => ?_
  refine (parseAlike_expect '=').bind fun _ w hw => ?_
  refine (hknot.assignmentWithRet w (by omega)).bind fun init x hx => ?_
  refine (parseAlike_expect ',').bind fun _ y hy => ?_
  refine (hknot.assignmentWithRet y (by omega)).bind fun limit z hz => .step rfl ?_
  have hbody (step : Exp F D) (t' : ParserState F D) (ht' : tokensLeft t' ≤ tokensLeft z) :
      ParseAlike (tokensLeft s)
        (expect ')' >>= fun _ => parseLoopBody knot >>= fun body =>
          pure (Exp.forLoop id init limit step body))
        (expect ')' >>= fun _ => parseLoopBody knot' >>= fun body =>
          pure (Exp.forLoop id init limit step body)) t' := by
    refine (parseAlike_expect ')').bind fun _ u' hu' => ?_
    exact (parseAlike_parseLoopBody hknot (by omega)).bind fun body v' hv' =>
      endAlike_pure _ (by omega)
  split
  · next hop =>
    have hlt := tokensLeft_of_isOperator hop
    refine parseAlike_next fun t' ht' => ?_
    exact (hknot.assignmentWithRet t' (by omega)).bind fun step u' hu' => hbody step u' (by omega)
  · exact .step rfl (hbody _ z (Nat.le_refl _))

theorem parseAlike_parseTry (hrounds : tokensLeft s < min rounds rounds') :
    ParseAlike (tokensLeft s) (parseTry knot rounds) (parseTry knot' rounds') s := by
  refine parseAlike_next fun t ht => (hknot.block t (by omega)).bind fun tryBlock u hu => ?_
  refine (parseAlike_skipNewlines (by omega)).bind fun _ v hv => .step rfl ?_
  refine .after (parseAlike_raiseError _) fun w hw => parseAlike_next fun x hx => ?_
  have hle := w.tokens.length_tail
  have hx' : tokensLeft x ≤ tokensLeft w := by
    unfold tokensLeft at *
    omega
  refine (parseAlike_expect '(').bind fun _ y hy => ?_
  refine (parseAlike_takeIdentifier _).bind fun id z hz => ?_
  refine (parseAlike_expect ')').bind fun _ t' ht' => ?_
  exact (hknot.block t' (by omega)).bind fun catchBlock u' hu' => endAlike_pure _ (by omega)

end

omit hleft hknot in
theorem parseAlike_parseJump (jump : Exp F D) (name : String)
    (hkeyword : s.tokens.tail.length < tokensLeft s) :
    ParseAlike (tokensLeft s) (parseJump jump name) (parseJump jump name) s := by
  by_cases hdepth : s.loopDepth ≤ 0
  · have hraise : parseJump jump name s =
        raiseError ("'" ++ name ++ "' statement outside of loop.") s := if_pos hdepth
    exact ⟨_, _, hraise, hraise, fun a h => by cases h⟩
  · have hjump : parseJump jump name s =
        (do nextToken; pure jump : Parser F D (Exp F D)) s := if_neg hdepth
    exact ⟨_, _, hjump, hjump, fun a h => hkeyword⟩

/-- A statement takes a token, unless there is none. -/
theorem parseAlike_parseStatement (hnewline : (s.tokens.head?.getD .eof).isNewline = false)
    (heof : (s.tokens.head?.getD .eof).isEOF = false)
    (hrounds : tokensLeft s + 6 ≤ min rounds rounds') :
    ParseAlike (tokensLeft s) (parseStatement knot source rounds)
      (parseStatement knot' source rounds') s := by
  have hkeyword := tokensLeft_of_token rfl heof
  refine .step rfl (.step rfl ?_)
  rw [hnewline, heof, Bool.or_false, if_neg Bool.false_ne_true, if_neg Bool.false_ne_true]
  refine .step rfl ?_
  split
  · exact (parseAlike_parseTry hknot hleft hkeyword (by omega)).bind
      fun e t ht => endAlike_pure _ ht
  refine .step rfl ?_
  split
  · exact (parseAlike_parseIf hknot hleft hkeyword (by omega)).bind
      fun e t ht => endAlike_pure _ ht
  refine .step rfl ?_
  split
  · exact (parseAlike_parseWhile hknot hleft hkeyword).bind fun e t ht => endAlike_pure _ ht
  refine .step rfl ?_
  split
  · exact (parseAlike_parseFor hknot hleft hkeyword).bind fun e t ht => endAlike_pure _ ht
  refine .step rfl ?_
  split
  · refine parseAlike_next fun t ht => ?_
    exact (parseAlike_parseAssignmentWithRet hknot (by omega) (by omega)).bind
      fun e u hu => endAlike_pure _ (by omega)
  refine .step rfl ?_
  split
  · exact (parseAlike_parseJump _ _ hkeyword).bind fun e t ht => endAlike_pure _ ht
  refine .step rfl ?_
  split
  · exact (parseAlike_parseJump _ _ hkeyword).bind fun e t ht => endAlike_pure _ ht
  · exact (parseAlike_parseAssignment hknot hleft hrounds).bind
      fun e t ht => endAlike_pure _ ht

end

omit hknot in
/-- A block ends here, or it should, or it goes on with the current token. -/
theorem atBlockEnd_cases (braced : Bool) (s : ParserState F D) :
    (∃ e, atBlockEnd braced s = some (.error e, s)) ∨
    (∃ t, atBlockEnd braced s = some (.ok true, t) ∧ tokensLeft t ≤ tokensLeft s) ∨
    atBlockEnd braced s = some (.ok false, s) ∧ (s.tokens.head?.getD .eof).isEOF = false := by
  by_cases hclose : (s.tokens.head?.getD .eof).isOperator (.single '\x7d') = true
  · have hend : atBlockEnd braced s = (if braced then
        (do nextToken; pure true : Parser F D Bool)
      else raiseError "Script error: found \x7d without a matching \x7b") s :=
      congrFun (if_pos hclose) s
    rw [hend]
    cases braced with
    | true => exact .inr (.inl ⟨_, rfl, Nat.le_of_lt (tokensLeft_of_isOperator hclose)⟩)
    | false => exact .inl ⟨_, rfl⟩
  · have hend : atBlockEnd braced s = (if (s.tokens.head?.getD .eof).isEOF then
        if braced then raiseError "Script error: end of file reached without matching \x7d"
        else pure true
      else pure false : Parser F D Bool) s := congrFun (if_neg hclose) s
    rw [hend]
    cases heof : (s.tokens.head?.getD .eof).isEOF with
    | false => exact .inr (.inr ⟨rfl, rfl⟩)
    | true =>
      cases braced with
      | true => exact .inl ⟨_, rfl⟩
      | false => exact .inr (.inl ⟨_, rfl, Nat.le_refl _⟩)

theorem parseAlike_parseStatements (braced : Bool) (block : BlockState F D)
    (hleft : tokensLeft s ≤ left) (hrounds : tokensLeft s + 7 ≤ min rounds rounds') :
    ParseAlike (tokensLeft s + 1) (parseStatements knot source braced rounds block)
      (parseStatements knot' source braced rounds' block) s := by
  induction rounds generalizing rounds' s block with
  | zero => omega
  | succ rounds ih =>
    obtain _ | rounds' := rounds'
    · omega
    have hrest (block : BlockState F D) (t : ParserState F D) (ht : tokensLeft t < tokensLeft s) :
        ParseAlike (tokensLeft s + 1) (parseStatements knot source braced rounds block)
          (parseStatements knot' source braced rounds' block) t :=
      (ih block (by omega) (by omega)).mono (by omega)
    refine .step rfl ?_
    split
    · next hnewline =>
      have hlt := tokensLeft_of_isNewline hnewline
      exact parseAlike_next fun t ht => hrest block t (by omega)
    · next hnewline =>
      obtain ⟨e, hend⟩ | ⟨t, hend, ht⟩ | ⟨hend, heof⟩ := atBlockEnd_cases braced s
      · exact endAlike_of_error hend _ _
      · exact .step hend (endAlike_pure _ (Nat.lt_succ_of_le ht))
      · refine .step hend ?_
        refine (parseAlike_parseStatement hknot hleft (by simpa using hnewline) heof
          (by omega)).bind fun ⟨exp, stop⟩ t ht => ?_
        dsimp only
        split
        · refine .step rfl ?_
          exact hrest _ t ht
        · exact hrest _ t ht

theorem parseAlike_parseBlock (hleft : tokensLeft s ≤ left)
    (hrounds : tokensLeft s + 7 ≤ min rounds rounds') :
    ParseAlike (tokensLeft s) (parseBlock knot source true rounds)
      (parseBlock knot' source true rounds') s := by
  refine (parseAlike_skipNewlines (by omega)).bind fun _ t ht => ?_
  refine (parseAlike_expect _).bind fun _ u hu => ?_
  exact (parseAlike_parseStatements hknot true _ (by omega) (by omega)).mono (by omega)

end Statements

/-- Levels that are high enough for the tokens that are left do the same. -/
theorem alike_level (source : Source) {n n' left : ℕ} (hn : left + 7 ≤ min n n') :
    Knot.Alike left (level source n : Knot F D) (level source n') := by
  induction left generalizing n n' with
  | zero =>
    exact ⟨fun s hs => absurd hs (Nat.not_lt_zero _), fun s hs => absurd hs (Nat.not_lt_zero _)⟩
  | succ left ih =>
    obtain _ | n := n
    · omega
    obtain _ | n' := n'
    · omega
    have hknot : Knot.Alike left (level source n : Knot F D) (level source n') := ih (by omega)
    constructor
    · intro s hs
      exact parseAlike_parseAssignmentWithRet hknot (by omega) (by omega)
    · intro s hs
      exact parseAlike_parseBlock hknot (by omega) (by omega)

/-- The parser ends on every script, with the same result whatever the number of its levels, if
there are eight more of them than tokens. -/
theorem parse_ends (source : Source) (s : ParserState F D) :
    ∃ ended, ∀ n, s.tokens.length + 8 ≤ n → parse source n s = some ended := by
  have hsame (n n' : ℕ) (hn : s.tokens.length + 8 ≤ n) (hn' : s.tokens.length + 8 ≤ n') :
      EndAlike tokensLeft (tokensLeft s + 1) (parse source n) (parse source n') s := by
    have hknot : Knot.Alike (tokensLeft s + 1) (level source n : Knot F D) (level source n') :=
      alike_level source (Nat.le_min.mpr ⟨hn, hn'⟩)
    refine EndAlike.catching ?_ fun e t => ?_
    · refine EndAlike.bind ?_ fun block t ht => endAlike_pure _ ht
      exact parseAlike_parseStatements hknot false _ (Nat.le_succ _) (by unfold tokensLeft; omega)
    · cases e with
      | avisynthError msg => exact ⟨_, _, rfl, rfl, fun a h => by cases h⟩
      | _ => exact parseAlike_raiseError _
  obtain ⟨result, t, hend, -⟩ := exists_of_endAlike hsame
  exact ⟨(result, t), hend⟩

end ScriptParser

end Language

end AviSynth
