import AviSynth.Language.ArithmeticParsing
import AviSynth.Library.IntegerText
import AviSynth.Script.NumberLiterals

/-!
# Values as text, and text as values

`String` prints a value, and `Eval` evaluates a text: the tokenizer reads its tokens, the parser
makes a tree of them, and the tree is evaluated. A character of a string stands for one byte.
-/

namespace AviSynth

namespace Language

open Exceptional ScriptParser

section Printing

variable {F D : Type}

/-- The functions of the C library that print numbers in floating point. -/
structure FloatPrinter (D : Type) where
  /-- `snprintf` with `%lf`, if it succeeds. -/
  lf : D → Option String
  /-- `Sprintf` with the format that a script gives. -/
  sprintf : String → D → String

/-- `FormatDefaultFloat`. -/
def formatDefaultFloat (printer : FloatPrinter D) (value : D) : Result F D String :=
  match printer.lf value with
  | some text => .ok text
  | none => .error (.avisynthError "String: could not format floating-point value")

variable [Floating F D]

/-- `String` of a value that is neither a string nor a bool nor a function, with a format. -/
def formatNumber (printer : FloatPrinter D) (value format : AVSValue F D) : AVSValue F D :=
  match value with
  | .float f => .string (printer.sprintf (format.asString.getD "%f") (Floating.widen f))
  | value =>
    match value.asFloat with
    | some d => .string (printer.sprintf (format.asString.getD "%lf") d)
    | none => .string ""

/-- `String` of such a value, without a format. -/
def printNumber (printer : FloatPrinter D) : AVSValue F D → Result F D (AVSValue F D)
  | .long longlong => .ok (.string (toString longlong.toInt))
  | .int integer => .ok (.string (toString integer.toInt))
  | value =>
    match value.asFloat with
    | some d => .string <$> formatDefaultFloat printer d
    | none => .ok (.string "")

/-- `String`. -/
def string (printer : FloatPrinter D) (objects : List (FunctionInstance F D))
    (value format : AVSValue F D) : Result F D (AVSValue F D) :=
  match value with
  | .string s => .ok (.string s)
  | .bool b => .ok (.string (if b then "true" else "false"))
  | .function f => .ok (.string (f.toString objects))
  | value =>
    if format.defined then .ok (formatNumber printer value format) else printNumber printer value

/-- `AVSValue_to_string`. -/
def avsValueToString (printer : FloatPrinter D) (objects : List (FunctionInstance F D)) :
    AVSValue F D → Result F D String
  | .string s => .ok s
  | .bool b => .ok (if b then "true" else "false")
  | .function f => .ok (f.toString objects)
  | value =>
    match value.asLong, value.asFloat with
    | some longlong, _ => .ok (toString longlong.toInt)
    | none, some d => formatDefaultFloat printer d
    | none, none => .ok ""

end Printing

section Reading

variable {D : Type}

/-- The bytes of a string. -/
def textBytes (text : String) : Bytes := text.toList.map fun c => UInt8.ofNat c.toNat

/-- The string of some bytes. -/
def bytesText (bytes : Bytes) : String := String.ofList (bytes.map fun b => Char.ofNat b.toNat)

/-- The operator of a code, which has two bytes if it has two characters. -/
def operatorOf (code : ℕ) : Operator :=
  if code < 256 then .single (Char.ofNat code)
  else .pair (Char.ofNat (code / 256)) (Char.ofNat (code % 256))

/-- A token as the parser sees it. -/
def tokenOf : ScriptToken D → Token D
  | .eof => .eof
  | .newline => .newline
  | .operator code => .operator (operatorOf code)
  | .integer value => .int (Int32.ofInt value)
  | .longlong value => .long (Int64.ofInt value)
  | .doublePt value => .float value
  | .string text => .string (bytesText text)
  | .identifier name => .identifier (bytesText name)

/-- The tokens up to the end of the script, with `n` tokens at most. -/
def readTokens (ops : DoubleArithmetic D) : ℕ → TokenReader D →
    Option (Except String (List (Token D)))
  | 0, _ => none
  | n + 1, r =>
    match r.nextToken ops with
    | .error msg => some (.error msg)
    | .ok r =>
      match r.token with
      | .eof => some (.ok [])
      | token => (readTokens ops n r).map fun tokens => (tokenOf token :: ·) <$> tokens

variable {ops : DoubleArithmetic D} {r r' : TokenReader D} {n : ℕ} {tokens : List (Token D)}

theorem readTokens_eof (h : r.nextToken ops = .ok r') (hend : r'.token = .eof) :
    readTokens ops (n + 1) r = some (.ok []) := by
  rw [readTokens, h]
  dsimp only
  rw [hend]

theorem readTokens_cons (h : r.nextToken ops = .ok r') (hmore : r'.token ≠ .eof)
    (htokens : readTokens ops n r' = some (.ok tokens)) :
    readTokens ops (n + 1) r = some (.ok (tokenOf r'.token :: tokens)) := by
  rw [readTokens, h]
  dsimp only
  split
  · contradiction
  · rw [htokens]
    rfl

/-- `Eval`, where the parser starts in the state `s` and makes `n` steps at most. -/
def eval {W : Type} (calls : Calls Float32 Float W) (source : Source) (n rounds : ℕ)
    (s : ParserState Float32 Float) (text : Bytes) :
    Eval Float32 Float W (AVSValue Float32 Float) :=
  match readTokens doubles n (TokenReader.start text) with
  | none => diverge
  | some (.error msg) => raise (.avisynthError msg)
  | some (.ok tokens) =>
    match parse source n { s with tokens := tokens } with
    | none => diverge
    | some (.error e, _) => raise e
    | some (.ok tree, _) => evaluate calls rounds tree

end Reading

section Statements

variable {F D : Type}

/-- The words that begin statements and function definitions. -/
def keywords : List String :=
  ["function", "global", "try", "if", "while", "for", "return", "break", "continue"]

/-- The first token of a statement that is an expression. -/
structure StartsExpression (t : Token D) : Prop where
  newline : t.isNewline = false
  eof : t.isEOF = false
  identifier : ∀ id ∈ keywords, t.isIdentifier id = false
  brace : t.isOperator (.single '\x7d') = false

variable {source : Source} {t : Token D} {ts : List (Token D)} {e : Exp F D}

/-- An expression at the end of a script, with its place. -/
def atEnd (source : Source) (e : Exp F D) : Exp F D :=
  match source.filename with
  | some filename => .line e filename (source.lineOf 0)
  | none => e

/-- An expression that is not assigned to is a statement. -/
theorem takes_parseStatement {knot : Knot F D} {rounds : ℕ} {rest : List (Token D)}
    (hstart : StartsExpression t)
    (hassign : Takes (parseAssignmentWithRet knot source rounds) (t :: ts) rest e)
    (hrest : (headToken rest).isOperator (.single '=') = false) :
    Takes (parseStatement knot source rounds) (t :: ts) rest (some e, false) := by
  have hhead : headToken (t :: ts ++ rest) = t := rfl
  have hassignment : Takes (parseAssignment knot source rounds) (t :: ts) rest e := by
    refine takes_isIdentifier ?_
    rw [hhead, hstart.identifier _ (by decide)]
    exact hassign.then (takes_skip hrest (takes_pure e rest))
  have hkeyword {id : String} (hid : id ∈ keywords)
      {next : Bool → Parser F D (Option (Exp F D) × Bool)}
      (h : Takes (next false) (t :: ts) rest (some e, false)) :
      Takes (isIdentifier id >>= next) (t :: ts) rest (some e, false) := by
    refine takes_isIdentifier ?_
    rwa [hhead, hstart.identifier _ hid]
  refine takes_token (takes_token ?_)
  rw [hhead, hstart.newline, hstart.eof]
  refine hkeyword (by decide) (hkeyword (by decide) (hkeyword (by decide) ?_))
  refine hkeyword (by decide) (hkeyword (by decide) (hkeyword (by decide) ?_))
  exact hkeyword (by decide) (hassignment.then (takes_pure _ rest))

/-- A script that is an expression alone. -/
theorem takes_parse {n : ℕ} (hstart : StartsExpression t) (hkept : kept false (some e) = some e)
    (hassign : Takes (parseAssignmentWithRet (level source (n + 2)) source (n + 1)) (t :: ts) []
      e) :
    Takes (parse source (n + 2)) (t :: ts) [] (.rootBlock (atEnd source e)) := by
  have hhead : headToken (t :: ts ++ []) = t := rfl
  have hend (trees : List (Option (Exp F D))) :
      Takes (parseStatements (level source (n + 2)) source false (n + 1) ⟨trees, false⟩) [] []
        (CarryTrees.merge .sequence trees) := fun _ => rfl
  have hlocated : Takes (located source e) [] [] (atEnd source e) := fun _ => rfl
  have hstatements : Takes (parseBlock (level source (n + 2)) source false (n + 2)) (t :: ts) []
      (some (atEnd source e)) := by
    refine takes_token ?_
    rw [hhead, hstart.newline]
    have hopen : Takes (atBlockEnd false : Parser F D Bool) [] (t :: ts ++ [])
        false := by
      refine takes_isOperator ?_
      rw [List.nil_append, hhead, hstart.brace]
      refine takes_token ?_
      rw [List.nil_append, hhead, hstart.eof]
      exact takes_pure false _
    rw [← List.nil_append (t :: ts)]
    refine hopen.bind ?_
    refine (takes_parseStatement hstart hassign rfl).then ?_
    dsimp only
    rw [hkept]
    exact hlocated.then (hend _)
  intro s
  have hblock := hstatements s
  have hparsed : (do return Exp.rootBlock ((← parseBlock (level source (n + 2)) source false
      (n + 2)).getD (.constant .undefined)) : Parser F D (Exp F D))
        { s with tokens := t :: ts ++ [] } =
      some (.ok (.rootBlock (atEnd source e)), { s with tokens := [] }) :=
    bind_eq_ok.mpr ⟨_, _, hblock, rfl⟩
  rw [parse, catching, hparsed]
  rfl

variable [Floating F D] {W : Type}

/-- The place of an expression does not change its value. -/
theorem evaluatesTo_rootBlock {v : AVSValue F D} (h : EvaluatesTo W e (.ok v)) :
    EvaluatesTo W (.rootBlock (atEnd source e)) (.ok v) := by
  intro calls rounds
  have hplaced : evaluate calls rounds (atEnd source e) = ofResult (.ok v) := by
    unfold atEnd
    cases source.filename with
    | none => exact h calls rounds
    | some filename =>
      dsimp only
      rw [evaluate_line, h calls rounds]
      rfl
  change (evaluate calls rounds (atEnd source e)).catching _ = _
  rw [hplaced]
  rfl

end Statements

end Language

end AviSynth
