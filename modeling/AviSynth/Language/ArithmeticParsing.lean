import AviSynth.Language.IntegerExpressions

/-!
# Parsing integer expressions

The parser takes the tokens of an integer expression and leaves what is behind them, and
the tree that it makes evaluates to the value of the expression by convention.
-/

namespace AviSynth

namespace Language

open Exceptional ScriptParser

variable {F D : Type} {α β : Type}

/-- The token that the tokenizer is at. -/
def headToken (tokens : List (Token D)) : Token D := tokens.head?.getD .eof

/-- The parser takes the tokens `ts`, if `rest` follows them, and gives `a`. -/
def Takes (p : Parser F D α) (ts rest : List (Token D)) (a : α) : Prop :=
  ∀ s : ParserState F D, p { s with tokens := ts ++ rest } = some (.ok a, { s with tokens := rest })

section Rules

variable {ts ts' rest : List (Token D)} {a : α} {b : β} {next : Bool → Parser F D β}

theorem takes_pure (a : α) (rest : List (Token D)) : Takes (pure a : Parser F D α) [] rest a :=
  fun _ => rfl

theorem Takes.bind {p : Parser F D α} {next : α → Parser F D β} (hp : Takes p ts (ts' ++ rest) a)
    (hnext : Takes (next a) ts' rest b) : Takes (p >>= next) (ts ++ ts') rest b := by
  intro s
  rw [List.append_assoc]
  exact bind_eq_ok.mpr ⟨a, _, hp s, hnext s⟩

theorem Takes.then {p : Parser F D α} {next : α → Parser F D β} (hp : Takes p ts rest a)
    (hnext : Takes (next a) [] rest b) : Takes (p >>= next) ts rest b := by
  intro s
  exact bind_eq_ok.mpr ⟨a, _, hp s, hnext s⟩

/-- A look at the current token takes nothing. -/
theorem takes_token {next : Token D → Parser F D β}
    (h : Takes (next (headToken (ts ++ rest))) ts rest b) : Takes (token >>= next) ts rest b :=
  fun s => bind_eq_ok.mpr ⟨_, _, rfl, h s⟩

theorem takes_isOperator {op : Operator}
    (h : Takes (next ((headToken (ts ++ rest)).isOperator op)) ts rest b) :
    Takes (isOperator op >>= next) ts rest b :=
  fun s => bind_eq_ok.mpr ⟨_, _, rfl, h s⟩

theorem takes_isIdentifier {id : String}
    (h : Takes (next ((headToken (ts ++ rest)).isIdentifier id)) ts rest b) :
    Takes (isIdentifier id >>= next) ts rest b :=
  fun s => bind_eq_ok.mpr ⟨_, _, rfl, h s⟩

theorem takes_nextToken {next : Unit → Parser F D β} (t : Token D)
    (h : Takes (next ()) ts rest b) : Takes (nextToken >>= next) (t :: ts) rest b :=
  fun s => bind_eq_ok.mpr ⟨(), _, rfl, h s⟩

/-- An operator that does not follow is not looked for further. -/
theorem takes_skip {op : Operator} (hop : (headToken rest).isOperator op = false)
    (hnext : Takes (next false) [] rest b) :
    Takes (isOperator op >>= next) [] rest b := by
  refine takes_isOperator ?_
  rwa [List.nil_append, hop]

end Rules

/-- The tokens behind an operand neither call it nor look into it. -/
structure EndsUnary (rest : List (Token D)) : Prop where
  call : (headToken rest).isOperator (.single '(') = false
  index : (headToken rest).isOperator (.single '[') = false
  dot : (headToken rest).isOperator (.single '.') = false

/-- Nor do they multiply it. -/
structure EndsMultiplication (rest : List (Token D)) : Prop extends EndsUnary rest where
  factor : multiplicationOperator (headToken rest) = none

/-- Nor do they add to it. -/
structure EndsAddition (rest : List (Token D)) : Prop extends EndsMultiplication rest where
  plus : (headToken rest).isOperator (.single '+') = false
  minus : (headToken rest).isOperator (.single '-') = false
  doublePlus : (headToken rest).isOperator (.pair '+' '+') = false

/-- The tokens behind an expression do not go on with it in any way. -/
structure EndsExpression (F : Type) {D : Type} (rest : List (Token D)) : Prop
    extends EndsAddition rest where
  comparison : (comparisonOperator (headToken rest) : Option (Exp F D → Exp F D → Exp F D)) = none
  and : (headToken rest).isOperator (.pair '&' '&') = false
  or : (headToken rest).isOperator (.pair '|' '|') = false
  conditional : (headToken rest).isOperator (.single '?') = false
  assignment : (headToken rest).isOperator (.pair ':' '=') = false

/-- The closing parenthesis ends an expression. -/
theorem endsExpression_close (rest : List (Token D)) :
    EndsExpression F (.operator (.single ')') :: rest) := by
  refine ⟨⟨⟨⟨?_, ?_, ?_⟩, ?_⟩, ?_, ?_, ?_⟩, ?_, ?_, ?_, ?_, ?_⟩ <;> rfl

theorem EndsMultiplication.factors {rest : List (Token D)} (h : EndsMultiplication rest)
    (factors : Factors) : EndsUnary (factors.tokens D ++ rest) := by
  cases factors with
  | nil =>
    rw [Factors.tokens]
    exact h.toEndsUnary
  | cons op factor more =>
    rw [Factors.tokens]
    cases op <;> constructor <;> simp [headToken, Token.isOperator, FactorOperator.symbol]

theorem EndsAddition.summands {rest : List (Token D)} (h : EndsAddition rest)
    (summands : Summands) : EndsMultiplication (summands.tokens D ++ rest) := by
  cases summands with
  | nil =>
    rw [Summands.tokens]
    exact h.toEndsMultiplication
  | cons minus summand more =>
    rw [Summands.tokens]
    cases minus <;> refine ⟨⟨?_, ?_, ?_⟩, ?_⟩ <;>
      simp [headToken, Token.isOperator, multiplicationOperator]

section Levels

variable {knot : Knot F D} {source : Source} {ts rest : List (Token D)} {e : Exp F D}

/-- An atom that nothing is applied to is an operand. -/
theorem takes_parseOOP {t : Token D} {rounds : ℕ}
    (hatom : Takes (parseAtom knot source (rounds + 1)) (t :: ts) rest e)
    (hstart : t.isOperator (.single '[') = false) (hend : EndsUnary rest) :
    Takes (parseOOP knot source (rounds + 1)) (t :: ts) rest e := by
  have hfunction : Takes (parseFunction knot source (rounds + 1) none) (t :: ts) rest e :=
    hatom.then (takes_skip hend.call (takes_pure e rest))
  refine takes_isOperator ?_
  have hhead : headToken (t :: ts ++ rest) = t := rfl
  rw [hhead, hstart]
  exact hfunction.then (takes_skip hend.index (takes_skip hend.dot (takes_pure e rest)))

/-- The levels of the parser above an addition do nothing where no operator of theirs
follows. -/
theorem takes_parseAssignmentWithRet {rounds : ℕ}
    (haddition : Takes (parseAddition knot source (rounds + 1) false) ts rest e)
    (hend : EndsExpression F rest) :
    Takes (parseAssignmentWithRet knot source (rounds + 3)) ts rest e := by
  have hcomparison : Takes (parseComparison knot source (rounds + 1)) ts rest e := by
    refine haddition.then (takes_token ?_)
    rw [List.nil_append, hend.comparison]
    exact takes_pure e rest
  have hand : Takes (parseAnd knot source (rounds + 2)) ts rest e :=
    hcomparison.then (takes_skip hend.and (takes_pure e rest))
  have hor : Takes (parseOr knot source (rounds + 3)) ts rest e :=
    hand.then (takes_skip hend.or (takes_pure e rest))
  have hconditional : Takes (parseConditional knot source (rounds + 3)) ts rest e :=
    hor.then (takes_skip hend.conditional (takes_pure e rest))
  exact hconditional.then (takes_skip hend.assignment (takes_pure e rest))

end Levels

section Expressions

variable {source : Source}

mutual

/-- The parser makes the tree of an addition from its tokens. -/
theorem Addition.parses (e : Addition) {n rounds : ℕ} {rest : List (Token D)}
    (hlevel : (e.tokens D).length + 5 ≤ n) (hrounds : (e.tokens D).length + 2 ≤ rounds)
    (hend : EndsAddition rest) :
    Takes (parseAddition (level source n) source rounds false) (e.tokens D) rest
      (e.tree : Exp F D) :=
  match e with
  | .mk first more => by
    rw [Addition.tokens, List.length_append] at hlevel hrounds
    rw [Addition.tokens, Addition.tree]
    refine more.parses (first.tokens D) false (by omega) (by omega) hend
      fun k behind hk hbehind => ?_
    exact first.parses_signed false (by omega) hk hbehind

theorem Summands.parses (more : Summands) (ts : List (Token D)) (minus : Bool) {n rounds : ℕ}
    {left : Exp F D} {rest : List (Token D)}
    (hlevel : (more.tokens D).length + 5 ≤ n)
    (hrounds : ts.length + (more.tokens D).length + 2 ≤ rounds) (hend : EndsAddition rest)
    (hfirst : ∀ k behind, ts.length + 1 ≤ k → EndsMultiplication behind →
      Takes (parseMultiplication (level source n) source k minus) ts behind left) :
    Takes (parseAddition (level source n) source rounds minus) (ts ++ more.tokens D) rest
      (more.sumTree left) := by
  obtain _ | rounds := rounds
  · omega
  match more with
  | .nil =>
    rw [Summands.tokens, List.append_nil, Summands.sumTree]
    refine (hfirst rounds rest (by omega) hend.toEndsMultiplication).then ?_
    refine takes_skip hend.plus (takes_skip hend.minus (takes_skip hend.doublePlus ?_))
    exact takes_pure left rest
  | .cons minus' summand more =>
    have hbehind := hend.summands (.cons minus' summand more)
    refine (hfirst rounds _ (by omega) hbehind).bind ?_
    rw [Summands.tokens, List.length_cons, List.length_append] at hlevel hrounds
    rw [Summands.tokens, Summands.sumTree]
    have hright : Takes (parseAddition (level source n) source rounds minus')
        (summand.tokens D ++ more.tokens D) rest
        (more.sumTree (if minus' then .negate summand.tree else summand.tree : Exp F D)) := by
      refine more.parses (summand.tokens D) minus' (by omega) (by omega) hend
        fun k behind hk hend' => ?_
      exact summand.parses_signed minus' (by omega) hk hend'
    cases minus' with
    | false | true =>
      refine takes_isOperator (takes_isOperator (takes_isOperator (takes_nextToken _ ?_)))
      exact hright.then (takes_pure _ rest)

theorem Multiplication.parses_signed (e : Multiplication) (minus : Bool) {n rounds : ℕ}
    {rest : List (Token D)} (hlevel : (e.tokens D).length + 5 ≤ n)
    (hrounds : (e.tokens D).length + 1 ≤ rounds) (hend : EndsMultiplication rest) :
    Takes (parseMultiplication (level source n) source rounds minus) (e.tokens D) rest
      (if minus then .negate e.tree else e.tree : Exp F D) :=
  match e with
  | .mk first more => by
    rw [Multiplication.tokens, List.length_append] at hlevel hrounds
    rw [Multiplication.tokens, Multiplication.tree]
    refine (first.parses (by omega) (by omega) (hend.factors more)).bind ?_
    refine (more.parses first.tree (by omega) (by omega) hend).then ?_
    cases minus <;> exact takes_pure _ rest

theorem Factors.parses (more : Factors) (left : Exp F D) {n rounds : ℕ} {rest : List (Token D)}
    (hlevel : (more.tokens D).length + 5 ≤ n) (hrounds : (more.tokens D).length + 1 ≤ rounds)
    (hend : EndsMultiplication rest) :
    Takes (parseMultiplicationRest (level source n) source rounds left) (more.tokens D) rest
      (more.productTree left) := by
  obtain _ | rounds := rounds
  · omega
  match more with
  | .nil =>
    rw [Factors.tokens, Factors.productTree]
    refine takes_token ?_
    rw [List.nil_append, hend.factor]
    exact takes_pure left rest
  | .cons op factor more =>
    rw [Factors.tokens, List.length_cons, List.length_append] at hlevel hrounds
    rw [Factors.tokens, Factors.productTree]
    have hfactor : Takes (parseUnary (level source n) source rounds) (factor.tokens D)
        (more.tokens D ++ rest) (factor.tree : Exp F D) :=
      factor.parses (by omega) (by omega) (hend.factors more)
    have hmore : Takes (parseMultiplicationRest (level source n) source rounds
        (.arithmetic op.operator left factor.tree)) (more.tokens D) rest
        (more.productTree (.arithmetic op.operator left factor.tree)) :=
      more.parses _ (by omega) (by omega) hend
    refine takes_token ?_
    cases op with
    | mult | div | mod => exact takes_nextToken _ (hfactor.bind hmore)

theorem Unary.parses (e : Unary) {n rounds : ℕ} {rest : List (Token D)}
    (hlevel : (e.tokens D).length + 5 ≤ n) (hrounds : (e.tokens D).length + 1 ≤ rounds)
    (hend : EndsUnary rest) :
    Takes (parseUnary (level source n) source rounds) (e.tokens D) rest (e.tree : Exp F D) := by
  obtain _ | rounds := rounds
  · omega
  match e with
  | .plus u =>
    rw [Unary.tokens, List.length_cons] at hlevel hrounds
    rw [Unary.tokens, Unary.tree]
    exact takes_isOperator (takes_nextToken _ (u.parses (by omega) (by omega) hend))
  | .minus u =>
    rw [Unary.tokens, List.length_cons] at hlevel hrounds
    rw [Unary.tokens, Unary.tree]
    have hoperand : Takes (parseUnary (level source n) source rounds) (u.tokens D) rest
        (u.tree : Exp F D) := u.parses (by omega) (by omega) hend
    refine takes_isOperator (takes_isOperator (takes_nextToken _ ?_))
    exact hoperand.then (takes_pure _ rest)
  | .int _ | .long _ =>
    rw [Unary.tokens, List.length_singleton] at hrounds
    obtain _ | rounds := rounds
    · omega
    rw [Unary.tokens, Unary.tree]
    refine takes_isOperator (takes_isOperator (takes_isOperator ?_))
    refine takes_parseOOP ?_ rfl hend
    exact takes_isIdentifier (takes_token (takes_nextToken _ (takes_pure _ rest)))
  | .parentheses inner =>
    rw [Unary.tokens, List.length_cons, List.length_append, List.length_singleton] at hlevel hrounds
    obtain _ | rounds := rounds
    · omega
    obtain ⟨n, rfl⟩ : ∃ k, n = k + 4 := ⟨n - 4, by omega⟩
    rw [Unary.tokens, Unary.tree]
    -- inside of the parentheses the parser is at the level below
    have hinner : Takes (level source (n + 4)).assignmentWithRet (inner.tokens D)
        (.operator (.single ')') :: rest) (inner.tree : Exp F D) := by
      have hclose := @endsExpression_close F D rest
      refine takes_parseAssignmentWithRet ?_ hclose
      exact inner.parses (by omega) (by omega) hclose.toEndsAddition
    have hexpect : Takes (expect ')' : Parser F D Unit) [.operator (.single ')')] rest () :=
      takes_isOperator fun _ => rfl
    refine takes_isOperator (takes_isOperator (takes_isOperator ?_))
    refine takes_parseOOP ?_ rfl hend
    refine takes_isIdentifier (takes_token (takes_nextToken _ ?_))
    exact hinner.bind (hexpect.then (takes_pure _ rest))

end

/-- The parser makes a tree of an integer expression, wherever it ends, and the tree has the
value of the expression by convention; that is its value in the integers, unless a result
on the way leaves 64 bits or a divisor is zero. -/
theorem parse_value [Floating F D] (e : Addition) {rest : List (Token D)}
    (hrest : EndsExpression F rest) {n : ℕ} (hn : (e.tokens D).length + 5 ≤ n) :
    ∃ tree : Exp F D,
      Takes (level source (n + 1)).assignmentWithRet (e.tokens D) rest tree ∧
      (∀ W, EvaluatesTo W tree (e.value F D)) ∧
      ∀ z, e.exact = some z → ∃ v, e.value F D = .ok v ∧ v.Means z := by
  obtain ⟨k, rfl⟩ : ∃ k, n = k + 3 := ⟨n - 3, by omega⟩
  refine ⟨e.tree, ?_, fun W => e.evaluatesTo, fun z => e.value_means⟩
  refine takes_parseAssignmentWithRet ?_ hrest
  exact e.parses (by omega) (by omega) hrest.toEndsAddition

end Expressions

/-- The end of the script ends an expression. -/
theorem endsExpression_nil : EndsExpression F ([] : List (Token D)) := by
  refine ⟨⟨⟨⟨?_, ?_, ?_⟩, ?_⟩, ?_, ?_, ?_⟩, ?_, ?_, ?_, ?_, ?_⟩ <;> rfl

/-- `8 - 3 - 7 / 2`. -/
def twoDifferences : Addition :=
  .mk (.mk (.int 8) .nil) (.cons true (.mk (.int 3) .nil)
    (.cons true (.mk (.int 7) (.cons .div (.int 2) .nil)) .nil))

example : twoDifferences.exact = some 2 := by decide

/-- The differences are taken from the left. -/
theorem parse_value_twoDifferences :
    ∃ tree : Exp Float32 Float,
      Takes (level ⟨none, fun _ => 0, fun _ => 0⟩ 13).assignmentWithRet
        (twoDifferences.tokens Float) [] tree ∧
      (∀ W, EvaluatesTo W tree (twoDifferences.value Float32 Float)) ∧
      ∀ z, twoDifferences.exact = some z →
        ∃ v, twoDifferences.value Float32 Float = .ok v ∧ v.Means z :=
  parse_value twoDifferences endsExpression_nil (by decide)

end Language

end AviSynth
