import AviSynth.Language.ArithmeticParsing
import AviSynth.Language.Invocation
import Mathlib.Data.List.Forall2

/-!
# Chains of comparisons

`ParseComparison` joins the comparisons of a chain by `&&`. The tree of an operand between
two operators belongs to both of its comparisons, and `>` and `<=` are comparisons of the
right operand with the left one.
-/

namespace AviSynth

namespace Language

open Exceptional Eval ScriptParser

variable {F D W : Type}

/-- The operators of a chain. -/
inductive ComparisonOperator where
  | equal
  | notEqual
  | lessGreater
  | less
  | greaterEqual
  | greater
  | lessEqual
  deriving DecidableEq

namespace ComparisonOperator

/-- How the operator is written. -/
def symbol : ComparisonOperator → Operator
  | equal => .pair '=' '='
  | notEqual => .pair '!' '='
  | lessGreater => .pair '<' '>'
  | less => .single '<'
  | greaterEqual => .pair '>' '='
  | greater => .single '>'
  | lessEqual => .pair '<' '='

/-- The tree of a comparison. -/
def tree : ComparisonOperator → Exp F D → Exp F D → Exp F D
  | equal, left, right => .equal left right
  | notEqual, left, right => .not (.equal left right)
  | lessGreater, left, right => .not (.equal left right)
  | less, left, right => .less left right
  | greaterEqual, left, right => .not (.less left right)
  | greater, left, right => .less right left
  | lessEqual, left, right => .not (.less right left)

theorem comparisonOperator_symbol (op : ComparisonOperator) :
    comparisonOperator (.operator op.symbol : Token D) = some (op.tree : Exp F D → _) := by
  cases op <;> rfl

/-- The operators that evaluate their right operand first. -/
def rightFirst : ComparisonOperator → Bool
  | greater | lessEqual => true
  | _ => false

end ComparisonOperator

/-- The bool that `==` and `<` give. -/
def truth : Result F D (AVSValue F D) → Result F D Bool
  | .ok (.bool b) => .ok b
  | .ok _ => .ok false
  | .error e => .error e

namespace ComparisonOperator

variable [Floating F D]

/-- Whether a comparison holds of two values. -/
def holds : ComparisonOperator → AVSValue F D → AVSValue F D → Result F D Bool
  | equal, x, y => truth (expEqual x y)
  | notEqual, x, y => (truth (expEqual x y)).map not
  | lessGreater, x, y => (truth (expEqual x y)).map not
  | less, x, y => truth (expLess x y)
  | greaterEqual, x, y => (truth (expLess x y)).map not
  | greater, x, y => truth (expLess y x)
  | lessEqual, x, y => (truth (expLess y x)).map not

/-- A comparison evaluates each of its operands once. -/
def compare (op : ComparisonOperator) (left right : Eval F D W (AVSValue F D)) :
    Eval F D W Bool :=
  if op.rightFirst then do
    let y ← right
    let x ← left
    ofResult (op.holds x y)
  else do
    let x ← left
    let y ← right
    ofResult (op.holds x y)

end ComparisonOperator

/-! ### The tree of a chain -/

/-- The loop of `ParseComparison`, for operands that are parsed. -/
def chainTree (left : Exp F D) : Option (Exp F D) → List (ComparisonOperator × Exp F D) → Exp F D
  | result, [] => result.getD left
  | result, (op, right) :: more =>
    chainTree right (some (match result with
      | some result => .and result (op.tree left right)
      | none => op.tree left right)) more

section Evaluation

variable [Floating F D]

/-- The comparisons are made from left to right up to the first one that is false. An operand
between two operators is evaluated by each of its comparisons. -/
def chainHolds (left : Eval F D W (AVSValue F D)) :
    List (ComparisonOperator × Eval F D W (AVSValue F D)) → Eval F D W Bool
  | [] => pure true
  | (op, right) :: more => do
    if ← op.compare left right then chainHolds right more else pure false

/-- What a chain evaluates to: the first operand, if there is no operator. -/
def evaluateChain (first : Eval F D W (AVSValue F D)) :
    List (ComparisonOperator × Eval F D W (AVSValue F D)) → Eval F D W (AVSValue F D)
  | [] => first
  | more => do return .bool (← chainHolds first more)

/-- The same with each operand evaluated once, from left to right. -/
def onceHolds (x : AVSValue F D) :
    List (ComparisonOperator × Eval F D W (AVSValue F D)) → Eval F D W Bool
  | [] => pure true
  | (op, right) :: more => do
    let y ← right
    if ← ofResult (op.holds x y) then onceHolds y more else pure false

/-- A chain that evaluates its operands from left to right, each at most once. -/
def evaluateOnce (first : Eval F D W (AVSValue F D)) :
    List (ComparisonOperator × Eval F D W (AVSValue F D)) → Eval F D W (AVSValue F D)
  | [] => first
  | more => do return .bool (← onceHolds (← first) more)

/-- The conjunction of the comparisons of neighbours. -/
def allHold (left : AVSValue F D) : List (ComparisonOperator × AVSValue F D) → Result F D Bool
  | [] => .ok true
  | (op, right) :: more => do
    if ← op.holds left right then allHold right more else pure false

/-! ### Evaluation of the tree -/

/-- An expression that evaluates to a bool. -/
def EvaluatesBool (calls : Calls F D W) (rounds : ℕ) (e : Exp F D) (c : Eval F D W Bool) : Prop :=
  evaluate calls rounds e = c >>= fun b => pure (.bool b)

omit [Floating F D] in
theorem condition_bool (c : Eval F D W Bool) (msg : String) :
    condition (c >>= fun b => pure (.bool b)) msg = c := by
  unfold condition
  rw [bind_assoc]
  exact bind_pure c

/-- `==` gives a bool or an exception. -/
theorem expEqual_bool (x y : AVSValue F D) :
    expEqual x y = (truth (expEqual x y)).map .bool := by
  unfold expEqual
  split
  all_goals try rfl
  split
  · rfl
  · split
    · rfl
    · split <;> rfl

theorem expLess_bool (x y : AVSValue F D) : expLess x y = (truth (expLess x y)).map .bool := by
  unfold expLess
  split
  · rfl
  · split
    · rfl
    · split
      · rfl
      · split <;> rfl

omit [Floating F D] in
theorem ofResult_map_bool (result : Result F D Bool) :
    (ofResult (result.map .bool) : Eval F D W (AVSValue F D)) =
      ofResult result >>= fun b => pure (.bool b) := by
  cases result <;> rfl

omit [Floating F D] in
theorem ofResult_map_not (result : Result F D Bool) :
    (ofResult (result.map not) : Eval F D W Bool) = ofResult result >>= fun b => pure !b := by
  cases result <;> rfl

section Trees

variable {calls : Calls F D W} {rounds : ℕ} {a b : Exp F D} {c d : Eval F D W Bool}

theorem evaluatesBool_equal (a b : Exp F D) :
    EvaluatesBool calls rounds (.equal a b)
      (evaluate calls rounds a >>= fun x => evaluate calls rounds b >>= fun y =>
        ofResult (truth (expEqual x y))) := by
  change (evaluate calls rounds a >>= fun x => evaluate calls rounds b >>= fun y =>
    ofResult (expEqual x y)) = _
  simp only [bind_assoc, ← ofResult_map_bool, ← expEqual_bool]

theorem evaluatesBool_less (a b : Exp F D) :
    EvaluatesBool calls rounds (.less a b)
      (evaluate calls rounds a >>= fun x => evaluate calls rounds b >>= fun y =>
        ofResult (truth (expLess x y))) := by
  change (evaluate calls rounds a >>= fun x => evaluate calls rounds b >>= fun y =>
    ofResult (expLess x y)) = _
  simp only [bind_assoc, ← ofResult_map_bool, ← expLess_bool]

theorem evaluate_not (e : Exp F D) :
    evaluate calls rounds (.not e) =
      condition (evaluate calls rounds e)
        "Evaluate: operand of `!' must be boolean (true/false)" >>= fun b => pure (.bool !b) := rfl

theorem evaluate_and (a b : Exp F D) :
    evaluate calls rounds (.and a b) =
      condition (evaluate calls rounds a)
        "Evaluate: left operand of && must be boolean (true/false)" >>= fun holds =>
          if holds then
            condition (evaluate calls rounds b)
              "Evaluate: right operand of && must be boolean (true/false)" >>= fun holds =>
                pure (.bool holds)
          else pure (.bool false) := rfl

theorem EvaluatesBool.not (h : EvaluatesBool calls rounds a c) :
    EvaluatesBool calls rounds (.not a) (c >>= fun b => pure !b) := by
  unfold EvaluatesBool at *
  rw [evaluate_not, h, condition_bool, bind_assoc]
  rfl

/-- `&&` of two expressions that evaluate to a bool. -/
theorem EvaluatesBool.and (ha : EvaluatesBool calls rounds a c)
    (hb : EvaluatesBool calls rounds b d) :
    EvaluatesBool calls rounds (.and a b) (c >>= fun holds => if holds then d else pure false) := by
  unfold EvaluatesBool at *
  rw [evaluate_and, ha, hb, condition_bool, condition_bool, bind_assoc]
  congr 1
  funext holds
  cases holds with
  | true => rfl
  | false => rfl

/-- The tree of a comparison makes it. -/
theorem evaluatesBool_tree (op : ComparisonOperator) (left right : Exp F D) :
    EvaluatesBool calls rounds (op.tree left right)
      (op.compare (evaluate calls rounds left) (evaluate calls rounds right)) := by
  have hequal : EvaluatesBool calls rounds (.equal left right) _ := evaluatesBool_equal left right
  have hless : EvaluatesBool calls rounds (.less left right) _ := evaluatesBool_less left right
  have hswapped : EvaluatesBool calls rounds (.less right left) _ := evaluatesBool_less right left
  cases op with
  | equal => exact hequal
  | less => exact hless
  | greater => exact hswapped
  | notEqual | lessGreater =>
    have hnot := hequal.not
    simp only [bind_assoc, ← ofResult_map_not] at hnot
    exact hnot
  | greaterEqual =>
    have hnot := hless.not
    simp only [bind_assoc, ← ofResult_map_not] at hnot
    exact hnot
  | lessEqual =>
    have hnot := hswapped.not
    simp only [bind_assoc, ← ofResult_map_not] at hnot
    exact hnot

/-- The loop goes on from a comparison that has been made. -/
theorem evaluatesBool_chainTree {result : Exp F D} (hresult : EvaluatesBool calls rounds result c)
    (left : Exp F D) (more : List (ComparisonOperator × Exp F D)) :
    EvaluatesBool calls rounds (chainTree left (some result) more)
      (c >>= fun holds =>
        if holds then
          chainHolds (evaluate calls rounds left)
            (more.map fun next => (next.1, evaluate calls rounds next.2))
        else pure false) := by
  induction more generalizing left result c with
  | nil =>
    have hpure : (fun holds : Bool => if holds then pure true else pure false) =
        (pure : Bool → Eval F D W Bool) := by
      funext holds
      cases holds <;> rfl
    rw [List.map_nil, chainHolds, hpure, bind_pure]
    exact hresult
  | cons next more ih =>
    obtain ⟨op, right⟩ := next
    have hchain := ih (hresult.and (evaluatesBool_tree op left right)) right
    rw [bind_assoc] at hchain
    rw [chainTree, List.map_cons, chainHolds]
    -- the next comparison is made only if the result so far is true
    have hnext : ∀ holds : Bool,
        ((if holds then op.compare (evaluate calls rounds left) (evaluate calls rounds right)
          else pure false) >>= fun holds =>
          if holds then chainHolds (evaluate calls rounds right)
            (more.map fun next => (next.1, evaluate calls rounds next.2))
          else pure false) =
        if holds then
          op.compare (evaluate calls rounds left) (evaluate calls rounds right) >>= fun holds =>
            if holds then chainHolds (evaluate calls rounds right)
              (more.map fun next => (next.1, evaluate calls rounds next.2))
            else pure false
        else pure false := by
      intro holds
      cases holds with
      | true => rfl
      | false => rfl
    simp only [hnext] at hchain
    exact hchain

theorem evaluate_chainTree (calls : Calls F D W) (rounds : ℕ) (first : Exp F D)
    (more : List (ComparisonOperator × Exp F D)) :
    evaluate calls rounds (chainTree first none more) =
      evaluateChain (evaluate calls rounds first)
        (more.map fun next => (next.1, evaluate calls rounds next.2)) := by
  cases more with
  | nil => rfl
  | cons next more =>
    obtain ⟨op, right⟩ := next
    have htree : EvaluatesBool calls rounds (op.tree first right) _ :=
      evaluatesBool_tree op first right
    exact evaluatesBool_chainTree htree right more

end Trees

/-! ### Operands without effects -/

/-- An evaluation that gives `v` and changes nothing. -/
def Gives (env : Environment F D W) (p : Eval F D W (AVSValue F D)) (v : AVSValue F D) : Prop :=
  p env = some (.ok v, env)

theorem compare_of_gives (op : ComparisonOperator) {env : Environment F D W}
    {left right : Eval F D W (AVSValue F D)} {x y : AVSValue F D} (hleft : Gives env left x)
    (hright : Gives env right y) :
    op.compare left right env = some (op.holds x y, env) := by
  unfold ComparisonOperator.compare
  split
  · rw [bind_of_ok hright, bind_of_ok hleft]
    rfl
  · rw [bind_of_ok hleft, bind_of_ok hright]
    rfl

/-- Without effects it does not matter how often an operand is evaluated. -/
theorem chainHolds_of_gives {env : Environment F D W} {left : Eval F D W (AVSValue F D)}
    {x : AVSValue F D} (hleft : Gives env left x)
    {more : List (ComparisonOperator × Eval F D W (AVSValue F D))}
    {values : List (ComparisonOperator × AVSValue F D)}
    (hmore : List.Forall₂ (fun next value => next.1 = value.1 ∧ Gives env next.2 value.2) more
      values) :
    chainHolds left more env = some (allHold x values, env) := by
  induction hmore generalizing left x with
  | nil => rfl
  | @cons next value more values hnext _ ih =>
    obtain ⟨op, right⟩ := next
    obtain ⟨op', y⟩ := value
    obtain ⟨rfl, hright⟩ := hnext
    have hcompare := compare_of_gives op hleft hright
    rw [chainHolds, allHold]
    cases hholds : op.holds x y with
    | error e =>
      rw [hholds] at hcompare
      change (op.compare left right env).bind _ = _
      rw [hcompare]
      rfl
    | ok holds =>
      rw [hholds] at hcompare
      rw [bind_of_ok hcompare]
      cases holds with
      | true => exact ih hright
      | false => rfl

end Evaluation

/-! ### Parsing a chain -/

/-- An operand: tokens that the parser takes as an addition, with as many rounds as they
need. -/
structure Operand (F : Type) {D : Type} (knot : Knot F D) (source : Source) where
  tokens : List (Token D)
  tree : Exp F D
  rounds : ℕ
  parses : ∀ k rest, rounds ≤ k → EndsAddition rest →
    Takes (parseAddition knot source k false) tokens rest tree

section Parsing

variable {knot : Knot F D} {source : Source}
  {more : List (ComparisonOperator × Operand F knot source)}

/-- The tokens behind the first operand. -/
def chainTokens (more : List (ComparisonOperator × Operand F knot source)) : List (Token D) :=
  more.flatMap fun next => .operator next.1.symbol :: next.2.tokens

/-- A comparison operator ends an addition. -/
theorem endsAddition_chainTokens {rest : List (Token D)} (hrest : EndsAddition rest) :
    EndsAddition (chainTokens more ++ rest) := by
  cases more with
  | nil => exact hrest
  | cons next more =>
    obtain ⟨op, operand⟩ := next
    cases op <;> refine ⟨⟨⟨?_, ?_, ?_⟩, ?_⟩, ?_, ?_, ?_⟩ <;> rfl

/-- The loop takes an operator and an operand in each round. -/
theorem takes_parseComparisonRest {rest : List (Token D)} (hrest : EndsAddition rest)
    (hend : (comparisonOperator (headToken rest) : Option (Exp F D → Exp F D → Exp F D)) = none)
    {rounds : ℕ} (hrounds : ∀ next ∈ more, next.2.rounds + more.length < rounds)
    (hlength : more.length < rounds) (left : Exp F D) (result : Option (Exp F D)) :
    Takes (parseComparisonRest knot source rounds left result) (chainTokens more) rest
      (chainTree left result (more.map fun next => (next.1, next.2.tree))) := by
  induction more generalizing rounds left result with
  | nil =>
    obtain _ | rounds := rounds
    · omega
    refine takes_token ?_
    rw [chainTokens, List.flatMap_nil, List.nil_append, hend]
    exact takes_pure _ rest
  | cons next more ih =>
    obtain ⟨op, operand⟩ := next
    obtain _ | rounds := rounds
    · omega
    rw [List.length_cons] at hlength hrounds
    have hoperand := hrounds (op, operand) List.mem_cons_self
    have hright : Takes (parseAddition knot source rounds false) operand.tokens
        (chainTokens more ++ rest) operand.tree :=
      operand.parses rounds _ (by dsimp only at hoperand; omega) (endsAddition_chainTokens hrest)
    have hfewer : ∀ next ∈ more, next.2.rounds + more.length < rounds := by
      intro next hnext
      have hnext := hrounds next (List.mem_cons_of_mem _ hnext)
      omega
    have hmore := ih hfewer (by omega) operand.tree (some (match result with
        | some result => .and result (op.tree left operand.tree)
        | none => op.tree left operand.tree))
    refine takes_token ?_
    have hhead : headToken (chainTokens ((op, operand) :: more) ++ rest) =
        .operator op.symbol := rfl
    rw [hhead, op.comparisonOperator_symbol]
    exact takes_nextToken _ (hright.bind hmore)

end Parsing

/-- The parser takes a chain of comparisons. Its evaluation makes the comparisons from left to
right up to the first one that is false or throws, and evaluates both operands of each, for
`>` and `<=` the right one first. If the operands have no effects, the result is the
conjunction of the comparisons. -/
theorem comparisonChain_evaluates [Floating F D] {knot : Knot F D} {source : Source}
    (first : Operand F knot source) (more : List (ComparisonOperator × Operand F knot source))
    {rest : List (Token D)} (hrest : EndsAddition rest)
    (hend : (comparisonOperator (headToken rest) : Option (Exp F D → Exp F D → Exp F D)) = none)
    {rounds : ℕ} (hfirst : first.rounds ≤ rounds)
    (hrounds : ∀ next ∈ more, next.2.rounds + more.length < rounds)
    (hlength : more.length < rounds) :
    ∃ tree, Takes (parseComparison knot source rounds) (first.tokens ++ chainTokens more) rest
        tree ∧
      ∀ (W : Type) (calls : Calls F D W) (k : ℕ),
        evaluate calls k tree = evaluateChain (evaluate calls k first.tree)
            (more.map fun next => (next.1, evaluate calls k next.2.tree)) ∧
        ∀ env x values, Gives env (evaluate calls k first.tree) x →
          List.Forall₂ (fun next value => next.1 = value.1 ∧
            Gives env (evaluate calls k next.2.tree) value.2) more values → more ≠ [] →
          evaluate calls k tree env = some ((allHold x values).map .bool, env) := by
  refine ⟨chainTree first.tree none (more.map fun next => (next.1, next.2.tree)), ?_, ?_⟩
  · have hparse := first.parses rounds (chainTokens more ++ rest) hfirst
      (endsAddition_chainTokens hrest)
    exact hparse.bind (takes_parseComparisonRest hrest hend hrounds hlength first.tree none)
  · intro W calls k
    have hevaluate : evaluate calls k
        (chainTree first.tree none (more.map fun next => (next.1, next.2.tree))) =
        evaluateChain (evaluate calls k first.tree)
          (more.map fun next => (next.1, evaluate calls k next.2.tree)) := by
      rw [evaluate_chainTree, List.map_map]
      rfl
    refine ⟨hevaluate, fun env x values hx hvalues hne => ?_⟩
    have hmap : List.Forall₂ (fun next value => next.1 = value.1 ∧ Gives env next.2 value.2)
        (more.map fun next => (next.1, evaluate calls k next.2.tree)) values :=
      List.forall₂_map_left_iff.mpr hvalues
    have hholds := chainHolds_of_gives hx hmap
    rw [hevaluate]
    obtain ⟨next, more, rfl⟩ := List.exists_cons_of_ne_nil hne
    change (chainHolds _ _ >>= fun b => pure (AVSValue.bool b)) env = _
    rw [bind_pure_eq_map, hholds]
    rfl

/-- An integer expression as an operand. -/
def Operand.ofAddition (e : Addition) {source : Source} {n : ℕ}
    (h : (e.tokens D).length + 5 ≤ n) : Operand F (level source n : Knot F D) source where
  tokens := e.tokens D
  tree := e.tree
  rounds := (e.tokens D).length + 2
  parses _ _ hk hrest := e.parses h hk hrest

/-- A number as an operand. -/
def numberOperand (integer : Int32) :
    Operand Float32 (level ⟨none, fun _ => 0, fun _ => 0⟩ 20 : Knot Float32 Float)
      ⟨none, fun _ => 0, fun _ => 0⟩ :=
  .ofAddition (.mk (.mk (.int integer) .nil) .nil) (show 6 ≤ 20 by decide)

/-- `1 < 2 <= 3`. -/
theorem comparisonChain_evaluates_numbers :
    ∃ tree : Exp Float32 Float,
      Takes (parseComparison (level ⟨none, fun _ => 0, fun _ => 0⟩ 20)
        ⟨none, fun _ => 0, fun _ => 0⟩ 9)
        ((numberOperand 1).tokens ++
          chainTokens [(.less, numberOperand 2), (.lessEqual, numberOperand 3)]) [] tree ∧
      evaluate Calls.none 9 tree emptyEnvironment = some (.ok (.bool true), emptyEnvironment) := by
  obtain ⟨tree, hparse, hevaluate⟩ := comparisonChain_evaluates (numberOperand 1)
    [(.less, numberOperand 2), (.lessEqual, numberOperand 3)]
    (endsExpression_nil (F := Float32)).toEndsAddition rfl (show 3 ≤ 9 by decide)
    (by
      intro next hnext
      obtain rfl | rfl :
          next = (.less, numberOperand 2) ∨ next = (.lessEqual, numberOperand 3) := by
        simpa using hnext
      · exact (show 3 + 2 < 9 by decide)
      · exact (show 3 + 2 < 9 by decide)) (by decide)
  refine ⟨tree, hparse, ?_⟩
  exact (hevaluate Unit Calls.none 9).2 emptyEnvironment (.int 1)
    [(.less, .int 2), (.lessEqual, .int 3)] rfl
    (.cons ⟨rfl, rfl⟩ (.cons ⟨rfl, rfl⟩ .nil)) (List.cons_ne_nil _ _)

/-- The evaluation of the tree that the parser makes of tokens, without natives. -/
def evaluateTokens (tokens : List (Token Float)) :
    Eval Float32 Float Unit (AVSValue Float32 Float) :=
  match parseComparison (level ⟨none, fun _ => 0, fun _ => 0⟩ 9) ⟨none, fun _ => 0, fun _ => 0⟩ 9
      (⟨tokens, 0, 0, []⟩ : ParserState Float32 Float) with
  | some (.ok tree, _) =>
    evaluate (callsAt ⟨[], fun _ _ => .finish (.ok .undefined), .finish (.ok ())⟩ 2) 9 tree
  | _ => diverge

/-- `function() { global i = … return i }()`. -/
def assignTokens (value : List (Token Float)) : List (Token Float) :=
  [.identifier "function", .operator (.single '('), .operator (.single ')'),
      .operator (.single '\x7b'), .identifier "global", .identifier "i", .operator (.single '=')] ++
    value ++ [.newline, .identifier "return", .identifier "i", .operator (.single '\x7d'),
      .operator (.single '('), .operator (.single ')')]

/-- The same with `i + 1`. -/
def incrementTokens : List (Token Float) :=
  assignTokens [.identifier "i", .operator (.single '+'), .int 1]

/-- What the global variable `i` is when an evaluation ends that has started with 0. -/
def finalI (p : Eval Float32 Float Unit (AVSValue Float32 Float)) : Option Int64 :=
  (p (emptyEnvironment.setGlobalVar "i" (.int 0))).bind fun ended =>
    (ended.2.vars.get "i").bind AVSValue.asLong

/-- `0 < f() < 5`, where `f` adds 1 to `i`, makes `i` two, and `g() > h()`, where these set `i` to 1
and to 2, makes it one. -/
theorem comparisonChain_evaluates_twice :
    evaluateTokens ([.int 0, .operator (.single '<')] ++ incrementTokens ++
        [.operator (.single '<'), .int 5]) ≠
      evaluateOnce (evaluateTokens [.int 0])
        [(.less, evaluateTokens incrementTokens), (.less, evaluateTokens [.int 5])] ∧
    evaluateTokens (assignTokens [.int 1] ++ [.operator (.single '>')] ++ assignTokens [.int 2]) ≠
      evaluateOnce (evaluateTokens (assignTokens [.int 1]))
        [(.greater, evaluateTokens (assignTokens [.int 2]))] := by
  constructor
  · intro h
    have hfinal := congrArg finalI h
    revert hfinal
    decide +kernel
  · intro h
    have hfinal := congrArg finalI h
    revert hfinal
    decide +kernel

end Language

end AviSynth
