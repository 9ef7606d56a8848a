import AviSynth.Language.IntegerOperators
import AviSynth.Language.Parser

/-!
# Integer expressions and their values

The integer expressions of the script language, with the value that they have by
convention: multiplications before additions, and both from the left to the right. The
tree of the parser adds from the right, and negates what is subtracted; this file shows
that the values are the same.
-/

namespace AviSynth

namespace Language

open MachineInt Exceptional

/-- The operators of a multiplication. -/
inductive FactorOperator where
  | mult
  | div
  | mod
  deriving DecidableEq

namespace FactorOperator

/-- How the operator is written. -/
def symbol : FactorOperator → Char
  | mult => '*'
  | div => '/'
  | mod => '%'

/-- What the operator computes. -/
def operator : FactorOperator → Arithmetic
  | mult => .mult
  | div => .div
  | mod => .mod

end FactorOperator

mutual

/-- A first summand, and those that are added or subtracted. -/
inductive Addition where
  | mk (first : Multiplication) (rest : Summands)

/-- What follows the first summand. -/
inductive Summands where
  | nil
  | cons (minus : Bool) (summand : Multiplication) (rest : Summands)

/-- A first factor, and those that follow an operator. -/
inductive Multiplication where
  | mk (first : Unary) (rest : Factors)

/-- What follows the first factor. -/
inductive Factors where
  | nil
  | cons (op : FactorOperator) (factor : Unary) (rest : Factors)

/-- A literal or an expression in parentheses, behind any signs. -/
inductive Unary where
  | plus (u : Unary)
  | minus (u : Unary)
  | int (integer : Int32)
  | long (longlong : Int64)
  | parentheses (inner : Addition)

end

variable {F D : Type}

section Tokens

variable (D)

mutual

/-- The tokens of an expression. -/
def Addition.tokens : Addition → List (Token D)
  | .mk first rest => first.tokens ++ rest.tokens

/-- The tokens of a text. -/
def Summands.tokens : Summands → List (Token D)
  | .nil => []
  | .cons minus summand rest =>
    .operator (.single (if minus then '-' else '+')) :: (summand.tokens ++ rest.tokens)

def Multiplication.tokens : Multiplication → List (Token D)
  | .mk first rest => first.tokens ++ rest.tokens

def Factors.tokens : Factors → List (Token D)
  | .nil => []
  | .cons op factor rest => .operator (.single op.symbol) :: (factor.tokens ++ rest.tokens)

def Unary.tokens : Unary → List (Token D)
  | .plus u => .operator (.single '+') :: u.tokens
  | .minus u => .operator (.single '-') :: u.tokens
  | .int integer => [.int integer]
  | .long longlong => [.long longlong]
  | .parentheses inner =>
    .operator (.single '(') :: (inner.tokens ++ [.operator (.single ')')])

end

end Tokens

section Values

variable (F D) [Floating F D]

mutual

/-- The value of an expression by convention, from the operators of the language. -/
def Addition.value : Addition → Result F D (AVSValue F D)
  | .mk first rest => do rest.addTo (← first.value)

/-- Adds or subtracts one summand after the other. -/
def Summands.addTo :
    Summands → AVSValue F D → Result F D (AVSValue F D)
  | .nil, total => .ok total
  | .cons minus summand rest, total => do
    let value ← summand.value
    rest.addTo (← (if minus then Arithmetic.minus else .plus).apply total value)

/-- The value by the operators of the language. -/
def Multiplication.value : Multiplication → Result F D (AVSValue F D)
  | .mk first rest => do rest.multiply (← first.value)

/-- Applies one operator after the other. -/
def Factors.multiply :
    Factors → AVSValue F D → Result F D (AVSValue F D)
  | .nil, product => .ok product
  | .cons op factor rest, product => do
    let value ← factor.value
    rest.multiply (← op.operator.apply product value)

def Unary.value : Unary → Result F D (AVSValue F D)
  | .plus u => u.value
  | .minus u => do expNegate (← u.value)
  | .int integer => .ok (.int integer)
  | .long longlong => .ok (.long longlong)
  | .parentheses inner => inner.value

end

end Values

/-- A result that 64 bits can hold. -/
def fitting (z : ℤ) : Option ℤ := if IsInt64 z then some z else none

/-- The exact result of an operator, if there is one that 64 bits can hold. -/
def Arithmetic.exactResult (op : Arithmetic) (m n : ℤ) : Option ℤ :=
  if (op = .div ∨ op = .mod) ∧ (n = 0 ∨ ¬IsInt64 (m.tdiv n)) then none
  else fitting (op.exact m n)

mutual

/-- The value of an expression in the integers, if no result on the way leaves 64 bits. -/
def Addition.exact : Addition → Option ℤ
  | .mk first rest => do rest.addExact (← first.exact)

/-- The exact value, where no step leaves 64 bits. -/
def Summands.addExact : Summands → ℤ → Option ℤ
  | .nil, total => some total
  | .cons minus summand rest, total => do
    let value ← summand.exact
    rest.addExact (← fitting (if minus then total - value else total + value))

def Multiplication.exact : Multiplication → Option ℤ
  | .mk first rest => do rest.multiplyExact (← first.exact)

def Factors.multiplyExact : Factors → ℤ → Option ℤ
  | .nil, product => some product
  | .cons op factor rest, product => do
    let value ← factor.exact
    rest.multiplyExact (← op.operator.exactResult product value)

def Unary.exact : Unary → Option ℤ
  | .plus u => u.exact
  | .minus u => do fitting (-(← u.exact))
  | .int integer => some integer.toInt
  | .long longlong => some longlong.toInt
  | .parentheses inner => inner.exact

end

mutual

/-- The tree that the parser makes of an expression. -/
def Addition.tree : Addition → Exp F D
  | .mk first rest => rest.sumTree first.tree

/-- The tree of a summand, with its sign, and of those behind it. -/
def Summands.sumTree : Summands → Exp F D → Exp F D
  | .nil, left => left
  | .cons minus summand rest, left => .arithmetic .plus left
      (rest.sumTree (if minus then .negate summand.tree else summand.tree))

/-- The tree that the parser builds. -/
def Multiplication.tree : Multiplication → Exp F D
  | .mk first rest => rest.productTree first.tree

def Factors.productTree : Factors → Exp F D → Exp F D
  | .nil, left => left
  | .cons op factor rest, left => rest.productTree (.arithmetic op.operator left factor.tree)

def Unary.tree : Unary → Exp F D
  | .plus u => u.tree
  | .minus u => .negate u.tree
  | .int integer => .constant (.int integer)
  | .long longlong => .constant (.long longlong)
  | .parentheses inner => inner.tree

end

theorem asLong_keepSmaller (result : Int64) :
    (keepSmaller result : AVSValue F D).asLong = some result := by
  have hstores := @keepSmaller_stores F D result
  unfold AVSValue.Stores at hstores
  split at hstores
  · obtain ⟨i, hi, heq⟩ := hstores
    rw [hi, AVSValue.asLong, Option.some.injEq, ← Int64.toInt_inj, Int32.toInt_toInt64, heq]
  · obtain ⟨l, hl, heq⟩ := hstores
    rw [hl, AVSValue.asLong, Option.some.injEq, ← Int64.toInt_inj, heq]

/-- A result is an error or an integer. -/
def GivesInt (result : Result F D (AVSValue F D)) : Prop :=
  ∀ v, result = .ok v → ∃ n, v.asLong = some n

theorem givesInt_ok {v : AVSValue F D} {n : Int64} (h : v.asLong = some n) :
    GivesInt (.ok v : Result F D (AVSValue F D)) := by
  rintro w ⟨⟩
  exact ⟨n, h⟩

theorem givesInt_keepSmaller (result : Int64) :
    GivesInt (.ok (keepSmaller result) : Result F D (AVSValue F D)) :=
  givesInt_ok (asLong_keepSmaller result)

theorem GivesInt.bind {result : Result F D (AVSValue F D)}
    (h : GivesInt result)
    {next : AVSValue F D → Result F D (AVSValue F D)}
    (hnext : ∀ v n, v.asLong = some n → GivesInt (next v)) :
    GivesInt (result >>= next) := by
  cases result with
  | error e => exact fun v hv => nomatch hv
  | ok v =>
    obtain ⟨n, hn⟩ := h v rfl
    exact hnext v n hn

/-- Continuations can be exchanged if they are the same on integers. -/
theorem GivesInt.bind_congr {result : Result F D (AVSValue F D)}
    (h : GivesInt result)
    {next next' : AVSValue F D → Result F D (AVSValue F D)}
    (hnext : ∀ v n, v.asLong = some n → next v = next' v) :
    result >>= next = result >>= next' := by
  cases result with
  | error e => rfl
  | ok v =>
    obtain ⟨n, hn⟩ := h v rfl
    exact hnext v n hn

theorem givesInt_divideInts (divide : Int64 → Int64 → Int64) (m n : Int64) :
    GivesInt (divideInts divide m n : Result F D (AVSValue F D)) := by
  unfold divideInts
  split_ifs
  · exact fun v hv => nomatch hv
  · exact fun v hv => nomatch hv
  · exact givesInt_keepSmaller _

section Evaluation

variable [Floating F D]

/-- Arithmetic on ints gives an int or raises. -/
theorem givesInt_apply (op : Arithmetic) {x y : AVSValue F D} {m n : Int64}
    (hx : x.asLong = some m) (hy : y.asLong = some n) : GivesInt (op.apply x y) := by
  rw [Arithmetic.apply_ints hx hy]
  cases op with
  | plus | minus | mult => exact givesInt_keepSmaller _
  | div | mod => exact givesInt_divideInts _ m n

/-- The negation of an int wraps. -/
theorem expNegate_int {x : AVSValue F D} {n : Int64} (hx : x.asLong = some n) :
    expNegate x = .ok (keepSmaller (-n)) := by
  simp only [expNegate, hx]

mutual

/-- Each part of an expression gives an int or raises. -/
theorem Addition.givesInt_value (e : Addition) : GivesInt (e.value F D) :=
  match e with
  | .mk first rest => by
    rw [Addition.value]
    exact GivesInt.bind first.givesInt_value fun v n hv => rest.givesInt_addTo hv

theorem Summands.givesInt_addTo (rest : Summands) {total : AVSValue F D} {n : Int64}
    (h : total.asLong = some n) : GivesInt (rest.addTo F D total) :=
  match rest with
  | .nil => by
    rw [Summands.addTo]
    exact givesInt_ok h
  | .cons minus summand rest => by
    rw [Summands.addTo]
    refine GivesInt.bind summand.givesInt_value fun v m hv => ?_
    exact (givesInt_apply _ h hv).bind fun w k hw => rest.givesInt_addTo hw

theorem Multiplication.givesInt_value (e : Multiplication) : GivesInt (e.value F D) :=
  match e with
  | .mk first rest => by
    rw [Multiplication.value]
    exact GivesInt.bind first.givesInt_value fun v n hv => rest.givesInt_multiply hv

theorem Factors.givesInt_multiply (rest : Factors) {product : AVSValue F D} {n : Int64}
    (h : product.asLong = some n) : GivesInt (rest.multiply F D product) :=
  match rest with
  | .nil => by
    rw [Factors.multiply]
    exact givesInt_ok h
  | .cons op factor rest => by
    rw [Factors.multiply]
    refine GivesInt.bind factor.givesInt_value fun v m hv => ?_
    exact (givesInt_apply _ h hv).bind fun w k hw => rest.givesInt_multiply hw

theorem Unary.givesInt_value (e : Unary) : GivesInt (e.value F D) :=
  match e with
  | .plus u => by
    rw [Unary.value]
    exact u.givesInt_value
  | .minus u => by
    rw [Unary.value]
    refine GivesInt.bind u.givesInt_value fun v n hv => ?_
    rw [expNegate_int hv]
    exact givesInt_keepSmaller _
  | .int _ | .long _ => by
    rw [Unary.value]
    exact givesInt_ok rfl
  | .parentheses inner => by
    rw [Unary.value]
    exact inner.givesInt_value

end

/-- Adding first to what the summands are added to is the same as adding to their sum. -/
theorem Summands.addTo_shift (rest : Summands) {a v : AVSValue F D} {m n : Int64}
    (ha : a.asLong = some m) (hv : v.asLong = some n) :
    (rest.addTo F D v >>= fun w => Arithmetic.plus.apply a w) =
      Arithmetic.plus.apply a v >>= fun total => rest.addTo F D total := by
  match rest with
  | .nil =>
    have hnil : (fun total => Summands.nil.addTo F D total) = Except.ok := by
      funext total
      rw [Summands.addTo]
    rw [hnil, Summands.addTo]
    exact (bind_pure (Arithmetic.plus.apply a v)).symm
  | .cons minus summand rest =>
    have hsum : Arithmetic.plus.apply a v = .ok (keepSmaller (m + n)) :=
      Arithmetic.apply_ints ha hv
    rw [hsum]
    change _ = (Summands.cons minus summand rest).addTo F D (keepSmaller (m + n))
    rw [Summands.addTo, Summands.addTo, bind_assoc]
    refine GivesInt.bind_congr summand.givesInt_value fun x k hx => ?_
    have hshift {y : AVSValue F D} {l : Int64} (hy : y.asLong = some l) :=
      rest.addTo_shift ha hy
    have htotal := @asLong_keepSmaller F D (m + n)
    cases minus with
    | false =>
      have hinner : Arithmetic.plus.apply v x = .ok (keepSmaller (n + k)) :=
        Arithmetic.apply_ints hv hx
      have houter : Arithmetic.plus.apply (keepSmaller (m + n)) x =
          .ok (keepSmaller (m + n + k)) := Arithmetic.apply_ints htotal hx
      have h := hshift (asLong_keepSmaller (n + k))
      rw [Arithmetic.apply_ints ha (asLong_keepSmaller (n + k))] at h
      simp only [Bool.false_eq_true, if_false, hinner, houter]
      rw [Int64.add_assoc]
      exact h
    | true =>
      have hinner : Arithmetic.minus.apply v x = .ok (keepSmaller (n - k)) :=
        Arithmetic.apply_ints hv hx
      have houter : Arithmetic.minus.apply (keepSmaller (m + n)) x =
          .ok (keepSmaller (m + n - k)) := Arithmetic.apply_ints htotal hx
      have h := hshift (asLong_keepSmaller (n - k))
      rw [Arithmetic.apply_ints ha (asLong_keepSmaller (n - k))] at h
      simp only [if_true, hinner, houter]
      have hassoc : m + n - k = m + (n - k) := by
        rw [Int64.sub_eq_add_neg, Int64.add_assoc, ← Int64.sub_eq_add_neg]
      rw [hassoc]
      exact h

/-- What evaluates without asking the environment for anything. -/
def EvaluatesTo (W : Type) (e : Exp F D) (result : Result F D (AVSValue F D)) : Prop :=
  ∀ (calls : Calls F D W) (rounds : ℕ), evaluate calls rounds e = ofResult result

variable {W : Type}

omit [Floating F D] in
/-- What happens after a result. -/
theorem ofResult_bind (result : Result F D (AVSValue F D))
    (next : AVSValue F D → Result F D (AVSValue F D)) :
    ((ofResult result : Eval F D W (AVSValue F D)) >>= fun v => ofResult (next v)) =
      ofResult (result >>= next) := by
  cases result <;> rfl

/-- A negation evaluates its operand. -/
theorem evaluatesTo_negate {e : Exp F D} {result : Result F D (AVSValue F D)}
    (h : EvaluatesTo W e result) : EvaluatesTo W (.negate e) (result >>= expNegate) := by
  intro calls rounds
  rw [evaluate_negate, h, ofResult_bind]

/-- An operator on integers does not ask for a filter that joins clips. -/
theorem evaluatesTo_arithmetic (op : Arithmetic) {a b : Exp F D}
    {x y : Result F D (AVSValue F D)} (ha : EvaluatesTo W a x) (hb : EvaluatesTo W b y)
    (hx : GivesInt x) :
    EvaluatesTo W (.arithmetic op a b) (x >>= fun v => y >>= fun w => op.apply v w) := by
  intro calls rounds
  rw [evaluate_arithmetic, ha, hb]
  cases x with
  | error e => rfl
  | ok v =>
    obtain ⟨n, hn⟩ := hx v rfl
    have hclip : v.isClip = false := by cases v <;> simp_all [AVSValue.asLong, AVSValue.isClip]
    have hjoin : (fun w => evaluateArithmetic calls op v w) =
        fun w => (ofResult (op.apply v w) : Eval F D W (AVSValue F D)) := by
      funext w
      simp [evaluateArithmetic, hclip]
    change (ofResult y >>= fun w => evaluateArithmetic calls op v w) = _
    rw [hjoin, ofResult_bind]
    rfl

/-- Addition is associative on integers, so that the sum of the summands from the right is
the sum from the left. -/
theorem Summands.addTo_right (minus : Bool) (rest : Summands) {v x : AVSValue F D} {n k : Int64}
    (hv : v.asLong = some n) (hx : x.asLong = some k) :
    (((if minus then expNegate x else .ok x) >>= fun w => rest.addTo F D w) >>= fun w =>
        Arithmetic.plus.apply v w) =
      (if minus then Arithmetic.minus else .plus).apply v x >>= fun w => rest.addTo F D w := by
  cases minus with
  | false => exact rest.addTo_shift hv hx
  | true =>
    have hneg := @asLong_keepSmaller F D (-k)
    have hsum : Arithmetic.plus.apply v (keepSmaller (-k)) = .ok (keepSmaller (n + -k)) :=
      Arithmetic.apply_ints hv hneg
    have hdiff : Arithmetic.minus.apply v x = .ok (keepSmaller (n - k)) :=
      Arithmetic.apply_ints hv hx
    have h := rest.addTo_shift hv hneg
    rw [hsum, ← Int64.sub_eq_add_neg] at h
    simp only [if_true, expNegate_int hx, hdiff]
    exact h

mutual

/-- The tree of an expression has the value of the expression. -/
theorem Addition.evaluatesTo (e : Addition) :
    EvaluatesTo W (e.tree : Exp F D) (e.value F D) :=
  match e with
  | .mk first rest => by
    rw [Addition.tree, Addition.value]
    exact rest.evaluatesTo first.evaluatesTo first.givesInt_value

/-- The tree of summands computes their sum. -/
theorem Summands.evaluatesTo (rest : Summands) {left : Exp F D}
    {result : Result F D (AVSValue F D)} (hleft : EvaluatesTo W left result)
    (hint : GivesInt result) :
    EvaluatesTo W (rest.sumTree left) (result >>= fun total => rest.addTo F D total) :=
  match rest with
  | .nil => by
    have hnil : (fun total => Summands.nil.addTo F D total) = Except.ok := by
      funext total
      rw [Summands.addTo]
    rw [Summands.sumTree, hnil]
    rw [show result >>= Except.ok = result from bind_pure result]
    exact hleft
  | .cons minus summand rest => by
    have hsummand : EvaluatesTo W
        (if minus then .negate summand.tree else summand.tree : Exp F D)
        (summand.value F D >>= fun x => if minus then expNegate x else .ok x) := by
      cases minus with
      | false =>
        simp only [Bool.false_eq_true, if_false]
        rw [show summand.value F D >>= Except.ok = summand.value F D from bind_pure _]
        exact summand.evaluatesTo
      | true => exact evaluatesTo_negate summand.evaluatesTo
    have hsigned : GivesInt
        (summand.value F D >>= fun x => if minus then expNegate x else .ok x) := by
      refine GivesInt.bind summand.givesInt_value fun x k hx => ?_
      cases minus with
      | false => exact givesInt_ok hx
      | true =>
        simp only [if_true, expNegate_int hx]
        exact givesInt_keepSmaller _
    have hright := rest.evaluatesTo hsummand hsigned
    have h := evaluatesTo_arithmetic .plus hleft hright hint
    rw [Summands.sumTree]
    convert h using 1
    refine GivesInt.bind_congr hint fun v n hv => ?_
    rw [Summands.addTo, bind_assoc, bind_assoc]
    refine GivesInt.bind_congr summand.givesInt_value fun x k hx => ?_
    rw [← bind_assoc]
    exact (rest.addTo_right minus hv hx).symm

/-- The tree of a product computes it. -/
theorem Multiplication.evaluatesTo (e : Multiplication) :
    EvaluatesTo W (e.tree : Exp F D) (e.value F D) :=
  match e with
  | .mk first rest => by
    rw [Multiplication.tree, Multiplication.value]
    exact rest.evaluatesTo first.evaluatesTo first.givesInt_value

/-- The tree of factors computes their product. -/
theorem Factors.evaluatesTo (rest : Factors) {left : Exp F D}
    {result : Result F D (AVSValue F D)} (hleft : EvaluatesTo W left result)
    (hint : GivesInt result) :
    EvaluatesTo W (rest.productTree left) (result >>= fun product => rest.multiply F D product) :=
  match rest with
  | .nil => by
    have hnil : (fun product => Factors.nil.multiply F D product) = Except.ok := by
      funext product
      rw [Factors.multiply]
    rw [Factors.productTree, hnil]
    rw [show result >>= Except.ok = result from bind_pure result]
    exact hleft
  | .cons op factor rest => by
    have hnode := evaluatesTo_arithmetic op.operator hleft factor.evaluatesTo hint
    have hgives : GivesInt (result >>= fun v => factor.value F D >>= fun w =>
        op.operator.apply v w) := by
      refine GivesInt.bind hint fun v n hv => ?_
      exact GivesInt.bind factor.givesInt_value fun w k hw => givesInt_apply _ hv hw
    have h := rest.evaluatesTo hnode hgives
    rw [Factors.productTree]
    convert h using 1
    rw [bind_assoc]
    refine GivesInt.bind_congr hint fun v n hv => ?_
    rw [Factors.multiply, bind_assoc]

/-- Signs and literals. -/
theorem Unary.evaluatesTo (e : Unary) : EvaluatesTo W (e.tree : Exp F D) (e.value F D) :=
  match e with
  | .plus u => by
    rw [Unary.tree, Unary.value]
    exact u.evaluatesTo
  | .minus u => by
    rw [Unary.tree, Unary.value]
    exact evaluatesTo_negate u.evaluatesTo
  | .int _ | .long _ => by
    rw [Unary.tree, Unary.value]
    exact fun calls rounds => evaluate_constant calls rounds _
  | .parentheses inner => by
    rw [Unary.tree, Unary.value]
    exact inner.evaluatesTo

end

/-- The value `v` is the number `z`. -/
def AVSValue.Means (v : AVSValue F D) (z : ℤ) : Prop := ∃ n, v.asLong = some n ∧ n.toInt = z

omit [Floating F D] in
theorem fitting_eq_some {z w : ℤ} (h : fitting z = some w) : IsInt64 z ∧ z = w := by
  unfold fitting at h
  split at h
  · exact ⟨by assumption, by simpa using h⟩
  · simp at h

omit [Floating F D] in
/-- A number that fits is kept by 64 bits. -/
theorem means_keepSmaller {result : Int64} {z : ℤ} (h : result.toInt = i64 z)
    (hfits : IsInt64 z) : (keepSmaller result : AVSValue F D).Means z :=
  ⟨result, asLong_keepSmaller result, h.trans (i64_eq_self_iff.mpr hfits)⟩

/-- An operator on integers gives the exact result if 64 bits can hold it. -/
theorem apply_means (op : Arithmetic) {x y : AVSValue F D} {m n z : ℤ} (hx : x.Means m)
    (hy : y.Means n) (h : op.exactResult m n = some z) :
    ∃ v, op.apply x y = .ok v ∧ v.Means z := by
  obtain ⟨i, hi, rfl⟩ := hx
  obtain ⟨j, hj, rfl⟩ := hy
  rw [Arithmetic.apply_ints hi hj]
  unfold Arithmetic.exactResult at h
  split at h
  · simp at h
  rename_i hdivision
  obtain ⟨hfits, rfl⟩ := fitting_eq_some h
  have hzero (hop : op = .div ∨ op = .mod) : j ≠ 0 := by
    rintro rfl
    exact hdivision ⟨hop, Or.inl rfl⟩
  have hquotient (hop : op = .div ∨ op = .mod) : ¬DivisionTraps i j := by
    rw [← isInt64_tdiv_iff i j (hzero hop)]
    by_contra hout
    exact hdivision ⟨hop, Or.inr hout⟩
  cases op with
  | plus => exact ⟨_, rfl, means_keepSmaller (Int64.toInt_add i j) hfits⟩
  | minus => exact ⟨_, rfl, means_keepSmaller (Int64.toInt_sub i j) hfits⟩
  | mult => exact ⟨_, rfl, means_keepSmaller (Int64.toInt_mul i j) hfits⟩
  | div =>
    refine ⟨keepSmaller (i / j), ?_, means_keepSmaller (Int64.toInt_div i j) hfits⟩
    simp only [divideInts, hzero (Or.inl rfl), hquotient (Or.inl rfl), if_false]
  | mod =>
    refine ⟨keepSmaller (i % j), ?_, i % j, asLong_keepSmaller _, Int64.toInt_mod i j⟩
    simp only [divideInts, hzero (Or.inr rfl), hquotient (Or.inr rfl), if_false]

mutual

/-- If no result on the way leaves 64 bits, the value is the value in the integers. -/
theorem Addition.value_means (e : Addition) {z : ℤ} (h : e.exact = some z) :
    ∃ v, e.value F D = .ok v ∧ v.Means z :=
  match e with
  | .mk first rest => by
    rw [Addition.exact] at h
    obtain ⟨m, hm, hrest⟩ := Option.bind_eq_some_iff.mp h
    obtain ⟨v, hv, hmeans⟩ := first.value_means hm
    rw [Addition.value, hv]
    exact rest.addTo_means hmeans hrest

/-- Within 64 bits the sum is the exact one. -/
theorem Summands.addTo_means (rest : Summands) {total : AVSValue F D} {m z : ℤ}
    (htotal : total.Means m) (h : rest.addExact m = some z) :
    ∃ v, rest.addTo F D total = .ok v ∧ v.Means z :=
  match rest with
  | .nil => by
    rw [Summands.addExact, Option.some.injEq] at h
    rw [Summands.addTo]
    exact ⟨total, rfl, h ▸ htotal⟩
  | .cons minus summand rest => by
    rw [Summands.addExact] at h
    obtain ⟨n, hn, h⟩ := Option.bind_eq_some_iff.mp h
    obtain ⟨k, hk, hrest⟩ := Option.bind_eq_some_iff.mp h
    obtain ⟨v, hv, hmeans⟩ := summand.value_means hn
    have hexact : (if minus then Arithmetic.minus else .plus).exactResult m n = some k := by
      cases minus <;> simpa [Arithmetic.exactResult, Arithmetic.exact] using hk
    obtain ⟨w, hw, hwmeans⟩ := apply_means _ htotal hmeans hexact
    obtain ⟨u, hu, humeans⟩ := rest.addTo_means hwmeans hrest
    refine ⟨u, ?_, humeans⟩
    rw [Summands.addTo, hv]
    change ((if minus then Arithmetic.minus else .plus).apply total v >>= fun t =>
      rest.addTo F D t) = _
    rw [hw]
    exact hu

/-- Within 64 bits a product is the exact one. -/
theorem Multiplication.value_means (e : Multiplication) {z : ℤ} (h : e.exact = some z) :
    ∃ v, e.value F D = .ok v ∧ v.Means z :=
  match e with
  | .mk first rest => by
    rw [Multiplication.exact] at h
    obtain ⟨m, hm, hrest⟩ := Option.bind_eq_some_iff.mp h
    obtain ⟨v, hv, hmeans⟩ := first.value_means hm
    rw [Multiplication.value, hv]
    exact rest.multiply_means hmeans hrest

/-- So is what is multiplied to it. -/
theorem Factors.multiply_means (rest : Factors) {product : AVSValue F D} {m z : ℤ}
    (hproduct : product.Means m) (h : rest.multiplyExact m = some z) :
    ∃ v, rest.multiply F D product = .ok v ∧ v.Means z :=
  match rest with
  | .nil => by
    rw [Factors.multiplyExact, Option.some.injEq] at h
    rw [Factors.multiply]
    exact ⟨product, rfl, h ▸ hproduct⟩
  | .cons op factor rest => by
    rw [Factors.multiplyExact] at h
    obtain ⟨n, hn, h⟩ := Option.bind_eq_some_iff.mp h
    obtain ⟨k, hk, hrest⟩ := Option.bind_eq_some_iff.mp h
    obtain ⟨v, hv, hmeans⟩ := factor.value_means hn
    obtain ⟨w, hw, hwmeans⟩ := apply_means _ hproduct hmeans hk
    obtain ⟨u, hu, humeans⟩ := rest.multiply_means hwmeans hrest
    refine ⟨u, ?_, humeans⟩
    rw [Factors.multiply, hv]
    change (op.operator.apply product v >>= fun t => rest.multiply F D t) = _
    rw [hw]
    exact hu

/-- So is a unary expression. -/
theorem Unary.value_means (e : Unary) {z : ℤ} (h : e.exact = some z) :
    ∃ v, e.value F D = .ok v ∧ v.Means z :=
  match e with
  | .plus u => by
    rw [Unary.exact] at h
    rw [Unary.value]
    exact u.value_means h
  | .minus u => by
    rw [Unary.exact] at h
    obtain ⟨m, hm, h⟩ := Option.bind_eq_some_iff.mp h
    obtain ⟨hfits, rfl⟩ := fitting_eq_some h
    obtain ⟨v, hv, n, hn, rfl⟩ := u.value_means hm
    refine ⟨keepSmaller (-n), ?_, means_keepSmaller (Int64.toInt_neg n) hfits⟩
    rw [Unary.value, hv]
    exact expNegate_int hn
  | .int integer => by
    rw [Unary.exact, Option.some.injEq] at h
    rw [Unary.value]
    exact ⟨_, rfl, _, rfl, (Int32.toInt_toInt64 integer).trans h⟩
  | .long longlong => by
    rw [Unary.exact, Option.some.injEq] at h
    rw [Unary.value]
    exact ⟨_, rfl, _, rfl, h⟩
  | .parentheses inner => by
    rw [Unary.exact] at h
    rw [Unary.value]
    exact inner.value_means h

end

end Evaluation

end Language

end AviSynth
