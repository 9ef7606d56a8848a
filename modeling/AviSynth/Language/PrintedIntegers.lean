import AviSynth.Language.PrintedValues

/-!
# Printed integers are read back

The text that `String` prints for an integer is evaluated to the same integer. The digits are read
without the sign, and a minus sign in front of them negates what was read: `-2147483648` is the
negation of a number of 64 bits, and the least number of 64 bits is the negation of a `double`.
-/

namespace AviSynth

namespace Language

open MachineInt FloatSizes Exceptional ScriptParser

section Texts

theorem textBytes_append (s t : String) : textBytes (s ++ t) = textBytes s ++ textBytes t := by
  simp [textBytes]

theorem isDigit_ofNat {c : Char} (h : c.isDigit) :
    isDigit (UInt8.ofNat c.toNat) = true ∧ digitValue (UInt8.ofNat c.toNat) = digitOf c := by
  obtain ⟨hlow, hhigh⟩ := isDigit_iff.mp h
  have hbyte : (UInt8.ofNat c.toNat).toNat = c.toNat := by
    rw [UInt8.toNat_ofNat']
    omega
  constructor
  · simp only [isDigit, UInt8.le_iff_toNat_le, hbyte, UInt8.reduceToNat, Bool.and_eq_true,
      decide_eq_true_eq]
    exact ⟨hlow, hhigh⟩
  · rw [digitValue, hbyte, digitOf_of_isDigit h]
    rfl

/-- The text of a natural number is a run of digits with its value. -/
theorem textBytes_repr (n : ℕ) :
    textBytes n.repr ≠ [] ∧ (∀ b ∈ textBytes n.repr, isDigit b = true) ∧
      digitsValue (textBytes n.repr) = n := by
  have htext : textBytes n.repr = (Nat.toDigits 10 n).map fun c => UInt8.ofNat c.toNat := by
    rw [textBytes, Nat.repr, String.toList_ofList]
  have hdigits : ∀ c ∈ Nat.toDigits 10 n, c.isDigit := fun c => isDigit_of_mem_toDigits
  rw [htext]
  refine ⟨?_, ?_, ?_⟩
  · rw [ne_eq, List.map_eq_nil_iff]
    exact Nat.toDigits_ne_nil
  · intro b hb
    obtain ⟨c, hc, rfl⟩ := List.mem_map.mp hb
    exact (isDigit_ofNat (hdigits c hc)).1
  · have hvalue : ofDigits 10 (Nat.toDigits 10 n) = n := by
      rw [ofDigits_ten hdigits, Nat.ofDigitChars_ten_toDigits]
    rw [digitsValue, List.foldl_map]
    rw [ofDigits] at hvalue
    conv_rhs => rw [← hvalue]
    refine List.foldl_ext _ _ _ fun k c hc => ?_
    rw [(isDigit_ofNat (hdigits c hc)).2, Nat.mul_comm]

theorem textBytes_of_nonneg {z : ℤ} (hz : 0 ≤ z) :
    textBytes (toString z) = textBytes z.natAbs.repr := by
  obtain ⟨n, rfl⟩ := Int.eq_ofNat_of_zero_le hz
  rfl

theorem textBytes_of_neg {z : ℤ} (hz : z < 0) :
    textBytes (toString z) = 0x2D :: textBytes z.natAbs.repr := by
  obtain ⟨n, rfl⟩ := Int.eq_negSucc_of_lt_zero hz
  change textBytes ("-" ++ (n + 1).repr) = _
  rw [textBytes_append]
  rfl

end Texts

section Tokens

/-- The literal of a natural number that 64 bits can hold. -/
def literal (n : ℕ) : Unary :=
  if n < 2 ^ 31 then .int (Int32.ofInt n) else .long (Int64.ofInt n)

/-- The expression that an integer is printed as. -/
def printed (z : ℤ) : Unary := if z < 0 then .minus (literal z.natAbs) else literal z.natAbs

variable {n : ℕ} {z : ℤ}

theorem literal_exact (h : n < 2 ^ 63) : (literal n).exact = some (n : ℤ) := by
  unfold literal
  split_ifs with hsmall
  · rw [Unary.exact, Int32.toInt_ofInt]
    exact congrArg some (i32_of_range (by omega) (by omega))
  · rw [Unary.exact, Int64.toInt_ofInt]
    exact congrArg some (i64_of_range (by omega) (by omega))

theorem printed_exact (hlow : -2 ^ 63 < z) (hhigh : z < 2 ^ 63) : (printed z).exact = some z := by
  unfold printed
  split_ifs with hneg
  · have hfits : IsInt64 (-(z.natAbs : ℤ)) := ⟨by omega, by omega⟩
    rw [Unary.exact, literal_exact (by omega)]
    change fitting (-(z.natAbs : ℤ)) = some z
    rw [fitting, if_pos hfits]
    congr 1
    omega
  · rw [literal_exact (by omega)]
    congr 1
    omega

/-- A number that ends the text is its only token. -/
theorem readTokens_repr {r : TokenReader Float} (hpc : r.pc = textBytes n.repr)
    (h : n < 2 ^ 63) (k : ℕ) :
    readTokens doubles (k + 2) r = some (.ok ((literal n).tokens Float)) := by
  obtain ⟨hne, hdigits, hvalue⟩ := textBytes_repr n
  have hend : EndsNumber [] := nofun
  have hpc' : r.pc = textBytes n.repr ++ [] := by rw [hpc, List.append_nil]
  have hnext := r.nextToken_digits doubles hne hdigits hpc'
  rw [getNumber_digits hdigits hend, hvalue] at hnext
  unfold literal
  split_ifs with hsmall
  · rw [if_pos hsmall] at hnext
    rw [readTokens_cons hnext nofun (readTokens_eof (TokenReader.nextToken_nil _ _ rfl) rfl)]
    rfl
  · rw [if_neg hsmall, if_pos h] at hnext
    rw [readTokens_cons hnext nofun (readTokens_eof (TokenReader.nextToken_nil _ _ rfl) rfl)]
    rfl

/-- The tokens of the text of an integer, without the least one of 64 bits. -/
theorem readTokens_toString (hlow : -2 ^ 63 < z) (hhigh : z < 2 ^ 63) (k : ℕ) :
    readTokens doubles (k + 3) (TokenReader.start (textBytes (toString z))) =
      some (.ok ((printed z).tokens Float)) := by
  unfold printed
  split_ifs with hneg
  · have hnext := (TokenReader.start (D := Float) (textBytes (toString z))).nextToken_minus doubles
      (textBytes_of_neg hneg)
    rw [readTokens_cons hnext nofun (readTokens_repr rfl (by omega) k), Unary.tokens]
    rfl
  · exact readTokens_repr (textBytes_of_nonneg (by omega)) (by omega) (k + 1)

end Tokens

section Evaluation

/-- `Eval` gives a value for a text, wherever it stands in whatever script. -/
def Evals (text : Bytes) (v : AVSValue Float32 Float) : Prop :=
  ∀ (W : Type) (calls : Calls Float32 Float W) (source : Source) (n rounds : ℕ)
    (s : ParserState Float32 Float) (env : Environment Float32 Float W), 7 ≤ n →
      eval calls source n rounds s text env = some (.ok v, env)

variable {F D : Type} {source : Source} {ts : List (Token D)} {e : Exp F D}

/-- An operand that nothing is added to and that is not multiplied is a summand. -/
theorem takes_parseAddition {knot : Knot F D} {rounds : ℕ} {rest : List (Token D)}
    (hunary : Takes (parseUnary knot source (rounds + 1)) ts rest e) (hend : EndsAddition rest) :
    Takes (parseAddition knot source (rounds + 2) false) ts rest e := by
  have hfactors : Takes (parseMultiplicationRest knot source (rounds + 1) e) [] rest e := by
    refine takes_token ?_
    rw [List.nil_append, hend.factor]
    exact takes_pure e rest
  have hmultiplication : Takes (parseMultiplication knot source (rounds + 1) false) ts rest e :=
    hunary.then (hfactors.then (takes_pure e rest))
  refine hmultiplication.then (takes_skip hend.plus (takes_skip hend.minus ?_))
  exact takes_skip hend.doublePlus (takes_pure e rest)

theorem startsExpression_literal (n : ℕ) :
    ∃ t : Token D, (literal n).tokens D = [t] ∧ StartsExpression t := by
  unfold literal
  split_ifs
  · exact ⟨_, by rw [Unary.tokens], rfl, rfl, fun _ _ => rfl, rfl⟩
  · exact ⟨_, by rw [Unary.tokens], rfl, rfl, fun _ _ => rfl, rfl⟩

theorem startsExpression_minus : StartsExpression (.operator (.single '-') : Token D) :=
  ⟨rfl, rfl, fun _ _ => rfl, rfl⟩

/-- A text whose tokens are an operand is evaluated to the value of the operand. -/
theorem evals_of_unary {text : Bytes} {t : Token Float} {ts : List (Token Float)}
    {e : Exp Float32 Float} {v : AVSValue Float32 Float}
    (htokens : ∀ k, readTokens doubles (k + 3) (TokenReader.start text) = some (.ok (t :: ts)))
    (hstart : StartsExpression t) (hkept : kept false (some e) = some e)
    (hunary : ∀ source k, Takes (parseUnary (level source (k + 7)) source (k + 3)) (t :: ts) [] e)
    (hvalue : ∀ W, EvaluatesTo W e (.ok v)) : Evals text v := by
  intro W calls source n rounds s env hn
  obtain ⟨k, rfl⟩ : ∃ k, n = k + 7 := ⟨n - 7, by omega⟩
  have hend := endsExpression_nil (F := Float32) (D := Float)
  have hassign : Takes (parseAssignmentWithRet (level source (k + 7)) source (k + 6)) (t :: ts) []
      e := takes_parseAssignmentWithRet
    (takes_parseAddition (hunary source k) hend.toEndsAddition) hend
  have hparse := takes_parse hstart hkept hassign s
  rw [List.append_nil] at hparse
  unfold eval
  rw [htokens (k + 4)]
  dsimp only
  rw [hparse]
  exact congrFun (evaluatesTo_rootBlock (hvalue W) calls rounds) env

theorem kept_literal (n : ℕ) :
    kept false (some ((literal n).tree : Exp F D)) = some (literal n).tree := by
  unfold literal
  split_ifs <;> rw [Unary.tree] <;> rfl

/-- The text of an integer is evaluated to the integer. -/
theorem evals_toString {z : ℤ} (hlow : -2 ^ 63 < z) (hhigh : z < 2 ^ 63) :
    ∃ v, Evals (textBytes (toString z)) v ∧ v.Means z := by
  obtain ⟨v, hv, hmeans⟩ :=
    (printed z).value_means (F := Float32) (D := Float) (printed_exact hlow hhigh)
  have htokens := readTokens_toString hlow hhigh
  have hvalue (W : Type) : EvaluatesTo W ((printed z).tree : Exp Float32 Float) (.ok v) :=
    hv ▸ (printed z).evaluatesTo
  have hend := (endsExpression_nil (F := Float32) (D := Float)).toEndsUnary
  obtain ⟨t, ht, hstart⟩ := startsExpression_literal (D := Float) z.natAbs
  refine ⟨v, ?_, hmeans⟩
  unfold printed at htokens hvalue
  by_cases hneg : z < 0
  · simp only [if_pos hneg, Unary.tokens, ht] at htokens hvalue
    refine evals_of_unary htokens startsExpression_minus ?_ (fun source k => ?_) hvalue
    · rw [Unary.tree]
      rfl
    · have hlength : ((Unary.minus (literal z.natAbs)).tokens Float).length = 2 := by
        rw [Unary.tokens, ht]
        rfl
      have hparses : Takes (parseUnary (level source (k + 7)) source (k + 3))
          ((Unary.minus (literal z.natAbs)).tokens Float) []
          ((Unary.minus (literal z.natAbs)).tree : Exp Float32 Float) :=
        (Unary.minus (literal z.natAbs)).parses (by omega) (by omega) hend
      rwa [Unary.tokens, ht] at hparses
  · simp only [if_neg hneg, ht] at htokens hvalue
    refine evals_of_unary htokens hstart (kept_literal _) (fun source k => ?_) hvalue
    have hlength : ((literal z.natAbs).tokens Float).length = 1 := by
      rw [ht, List.length_singleton]
    have hparses : Takes (parseUnary (level source (k + 7)) source (k + 3))
        ((literal z.natAbs).tokens Float) [] ((literal z.natAbs).tree : Exp Float32 Float) :=
      (literal z.natAbs).parses (by omega) (by omega) hend
    rwa [ht] at hparses

/-- The negation of a number in floating point. -/
theorem takes_negated (source : Source) (d : D) (k : ℕ) :
    Takes (parseUnary (level source (k + 7)) source (k + 3))
      [.operator (.single '-'), .float d] [] (.negate (.constant (.double d)) : Exp F D) := by
  have hend := (endsExpression_nil (F := F) (D := D)).toEndsUnary
  have hoperand : Takes (parseUnary (level source (k + 7)) source (k + 2)) [.float d] []
      (.constant (.double d) : Exp F D) := by
    refine takes_isOperator (takes_isOperator (takes_isOperator ?_))
    refine takes_parseOOP ?_ rfl hend
    exact takes_isIdentifier (takes_token (takes_nextToken _ (takes_pure _ [])))
  refine takes_isOperator (takes_isOperator (takes_nextToken _ ?_))
  exact hoperand.then (takes_pure _ [])

/-- The digits of the least number of 64 bits are beyond the greatest one, and become a `double`
that is rounded at each digit. -/
theorem evals_minValue :
    Evals (textBytes (toString Int64.minValue.toInt)) (.double (-9223372036854777856)) := by
  obtain ⟨hne, hdigits, hvalue⟩ := textBytes_repr (2 ^ 63)
  have hend : EndsNumber [] := nofun
  have hdouble : digitsDouble doubles (textBytes (2 ^ 63).repr) / 1 = 9223372036854777856 := by
    decide +kernel
  have hsmall : ¬dblMax ≤ (9223372036854777856 : Float) := by decide +kernel
  have hfirst := (TokenReader.start (D := Float)
    (textBytes (toString Int64.minValue.toInt))).nextToken_minus doubles
      (textBytes_of_neg (by decide))
  have hnext (r : TokenReader Float) (hpc : r.pc = textBytes (2 ^ 63).repr) :
      r.nextToken doubles = _ :=
    r.nextToken_digits doubles hne hdigits (hpc.trans (List.append_nil _).symm)
  rw [getNumber_digits hdigits hend, hvalue, if_neg (by decide), if_neg (by decide), hdouble,
    if_neg hsmall] at hnext
  refine evals_of_unary (e := .negate (.constant (.double 9223372036854777856))) (fun k => ?_)
    startsExpression_minus rfl (fun source k => takes_negated source 9223372036854777856 k)
    fun W => ?_
  · refine readTokens_cons hfirst nofun ?_
    exact readTokens_cons (hnext _ rfl) nofun
      (readTokens_eof (TokenReader.nextToken_nil _ _ rfl) rfl)
  · exact evaluatesTo_negate fun calls rounds => evaluate_constant calls rounds _

/-- The text of each integer but the least of 64 bits is evaluated to the integer, and that of the
least one to a `double`. Each run of digits is read as its value wherever 64 bits hold it. Decimal
digits never make the accumulator overflow, nor do hexadecimal digits of a number of 63 bits. -/
theorem integer_texts_read :
    (∀ (printer : FloatPrinter Float) (objects : List (FunctionInstance Float32 Float))
        (integer : Int32), ∃ text v,
          string printer objects (.int integer) .undefined = .ok (.string text) ∧
            Evals (textBytes text) v ∧ v.Means integer.toInt) ∧
      (∀ (printer : FloatPrinter Float) (objects : List (FunctionInstance Float32 Float))
        (longlong : Int64), longlong ≠ Int64.minValue → ∃ text v,
          string printer objects (.long longlong) .undefined = .ok (.string text) ∧
            Evals (textBytes text) v ∧ v.Means longlong.toInt) ∧
      (∀ (printer : FloatPrinter Float) (objects : List (FunctionInstance Float32 Float)),
        ∃ text d, string printer objects (.long Int64.minValue) .undefined = .ok (.string text) ∧
          Evals (textBytes text) (.double d)) ∧
      (∀ (r : TokenReader Float) (digits rest : Bytes), digits ≠ [] →
        (∀ b ∈ digits, isDigit b = true) → EndsNumber rest → r.pc = digits ++ rest →
          r.ReadsNumber digits rest) ∧
      (∀ pc, ∀ z ∈ numberResults doubles pc (.start doubles), IsInt64 z) ∧
      (∀ pc, hexValue 0 (hexRun pc) < 2 ^ 63 → ∀ z ∈ hexResults pc 0, IsInt64 z) := by
  refine ⟨fun printer objects integer => ?_, fun printer objects longlong hne => ?_,
    fun printer objects => ⟨_, _, rfl, evals_minValue⟩, ?_, fun pc => ?_, fun pc hsmall => ?_⟩
  · have hlow := integer.le_toInt
    have hhigh := integer.toInt_lt
    obtain ⟨v, hevals, hmeans⟩ := evals_toString (z := integer.toInt) (by omega) (by omega)
    exact ⟨_, v, rfl, hevals, hmeans⟩
  · have hlow := longlong.le_toInt
    have hhigh := longlong.toInt_lt
    have hmin : longlong.toInt ≠ -2 ^ 63 := fun heq => hne (Int64.toInt_inj.mp heq)
    obtain ⟨v, hevals, hmeans⟩ := evals_toString (z := longlong.toInt) (by omega) (by omega)
    exact ⟨_, v, rfl, hevals, hmeans⟩
  · intro r digits rest hne hdigits hrest hpc
    exact TokenReader.readsNumber_digits hne hdigits hrest hpc
  · exact numberResults_isInt64 pc (Int.le_refl _) (by decide)
  · exact (hexResults_isInt64_iff pc (Int.le_refl _) (by decide)).mpr hsmall

/-- The least integer of 64 bits is read back as a `double`, and the accumulator overflows at the
last of sixteen hexadecimal digits. -/
theorem minValue_not_read_back :
    (∀ (printer : FloatPrinter Float) (objects : List (FunctionInstance Float32 Float)),
        string printer objects (.long Int64.minValue) .undefined =
          .ok (.string "-9223372036854775808")) ∧
      (¬∃ v, Evals (textBytes "-9223372036854775808") v ∧ v.Means Int64.minValue.toInt) ∧
      ¬∀ z ∈ hexResults (textBytes "8000000000000000") 0, IsInt64 z := by
  have htext : toString Int64.minValue.toInt = "-9223372036854775808" := by decide +kernel
  refine ⟨fun printer objects => ?_, ?_, by decide +kernel⟩
  · rw [← htext]
    rfl
  · rintro ⟨v, hevals, n, hn, -⟩
    have hdouble := evals_minValue
    rw [htext] at hdouble
    have hv := hevals Unit Calls.none ⟨none, fun _ => 0, fun _ => 0⟩ 7 0 ⟨[], 0, 0, []⟩
      emptyEnvironment (Nat.le_refl _)
    rw [hdouble Unit Calls.none ⟨none, fun _ => 0, fun _ => 0⟩ 7 0 ⟨[], 0, 0, []⟩
      emptyEnvironment (Nat.le_refl _)] at hv
    cases hv
    cases hn

end Evaluation

end Language

end AviSynth
