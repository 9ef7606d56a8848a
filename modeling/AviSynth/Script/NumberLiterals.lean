import AviSynth.Library.FloatSizes
import AviSynth.Script.NextToken

/-!
# Integer literals

The tokenizer gathers the digits of a number in a signed integer of 64 bits and in a `double`,
and chooses the type of the token by the value of the digits. The test before each digit keeps
the integer in its range, whatever follows.
-/

namespace AviSynth

open MachineInt FloatSizes

/-- The operations on `double` that the tokenizer uses. -/
def doubles : DoubleArithmetic Float where
  zero := 0
  one := 1
  addDigit x digit := x * 10 + Float.ofInt digit
  tenfold x := x * 10
  div x y := x / y
  tooBig x := decide (dblMax ≤ x)

/-- The value of a digit. -/
def digitValue (b : UInt8) : ℕ := b.toNat - 0x30

/-- The number that a run of digits stands for. -/
def digitsValue (digits : Bytes) : ℕ := digits.foldl (fun n b => n * 10 + digitValue b) 0

/-- A further digit. -/
theorem digitsValue_append (digits : Bytes) (b : UInt8) :
    digitsValue (digits ++ [b]) = digitsValue digits * 10 + digitValue b := by
  simp [digitsValue]

variable {b : UInt8}

theorem toNat_of_isDigit (h : isDigit b = true) :
    0x30 ≤ b.toNat ∧ b.toNat ≤ 0x39 := by
  simp only [isDigit, Bool.and_eq_true, decide_eq_true_eq, UInt8.le_iff_toNat_le] at h
  exact h

theorem digitValue_lt (h : isDigit b = true) : digitValue b < 10 := by
  have hrange := toNat_of_isDigit h
  unfold digitValue
  omega

theorem digitValue_cast (h : isDigit b = true) :
    (b.toNat : ℤ) - 0x30 = digitValue b := by
  have hrange := toNat_of_isDigit h
  unfold digitValue
  omega

section Gathering

variable {D : Type} (ops : DoubleArithmetic D)

/-- What `GetNumber` starts with. -/
def Number.start : Number D := ⟨false, 0, ops.zero, ops.one⟩

/-- The digits of a number in floating point. -/
def digitsDouble (digits : Bytes) : D :=
  digits.foldl (fun x b => ops.addDigit x (b.toNat - 0x30)) ops.zero

/-- What a run of digits leaves in a number. -/
structure Number.Gathers (digits : Bytes) (n : Number D) : Prop where
  dtemp : n.dtemp = digitsDouble ops digits
  place : n.place = ops.one
  isFloat : n.isFloat = true ↔ 2 ^ 63 ≤ digitsValue digits
  longlong : n.isFloat = false → n.longlong = digitsValue digits

variable {ops} {digits : Bytes} {n : Number D}

/-- A further digit keeps the numbers in step. -/
theorem Number.Gathers.addDigit (h : n.Gathers ops digits) (hb : isDigit b = true) :
    (n.addDigit ops b).Gathers ops (digits ++ [b]) := by
  have hvalue := digitsValue_append digits b
  have hlt := digitValue_lt hb
  have hdouble : ops.addDigit n.dtemp (b.toNat - 0x30) = digitsDouble ops (digits ++ [b]) := by
    rw [h.dtemp]
    simp [digitsDouble]
  unfold Number.addDigit
  dsimp only
  split_ifs with hfloat hover
  · refine ⟨hdouble, h.place, ⟨fun _ => ?_, fun _ => hfloat⟩, fun hint => ?_⟩
    · have hle := h.isFloat.mp hfloat
      omega
    · rw [hfloat] at hint
      cases hint
  · have hint := h.longlong (by simpa using hfloat)
    rw [digitValue_cast hb, hint] at hover
    refine ⟨hdouble, h.place, ⟨fun _ => ?_, fun _ => rfl⟩, nofun⟩
    omega
  · have hint := h.longlong (by simpa using hfloat)
    have hsmall : ¬2 ^ 63 ≤ digitsValue digits := fun hle => hfloat (h.isFloat.mpr hle)
    rw [digitValue_cast hb, hint] at hover
    refine ⟨hdouble, h.place, ⟨fun htrue => (hfloat htrue).elim, fun hle => ?_⟩, fun _ => ?_⟩
    · omega
    · dsimp only
      rw [digitValue_cast hb, hint, hvalue]
      push_cast
      rfl

/-- All digits of a run, one after the other. -/
theorem gathers_foldl (hdigits : ∀ b ∈ digits, isDigit b = true) :
    (digits.foldl (Number.addDigit ops) (.start ops)).Gathers ops digits := by
  induction digits using List.reverseRecOn with
  | nil => exact ⟨rfl, rfl, by simp [digitsValue, Number.start], fun _ => rfl⟩
  | append_singleton digits b ih =>
    rw [List.foldl_append]
    exact (ih fun c hc => hdigits c (by simp [hc])).addDigit (hdigits b (by simp))

/-- The number ends before a byte that is neither a digit nor the point. -/
def EndsNumber (rest : Bytes) : Prop := ∀ b ∈ rest.head?, b ≠ 0x2E ∧ isDigit b = false

/-- The digits are added one by one. -/
theorem gatherNumber_digits (hdigits : ∀ b ∈ digits, isDigit b = true) {rest : Bytes}
    (hrest : EndsNumber rest) (n : Number D) :
    gatherNumber ops (digits ++ rest) n = (digits.foldl (Number.addDigit ops) n, rest) := by
  induction digits generalizing n with
  | nil =>
    cases rest with
    | nil => rfl
    | cons b rest =>
      obtain ⟨hpoint, hdigit⟩ := hrest b rfl
      rw [List.nil_append, gatherNumber, if_neg hpoint, hdigit]
      rfl
  | cons b digits ih =>
    obtain ⟨hb, hdigits⟩ := List.forall_mem_cons.mp hdigits
    have hpoint : b ≠ 0x2E := by
      rintro rfl
      cases hb
    rw [List.cons_append, gatherNumber, if_neg hpoint, if_pos hb, ih hdigits]
    rfl

end Gathering

section Doubles

variable {digits : Bytes}

/-- The doubles the sizes of digits are measured with. -/
theorem digitDoubles : doubles.addDigit 0 0 = 0 ∧ IsBelow 0 0 ∧ IsBelow 4 10 ∧
    ∀ d < 10, IsBelow 4 (Float.ofInt (d : ℕ)) := by
  decide +kernel

/-- Zeros at the start of a number add nothing. -/
theorem digitsDouble_zero (hdigits : ∀ b ∈ digits, isDigit b = true)
    (hzero : digitsValue digits = 0) : digitsDouble doubles digits = 0 := by
  induction digits using List.reverseRecOn with
  | nil => rfl
  | append_singleton digits b ih =>
    rw [digitsValue_append] at hzero
    have hb : digitValue b = 0 := by omega
    have hcast := digitValue_cast (hdigits b (by simp))
    have hstep : doubles.addDigit 0 (b.toNat - 0x30) = 0 := by
      rw [hcast, hb]
      exact digitDoubles.1
    have hfirst := ih (fun c hc => hdigits c (by simp [hc])) (by omega)
    rw [digitsDouble] at hfirst ⊢
    rw [List.foldl_append, hfirst]
    exact hstep

/-- A digit as a `double`. -/
theorem isBelow_digit {d : ℕ} (hd : d < 10) : IsBelow 4 (Float.ofInt d) :=
  digitDoubles.2.2.2 d hd

/-- Ten as a `double`. -/
theorem isBelow_ten : IsBelow 4 10 := digitDoubles.2.2.1

section

variable (hdigits : ∀ b ∈ digits, isDigit b = true)
include hdigits

/-- Each digit that counts multiplies a number by less than `2 ^ 7`. -/
theorem isBelow_digitsDouble {count : ℕ} (hcount : count ≤ 100)
    (h : digitsValue digits < 10 ^ count) :
    IsBelow (7 * count) (digitsDouble doubles digits) := by
  induction digits using List.reverseRecOn generalizing count with
  | nil => exact digitDoubles.2.1.mono (Nat.zero_le _)
  | append_singleton digits b ih =>
    cases count with
    | zero =>
      rw [digitsDouble_zero hdigits (by omega)]
      exact digitDoubles.2.1
    | succ count =>
      rw [digitsValue_append, pow_succ] at h
      have hfirst : IsBelow (7 * count) (digitsDouble doubles digits) :=
        ih (fun c hc => hdigits c (by simp [hc])) (by omega) (by omega)
      have hb := hdigits b (by simp)
      have hstep : digitsDouble doubles (digits ++ [b]) =
          digitsDouble doubles digits * 10 + Float.ofInt (digitValue b) := by
        rw [← digitValue_cast hb]
        simp [digitsDouble, doubles]
      rw [hstep]
      have htimes := hfirst.mul isBelow_ten (by omega)
      exact htimes.add ((isBelow_digit (digitValue_lt hb)).mono (by omega)) (by omega)

/-- A number of 64 bits is far below the largest double. -/
theorem tooBig_digits (h : digitsValue digits < 2 ^ 63) :
    doubles.tooBig (digitsDouble doubles digits / 1) = false := by
  have hbelow : IsBelow (7 * 19) (digitsDouble doubles digits) :=
    isBelow_digitsDouble hdigits (by decide) (h.trans (by decide))
  have hquotient := hbelow.div_one (by decide)
  exact decide_eq_false (hquotient.not_dblMax_le (by decide))

/-- The token of a run of digits, by its value. -/
theorem getNumber_digits {rest : Bytes} (hrest : EndsNumber rest) :
    getNumber doubles (digits ++ rest) =
      if digitsValue digits < 2 ^ 31 then .ok (.integer (digitsValue digits), rest)
      else if digitsValue digits < 2 ^ 63 then .ok (.longlong (digitsValue digits), rest)
      else if dblMax ≤ digitsDouble doubles digits / 1 then .error "Tokenizer: Number is to big."
      else .ok (.doublePt (digitsDouble doubles digits / 1), rest) := by
  have hgathers :
      (digits.foldl (Number.addDigit doubles) (.start doubles)).Gathers doubles digits :=
    gathers_foldl hdigits
  have hgather : gatherNumber doubles (digits ++ rest) (.start doubles) =
      (digits.foldl (Number.addDigit doubles) (.start doubles), rest) :=
    gatherNumber_digits hdigits hrest (.start doubles)
  rw [Number.start] at hgather hgathers
  rw [getNumber, hgather]
  dsimp only
  generalize digits.foldl (Number.addDigit doubles) _ = n at hgathers
  have hvalue : doubles.div n.dtemp n.place = digitsDouble doubles digits / 1 := by
    rw [hgathers.dtemp, hgathers.place]
    rfl
  rw [hvalue]
  by_cases hfits : digitsValue digits < 2 ^ 63
  · have hint : n.isFloat = false := by
      by_contra hfloat
      have hle := hgathers.isFloat.mp (by simpa using hfloat)
      omega
    rw [tooBig_digits hdigits hfits, hint, hgathers.longlong hint, if_pos hfits]
    by_cases hsmall : digitsValue digits < 2 ^ 31
    · rw [if_pos hsmall, if_neg Bool.false_ne_true, if_neg Bool.false_ne_true, if_pos (by omega)]
      rfl
    · rw [if_neg hsmall, if_neg Bool.false_ne_true, if_neg Bool.false_ne_true, if_neg (by omega)]
      rfl
  · have hfloat : n.isFloat = true := hgathers.isFloat.mpr (by omega)
    have hlarge : ¬digitsValue digits < 2 ^ 31 := by omega
    rw [hfloat, if_neg hlarge, if_neg hfits]
    by_cases hbig : dblMax ≤ digitsDouble doubles digits / 1
    · have htoo : doubles.tooBig (digitsDouble doubles digits / 1) = true := decide_eq_true hbig
      rw [if_pos hbig, if_pos htoo]
      rfl
    · have htoo : doubles.tooBig (digitsDouble doubles digits / 1) = false :=
        decide_eq_false hbig
      rw [if_neg hbig, htoo]
      rfl

end

end Doubles

section Accumulators

variable {D : Type} (ops : DoubleArithmetic D)

/-- The results of the signed operations on the accumulator at a digit. -/
def Number.results (n : Number D) (b : UInt8) : List ℤ :=
  let digit : ℤ := b.toNat - 0x30
  if n.isFloat then []
  else if 922337203685477580 < n.longlong ∨ (n.longlong = 922337203685477580 ∧ 7 < digit) then []
  else [n.longlong * 10, n.longlong * 10 + digit]

/-- The results of the signed operations of `GetNumber`. -/
def numberResults : Bytes → Number D → List ℤ
  | [], _ => []
  | b :: rest, n =>
    if b = 0x2E then []
    else if isDigit b then n.results b ++ numberResults rest (n.addDigit ops b)
    else []

/-- The exact results of the signed operations at the digits behind a dollar sign. -/
def hexResults : Bytes → ℤ → List ℤ
  | [], _ => []
  | b :: rest, value =>
    match hexDigit b with
    | some digit =>
      value * 16 :: (value * 16 + digit) ::
        (if rest.head?.any isAlnum then hexResults rest (i64 (value * 16 + digit)) else [])
    | none => []

/-- The hexadecimal digits at the start of a text. -/
def hexRun (pc : Bytes) : Bytes := pc.takeWhile fun b => (hexDigit b).isSome

/-- The number that hexadecimal digits stand for, behind a number. -/
def hexValue (value : ℤ) (digits : Bytes) : ℤ :=
  digits.foldl (fun v b => v * 16 + (hexDigit b).getD 0) value

variable {ops}

/-- The test before a digit keeps the accumulator in its range, whatever the text is. -/
theorem numberResults_isInt64 (pc : Bytes) {n : Number D} (hlow : 0 ≤ n.longlong)
    (hhigh : n.longlong < 2 ^ 63) : ∀ z ∈ numberResults ops pc n, IsInt64 z := by
  induction pc generalizing n with
  | nil => nofun
  | cons b rest ih =>
    rw [numberResults]
    split_ifs with hpoint hb
    · nofun
    · have hcast := digitValue_cast hb
      have hlt := digitValue_lt hb
      refine List.forall_mem_append.mpr ⟨?_, ?_⟩
      · unfold Number.results
        dsimp only
        split_ifs with hfloat hover
        · nofun
        · nofun
        · refine List.forall_mem_cons.mpr ⟨⟨by omega, by omega⟩, ?_⟩
          exact List.forall_mem_singleton.mpr ⟨by omega, by omega⟩
      · unfold Number.addDigit
        dsimp only
        split_ifs with hfloat hover
        · exact ih hlow hhigh
        · exact ih hlow hhigh
        · exact ih (by dsimp only; omega) (by dsimp only; omega)
    · nofun

/-- A hexadecimal digit is below 16. -/
theorem hexDigit_range {digit : ℤ} (h : hexDigit b = some digit) :
    0 ≤ digit ∧ digit < 16 ∧ isAlnum b = true := by
  simp only [hexDigit, UInt8.le_iff_toNat_le, UInt8.reduceToNat] at h
  simp only [isAlnum, isAlpha, isDigit, UInt8.le_iff_toNat_le, UInt8.reduceToNat,
    Bool.or_eq_true, Bool.and_eq_true, decide_eq_true_eq]
  split_ifs at h with hdecimal hlower hupper <;> obtain rfl := Option.some.inj h
  · exact ⟨by omega, by omega, .inr hdecimal⟩
  · exact ⟨by omega, by omega, .inl (.inr ⟨hlower.1, by omega⟩)⟩
  · exact ⟨by omega, by omega, .inl (.inl ⟨hupper.1, by omega⟩)⟩

/-- The value only grows. -/
theorem le_hexValue (digits : Bytes) {value : ℤ} (h : 0 ≤ value) :
    value ≤ hexValue value digits := by
  induction digits generalizing value with
  | nil => exact Int.le_refl _
  | cons b digits ih =>
    have hdigit : 0 ≤ (hexDigit b).getD 0 := by
      cases hb : hexDigit b with
      | none => exact Int.le_refl _
      | some digit => exact (hexDigit_range hb).1
    have hnext : 0 ≤ value * 16 + (hexDigit b).getD 0 := by omega
    have hrest := ih hnext
    change value ≤ hexValue (value * 16 + (hexDigit b).getD 0) digits
    omega

/-- There is no test at the hexadecimal digits: the accumulator keeps its range exactly if the
number does. -/
theorem hexResults_isInt64_iff (pc : Bytes) {value : ℤ} (hlow : 0 ≤ value)
    (hhigh : value < 2 ^ 63) :
    (∀ z ∈ hexResults pc value, IsInt64 z) ↔ hexValue value (hexRun pc) < 2 ^ 63 := by
  induction pc generalizing value with
  | nil => exact ⟨fun _ => hhigh, fun _ => nofun⟩
  | cons b rest ih =>
    cases hb : hexDigit b with
    | none =>
      have hrun : hexRun (b :: rest) = [] := by simp [hexRun, hb]
      have hresults : hexResults (b :: rest) value = [] := by rw [hexResults, hb]
      rw [hrun, hresults]
      exact ⟨fun _ => hhigh, fun _ => nofun⟩
    | some digit =>
      obtain ⟨hdigit, hlt, -⟩ := hexDigit_range hb
      have hrun : hexRun (b :: rest) = b :: hexRun rest := by simp [hexRun, hb]
      have hvalue : hexValue value (b :: hexRun rest) =
          hexValue (value * 16 + digit) (hexRun rest) := by
        simp [hexValue, hb]
      have hnext : 0 ≤ value * 16 + digit := by omega
      have hle := le_hexValue (hexRun rest) hnext
      rw [hrun, hvalue, hexResults, hb]
      dsimp only
      rw [List.forall_mem_cons, List.forall_mem_cons]
      by_cases hfits : value * 16 + digit < 2 ^ 63
      · rw [i64_of_range (by omega) hfits]
        have hfirst : IsInt64 (value * 16) := ⟨by omega, by omega⟩
        have hsecond : IsInt64 (value * 16 + digit) := ⟨by omega, hfits⟩
        have hrest : (∀ z ∈ (if rest.head?.any isAlnum then
            hexResults rest (value * 16 + digit) else []), IsInt64 z) ↔
              hexValue (value * 16 + digit) (hexRun rest) < 2 ^ 63 := by
          split_ifs with hmore
          · exact ih (by omega) hfits
          · -- no digit follows
            have hend : hexRun rest = [] := by
              cases rest with
              | nil => rfl
              | cons c rest =>
                cases hc : hexDigit c with
                | none => simp [hexRun, hc]
                | some digit' => exact absurd (hexDigit_range hc).2.2 (by simpa using hmore)
            rw [hend]
            exact ⟨fun _ => hfits, fun _ => nofun⟩
        exact ⟨fun h => hrest.mp h.2.2, fun h => ⟨hfirst, hsecond, hrest.mpr h⟩⟩
      · exact ⟨fun h => (hfits h.2.1.2).elim, fun h => (hfits (by omega)).elim⟩

end Accumulators

section Tokens

variable {b : UInt8} {rest : Bytes}

/-- The bytes that may stand before a token. -/
def skippable : Bytes :=
  [0x20, 0x09, backslash, newline, carriageReturn, 0x23, 0x2F, asterisk, openBracket]

theorem Tokenizer.skip_cons (hb : b ∉ skippable) (rest : Bytes) (line : ℕ) :
    Tokenizer.skip ⟨b :: rest, line⟩ = .ok ⟨b :: rest, line⟩ := by
  have hne {c : UInt8} (hc : c ∈ skippable) : (c == b) = false := by
    rw [beq_eq_false_iff_ne]
    rintro rfl
    exact hb hc
  have hne' {c : UInt8} (hc : c ∈ skippable) : (b == c) = false := by
    rw [Bool.beq_comm]
    exact hne hc
  have hspace : (Tokenizer.mk (b :: rest) line).skipWhitespace = ⟨b :: rest, line⟩ := by
    have hblank : (b == 0x20 || b == 0x09) = false := by
      rw [hne' (by decide), hne' (by decide)]
      rfl
    rw [Tokenizer.skipWhitespace, List.dropWhile_cons_of_neg (by simp [hblank])]
  have hbreak : (Tokenizer.mk (b :: rest) line).atBreak = false := by
    change (b == newline || b == carriageReturn) = false
    rw [hne' (by decide), hne' (by decide)]
    rfl
  have hmark {c : UInt8} (hc : c ∈ skippable) (marks : Bytes) :
      (c :: marks).isPrefixOf (b :: rest) = false := by
    rw [List.isPrefixOf, hne hc]
    rfl
  refine Tokenizer.skip_of_stops ?_
  unfold Tokenizer.skipOnce
  dsimp only
  rw [hspace, hbreak, hmark (by decide), hmark (by decide), hmark (by decide), hmark (by decide),
    openingMark, closingMark, hmark (by decide), hmark (by decide)]
  rfl

theorem Tokenizer.skip_nil (line : ℕ) : Tokenizer.skip ⟨[], line⟩ = .ok ⟨[], line⟩ :=
  Tokenizer.skip_of_stops rfl

theorem not_mem_skippable_of_isDigit (hb : isDigit b = true) : b ∉ skippable := by
  intro hmem
  have hall : ∀ c ∈ skippable, isDigit c = false := by decide +kernel
  rw [hall b hmem] at hb
  cases hb

namespace TokenReader

variable {D : Type} (ops : DoubleArithmetic D) (r : TokenReader D)

theorem resume_eq : r.resume = ⟨r.pc, r.resume.line⟩ := by
  unfold resume
  split <;> rfl

/-- A byte that nothing skips is the start of the token. -/
theorem nextToken_cons (hb : b ∉ skippable) (hpc : r.pc = b :: rest) :
    r.nextToken ops = (readToken ops ⟨b :: rest, r.resume.line⟩).map fun result =>
      { result.2 with tokenStart := b :: rest, token := result.1 } := by
  unfold nextToken
  rw [resume_eq, hpc, Tokenizer.skip_cons hb]
  change (readToken ops ⟨b :: rest, r.resume.line⟩ >>= _) = _
  cases readToken ops ⟨b :: rest, r.resume.line⟩ <;> rfl

/-- A token that begins with a digit is a number. -/
theorem readToken_digit (hb : isDigit b = true) (line : ℕ) :
    readToken ops ⟨b :: rest, line⟩ = (getNumber ops (b :: rest)).map fun result =>
      (result.1, ⟨result.2, line⟩) := by
  have hzero : b ≠ 0 := by
    rintro rfl
    cases hb
  have hbreak : (Tokenizer.mk (b :: rest) line).atBreak = false := not_isBreak_of_isDigit hb
  unfold readToken
  dsimp only [List.headD_cons]
  rw [if_neg hzero, hbreak, if_neg Bool.false_ne_true, if_pos (.inl hb)]
  cases getNumber ops (b :: rest) <;> rfl

/-- Digits are read as a number. -/
theorem nextToken_digits {digits : Bytes} (hne : digits ≠ [])
    (hdigits : ∀ b ∈ digits, isDigit b = true) (hpc : r.pc = digits ++ rest) :
    r.nextToken ops = (getNumber ops (digits ++ rest)).map fun result =>
      { pc := result.2, line := r.resume.line, tokenStart := digits ++ rest,
        token := result.1 } := by
  obtain ⟨b, digits, rfl⟩ := List.exists_cons_of_ne_nil hne
  have hb := hdigits b List.mem_cons_self
  rw [nextToken_cons ops r (not_mem_skippable_of_isDigit hb) hpc, List.cons_append,
    readToken_digit ops hb]
  cases getNumber ops (b :: (digits ++ rest)) <;> rfl

/-- The token of a run of digits is an integer of the smaller type that holds its value, and no
integer only where 64 bits do not hold it. -/
def ReadsNumber (r : TokenReader Float) (digits rest : Bytes) : Prop :=
  (digitsValue digits < 2 ^ 31 → ∃ r', r.nextToken doubles = .ok r' ∧
      r'.token = .integer (digitsValue digits) ∧ r'.pc = rest) ∧
    (2 ^ 31 ≤ digitsValue digits → digitsValue digits < 2 ^ 63 →
      ∃ r', r.nextToken doubles = .ok r' ∧
        r'.token = .longlong (digitsValue digits) ∧ r'.pc = rest) ∧
    (2 ^ 63 ≤ digitsValue digits → r.nextToken doubles = .error "Tokenizer: Number is to big." ∨
      ∃ r' x, r.nextToken doubles = .ok r' ∧ r'.token = .doublePt x ∧ r'.pc = rest)

/-- The token of digits before what ends a number. -/
theorem readsNumber_digits {r : TokenReader Float} {digits : Bytes} (hne : digits ≠ [])
    (hdigits : ∀ b ∈ digits, isDigit b = true) (hrest : EndsNumber rest)
    (hpc : r.pc = digits ++ rest) : ReadsNumber r digits rest := by
  have hnext := r.nextToken_digits doubles hne hdigits hpc
  rw [getNumber_digits hdigits hrest] at hnext
  refine ⟨fun hsmall => ?_, fun hlarge hfits => ?_, fun hbeyond => ?_⟩
  · rw [if_pos hsmall] at hnext
    exact ⟨_, hnext, rfl, rfl⟩
  · rw [if_neg (by omega), if_pos hfits] at hnext
    exact ⟨_, hnext, rfl, rfl⟩
  · rw [if_neg (by omega), if_neg (by omega)] at hnext
    split_ifs at hnext with hbig
    · exact .inl hnext
    · exact .inr ⟨_, _, hnext, rfl, rfl⟩

/-- A minus sign is a token of its own. -/
theorem nextToken_minus (hpc : r.pc = 0x2D :: rest) :
    r.nextToken ops = .ok { pc := rest, line := r.resume.line, tokenStart := 0x2D :: rest,
                            token := .operator 0x2D } := by
  rw [nextToken_cons ops r (by decide) hpc]
  rfl

/-- The end of the text is a token. -/
theorem nextToken_nil (hpc : r.pc = []) :
    r.nextToken ops = .ok { pc := [], line := r.resume.line, tokenStart := [], token := .eof } := by
  unfold nextToken
  rw [resume_eq, hpc, Tokenizer.skip_nil]
  rfl

end TokenReader

end Tokens

end AviSynth
