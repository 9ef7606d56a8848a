import Mathlib.Data.List.TakeWhile
import Mathlib.Data.List.Basic
import Mathlib.Tactic.NormNum

/-!
# Integers read from text

What the C library's `strtol` and `strtoll` read at the start of a text: blanks,
a sign, the prefix of a literal where the base is left open, and the longest run
of digits. The text that was read is kept, so `*end` is what follows it.
-/

namespace AviSynth

/-- The characters that `isspace` accepts in the C locale. -/
def isSpace (c : Char) : Bool :=
  c = ' ' || ('\t' ≤ c && c ≤ '\r')

/-- The value of a character as a digit, 36 where it is none. -/
def digitOf (c : Char) : ℕ :=
  if c.isDigit then c.toNat - '0'.toNat
  else if c.isLower then c.toNat - 'a'.toNat + 10
  else if c.isUpper then c.toNat - 'A'.toNat + 10
  else 36

/-- The number that a run of digits stands for. -/
def ofDigits (base : ℕ) (digits : List Char) : ℕ :=
  digits.foldl (fun n c => base * n + digitOf c) 0

/-- The sign a number starts with. -/
def signOf : List Char → List Char
  | '-' :: _ => ['-']
  | '+' :: _ => ['+']
  | _ => []

/-- The base of a number and the prefix before its digits. Base zero takes both
from the literal; `0x` counts only with a digit behind it. -/
def radixOf (base : ℕ) : List Char → ℕ × List Char
  | '0' :: x :: digit :: _ =>
      if (base = 0 ∨ base = 16) ∧ (x = 'x' ∨ x = 'X') ∧ digitOf digit < 16 then (16, ['0', x])
      else if base = 0 then (8, []) else (base, [])
  | '0' :: _ => if base = 0 then (8, []) else (base, [])
  | _ => if base = 0 then (10, []) else (base, [])

/-- The longest run of digits behind the prefix. -/
def digitsOf (base : ℕ) (text : List Char) : List Char :=
  (text.drop (radixOf base text).2.length).takeWhile (digitOf · < (radixOf base text).1)

/-- The result of a conversion: the value, the text up to `*end`, and whether
`errno` is set to `ERANGE`. -/
structure Conversion where
  value : ℤ
  taken : List Char
  rangeError : Bool
  deriving DecidableEq, Repr

/-- A value of a signed type of `bits` bits, the nearest one on overflow. -/
def saturated (bits : ℕ) (value : ℤ) (taken : List Char) : Conversion :=
  if value < -2 ^ (bits - 1) then ⟨-2 ^ (bits - 1), taken, true⟩
  else if 2 ^ (bits - 1) - 1 < value then ⟨2 ^ (bits - 1) - 1, taken, true⟩
  else ⟨value, taken, false⟩

/-- The sign and the digits of a number, behind the blanks. -/
def convertNumber (bits base : ℕ) (blanks text : List Char) : Conversion :=
  let sign := signOf text
  let number := text.drop sign.length
  let digits := digitsOf base number
  -- without digits nothing is taken, not even the blanks
  if digits = [] then ⟨0, [], false⟩
  else
    let value : ℤ := ofDigits (radixOf base number).1 digits
    saturated bits (if sign = ['-'] then -value else value)
      (blanks ++ sign ++ ((radixOf base number).2 ++ digits))

/-- `strtol(text, &end, base)` where `long` has `bits` bits. -/
def strtol (bits base : ℕ) (text : List Char) : Conversion :=
  convertNumber bits base (text.takeWhile isSpace) (text.dropWhile isSpace)

/-! ## What is taken -/

/-- The digits of a number in a base, or a literal in base zero. -/
inductive IsNumeral : ℕ → List Char → Prop
  | digits {base text} (hbase : base ≠ 0) (hne : text ≠ [])
      (hdigits : ∀ c ∈ text, digitOf c < base) : IsNumeral base text
  | decimal {text} (hne : text ≠ []) (hhead : text.head? ≠ some '0')
      (hdigits : ∀ c ∈ text, digitOf c < 10) : IsNumeral 0 text
  | octal {text} (hdigits : ∀ c ∈ text, digitOf c < 8) : IsNumeral 0 ('0' :: text)
  | hex {base x text} (hbase : base = 0 ∨ base = 16) (hx : x = 'x' ∨ x = 'X') (hne : text ≠ [])
      (hdigits : ∀ c ∈ text, digitOf c < 16) : IsNumeral base ('0' :: x :: text)

/-- A number as `strtol` takes it: blanks and a sign may stand before it. -/
def IsSignedNumeral (base : ℕ) (text : List Char) : Prop :=
  ∃ blanks sign number, text = blanks ++ sign ++ number ∧ (∀ c ∈ blanks, isSpace c) ∧
    (sign = [] ∨ sign = ['-'] ∨ sign = ['+']) ∧ IsNumeral base number

@[simp] theorem saturated_taken (bits : ℕ) (value : ℤ) (taken : List Char) :
    (saturated bits value taken).taken = taken := by
  unfold saturated
  split_ifs <;> rfl

theorem saturated_of_lt {bits : ℕ} {value : ℕ} (h : value < 2 ^ (bits - 1)) (taken : List Char) :
    saturated bits value taken = ⟨value, taken, false⟩ := by
  have hle : (value : ℤ) < 2 ^ (bits - 1) := by exact_mod_cast h
  have hlow : ¬(value : ℤ) < -2 ^ (bits - 1) := by
    have hpow : (0 : ℤ) < 2 ^ (bits - 1) := by positivity
    omega
  rw [saturated, if_neg hlow, if_neg (by omega)]

/-- At most one sign is read. -/
theorem signOf_cases (text : List Char) :
    (signOf text = [] ∨ signOf text = ['-'] ∨ signOf text = ['+']) ∧ signOf text <+: text := by
  unfold signOf
  split <;> simp

theorem forall_takeWhile (p : Char → Bool) (text : List Char) :
    ∀ c ∈ text.takeWhile p, p c := fun _ h => List.mem_takeWhile_imp h

/-- What base and prefix the start of a text selects. -/
theorem radixOf_cases (base : ℕ) (text : List Char) :
    (∃ x rest, text = '0' :: x :: rest ∧ (base = 0 ∨ base = 16) ∧ (x = 'x' ∨ x = 'X') ∧
      radixOf base text = (16, ['0', x])) ∨
    (base = 0 ∧ (∃ rest, text = '0' :: rest) ∧ radixOf base text = (8, [])) ∨
    (base = 0 ∧ text.head? ≠ some '0' ∧ radixOf base text = (10, [])) ∨
    (base ≠ 0 ∧ radixOf base text = (base, [])) := by
  unfold radixOf
  split
  · split_ifs with hhex hbase
    · exact .inl ⟨_, _, rfl, hhex.1, hhex.2.1, rfl⟩
    · exact .inr (.inl ⟨hbase, ⟨_, rfl⟩, rfl⟩)
    · exact .inr (.inr (.inr ⟨hbase, rfl⟩))
  · split_ifs with hbase
    · exact .inr (.inl ⟨hbase, ⟨_, rfl⟩, rfl⟩)
    · exact .inr (.inr (.inr ⟨hbase, rfl⟩))
  · rename_i hzero
    split_ifs with hbase
    · refine .inr (.inr (.inl ⟨hbase, fun hhead => ?_, rfl⟩))
      obtain ⟨rest, rfl⟩ := List.head?_eq_some_iff.1 hhead
      exact hzero rest rfl
    · exact .inr (.inr (.inr ⟨hbase, rfl⟩))

/-- The prefix and the digits behind it form a numeral at the start of the text. -/
theorem isNumeral_digitsOf (base : ℕ) (text : List Char) (hne : digitsOf base text ≠ []) :
    IsNumeral base ((radixOf base text).2 ++ digitsOf base text) ∧
      (radixOf base text).2 ++ digitsOf base text <+: text := by
  have hdigits (radix : ℕ) (text : List Char) :
      ∀ c ∈ text.takeWhile (digitOf · < radix), digitOf c < radix := fun c hc => by
    simpa using forall_takeWhile _ text c hc
  have hinit (radix : ℕ) (text : List Char) : text.takeWhile (digitOf · < radix) <+: text :=
    List.takeWhile_prefix _
  unfold digitsOf at hne ⊢
  obtain ⟨x, rest, rfl, hbase, hx, heq⟩ | ⟨rfl, ⟨rest, rfl⟩, heq⟩ | ⟨rfl, hhead, heq⟩ |
      ⟨hbase, heq⟩ := radixOf_cases base text <;>
    simp only [heq, List.nil_append, List.length_nil, List.drop_zero] at hne ⊢
  · exact ⟨.hex hbase hx hne (hdigits 16 rest),
      List.prefix_append_right_inj ['0', x] |>.2 (hinit 16 rest)⟩
  · rw [List.takeWhile_cons_of_pos (by decide)]
    exact ⟨.octal (hdigits 8 rest), List.cons_prefix_cons.2 ⟨rfl, hinit 8 rest⟩⟩
  · refine ⟨.decimal hne (fun hzero => hhead ?_) (hdigits 10 text), hinit 10 text⟩
    obtain ⟨rest, hrest⟩ := List.head?_eq_some_iff.1 hzero
    obtain ⟨suffix, hsuffix⟩ := hinit 10 text
    rw [← hsuffix, hrest]
    rfl
  · exact ⟨.digits hbase hne (hdigits base text), hinit base text⟩

/-- A conversion takes nothing and returns zero, or takes a signed numeral from
the start of the text. -/
theorem strtol_taken (bits base : ℕ) (text : List Char) :
    ((strtol bits base text).taken = [] ∧ (strtol bits base text).value = 0) ∨
      (IsSignedNumeral base (strtol bits base text).taken ∧
        (strtol bits base text).taken <+: text) := by
  unfold strtol convertNumber
  dsimp only
  have htext := List.takeWhile_append_dropWhile (p := isSpace) (l := text)
  generalize text.dropWhile isSpace = rest at htext ⊢
  obtain ⟨hsign, hsignPrefix⟩ := signOf_cases rest
  have hrest := List.prefix_iff_eq_append.1 hsignPrefix
  generalize rest.drop (signOf rest).length = number at hrest ⊢
  by_cases hdigits : digitsOf base number = []
  · exact .inl (by rw [if_pos hdigits]; exact ⟨rfl, rfl⟩)
  · obtain ⟨hnumeral, hinit⟩ := isNumeral_digitsOf base number hdigits
    rw [if_neg hdigits, saturated_taken]
    refine .inr ⟨⟨_, _, _, rfl, forall_takeWhile _ text, hsign, hnumeral⟩, ?_⟩
    calc text.takeWhile isSpace ++ signOf rest ++ ((radixOf base number).2 ++ digitsOf base number)
        <+: text.takeWhile isSpace ++ signOf rest ++ number :=
          (List.prefix_append_right_inj _).2 hinit
      _ = text := by rw [List.append_assoc, hrest, htext]

variable {c : Char}

/-- The characters of a numeral. -/
theorem IsNumeral.mem {base : ℕ} {text : List Char} (h : IsNumeral base text) (hbase : base ≤ 16)
    (hc : c ∈ text) : c = 'x' ∨ c = 'X' ∨ digitOf c < 16 := by
  cases h with
  | digits _ _ hdigits => exact .inr (.inr ((hdigits c hc).trans_le hbase))
  | decimal _ _ hdigits => exact .inr (.inr ((hdigits c hc).trans (by decide)))
  | octal hdigits =>
      obtain rfl | hc := List.mem_cons.1 hc
      · exact .inr (.inr (by decide))
      · exact .inr (.inr ((hdigits c hc).trans (by decide)))
  | hex _ hx _ hdigits =>
      obtain rfl | hc := List.mem_cons.1 hc
      · exact .inr (.inr (by decide))
      obtain rfl | hc := List.mem_cons.1 hc
      · exact hx.imp_right .inl
      · exact .inr (.inr (hdigits c hc))

/-- The characters that a number can hold. -/
theorem IsSignedNumeral.mem {base : ℕ} {text : List Char} (h : IsSignedNumeral base text)
    (hbase : base ≤ 16) (hc : c ∈ text) :
    isSpace c ∨ c = '-' ∨ c = '+' ∨ c = 'x' ∨ c = 'X' ∨ digitOf c < 16 := by
  obtain ⟨blanks, sign, number, rfl, hblanks, hsign, hnumber⟩ := h
  obtain hc | hc := List.mem_append.1 hc
  · obtain hc | hc := List.mem_append.1 hc
    · exact .inl (hblanks c hc)
    · obtain rfl | rfl | rfl := hsign
      · simp at hc
      · exact .inr (.inl (List.mem_singleton.1 hc))
      · exact .inr (.inr (.inl (List.mem_singleton.1 hc)))
  · exact .inr (.inr (.inr (hnumber.mem hbase hc)))

/-! ## Decimal numbers -/

theorem isDigit_iff : c.isDigit ↔ 48 ≤ c.toNat ∧ c.toNat ≤ 57 := by
  simp [Char.isDigit, UInt32.le_iff_toNat_le, ← Char.toNat_val]

theorem isAlpha_iff :
    c.isAlpha ↔ (65 ≤ c.toNat ∧ c.toNat ≤ 90) ∨ (97 ≤ c.toNat ∧ c.toNat ≤ 122) := by
  change (decide ('A'.val ≤ c.val ∧ c.val ≤ 'Z'.val) ||
    (decide ('a'.val ≤ c.val) && decide (c.val ≤ 'z'.val))) = true ↔ _
  simp [UInt32.le_iff_toNat_le, ← Char.toNat_val]

theorem ne_of_isDigit {c d : Char} (h : c.isDigit) (hd : d.isDigit = false) : c ≠ d := by
  rintro rfl
  rw [hd] at h
  exact Bool.false_ne_true h

/-- The characters behind the blank are no blanks. -/
theorem not_isSpace_of_lt (h : 32 < c.toNat) : isSpace c = false := by
  have hblank : c ≠ ' ' := by
    rintro rfl
    exact absurd h (by decide)
  have hreturn : ¬c ≤ '\r' := fun hle => by
    have : c.toNat ≤ 13 := UInt32.le_iff_toNat_le.1 hle
    omega
  simp [isSpace, hblank, hreturn]

theorem not_isSpace_of_isDigit (h : c.isDigit) : isSpace c = false := by
  obtain ⟨hlow, -⟩ := isDigit_iff.1 h
  exact not_isSpace_of_lt (by omega)

theorem not_isSpace_of_isAlpha (h : c.isAlpha) : isSpace c = false := by
  have hletter := isAlpha_iff.1 h
  exact not_isSpace_of_lt (by omega)

/-- The value of a decimal digit. -/
theorem digitOf_of_isDigit (h : c.isDigit) : digitOf c = c.toNat - '0'.toNat :=
  if_pos h

theorem digitOf_lt_of_isDigit (h : c.isDigit) : digitOf c < 10 := by
  obtain ⟨-, hhigh⟩ := isDigit_iff.1 h
  rw [digitOf_of_isDigit h, show '0'.toNat = 48 from rfl]
  omega

/-- What is no decimal digit. -/
theorem le_digitOf (h : c.isDigit = false) : 10 ≤ digitOf c := by
  simp only [digitOf, h, Bool.false_eq_true, if_false]
  split_ifs <;> omega

theorem signOf_of_isDigit (h : c.isDigit) (text : List Char) :
    signOf (c :: text) = [] := by
  have hminus : c ≠ '-' := ne_of_isDigit h (by decide)
  have hplus : c ≠ '+' := ne_of_isDigit h (by decide)
  unfold signOf
  split
  · rename_i heq
    exact absurd (List.cons_eq_cons.1 heq).1 hminus
  · rename_i heq
    exact absurd (List.cons_eq_cons.1 heq).1 hplus
  · rfl

/-- Decimal text has decimal digits. -/
theorem isDigit_of_mem_toDigits {n : ℕ} (h : c ∈ Nat.toDigits 10 n) : c.isDigit :=
  Nat.isDigit_of_mem_toDigits (by decide) (by decide) h

/-- It does not begin with a zero. -/
theorem head?_toDigits_ne {n : ℕ} (hn : n ≠ 0) : (Nat.toDigits 10 n).head? ≠ some '0' := by
  induction n using Nat.base_induction 10 (by decide) with
  | single m hm =>
      have hchar : ∀ m < 10, m ≠ 0 → m.digitChar ≠ '0' := by decide
      rw [Nat.toDigits_of_lt_base hm, List.head?_cons]
      simpa using hchar m hm hn
  | digit m k hk hm ih =>
      rw [← Nat.toDigits_append_toDigits (by decide) hm hk,
        List.head?_append_of_ne_nil _ Nat.toDigits_ne_nil]
      exact ih (by omega)

/-- Both ways to read decimal digits agree. -/
theorem ofDigits_ten {digits : List Char} (h : ∀ c ∈ digits, c.isDigit) :
    ofDigits 10 digits = Nat.ofDigitChars 10 digits 0 := by
  rw [ofDigits, Nat.ofDigitChars_eq_foldl]
  refine List.foldl_ext _ _ _ fun n c hc => ?_
  rw [digitOf_of_isDigit (h c hc)]

/-- A run of digits is read whole, up to the first character that is no digit. Base zero takes a
zero in front for a prefix. -/
theorem strtol_digits (bits : ℕ) {base : ℕ} {digits rest : List Char} (hne : digits ≠ [])
    (hdigits : ∀ c ∈ digits, c.isDigit) (hbase : base = 10 ∨ base = 0 ∧ digits.head? ≠ some '0')
    (hrest : ∀ c ∈ rest.head?, 10 ≤ digitOf c) :
    strtol bits base (digits ++ rest) = saturated bits (ofDigits 10 digits) digits := by
  obtain ⟨c, digits, rfl⟩ := List.exists_cons_of_ne_nil hne
  have hc : c.isDigit := hdigits c (List.mem_cons_self ..)
  have hradix : radixOf base (c :: digits ++ rest) = (10, []) := by
    have hzero {tail : List Char} (htext : c :: digits ++ rest = '0' :: tail) (h : base ≠ 10) :
        False :=
      (hbase.resolve_left h).2 (congrArg some (List.cons_eq_cons.1 htext).1)
    obtain ⟨x, tail, htext, hhex, -⟩ | ⟨rfl, ⟨tail, htext⟩, -⟩ | ⟨-, -, h⟩ | ⟨hpositive, h⟩ :=
      radixOf_cases base (c :: digits ++ rest)
    · exact (hzero htext (by omega)).elim
    · exact (hzero htext (by decide)).elim
    · exact h
    · rw [h, hbase.resolve_right fun h0 => hpositive h0.1]
  have htaken : (c :: digits ++ rest).takeWhile (digitOf · < 10) = c :: digits := by
    have hlt : ∀ d ∈ c :: digits, decide (digitOf d < 10) := fun d hd => by
      simpa using digitOf_lt_of_isDigit (hdigits d hd)
    rw [List.takeWhile_append_of_pos hlt]
    cases rest with
    | nil => simp
    | cons d rest =>
        have hd : 10 ≤ digitOf d := hrest d rfl
        rw [List.takeWhile_cons_of_neg (by simpa using hd), List.append_nil]
  have hblanks : (c :: digits ++ rest).takeWhile isSpace = [] := by
    rw [List.cons_append, List.takeWhile_cons_of_neg (by simp [not_isSpace_of_isDigit hc])]
  have hnumber : (c :: digits ++ rest).dropWhile isSpace = c :: digits ++ rest := by
    rw [List.cons_append, List.dropWhile_cons_of_neg (by simp [not_isSpace_of_isDigit hc])]
  have hsign : signOf (c :: digits ++ rest) = [] := signOf_of_isDigit hc _
  simp only [strtol, convertNumber, digitsOf, hblanks, hnumber, hsign, List.length_nil,
    List.drop_zero, hradix, htaken]
  rw [if_neg (List.cons_ne_nil _ _), if_neg (by simp)]
  rfl

/-- A decimal number is read whole, up to the first character that is no digit. -/
theorem strtol_toDigits (bits : ℕ) {base n : ℕ} (hbase : base = 10 ∨ base = 0 ∧ n ≠ 0)
    {rest : List Char} (hrest : ∀ c ∈ rest.head?, 10 ≤ digitOf c) :
    strtol bits base (Nat.toDigits 10 n ++ rest) = saturated bits n (Nat.toDigits 10 n) := by
  have hdigits : ∀ c ∈ Nat.toDigits 10 n, c.isDigit := fun c => isDigit_of_mem_toDigits
  have hvalue : ofDigits 10 (Nat.toDigits 10 n) = n := by
    rw [ofDigits_ten hdigits, Nat.ofDigitChars_ten_toDigits]
  have hhead : base = 10 ∨ base = 0 ∧ (Nat.toDigits 10 n).head? ≠ some '0' :=
    hbase.imp_right fun h => ⟨h.1, head?_toDigits_ne h.2⟩
  rw [strtol_digits bits Nat.toDigits_ne_nil hdigits hhead hrest, hvalue]

end AviSynth
