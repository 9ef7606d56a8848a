import AviSynth.Library.FloatRounding
import AviSynth.Library.MachineInt

/-!
# `ConditionalReader` for integers

The filter reads lines from a file and writes values into a table with an entry for each
frame. `SetRange` and `SetFrame` add the offset in 32 bits, the lines of defaults included.
Interpolated values are doubles; half is added and the fraction is cut off, which is no
rounding of negative numbers.
-/

namespace AviSynth

open MachineInt FloatRounding

/-- A line of the file, as `sscanf` has read it. -/
inductive ReaderLine
  | default (value : Int32)
  | offset (shift : Int32)
  | range (start stop value : Int32)
  | interpolate (start stop startValue stopValue : Int32)
  | frame (cframe value : Int32)
  deriving DecidableEq

/-- What ends the reading: an error, which names the line, a loop that does not end, or a write
outside the table. -/
inductive ReaderFailure
  | throwLine (message : String)
  | endless
  | outside
  deriving DecidableEq

/-- The members that the interpreter of the lines writes. -/
structure ConditionalReader where
  offset : ℤ
  intVal : List ℤ
  deriving DecidableEq

namespace ConditionalReader

/-- `vi.num_frames`. -/
def numFrames (r : ConditionalReader) : ℤ := r.intVal.length

/-- `intVal[i] = p`. -/
def setInt (r : ConditionalReader) (i p : ℤ) : Except ReaderFailure ConditionalReader :=
  if 0 ≤ i ∧ i < r.numFrames then .ok { r with intVal := r.intVal.set i.toNat p }
  else .error .outside

/-- The loop of `SetRange`, for some more rounds. -/
def setInts (p : ℤ) : ℕ → ℤ → ConditionalReader → Except ReaderFailure ConditionalReader
  | 0, _, r => .ok r
  | rounds + 1, i, r => (r.setInt i p).bind (setInts p rounds (i + 1))

/-- `SetRange`. -/
def setRange (r : ConditionalReader) (startFrame stopFrame v : ℤ) :
    Except ReaderFailure ConditionalReader :=
  let startFrame := max (i32 (startFrame + r.offset)) 0
  let stopFrame := min (i32 (stopFrame + r.offset)) (r.numFrames - 1)
  setInts v (stopFrame + 1 - startFrame).toNat startFrame r

/-- `SetFrame`. -/
def setFrame (r : ConditionalReader) (framenumber v : ℤ) :
    Except ReaderFailure ConditionalReader :=
  if i32 (framenumber + r.offset) < 0 ∨ r.numFrames - 1 < i32 (framenumber + r.offset) then .ok r
  else r.setInt (i32 (framenumber + r.offset)) v

/-- The operations on doubles. -/
def double (x : ℚ) : ℚ := roundTo 53 x

/-- The value for frame `i` of an interpolation. -/
def interpolated (setStart setStop range i : ℤ) : ℤ :=
  let diff := double (double (setStop - setStart) / range)
  let n := double (double (i * diff) + setStart)
  truncate (double (n + 1 / 2))

/-- The loop over the frames of an interpolation, for some more rounds. -/
def setInterpolated (start range setStart setStop : ℤ) :
    ℕ → ℤ → ConditionalReader → Except ReaderFailure ConditionalReader
  | 0, _, r => .ok r
  | rounds + 1, i, r =>
    (r.setFrame (i32 (i + start)) (interpolated setStart setStop range i)).bind
      (setInterpolated start range setStart setStop rounds (i + 1))

/-- What a line does. The loop of an interpolation does not end if each int is at most its
bound. -/
def readLine (r : ConditionalReader) : ReaderLine → Except ReaderFailure ConditionalReader
  | .default value => r.setRange 0 (r.numFrames - 1) value.toInt
  | .offset shift => .ok { r with offset := shift.toInt }
  | .range start stop value =>
    if stop < start then
      .error (.throwLine
        "ConditionalReader: The Range start frame is after the end frame in line %d")
    else r.setRange start.toInt stop.toInt value.toInt
  | .interpolate start stop startValue stopValue =>
    if stop < start then
      .error (.throwLine
        "ConditionalReader: The Interpolation start frame is after the end frame in line %d")
    else
      let range := i32 (stop.toInt - start.toInt)
      if range = 0 then
        .error (.throwLine
          "ConditionalReader: Interpolation range must span at least two frames in line %d")
      else if range = 2 ^ 31 - 1 then .error .endless
      else setInterpolated start.toInt range startValue.toInt stopValue.toInt (range + 1).toNat 0 r
  | .frame cframe value => r.setFrame cframe.toInt value.toInt

/-- The constructor, for a file whose first line is `Type int`. The table has any values when
it is allocated. -/
def readFile (intVal : List ℤ) (lines : List ReaderLine) :
    Except ReaderFailure ConditionalReader :=
  (setRange ⟨0, intVal⟩ 0 (intVal.length - 1) 0).bind fun r => lines.foldlM readLine r

end ConditionalReader

/-! ### What a file says -/

namespace ReaderLine

/-- The offset behind a line. -/
def offsetBehind (current : ℤ) : ReaderLine → ℤ
  | .offset shift => shift.toInt
  | _ => current

/-- The value that a line gives to a frame, if it covers it. An interpolation gives its two
values at its ends. -/
def given (current n : ℤ) : ReaderLine → Option ℤ
  | .default value => some value.toInt
  | .offset _ => none
  | .range start stop value =>
    if start.toInt + current ≤ n ∧ n ≤ stop.toInt + current then some value.toInt else none
  | .interpolate start stop startValue stopValue =>
    if start.toInt + current ≤ n ∧ n ≤ stop.toInt + current then
      some (if n = start.toInt + current then startValue.toInt
        else if n = stop.toInt + current then stopValue.toInt
        else ConditionalReader.interpolated startValue.toInt stopValue.toInt
          (stop.toInt - start.toInt) (n - (start.toInt + current)))
    else none
  | .frame cframe value => if n = cframe.toInt + current then some value.toInt else none

/-- The value from the last line that covers a frame. -/
def lastGiven (current n : ℤ) : List ReaderLine → Option ℤ
  | [] => none
  | line :: rest => (lastGiven (line.offsetBehind current) n rest).or (line.given current n)

/-- A default is not shifted, the shifted numbers of frames are ints, and so is the number of
frames of an interpolation, which has no negative value at an end inside the clip. -/
def Meets (numFrames current : ℤ) : ReaderLine → Prop
  | .default _ => current = 0
  | .offset _ => True
  | .range start stop _ => -2 ^ 31 ≤ start.toInt + current ∧ stop.toInt + current < 2 ^ 31
  | .interpolate start stop startValue stopValue =>
    -2 ^ 31 ≤ start.toInt + current ∧ stop.toInt + current < 2 ^ 31 ∧
      stop.toInt - start.toInt < 2 ^ 31 - 1 ∧
      (0 ≤ start.toInt + current ∧ start.toInt + current < numFrames → 0 ≤ startValue) ∧
      (0 ≤ stop.toInt + current ∧ stop.toInt + current < numFrames → 0 ≤ stopValue)
  | .frame cframe _ => -2 ^ 31 ≤ cframe.toInt + current ∧ cframe.toInt + current < 2 ^ 31

/-- All lines meet the condition, each with the offset that is in force. -/
def AllMeet (numFrames : ℤ) : ℤ → List ReaderLine → Prop
  | _, [] => True
  | current, line :: rest =>
    line.Meets numFrames current ∧ AllMeet numFrames (line.offsetBehind current) rest

end ReaderLine

/-!
## The values that `ConditionalReader` reads

No line writes outside the table. If each line meets its condition, the value of each frame
is the one from the last line that covers it.
-/

namespace ConditionalReader

variable {r r₁ r₂ : ConditionalReader}

/-! ### The ends of an interpolation -/

theorem double_intCast {n : ℤ} (h : |n| < 2 ^ 53) : double n = n := by
  have hexact := roundTo_eq_self (p := 53) (e := 0) h
  rwa [zpow_zero, mul_one] at hexact

theorem double_add_half {n : ℤ} (h : |2 * n + 1| < 2 ^ 53) : double (n + 1 / 2) = n + 1 / 2 := by
  have hexact := roundTo_eq_self (p := 53) (e := -1) h
  have hhalf : ((2 * n + 1 : ℤ) : ℚ) * 2 ^ (-1 : ℤ) = n + 1 / 2 := by
    push_cast
    rw [zpow_neg_one]
    ring
  rwa [hhalf] at hexact

theorem truncate_eq {x : ℚ} {n : ℤ} (hn : 0 ≤ n) (hlow : n ≤ x) (hhigh : x < n + 1) :
    truncate x = n := by
  have hpos : 0 ≤ x := le_trans (by exact_mod_cast hn) hlow
  rw [truncate, if_pos hpos]
  exact Int.floor_eq_iff.mpr ⟨hlow, hhigh⟩

/-- Up to its fraction the first value is exact. -/
theorem interpolated_first {a b range : ℤ} (ha : 0 ≤ a) (hhigh : a < 2 ^ 31) :
    interpolated a b range 0 = a := by
  have habs : |a| < 2 ^ 53 := by
    rw [abs_lt]
    omega
  have habs' : |2 * a + 1| < 2 ^ 53 := by
    rw [abs_lt]
    omega
  have hzero : double 0 = 0 := by simpa using double_intCast (by norm_num : |(0 : ℤ)| < 2 ^ 53)
  have hstart : double (double (((0 : ℤ) : ℚ) * double (double (b - a) / range)) + a) = a := by
    rw [Int.cast_zero, zero_mul, hzero, zero_add, double_intCast habs]
  simp only [interpolated]
  rw [hstart, double_add_half habs']
  exact truncate_eq ha (by linarith) (by linarith)

/-- A double is off by at most this part of a bound. -/
theorem abs_double_sub_le {x bound : ℚ} (h : |x| ≤ bound) : |double x - x| ≤ bound / 2 ^ 53 :=
  (abs_roundTo_sub_le 53 x).trans (by gcongr)

/-- The last value is off by less than a half, so it is exact up to its fraction. -/
theorem interpolated_last {a b range : ℤ} (hrange : 0 < range) (ha : -2 ^ 31 ≤ a)
    (ha' : a < 2 ^ 31) (hb : 0 ≤ b) (hb' : b < 2 ^ 31) : interpolated a b range range = b := by
  have hdiff : double (b - a) = b - a := by
    have habs : |b - a| < 2 ^ 53 := by
      rw [abs_lt]
      omega
    have hexact := double_intCast habs
    rwa [Int.cast_sub] at hexact
  have hpos : (0 : ℚ) < range := by exact_mod_cast hrange
  have haq : (-2 ^ 31 : ℚ) ≤ a := by exact_mod_cast ha
  have haq' : (a : ℚ) < 2 ^ 31 := by exact_mod_cast ha'
  have hbq : (0 : ℚ) ≤ b := by exact_mod_cast hb
  have hbq' : (b : ℚ) < 2 ^ 31 := by exact_mod_cast hb'
  have hslope : |((b : ℚ) - a) / range| ≤ 2 ^ 32 / range := by
    rw [abs_div, abs_of_pos hpos]
    gcongr
    rw [abs_le]
    constructor <;> linarith
  -- the quotient, the product and the sum are rounded
  have hquotient := abs_double_sub_le hslope
  have hproduct : |range * double ((b - a) / range) - (b - a)| ≤ 2 ^ 32 / 2 ^ 53 := by
    have hsplit : range * double ((b - a) / range) - (b - a) =
        range * (double ((b - a) / range) - (b - a) / range) := by
      field_simp
    rw [hsplit, abs_mul, abs_of_pos hpos]
    calc range * |double ((b - a) / range) - (b - a) / range|
        ≤ range * (2 ^ 32 / range / 2 ^ 53) := by gcongr
      _ = 2 ^ 32 / 2 ^ 53 := by field_simp
  rw [abs_le] at hproduct
  have hproduct' : |range * double ((b - a) / range)| ≤ 2 ^ 33 := by
    rw [abs_le]
    constructor <;> linarith
  have hrounded := abs_le.mp (abs_double_sub_le hproduct')
  have hsum' : |double (range * double ((b - a) / range)) + a| ≤ 2 ^ 32 := by
    rw [abs_le]
    constructor <;> linarith
  have hsum := abs_le.mp (abs_double_sub_le hsum')
  have hhalf' : |double (double (range * double ((b - a) / range)) + a) + 1 / 2| ≤ 2 ^ 33 := by
    rw [abs_le]
    constructor <;> linarith
  have hhalf := abs_le.mp (abs_double_sub_le hhalf')
  simp only [interpolated]
  rw [hdiff]
  exact truncate_eq hb (by linarith) (by linarith)

/-! ### What is written -/

/-- The table is written where `given` gives a value, and nothing else changes. -/
structure Writes (r r' : ConditionalReader) (given : ℤ → Option ℤ) : Prop where
  offset : r'.offset = r.offset
  length : r'.intVal.length = r.intVal.length
  intVal : ∀ n : ℕ, n < r.intVal.length → r'.intVal[n]? = (given n).or r.intVal[n]?

theorem Writes.refl (r : ConditionalReader) : Writes r r fun _ => none := ⟨rfl, rfl, fun _ _ => rfl⟩

/-- What is written later stays. -/
theorem Writes.trans {g₁ g₂ : ℤ → Option ℤ} (h₁ : Writes r r₁ g₁) (h₂ : Writes r₁ r₂ g₂) :
    Writes r r₂ fun n => (g₂ n).or (g₁ n) where
  offset := h₂.offset.trans h₁.offset
  length := h₂.length.trans h₁.length
  intVal n hn := by
    rw [h₂.intVal n (by rw [h₁.length]; exact hn), h₁.intVal n hn, Option.or_assoc]

theorem Writes.congr {g g' : ℤ → Option ℤ} (h : Writes r r₁ g)
    (hsame : ∀ n : ℕ, n < r.intVal.length → g n = g' n) : Writes r r₁ g' :=
  ⟨h.offset, h.length, fun n hn => by rw [h.intVal n hn, hsame n hn]⟩

theorem setInt_writes {i : ℤ} (p : ℤ) (hlow : 0 ≤ i) (hhigh : i < r.numFrames) :
    ∃ r', r.setInt i p = .ok r' ∧ Writes r r' fun n => if n = i then some p else none := by
  refine ⟨_, if_pos ⟨hlow, hhigh⟩, rfl, List.length_set, fun n hn => ?_⟩
  dsimp only
  by_cases hni : (n : ℤ) = i
  · rw [if_pos hni, ← hni, Int.toNat_natCast, List.getElem?_set_self hn]
    rfl
  · rw [if_neg hni, List.getElem?_set_ne (by omega)]
    rfl

theorem setInts_writes (p : ℤ) (rounds : ℕ) {i : ℤ} (hlow : 0 ≤ i)
    (hhigh : rounds = 0 ∨ i + rounds ≤ r.numFrames) :
    ∃ r', setInts p rounds i r = .ok r' ∧
      Writes r r' fun n => if i ≤ n ∧ n < i + rounds then some p else none := by
  induction rounds generalizing i r with
  | zero => exact ⟨r, rfl, (Writes.refl r).congr fun n _ => by rw [if_neg (by omega)]⟩
  | succ rounds ih =>
    obtain ⟨r₁, hfirst, hwrites⟩ := setInt_writes (r := r) p hlow (by omega)
    have hlength : r₁.numFrames = r.numFrames := congrArg Nat.cast hwrites.length
    obtain ⟨r', hrest, hwrites'⟩ := ih (r := r₁) (by omega : 0 ≤ i + 1) (by omega)
    refine ⟨r', by rw [setInts, hfirst]; exact hrest, (hwrites.trans hwrites').congr fun n _ => ?_⟩
    split_ifs <;> first | rfl | omega

/-- `SetRange` writes nowhere else, whatever its bounds. -/
theorem setRange_writes (r : ConditionalReader) (startFrame stopFrame v : ℤ) :
    ∃ r', r.setRange startFrame stopFrame v = .ok r' ∧ Writes r r' fun n =>
      if i32 (startFrame + r.offset) ≤ n ∧ n ≤ i32 (stopFrame + r.offset) then some v
      else none := by
  obtain ⟨r', hset, hwrites⟩ := setInts_writes (r := r) v
    (min (i32 (stopFrame + r.offset)) (r.numFrames - 1) + 1 -
      max (i32 (startFrame + r.offset)) 0).toNat (le_max_right (i32 (startFrame + r.offset)) 0)
    (by omega)
  refine ⟨r', hset, hwrites.congr fun n hn => ?_⟩
  have hnum : (n : ℤ) < r.numFrames := Int.ofNat_lt.mpr hn
  split_ifs <;> first | rfl | omega

/-- So does `SetFrame`. -/
theorem setFrame_writes (r : ConditionalReader) (framenumber v : ℤ) :
    ∃ r', r.setFrame framenumber v = .ok r' ∧ Writes r r' fun n =>
      if n = i32 (framenumber + r.offset) then some v else none := by
  rw [setFrame]
  split_ifs with hout
  · refine ⟨r, rfl, (Writes.refl r).congr fun n hn => ?_⟩
    have hnum : (n : ℤ) < r.numFrames := Int.ofNat_lt.mpr hn
    rw [if_neg (by omega)]
  · exact setInt_writes v (by omega) (by omega)

/-- And so does an interpolation. -/
theorem setInterpolated_writes (start range setStart setStop : ℤ) (rounds : ℕ) (i : ℤ)
    (r : ConditionalReader) :
    ∃ r', setInterpolated start range setStart setStop rounds i r = .ok r' ∧
      ∃ given, Writes r r' given ∧
        (-2 ^ 31 ≤ i + start + r.offset → i + rounds + start + r.offset ≤ 2 ^ 31 →
          ∀ n, given n = if i + start + r.offset ≤ n ∧ n < i + rounds + start + r.offset then
            some (interpolated setStart setStop range (n - (start + r.offset))) else none) := by
  induction rounds generalizing i r with
  | zero => exact ⟨r, rfl, _, Writes.refl r, fun _ _ n => by rw [if_neg (by omega)]⟩
  | succ rounds ih =>
    obtain ⟨r₁, hfirst, hwrites⟩ :=
      setFrame_writes r (i32 (i + start)) (interpolated setStart setStop range i)
    obtain ⟨r', hrest, given, hwrites', hgiven⟩ := ih (i + 1) r₁
    refine ⟨r', by rw [setInterpolated, hfirst]; exact hrest, _, hwrites.trans hwrites', ?_⟩
    intro hlow hhigh n
    push_cast at hhigh ⊢
    rw [hwrites.offset] at hgiven
    rw [hgiven (by omega) (by omega), i32_i32_add, i32_of_range hlow (by omega)]
    by_cases hni : n = i + start + r.offset
    · rw [if_neg (by omega), if_pos hni, if_pos (by omega),
        show n - (start + r.offset) = i by omega]
      rfl
    · rw [if_neg hni, Option.or_none]
      split_ifs <;> first | rfl | omega

/-! ### Lines -/

/-- A line changes the offset and writes what it gives, if it meets its condition. -/
structure Reads (r r' : ConditionalReader) (line : ReaderLine) : Prop where
  offset : r'.offset = line.offsetBehind r.offset
  length : r'.intVal.length = r.intVal.length
  intVal : line.Meets r.numFrames r.offset → ∀ n : ℕ, n < r.intVal.length →
    r'.intVal[n]? = (line.given r.offset n).or r.intVal[n]?

/-- The two values of an interpolation are what is computed for its ends. -/
theorem given_interpolate {start stop startValue stopValue : Int32} {numFrames current n : ℤ}
    (hmeets : (ReaderLine.interpolate start stop startValue stopValue).Meets numFrames current)
    (hspan : start.toInt < stop.toInt) (hn : 0 ≤ n ∧ n < numFrames) :
    (ReaderLine.interpolate start stop startValue stopValue).given current n =
      if start.toInt + current ≤ n ∧ n ≤ stop.toInt + current then
        some (interpolated startValue.toInt stopValue.toInt (stop.toInt - start.toInt)
          (n - (start.toInt + current)))
      else none := by
  obtain ⟨-, -, -, hfirst, hlast⟩ := hmeets
  have hlow := startValue.le_toInt
  have hhigh := startValue.toInt_lt
  have hhigh' := stopValue.toInt_lt
  have hzero : (0 : Int32).toInt = 0 := rfl
  rw [ReaderLine.given]
  split_ifs with hin hstart hstop
  · have hpos : 0 ≤ startValue := hfirst (by omega)
    rw [Int32.le_iff_toInt_le, hzero] at hpos
    rw [hstart, sub_self, interpolated_first hpos (by omega)]
  · have hpos : 0 ≤ stopValue := hlast (by omega)
    rw [Int32.le_iff_toInt_le, hzero] at hpos
    rw [show n - (start.toInt + current) = stop.toInt - start.toInt by omega,
      interpolated_last (by omega) (by omega) (by omega) hpos (by omega)]
  · rfl
  · rfl

/-- A line is read, throws, or has a loop that does not end. -/
theorem readLine_reads (r : ConditionalReader) (hcount : r.numFrames < 2 ^ 31) (line : ReaderLine) :
    (∃ r', r.readLine line = .ok r' ∧ Reads r r' line) ∨
      (∃ message, r.readLine line = .error (.throwLine message)) ∨
      r.readLine line = .error .endless ∧ ¬line.Meets r.numFrames r.offset := by
  have hnonneg : 0 ≤ r.numFrames := Int.natCast_nonneg _
  cases line with
  | default value =>
    obtain ⟨r', hset, hwrites⟩ := setRange_writes r 0 (r.numFrames - 1) value.toInt
    refine .inl ⟨r', hset, hwrites.offset, hwrites.length, fun hmeets n hn => ?_⟩
    have hzero : r.offset = 0 := hmeets
    have hnum : (n : ℤ) < r.numFrames := Int.ofNat_lt.mpr hn
    rw [hwrites.intVal n hn, hzero, add_zero, add_zero, i32_of_range (by omega) (by omega),
      i32_of_range (by omega) (by omega), if_pos (by omega)]
    rfl
  | offset shift => exact .inl ⟨_, rfl, rfl, rfl, fun _ _ _ => rfl⟩
  | range start stop value =>
    simp only [readLine]
    split_ifs with horder
    · exact .inr (.inl ⟨_, rfl⟩)
    · obtain ⟨r', hset, hwrites⟩ := setRange_writes r start.toInt stop.toInt value.toInt
      refine .inl ⟨r', hset, hwrites.offset, hwrites.length, fun hmeets n hn => ?_⟩
      obtain ⟨hlow, hhigh⟩ := hmeets
      have hle : start.toInt ≤ stop.toInt := Int32.le_iff_toInt_le.mp (Int32.not_lt.mp horder)
      rw [hwrites.intVal n hn, i32_of_range (by omega) (by omega),
        i32_of_range (by omega) (by omega)]
      rfl
  | interpolate start stop startValue stopValue =>
    simp only [readLine]
    split_ifs with horder hzero hbound
    · exact .inr (.inl ⟨_, rfl⟩)
    · exact .inr (.inl ⟨_, rfl⟩)
    · refine .inr (.inr ⟨rfl, fun hmeets => ?_⟩)
      obtain ⟨-, -, hspan, -⟩ := hmeets
      have hle : start.toInt ≤ stop.toInt := Int32.le_iff_toInt_le.mp (Int32.not_lt.mp horder)
      rw [i32_of_range (by omega) (by omega)] at hbound
      omega
    · obtain ⟨r', hset, given, hwrites, hgiven⟩ := setInterpolated_writes start.toInt
        (i32 (stop.toInt - start.toInt)) startValue.toInt stopValue.toInt
        (i32 (stop.toInt - start.toInt) + 1).toNat 0 r
      refine .inl ⟨r', hset, hwrites.offset, hwrites.length, fun hmeets n hn => ?_⟩
      have hle : start.toInt ≤ stop.toInt := Int32.le_iff_toInt_le.mp (Int32.not_lt.mp horder)
      have hspan : i32 (stop.toInt - start.toInt) = stop.toInt - start.toInt :=
        i32_of_range (by omega) (by have hspan := hmeets.2.2.1; omega)
      rw [hspan] at hgiven hzero
      rw [hwrites.intVal n hn, given_interpolate hmeets (by omega)
          ⟨Int.natCast_nonneg n, Int.ofNat_lt.mpr hn⟩,
        hgiven (by have hlow := hmeets.1; omega) (by have hhigh := hmeets.2.1; omega)]
      congr 1
      split_ifs <;> first | rfl | omega
  | frame cframe value =>
    obtain ⟨r', hset, hwrites⟩ := setFrame_writes r cframe.toInt value.toInt
    refine .inl ⟨r', hset, hwrites.offset, hwrites.length, fun hmeets n hn => ?_⟩
    obtain ⟨hlow, hhigh⟩ := hmeets
    rw [hwrites.intVal n hn, i32_of_range (by omega) (by omega)]
    rfl

/-- What reading some lines may come to: the values are those of the last lines, if each line
meets its condition, and without a loop that does not end. -/
def Outcome (r : ConditionalReader) (lines : List ReaderLine) :
    Except ReaderFailure ConditionalReader → Prop
  | .ok r' => r'.intVal.length = r.intVal.length ∧
    (ReaderLine.AllMeet r.numFrames r.offset lines → ∀ n : ℕ, n < r.intVal.length →
      r'.intVal[n]? = (ReaderLine.lastGiven r.offset n lines).or r.intVal[n]?)
  | .error (.throwLine _) => True
  | .error .endless => ¬ReaderLine.AllMeet r.numFrames r.offset lines
  | .error .outside => False

theorem readLines_outcome (lines : List ReaderLine) {r : ConditionalReader}
    (hcount : r.numFrames < 2 ^ 31) : r.Outcome lines (lines.foldlM readLine r) := by
  induction lines generalizing r with
  | nil => exact ⟨rfl, fun _ n _ => rfl⟩
  | cons line lines ih =>
    rw [List.foldlM_cons]
    obtain ⟨r₁, hline, hreads⟩ | ⟨message, hline⟩ | ⟨hline, hnot⟩ := readLine_reads r hcount line
    · have hnum : r₁.numFrames = r.numFrames := congrArg Nat.cast hreads.length
      have hrest := ih (r := r₁) (by rwa [hnum])
      rw [hline]
      change r.Outcome (line :: lines) (lines.foldlM readLine r₁)
      cases hrun : lines.foldlM readLine r₁ with
      | ok r' =>
        rw [hrun] at hrest
        obtain ⟨hlength, hvalues⟩ := hrest
        refine ⟨hlength.trans hreads.length, fun hmeets n hn => ?_⟩
        obtain ⟨hfirst, hothers⟩ := hmeets
        rw [hnum, hreads.offset] at hvalues
        rw [hvalues hothers n (by rwa [hreads.length]), hreads.intVal hfirst n hn,
          ReaderLine.lastGiven, Option.or_assoc]
      | error failure =>
        rw [hrun] at hrest
        cases failure with
        | throwLine message => trivial
        | endless =>
          refine fun hmeets => hrest ?_
          rw [hnum, hreads.offset]
          exact hmeets.2
        | outside => exact hrest
    · rw [hline]
      trivial
    · rw [hline]
      exact fun hmeets => hnot hmeets.1

/-- `Type int` sets each frame to zero. -/
theorem start_zero {intVal : List ℤ} (hcount : intVal.length < 2 ^ 31) :
    ∃ r, setRange ⟨0, intVal⟩ 0 (intVal.length - 1) 0 = .ok r ∧ r.offset = 0 ∧
      r.intVal.length = intVal.length ∧ ∀ n : ℕ, n < intVal.length → r.intVal[n]? = some 0 := by
  obtain ⟨r, hset, hwrites⟩ := setRange_writes ⟨0, intVal⟩ 0 (intVal.length - 1) 0
  refine ⟨r, hset, hwrites.offset, hwrites.length, fun n hn => ?_⟩
  rw [hwrites.intVal n hn]
  dsimp only
  rw [add_zero, add_zero, i32_of_range (by omega) (by omega), i32_of_range (by omega) (by omega),
    if_pos (by omega)]
  rfl

end ConditionalReader

open ConditionalReader

/-- No file makes the filter write outside its table. If each line of a file meets its
condition, no loop goes on forever, and each frame has the value from the last line that
covers it, or zero without such a line. -/
theorem conditionalReader_lastGiven (intVal : List ℤ) (hcount : intVal.length < 2 ^ 31)
    (lines : List ReaderLine) :
    readFile intVal lines ≠ .error .outside ∧
      (ReaderLine.AllMeet intVal.length 0 lines → readFile intVal lines ≠ .error .endless ∧
        ∀ r, readFile intVal lines = .ok r → r.intVal.length = intVal.length ∧
          ∀ n : ℕ, n < intVal.length →
            r.intVal[n]? = some ((ReaderLine.lastGiven 0 n lines).getD 0)) := by
  obtain ⟨r, hset, hoffset, hlength, hzero⟩ := start_zero hcount
  have hnum : r.numFrames = intVal.length := congrArg Nat.cast hlength
  have hread : readFile intVal lines = lines.foldlM readLine r := by
    rw [readFile, hset]
    rfl
  have houtcome := readLines_outcome lines (r := r) (by omega)
  rw [← hread] at houtcome
  refine ⟨fun h => ?_, fun hmeets => ⟨fun h => ?_, fun r' h => ?_⟩⟩
  · rw [h] at houtcome
    exact houtcome
  · rw [h] at houtcome
    exact houtcome (by rwa [hnum, hoffset])
  · rw [h] at houtcome
    obtain ⟨hlength', hvalues⟩ := houtcome
    refine ⟨hlength'.trans hlength, fun n hn => ?_⟩
    rw [hvalues (by rwa [hnum, hoffset]) n (by rwa [hlength]), hzero n hn, hoffset]
    cases ReaderLine.lastGiven 0 n lines <;> rfl

/-- A file for a clip of eight frames. -/
theorem conditionalReader_lastGiven_eight :
    ∃ r, readFile (List.replicate 8 5) [.default 7, .range 0 3 2, .offset 1, .frame 4 9] = .ok r ∧
      r.intVal[5]? = some 9 ∧ r.intVal[2]? = some 2 ∧ r.intVal[7]? = some 7 := by
  have hvalues := (conditionalReader_lastGiven (List.replicate 8 5) (by decide)
    [.default 7, .range 0 3 2, .offset 1, .frame 4 9]).2
      (by simp only [ReaderLine.AllMeet, ReaderLine.Meets, ReaderLine.offsetBehind]; decide)
  exact ⟨_, rfl, (hvalues.2 _ rfl).2 5 (by decide), (hvalues.2 _ rfl).2 2 (by decide),
    (hvalues.2 _ rfl).2 7 (by decide)⟩

/-- A default behind an offset does not cover the first frames. -/
theorem conditionalReader_default_shifted :
    ∃ r, readFile (List.replicate 4 0) [.offset 2, .default 5] = .ok r ∧
      r.intVal[0]? ≠ some ((ReaderLine.lastGiven 0 0 [.offset 2, .default 5]).getD 0) :=
  ⟨_, rfl, by decide⟩

end AviSynth
