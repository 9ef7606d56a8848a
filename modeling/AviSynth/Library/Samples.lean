import AviSynth.Library.Buffer
import Mathlib.Tactic.Ring

/-!
# Samples of two bytes in memory

Memory is a function from positions to bytes. A sample has two bytes, the lower one first, and
a word has two samples. A register has eight samples, or four words, as its lanes.
-/

namespace Samples

/-- A number by its two halves. -/
def joinHalves {width : ℕ} (both : ℕ) (high low : BitVec width) : BitVec both :=
  high.setWidth both <<< width ||| low.setWidth both

section Halves

variable {width both : ℕ} (hboth : both = width + width) (high low : BitVec width)
  (z : BitVec both)

include hboth

/-- A word is joined from its halves. -/
theorem join_halves : joinHalves both ((z >>> width).setWidth width) (z.setWidth width) = z := by
  apply BitVec.eq_of_getLsbD_eq
  intro i hi
  by_cases h : i < width
  · simp [joinHalves, h, hi]
  · have hlt : i - width < width := by omega
    have hlt' : i - width < both := by omega
    have hadd : width + (i - width) = i := by omega
    simp [joinHalves, h, hi, hlt, hlt', hadd]

theorem low_join : (joinHalves both high low).setWidth width = low := by
  apply BitVec.eq_of_getLsbD_eq
  intro i hi
  have hlt : i < both := by omega
  simp [joinHalves, hi, hlt]

theorem high_join : (joinHalves both high low >>> width).setWidth width = high := by
  apply BitVec.eq_of_getLsbD_eq
  intro i hi
  have hlt : width + i < both := by omega
  have hlt' : i < both := by omega
  simp [joinHalves, hi, hlt, hlt']

end Halves

/-- The bytes of samples, one after the other. -/
def sampleBytes (v : ℤ → BitVec 16) : ℤ → UInt8 := fun j =>
  if j % 2 = 0 then .ofBitVec ((v (j / 2)).setWidth 8)
  else .ofBitVec ((v (j / 2) >>> 8).setWidth 8)

/-- The 16-bit word at `p`, low byte first. -/
def load16 (memory : ℤ → UInt8) (p : ℤ) : BitVec 16 :=
  joinHalves 16 (memory (p + 1)).toBitVec (memory p).toBitVec

/-- The memory after a 16-bit word is written at `p`. -/
def store16 (memory : ℤ → UInt8) (p : ℤ) (x : BitVec 16) : ℤ → UInt8 :=
  Buffer.copy memory p (sampleBytes fun _ => x) 0 2

/-- The samples of words. -/
def wordSamples (w : ℤ → BitVec 32) : ℤ → BitVec 16 := fun i =>
  if i % 2 = 0 then (w (i / 2)).setWidth 16 else (w (i / 2) >>> 16).setWidth 16

/-- The 32-bit word at `p`, low byte first. -/
def load32 (memory : ℤ → UInt8) (p : ℤ) : BitVec 32 :=
  joinHalves 32 (load16 memory (p + 2)) (load16 memory p)

/-- The memory after a 32-bit word is written at `p`. -/
def store32 (memory : ℤ → UInt8) (p : ℤ) (x : BitVec 32) : ℤ → UInt8 :=
  Buffer.copy memory p (sampleBytes (wordSamples fun _ => x)) 0 4

variable {memory : ℤ → UInt8} {p i j k n : ℤ} {v w : ℤ → BitVec 16} {x y : BitVec 16}

/-- Low bytes stand at even places. -/
theorem sampleBytes_low (v : ℤ → BitVec 16) (i : ℤ) :
    sampleBytes v (2 * i) = .ofBitVec ((v i).setWidth 8) := by
  have hhalf : 2 * i / 2 = i := by omega
  rw [sampleBytes, if_pos (by omega), hhalf]

/-- High bytes stand at odd places. -/
theorem sampleBytes_high (v : ℤ → BitVec 16) (i : ℤ) :
    sampleBytes v (2 * i + 1) = .ofBitVec ((v i >>> 8).setWidth 8) := by
  have hhalf : (2 * i + 1) / 2 = i := by omega
  rw [sampleBytes, if_neg (by omega), hhalf]

/-- The samples of bytes that samples were written to. -/
theorem load16_sampleBytes (v : ℤ → BitVec 16) (i : ℤ) : load16 (sampleBytes v) (2 * i) = v i := by
  rw [load16, sampleBytes_low, sampleBytes_high]
  exact join_halves (show 16 = 8 + 8 from rfl) (v i)

@[simp] theorem wordSamples_low (w : ℤ → BitVec 32) (i : ℤ) :
    wordSamples w (2 * i) = (w i).setWidth 16 := by
  have hhalf : 2 * i / 2 = i := by omega
  rw [wordSamples, if_pos (by omega), hhalf]

@[simp] theorem wordSamples_high (w : ℤ → BitVec 32) (i : ℤ) :
    wordSamples w (2 * i + 1) = (w i >>> 16).setWidth 16 := by
  have hhalf : (2 * i + 1) / 2 = i := by omega
  rw [wordSamples, if_neg (by omega), hhalf]

/-- A load depends on two bytes. -/
theorem load16_congr {memory' : ℤ → UInt8} {p' : ℤ} (hlow : memory p = memory' p')
    (hhigh : memory (p + 1) = memory' (p' + 1)) : load16 memory p = load16 memory' p' := by
  rw [load16, load16, hlow, hhigh]

/-- The bytes of equal samples. -/
theorem sampleBytes_congr (h : ∀ a, 0 ≤ a → 2 * a < n → v (j + a) = w (k + a)) {b : ℤ}
    (hb : 0 ≤ b) (hn : b < n) : sampleBytes v (2 * j + b) = sampleBytes w (2 * k + b) := by
  have hv : (2 * j + b) / 2 = j + b / 2 := by omega
  have hw : (2 * k + b) / 2 = k + b / 2 := by omega
  have hparity : (2 * j + b) % 2 = (2 * k + b) % 2 := by omega
  simp only [sampleBytes, hv, hw, hparity, h (b / 2) (by omega) (by omega)]

/-- Copies of equal samples. -/
theorem copy_samples (h : ∀ a, 0 ≤ a → 2 * a < n → v (j + a) = w (k + a)) :
    Buffer.copy memory p (sampleBytes v) (2 * j) n =
      Buffer.copy memory p (sampleBytes w) (2 * k) n :=
  Buffer.copy_congr fun _ hb hn => sampleBytes_congr h hb hn

/-- A store copies one of many samples. -/
theorem store16_eq (memory : ℤ → UInt8) (p : ℤ) (w : ℤ → BitVec 16) (k : ℤ) :
    store16 memory p (w k) = Buffer.copy memory p (sampleBytes w) (2 * k) 2 :=
  copy_samples (j := 0) fun a ha hlt => by
    obtain rfl : a = 0 := by omega
    simp

/-! ### Samples of ten bits -/

/-- A sample of ten bits. -/
def IsTenBit (x : BitVec 16) : Prop := x.toNat < 2 ^ 10

theorem IsTenBit.getLsbD (h : IsTenBit x) {i : ℕ} (hi : 10 ≤ i) : x.getLsbD i = false :=
  Nat.testBit_lt_two_pow (h.trans_le (Nat.pow_le_pow_right (by decide) hi))

/-- Samples of ten bits with the same ten bits are the same. -/
theorem IsTenBit.ext (hx : IsTenBit x) (hy : IsTenBit y)
    (h : ∀ i < 10, x.getLsbD i = y.getLsbD i) : x = y := by
  apply BitVec.eq_of_getLsbD_eq
  intro i _
  by_cases hi : i < 10
  · exact h i hi
  · rw [hx.getLsbD (by omega), hy.getLsbD (by omega)]

/-- A sample of ten bits survives the shift to the upper bits. -/
theorem IsTenBit.shift (h : IsTenBit x) : x <<< 6 >>> 6 = x := by
  apply BitVec.eq_of_toNat_eq
  unfold IsTenBit at h
  simp only [BitVec.toNat_ushiftRight, BitVec.toNat_shiftLeft, Nat.shiftLeft_eq,
    Nat.shiftRight_eq_div_pow]
  omega

/-! ### Registers -/

/-- A register. Its lanes are the samples from 0 to 7. -/
abbrev M128i := ℤ → BitVec 16

/-- The lanes of 32 bits. -/
def lane32 (v : M128i) (i : ℤ) : BitVec 32 := joinHalves 32 (v (2 * i + 1)) (v (2 * i))

/-- The eight lanes from `p` on. -/
def mmLoad (memory : ℤ → UInt8) (p : ℤ) : M128i := fun i => load16 memory (p + 2 * i)

/-- `_mm_loadl_epi64`. -/
def mmLoadl (memory : ℤ → UInt8) (p : ℤ) : M128i := fun i =>
  if i < 4 then load16 memory (p + 2 * i) else 0

/-- The memory after eight lanes are written from `p` on. -/
def mmStore (memory : ℤ → UInt8) (p : ℤ) (v : M128i) : ℤ → UInt8 :=
  Buffer.copy memory p (sampleBytes v) 0 16

/-- `x` in each lane. -/
def mmSet1Epi16 (x : BitVec 16) : M128i := fun _ => x

def mmSet1Epi32 (x : BitVec 32) : M128i := wordSamples fun _ => x

def mmSlliEpi16 (v : M128i) (count : ℕ) : M128i := fun i => v i <<< count

def mmSrliEpi16 (v : M128i) (count : ℕ) : M128i := fun i => v i >>> count

def mmSrliEpi32 (v : M128i) (count : ℕ) : M128i := wordSamples fun i => lane32 v i >>> count

def mmAnd (v w : M128i) : M128i := fun i => v i &&& w i

def mmAddEpi16 (v w : M128i) : M128i := fun i => v i + w i

def mmSubEpi32 (v w : M128i) : M128i := wordSamples fun i => lane32 v i - lane32 w i

def mmUnpackloEpi16 (v w : M128i) : M128i := fun i => if i % 2 = 0 then v (i / 2) else w (i / 2)

def mmUnpackhiEpi16 (v w : M128i) : M128i := fun i =>
  if i % 2 = 0 then v (4 + i / 2) else w (4 + i / 2)

def mmUnpackloEpi32 (v w : M128i) : M128i :=
  wordSamples fun i => if i % 2 = 0 then lane32 v (i / 2) else lane32 w (i / 2)

def mmUnpackhiEpi32 (v w : M128i) : M128i :=
  wordSamples fun i => if i % 2 = 0 then lane32 v (2 + i / 2) else lane32 w (2 + i / 2)

/-- A signed number of 32 bits in the range of 16 bits. -/
def saturateSigned (x : BitVec 32) : BitVec 16 :=
  .ofInt 16 (max (-2 ^ 15) (min (2 ^ 15 - 1) x.toInt))

/-- A signed number of 32 bits in the range of 16 bits without a sign. -/
def saturateUnsigned (x : BitVec 32) : BitVec 16 := .ofInt 16 (max 0 (min (2 ^ 16 - 1) x.toInt))

/-- 32-bit lanes clamped to signed 16 bits. -/
def mmPacksEpi32 (v w : M128i) : M128i := fun i =>
  if i < 4 then saturateSigned (lane32 v i) else saturateSigned (lane32 w (i - 4))

/-- 32-bit lanes clamped to unsigned 16 bits. -/
def mmPackusEpi32 (v w : M128i) : M128i := fun i =>
  if i < 4 then saturateUnsigned (lane32 v i) else saturateUnsigned (lane32 w (i - 4))

@[simp] theorem lane32_wordSamples (w : ℤ → BitVec 32) (i : ℤ) :
    lane32 (wordSamples w) i = w i := by
  rw [lane32, wordSamples_low, wordSamples_high]
  exact join_halves (show 32 = 16 + 16 from rfl) (w i)

/-- The samples of a word that is a lane. -/
theorem wordSamples_lane32 {w : ℤ → BitVec 32} (i : ℤ) {j : ℤ} (h : w (i / 2) = lane32 v j) :
    wordSamples w i = v (2 * j + i % 2) := by
  obtain heven | hodd := Int.emod_two_eq_zero_or_one i
  · rw [wordSamples, if_pos heven, h, heven, Int.add_zero]
    exact low_join (show 32 = 16 + 16 from rfl) _ _
  · rw [wordSamples, if_neg (by omega), h, hodd]
    exact high_join (show 32 = 16 + 16 from rfl) _ _

theorem mmUnpackloEpi32_apply (v w : M128i) (i : ℤ) : mmUnpackloEpi32 v w i =
    if i / 2 % 2 = 0 then v (2 * (i / 2 / 2) + i % 2) else w (2 * (i / 2 / 2) + i % 2) := by
  split_ifs with h
  · exact wordSamples_lane32 i (if_pos h)
  · exact wordSamples_lane32 i (if_neg h)

theorem mmUnpackhiEpi32_apply (v w : M128i) (i : ℤ) : mmUnpackhiEpi32 v w i =
    if i / 2 % 2 = 0 then v (2 * (2 + i / 2 / 2) + i % 2)
    else w (2 * (2 + i / 2 / 2) + i % 2) := by
  split_ifs with h
  · exact wordSamples_lane32 i (if_pos h)
  · exact wordSamples_lane32 i (if_neg h)

/-- A register that is stored has the bytes of its samples. -/
theorem mmStore_eq (memory : ℤ → UInt8) (p k : ℤ) (h : ∀ a, 0 ≤ a → a < 8 → v a = w (k + a)) :
    mmStore memory p v = Buffer.copy memory p (sampleBytes w) (2 * k) 16 :=
  copy_samples (j := 0) fun a ha hlt => by
    rw [Int.zero_add]
    exact h a ha (by omega)

/-- A word that is stored has the bytes of two samples. -/
theorem store32_eq (memory : ℤ → UInt8) (p k : ℤ) (w : ℤ → BitVec 16) :
    store32 memory p (joinHalves 32 (w (2 * k + 1)) (w (2 * k))) =
      Buffer.copy memory p (sampleBytes w) (4 * k) 4 := by
  have hcopy : Buffer.copy memory p (sampleBytes (wordSamples fun _ =>
      joinHalves 32 (w (2 * k + 1)) (w (2 * k)))) (2 * 0) 4 =
        Buffer.copy memory p (sampleBytes w) (2 * (2 * k)) 4 := by
    refine copy_samples fun a ha hlt => ?_
    obtain rfl | rfl : a = 0 ∨ a = 1 := by omega
    · have hlow := wordSamples_low (fun _ => joinHalves 32 (w (2 * k + 1)) (w (2 * k))) 0
      rw [low_join (show 32 = 16 + 16 from rfl)] at hlow
      simpa using hlow
    · have hhigh := wordSamples_high (fun _ => joinHalves 32 (w (2 * k + 1)) (w (2 * k))) 0
      rw [high_join (show 32 = 16 + 16 from rfl)] at hhigh
      simpa using hhigh
  rw [store32]
  rw [← Int.mul_assoc] at hcopy
  exact hcopy

/-- A word that is stored has the bytes of its place among the words. -/
theorem store32_wordSamples (memory : ℤ → UInt8) (p k : ℤ) (w : ℤ → BitVec 32) :
    store32 memory p (w k) = Buffer.copy memory p (sampleBytes (wordSamples w)) (4 * k) 4 := by
  rw [← store32_eq, ← lane32, lane32_wordSamples]

/-! ### Words with one sample -/

theorem joinHalves_zero (x : BitVec 16) : joinHalves 32 0#16 x = x.setWidth 32 := by
  simp [joinHalves]

theorem joinHalves_shift (x y : BitVec 16) : joinHalves 32 x y >>> 16 = x.setWidth 32 := by
  apply BitVec.eq_of_getLsbD_eq
  intro i hi
  by_cases h : i < 16
  · have hlt : 16 + i < 32 := by omega
    simp [joinHalves, h, hi, hlt]
  · have hx : x.getLsbD i = false := BitVec.getLsbD_of_ge x i (by omega)
    simp [joinHalves, hx, hi]

/-- The lower samples of the words. -/
theorem lane32_mmAnd (v : M128i) (i : ℤ) :
    lane32 (mmAnd v (mmSet1Epi32 0x0000FFFF)) i = (v (2 * i)).setWidth 32 := by
  have hhigh : mmSet1Epi32 0x0000FFFF (2 * i + 1) = 0#16 := by
    rw [mmSet1Epi32, wordSamples_high]
    rfl
  have hlow : mmSet1Epi32 0x0000FFFF (2 * i) = BitVec.allOnes 16 := by
    rw [mmSet1Epi32, wordSamples_low]
    rfl
  rw [lane32, mmAnd, mmAnd, hhigh, hlow, BitVec.and_zero, BitVec.and_allOnes, joinHalves_zero]

/-- The upper ones. -/
theorem lane32_mmSrliEpi32 (v : M128i) (i : ℤ) :
    lane32 (mmSrliEpi32 v 16) i = (v (2 * i + 1)).setWidth 32 := by
  rw [mmSrliEpi32, lane32_wordSamples, lane32, joinHalves_shift]

/-! ### Saturation -/

/-- A sample as a word. -/
theorem toInt_setWidth (x : BitVec 16) : (x.setWidth 32).toInt = x.toNat := by
  have hlt := x.isLt
  rw [BitVec.toInt_eq_toNat_of_lt]
  · simp
    omega
  · simp
    omega

theorem saturateUnsigned_setWidth (x : BitVec 16) : saturateUnsigned (x.setWidth 32) = x := by
  have hlt := x.isLt
  have hrange : max 0 (min (2 ^ 16 - 1) (x.toNat : ℤ)) = x.toNat := by omega
  rw [saturateUnsigned, toInt_setWidth, hrange]
  simp

theorem saturateSigned_setWidth (h : x.toNat < 2 ^ 15) : saturateSigned (x.setWidth 32) = x := by
  have hrange : max (-2 ^ 15) (min (2 ^ 15 - 1) (x.toNat : ℤ)) = x.toNat := by omega
  rw [saturateSigned, toInt_setWidth, hrange]
  simp

/-- Unsigned saturation, done by signed one around an offset. -/
theorem saturateSigned_offset (x : BitVec 16) :
    saturateSigned (x.setWidth 32 - 0x8000#32) + 0x8000#16 = x := by
  have hlt := x.isLt
  have hdiff : (x.setWidth 32 - 0x8000#32).toInt = x.toNat - 2 ^ 15 := by
    rw [BitVec.toInt_sub, toInt_setWidth]
    exact Int.bmod_eq_of_le (by simp; omega) (by simp; omega)
  have hrange : max (-2 ^ 15) (min (2 ^ 15 - 1) ((x.toNat : ℤ) - 2 ^ 15)) =
      (x.toNat : ℤ) - 2 ^ 15 := by
    omega
  have hoffset : 0x8000#16 = BitVec.ofInt 16 (2 ^ 15) := by decide
  rw [saturateSigned, hdiff, hrange, hoffset, ← BitVec.ofInt_add, Int.sub_add_cancel]
  simp

/-- Registers of words that have one sample each are packed into a register of these samples. -/
def PacksSamples (pack : M128i → M128i → M128i) (a b : ℤ → BitVec 16) : Prop :=
  ∀ v w, (∀ i, lane32 v i = (a i).setWidth 32) → (∀ i, lane32 w i = (b i).setWidth 32) →
    ∀ i, pack v w i = if i < 4 then a i else b (i - 4)

variable {a b : ℤ → BitVec 16}

/-- Packing with unsigned clamping keeps 16-bit samples. -/
theorem packsSamples_mmPackusEpi32 : PacksSamples mmPackusEpi32 a b := by
  intro v w hv hw i
  simp only [mmPackusEpi32, hv, hw, saturateUnsigned_setWidth]

/-- Packing with signed clamping keeps 15 bits. -/
theorem packsSamples_mmPacksEpi32 (ha : ∀ i, (a i).toNat < 2 ^ 15)
    (hb : ∀ i, (b i).toNat < 2 ^ 15) : PacksSamples mmPacksEpi32 a b := by
  intro v w hv hw i
  simp only [mmPacksEpi32, hv, hw, saturateSigned_setWidth (ha _), saturateSigned_setWidth (hb _)]

end Samples
