import AviSynth.Library.Samples
import Mathlib.Data.BitVec
import Mathlib.Algebra.BigOperators.Intervals
import Mathlib.Algebra.BigOperators.Ring.Finset
import Mathlib.Algebra.Order.BigOperators.Group.Finset
import Mathlib.Algebra.Order.Ring.Int

/-!
# Sums in registers

Registers whose lanes of 32 bits add up differences of bytes or of samples. Only the sum of the
lanes matters in the end, and it is taken modulo `2 ^ 32` from the first block on.
-/

namespace Samples

open Finset

/-- `_mm_setzero_si128`. -/
def mmSetzero : M128i := fun _ => 0

def mmOr (v w : M128i) : M128i := fun i => v i ||| w i

def mmAddEpi32 (v w : M128i) : M128i := wordSamples fun i => lane32 v i + lane32 w i

def mmSubsEpu16 (v w : M128i) : M128i := fun i => .ofNat 16 ((v i).toNat - (w i).toNat)

def mmUnpackhiEpi64 (v w : M128i) : M128i := fun i => if i < 4 then v (4 + i) else w i

/-- The distance of two samples. -/
def distance (a b : ℕ) : ℕ := ((a : ℤ) - b).natAbs

/-- `_mm_sad_epu8`: the differences of the eight bytes of each half, in its lowest sample. -/
def mmSadEpu8 (v w : M128i) : M128i := fun i =>
  if i % 4 = 0 then
    .ofNat 16 (∑ k ∈ range 8,
      distance (sampleBytes v (2 * i + k)).toNat (sampleBytes w (2 * i + k)).toNat)
  else 0

/-- `_mm_cvtsi128_si32`. -/
def mmCvtsi128Si32 (v : M128i) : BitVec 32 := lane32 v 0

variable {memory : ℤ → UInt8} {p i k : ℤ} (s v w : M128i)

@[simp] theorem lane32_mmAddEpi32 : lane32 (mmAddEpi32 v w) i = lane32 v i + lane32 w i := by
  rw [mmAddEpi32, lane32_wordSamples]

@[simp] theorem lane32_mmSetzero : lane32 mmSetzero i = 0#32 := by
  simp only [lane32, mmSetzero]
  rfl

theorem distance_le {a b c : ℕ} (ha : a ≤ c) (hb : b ≤ c) : distance a b ≤ c := by
  unfold distance
  omega

theorem distance_self (a : ℕ) : distance a a = 0 := by
  unfold distance
  omega

theorem distance_comm (a b : ℕ) : distance a b = distance b a := by
  unfold distance
  omega

theorem lane32_mmUnpackloEpi16 : lane32 (mmUnpackloEpi16 v mmSetzero) i = (v i).setWidth 32 := by
  have hlow : mmUnpackloEpi16 v mmSetzero (2 * i) = v i := by
    rw [mmUnpackloEpi16, if_pos (by omega)]
    congr 1
    omega
  have hhigh : mmUnpackloEpi16 v mmSetzero (2 * i + 1) = 0#16 := by
    rw [mmUnpackloEpi16, if_neg (by omega)]
    rfl
  rw [lane32, hlow, hhigh, joinHalves_zero]

theorem lane32_mmUnpackhiEpi16 :
    lane32 (mmUnpackhiEpi16 v mmSetzero) i = (v (4 + i)).setWidth 32 := by
  have hlow : mmUnpackhiEpi16 v mmSetzero (2 * i) = v (4 + i) := by
    rw [mmUnpackhiEpi16, if_pos (by omega)]
    congr 1
    omega
  have hhigh : mmUnpackhiEpi16 v mmSetzero (2 * i + 1) = 0#16 := by
    rw [mmUnpackhiEpi16, if_neg (by omega)]
    rfl
  rw [lane32, hlow, hhigh, joinHalves_zero]

/-- One of the two differences is zero and the other the distance. -/
theorem mmOr_mmSubsEpu16 :
    (mmOr (mmSubsEpu16 v w) (mmSubsEpu16 w v) i).toNat = distance (v i).toNat (w i).toNat := by
  have hv := (v i).isLt
  have hw := (w i).isLt
  simp only [mmOr, mmSubsEpu16, BitVec.toNat_or, BitVec.toNat_ofNat, distance]
  obtain hle | hlt := Nat.le_total (v i).toNat (w i).toNat
  · have hzero : (v i).toNat - (w i).toNat = 0 := by omega
    rw [hzero, Nat.zero_mod, Nat.zero_or]
    omega
  · have hzero : (w i).toNat - (v i).toNat = 0 := by omega
    rw [hzero, Nat.zero_mod, Nat.or_zero]
    omega

/-! ### Differences of bytes -/

/-- The distances of the sixteen bytes. -/
def byteDistance (k : ℕ) : ℕ := distance (sampleBytes v k).toNat (sampleBytes w k).toNat

theorem byteDistance_le (k : ℕ) : byteDistance v w k ≤ 255 :=
  distance_le (Nat.le_of_lt_succ (UInt8.toNat_lt _)) (Nat.le_of_lt_succ (UInt8.toNat_lt _))

/-- The sum of the two lanes that `_mm_sad_epu8` fills. -/
def lowSum : BitVec 32 := lane32 s 0 + lane32 s 2

/-- Each half holds the sum of eight distances. -/
theorem lane32_mmSadEpu8 (half : ℕ) : lane32 (mmSadEpu8 v w) (2 * half) =
    .ofNat 32 (∑ k ∈ range 8, byteDistance v w (8 * half + k)) := by
  have hhigh : mmSadEpu8 v w (2 * (2 * half) + 1) = 0#16 := by
    rw [mmSadEpu8, if_neg (by omega)]
    rfl
  have hlow : mmSadEpu8 v w (2 * (2 * half)) =
      .ofNat 16 (∑ k ∈ range 8, byteDistance v w (8 * half + k)) := by
    rw [mmSadEpu8, if_pos (by omega)]
    congr 1
    refine sum_congr rfl fun k _ => ?_
    have hpos : 2 * (2 * (2 * half : ℤ)) + k = (8 * half + k : ℕ) := by
      push_cast
      ring
    rw [hpos, byteDistance]
  have hbound : ∑ k ∈ range 8, byteDistance v w (8 * half + k) ≤ 8 * 255 :=
    sum_le_card_nsmul (range 8) _ 255 fun k _ => byteDistance_le v w (8 * half + k)
  rw [lane32, hhigh, hlow, joinHalves_zero]
  apply BitVec.eq_of_toNat_eq
  simp only [BitVec.toNat_setWidth, BitVec.toNat_ofNat]
  omega

/-- A block of 16 distances is added. -/
theorem lowSum_add : lowSum (mmAddEpi32 s (mmSadEpu8 v w)) =
    lowSum s + .ofNat 32 (∑ k ∈ range 16, byteDistance v w k) := by
  have hsplit : ∑ k ∈ range 16, byteDistance v w k =
      ∑ k ∈ range 8, byteDistance v w (8 * 0 + k) +
        ∑ k ∈ range 8, byteDistance v w (8 * 1 + k) := by
    rw [show 16 = 8 + 8 from rfl, sum_range_add]
    simp
  have hlow := lane32_mmSadEpu8 v w 0
  have hhigh := lane32_mmSadEpu8 v w 1
  simp only [Nat.cast_zero, Nat.cast_one, mul_zero, mul_one] at hlow hhigh
  rw [lowSum, lane32_mmAddEpi32, lane32_mmAddEpi32, hlow, hhigh, hsplit, BitVec.ofNat_add, lowSum]
  simp only [Nat.mul_zero, Nat.mul_one]
  ac_rfl

/-! ### Differences of samples -/

/-- The sum of all four lanes. -/
def allSum : BitVec 32 := lane32 s 0 + lane32 s 2 + (lane32 s 1 + lane32 s 3)

/-- Eight words are added. -/
theorem allSum_add : allSum (mmAddEpi32 (mmAddEpi32 s (mmUnpackloEpi16 v mmSetzero))
      (mmUnpackhiEpi16 v mmSetzero)) =
    allSum s + .ofNat 32 (∑ k ∈ range 8, (v k).toNat) := by
  simp only [allSum, lane32_mmAddEpi32, lane32_mmUnpackloEpi16, lane32_mmUnpackhiEpi16,
    sum_range_succ, sum_range_zero, BitVec.ofNat_add, BitVec.ofNat_toNat]
  simp only [Nat.cast_zero, Nat.cast_one, Nat.cast_ofNat, Int.reduceAdd, BitVec.zero_add]
  ac_rfl

/-! ### The sum of the lanes -/

/-- The halves are folded into one sum. -/
theorem mmCvtsi128Si32_fold :
    mmCvtsi128Si32 (mmAddEpi32 s (mmUnpackhiEpi64 s mmSetzero)) = lowSum s := by
  rw [mmCvtsi128Si32, lane32_mmAddEpi32, lowSum]
  rfl

/-- The four lanes folded into the two that are added next. -/
theorem lowSum_unpack : lowSum (mmAddEpi32 (mmUnpackloEpi32 s mmSetzero)
    (mmUnpackhiEpi32 s mmSetzero)) = allSum s := by
  simp only [lowSum, lane32_mmAddEpi32, mmUnpackloEpi32, mmUnpackhiEpi32, lane32_wordSamples,
    allSum]
  rfl

/-! ### Loaded registers -/

/-- The bytes of a register that was loaded. -/
theorem sampleBytes_mmLoad (memory : ℤ → UInt8) (p k : ℤ) :
    sampleBytes (mmLoad memory p) k = memory (p + k) := by
  obtain ⟨i, rfl | rfl⟩ := Int.even_or_odd' k
  · rw [sampleBytes_low, mmLoad, load16, low_join (show 16 = 8 + 8 from rfl)]
  · rw [sampleBytes_high, mmLoad, load16, high_join (show 16 = 8 + 8 from rfl), Int.add_assoc]

/-- The mask that leaves out the fourth byte of every pixel. -/
theorem sampleBytes_mmAnd (v : M128i) (k : ℤ) :
    sampleBytes (mmAnd v (mmSet1Epi32 0x00FFFFFF)) k =
      if k % 4 = 3 then 0 else sampleBytes v k := by
  have hlow (i : ℤ) : mmSet1Epi32 0x00FFFFFF (2 * i) = 0xFFFF#16 := by
    rw [mmSet1Epi32, wordSamples_low]
    rfl
  have hhigh (i : ℤ) : mmSet1Epi32 0x00FFFFFF (2 * i + 1) = 0x00FF#16 := by
    rw [mmSet1Epi32, wordSamples_high]
    rfl
  have hmask (x : BitVec 16) : x &&& 0xFFFF#16 = x := BitVec.and_allOnes
  obtain ⟨i, rfl | rfl⟩ := Int.even_or_odd' k
  · rw [if_neg (by omega), sampleBytes_low, sampleBytes_low, mmAnd]
    obtain ⟨j, rfl | rfl⟩ := Int.even_or_odd' i
    · rw [hlow, hmask]
    · rw [hhigh]
      congr 1
      apply BitVec.eq_of_getLsbD_eq
      intro b hb
      have hbit : (0xFF#8).getLsbD b = true := by
        revert b
        decide
      simpa using fun _ _ => hbit
  · rw [sampleBytes_high, sampleBytes_high, mmAnd]
    obtain ⟨j, rfl | rfl⟩ := Int.even_or_odd' i
    · rw [if_neg (by omega), hlow, hmask]
    · rw [if_pos (by omega), hhigh]
      congr 1
      apply BitVec.eq_of_getLsbD_eq
      intro b hb
      have hbit : (0x00FF#16).getLsbD (8 + b) = false := by
        revert b
        decide
      simp [hbit]

/-- The mask that leaves out the fourth sample of every pixel. -/
def alphaMask16 : M128i := wordSamples fun i => if i % 2 = 0 then 0xFFFFFFFF else 0x0000FFFF

/-- The mask clears every fourth word. -/
theorem mmAnd_alphaMask16 (v : M128i) (k : ℤ) :
    mmAnd v alphaMask16 k = if k % 4 = 3 then 0 else v k := by
  rw [mmAnd, alphaMask16]
  obtain ⟨i, rfl | rfl⟩ := Int.even_or_odd' k
  · rw [if_neg (by omega), wordSamples_low]
    split
    · exact BitVec.and_allOnes
    · exact BitVec.and_allOnes
  · rw [wordSamples_high]
    split
    · rw [if_neg (by omega)]
      exact BitVec.and_allOnes
    · rw [if_pos (by omega)]
      exact BitVec.and_zero

/-! ### Words that are added to a long sum -/

/-- Sums by blocks of `b`. -/
theorem sum_blocks (f : ℕ → ℕ) (b n : ℕ) :
    ∑ x ∈ range (b * n), f x = ∑ k ∈ range n, ∑ j ∈ range b, f (b * k + j) := by
  induction n with
  | zero => simp
  | succ n ih => rw [Nat.mul_succ, sum_range_add, ih, sum_range_succ]

theorem ofNat_sum {w : ℕ} (f : ℕ → ℕ) (n : ℕ) :
    BitVec.ofNat w (∑ k ∈ range n, f k) = ∑ k ∈ range n, BitVec.ofNat w (f k) := by
  induction n with
  | zero => rfl
  | succ n ih => rw [sum_range_succ, sum_range_succ, BitVec.ofNat_add, ih]

theorem ofInt_sum {w : ℕ} (f : ℕ → ℤ) (n : ℕ) :
    ∑ y ∈ range n, BitVec.ofInt w (f y) = BitVec.ofInt w (∑ y ∈ range n, f y) := by
  induction n with
  | zero => rfl
  | succ n ih => rw [sum_range_succ, sum_range_succ, ih, BitVec.ofInt_add]

/-- A number that is not below `2 ^ 31` is less as a signed word. -/
theorem toInt_ofNat_le (n : ℕ) : (BitVec.ofNat 32 n).toInt ≤ n := by
  have hdvd : ((2 ^ 32 : ℕ) : ℤ) ∣ (n : ℤ).bmod (2 ^ 32) - n := Int.dvd_bmod_sub_self
  have hlt : (n : ℤ).bmod (2 ^ 32) < 2 ^ 31 := by
    have := Int.bmod_lt (x := n) (m := 2 ^ 32) (by decide)
    omega
  rw [BitVec.toInt_ofNat']
  omega

theorem toInt_ofNat_eq_iff (n : ℕ) : (BitVec.ofNat 32 n).toInt = n ↔ n < 2 ^ 31 := by
  rw [BitVec.toInt_ofNat']
  constructor
  · intro h
    have := Int.bmod_lt (x := n) (m := 2 ^ 32) (by decide)
    omega
  · intro h
    exact Int.bmod_eq_of_le (by omega) (by omega)

theorem ofInt_inj_of_range {a b : ℤ} (ha : -2 ^ 63 ≤ a) (ha' : a < 2 ^ 63) (hb : -2 ^ 63 ≤ b)
    (hb' : b < 2 ^ 63) : BitVec.ofInt 64 a = BitVec.ofInt 64 b ↔ a = b := by
  constructor
  · intro h
    have htoInt := congrArg BitVec.toInt h
    rwa [BitVec.toInt_ofInt, BitVec.toInt_ofInt, Int.bmod_eq_of_le (by omega) (by omega),
      Int.bmod_eq_of_le (by omega) (by omega)] at htoInt
  · intro h
    rw [h]

/-- Sums that pass through signed words are kept exactly when no word overflows. -/
theorem sum_signExtend_eq_iff (f : ℕ → ℕ) {n : ℕ} (hn : n < 2 ^ 31)
    (hsum : ∑ y ∈ range n, f y < 2 ^ 62) :
    ∑ y ∈ range n, (BitVec.ofNat 32 (f y)).signExtend 64 = ∑ y ∈ range n, BitVec.ofNat 64 (f y) ↔
      ∀ y < n, f y < 2 ^ 31 := by
  have hle : ∀ y ∈ range n, (BitVec.ofNat 32 (f y)).toInt ≤ f y := fun y _ => toInt_ofNat_le (f y)
  have hlow : -2 ^ 31 * (n : ℤ) ≤ ∑ y ∈ range n, (BitVec.ofNat 32 (f y)).toInt := by
    have hbound := card_nsmul_le_sum (range n) (fun y => (BitVec.ofNat 32 (f y)).toInt) (-2 ^ 31)
      fun y _ => by
        have := BitVec.le_toInt (BitVec.ofNat 32 (f y))
        omega
    rw [card_range, nsmul_eq_mul, mul_comm] at hbound
    exact hbound
  have hhigh : ∑ y ∈ range n, (BitVec.ofNat 32 (f y)).toInt ≤ ∑ y ∈ range n, (f y : ℤ) :=
    sum_le_sum hle
  have hcast : (∑ y ∈ range n, (f y : ℤ)) = (∑ y ∈ range n, f y : ℕ) := (Nat.cast_sum _ _).symm
  have hlong (k : ℕ) : BitVec.ofNat 64 k = BitVec.ofInt 64 k := (BitVec.ofInt_natCast 64 k).symm
  simp only [BitVec.signExtend, hlong]
  rw [ofInt_sum, ofInt_sum, ofInt_inj_of_range (by omega) (by omega) (by omega) (by omega),
    sum_eq_sum_iff_of_le hle]
  simp only [mem_range, toInt_ofNat_eq_iff]

end Samples
