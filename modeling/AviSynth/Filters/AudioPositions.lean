import AviSynth.Filters.AudioGraph
import Mathlib.Algebra.Order.Ring.Int

/-!
# From frames to samples and back

Editing filters place their cuts in the audio with `AudioSamplesFromFrames`, and
`FramesFromAudioSamples` goes back. Both round down. They multiply in 64 bits before they
divide.
-/

namespace AviSynth

open MachineInt

namespace AudioRate

/-- `FramesFromAudioSamples`. -/
def framesFromAudioSamples (vi : AudioRate) (samples : ℤ) : ℤ :=
  if vi.fpsDenominator ≠ 0 ∧ vi.audioSamplesPerSecond ≠ 0 then
    i32 ((i64 (samples * vi.fpsNumerator)).tdiv
      (i64 (vi.fpsDenominator * vi.audioSamplesPerSecond)))
  else 0

/-- A clip with video and audio. The terms of the frame rate are unsigned 32-bit numbers, the
sample rate is an `int`. -/
structure HasRates (vi : AudioRate) : Prop where
  video : vi.hasVideo = true
  sampleRate_pos : 0 < vi.audioSamplesPerSecond
  sampleRate_lt : vi.audioSamplesPerSecond < 2 ^ 31
  numerator_pos : 0 < vi.fpsNumerator
  numerator_lt : vi.fpsNumerator < 2 ^ 32
  denominator_pos : 0 < vi.fpsDenominator
  denominator_lt : vi.fpsDenominator < 2 ^ 32

/-- Where the frame `n` begins in the audio. -/
def exactSamples (vi : AudioRate) (n : ℤ) : ℤ :=
  n * vi.audioSamplesPerSecond * vi.fpsDenominator / vi.fpsNumerator

/-- The frames from `0` to `numFrames`, the end of the last one, are placed in the audio. -/
structure PlacesFrames (vi : AudioRate) (numFrames : ℤ) : Prop where
  exact : ∀ n, 0 ≤ n → n ≤ numFrames → vi.audioSamplesFromFrames n = vi.exactSamples n
  monotone : ∀ m n, 0 ≤ m → m ≤ n → n ≤ numFrames →
    vi.audioSamplesFromFrames m ≤ vi.audioSamplesFromFrames n
  back : ∀ n, 0 ≤ n → n ≤ numFrames →
    vi.framesFromAudioSamples (vi.audioSamplesFromFrames n) ≤ n
  product : ∀ n, 0 ≤ n → n ≤ numFrames →
    IsInt64 (n * vi.audioSamplesPerSecond * vi.fpsDenominator)
  productBack : ∀ n, 0 ≤ n → n ≤ numFrames →
    IsInt64 (vi.exactSamples n * vi.fpsNumerator) ∧
      IsInt64 (vi.fpsDenominator * vi.audioSamplesPerSecond)

/-! ### A product that wraps -/

/-- The quotient of a product that has wrapped is too small. -/
theorem tdiv_i64_eq_iff {x d : ℤ} (hx : 0 ≤ x) (hd : 0 < d) (hd' : d < 2 ^ 32) :
    (i64 x).tdiv d = x / d ↔ x < 2 ^ 63 := by
  constructor
  · intro heq
    by_contra hwrapped
    obtain ⟨turns, hturns⟩ := dvd_i64_sub x
    have hturn : i64 x ≤ x - 2 ^ 64 := by
      have hhigh := (isInt64_i64 x).2
      omega
    have hone : (x - d) / d = x / d - 1 := by
      rw [Int.sub_ediv_of_dvd _ (Int.dvd_refl d), Int.ediv_self (by omega)]
    by_cases hnegative : i64 x < 0
    · have hquotient : 0 ≤ (-i64 x).tdiv d := Int.tdiv_nonneg (by omega) hd.le
      rw [Int.neg_tdiv] at hquotient
      have hle : d / d ≤ x / d := Int.ediv_le_ediv hd (by omega)
      rw [Int.ediv_self (by omega)] at hle
      omega
    · have hle : i64 x / d ≤ (x - d) / d := Int.ediv_le_ediv hd (by omega)
      rw [Int.tdiv_eq_ediv_of_nonneg (by omega)] at heq
      omega
  · intro hfits
    rw [i64_of_range (by omega) hfits, Int.tdiv_eq_ediv_of_nonneg hx]

variable {vi : AudioRate} {m n numFrames : ℤ}

namespace HasRates

section

variable (h : vi.HasRates)
include h

theorem product_nonneg (hn : 0 ≤ n) :
    0 ≤ n * vi.audioSamplesPerSecond * vi.fpsDenominator :=
  mul_nonneg (mul_nonneg hn h.sampleRate_pos.le) h.denominator_pos.le

theorem product_le (hmn : m ≤ n) :
    m * vi.audioSamplesPerSecond * vi.fpsDenominator ≤
      n * vi.audioSamplesPerSecond * vi.fpsDenominator :=
  mul_le_mul_of_nonneg_right (mul_le_mul_of_nonneg_right hmn h.sampleRate_pos.le)
    h.denominator_pos.le

/-- Only the product of all three factors can wrap. -/
theorem audioSamplesFromFrames_eq (hn : 0 ≤ n) (hn' : n < 2 ^ 31) :
    vi.audioSamplesFromFrames n =
      (i64 (n * vi.audioSamplesPerSecond * vi.fpsDenominator)).tdiv vi.fpsNumerator := by
  have hsampleRate := h.sampleRate_pos
  have hnumerator := h.numerator_pos
  have hproduct : n * vi.audioSamplesPerSecond ≤ 2 ^ 31 * 2 ^ 31 :=
    mul_le_mul hn'.le h.sampleRate_lt.le hsampleRate.le (by decide)
  have hnonneg : 0 ≤ n * vi.audioSamplesPerSecond := mul_nonneg hn hsampleRate.le
  rw [audioSamplesFromFrames, if_pos ⟨by omega, h.video⟩,
    i64_of_range (x := n * vi.audioSamplesPerSecond) (by omega) (by omega)]

theorem samples_exact_iff (hn : 0 ≤ n) (hn' : n < 2 ^ 31) :
    vi.audioSamplesFromFrames n = vi.exactSamples n ↔
      n * vi.audioSamplesPerSecond * vi.fpsDenominator < 2 ^ 63 := by
  rw [h.audioSamplesFromFrames_eq hn hn']
  exact tdiv_i64_eq_iff (h.product_nonneg hn) h.numerator_pos h.numerator_lt

theorem exactSamples_le (hmn : m ≤ n) :
    vi.exactSamples m ≤ vi.exactSamples n :=
  Int.ediv_le_ediv h.numerator_pos (h.product_le hmn)

/-- What the samples of a frame are worth does not exceed the product they are from. -/
theorem exactSamples_mul_le :
    vi.exactSamples n * vi.fpsNumerator ≤
      n * vi.audioSamplesPerSecond * vi.fpsDenominator :=
  Int.ediv_mul_le _ h.numerator_pos.ne'

theorem exactSamples_nonneg (hn : 0 ≤ n) : 0 ≤ vi.exactSamples n :=
  Int.ediv_nonneg (h.product_nonneg hn) h.numerator_pos.le

theorem divisor_bounds :
    0 < vi.fpsDenominator * vi.audioSamplesPerSecond ∧
      vi.fpsDenominator * vi.audioSamplesPerSecond < 2 ^ 63 := by
  have hle : vi.fpsDenominator * vi.audioSamplesPerSecond ≤ (2 ^ 32 - 1) * (2 ^ 31 - 1) :=
    mul_le_mul (by have := h.denominator_lt; omega) (by have := h.sampleRate_lt; omega)
      h.sampleRate_pos.le (by decide)
  exact ⟨mul_pos h.denominator_pos h.sampleRate_pos, by omega⟩

/-- The frame that the first sample of a frame belongs to is not behind it. -/
theorem framesFromAudioSamples_le (hn : 0 ≤ n) (hn' : n < 2 ^ 31)
    (hfits : n * vi.audioSamplesPerSecond * vi.fpsDenominator < 2 ^ 63) :
    vi.framesFromAudioSamples (vi.exactSamples n) ≤ n := by
  obtain ⟨hpos, hlt⟩ := h.divisor_bounds
  have hnumerator := h.numerator_pos
  have hproduct := h.exactSamples_mul_le (n := n)
  have hnonneg : 0 ≤ vi.exactSamples n * vi.fpsNumerator :=
    mul_nonneg (h.exactSamples_nonneg hn) hnumerator.le
  have hquotient : vi.exactSamples n * vi.fpsNumerator /
      (vi.fpsDenominator * vi.audioSamplesPerSecond) ≤ n := by
    apply Int.ediv_le_of_le_mul hpos
    calc vi.exactSamples n * vi.fpsNumerator
        ≤ n * vi.audioSamplesPerSecond * vi.fpsDenominator := hproduct
      _ = n * (vi.fpsDenominator * vi.audioSamplesPerSecond) := by
        rw [mul_assoc, mul_comm vi.audioSamplesPerSecond]
  have hquotient' : 0 ≤ vi.exactSamples n * vi.fpsNumerator /
      (vi.fpsDenominator * vi.audioSamplesPerSecond) := Int.ediv_nonneg hnonneg hpos.le
  have hdenominator := h.denominator_pos
  have hsampleRate := h.sampleRate_pos
  rw [framesFromAudioSamples, if_pos ⟨by omega, by omega⟩,
    i64_of_range (by omega) (by omega), i64_of_range (by omega) hlt,
    Int.tdiv_eq_ediv_of_nonneg hnonneg, i32_of_range (by omega) (by omega)]
  exact hquotient

end

end HasRates

end AudioRate

open AudioRate

/-- The frames of a clip are placed in its audio if the product for its frame count has 63
bits. Otherwise the end of the clip is not. -/
theorem placesFrames_iff {vi : AudioRate} {numFrames : ℤ} (h : vi.HasRates)
    (hframes : 0 ≤ numFrames) (hframes' : numFrames < 2 ^ 31) :
    vi.PlacesFrames numFrames ↔
      numFrames * vi.audioSamplesPerSecond * vi.fpsDenominator < 2 ^ 63 := by
  constructor
  · intro hplaces
    exact (h.samples_exact_iff hframes hframes').mp (hplaces.exact numFrames hframes le_rfl)
  · intro hfits
    have hproduct : ∀ n, n ≤ numFrames →
        n * vi.audioSamplesPerSecond * vi.fpsDenominator < 2 ^ 63 :=
      fun n hn => (h.product_le hn).trans_lt hfits
    have hexact : ∀ n, 0 ≤ n → n ≤ numFrames → vi.audioSamplesFromFrames n = vi.exactSamples n :=
      fun n hn hn' => (h.samples_exact_iff hn (by omega)).mpr (hproduct n hn')
    constructor
    · exact hexact
    · intro m n hm hmn hn
      rw [hexact m hm (by omega), hexact n (by omega) hn]
      exact h.exactSamples_le hmn
    · intro n hn hn'
      rw [hexact n hn hn']
      exact h.framesFromAudioSamples_le hn (by omega) (hproduct n hn')
    · intro n hn hn'
      have hnonneg := h.product_nonneg hn
      have hlt := hproduct n hn'
      exact ⟨by omega, hlt⟩
    · intro n hn hn'
      obtain ⟨hpos, hlt⟩ := h.divisor_bounds
      have hnonneg : 0 ≤ vi.exactSamples n * vi.fpsNumerator :=
        mul_nonneg (h.exactSamples_nonneg hn) h.numerator_pos.le
      have hle := (h.exactSamples_mul_le (n := n)).trans_lt (hproduct n hn')
      exact ⟨⟨by omega, hle⟩, by omega, hlt⟩

/-- Audio of 48000 Hz at a little more than one frame per second. -/
def slowRate : AudioRate := ⟨true, 48000, 2147483647, 2147483629⟩

theorem slowRate_hasRates : slowRate.HasRates := by
  constructor <;> decide

/-- After 80000 frames the product still fits. -/
theorem placesFrames_slowRate : slowRate.PlacesFrames 80000 :=
  (placesFrames_iff slowRate_hasRates (by decide) (by decide)).mpr (by decide)

/-- After 100000 frames it has wrapped. -/
theorem not_placesFrames_slowRate :
    slowRate.HasRates ∧ slowRate.audioSamplesFromFrames 100000 ≠ slowRate.exactSamples 100000 ∧
      ¬slowRate.PlacesFrames 100000 := by
  have hne : slowRate.audioSamplesFromFrames 100000 ≠ slowRate.exactSamples 100000 := by decide
  exact ⟨slowRate_hasRates, hne, fun h => hne (h.exact 100000 (by decide) (by decide))⟩

end AviSynth
