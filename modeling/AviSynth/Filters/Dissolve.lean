import AviSynth.Filters.AudioGraph
import AviSynth.Library.FloatRounding
import Mathlib.Algebra.Order.BigOperators.Group.List

/-!
# Audio across a dissolve

`Dissolve` fades from one clip to the next. The samples before the fade come from the first
clip, those after it from the second one, and a request that meets the fade is computed in a
loop that counts down from the end of the fade. A fade with a sample is delivered the same
whichever way a request is cut. Without one, a request across the seam replaces the last sample
of the first clip.
-/

namespace AviSynth

open MachineInt FloatRounding Buffer

variable {α : Type*}

/-! ### The filter -/

/-- What `Dissolve` keeps of the two clips, which it accepts with an overlap that is not
negative and frames that can be counted. -/
structure Dissolve where
  vi : AudioRate
  numFrames : ℤ
  numAudioSamples : ℤ
  channels : ℤ
  sampleBytes : ℤ
  numFrames2 : ℤ
  overlap : ℤ
  fps : ℚ
  overlap_nonneg : 0 ≤ overlap
  numFrames_nonneg :
    0 ≤ i32 ((if vi.hasVideo then max (i32 (numFrames - overlap)) 0 else 0) + numFrames2)

/-- The samples of the two clips, in the type that both have after conversion, what
`audbuffer` holds before a call, and the mix of two samples of all channels. -/
structure DissolveClips (α : Type*) where
  child : ℤ → α
  child2 : ℤ → α
  audbuffer : ℤ → α
  blend : α → α → ℤ → ℤ → α

namespace Dissolve

/-- The samples of the overlap of two clips without video. -/
def fadeSamples (d : Dissolve) : ℤ :=
  truncate (roundTo 53
    (roundTo 53 (roundTo 53 (i64 (d.vi.audioSamplesPerSecond * d.overlap)) / d.fps) + 1 / 2))

/-- `audio_fade_start` before a negative one becomes zero. -/
def unclampedStart (d : Dissolve) : ℤ :=
  if d.vi.hasVideo then d.vi.audioSamplesFromFrames (i32 (d.numFrames - d.overlap))
  else i64 (d.numAudioSamples - d.fadeSamples)

/-- Where the fade starts. -/
def audioFadeStart (d : Dissolve) : ℤ := if d.unclampedStart < 0 then 0 else d.unclampedStart

/-- The last sample before the second clip alone. -/
def audioFadeEnd (d : Dissolve) : ℤ :=
  if d.vi.hasVideo then
    i64 (d.vi.audioSamplesFromFrames (i32 (i32 (d.numFrames - 1) + 1)) - 1)
  else i64 (d.numAudioSamples - 1)

/-- The overlap of the audio, as an `int`. -/
def audioOverlap (d : Dissolve) : ℤ := i32 (i64 (d.audioFadeEnd - d.unclampedStart))

/-- The loop of `Dissolve::GetAudio`: the buffer after it and the sample that it has reached. -/
def fadeLoop (clips : DissolveClips α) (denominator pos : ℤ) (audbuffer : ℤ → α) :
    ℕ → (ℤ → α) → ℤ → ℤ → (ℤ → α) × ℤ
  | 0, buf, i, _ => (buf, i)
  | rounds + 1, buf, i, numerator =>
    -- past end of dissolve
    if numerator ≤ 0 then (buf, i)
    else
      -- in dissolve region, or before its beginning
      let buf := if numerator < denominator then
          Function.update buf (pos + i)
            (clips.blend (buf (pos + i)) (audbuffer i) numerator denominator)
        else buf
      fadeLoop clips denominator pos audbuffer rounds buf (i + 1) (i32 (numerator - 1))

/-- `GetAudio` into `buf` at `pos`; `none` stands for a copy of a negative size. -/
def getAudio (d : Dissolve) (clips : DissolveClips α) (buf : ℤ → α) (pos start count : ℤ) :
    Option (ℤ → α) :=
  if i64 (start + count) ≤ d.audioFadeStart then
    some (copy buf pos clips.child start count)
  else if d.audioFadeEnd < start then
    some (copy buf pos clips.child2 (i64 (start - d.audioFadeStart)) count)
  else
    let buf := copy buf pos clips.child start count
    let audbuffer :=
      copy clips.audbuffer 0 clips.child2 (i64 (start - d.audioFadeStart)) count
    let countXnch := i32 (i32 count * d.channels)
    let rounds := ((countXnch + d.channels - 1) / d.channels).toNat
    let numerator := i32 (i64 (d.audioFadeEnd - start))
    let (buf, i) := fadeLoop clips d.audioOverlap pos audbuffer rounds buf 0 numerator
    let nchb := i32 ((countXnch - i * d.channels) * d.sampleBytes)
    if nchb < 0 then none
    else some (copy buf (pos + i) audbuffer i (nchb / (d.channels * d.sampleBytes)))

/-- A request cut into consecutive pieces of the given counts. -/
def getPieces (d : Dissolve) (clips : DissolveClips α) (buf : ℤ → α) (pos start : ℤ) :
    List ℤ → Option (ℤ → α)
  | [] => some buf
  | count :: counts => (d.getAudio clips buf pos start count).bind fun buf =>
      d.getPieces clips buf (pos + count) (i64 (start + count)) counts

/-! ### What it is for -/

/-- A sample of the fade, so many samples before its end. -/
def fadedAt (clips : DissolveClips α) (denominator numerator : ℤ) (a b : α) : α :=
  if numerator ≤ 0 then b
  else if numerator < denominator then clips.blend a b numerator denominator
  else a

/-- The sample of the dissolve at a position. -/
def dissolveAt (d : Dissolve) (clips : DissolveClips α) (p : ℤ) : α :=
  if p < d.audioFadeStart then clips.child p
  else if d.audioFadeEnd < p then clips.child2 (p - d.audioFadeStart)
  else fadedAt clips d.audioOverlap (d.audioFadeEnd - p) (clips.child p)
    (clips.child2 (p - d.audioFadeStart))

/-- A request has one answer, in whichever pieces it is made, with the samples of the first
clip before the fade and those of the second clip after it. -/
def Seamless (α : Type*) (d : Dissolve) (start count : ℤ) : Prop :=
  ∀ (clips : DissolveClips α) (buf : ℤ → α) (pos : ℤ), ∃ out,
    d.getAudio clips buf pos start count = some out ∧
    (∀ counts : List ℤ, (∀ n ∈ counts, 0 ≤ n) → counts.sum = count →
      d.getPieces clips buf pos start counts = some out) ∧
    (∀ i, 0 ≤ i → i < count → start + i < d.audioFadeStart →
      out (pos + i) = clips.child (start + i)) ∧
    (∀ i, 0 ≤ i → i < count → d.audioFadeStart ≤ start + i → d.audioFadeEnd < start + i →
      out (pos + i) = clips.child2 (start + i - d.audioFadeStart))

/-- The request and the fade can be computed in the integers of the source, and the request
does not reach before both a clip and a fade that starts before it. -/
structure Fits (d : Dissolve) (start count : ℤ) : Prop where
  count_nonneg : 0 ≤ count
  low : -2 ^ 63 ≤ start - d.audioFadeStart
  high : start + count < 2 ^ 63
  channels_pos : 0 < d.channels
  sampleBytes_pos : 0 < d.sampleBytes
  fade : d.vi.hasVideo = true ∨ (d.fps ≠ 0 ∧ IsInt64 d.fadeSamples)
  overlap_low : -2 ^ 31 ≤ d.audioFadeEnd - d.unclampedStart
  overlap_high : d.audioFadeEnd - d.unclampedStart < 2 ^ 31
  mixed : start ≤ d.audioFadeEnd → d.audioFadeStart < start + count →
    d.audioFadeEnd - start < 2 ^ 31 ∧ count * d.channels * d.sampleBytes < 2 ^ 31 ∧
      (0 ≤ start ∨ -1 ≤ d.unclampedStart)

/-- The fade has no sample and the request has samples on both sides of the seam. -/
def Straddles (d : Dissolve) (start count : ℤ) : Prop :=
  d.audioFadeEnd < d.audioFadeStart ∧ start < d.audioFadeStart ∧
    d.audioFadeStart < start + count

variable {d : Dissolve} {clips : DissolveClips α} {buf : ℤ → α} {pos start count : ℤ}

/-! ### The loop -/

/-- The loop stays within its rounds. -/
theorem fadeLoop_snd (clips : DissolveClips α) (pos denominator : ℤ) (audbuffer : ℤ → α)
    (rounds : ℕ) (buf : ℤ → α) (i numerator : ℤ) :
    i ≤ (fadeLoop clips denominator pos audbuffer rounds buf i numerator).2 ∧
      (fadeLoop clips denominator pos audbuffer rounds buf i numerator).2 ≤ i + rounds := by
  induction rounds generalizing buf i numerator with
  | zero =>
    rw [fadeLoop]
    omega
  | succ rounds ih =>
    rw [fadeLoop]
    split_ifs with hpast
    · push_cast
      omega
    all_goals
      dsimp only
      refine ⟨le_trans (by omega) (ih _ _ _).1, le_trans (ih _ _ _).2 ?_⟩
      push_cast
      omega

/-- The loop and the copy after it leave the samples of the fade. -/
theorem fadeLoop_copy (clips : DissolveClips α) (pos denominator : ℤ) (audbuffer : ℤ → α)
    (rounds : ℕ) (buf : ℤ → α) (i numerator : ℤ) (hnumerator : numerator < 2 ^ 31) (c : ℤ) :
    let out := fadeLoop clips denominator pos audbuffer rounds buf i numerator
    copy out.1 (pos + out.2) audbuffer out.2 (i + rounds - out.2) c =
      if pos + i ≤ c ∧ c < pos + i + rounds then
        fadedAt clips denominator (numerator - (c - pos - i)) (buf c) (audbuffer (c - pos))
      else buf c := by
  induction rounds generalizing buf i numerator with
  | zero =>
    simp only [fadeLoop]
    rw [copy_empty _ _ _ _ (by omega), if_neg (by omega)]
  | succ rounds ih =>
    simp only [fadeLoop]
    by_cases hpast : numerator ≤ 0
    · rw [if_pos hpast]
      simp only [copy]
      by_cases hin : pos + i ≤ c ∧ c < pos + i + ((rounds + 1 : ℕ) : ℤ)
      · rw [if_pos (by omega), if_pos hin, fadedAt, if_pos (by omega)]
        congr 1
        omega
      · rw [if_neg (by omega), if_neg hin]
    rw [if_neg hpast, i32_of_range (by omega) (by omega),
      show i + ((rounds + 1 : ℕ) : ℤ) = i + 1 + rounds by push_cast; omega]
    rw [ih _ _ _ (by omega)]
    by_cases hhere : c = pos + i
    · -- the sample of this round, which the later ones leave
      subst hhere
      have hin : pos + i ≤ pos + i ∧ pos + i < pos + i + ((rounds + 1 : ℕ) : ℤ) :=
        ⟨le_refl _, by push_cast; omega⟩
      rw [if_neg (by omega), if_pos hin, fadedAt, show pos + i - pos = i by omega,
        sub_self, sub_zero, if_neg hpast]
      split_ifs
      · rw [Function.update_self]
      · rfl
    · have hsame : (if numerator < denominator then Function.update buf (pos + i)
            (clips.blend (buf (pos + i)) (audbuffer i) numerator denominator) else buf) c =
          buf c := by
        split_ifs
        · exact Function.update_of_ne hhere _ _
        · rfl
      rw [hsame]
      by_cases hin : pos + (i + 1) ≤ c ∧ c < pos + (i + 1) + rounds
      · rw [if_pos hin, if_pos (by push_cast; omega),
          show numerator - 1 - (c - pos - (i + 1)) = numerator - (c - pos - i) by omega]
      · rw [if_neg hin, if_neg (by push_cast; omega)]

/-! ### One request -/

theorem audioFadeStart_nonneg (d : Dissolve) : 0 ≤ d.audioFadeStart := by
  rw [audioFadeStart]
  split_ifs <;> omega

/-- The sizes of a request that fits are those of its samples. -/
theorem Fits.sizes (h : d.Fits start count) (hfirst : d.audioFadeStart < start + count)
    (hsecond : start ≤ d.audioFadeEnd) :
    i32 (i32 count * d.channels) = count * d.channels ∧
      (count * d.channels + d.channels - 1) / d.channels = count ∧
      ∀ i, 0 ≤ i → i ≤ count →
        i32 ((count * d.channels - i * d.channels) * d.sampleBytes) =
          (count - i) * (d.channels * d.sampleBytes) := by
  have hcount := h.count_nonneg
  have hchannels := h.channels_pos
  have hbytes := h.sampleBytes_pos
  have hsize := (h.mixed hsecond hfirst).2.1
  have hnch : 0 ≤ count * d.channels := mul_nonneg hcount hchannels.le
  have hnchb : count * d.channels ≤ count * d.channels * d.sampleBytes :=
    le_mul_of_one_le_right hnch (by omega)
  have hle : count ≤ count * d.channels := le_mul_of_one_le_right hcount (by omega)
  refine ⟨?_, ?_, fun i hi hic => ?_⟩
  · rw [i32_of_range (x := count) (by omega) (by omega), i32_of_range (by omega) (by omega)]
  · rw [show count * d.channels + d.channels - 1 = d.channels - 1 + count * d.channels by omega,
      Int.add_mul_ediv_right _ _ (by omega), Int.ediv_eq_zero_of_lt (by omega) (by omega)]
    omega
  · have hrest : (count * d.channels - i * d.channels) * d.sampleBytes =
        (count - i) * (d.channels * d.sampleBytes) := by ring
    have hunit : 0 < d.channels * d.sampleBytes := mul_pos hchannels hbytes
    have hlow : 0 ≤ (count - i) * (d.channels * d.sampleBytes) :=
      mul_nonneg (by omega) hunit.le
    have hhigh : (count - i) * (d.channels * d.sampleBytes) ≤
        count * (d.channels * d.sampleBytes) :=
      mul_le_mul_of_nonneg_right (by omega) hunit.le
    rw [← mul_assoc count] at hhigh
    rw [hrest, i32_of_range (by omega) (by omega)]

/-- A request on the path that reads both clips gets the samples that count down from the end
of the fade. -/
theorem getAudio_mixed (h : d.Fits start count) (hfirst : d.audioFadeStart < start + count)
    (hsecond : start ≤ d.audioFadeEnd) (clips : DissolveClips α) (buf : ℤ → α) (pos : ℤ) :
    d.getAudio clips buf pos start count = some (copy buf pos
      (fun p => fadedAt clips d.audioOverlap (d.audioFadeEnd - p) (clips.child p)
        (clips.child2 (p - d.audioFadeStart))) start count) := by
  obtain ⟨hnch, hrounds, hbytes⟩ := h.sizes hfirst hsecond
  have hstart := d.audioFadeStart_nonneg
  have hcount := h.count_nonneg
  have hlow := h.low
  have hhigh := h.high
  have hnumerator := (h.mixed hsecond hfirst).1
  have hunit : 0 < d.channels * d.sampleBytes := mul_pos h.channels_pos h.sampleBytes_pos
  rw [getAudio, i64_of_range (x := start + count) (by omega) (by omega), if_neg (by omega),
    if_neg (by omega), i64_of_range (x := start - _) (by omega) (by omega),
    i64_of_range (x := d.audioFadeEnd - start) (by omega) (by omega),
    i32_of_range (x := d.audioFadeEnd - start) (by omega) (by omega)]
  simp only [hnch, hrounds]
  obtain ⟨hreached, hwithin⟩ := fadeLoop_snd clips pos d.audioOverlap
    (copy clips.audbuffer 0 clips.child2 (start - d.audioFadeStart) count) count.toNat
    (copy buf pos clips.child start count) 0 (d.audioFadeEnd - start)
  rw [hbytes _ hreached (by omega), if_neg (not_lt.mpr (mul_nonneg (by omega) hunit.le)),
    Int.mul_ediv_cancel _ hunit.ne']
  congr 1
  funext c
  have hloop := fadeLoop_copy clips pos d.audioOverlap
    (copy clips.audbuffer 0 clips.child2 (start - d.audioFadeStart) count) count.toNat
    (copy buf pos clips.child start count) 0 (d.audioFadeEnd - start) (by omega) c
  dsimp only at hloop
  rw [Int.toNat_of_nonneg hcount, zero_add, add_zero] at hloop
  rw [hloop]
  by_cases hin : pos ≤ c ∧ c < pos + count
  · simp only [copy]
    rw [if_pos hin, if_pos hin, if_pos (by omega), if_pos hin, sub_zero,
      show d.audioFadeEnd - start - (c - pos) = d.audioFadeEnd - (start + (c - pos)) by omega,
      show start - d.audioFadeStart + (c - pos) = start + (c - pos) - d.audioFadeStart by omega]
  · rw [if_neg hin]
    simp only [copy]
    rw [if_neg hin, if_neg hin]

/-- A request that does not straddle an empty fade gets the samples of the dissolve. -/
theorem getAudio_eq_copy (h : d.Fits start count) (hseam : ¬d.Straddles start count)
    (clips : DissolveClips α) (buf : ℤ → α) (pos : ℤ) :
    d.getAudio clips buf pos start count =
      some (copy buf pos (d.dissolveAt clips) start count) := by
  have hstart := d.audioFadeStart_nonneg
  have hcount := h.count_nonneg
  have hlow := h.low
  have hhigh := h.high
  rw [Straddles] at hseam
  by_cases hbefore : start + count ≤ d.audioFadeStart
  · rw [getAudio, i64_of_range (x := start + count) (by omega) (by omega), if_pos hbefore]
    congr 1
    refine copy_congr fun i hi hic => ?_
    rw [dissolveAt, if_pos (by omega)]
  by_cases hafter : d.audioFadeEnd < start
  · rw [getAudio, i64_of_range (x := start + count) (by omega) (by omega), if_neg hbefore,
      if_pos hafter, i64_of_range (by omega) (by omega)]
    congr 1
    refine copy_congr fun i hi hic => ?_
    rw [dissolveAt, if_neg (by omega), if_pos (by omega)]
    congr 1
    omega
  rw [getAudio_mixed h (by omega) (by omega)]
  congr 1
  refine copy_congr fun i hi hic => ?_
  rw [dissolveAt]
  by_cases hfirst : start + i < d.audioFadeStart
  · -- before the fade the loop leaves the first clip
    have hclamped := (h.mixed (by omega) (by omega)).2.2
    have hunclamped : start + i ≤ d.unclampedStart := by
      rw [audioFadeStart] at hfirst
      split_ifs at hfirst <;> omega
    have hoverlap : d.audioOverlap = d.audioFadeEnd - d.unclampedStart := by
      have hoverlapLow := h.overlap_low
      have hoverlapHigh := h.overlap_high
      rw [audioOverlap, i64_of_range (by omega) (by omega), i32_of_range (by omega) (by omega)]
    rw [if_pos hfirst, fadedAt, if_neg (by omega), if_neg (by omega)]
  by_cases hsecond : d.audioFadeEnd < start + i
  · rw [if_neg hfirst, if_pos hsecond, fadedAt, if_pos (by omega)]
  · rw [if_neg hfirst, if_neg hsecond]

/-- Across an empty fade the sample before the seam comes from the second clip. -/
theorem getAudio_straddles (h : d.Fits start count) (hseam : d.Straddles start count)
    (clips : DissolveClips α) (buf : ℤ → α) (pos : ℤ) :
    (d.getAudio clips buf pos start count).map (· (pos + (d.audioFadeStart - 1 - start))) =
      some (clips.child2 (-1)) := by
  obtain ⟨hempty, hbefore, hbeyond⟩ := hseam
  have hlow := h.low
  have hhigh := h.high
  have hstart := d.audioFadeStart_nonneg
  by_cases hafter : d.audioFadeEnd < start
  · rw [getAudio, i64_of_range (x := start + count) (by omega) (by omega), if_neg (by omega),
      if_pos hafter, i64_of_range (by omega) (by omega), Option.map_some,
      shows_copy _ _ _ _ _ _ (by omega) (by omega)]
    congr 2
    omega
  · rw [getAudio_mixed h (by omega) (by omega), Option.map_some,
      shows_copy _ _ _ _ _ _ (by omega) (by omega), fadedAt, if_pos (by omega)]
    congr 2
    omega

/-! ### Requests in pieces -/

/-- A request within one that fits, fits. -/
theorem Fits.part (h : d.Fits start count) {skip n : ℤ} (hskip : 0 ≤ skip) (hn : 0 ≤ n)
    (hin : skip + n ≤ count) : d.Fits (start + skip) n := by
  have hlow := h.low
  have hhigh := h.high
  refine { h with count_nonneg := hn, low := by omega, high := by omega, mixed := ?_ }
  intro hsecond hfirst
  obtain ⟨hnumerator, hsize, hclamped⟩ := h.mixed (by omega) (by omega)
  refine ⟨by omega, lt_of_le_of_lt ?_ hsize, by omega⟩
  have hchannels : n * d.channels ≤ count * d.channels :=
    mul_le_mul_of_nonneg_right (by omega) h.channels_pos.le
  exact mul_le_mul_of_nonneg_right hchannels h.sampleBytes_pos.le

/-- The pieces of a request deliver the samples of the dissolve, one piece after another. -/
theorem getPieces_eq_copy (clips : DissolveClips α) (counts : List ℤ)
    (hcounts : ∀ n ∈ counts, 0 ≤ n) (h : d.Fits start counts.sum)
    (hseam : ¬d.Straddles start counts.sum) (buf : ℤ → α) (pos : ℤ) :
    d.getPieces clips buf pos start counts =
      some (copy buf pos (d.dissolveAt clips) start counts.sum) := by
  induction counts generalizing buf pos start with
  | nil => rw [getPieces, List.sum_nil, copy_empty _ _ _ _ (le_refl 0)]
  | cons count counts ih =>
    rw [List.sum_cons] at h hseam
    have hcount : 0 ≤ count := hcounts count List.mem_cons_self
    have hrest : ∀ n ∈ counts, 0 ≤ n := fun n hn => hcounts n (List.mem_cons_of_mem _ hn)
    have hsum : 0 ≤ counts.sum := List.sum_nonneg hrest
    have hlow := h.low
    have hhigh := h.high
    have hstart := d.audioFadeStart_nonneg
    have hfirst : d.Fits start count := by
      have hpart := h.part (le_refl 0) hcount (by omega)
      rwa [add_zero] at hpart
    have hsecond : d.Fits (start + count) counts.sum := h.part hcount hsum (by omega)
    rw [Straddles] at hseam
    rw [getPieces, getAudio_eq_copy hfirst (by rw [Straddles]; omega), Option.bind_some,
      i64_of_range (by omega) (by omega), ih hrest hsecond (by rw [Straddles]; omega),
      copy_append _ _ _ _ hcount hsum, List.sum_cons]

/-- A request that does not straddle an empty fade is seamless. -/
theorem seamless_of_not_straddles (h : d.Fits start count) (hseam : ¬d.Straddles start count) :
    d.Seamless α start count := by
  intro clips buf pos
  refine ⟨_, getAudio_eq_copy h hseam clips buf pos, ?_, ?_, ?_⟩
  · intro counts hcounts hsum
    subst hsum
    exact getPieces_eq_copy clips counts hcounts h hseam buf pos
  · intro i hi hic hbefore
    rw [shows_copy _ _ _ _ _ _ hi hic, dissolveAt, if_pos hbefore]
  · intro i hi hic hbeyond hafter
    rw [shows_copy _ _ _ _ _ _ hi hic, dissolveAt, if_neg (by omega), if_pos hafter]

/-- A request that straddles an empty fade is not: the clips may differ there. -/
theorem not_seamless_of_straddles [Nontrivial α] (h : d.Fits start count)
    (hseam : d.Straddles start count) : ¬d.Seamless α start count := by
  intro hseamless
  obtain ⟨x, y, hne⟩ := exists_pair_ne α
  let clips : DissolveClips α := ⟨fun _ => x, fun _ => y, fun _ => y, fun a _ _ _ => a⟩
  obtain ⟨out, hout, -, hbefore, -⟩ := hseamless clips (fun _ => x) 0
  have hcell := getAudio_straddles h hseam clips (fun _ => x) 0
  rw [hout, Option.map_some, Option.some_inj] at hcell
  obtain ⟨hempty, hstart, hbeyond⟩ := hseam
  refine hne ?_
  calc x = out (0 + (d.audioFadeStart - 1 - start)) :=
        (hbefore _ (by omega) (by omega) (by omega)).symm
    _ = y := hcell

/-- A request has one answer in whichever pieces it is made, from the first clip before the
fade and from the second one after it, unless the fade has no sample and the request goes
across the seam. -/
theorem seamless_iff [Nontrivial α] (h : d.Fits start count) :
    d.Seamless α start count ↔ ¬d.Straddles start count :=
  ⟨fun hseamless hseam => not_seamless_of_straddles h hseam hseamless, seamless_of_not_straddles h⟩

/-- A hundred frames of 25 a second, with an overlap. -/
def hundredFrames (overlap : ℕ) (h : overlap ≤ 100) : Dissolve where
  vi := ⟨true, 48000, 25, 1⟩
  numFrames := 100
  numAudioSamples := 192000
  channels := 2
  sampleBytes := 2
  numFrames2 := 100
  overlap := overlap
  fps := 24
  overlap_nonneg := by omega
  numFrames_nonneg := by
    rw [if_pos rfl, i32_of_range (x := 100 - overlap) (by omega) (by omega),
      i32_of_range (by omega) (by omega)]
    omega

/-- Ten frames fade without a seam. -/
theorem seamless_ten_frames : (hundredFrames 10 (by decide)).Seamless ℤ 172790 20 :=
  have hfits : (hundredFrames 10 (by decide)).Fits 172790 20 := ⟨by decide, by decide, by decide,
    by decide, by decide, Or.inl rfl, by decide, by decide, by decide⟩
  (seamless_iff hfits).mpr (by unfold Straddles; decide)

/-- Without overlap the last sample of the first clip is lost. -/
theorem not_seamless_zero_overlap : ¬(hundredFrames 0 (by decide)).Seamless ℤ 191990 20 :=
  not_seamless_of_straddles
    ⟨by decide, by decide, by decide, by decide, by decide, Or.inl rfl, by decide, by decide,
      by decide⟩ ⟨by decide, by decide, by decide⟩

end Dissolve

end AviSynth
