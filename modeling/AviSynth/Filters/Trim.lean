import AviSynth.Filters.AudioGraph
import AviSynth.Filters.FrameClip

/-!
# `Trim`

`Trim` keeps a range of the frames of a clip. Its last argument is the last frame, a length
or, if negative, the length with its sign turned around. The last frame is computed in 32
bits before it is held against the number of frames.
-/

namespace AviSynth

open MachineInt

variable {F α : Type*}

/-- A clip with frames and audio. -/
structure FilmClip (F α : Type*) extends FrameClip F where
  vi : AudioRate
  numAudioSamples : ℤ
  audio : AudioClip α

/-- `trim_mode_e`. -/
inductive TrimMode
  | invalid
  | default
  | length
  | endFrame
  deriving DecidableEq

/-- `lastframe`, after the switch on the mode. -/
def trimLastframe (numFrames firstframe lastframe : ℤ) : TrimMode → Except String ℤ
  | .default =>
    .ok (clampInt
      (if lastframe = 0 then i32 (numFrames - 1)
        else if lastframe < 0 then i32 (i32 (firstframe - lastframe) - 1)
        else lastframe)
      firstframe (i32 (numFrames - 1)))
  | .length =>
    if lastframe < 0 then .error "Trim: Length must be >= 0"
    else
      let last := i32 (i32 (firstframe + lastframe) - 1)
      .ok (if i32 (numFrames - 1) < last then i32 (numFrames - 1) else last)
  | .endFrame =>
    if lastframe < firstframe then .error "Trim: End must be >= Start"
    else .ok (if i32 (numFrames - 1) < lastframe then i32 (numFrames - 1) else lastframe)
  | .invalid => .error "Script error: Invalid arguments to function \"Trim\""

/-- The number of samples that are left. -/
def trimSamples (child : FilmClip F α) (lastArgument : ℤ) (padaudio : Bool) (mode : TrimMode)
    (audioOffset lastframe : ℤ) : ℤ :=
  let stop := child.vi.audioSamplesFromFrames (i32 (lastframe + 1))
  if padaudio then i64 (stop - audioOffset)
  else
    let samples := if lastArgument = 0 ∧ mode = .default then child.numAudioSamples
      else if child.numAudioSamples < stop then child.numAudioSamples else stop
    if samples ≤ audioOffset then 0 else i64 (samples - audioOffset)

/-- The constructor of `Trim`, with what the filter delivers. -/
def trim (firstArgument lastArgument : ℤ) (padaudio : Bool) (child : FilmClip F α)
    (mode : TrimMode) : Except String (FilmClip F α) :=
  if child.vi.hasVideo = false then .error "Trim: Cannot trim if there is no video."
  else
    let firstframe := clampInt firstArgument 0 (i32 (child.numFrames - 1))
    (trimLastframe child.numFrames firstframe lastArgument mode).map fun lastframe =>
      let audioOffset := child.vi.audioSamplesFromFrames firstframe
      { numFrames := i32 (i32 (lastframe + 1) - firstframe)
        getFrame := fun n => child.getFrame (i32 (n + firstframe))
        vi := child.vi
        numAudioSamples := trimSamples child lastArgument padaudio mode audioOffset lastframe
        audio := .trim audioOffset child.audio }

/-! ### What the range is to be -/

/-- The last frame that the arguments ask for. -/
def TrimMode.asked (mode : TrimMode) (numFrames firstframe lastArgument : ℤ) : ℤ :=
  match mode with
  | .default =>
    if lastArgument = 0 then numFrames - 1
    else if lastArgument < 0 then firstframe - lastArgument - 1
    else max lastArgument firstframe
  | .length => firstframe + lastArgument - 1
  | .endFrame | .invalid => lastArgument

/-- The clip is the child from a frame up to another one, and sounds like the child from the
sample of the first one on. -/
structure FilmClip.IsRange (clip child : FilmClip F α) (first last : ℤ) : Prop where
  numFrames : clip.numFrames = last + 1 - first
  nonneg : 0 ≤ clip.numFrames
  getFrame : ∀ n, 0 ≤ n → n < clip.numFrames →
    0 ≤ first + n ∧ first + n < child.numFrames ∧ clip.getFrame n = child.getFrame (first + n)
  getAudio : ∀ buf pos start count, clip.audio.getAudio buf pos start count =
    child.audio.getAudio buf pos (i64 (start + child.vi.audioSamplesFromFrames first)) count

/-- The last frame that is asked for can be computed in 32 bits or does not matter, and there
is a frame where the older form of the arguments supposes one. -/
def TrimMode.Exact (mode : TrimMode) (numFrames firstframe lastArgument : ℤ) : Prop :=
  (mode = .default → 0 < numFrames ∧
    (lastArgument < 0 → firstframe - lastArgument ≤ 2 ^ 31 ∨ firstframe = numFrames - 1)) ∧
  (mode = .length → firstframe + lastArgument ≤ 2 ^ 31)

/-! ### The frames -/

theorem clampInt_spec_of_nonneg {n numFrames : ℤ} (hnonneg : 0 ≤ numFrames) :
    0 ≤ clampInt n 0 (numFrames - 1) ∧
      (clampInt n 0 (numFrames - 1) < numFrames ∨
        numFrames = 0 ∧ clampInt n 0 (numFrames - 1) = 0) := by
  simp only [clampInt]
  split_ifs <;> omega

variable {N f a last : ℤ}

/-- The older form: the last frame is between the first one and the end of the clip, so
without a frame there is still one. -/
theorem count_default (hN : 0 ≤ N) (hcount : N < 2 ^ 31) (hf : 0 ≤ f)
    (hfN : f < N ∨ N = 0 ∧ f = 0) (ha : -2 ^ 31 ≤ a ∧ a < 2 ^ 31)
    (h : trimLastframe N f a .default = .ok last) :
    (i32 (i32 (last + 1) - f) = min (TrimMode.default.asked N f a) (N - 1) + 1 - f ∧
      0 ≤ i32 (i32 (last + 1) - f)) ↔ TrimMode.default.Exact N f a := by
  have hend : i32 (N - 1) = N - 1 := i32_of_range (by omega) (by omega)
  have hsum : i32 (i32 (f - a) - 1) = i32 (f - a - 1) := by
    rw [sub_eq_add_neg, i32_i32_add, ← sub_eq_add_neg]
  have hlast : last = clampInt (if a = 0 then N - 1 else if a < 0 then i32 (f - a - 1) else a) f
      (N - 1) := by
    rw [trimLastframe, hend, hsum] at h
    exact (Except.ok.inj h).symm
  have hrange : f ≤ last ∧ last ≤ max (N - 1) f := by
    rw [hlast]
    simp only [clampInt]
    split_ifs <;> omega
  rw [i32_of_range (x := last + 1) (by omega) (by omega), i32_of_range (by omega) (by omega)]
  simp only [TrimMode.Exact, TrimMode.asked, true_imp_iff, reduceCtorEq, false_imp_iff, and_true]
  simp only [clampInt] at hlast
  by_cases hfits : f - a - 1 < 2 ^ 31
  · by_cases hneg : a < 0
    · rw [i32_of_range (by omega) hfits] at hlast
      split_ifs at hlast ⊢ <;> omega
    · split_ifs at hlast ⊢ <;> omega
  · rw [i32_of_overflow (by omega) (by omega)] at hlast
    split_ifs at hlast ⊢ <;> omega

/-- The length: a sum that overflows is not held against the end of the clip, and the length
stays the number of frames. -/
theorem count_length (hN : 0 ≤ N) (hcount : N < 2 ^ 31) (hf : 0 ≤ f)
    (hfN : f < N ∨ N = 0 ∧ f = 0) (ha : a < 2 ^ 31)
    (h : trimLastframe N f a .length = .ok last) :
    (i32 (i32 (last + 1) - f) = min (TrimMode.length.asked N f a) (N - 1) + 1 - f ∧
      0 ≤ i32 (i32 (last + 1) - f)) ↔ TrimMode.length.Exact N f a := by
  have hend : i32 (N - 1) = N - 1 := i32_of_range (by omega) (by omega)
  have hsum : i32 (i32 (f + a) - 1) = i32 (f + a - 1) := by
    rw [sub_eq_add_neg, i32_i32_add, ← sub_eq_add_neg]
  rw [trimLastframe, hend, hsum] at h
  split_ifs at h with hneg
  have hlast := (Except.ok.inj h).symm
  simp only [TrimMode.Exact, TrimMode.asked, true_imp_iff, reduceCtorEq, false_imp_iff, true_and]
  by_cases hfits : f + a - 1 < 2 ^ 31
  · rw [i32_of_range (by omega) hfits] at hlast
    have hrange : -1 ≤ last ∧ last ≤ N - 1 := by
      split_ifs at hlast <;> omega
    rw [i32_of_range (x := last + 1) (by omega) (by omega), i32_of_range (by omega) (by omega)]
    split_ifs at hlast <;> omega
  · rw [i32_of_overflow (by omega) (by omega), if_neg (by omega)] at hlast
    rw [hlast, i32_of_range (x := f + a - 1 - 2 ^ 32 + 1) (by omega) (by omega)]
    have hturn : i32 (f + a - 1 - 2 ^ 32 + 1 - f) = a := by
      rw [show f + a - 1 - 2 ^ 32 + 1 - f = a - 2 ^ 32 by omega]
      exact (Int.sub_bmod_right a (2 ^ 32)).trans (i32_of_range (by omega) ha)
    rw [hturn]
    omega

theorem count_endFrame (hN : 0 ≤ N) (hcount : N < 2 ^ 31) (hf : 0 ≤ f)
    (hfN : f < N ∨ N = 0 ∧ f = 0) (h : trimLastframe N f a .endFrame = .ok last) :
    i32 (i32 (last + 1) - f) = min (TrimMode.endFrame.asked N f a) (N - 1) + 1 - f ∧
      0 ≤ i32 (i32 (last + 1) - f) := by
  have hend : i32 (N - 1) = N - 1 := i32_of_range (by omega) (by omega)
  rw [trimLastframe, hend] at h
  split_ifs at h with hbefore
  · have hlast := (Except.ok.inj h).symm
    rw [hlast, sub_add_cancel, i32_of_range (x := N) (by omega) hcount,
      i32_of_range (by omega) (by omega)]
    simp only [TrimMode.asked]
    omega
  · have hlast := (Except.ok.inj h).symm
    rw [hlast, i32_of_range (x := a + 1) (by omega) (by omega), i32_of_range (by omega) (by omega)]
    simp only [TrimMode.asked]
    omega

/-- What a range shows and sounds like follows from its number of frames. -/
theorem isRange_iff {clip child : FilmClip F α} {first last : ℤ} (hfirst : 0 ≤ first)
    (hlast : last < child.numFrames) (hcount : child.numFrames < 2 ^ 31)
    (hgetFrame : clip.getFrame = fun n => child.getFrame (i32 (n + first)))
    (haudio : clip.audio = .trim (child.vi.audioSamplesFromFrames first) child.audio) :
    clip.IsRange child first last ↔
      clip.numFrames = last + 1 - first ∧ 0 ≤ clip.numFrames := by
  constructor
  · exact fun h => ⟨h.numFrames, h.nonneg⟩
  · rintro ⟨hnum, hnonneg⟩
    refine ⟨hnum, hnonneg, fun n hn hlt => ⟨by omega, by omega, ?_⟩, fun buf pos start count => ?_⟩
    · rw [hgetFrame]
      dsimp only
      rw [i32_of_range (by omega) (by omega), add_comm]
    · rw [haudio]
      rfl

/-- Whatever arguments `Trim` accepts, the result is the range of frames that they ask for
just if the last frame can be computed in 32 bits and there is a frame where the older form
supposes one. -/
theorem trim_isRange_iff (child : FilmClip F α) (hnonneg : 0 ≤ child.numFrames)
    (hcount : child.numFrames < 2 ^ 31) (firstArgument lastArgument : ℤ)
    (hlast : -2 ^ 31 ≤ lastArgument ∧ lastArgument < 2 ^ 31) (padaudio : Bool) (mode : TrimMode)
    {clip : FilmClip F α} (h : trim firstArgument lastArgument padaudio child mode = .ok clip) :
    let firstframe := clampInt firstArgument 0 (child.numFrames - 1)
    clip.IsRange child firstframe
        (min (mode.asked child.numFrames firstframe lastArgument) (child.numFrames - 1)) ↔
      mode.Exact child.numFrames firstframe lastArgument := by
  intro firstframe
  obtain ⟨hf, hfN⟩ : 0 ≤ firstframe ∧
      (firstframe < child.numFrames ∨ child.numFrames = 0 ∧ firstframe = 0) :=
    clampInt_spec_of_nonneg hnonneg
  rw [trim, i32_of_range (x := child.numFrames - 1) (by omega) (by omega)] at h
  split_ifs at h with hvideo
  cases hmode : trimLastframe child.numFrames firstframe lastArgument mode with
  | error message =>
    dsimp only at h
    rw [hmode] at h
    cases h
  | ok last =>
    dsimp only at h
    rw [hmode] at h
    cases h
    rw [isRange_iff hf (by omega) hcount rfl rfl]
    cases mode with
    | invalid => cases hmode
    | default => exact count_default hnonneg hcount hf hfN hlast hmode
    | length => exact count_length hnonneg hcount hf hfN hlast.2 hmode
    | endFrame =>
      have hnum := count_endFrame hnonneg hcount hf hfN hmode
      exact ⟨fun _ => ⟨by simp, by simp⟩, fun _ => hnum⟩

/-- A hundred frames at 25 frames a second, each shown as its number. -/
def hundredFrames : FilmClip ℤ ℤ where
  numFrames := 100
  getFrame := id
  vi := ⟨true, 44100, 25, 1⟩
  numAudioSamples := 176400
  audio := .source id

/-- `Trim(20, -5)` keeps the frames from 20 to 24. -/
theorem trim_isRange_twenty : ∃ clip, trim 20 (-5) true hundredFrames .default = .ok clip ∧
    clip.IsRange hundredFrames 20 24 :=
  ⟨_, rfl, (trim_isRange_iff hundredFrames (by decide) (by decide) 20 (-5) (by decide) true .default
    rfl).mpr (by unfold TrimMode.Exact; decide)⟩

/-- `Trim(10, length = 2147483647)` has more frames than the clip. -/
theorem trim_length_overflows : ∃ clip, trim 10 2147483647 true hundredFrames .length = .ok clip ∧
    ∀ first last, ¬clip.IsRange hundredFrames first last := by
  refine ⟨_, rfl, fun first last h => ?_⟩
  have hlow := (h.getFrame 0 (by decide) (by decide)).1
  have hhigh := (h.getFrame 100 (by decide) (by decide)).2.1
  have hnum : hundredFrames.numFrames = 100 := rfl
  omega

end AviSynth
