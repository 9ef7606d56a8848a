import AviSynth.Library.Buffer
import AviSynth.Library.MachineInt
import Mathlib.Algebra.BigOperators.Group.List.Defs

/-!
# Filters that stitch audio

`Splice`, `ApplyRange`, `Trim` and `Reverse` hand a request for audio on to their
children, cut at their own boundaries and with shifted positions. `Splice` puts
`ConvertAudio` in front of a child whose samples have another type. Buffers are
counted in samples of all channels, positions and counts are 64-bit integers.
-/

namespace AviSynth

open MachineInt

variable {α : Type*}

/-- The fields of `VideoInfo` that turn frames into samples. -/
structure AudioRate where
  hasVideo : Bool
  audioSamplesPerSecond : ℤ
  fpsNumerator : ℤ
  fpsDenominator : ℤ

/-- The sample at which a frame starts. -/
def AudioRate.audioSamplesFromFrames (vi : AudioRate) (frames : ℤ) : ℤ :=
  if vi.fpsNumerator ≠ 0 ∧ vi.hasVideo then
    (i64 (i64 (frames * vi.audioSamplesPerSecond) * vi.fpsDenominator)).tdiv vi.fpsNumerator
  else 0

/-- A clip that delivers audio. A source has a sample at each 64-bit position. The
`convert` function of `ConvertAudio` acts on each sample; `tempbuffer` is what its
buffer holds before the call. -/
inductive AudioClip (α : Type*)
  | source (samples : ℤ → α)
  | splice (audioSwitchoverPoint : ℤ) (child child2 : AudioClip α)
  | applyRange (first last : ℤ) (vi1 : AudioRate) (filtered unfiltered : AudioClip α)
  | trim (audioOffset : ℤ) (child : AudioClip α)
  | reverse (numAudioSamples : ℤ) (child : AudioClip α)
  | convertAudio (channels : ℤ) (convert : α → α) (tempbuffer : ℤ → α) (child : AudioClip α)

/-- Two samples of a buffer change places. -/
def swapSamples (buf : ℤ → α) (i j : ℤ) : ℤ → α := fun k =>
  if k = i then buf j else if k = j then buf i else buf k

/-- The first `rounds` rounds of the loop of `Reverse::GetAudio`. -/
def swapEnds (pos count : ℤ) (buf : ℤ → α) : ℕ → ℤ → α
  | 0 => buf
  | i + 1 => swapSamples (swapEnds pos count buf i) (pos + i) (pos + (count - 1 - i))

namespace AudioClip

/-- The sample with which the filtered part of `ApplyRange` starts. -/
def startSwitch (first : ℤ) (vi1 : AudioRate) : ℤ := vi1.audioSamplesFromFrames first

/-- The sample before which the filtered part of `ApplyRange` ends. -/
def endSwitch (last : ℤ) (vi1 : AudioRate) : ℤ := vi1.audioSamplesFromFrames (i32 (last + 1))

/-- `GetAudio` into `buf` at `pos`; `none` stands for an error. -/
def getAudio : AudioClip α → (ℤ → α) → ℤ → ℤ → ℤ → Option (ℤ → α)
  | .source samples, buf, pos, start, count =>
    some (Buffer.copy buf pos (fun i => samples (i64 i)) start count)
  | .splice audioSwitchoverPoint child child2, buf, pos, start, count =>
    if i64 (start + count) ≤ audioSwitchoverPoint then child.getAudio buf pos start count
    else if audioSwitchoverPoint ≤ start then
      child2.getAudio buf pos (i64 (start - audioSwitchoverPoint)) count
    else
      let count1 := i64 (audioSwitchoverPoint - start)
      (child.getAudio buf pos start count1).bind fun buf =>
        child2.getAudio buf (pos + count1) 0 (i64 (count - count1))
  | .applyRange first last vi1 filtered unfiltered, buf, pos, start, count =>
    let startSwitch := startSwitch first vi1
    let endSwitch := endSwitch last vi1
    if i64 (start + count) ≤ startSwitch ∨ endSwitch ≤ start then
      unfiltered.getAudio buf pos start count
    else if start < startSwitch ∨ endSwitch < i64 (start + count) then
      -- the bit before
      let preCount := if start < startSwitch then i64 (startSwitch - start) else 0
      let before := if start < startSwitch then unfiltered.getAudio buf pos start preCount
        else some buf
      before.bind fun buf =>
      -- the bit in the middle
      let pos := pos + preCount
      let start := i64 (start + preCount)
      let count := i64 (count - preCount)
      let filtCount := if endSwitch < i64 (start + count) then i64 (endSwitch - start) else count
      (filtered.getAudio buf pos start filtCount).bind fun buf =>
      -- the bit after
      let pos := pos + filtCount
      let start := i64 (start + filtCount)
      let count := i64 (count - filtCount)
      if 0 < count then unfiltered.getAudio buf pos start count else some buf
    else filtered.getAudio buf pos start count
  | .trim audioOffset child, buf, pos, start, count =>
    child.getAudio buf pos (i64 (start + audioOffset)) count
  | .reverse numAudioSamples child, buf, pos, start, count =>
    (child.getAudio buf pos (i64 (i64 (numAudioSamples - start) - count)) count).map fun buf =>
      swapEnds pos count buf (count.tdiv 2).toNat
  | .convertAudio channels convert tempbuffer child, buf, pos, start, count =>
    if count ≤ 0 then some buf
    else if channels ≤ 0 ∨ (2 ^ 31 - 1 : ℤ).tdiv channels < count then none
    else (child.getAudio tempbuffer 0 start count).map fun tempbuffer =>
      Buffer.copy buf pos (fun i => convert (tempbuffer i)) 0 count

/-- A request cut into consecutive pieces of the given counts. -/
def getPieces (clip : AudioClip α) (buf : ℤ → α) (pos start : ℤ) : List ℤ → Option (ℤ → α)
  | [] => some buf
  | count :: counts => (clip.getAudio buf pos start count).bind fun buf =>
      clip.getPieces buf (pos + count) (i64 (start + count)) counts

/-! ### What a clip sounds like -/

/-- The sample of the clip at a 64-bit position. -/
def audioAt : AudioClip α → ℤ → α
  | .source samples, p => samples p
  | .splice audioSwitchoverPoint child child2, p =>
    if p < audioSwitchoverPoint then child.audioAt p
    else child2.audioAt (i64 (p - audioSwitchoverPoint))
  | .applyRange first last vi1 filtered unfiltered, p =>
    if startSwitch first vi1 ≤ p ∧ p < endSwitch last vi1 then filtered.audioAt p
    else unfiltered.audioAt p
  | .trim audioOffset child, p => child.audioAt (i64 (p + audioOffset))
  | .reverse numAudioSamples child, p => child.audioAt (i64 (numAudioSamples - 1 - p))
  | .convertAudio _ convert _ child, p => convert (child.audioAt p)

/-- The request can be computed in 64 bits: wherever it meets `Splice` or
`ApplyRange`, its end is a 64-bit number and the range of `ApplyRange` is not
turned around; `ConvertAudio` is asked for no more samples than it takes. -/
def Fits : AudioClip α → ℤ → ℤ → Prop
  | .source _, _, _ => True
  | .splice audioSwitchoverPoint child child2, start, count =>
    start + count < 2 ^ 63 ∧
    (start < audioSwitchoverPoint →
      child.Fits start (min (start + count) audioSwitchoverPoint - start)) ∧
    (audioSwitchoverPoint < start + count →
      child2.Fits (i64 (max start audioSwitchoverPoint - audioSwitchoverPoint))
        (start + count - max start audioSwitchoverPoint))
  | .applyRange first last vi1 filtered unfiltered, start, count =>
    start + count < 2 ^ 63 ∧
    (startSwitch first vi1 ≤ endSwitch last vi1 ∨ start + count ≤ startSwitch first vi1 ∨
      endSwitch last vi1 ≤ start) ∧
    (start < startSwitch first vi1 →
      unfiltered.Fits start (min (start + count) (startSwitch first vi1) - start)) ∧
    (endSwitch last vi1 < start + count →
      unfiltered.Fits (max start (endSwitch last vi1))
        (start + count - max start (endSwitch last vi1))) ∧
    (max start (startSwitch first vi1) < min (start + count) (endSwitch last vi1) →
      filtered.Fits (max start (startSwitch first vi1))
        (min (start + count) (endSwitch last vi1) - max start (startSwitch first vi1)))
  | .trim audioOffset child, start, count => child.Fits (i64 (start + audioOffset)) count
  | .reverse numAudioSamples child, start, count =>
    child.Fits (i64 (i64 (numAudioSamples - start) - count)) count
  | .convertAudio channels _ _ child, start, count =>
    0 < count → 0 < channels ∧ count ≤ (2 ^ 31 - 1 : ℤ).tdiv channels ∧ child.Fits start count

end AudioClip

end AviSynth
