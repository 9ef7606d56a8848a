import AviSynth.Filters.AudioGraph
import Mathlib.Tactic.Linarith
import Mathlib.Tactic.Ring

/-!
# Repeated ranges

`Loop` repeats a range of frames and with it the audio of these frames. The frame of a position
is computed from the length of the range alone, and is right as long as the number of frames
fits in an integer. The audio has its first sample, its length and its end from three separate
conversions of frames to samples.
-/

namespace AviSynth

open MachineInt

variable {α : Type*}

/-! ### The filter -/

/-- What `Loop` reads of its clip, and the arguments. -/
structure LoopArgs where
  vi : AudioRate
  numFrames : ℤ
  numAudioSamples : ℤ
  times : ℤ
  argStart : ℤ
  argEnd : ℤ
  numFrames_nonneg : 0 ≤ numFrames
  numFrames_lt : numFrames < 2 ^ 31
  times_lt : times < 2 ^ 31

namespace LoopArgs

/-- The first frame of the loop. -/
def start (l : LoopArgs) : ℤ := clampInt l.argStart 0 (i32 (l.numFrames - 1))

/-- The last frame of the range. -/
def rangeEnd (l : LoopArgs) : ℤ := clampInt l.argEnd l.start (i32 (l.numFrames - 1))

/-- The length of the range. -/
def frames (l : LoopArgs) : ℤ := i32 (i32 (l.rangeEnd - l.start) + 1)

/-- `vi.num_frames` of the result. -/
def viNumFrames (l : LoopArgs) : ℤ :=
  if l.times < 0 then 10000000 else i32 (l.numFrames + i32 (i32 (l.times - 1) * l.frames))

/-- The frame count of finitely many repetitions. -/
def repeatedFrames (l : LoopArgs) : ℤ := l.numFrames + (l.times - 1) * l.frames

/-- The range is one of frames, from its start on. -/
theorem range_spec (l : LoopArgs) :
    0 ≤ l.start ∧ l.start ≤ l.rangeEnd ∧ l.rangeEnd < max l.numFrames 1 := by
  have hlow := l.numFrames_nonneg
  have hhigh := l.numFrames_lt
  rw [rangeEnd, start, i32_of_range (by omega) (by omega)]
  simp only [clampInt]
  split_ifs <;> omega

theorem frames_eq (l : LoopArgs) : l.frames = l.rangeEnd - l.start + 1 := by
  obtain ⟨hstart, hend, hlast⟩ := l.range_spec
  have hhigh := l.numFrames_lt
  rw [frames, i32_of_range (x := l.rangeEnd - l.start) (by omega) (by omega)]
  exact i32_of_range (by omega) (by omega)

theorem viNumFrames_eq (l : LoopArgs) (htimes : 0 ≤ l.times) :
    l.viNumFrames = i32 l.repeatedFrames := by
  rw [viNumFrames, if_neg (by omega), repeatedFrames]
  simp only [i32, Int.bmod_mul_bmod, Int.add_bmod_bmod]

theorem neg_one_le_repeatedFrames (l : LoopArgs) (htimes : 0 ≤ l.times) :
    -1 ≤ l.repeatedFrames := by
  obtain ⟨hstart, hend, hlast⟩ := l.range_spec
  have hframes := l.frames_eq
  have hnum := l.numFrames_nonneg
  have hsplit : (l.times - 1) * l.frames = l.times * l.frames - l.frames := by ring
  have hrepeated : 0 ≤ l.times * l.frames := mul_nonneg htimes (by omega)
  rw [repeatedFrames]
  omega

end LoopArgs

/-- Arguments that pass the check of the constructor. -/
structure Loop extends LoopArgs where
  accepted : times < 0 ∨ 0 ≤ toLoopArgs.viNumFrames

namespace Loop

/-- `end` after the constructor. -/
def loopEnd (l : Loop) : ℤ :=
  if l.times < 0 then l.viNumFrames else i32 (i32 (l.start + i32 (l.times * l.frames)) - 1)

/-- The first sample of the loop. -/
def audStart (l : Loop) : ℤ :=
  if l.vi.hasVideo then l.vi.audioSamplesFromFrames l.start else 0

/-- The output end sample. -/
def audEnd (l : Loop) : ℤ :=
  if l.vi.hasVideo then i64 (l.vi.audioSamplesFromFrames (i32 (l.loopEnd + 1)) - 1)
  else if l.times < 0 then i64 (400000 * l.vi.audioSamplesPerSecond)
  else i64 (l.numAudioSamples * l.times)

/-- The length of each loop in samples. -/
def audCount (l : Loop) : ℤ :=
  if l.vi.hasVideo then l.vi.audioSamplesFromFrames l.frames else l.numAudioSamples

/-- The frame of the child. -/
def convert (l : Loop) (n : ℤ) : ℤ :=
  if l.loopEnd < n then i32 (i32 (i32 (i32 (n - l.loopEnd) + l.start) + l.frames) - 1)
  else if l.start ≤ n then i32 ((i32 (n - l.start)).tmod l.frames + l.start)
  else n

/-- How many samples one round of the loop of `Loop::GetAudio` reads from `getStart` on. -/
def getCount (l : Loop) (getStart start count : ℤ) : ℤ :=
  -- count to end of next iteration
  let getCount := i64 (l.audCount - i64 (getStart - l.audStart))
  let getCount :=
    -- loop(0) case
    if i64 (l.audEnd + 1) < i64 (getStart + getCount) then i64 (i64 (l.audEnd + 1) - getStart)
    -- if is last iteration do all of remainder
    else if l.audEnd < i64 (start + getCount) then count
    else getCount
  if count < getCount then count else getCount

/-- Where one round reads and how much; `none` stands for a division by zero. -/
def getBlock (l : Loop) (start count : ℤ) : Option (ℤ × ℤ) :=
  if l.audEnd < start then
    -- tail of clip
    some (i64 (i64 (i64 (l.audStart + l.audCount) + start) - i64 (l.audEnd + 1)), count)
  else if l.audStart < start then
    -- loop part of clip
    if l.audCount = 0 then none
    else
      let getStart := i64 ((i64 (start - l.audStart)).tmod l.audCount + l.audStart)
      some (getStart, l.getCount getStart start count)
  else
    -- head of clip
    some (start, l.getCount start start count)

/-- `GetAudio` into `buf` at `pos` in so many rounds at most; `none` if these are not enough or
a round divides by zero. -/
def getAudio (l : Loop) (child : ℤ → α) : ℕ → (ℤ → α) → ℤ → ℤ → ℤ → Option (ℤ → α)
  | 0, buf, _, _, count => if 0 < count then none else some buf
  | rounds + 1, buf, pos, start, count =>
    if 0 < count then
      (l.getBlock start count).bind fun (getStart, getCount) =>
        getAudio l child rounds (Buffer.copy buf pos child getStart getCount) (pos + getCount)
          (i64 (start + getCount)) (i64 (count - getCount))
    else some buf

/-- A request cut into consecutive pieces of the given counts. -/
def getPieces (l : Loop) (child : ℤ → α) (rounds : ℕ) (buf : ℤ → α) (pos start : ℤ) :
    List ℤ → Option (ℤ → α)
  | [] => some buf
  | count :: counts => (l.getAudio child rounds buf pos start count).bind fun buf =>
      l.getPieces child rounds buf (pos + count) (i64 (start + count)) counts

/-! ### What it is for -/

/-- The position in the child of a position in the result, where the range from `first` on of
the given length is repeated: forever if `times` is negative. -/
def sourceIndex (times first length p : ℤ) : ℤ :=
  if p < first then p
  else if times < 0 ∨ p < first + times * length then first + (p - first) % length
  else p - (times - 1) * length

/-- The frames are those of the child with the range repeated, and their number is exact. -/
def FramesExact (l : Loop) : Prop :=
  l.viNumFrames = (if l.times < 0 then 10000000 else l.numFrames + (l.times - 1) * l.frames) ∧
  ∀ n, 0 ≤ n → n < l.viNumFrames → l.convert n = sourceIndex l.times l.start l.frames n

/-- The request returns, in whichever pieces it is made, the samples of the child with the range
repeated. -/
def AudioExact (α : Type*) (l : Loop) (start count : ℤ) : Prop :=
  ∀ (child : ℤ → α) (buf : ℤ → α) (pos : ℤ) (counts : List ℤ), (∀ n ∈ counts, 0 ≤ n) →
    counts.sum = count → ∃ rounds, l.getPieces child rounds buf pos start counts =
      some (Buffer.copy buf pos
        (fun p => child (sourceIndex l.times l.audStart l.audCount p)) start count)

/-- The frames of a clip with video and the audio of one with audio. -/
def Exact (α : Type*) (l : Loop) (start count : ℤ) : Prop :=
  (l.vi.hasVideo = true → l.FramesExact) ∧
  (l.vi.audioSamplesPerSecond ≠ 0 → l.AudioExact α start count)

/-! ### Frames -/

variable {times first length p : ℤ}

theorem sourceIndex_head (h : p < first) : sourceIndex times first length p = p := if_pos h

theorem sourceIndex_loop (hfirst : first ≤ p) (h : times < 0 ∨ p < first + times * length) :
    sourceIndex times first length p = first + (p - first) % length := by
  rw [sourceIndex, if_neg (by omega), if_pos h]

theorem sourceIndex_tail (hfirst : first ≤ p) (htimes : 0 ≤ times)
    (h : first + times * length ≤ p) :
    sourceIndex times first length p = p - (times - 1) * length := by
  rw [sourceIndex, if_neg (by omega), if_neg (by omega)]

/-- If the frame count fits, so does the last repeated frame. -/
theorem loopEnd_eq (l : Loop) (htimes : 0 ≤ l.times) (hfits : l.repeatedFrames < 2 ^ 31) :
    l.loopEnd = l.start + l.times * l.frames - 1 := by
  obtain ⟨hstart, hend, hlast⟩ := l.range_spec
  have hframes := l.frames_eq
  have hlt := l.times_lt
  have hsplit : (l.times - 1) * l.frames = l.times * l.frames - l.frames := by ring
  rw [LoopArgs.repeatedFrames, hsplit] at hfits
  have hrepeated : 0 ≤ l.times * l.frames := mul_nonneg htimes (by omega)
  have hhigh : l.start + l.times * l.frames < 2 ^ 31 := by
    rcases lt_or_ge 0 l.numFrames with hsome | hnone
    · omega
    · have hone : l.frames = 1 := by omega
      rw [hone]
      omega
  rw [loopEnd, if_neg (by omega), i32_of_range (x := l.times * l.frames) (by omega) (by omega),
    i32_of_range (x := l.start + _) (by omega) (by omega), i32_of_range (by omega) (by omega)]

/-- Every frame of the result is the one that the repetition has there. -/
theorem convert_eq (l : Loop) (hfits : 0 ≤ l.times → l.repeatedFrames < 2 ^ 31) {n : ℤ}
    (hn : 0 ≤ n) (hlt : n < l.viNumFrames) :
    l.convert n = sourceIndex l.times l.start l.frames n := by
  obtain ⟨hstart, hend, hlast⟩ := l.range_spec
  have hframes := l.frames_eq
  have hnum := l.numFrames_lt
  have hbound : n < 2 ^ 31 - 1 := by
    have hmax : l.viNumFrames < 2 ^ 31 := by
      rw [LoopArgs.viNumFrames]
      split_ifs
      · decide
      · exact i32_lt _
    omega
  have hhead : n < l.start → sourceIndex l.times l.start l.frames n = n := sourceIndex_head
  have hloop : l.start ≤ n →
      i32 ((i32 (n - l.start)).tmod l.frames + l.start) = l.start + (n - l.start) % l.frames := by
    intro hge
    have hmod := Int.emod_lt_of_pos (n - l.start) (by omega : 0 < l.frames)
    have hmodpos := Int.emod_nonneg (n - l.start) (by omega : l.frames ≠ 0)
    rw [i32_of_range (x := n - l.start) (by omega) (by omega),
      Int.tmod_eq_emod_of_nonneg (by omega), i32_of_range (by omega) (by omega)]
    omega
  rw [convert]
  rcases lt_or_ge l.times 0 with hforever | htimes
  · have hloopEnd : l.loopEnd = l.viNumFrames := by rw [loopEnd, if_pos hforever]
    rw [if_neg (by omega)]
    split_ifs with hge
    · rw [hloop hge, sourceIndex_loop hge (Or.inl hforever)]
    · rw [hhead (by omega)]
  have hloopEnd := l.loopEnd_eq htimes (hfits htimes)
  have hsplit : (l.times - 1) * l.frames = l.times * l.frames - l.frames := by ring
  have hrepeated : 0 ≤ l.times * l.frames := mul_nonneg htimes (by omega)
  have hlow := l.neg_one_le_repeatedFrames htimes
  rw [l.viNumFrames_eq htimes, i32_of_range (by omega) (hfits htimes),
    LoopArgs.repeatedFrames] at hlt
  split_ifs with htail hge
  · -- after the last repetition
    rw [sourceIndex_tail (by omega) htimes (by omega)]
    have hwrap : i32 (i32 (i32 (i32 (n - l.loopEnd) + l.start) + l.frames) - 1) =
        i32 (n - l.loopEnd + l.start + l.frames - 1) := by
      simp only [i32, Int.bmod_add_bmod, Int.bmod_sub_bmod]
    rw [hwrap, hloopEnd, hsplit, i32_of_range (by omega) (by omega)]
    omega
  · rw [hloop hge, sourceIndex_loop hge (Or.inr (by omega))]
  · rw [hhead (by omega)]

/-- The frames are those of the repetition exactly if their number fits. -/
theorem framesExact_iff (l : Loop) :
    l.FramesExact ↔ l.times < 0 ∨ l.repeatedFrames < 2 ^ 31 := by
  constructor
  · rintro ⟨hcount, -⟩
    rcases lt_or_ge l.times 0 with hforever | htimes
    · exact Or.inl hforever
    · rw [if_neg (by omega), l.viNumFrames_eq htimes] at hcount
      have hlt := i32_lt l.repeatedFrames
      rw [LoopArgs.repeatedFrames] at hlt ⊢
      rw [LoopArgs.repeatedFrames] at hcount
      right
      omega
  · intro hfits
    refine ⟨?_, fun n hn hlt => l.convert_eq (by omega) hn hlt⟩
    rcases lt_or_ge l.times 0 with hforever | htimes
    · rw [LoopArgs.viNumFrames, if_pos hforever, if_pos hforever]
    · have hlow := l.neg_one_le_repeatedFrames htimes
      rw [if_neg (by omega), l.viNumFrames_eq htimes, i32_of_range (by omega) (by omega),
        LoopArgs.repeatedFrames]

end Loop

end AviSynth
