import AviSynth.Cache.AudioWindow
import AviSynth.Library.Runs
import Mathlib.Algebra.GroupWithZero.Nat

/-!
# Requests answered from the audio cache

A request is answered as the child would answer it, with silence where the
clip has no samples, whatever the window holds. The exception is a request whose
end does not fit into 64 bits: it is taken to lie before the clip.
-/

namespace AviSynth

open MachineInt AudioInfo

variable {α : Type} [Zero α]

/-- The sample at a position: the child's inside the clip, silence outside. A
clip whose sampling rate is 0 has no audio. -/
def AudioInfo.sampleAt (vi : AudioInfo) (child : ℤ → α) (pos : ℤ) : α :=
  if vi.HasAudio ∧ 0 ≤ pos ∧ pos < vi.numAudioSamples then child pos else 0

/-- The buffer a request for the clip's samples should leave. -/
def AudioInfo.filled (vi : AudioInfo) (child : ℤ → α) (buf : ℤ → α) (start count : ℤ) : ℤ → α :=
  Buffer.copy buf 0 (vi.sampleAt child) start count

/-- The end of the request does not fit into 64 bits although its start lies in
the clip. -/
def AudioInfo.Overflows (vi : AudioInfo) (start count : ℤ) : Prop :=
  vi.HasAudio ∧ start < vi.numAudioSamples ∧ 2 ^ 63 ≤ start + count
  deriving Decidable

namespace AudioCache

variable {vi : AudioInfo} {undef child : ℤ → α} {fault : Option (ℤ → α)} {c : AudioCache α}
  {buf : ℤ → α} {start count : ℤ}

/-- Cutting a request to the clip leaves a request inside the clip; filling that
one in gives the buffer asked for. -/
theorem cut_filled (child buf : ℤ → α) (hcount : 0 < count) (haudio : vi.HasAudio)
    (hstart : start < vi.numAudioSamples) (hend : 0 < start + count)
    (hexact : i64 (start + count) = start + count) :
    0 ≤ (cut vi buf start count).2.2.1 ∧ 0 ≤ (cut vi buf start count).2.2.2 ∧
      (cut vi buf start count).2.2.1 + (cut vi buf start count).2.2.2 ≤ vi.numAudioSamples ∧
      Buffer.copy (cut vi buf start count).1 (cut vi buf start count).2.1 child
          (cut vi buf start count).2.2.1 (cut vi buf start count).2.2.2 =
        vi.filled child buf start count := by
  have hnum := vi.num_nonneg
  have hexact' : i64 (0 + (count + start)) = start + count := by
    rw [Int.zero_add, Int.add_comm, hexact]
  by_cases hneg : start < 0
  · simp only [cut, hneg, if_true, hexact']
    split
    · refine ⟨Int.le_refl 0, by dsimp only; omega, by dsimp only; omega, ?_⟩
      funext i
      simp only [filled, sampleAt, fillAudioZeros, Buffer.copy]
      grind
    · refine ⟨Int.le_refl 0, by dsimp only; omega, by dsimp only; omega, ?_⟩
      funext i
      simp only [filled, sampleAt, fillAudioZeros, Buffer.copy]
      grind
  · simp only [cut, hneg, if_false, hexact]
    split
    · refine ⟨by dsimp only; omega, by dsimp only; omega, by dsimp only; omega, ?_⟩
      funext i
      simp only [filled, sampleAt, fillAudioZeros, Buffer.copy]
      grind
    · refine ⟨by dsimp only; omega, by dsimp only; omega, by dsimp only; omega, ?_⟩
      funext i
      simp only [filled, sampleAt, Buffer.copy]
      grind

/-- Cutting gives the part of the request inside the clip. -/
theorem cut_bounds (vi : AudioInfo) (buf : ℤ → α) (hexact : i64 (start + count) = start + count) :
    (cut vi buf start count).2.2.1 = max start 0 ∧
      (cut vi buf start count).2.2.2 = min (start + count) vi.numAudioSamples - max start 0 := by
  have hexact' : i64 (0 + (count + start)) = start + count := by
    rw [Int.zero_add, Int.add_comm, hexact]
  by_cases hneg : start < 0
  · simp only [cut, hneg, if_true, hexact']
    split <;> dsimp only <;> omega
  · simp only [cut, hneg, if_false, hexact]
    split <;> dsimp only <;> omega

/-- A request outside the clip asks for silence. -/
theorem filled_eq_zeros (h : ¬vi.HasAudio ∨ start + count ≤ 0 ∨ vi.numAudioSamples ≤ start) :
    vi.filled child buf start count = fillAudioZeros buf 0 count := by
  funext i
  simp only [filled, sampleAt, fillAudioZeros, Buffer.copy]
  grind

/-- The request restarts the window. -/
def Restarting (vi : AudioInfo) (undef : ℤ → α) (c : AudioCache α) (start count : ℤ) : Prop :=
  0 < count ∧ vi.HasAudio ∧ 0 < i64 (start + count) ∧ start < vi.numAudioSamples ∧
    restarts vi undef c (max start 0) (min (start + count) vi.numAudioSamples - max start 0) = true
  deriving Decidable

/-- One request keeps the window good, unless it restarts the window and the read
throws. If the child returns, the buffer has what was asked for, or silence
where the end of the request overflows. -/
theorem WindowHolds.getAudio (h : WindowHolds child c) (buf : ℤ → α) (hstart : IsInt64 start)
    (hcount : IsInt64 count) (hok : Restarting vi undef c start count → fault = none) :
    ∃ thrown buf' d, c.getAudio vi undef child fault buf start count = some (thrown, buf', d) ∧
      WindowHolds child d ∧ (fault = none → thrown = false) ∧
      (thrown = false → buf' = if vi.Overflows start count then fillAudioZeros buf 0 count
        else vi.filled child buf start count) := by
  obtain ⟨hlow, hhigh⟩ := hstart
  obtain ⟨hlow', hhigh'⟩ := hcount
  have hwrap : 2 ^ 63 ≤ start + count → i64 (start + count) ≤ 0 := fun hover => by
    rw [i64_of_overflow hover (by omega)]
    omega
  unfold AudioCache.getAudio
  by_cases hnothing : count ≤ 0
  · rw [if_pos hnothing]
    refine ⟨_, _, _, rfl, h, fun _ => rfl, fun _ => ?_⟩
    rw [if_neg (fun hover : vi.Overflows start count => by have := hover.2.2; omega)]
    funext i
    exact (Buffer.copy_outside (by omega)).symm
  rw [if_neg hnothing]
  by_cases hskip : ¬vi.HasAudio ∨ i64 (start + count) ≤ 0 ∨ start ≥ vi.numAudioSamples
  · rw [if_pos hskip]
    refine ⟨_, _, _, rfl, h, fun _ => rfl, fun _ => ?_⟩
    split
    · rfl
    · next hfits =>
      refine (filled_eq_zeros ?_).symm
      by_contra hinside
      simp only [not_or, not_not, Int.not_le] at hinside
      obtain ⟨haudio, hend, hstart⟩ := hinside
      have hexact : i64 (start + count) = start + count :=
        i64_of_range (by omega) (Int.not_le.mp fun hover => hfits ⟨haudio, hstart, hover⟩)
      rcases hskip with hsilent | hbefore | hbehind
      · exact hsilent haudio
      · omega
      · omega
  · rw [if_neg hskip]
    obtain ⟨haudio, hend, hinside⟩ : vi.HasAudio ∧ 0 < i64 (start + count) ∧
        start < vi.numAudioSamples := by
      simpa only [not_or, not_not, Int.not_le, ge_iff_le] using hskip
    have hexact : i64 (start + count) = start + count := i64_of_range (by omega) (by omega)
    obtain ⟨hcutStart, hcutCount⟩ := cut_bounds vi buf hexact
    obtain ⟨hpos, hnonneg, hle, hfills⟩ := cut_filled child buf (Int.not_le.mp hnothing)
      haudio hinside (by omega) hexact
    have hnum := vi.num_int64.2
    have hcalm : restarts vi undef c (cut vi buf start count).2.2.1
        (cut vi buf start count).2.2.2 = true → fault = none := by
      rw [hcutStart, hcutCount]
      exact fun hrestart => hok ⟨Int.not_le.mp hnothing, haudio, hend, hinside, hrestart⟩
    obtain ⟨thrown, buf', d, hserve, hgood, hreturns, hshown⟩ :=
      h.serve (cut vi buf start count).1 (cut vi buf start count).2.1 hpos hnonneg (by omega) hcalm
    refine ⟨thrown, buf', d, hserve, hgood, hreturns, fun hdone => ?_⟩
    rw [if_neg (fun hover : vi.Overflows start count => by have := hwrap hover.2.2; omega),
      hshown hdone, hfills]

end AudioCache

/-!
## Runs of the audio cache

Requests and hints in any order. With a child that never throws, the cache is
transparent as long as no request overflows. With a child that throws, the
window stays good as long as it does not throw in a restart: the requests after
that see the samples which the read never delivered.
-/

open Transition

variable {α : Type}

/-- What happens to the audio cache of a clip. -/
inductive AudioAction (α : Type) where
  /-- A call of `GetAudio` on a buffer; with `fault`, the child's call throws. -/
  | request (fault : Option (ℤ → α)) (buf : ℤ → α) (start count : ℤ)
  /-- A call of `SetCacheHints` that sets the audio policy. -/
  | hint (cachehints : AudioPolicy) (frameRange : ℤ)

/-- What a step makes observable. -/
inductive AudioEvent (α : Type) where
  | answered (buf : ℤ → α) (start count : ℤ) (thrown : Bool) (buf' : ℤ → α)
  | hinted

namespace AudioCache

/-- The child does not throw. -/
def NeverThrows : AudioAction α → Prop
  | .request fault _ _ _ => fault.isNone = true
  | .hint _ _ => True

variable [Zero α]

/-- One call. Its arguments are 64-bit and 32-bit integers. -/
def step (vi : AudioInfo) (undef child : ℤ → α) (c : AudioCache α) :
    AudioAction α → Option (AudioCache α × AudioEvent α)
  | .request fault buf start count =>
    if IsInt64 start ∧ IsInt64 count then
      (c.getAudio vi undef child fault buf start count).map fun (thrown, buf', d) =>
        (d, .answered buf start count thrown buf')
    else none
  | .hint cachehints frameRange =>
    some (c.setCacheHints vi undef cachehints (i32 frameRange), .hinted)

/-- The end of the request overflows. -/
def Overflowing (vi : AudioInfo) : AudioAction α → Prop
  | .request _ _ start count => vi.Overflows start count
  | .hint _ _ => False

/-- The request restarts the window and the child throws. -/
def ThrowsInRestart (vi : AudioInfo) (undef : ℤ → α) (c : AudioCache α) : AudioAction α → Prop
  | .request fault _ start count => fault.isSome = true ∧ Restarting vi undef c start count
  | .hint _ _ => False

instance (a : AudioAction α) : Decidable (NeverThrows a) :=
  match a with
  | .request fault _ _ _ => inferInstanceAs (Decidable (fault.isNone = true))
  | .hint _ _ => isTrue trivial

instance (vi : AudioInfo) (a : AudioAction α) : Decidable (Overflowing vi a) :=
  match a with
  | .request _ _ start count => inferInstanceAs (Decidable (vi.Overflows start count))
  | .hint _ _ => isFalse id

instance (vi : AudioInfo) (undef : ℤ → α) (c : AudioCache α) (a : AudioAction α) :
    Decidable (ThrowsInRestart vi undef c a) :=
  match a with
  | .request fault _ start count =>
    inferInstanceAs (Decidable (fault.isSome = true ∧ Restarting vi undef c start count))
  | .hint _ _ => isFalse id

/-- A request is answered, with exactly what was asked for. -/
def Transparent (vi : AudioInfo) (child : ℤ → α) : AudioEvent α → Prop
  | .answered buf start count thrown buf' =>
    thrown = false ∧ buf' = vi.filled child buf start count
  | .hinted => True

/-- A request that is answered hands out samples of the child and silence only. -/
def NothingUnread (child : ℤ → α) : AudioEvent α → Prop
  | .answered _ start count thrown buf' =>
    thrown = false → ∀ i, 0 ≤ i → i < count → buf' i = child (start + i) ∨ buf' i = 0
  | .hinted => True

variable {vi : AudioInfo} {undef child : ℤ → α} {c d : AudioCache α} {a : AudioAction α}
  {e : AudioEvent α}

/-- A step that does not throw in a restart keeps the window good. What it hands
out is right unless the child throws or the request overflows, and never unread. -/
theorem WindowHolds.step (h : WindowHolds child c) (hok : ¬ThrowsInRestart vi undef c a)
    (hstep : AudioCache.step vi undef child c a = some (d, e)) :
    WindowHolds child d ∧ (NeverThrows a → ¬Overflowing vi a → Transparent vi child e) ∧
      NothingUnread child e := by
  cases a with
  | hint cachehints frameRange =>
    simp only [AudioCache.step, Option.some.injEq, Prod.mk.injEq] at hstep
    obtain ⟨rfl, rfl⟩ := hstep
    exact ⟨h.setCacheHints cachehints (i32_lt _), fun _ _ => trivial, trivial⟩
  | request fault buf start count =>
    simp only [AudioCache.step, Option.ite_none_right_eq_some] at hstep
    obtain ⟨⟨hstart, hcount⟩, hstep⟩ := hstep
    have hfault : Restarting vi undef c start count → fault = none := fun hrestart =>
      Option.not_isSome_iff_eq_none.mp fun hsome => hok ⟨hsome, hrestart⟩
    obtain ⟨thrown, buf', c', hget, hgood, hreturns, hshown⟩ := h.getAudio buf hstart hcount
      hfault
    simp only [hget, Option.map_some, Option.some.injEq, Prod.mk.injEq] at hstep
    obtain ⟨rfl, rfl⟩ := hstep
    refine ⟨hgood, fun hnever hfits => ?_, fun hdone i hi hin => ?_⟩
    · have hdone := hreturns (Option.isNone_iff_eq_none.mp hnever)
      exact ⟨hdone, (hshown hdone).trans (if_neg hfits)⟩
    · rw [hshown hdone]
      split
      · exact Or.inr (if_pos (by omega))
      · simp only [filled, Buffer.copy, sampleAt]
        grind

/-- With a child that never throws and no overflow, every request in every run
is answered, and with exactly the samples asked for. -/
theorem audioCache_transparent (vi : AudioInfo) (undef child : ℤ → α)
    {history : List (AudioEvent α)}
    (hrun : Run (step vi undef child) (fun _ a => NeverThrows a ∧ ¬Overflowing vi a)
      (AudioCache.new vi undef) history c) :
    AllEvents (fun _ e => Transparent vi child e) history ∧
      ∀ buf start count, IsInt64 start → IsInt64 count →
        (step vi undef child c (.request none buf start count)).isSome := by
  have hcalm : ∀ {c : AudioCache α} {a : AudioAction α}, NeverThrows a →
      ¬ThrowsInRestart vi undef c a := by
    intro c a hnever hthrows
    cases a with
    | hint => exact hthrows
    | request fault =>
      have hnone : fault.isNone = true := hnever
      exact absurd hthrows.1 (by simp [Option.isNone_iff_eq_none.mp hnone])
  constructor
  · exact hrun.allEvents (fun _ => WindowHolds child) .new fun hgood hok hstep =>
      have hnext := hgood.step (hcalm hok.1) hstep
      ⟨hnext.1, hnext.2.1 hok.1 hok.2⟩
  · intro buf start count hstart hcount
    have hgood := hrun.invariant (fun _ => WindowHolds child) .new fun hgood hok hstep =>
      (hgood.step (hcalm hok.1) hstep).1
    obtain ⟨_, _, _, hget, _⟩ := hgood.getAudio buf hstart hcount
      fun _ : Restarting vi undef c start count => (rfl : (none : Option (ℤ → α)) = none)
    simp only [AudioCache.step, hstart, hcount, and_self, if_true, hget, Option.map_some,
      Option.isSome_some]

/-- A clip of 100 eight-bit samples. -/
def shortClip : AudioInfo :=
  ⟨1, 100, 1, Int.natCast_nonneg _, by decide, fun _ => Int.zero_lt_one⟩

/-- A clip of as many eight-bit samples as 64 bits allow. -/
def longestClip : AudioInfo :=
  ⟨1, 2 ^ 63 - 1, 1, by decide, by decide, fun _ => Int.zero_lt_one⟩

/-- What the latest event put at the start of its buffer, if it is an answer. -/
def latestSample : List (AudioEvent ℤ) → Option ℤ
  | .answered _ _ _ false buf' :: _ => some (buf' 0)
  | _ => none

/-- Two requests to a cached clip of 100 samples, the second partly behind it. -/
theorem audioCache_transparent_shift : ∃ history : List (AudioEvent ℤ),
    latestSample history = some 90 ∧
      AllEvents (fun _ e => Transparent shortClip id e) history := by
  obtain ⟨history, c, hrun, hlatest⟩ := exists_run (step shortClip (fun _ => 9) id)
    (fun _ a => NeverThrows a ∧ ¬Overflowing shortClip a) (AudioCache.new shortClip fun _ => 9)
    [.hint .audio 64, .request none (fun _ => 7) 40 60, .request none (fun _ => 7) 90 20]
    (fun history _ => latestSample history = some 90) (by decide)
  exact ⟨history, of_decide_eq_true hlatest, (audioCache_transparent _ _ _ hrun).1⟩

/-- The only event answers a request that ends ten samples behind the longest clip,
and starts with silence. -/
def answersSilence : List (AudioEvent ℤ) → Bool
  | [.answered _ start count _ buf'] => start = 2 ^ 63 - 10 ∧ count = 20 ∧ buf' 0 = 0
  | _ => false

/-- In the longest clip, a request for its last samples that also reaches behind
them is answered with silence throughout. -/
theorem audioCache_silentAtEnd :
    ¬∀ (vi : AudioInfo) (undef child : ℤ → ℤ) (history : List (AudioEvent ℤ)) (c : AudioCache ℤ),
      Run (step vi undef child) (fun _ a => NeverThrows a) (AudioCache.new vi undef) history c →
        AllEvents (fun _ e => Transparent vi child e) history := by
  intro h
  obtain ⟨history, c, hrun, hlatest⟩ := exists_run
    (step longestClip (fun _ => (9 : ℤ)) (fun _ => 5)) (fun _ a => NeverThrows a)
    (AudioCache.new longestClip fun _ => 9)
    [.request none (fun _ => 7) (2 ^ 63 - 10) 20]
    (fun history _ => answersSilence history) (by decide)
  have hfilled := h longestClip _ _ _ _ hrun
  unfold answersSilence at hlatest
  split at hlatest
  · next buf start count thrown buf' =>
    obtain ⟨rfl, rfl, hzero⟩ : start = 2 ^ 63 - 10 ∧ count = 20 ∧ buf' 0 = 0 := by
      simpa using hlatest
    rw [hfilled.1.2] at hzero
    simp [filled, sampleAt, HasAudio, Buffer.copy, longestClip]
      at hzero
  · cases hlatest

/-- In every run in which the child never throws in a restart, the window holds
the child's samples after every call, and no request is answered with samples
that were never read. -/
theorem audioWindow_holds (vi : AudioInfo) (undef child : ℤ → α) {history : List (AudioEvent α)}
    (hrun : Run (step vi undef child) (fun c a => ¬ThrowsInRestart vi undef c a)
      (AudioCache.new vi undef) history c) :
    WindowHolds child c ∧ AllEvents (fun _ e => NothingUnread child e) history := by
  constructor
  · exact hrun.invariant (fun _ => WindowHolds child) .new fun hgood hok hstep =>
      (hgood.step hok hstep).1
  · exact hrun.allEvents (fun _ => WindowHolds child) .new fun hgood hok hstep =>
      have hnext := hgood.step hok hstep
      ⟨hnext.1, hnext.2.2⟩

/-- The child throws while the window is extended; the next request reads on. -/
theorem audioWindow_holds_extend : ∃ history : List (AudioEvent ℤ),
    latestSample history = some 10 ∧ AllEvents (fun _ e => NothingUnread id e) history := by
  obtain ⟨history, c, hrun, hlatest⟩ := exists_run (step shortClip (fun _ => 9) id)
    (fun c a => ¬ThrowsInRestart shortClip (fun _ => 9) c a) (AudioCache.new shortClip fun _ => 9)
    [.hint .audio 64, .request none (fun _ => 7) 0 16,
      .request (some fun _ => 3) (fun _ => 7) 10 20, .request none (fun _ => 7) 10 20]
    (fun history _ => latestSample history = some 10) (by decide)
  exact ⟨history, of_decide_eq_true hlatest, (audioWindow_holds _ _ _ hrun).2⟩

/-- The child throws in a restart of the window. The same request again is then
answered from the window, with what the failed read left there. -/
theorem audioWindow_unreadAfterRestart :
    ¬∀ (vi : AudioInfo) (undef child : ℤ → ℤ) (history : List (AudioEvent ℤ)) (c : AudioCache ℤ),
      Run (step vi undef child) always (AudioCache.new vi undef) history c →
        WindowHolds child c ∧ AllEvents (fun _ e => NothingUnread child e) history := by
  intro h
  obtain ⟨history, c, hrun, hlatest⟩ := exists_run
    (step shortClip (fun _ => 9) (fun _ => 5)) always (AudioCache.new shortClip fun _ => 9)
    [.hint .audio 64, .request (some fun _ => 3) (fun _ => 7) 80 10,
      .request none (fun _ => 7) 80 10]
    (fun history c => latestSample history = some 3 ∧ c.cacheCount = 10 ∧ c.audioCache 0 = 3)
    (by decide)
  obtain ⟨_, hcount, hunread⟩ : latestSample history = some 3 ∧ c.cacheCount = 10 ∧
      c.audioCache 0 = 3 := of_decide_eq_true hlatest
  have hshows := (h _ _ _ _ _ hrun).1.shows 0 (Int.le_refl 0) (by omega)
  rw [Int.zero_add, hunread] at hshows
  cases hshows

end AudioCache

end AviSynth
