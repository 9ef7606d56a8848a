import AviSynth.Filters.AudioGraph
import Mathlib.Algebra.Order.BigOperators.Group.List
import Mathlib.Algebra.Order.Group.Int

/-!
# Requests in pieces

Within 64-bit positions, a clip delivers for a request the samples at the
positions that are asked for, whichever way its filters cut the request. So a
request can be made in consecutive pieces.
-/

namespace AviSynth

open MachineInt

variable {α : Type*}

/-! ### The loop of `Reverse` -/

/-- After some rounds the outer cells have changed places and the inner ones have not. -/
theorem swapEnds_apply (pos count : ℤ) (buf : ℤ → α) {rounds : ℕ} (h : 2 * (rounds : ℤ) ≤ count)
    (i : ℤ) :
    swapEnds pos count buf rounds i =
      if (pos ≤ i ∧ i < pos + rounds) ∨ (pos + count - rounds ≤ i ∧ i < pos + count) then
        buf (2 * pos + count - 1 - i)
      else buf i := by
  induction rounds generalizing i with
  | zero =>
    rw [swapEnds, if_neg]
    omega
  | succ rounds ih =>
    have ih := ih (by omega)
    simp only [swapEnds, swapSamples, ih]
    by_cases hleft : i = pos + rounds
    · rw [if_pos hleft, if_neg (by omega), if_pos (by omega)]
      congr 1
      omega
    by_cases hright : i = pos + (count - 1 - rounds)
    · rw [if_neg hleft, if_pos hright, if_neg (by omega), if_pos (by omega)]
      congr 1
      omega
    rw [if_neg hleft, if_neg hright]
    push_cast
    split_ifs with hout hout' hout'
    · rfl
    · omega
    · omega
    · rfl

/-- The loop turns a block around. -/
theorem swapEnds_copy (pos count : ℤ) (buf src : ℤ → α) (start : ℤ) (hcount : 0 ≤ count) :
    swapEnds pos count (Buffer.copy buf pos src start count) (count.tdiv 2).toNat =
      Buffer.copy buf pos (fun i => src (start + (count - 1 - i))) 0 count := by
  have hhalf : count.tdiv 2 = count / 2 := Int.tdiv_eq_ediv_of_nonneg hcount
  funext i
  rw [swapEnds_apply pos count _ (by omega)]
  simp only [Buffer.copy]
  by_cases hblock : pos ≤ i ∧ i < pos + count
  · rw [if_pos hblock, if_pos (by omega : pos ≤ 2 * pos + count - 1 - i ∧
      2 * pos + count - 1 - i < pos + count)]
    split_ifs with hout
    · congr 1
      omega
    · -- the middle cell of an odd number of them
      congr 1
      omega
  · rw [if_neg (by omega), if_neg hblock, if_neg hblock]

namespace AudioClip

/-! ### Requests that fit -/

/-- A request of no samples always fits. -/
theorem Fits.zero (clip : AudioClip α) {start : ℤ} (hstart : IsInt64 start) :
    clip.Fits start 0 := by
  induction clip generalizing start with
  | source samples => trivial
  | splice audioSwitchoverPoint child child2 ih ih2 =>
    have hhigh := hstart.2
    refine ⟨by omega, fun h => ?_, fun h => ?_⟩
    · rw [show min (start + 0) audioSwitchoverPoint - start = 0 by omega]
      exact ih hstart
    · rw [show start + 0 - max start audioSwitchoverPoint = 0 by omega]
      exact ih2 (isInt64_i64 _)
  | applyRange first last vi1 filtered unfiltered ihf ihu =>
    have hhigh := hstart.2
    refine ⟨by omega, by omega, fun h => ?_, fun h => ?_, fun h => ?_⟩
    · rw [show min (start + 0) (startSwitch first vi1) - start = 0 by omega]
      exact ihu hstart
    · rw [show max start (endSwitch last vi1) = start by omega,
        show start + 0 - start = 0 by omega]
      exact ihu hstart
    · omega
  | trim audioOffset child ih => exact ih (isInt64_i64 _)
  | reverse numAudioSamples child ih => exact ih (isInt64_i64 _)
  | convertAudio channels convert tempbuffer child ih =>
    intro h
    omega

/-- A request within one that fits, fits. -/
theorem Fits.part {clip : AudioClip α} {start count skip n : ℤ} (hfits : clip.Fits start count)
    (hstart : IsInt64 start) (hskip : 0 ≤ skip) (hn : 0 ≤ n) (hin : skip + n ≤ count) :
    clip.Fits (i64 (start + skip)) n := by
  induction clip generalizing start count skip n with
  | source samples => trivial
  | splice audioSwitchoverPoint child child2 ih ih2 =>
    obtain ⟨hend, hfirst, hsecond⟩ := hfits
    obtain ⟨hlow, hhigh⟩ := hstart
    rw [i64_of_range (by omega) (by omega)]
    refine ⟨by omega, fun h => ?_, fun h => ?_⟩
    · have hpart : child.Fits (i64 (start + skip))
          (min (start + skip + n) audioSwitchoverPoint - (start + skip)) :=
        ih (hfirst (by omega)) ⟨hlow, hhigh⟩ hskip (by omega) (by omega)
      rwa [i64_of_range (by omega) (by omega)] at hpart
    · have hturns := dvd_i64_sub (max start audioSwitchoverPoint - audioSwitchoverPoint)
      have hpart : child2.Fits (i64 (i64 (max start audioSwitchoverPoint - audioSwitchoverPoint) +
            (max (start + skip) audioSwitchoverPoint - max start audioSwitchoverPoint)))
          (start + skip + n - max (start + skip) audioSwitchoverPoint) :=
        ih2 (hsecond (by omega)) (isInt64_i64 _) (by omega) (by omega) (by omega)
      rwa [i64_congr (y := max (start + skip) audioSwitchoverPoint - audioSwitchoverPoint)
        (by omega)] at hpart
  | applyRange first last vi1 filtered unfiltered ihf ihu =>
    obtain ⟨hend, horder, hbefore, hafter, hmiddle⟩ := hfits
    obtain ⟨hlow, hhigh⟩ := hstart
    rw [i64_of_range (by omega) (by omega)]
    refine ⟨by omega, by omega, fun h => ?_, fun h => ?_, fun h => ?_⟩
    · have hpart : unfiltered.Fits (i64 (start + skip))
          (min (start + skip + n) (startSwitch first vi1) - (start + skip)) :=
        ihu (hbefore (by omega)) ⟨hlow, hhigh⟩ hskip (by omega) (by omega)
      rwa [i64_of_range (by omega) (by omega)] at hpart
    · have hpart : unfiltered.Fits (i64 (max start (endSwitch last vi1) +
            (max (start + skip) (endSwitch last vi1) - max start (endSwitch last vi1))))
          (start + skip + n - max (start + skip) (endSwitch last vi1)) :=
        ihu (hafter (by omega)) ⟨by omega, by omega⟩ (by omega) (by omega) (by omega)
      rwa [i64_of_range (by omega) (by omega), add_sub_cancel] at hpart
    · have hpart : filtered.Fits (i64 (max start (startSwitch first vi1) +
            (max (start + skip) (startSwitch first vi1) - max start (startSwitch first vi1))))
          (min (start + skip + n) (endSwitch last vi1) -
            max (start + skip) (startSwitch first vi1)) :=
        ihf (hmiddle (by omega)) ⟨by omega, by omega⟩ (by omega) (by omega) (by omega)
      rwa [i64_of_range (by omega) (by omega), add_sub_cancel] at hpart
  | trim audioOffset child ih =>
    have hpart : child.Fits (i64 (i64 (start + audioOffset) + skip)) n :=
      ih hfits (isInt64_i64 _) hskip hn hin
    have hturns := dvd_i64_sub (start + audioOffset)
    have hturns2 := dvd_i64_sub (start + skip)
    rw [Fits]
    rwa [i64_congr (y := i64 (start + skip) + audioOffset) (by omega)] at hpart
  | reverse numAudioSamples child ih =>
    -- the part comes from the other end of the child's samples
    have hpart : child.Fits (i64 (i64 (i64 (numAudioSamples - start) - count) +
        (count - skip - n))) n :=
      ih hfits (isInt64_i64 _) (by omega) hn (by omega)
    have hturns := dvd_i64_sub (i64 (numAudioSamples - start) - count)
    have hturns2 := dvd_i64_sub (numAudioSamples - start)
    have hturns3 := dvd_i64_sub (numAudioSamples - i64 (start + skip))
    have hturns4 := dvd_i64_sub (start + skip)
    rw [Fits]
    rwa [i64_congr (y := i64 (numAudioSamples - i64 (start + skip)) - n) (by omega)] at hpart
  | convertAudio channels convert tempbuffer child ih =>
    intro h
    obtain ⟨hchannels, hlimit, hchild⟩ := hfits (by omega)
    exact ⟨hchannels, by omega, ih hchild hstart hskip hn hin⟩

/-! ### What a request delivers -/

/-- The request delivers the samples at its positions, into any buffer. -/
def Delivers (clip : AudioClip α) (start count : ℤ) : Prop :=
  ∀ buf pos, clip.getAudio buf pos start count =
    some (Buffer.copy buf pos (fun i => clip.audioAt (i64 i)) start count)

/-- Where a clip sounds like its child, it can leave a request to the child. -/
theorem Delivers.handOn {child : AudioClip α} {start count shift : ℤ}
    (hchild : child.Delivers (i64 (start - shift)) count) (clip : AudioClip α)
    (hsame : ∀ i, 0 ≤ i → i < count →
      clip.audioAt (i64 (start + i)) = child.audioAt (i64 (start + i - shift)))
    (buf : ℤ → α) (pos : ℤ) :
    child.getAudio buf pos (i64 (start - shift)) count =
      some (Buffer.copy buf pos (fun i => clip.audioAt (i64 i)) start count) := by
  rw [hchild]
  congr 1
  apply Buffer.copy_congr
  intro i hi hin
  have hturns := dvd_i64_sub (start - shift)
  rw [hsame i hi hin, i64_congr (y := start + i - shift) (by omega)]

/-- The same without a shift. -/
theorem Delivers.handOn_same {child : AudioClip α} {start count : ℤ}
    (hchild : child.Delivers start count) (clip : AudioClip α)
    (hsame : ∀ i, 0 ≤ i → i < count →
      clip.audioAt (i64 (start + i)) = child.audioAt (i64 (start + i)))
    (buf : ℤ → α) (pos : ℤ) :
    child.getAudio buf pos start count =
      some (Buffer.copy buf pos (fun i => clip.audioAt (i64 i)) start count) := by
  rw [hchild]
  congr 1
  exact Buffer.copy_congr fun i hi hin => (hsame i hi hin).symm

/-- The request of `Splice`, from what its children deliver. -/
theorem splice_delivers {audioSwitchoverPoint start count : ℤ} {child child2 : AudioClip α}
    (hstart : IsInt64 start) (hcount : 0 ≤ count) (hsize : count < 2 ^ 63)
    (hend : start + count < 2 ^ 63)
    (hfirst : start ≤ audioSwitchoverPoint →
      child.Delivers start (min (start + count) audioSwitchoverPoint - start))
    (hsecond : audioSwitchoverPoint ≤ start + count →
      child2.Delivers (i64 (max start audioSwitchoverPoint - audioSwitchoverPoint))
        (start + count - max start audioSwitchoverPoint)) :
    (splice audioSwitchoverPoint child child2).Delivers start count := by
  obtain ⟨hlow, hhigh⟩ := hstart
  intro buf pos
  rw [getAudio, i64_of_range (x := start + count) (by omega) (by omega)]
  by_cases hbefore : start + count ≤ audioSwitchoverPoint
  · rw [if_pos hbefore]
    have hchild := hfirst (by omega)
    rw [show min (start + count) audioSwitchoverPoint - start = count by omega] at hchild
    apply hchild.handOn_same
    intro i hi hin
    rw [audioAt, i64_of_range (by omega) (by omega), if_pos (by omega)]
  rw [if_neg hbefore]
  by_cases hafter : audioSwitchoverPoint ≤ start
  · rw [if_pos hafter]
    have hchild := hsecond (by omega)
    rw [show max start audioSwitchoverPoint = start by omega,
      show start + count - start = count by omega] at hchild
    apply hchild.handOn
    intro i hi hin
    rw [audioAt, i64_of_range (x := start + i) (by omega) (by omega), if_neg (by omega)]
  rw [if_neg hafter]
  -- the request goes over the switch
  have hchild := hfirst (by omega)
  have hchild2 := hsecond (by omega)
  rw [show min (start + count) audioSwitchoverPoint = audioSwitchoverPoint by omega] at hchild
  rw [show max start audioSwitchoverPoint = audioSwitchoverPoint by omega] at hchild2
  simp only [i64_of_range (x := audioSwitchoverPoint - start) (by omega) (by omega),
    i64_of_range (x := count - (audioSwitchoverPoint - start)) (by omega) (by omega)]
  rw [hchild.handOn_same (splice audioSwitchoverPoint child child2), Option.bind_some]
  · rw [show (0 : ℤ) = i64 (audioSwitchoverPoint - audioSwitchoverPoint) by
        rw [Int.sub_self, i64_of_range (by omega) (by omega)],
      show count - (audioSwitchoverPoint - start) = start + count - audioSwitchoverPoint by omega,
      hchild2.handOn (splice audioSwitchoverPoint child child2)]
    · have happend := Buffer.copy_append buf pos
        (fun i => (splice audioSwitchoverPoint child child2).audioAt (i64 i)) start
        (m := audioSwitchoverPoint - start) (n := start + count - audioSwitchoverPoint)
        (by omega) (by omega)
      rw [show start + (audioSwitchoverPoint - start) = audioSwitchoverPoint by omega,
        show audioSwitchoverPoint - start + (start + count - audioSwitchoverPoint) = count
          by omega] at happend
      rw [happend]
    · intro i hi hin
      rw [audioAt, i64_of_range (x := audioSwitchoverPoint + i) (by omega) (by omega),
        if_neg (by omega)]
  · intro i hi hin
    rw [audioAt, i64_of_range (by omega) (by omega), if_pos (by omega)]

/-- The request of `ApplyRange`, from what its children deliver. -/
theorem applyRange_delivers {first last start count : ℤ} {vi1 : AudioRate}
    {filtered unfiltered : AudioClip α} (hstart : IsInt64 start) (hcount : 0 ≤ count)
    (hsize : count < 2 ^ 63) (hend : start + count < 2 ^ 63)
    (horder : startSwitch first vi1 ≤ endSwitch last vi1 ∨ start + count ≤ startSwitch first vi1 ∨
      endSwitch last vi1 ≤ start)
    (hbefore : start ≤ startSwitch first vi1 →
      unfiltered.Delivers start (min (start + count) (startSwitch first vi1) - start))
    (hafter : endSwitch last vi1 ≤ start + count →
      unfiltered.Delivers (max start (endSwitch last vi1))
        (start + count - max start (endSwitch last vi1)))
    (hmiddle : max start (startSwitch first vi1) ≤ min (start + count) (endSwitch last vi1) →
      filtered.Delivers (max start (startSwitch first vi1))
        (min (start + count) (endSwitch last vi1) - max start (startSwitch first vi1))) :
    (applyRange first last vi1 filtered unfiltered).Delivers start count := by
  obtain ⟨hlow, hhigh⟩ := hstart
  intro buf pos
  have hunfiltered {p : ℤ} (h : p < startSwitch first vi1 ∨ endSwitch last vi1 ≤ p) :
      (applyRange first last vi1 filtered unfiltered).audioAt p = unfiltered.audioAt p := by
    rw [audioAt, if_neg (by omega)]
  have hfiltered {p : ℤ} (h : startSwitch first vi1 ≤ p) (h' : p < endSwitch last vi1) :
      (applyRange first last vi1 filtered unfiltered).audioAt p = filtered.audioAt p := by
    rw [audioAt, if_pos ⟨h, h'⟩]
  rw [getAudio]
  generalize startSwitch first vi1 = startSwitch at *
  generalize endSwitch last vi1 = endSwitch at *
  simp only [i64_of_range (x := start + count) (by omega) (by omega)]
  by_cases houtside : start + count ≤ startSwitch ∨ endSwitch ≤ start
  · rw [if_pos houtside]
    have hchild : unfiltered.Delivers start count := by
      rcases houtside with h | h
      · have hchild := hbefore (by omega)
        rwa [show min (start + count) startSwitch - start = count by omega] at hchild
      · have hchild := hafter (by omega)
        rwa [show max start endSwitch = start by omega,
          show start + count - start = count by omega] at hchild
    apply hchild.handOn_same
    intro i hi hin
    apply hunfiltered
    rw [i64_of_range (by omega) (by omega)]
    omega
  rw [if_neg houtside]
  by_cases hinside : start < startSwitch ∨ endSwitch < start + count
  · rw [if_pos hinside]
    have horder : startSwitch ≤ endSwitch := by omega
    set clip := applyRange first last vi1 filtered unfiltered
    set middle := max start startSwitch with hmid
    set after := min (start + count) endSwitch with haft
    -- the bit before
    have hpre : (if start < startSwitch then i64 (startSwitch - start) else 0) =
        middle - start := by
      split_ifs with h
      · rw [i64_of_range (by omega) (by omega)]
        omega
      · omega
    have hfirst : (if start < startSwitch then unfiltered.getAudio buf pos start (middle - start)
        else some buf) =
        some (Buffer.copy buf pos (fun i => clip.audioAt (i64 i)) start (middle - start)) := by
      split_ifs with h
      · have hchild := hbefore (by omega)
        rw [show min (start + count) startSwitch = middle by omega] at hchild
        apply hchild.handOn_same
        intro i hi hin
        apply hunfiltered
        rw [i64_of_range (by omega) (by omega)]
        omega
      · rw [Buffer.copy_empty _ _ _ _ (by omega)]
    rw [hpre, hfirst, Option.bind_some]
    have hposition : i64 (start + (middle - start)) = middle := by
      rw [i64_of_range (by omega) (by omega)]
      omega
    have hrest : i64 (count - (middle - start)) = start + count - middle := by
      rw [i64_of_range (by omega) (by omega)]
      omega
    rw [hposition, hrest]
    -- the bit in the middle
    have hfilt : (if endSwitch < i64 (middle + (start + count - middle)) then
        i64 (endSwitch - middle) else start + count - middle) = after - middle := by
      rw [i64_of_range (x := middle + (start + count - middle)) (by omega) (by omega)]
      split_ifs with h
      · rw [i64_of_range (by omega) (by omega)]
        omega
      · omega
    have hsecond := (hmiddle (by omega)).handOn_same clip (by
      intro i hi hin
      rw [i64_of_range (by omega) (by omega)]
      exact hfiltered (by omega) (by omega))
    rw [hfilt, hsecond, Option.bind_some]
    have happend := Buffer.copy_append buf pos (fun i => clip.audioAt (i64 i)) start
      (m := middle - start) (n := after - middle) (by omega) (by omega)
    rw [show start + (middle - start) = middle by omega,
      show middle - start + (after - middle) = after - start by omega] at happend
    rw [happend]
    -- the bit after
    have hposition : i64 (middle + (after - middle)) = after := by
      rw [i64_of_range (by omega) (by omega)]
      omega
    have hrest : i64 (start + count - middle - (after - middle)) = start + count - after := by
      rw [i64_of_range (by omega) (by omega)]
      omega
    rw [hposition, hrest]
    split_ifs with h
    · have hchild := hafter (by omega)
      rw [show max start endSwitch = after by omega] at hchild
      rw [hchild.handOn_same clip]
      · have happend := Buffer.copy_append buf pos (fun i => clip.audioAt (i64 i)) start
          (m := after - start) (n := start + count - after) (by omega) (by omega)
        rw [show start + (after - start) = after by omega,
          show after - start + (start + count - after) = count by omega,
          show pos + (after - start) = pos + (middle - start) + (after - middle) by omega]
          at happend
        rw [happend]
      · intro i hi hin
        apply hunfiltered
        rw [i64_of_range (by omega) (by omega)]
        omega
    · rw [show after - start = count by omega]
  · rw [if_neg hinside]
    have hchild := hmiddle (by omega)
    rw [show max start startSwitch = start by omega,
      show min (start + count) endSwitch - start = count by omega] at hchild
    apply hchild.handOn_same
    intro i hi hin
    rw [i64_of_range (by omega) (by omega)]
    exact hfiltered (by omega) (by omega)

/-- A request that fits delivers the samples at its positions. -/
theorem Fits.delivers {clip : AudioClip α} {start count : ℤ} (hfits : clip.Fits start count)
    (hstart : IsInt64 start) (hcount : 0 ≤ count) (hsize : count < 2 ^ 63) :
    clip.Delivers start count := by
  induction clip generalizing start count with
  | source samples =>
    intro buf pos
    rfl
  | splice audioSwitchoverPoint child child2 ih ih2 =>
    obtain ⟨hend, hfirst, hsecond⟩ := hfits
    have hlow := hstart.1
    apply splice_delivers hstart hcount hsize hend
    · intro h
      apply ih _ hstart (by omega) (by omega)
      rcases lt_or_eq_of_le h with hlt | heq
      · exact hfirst hlt
      · rw [show min (start + count) audioSwitchoverPoint - start = 0 by omega]
        exact Fits.zero child hstart
    · intro h
      apply ih2 _ (isInt64_i64 _) (by omega) (by omega)
      rcases lt_or_eq_of_le h with hlt | heq
      · exact hsecond hlt
      · rw [show start + count - max start audioSwitchoverPoint = 0 by omega]
        exact Fits.zero child2 (isInt64_i64 _)
  | applyRange first last vi1 filtered unfiltered ihf ihu =>
    obtain ⟨hend, horder, hbefore, hafter, hmiddle⟩ := hfits
    have ⟨hlow, hhigh⟩ := hstart
    apply applyRange_delivers hstart hcount hsize hend horder
    · intro h
      apply ihu _ hstart (by omega) (by omega)
      rcases lt_or_eq_of_le h with hlt | heq
      · exact hbefore hlt
      · rw [show min (start + count) (startSwitch first vi1) - start = 0 by omega]
        exact Fits.zero unfiltered hstart
    · intro h
      apply ihu _ ⟨by omega, by omega⟩ (by omega) (by omega)
      rcases lt_or_eq_of_le h with hlt | heq
      · exact hafter hlt
      · rw [show start + count - max start (endSwitch last vi1) = 0 by omega]
        exact Fits.zero unfiltered ⟨by omega, by omega⟩
    · intro h
      apply ihf _ ⟨by omega, by omega⟩ (by omega) (by omega)
      rcases lt_or_eq_of_le h with hlt | heq
      · exact hmiddle hlt
      · rw [heq, Int.sub_self]
        exact Fits.zero filtered ⟨by omega, by omega⟩
  | trim audioOffset child ih =>
    intro buf pos
    rw [getAudio, ih hfits (isInt64_i64 _) hcount hsize]
    congr 1
    apply Buffer.copy_congr
    intro i hi hin
    have hturns := dvd_i64_sub (start + audioOffset)
    have hturns2 := dvd_i64_sub (start + i)
    rw [audioAt, i64_congr (y := i64 (start + i) + audioOffset) (by omega)]
  | reverse numAudioSamples child ih =>
    intro buf pos
    rw [getAudio, ih hfits (isInt64_i64 _) hcount hsize, Option.map_some,
      swapEnds_copy _ _ _ _ _ hcount]
    congr 1
    apply Buffer.copy_congr
    intro i hi hin
    have hturns := dvd_i64_sub (i64 (numAudioSamples - start) - count)
    have hturns2 := dvd_i64_sub (numAudioSamples - start)
    have hturns3 := dvd_i64_sub (start + i)
    rw [audioAt, i64_congr (y := numAudioSamples - 1 - i64 (start + i)) (by omega)]
  | convertAudio channels convert tempbuffer child ih =>
    intro buf pos
    by_cases hpositive : count ≤ 0
    · rw [getAudio, if_pos hpositive, Buffer.copy_empty _ _ _ _ hpositive]
    obtain ⟨hchannels, hlimit, hchild⟩ := hfits (by omega)
    rw [getAudio, if_neg hpositive, if_neg (by omega), ih hchild hstart hcount hsize,
      Option.map_some]
    congr 1
    apply Buffer.copy_congr
    intro i hi hin
    have hcell := Buffer.shows_copy tempbuffer 0 (fun i => child.audioAt (i64 i)) start count i hi
      hin
    rw [audioAt, hcell]

/-- A request that fits is answered, and with the same samples when it is made in
consecutive pieces. -/
theorem getAudio_pieces {clip : AudioClip α} {start : ℤ} {counts : List ℤ}
    (hfits : clip.Fits start counts.sum) (hstart : IsInt64 start) (hcounts : ∀ n ∈ counts, 0 ≤ n)
    (hsize : counts.sum < 2 ^ 63) (buf : ℤ → α) (pos : ℤ) :
    ∃ result, clip.getAudio buf pos start counts.sum = some result ∧
      clip.getPieces buf pos start counts = some result := by
  have hsum : 0 ≤ counts.sum := List.sum_nonneg hcounts
  use Buffer.copy buf pos (fun i => clip.audioAt (i64 i)) start counts.sum
  constructor
  · exact hfits.delivers hstart hsum hsize buf pos
  induction counts generalizing start buf pos with
  | nil => rw [getPieces, List.sum_nil, Buffer.copy_empty _ _ _ _ le_rfl]
  | cons count counts ih =>
    simp only [List.mem_cons, forall_eq_or_imp] at hcounts
    obtain ⟨hcount, hcounts⟩ := hcounts
    have hrest : 0 ≤ counts.sum := List.sum_nonneg hcounts
    rw [List.sum_cons] at hfits hsize ⊢
    -- the first piece, and the others behind it
    have hpiece : clip.Fits start count := by
      have hpart := hfits.part hstart le_rfl hcount (by omega)
      rwa [Int.add_zero, i64_of_range hstart.1 hstart.2] at hpart
    have hpieces : clip.Fits (i64 (start + count)) counts.sum :=
      hfits.part hstart hcount hrest le_rfl
    rw [getPieces, hpiece.delivers hstart hcount (by omega) buf pos, Option.bind_some,
      ih hpieces (isInt64_i64 _) hcounts (by omega) _ _ hrest]
    rw [← Buffer.copy_append buf pos _ start hcount hrest]
    congr 1
    apply Buffer.copy_congr
    intro i hi hin
    have hturns := dvd_i64_sub (start + count)
    rw [i64_congr (y := start + count + i) (by omega)]

/-- A request over the switch of a splice of a trimmed and a reversed clip, in two
pieces that meet elsewhere. -/
theorem getAudio_pieces_splice :
    ∃ result,
      (splice 10 (trim 3 (source (id : ℤ → ℤ))) (reverse 20 (source id))).getAudio (fun _ => 0) 0 5
        [4, 6].sum = some result ∧
      (splice 10 (trim 3 (source (id : ℤ → ℤ))) (reverse 20 (source id))).getPieces (fun _ => 0) 0 5
        [4, 6] = some result := by
  have hfits : (splice 10 (trim 3 (source (id : ℤ → ℤ))) (reverse 20 (source id))).Fits 5
      [4, 6].sum := ⟨by decide, fun _ => trivial, fun _ => trivial⟩
  exact getAudio_pieces hfits ⟨by decide, by decide⟩ (by decide) (by decide) (fun _ => 0) 0

/-- A clip with 16-bit samples spliced to one with float samples: more samples than
an `int` counts are refused at once, but delivered in two pieces. -/
theorem getAudio_refused :
    (splice (2 ^ 33) (convertAudio 1 id (fun _ => 0) (source (id : ℤ → ℤ))) (source id)).getAudio
      (fun _ => 0) 0 0 [2 ^ 30, 2 ^ 30].sum = none ∧
    ((splice (2 ^ 33) (convertAudio 1 id (fun _ => 0) (source (id : ℤ → ℤ))) (source id)).getPieces
      (fun _ => 0) 0 0 [2 ^ 30, 2 ^ 30]).isSome := by
  decide

end AudioClip

end AviSynth
