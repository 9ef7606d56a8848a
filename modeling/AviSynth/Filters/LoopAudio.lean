import AviSynth.Filters.Loop
import Mathlib.Algebra.Order.BigOperators.Group.List

/-!
# Audio of repeated ranges

One round of the loop of `Loop::GetAudio` reads a block that lies in one repetition, in the last
one and what follows it, or before or after all of them. It delivers the samples of the
repetition if the end of the audio is where the repetitions end, or if the request does not go
that far.
-/

namespace AviSynth

open MachineInt

variable {α : Type*}

namespace Loop

variable {l : Loop} {start count : ℤ} {child : ℤ → α}

/-! ### Requests -/

/-- The range begins at a sample and has a number of samples, and so does the request; the
sums of their bounds can be computed in 64 bits. -/
structure Fits (l : Loop) (start count : ℤ) : Prop where
  count_nonneg : 0 ≤ count
  count_lt : count < 2 ^ 63
  audStart_nonneg : 0 ≤ l.audStart
  audCount_nonneg : 0 ≤ l.audCount
  audEnd_low : -2 ^ 63 ≤ l.audEnd
  audEnd_high : l.audEnd + 1 < 2 ^ 63
  low : -2 ^ 63 ≤ start
  head : l.audStart + l.audCount - start < 2 ^ 63
  body : l.audEnd + 1 - start < 2 ^ 63
  tail : l.audStart + l.audCount + start + count < 2 ^ 63

/-- The range is repeated without end. -/
def Forever (l : Loop) : Prop := l.times < 0 ∧ l.audCount ≠ 0

/-- The end of the audio is where the repetitions end. -/
def EndsAlike (l : Loop) : Prop :=
  ¬l.Forever ∧ l.audEnd + 1 = l.audStart + l.times * l.audCount

/-- The request has no sample, or the bounds agree, or it stays before both of them. -/
def StaysWithin (l : Loop) (start count : ℤ) : Prop :=
  count ≤ 0 ∨ l.EndsAlike ∨
    start + count ≤ l.audEnd + 1 ∧
      (l.Forever ∨ start + count ≤ l.audStart + l.times * l.audCount)

/-- The position in the child of a sample of the result. -/
def audioIndex (l : Loop) (p : ℤ) : ℤ := sourceIndex l.times l.audStart l.audCount p

theorem Fits.part (h : l.Fits start count) {skip n : ℤ} (hskip : 0 ≤ skip) (hn : 0 ≤ n)
    (hin : skip + n ≤ count) : l.Fits (start + skip) n := by
  have hlow := h.low
  have hhead := h.head
  have hbody := h.body
  have htail := h.tail
  have hlt := h.count_lt
  exact { h with
    count_nonneg := hn, count_lt := by omega, low := by omega, head := by omega,
    body := by omega, tail := by omega }

theorem StaysWithin.part (h : l.StaysWithin start count) {skip n : ℤ} (hskip : 0 ≤ skip)
    (hin : skip + n ≤ count) : l.StaysWithin (start + skip) n := by
  rcases h with hnone | halike | ⟨hend, hlast⟩
  · exact Or.inl (by omega)
  · exact Or.inr (Or.inl halike)
  · exact Or.inr (Or.inr ⟨by omega, hlast.imp_right fun h => by omega⟩)

/-! ### One round -/

/-- Without wrapping, the count of a round. -/
theorem getCount_eq (h : l.Fits start count) {getStart : ℤ} (hstart : start ≤ l.audEnd)
    (hle : getStart ≤ start) (hlow : start = getStart ∨ l.audStart ≤ getStart)
    (hhigh : getStart ≤ l.audStart + l.audCount) :
    l.getCount getStart start count = min count
      (if l.audEnd + 1 < l.audStart + l.audCount then l.audEnd + 1 - getStart
        else if l.audEnd < start + (l.audStart + l.audCount - getStart) then count
        else l.audStart + l.audCount - getStart) := by
  obtain ⟨hcount, hcountLt, haudStart, haudCount, hendLow, hendHigh, hbelow, hhead, hbody,
    htail⟩ := h
  rw [getCount, i64_of_range (x := getStart - l.audStart) (by omega) (by omega),
    show l.audCount - (getStart - l.audStart) = l.audStart + l.audCount - getStart by omega,
    i64_of_range (x := l.audStart + l.audCount - getStart) (by omega) (by omega),
    i64_of_range (x := l.audEnd + 1) (by omega) (by omega),
    show getStart + (l.audStart + l.audCount - getStart) = l.audStart + l.audCount by omega,
    i64_of_range (x := l.audStart + l.audCount) (by omega) (by omega),
    i64_of_range (x := l.audEnd + 1 - getStart) (by omega) (by omega),
    i64_of_range (x := start + _) (by omega) (by omega)]
  omega

/-- Where a round reads after the first sample of the range. -/
theorem getStart_eq (h : l.Fits start count) (hafter : l.audStart < start)
    (hsome : 0 < l.audCount) :
    i64 ((i64 (start - l.audStart)).tmod l.audCount + l.audStart) =
      l.audStart + (start - l.audStart) % l.audCount := by
  have hlow := h.audStart_nonneg
  have hhead := h.head
  have htail := h.tail
  have hcount := h.count_nonneg
  have hmodlt := Int.emod_lt_of_pos (start - l.audStart) hsome
  have hmod := Int.emod_nonneg (start - l.audStart) hsome.ne'
  rw [i64_of_range (x := start - l.audStart) (by omega) (by omega),
    Int.tmod_eq_emod_of_nonneg (by omega), i64_of_range (by omega) (by omega)]
  omega

/-- A sample later in the same repetition. -/
theorem emod_add_of_lt {x i n : ℤ} (hn : 0 < n) (hi : 0 ≤ i) (h : x % n + i < n) :
    (x + i) % n = x % n + i := by
  have hmod := Int.emod_nonneg x hn.ne'
  calc (x + i) % n = (x % n + i + n * (x / n)) % n := by
        congr 1
        have hdiv := Int.mul_ediv_add_emod x n
        omega
    _ = x % n + i := by rw [Int.add_mul_emod_self_left, Int.emod_eq_of_lt (by omega) h]

/-- Without samples to repeat every position is its own. -/
theorem audioIndex_of_audCount_zero (hzero : l.audCount = 0) (p : ℤ) : l.audioIndex p = p := by
  rw [audioIndex, sourceIndex, hzero]
  split_ifs
  · rfl
  · rw [Int.emod_zero]
    omega
  · omega

/-- Up to the end of the first repetition every position is its own. -/
theorem audioIndex_first {p : ℤ} (hlt : p < l.audStart + l.audCount)
    (hin : p < l.audStart ∨ l.times < 0 ∨ p < l.audStart + l.times * l.audCount) :
    l.audioIndex p = p := by
  rw [audioIndex]
  by_cases hhead : p < l.audStart
  · exact sourceIndex_head hhead
  · rw [sourceIndex_loop (by omega) (hin.resolve_left hhead),
      Int.emod_eq_of_lt (by omega) (by omega)]
    omega

/-- A sample later in the same repetition is later by as much in the child. -/
theorem audioIndex_add {p i : ℤ} (hsome : 0 < l.audCount) (hfirst : l.audStart ≤ p) (hi : 0 ≤ i)
    (hlt : (p - l.audStart) % l.audCount + i < l.audCount)
    (hin : l.times < 0 ∨ p + i < l.audStart + l.times * l.audCount) :
    l.audioIndex (p + i) = l.audStart + (p - l.audStart) % l.audCount + i := by
  rw [audioIndex, sourceIndex_loop (by omega) hin,
    show p + i - l.audStart = p - l.audStart + i by omega, emod_add_of_lt hsome hi hlt]
  omega

/-- A block that delivers samples of the repetition, one or more. -/
def Delivers (l : Loop) (start count : ℤ) : Prop :=
  ∃ getStart getCount, l.getBlock start count = some (getStart, getCount) ∧
    0 < getCount ∧ getCount ≤ count ∧
    ∀ i, 0 ≤ i → i < getCount → l.audioIndex (start + i) = getStart + i

section

variable (h : l.Fits start count)
include h

theorem getBlock_tail (hend : l.audEnd < start) :
    l.getBlock start count =
      some (i64 (l.audStart + l.audCount + start - (l.audEnd + 1)), count) := by
  obtain ⟨hcount, hcountLt, haudStart, haudCount, hendLow, hendHigh, hlow, hhead, hbody, htail⟩ := h
  rw [getBlock, if_pos hend, i64_of_range (x := l.audStart + l.audCount) (by omega) (by omega),
    i64_of_range (x := l.audStart + l.audCount + start) (by omega) (by omega),
    i64_of_range (x := l.audEnd + 1) (by omega) (by omega)]

omit h in
/-- Repetitions that end come after their start. -/
theorem EndsAlike.repeated_nonneg (h : l.EndsAlike) (hcount : 0 ≤ l.audCount) :
    0 ≤ l.times * l.audCount := by
  by_cases hzero : l.audCount = 0
  · rw [hzero, mul_zero]
  · have htimes : ¬l.times < 0 := fun hlt => h.1 ⟨hlt, hzero⟩
    exact mul_nonneg (by omega) hcount

/-- A round in the tail of the clip. -/
theorem delivers_tail (halike : l.EndsAlike) (hsome : 0 < count)
    (hend : l.audEnd < start) : l.Delivers start count := by
  have hrepeated := halike.repeated_nonneg h.audCount_nonneg
  have hbounds := halike.2
  refine ⟨_, _, getBlock_tail h hend, hsome, le_refl _, fun i hi hlt => ?_⟩
  obtain ⟨hcount, hcountLt, haudStart, haudCount, hendLow, hendHigh, hlow, hhead, hbody, htail⟩ := h
  rw [i64_of_range (by omega) (by omega)]
  by_cases hzero : l.audCount = 0
  · rw [audioIndex_of_audCount_zero hzero]
    rw [hzero, mul_zero] at hbounds
    omega
  · have htimes : ¬l.times < 0 := fun hlt => halike.1 ⟨hlt, hzero⟩
    have hsplit : (l.times - 1) * l.audCount = l.times * l.audCount - l.audCount := by ring
    rw [audioIndex, sourceIndex_tail (by omega) (by omega) (by omega), hsplit]
    omega

/-- In the loop part there are samples to repeat. -/
theorem audCount_pos (hw : l.StaysWithin start count) (hsome : 0 < count) (hend : start ≤ l.audEnd)
    (hfirst : l.audStart ≤ start) :
    0 < l.audCount := by
  have hnonneg := h.audCount_nonneg
  by_contra hnot
  have hzero : l.audCount = 0 := by omega
  rw [StaysWithin, EndsAlike, Forever, hzero, mul_zero] at hw
  omega

/-- Where one round reads in the loop part, and how much. -/
theorem getBlock_loop (hpos : 0 < l.audCount) (hend : start ≤ l.audEnd)
    (hafter : l.audStart < start) (m : ℤ) (hm : (start - l.audStart) % l.audCount = m)
    (hle : m ≤ start - l.audStart) (hnonneg : 0 ≤ m) (hlt : m < l.audCount) :
    l.getBlock start count = some (l.audStart + m, min count
      (if l.audEnd + 1 < l.audStart + l.audCount then l.audEnd + 1 - (l.audStart + m)
        else if l.audEnd < start + (l.audCount - m) then count else l.audCount - m)) := by
  rw [getBlock, if_neg (by omega), if_pos hafter, if_neg hpos.ne', getStart_eq h hafter hpos, hm]
  dsimp only
  rw [getCount_eq h hend (by omega) (Or.inr (by omega)) (by omega),
    show l.audStart + l.audCount - (l.audStart + m) = l.audCount - m by omega]

/-- A round in the loop part of the clip. -/
theorem delivers_loop (hw : l.StaysWithin start count) (hsome : 0 < count) (hend : start ≤ l.audEnd)
    (hafter : l.audStart < start) :
    l.Delivers start count := by
  have hpos := audCount_pos h hw hsome hend (by omega)
  have hdiv := Int.mul_ediv_add_emod (start - l.audStart) l.audCount
  have hmodlt := Int.emod_lt_of_pos (start - l.audStart) hpos
  have hmod := Int.emod_nonneg (start - l.audStart) hpos.ne'
  have hq : 0 ≤ (start - l.audStart) / l.audCount := Int.ediv_nonneg (by omega) (by omega)
  have hsmall : start - l.audStart < l.audCount →
      (start - l.audStart) % l.audCount = start - l.audStart := Int.emod_eq_of_lt (by omega)
  have hadd : ∀ i, 0 ≤ i → (start - l.audStart) % l.audCount + i < l.audCount →
      (l.times < 0 ∨ start + i < l.audStart + l.times * l.audCount) →
      l.audioIndex (start + i) = l.audStart + (start - l.audStart) % l.audCount + i :=
    fun i hi => audioIndex_add hpos (by omega) hi
  have hblock := getBlock_loop h hpos hend hafter _ rfl
  generalize (start - l.audStart) / l.audCount = q at hdiv hq
  generalize (start - l.audStart) % l.audCount = m at hdiv hmodlt hmod hsmall hadd hblock
  have hqC : 0 ≤ l.audCount * q := mul_nonneg hpos.le hq
  refine ⟨_, _, hblock (by omega) hmod hmodlt, ?_, min_le_left _ _, ?_⟩
  · split_ifs <;> omega
  intro i hi hlt
  rcases hw with hnone | halike | ⟨hbefore, hlast⟩
  · omega
  · have hbounds := halike.2
    rw [mul_comm l.times] at hbounds hadd
    have hqlt : q < l.times := lt_of_mul_lt_mul_left (by omega) hpos.le
    by_cases hfinal : l.times = q + 1
    · -- the last repetition, and what follows it
      have hbounds' := hbounds
      rw [hfinal, mul_add, mul_one] at hbounds'
      by_cases hin : start + i < l.audStart + l.audCount * l.times
      · exact hadd i hi (by omega) (Or.inr hin)
      · rw [audioIndex, sourceIndex_tail (by omega) (by omega) (by rw [mul_comm]; omega), hfinal,
          show (q + 1 - 1) * l.audCount = l.audCount * q by ring]
        omega
    · have hlater : l.audCount * (q + 1 + 1) ≤ l.audCount * l.times :=
        mul_le_mul_of_nonneg_left (by omega) hpos.le
      rw [mul_add, mul_add, mul_one] at hlater
      rw [if_neg (by omega), if_neg (by omega)] at hlt
      exact hadd i hi (by omega) (Or.inr (by omega))
  · refine hadd i hi ?_ ?_
    · split_ifs at hlt <;> omega
    · rcases hlast with hforever | hlast
      · exact Or.inl hforever.1
      · exact Or.inr (by omega)

/-- Where one round reads in the head, and how much. -/
theorem getBlock_head (hend : start ≤ l.audEnd) (hhead : start ≤ l.audStart) :
    l.getBlock start count = some (start, min count
      (if l.audEnd + 1 < l.audStart + l.audCount then l.audEnd + 1 - start
        else if l.audEnd < l.audStart + l.audCount then count
        else l.audStart + l.audCount - start)) := by
  have hnonneg := h.audCount_nonneg
  rw [getBlock, if_neg (by omega), if_neg (by omega),
    getCount_eq h hend (le_refl _) (Or.inl rfl) (by omega),
    show start + (l.audStart + l.audCount - start) = l.audStart + l.audCount by omega]

/-- A round in the head of the clip. -/
theorem delivers_head (hw : l.StaysWithin start count) (hsome : 0 < count) (hend : start ≤ l.audEnd)
    (hhead : start ≤ l.audStart) :
    l.Delivers start count := by
  have hnonneg := h.audCount_nonneg
  have hfirst : l.audStart ≤ start → 0 < l.audCount := audCount_pos h hw hsome hend
  refine ⟨_, _, getBlock_head h hend hhead, ?_, min_le_left _ _, ?_⟩
  · split_ifs <;> omega
  intro i hi hlt
  by_cases hzero : l.audCount = 0
  · exact audioIndex_of_audCount_zero hzero _
  rcases hw with hnone | halike | ⟨hbefore, hlast⟩
  · omega
  · have hbounds := halike.2
    have htimes : ¬l.times < 0 := fun hneg => halike.1 ⟨hneg, hzero⟩
    rcases (by omega : l.times = 0 ∨ l.times = 1 ∨ 2 ≤ l.times) with hnever | honce | hmore
    · -- no repetition: the head ends where the tail begins
      rw [hnever, zero_mul] at hbounds
      rw [if_pos (by omega)] at hlt
      exact audioIndex_first (by omega) (Or.inl (by omega))
    · rw [honce, one_mul] at hbounds
      by_cases hin : start + i < l.audStart + l.audCount
      · exact audioIndex_first hin (Or.inr (Or.inr (by rw [honce, one_mul]; exact hin)))
      · rw [audioIndex, sourceIndex_tail (by omega) (by omega) (by rw [honce, one_mul]; omega),
          honce]
        omega
    · have hlater : 2 * l.audCount ≤ l.times * l.audCount :=
        mul_le_mul_of_nonneg_right hmore hnonneg
      rw [if_neg (by omega), if_neg (by omega)] at hlt
      exact audioIndex_first (by omega) (Or.inr (Or.inr (by omega)))
  · refine audioIndex_first ?_ (Or.inr (hlast.imp And.left fun h => by omega))
    split_ifs at hlt <;> omega

/-- A round of a request that stays within the bounds, or whose bounds agree. -/
theorem delivers (hw : l.StaysWithin start count) (hsome : 0 < count) :
    l.Delivers start count := by
  rcases lt_or_ge l.audEnd start with hend | hend
  · refine delivers_tail h ?_ hsome hend
    rcases hw with hnone | halike | ⟨hbefore, -⟩
    · omega
    · exact halike
    · omega
  rcases lt_or_ge l.audStart start with hafter | hhead
  · exact delivers_loop h hw hsome hend hafter
  · exact delivers_head h hw hsome hend hhead

end

/-! ### Whole requests -/

/-- Each round delivers a sample, so as many rounds as samples are enough. -/
theorem getAudio_eq_copy (child : ℤ → α) (rounds : ℕ) (h : l.Fits start count)
    (hw : l.StaysWithin start count) (hrounds : count ≤ rounds) (buf : ℤ → α) (pos : ℤ) :
    l.getAudio child rounds buf pos start count =
      some (Buffer.copy buf pos (fun p => child (l.audioIndex p)) start count) := by
  induction rounds generalizing start count buf pos with
  | zero =>
    rw [getAudio, if_neg (by omega), Buffer.copy_empty _ _ _ _ (by omega)]
  | succ rounds ih =>
    rw [getAudio]
    split_ifs with hsome
    · obtain ⟨getStart, getCount, hblock, hpos, hle, hindex⟩ := delivers h hw hsome
      have hlow := h.low
      have hhead := h.head
      have htail := h.tail
      have haudStart := h.audStart_nonneg
      have haudCount := h.audCount_nonneg
      have hcountLt := h.count_lt
      have hread : Buffer.copy buf pos child getStart getCount =
          Buffer.copy buf pos (fun p => child (l.audioIndex p)) start getCount :=
        Buffer.copy_congr fun i hi hlt => congrArg child (hindex i hi hlt).symm
      have hrest : count = getCount + (count - getCount) := by omega
      rw [hblock, Option.bind_some]
      dsimp only
      rw [i64_of_range (x := start + getCount) (by omega) (by omega),
        i64_of_range (x := count - getCount) (by omega) (by omega), hread]
      rw [ih (h.part hpos.le (by omega) (by omega)) (hw.part hpos.le (by omega))
        (by push_cast at hrounds; omega), Buffer.copy_append _ _ _ _ hpos.le (by omega), ← hrest]
    · rw [Buffer.copy_empty _ _ _ _ (by omega)]

/-- The pieces of a request deliver the samples of the repetition, one piece after another. -/
theorem getPieces_eq_copy (child : ℤ → α) (rounds : ℕ) (counts : List ℤ)
    (hcounts : ∀ n ∈ counts, 0 ≤ n) (h : l.Fits start counts.sum)
    (hw : l.StaysWithin start counts.sum) (hrounds : counts.sum ≤ rounds) (buf : ℤ → α)
    (pos : ℤ) :
    l.getPieces child rounds buf pos start counts =
      some (Buffer.copy buf pos (fun p => child (l.audioIndex p)) start counts.sum) := by
  induction counts generalizing start buf pos with
  | nil => rw [getPieces, List.sum_nil, Buffer.copy_empty _ _ _ _ (le_refl 0)]
  | cons count counts ih =>
    rw [List.sum_cons] at h hw hrounds
    have hcount : 0 ≤ count := hcounts count List.mem_cons_self
    have hrest : ∀ n ∈ counts, 0 ≤ n := fun n hn => hcounts n (List.mem_cons_of_mem _ hn)
    have hsum : 0 ≤ counts.sum := List.sum_nonneg hrest
    have hlow := h.low
    have htail := h.tail
    have haudStart := h.audStart_nonneg
    have haudCount := h.audCount_nonneg
    have hfirst : l.Fits start count := by
      have hpart := h.part (le_refl 0) hcount (by omega)
      rwa [add_zero] at hpart
    have hwfirst : l.StaysWithin start count := by
      have hpart := hw.part (n := count) (le_refl 0) (by omega)
      rwa [add_zero] at hpart
    rw [getPieces, getAudio_eq_copy child rounds hfirst hwfirst (by omega), Option.bind_some,
      i64_of_range (by omega) (by omega), ih hrest (h.part hcount hsum (by omega))
        (hw.part hcount (by omega)) (by omega),
      Buffer.copy_append _ _ _ _ hcount hsum, List.sum_cons]

/-! ### Requests that go too far -/

/-- A round that delivers nothing is repeated without end. -/
theorem getAudio_stuck (hsome : 0 < count) (hstart : IsInt64 start) (hcount : count < 2 ^ 63)
    (hblock : ∃ getStart, l.getBlock start count = some (getStart, 0)) (child : ℤ → α)
    (rounds : ℕ) (buf : ℤ → α) (pos : ℤ) : l.getAudio child rounds buf pos start count = none := by
  obtain ⟨getStart, hblock⟩ := hblock
  induction rounds generalizing buf pos with
  | zero => rw [getAudio, if_pos hsome]
  | succ rounds ih =>
    rw [getAudio, if_pos hsome, hblock, Option.bind_some]
    dsimp only
    rw [add_zero, add_zero, sub_zero, i64_eq_self_iff.mpr hstart, i64_of_range (by omega) hcount]
    exact ih _ _

/-- In the tail the position is right only if the bounds agree. -/
theorem tail_ne_audioIndex {p : ℤ} (h : l.Fits p 1) (halike : ¬l.EndsAlike)
    (hend : l.audEnd < p) :
    i64 (l.audStart + l.audCount + p - (l.audEnd + 1)) ≠ l.audioIndex p := by
  obtain ⟨hcount, hcountLt, haudStart, haudCount, hendLow, hendHigh, hlow, hhead, hbody, htail⟩ := h
  intro heq
  have hturns := dvd_i64_sub (l.audStart + l.audCount + p - (l.audEnd + 1))
  have hrange := isInt64_i64 (l.audStart + l.audCount + p - (l.audEnd + 1))
  rw [heq] at hturns hrange
  rw [IsInt64] at hrange
  rw [EndsAlike, Forever] at halike
  by_cases hzero : l.audCount = 0
  · rw [audioIndex_of_audCount_zero hzero, hzero] at hturns
    rw [hzero, mul_zero] at halike
    omega
  rcases lt_or_ge p l.audStart with hbefore | hfirst
  · rw [audioIndex, sourceIndex_head hbefore] at hturns
    omega
  by_cases hin : l.times < 0 ∨ p < l.audStart + l.times * l.audCount
  · have hmodlt := Int.emod_lt_of_pos (p - l.audStart) (by omega : 0 < l.audCount)
    have hmod := Int.emod_nonneg (p - l.audStart) hzero
    rw [audioIndex, sourceIndex_loop hfirst hin] at hturns hrange
    omega
  · have hsplit : (l.times - 1) * l.audCount = l.times * l.audCount - l.audCount := by ring
    rw [audioIndex, sourceIndex_tail hfirst (by omega) (by omega), hsplit] at hturns hrange
    omega

/-- A sample beyond a bound, if these disagree, cannot be computed or is the wrong one. -/
theorem getBlock_beyond {p : ℤ} (h : l.Fits p 1) (hw : ¬l.StaysWithin p 1) :
    l.getBlock p 1 = none ∨ l.getBlock p 1 = some (p, 0) ∨
      ∃ getStart, l.getBlock p 1 = some (getStart, 1) ∧ getStart ≠ l.audioIndex p := by
  have haudCount := h.audCount_nonneg
  obtain ⟨-, hnot⟩ := not_or.mp hw
  obtain ⟨halike, hbeyond⟩ := not_or.mp hnot
  rw [Forever] at hbeyond
  rcases lt_or_ge l.audEnd p with hend | hend
  · exact Or.inr (Or.inr ⟨_, getBlock_tail h hend, tail_ne_audioIndex h halike hend⟩)
  by_cases hzero : l.audCount = 0
  · -- nothing to repeat: the loop stays where it is, or divides by zero
    rw [hzero, mul_zero] at hbeyond
    rcases lt_or_ge l.audStart p with hafter | hhead
    · left
      rw [getBlock, if_neg (by omega), if_pos hafter, if_pos hzero]
    · refine Or.inr (Or.inl ?_)
      rw [getBlock_head h hend hhead, if_neg (by omega), if_neg (by omega), hzero]
      congr 2
      omega
  -- the sample is beyond the repetitions but not beyond the end of the audio
  have htimes : 0 ≤ l.times := by omega
  have hlast : l.audStart + l.times * l.audCount ≤ p := by omega
  have hrepeated : 0 ≤ l.times * l.audCount := mul_nonneg htimes haudCount
  have hsplit : (l.times - 1) * l.audCount = l.times * l.audCount - l.audCount := by ring
  have hindex : l.audioIndex p = p - (l.times * l.audCount - l.audCount) := by
    rw [audioIndex, sourceIndex_tail (by omega) htimes hlast, hsplit]
  rw [hindex]
  right
  right
  rcases lt_or_ge l.audStart p with hafter | hhead
  · have hmodlt := Int.emod_lt_of_pos (p - l.audStart) (by omega : 0 < l.audCount)
    have hmod := Int.emod_nonneg (p - l.audStart) hzero
    have hdiv := Int.mul_ediv_add_emod (p - l.audStart) l.audCount
    have hquot : 0 ≤ l.audCount * ((p - l.audStart) / l.audCount) :=
      mul_nonneg haudCount (Int.ediv_nonneg (by omega) haudCount)
    have hsmall : p - l.audStart < l.audCount → (p - l.audStart) % l.audCount = p - l.audStart :=
      Int.emod_eq_of_lt (by omega)
    refine ⟨l.audStart + (p - l.audStart) % l.audCount, ?_, by omega⟩
    rw [getBlock_loop h (by omega) hend hafter _ rfl (by omega) hmod hmodlt]
    congr 2
    split_ifs <;> omega
  · refine ⟨p, ?_, by omega⟩
    rw [getBlock_head h hend hhead]
    congr 2
    split_ifs <;> omega

theorem getAudio_done (child : ℤ → α) (rounds : ℕ) (buf : ℤ → α) (pos : ℤ) (h : count ≤ 0) :
    l.getAudio child rounds buf pos start count = some buf := by
  cases rounds with
  | zero => rw [getAudio, if_neg (by omega)]
  | succ rounds => rw [getAudio, if_neg (by omega)]

/-- A request for such a sample does not return what is in the child at its position. -/
theorem getAudio_beyond {p : ℤ} (h : l.Fits p 1) (hw : ¬l.StaysWithin p 1) {x y : α}
    (hne : x ≠ y) (rounds : ℕ) (buf out : ℤ → α) (pos : ℤ)
    (hout : l.getAudio (fun q => if q = l.audioIndex p then x else y) rounds buf pos p 1 =
      some out) : out pos ≠ x := by
  have haudStart := h.audStart_nonneg
  have haudCount := h.audCount_nonneg
  have htail := h.tail
  rcases getBlock_beyond h hw with hdivides | hstays | ⟨getStart, hblock, hother⟩
  · cases rounds with
    | zero =>
      rw [getAudio, if_pos Int.one_pos] at hout
      contradiction
    | succ rounds =>
      rw [getAudio, if_pos Int.one_pos, hdivides, Option.bind_none] at hout
      contradiction
  · rw [getAudio_stuck Int.one_pos ⟨h.low, by omega⟩ (by decide) ⟨_, hstays⟩] at hout
    contradiction
  · cases rounds with
    | zero =>
      rw [getAudio, if_pos Int.one_pos] at hout
      contradiction
    | succ rounds =>
      rw [getAudio, if_pos Int.one_pos, hblock, Option.bind_some] at hout
      dsimp only at hout
      rw [sub_self, getAudio_done _ _ _ _ (by decide), Option.some_inj] at hout
      have hcell := Buffer.shows_copy buf pos (fun q => if q = l.audioIndex p then x else y)
        getStart 1 0 (le_refl 0) Int.one_pos
      rw [hout, add_zero, add_zero] at hcell
      rw [hcell.trans (if_neg hother)]
      exact hne.symm

/-- The audio is that of the repetition exactly if the bounds agree or the request stays before
both of them. -/
theorem audioExact_iff [Nontrivial α] (h : l.Fits start count) :
    l.AudioExact α start count ↔ l.StaysWithin start count := by
  constructor
  · intro hexact
    by_contra hw
    have hsome : 0 < count := by
      by_contra hnone
      exact hw (Or.inl (by omega))
    have haudStart := h.audStart_nonneg
    have haudCount := h.audCount_nonneg
    have hlow := h.low
    have htail := h.tail
    -- the last sample, requested by itself
    have hlast : l.Fits (start + (count - 1)) 1 := h.part (by omega) (by decide) (by omega)
    have hbeyond : ¬l.StaysWithin (start + (count - 1)) 1 := by
      rw [StaysWithin] at hw ⊢
      rw [show start + (count - 1) + 1 = start + count by omega]
      rintro (hnone | hrest)
      · exact absurd hnone (by decide)
      · exact hw (Or.inr hrest)
    obtain ⟨x, y, hne⟩ := exists_pair_ne α
    obtain ⟨rounds, hpieces⟩ := hexact
      (fun q => if q = l.audioIndex (start + (count - 1)) then x else y) (fun _ => x) 0
      [count - 1, 1] (by simp; omega) (by simp)
    simp only [getPieces] at hpieces
    rw [i64_of_range (x := start + (count - 1)) (by omega) (by omega)] at hpieces
    obtain ⟨buf, -, hpieces⟩ := Option.bind_eq_some_iff.mp hpieces
    obtain ⟨out, hout, hpieces⟩ := Option.bind_eq_some_iff.mp hpieces
    refine getAudio_beyond hlast hbeyond hne rounds buf out _ hout ?_
    rw [Option.some_inj.mp hpieces, Buffer.shows_copy _ _ _ _ _ _ (by omega) (by omega)]
    exact if_pos rfl
  · intro hw child buf pos counts hcounts hsum
    subst hsum
    exact ⟨counts.sum.toNat, getPieces_eq_copy child _ counts hcounts h hw (by omega) buf pos⟩

/-- Ten of a hundred frames, three times, at 25 frames and 48000 samples a second. -/
def tenFrames : Loop where
  vi := ⟨true, 48000, 25, 1⟩
  numFrames := 100
  numAudioSamples := 192000
  times := 3
  argStart := 10
  argEnd := 19
  numFrames_nonneg := by decide
  numFrames_lt := by decide
  times_lt := by decide
  accepted := by decide

/-- One frame, ten times, at 24 frames and 44100 samples a second. -/
def oneFrame : Loop where
  vi := ⟨true, 44100, 24, 1⟩
  numFrames := 100
  numAudioSamples := 183750
  times := 10
  argStart := 0
  argEnd := 0
  numFrames_nonneg := by decide
  numFrames_lt := by decide
  times_lt := by decide
  accepted := by decide

end Loop

end AviSynth
