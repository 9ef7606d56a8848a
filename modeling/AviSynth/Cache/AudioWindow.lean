import AviSynth.Cache.AudioCache

/-!
# The window holds the child's samples

`WindowHolds` says that the samples the audio cache claims to hold are the
child's. Every part of `GetAudio` keeps it, except a restart whose read throws:
the bounds have been set by then.
-/

namespace AviSynth.AudioCache

open MachineInt

variable {α : Type}

/-- The window is well placed and shows the child's samples. -/
structure WindowHolds (child : ℤ → α) (c : AudioCache α) : Prop where
  start_nonneg : 0 ≤ c.audioCacheStart
  count_nonneg : 0 ≤ c.cacheCount
  count_le : c.cacheCount ≤ c.maxSampleCount
  max_lt : c.maxSampleCount < 2 ^ 31
  stop_lt : c.audioCacheStart + c.cacheCount < 2 ^ 63
  shows : Buffer.Shows c.audioCache 0 child c.audioCacheStart c.cacheCount

variable {vi : AudioInfo} {undef child : ℤ → α} {fault : Option (ℤ → α)} {c : AudioCache α}
  {start count : ℤ}

/-- Only the window, its memory and the capacity matter. -/
theorem WindowHolds.congr {d : AudioCache α} (h : WindowHolds child c)
    (hmem : d.audioCache = c.audioCache) (hmax : d.maxSampleCount = c.maxSampleCount)
    (hstart : d.audioCacheStart = c.audioCacheStart) (hcount : d.cacheCount = c.cacheCount) :
    WindowHolds child d := by
  obtain ⟨h₁, h₂, h₃, h₄, h₅, h₆⟩ := h
  exact ⟨by omega, by omega, by omega, by omega, by omega, by rwa [hmem, hstart, hcount]⟩

/-- A cache that claims to hold nothing claims nothing wrong. -/
theorem WindowHolds.empty (hstart : 0 ≤ c.audioCacheStart) (hlt : c.audioCacheStart < 2 ^ 63)
    (hcount : c.cacheCount = 0) (hmax : 0 ≤ c.maxSampleCount) (hmaxlt : c.maxSampleCount < 2 ^ 31) :
    WindowHolds child c :=
  ⟨hstart, by omega, by omega, hmaxlt, by omega, Buffer.Shows.empty (by omega)⟩

/-- A new cache claims to hold nothing. -/
theorem WindowHolds.new : WindowHolds child (AudioCache.new vi undef) :=
  .empty (Int.le_refl 0) (by simp [AudioCache.new]) rfl (Int.le_refl 0) (by simp [AudioCache.new])

/-- The capacity of a buffer of less than 2^31 bytes. -/
theorem tdiv_lt_of_lt {frameRange bytes : ℤ} (hrange : frameRange < 2 ^ 31) (hbytes : 0 < bytes) :
    frameRange.tdiv bytes < 2 ^ 31 := by
  by_cases hneg : 0 ≤ frameRange
  · have hle := Int.tdiv_le_self bytes hneg
    omega
  · have hopp := Int.tdiv_nonneg (a := -frameRange) (b := bytes) (by omega) (by omega)
    rw [Int.neg_tdiv] at hopp
    omega

section

variable (h : WindowHolds child c)
include h

/-- A larger buffer keeps the samples of the window. -/
theorem WindowHolds.enlarge {frameRange : ℤ} (hrange : frameRange < 2 ^ 31)
    (hbytes : 0 < vi.bytesPerAudioSample) :
    WindowHolds child (c.enlarge vi undef frameRange) := by
  obtain ⟨hstart, hcount, hle, hmax, hstop, hshows⟩ := id h
  have hlt := tdiv_lt_of_lt hrange hbytes
  by_cases hlarger : frameRange.tdiv vi.bytesPerAudioSample > c.maxSampleCount
  · cases halloc : c.allocated with
    | false =>
      refine .empty ?_ ?_ ?_ ?_ ?_ <;>
        simp only [AudioCache.enlarge, hlarger, halloc, if_true, Bool.false_eq_true, if_false] <;>
        omega
    | true =>
      have hkept : min c.cacheCount (frameRange.tdiv vi.bytesPerAudioSample) = c.cacheCount :=
        Int.min_eq_left (by omega)
      refine ⟨?_, ?_, ?_, ?_, ?_, ?_⟩ <;>
        simp only [AudioCache.enlarge, hlarger, halloc, if_true, hkept]
      · exact hstart
      · exact hcount
      · omega
      · exact hlt
      · exact hstop
      · refine hshows.congr fun i hi hn => ?_
        rw [if_pos ⟨trivial, by omega, by omega⟩]
  · simpa only [AudioCache.enlarge, hlarger, if_false] using h

/-- The hints that set the audio policy drop the window or keep it. -/
theorem WindowHolds.setCacheHints (cachehints : AudioPolicy) {frameRange : ℤ}
    (hrange : frameRange < 2 ^ 31) :
    WindowHolds child (c.setCacheHints vi undef cachehints frameRange) := by
  have hrange' : (if frameRange = 0 then 256 * 1024 else frameRange) < 2 ^ 31 := by
    split <;> omega
  have hstart : WindowHolds child (c.startCaching vi undef cachehints frameRange) := by
    unfold startCaching
    by_cases haudio : vi.HasAudio
    · rw [if_neg (not_not_intro haudio)]
      split
      · exact h
      · exact (h.enlarge hrange' (vi.bytes_pos haudio)).congr rfl rfl rfl rfl
    · rw [if_pos haudio]
      exact h
  have hstop : WindowHolds child (c.stopCaching cachehints) :=
    .empty (Int.le_refl 0) (by simp [stopCaching]) rfl (Int.le_refl 0) (by simp [stopCaching])
  cases cachehints with
  | audio => exact hstart
  | audioAutoStartOn => exact hstart
  | audioAutoStartOff => exact hstop
  | audioNothing => exact hstop

/-- Deciding the policy keeps the window good. -/
theorem WindowHolds.prepare (start count : ℤ) :
    WindowHolds child (c.prepare vi undef start count) := by
  have hscore : WindowHolds child (c.score start) := h.congr rfl rfl rfl rfl
  have hstart : WindowHolds child ((c.score start).autoStart vi undef count) := by
    unfold autoStart
    split
    · exact hscore.setCacheHints _ (i32_lt _)
    · exact hscore
  have hstop :
      WindowHolds child (((c.score start).autoStart vi undef count).autoStop vi undef) := by
    unfold autoStop
    split
    · exact hstart.setCacheHints _ (by decide)
    · exact hstart
  exact hstop.congr rfl rfl rfl rfl

/-- Enlarging the cache automatically keeps the window good. -/
theorem WindowHolds.upsize (start count : ℤ) :
    WindowHolds child (c.upsize vi undef start count) :=
  (h.setCacheHints c.audioPolicy (i32_lt _)).congr rfl rfl rfl rfl

omit h in
/-- The loop that makes room ends within two rounds: the first one resets the
counter of too small caches. -/
theorem makeRoom_isSome (vi : AudioInfo) (undef : ℤ → α) (c : AudioCache α) (start count : ℤ) :
    ∃ room d, makeRoom vi undef start count 2 c = some (room, d) := by
  have hone : ∀ d : AudioCache α, d.tooSmallCount = 0 →
      ∃ room e, makeRoom vi undef start count 1 d = some (room, e) := by
    intro d hzero
    simp only [makeRoom, hzero]
    split
    · exact ⟨false, _, if_neg (fun hmany => absurd hmany.1 (by decide))⟩
    · exact ⟨true, d, rfl⟩
  rw [makeRoom]
  split
  · dsimp only
    split
    · exact hone _ rfl
    · exact ⟨false, _, rfl⟩
  · exact ⟨true, c, rfl⟩

/-- Making room keeps the window good, and there is room if it says so. -/
theorem WindowHolds.makeRoom {fuel : ℕ} {room : Bool} {d : AudioCache α}
    (hroom : AudioCache.makeRoom vi undef start count fuel c = some (room, d)) :
    WindowHolds child d ∧ (room = true → count ≤ d.maxSampleCount) := by
  induction fuel generalizing c with
  | zero => simp only [AudioCache.makeRoom, reduceCtorEq] at hroom
  | succ fuel ih =>
    rw [AudioCache.makeRoom] at hroom
    split at hroom
    · have hcounted : WindowHolds child { c with tooSmallCount := i32 (c.tooSmallCount + 1) } :=
        h.congr rfl rfl rfl rfl
      dsimp only at hroom
      split at hroom
      · exact ih (hcounted.upsize start count) hroom
      · cases hroom
        exact ⟨hcounted, fun hfalse => Bool.noConfusion hfalse⟩
    · next hfits =>
      cases hroom
      exact ⟨h, fun _ => Int.not_lt.mp hfits⟩

omit h in
/-- What the child leaves behind when it returns. -/
theorem childGetAudio_returned {dst : ℤ → α} {pos : ℤ}
    (h : (childGetAudio child fault dst pos start count).1 = false) :
    (childGetAudio child fault dst pos start count).2 = Buffer.copy dst pos child start count := by
  cases fault with
  | none => rfl
  | some garbage => simp only [childGetAudio, Bool.true_eq_false] at h

/-- Without a restart the end of the window's reach is exact. -/
theorem reach_of_not_restarts (hnot : ¬c.Restarts start) :
    c.audioCacheStart ≤ start ∧ start ≤ c.audioCacheStart + c.maxSampleCount ∧
      i64 (c.audioCacheStart + c.maxSampleCount) = c.audioCacheStart + c.maxSampleCount := by
  obtain ⟨hpos, hcount, hle, hmax, hstop, _⟩ := h
  unfold Restarts at hnot
  rw [not_or, Int.not_lt, gt_iff_lt, Int.not_lt] at hnot
  by_cases hfar : c.audioCacheStart + c.maxSampleCount < 2 ^ 63
  · have hexact := i64_of_range (x := c.audioCacheStart + c.maxSampleCount) (by omega) hfar
    rw [hexact] at hnot
    exact ⟨hnot.1, hnot.2, hexact⟩
  · have hwrap := i64_of_overflow (x := c.audioCacheStart + c.maxSampleCount) (by omega) (by omega)
    omega

/-- Shifting moves the window under the request without spoiling it: what it
still holds is the child's, and the request ends within its capacity. -/
theorem WindowHolds.shift (hcount : 0 ≤ count) (hfits : count ≤ c.maxSampleCount)
    (hstop : start + count < 2 ^ 63) (hnot : ¬c.Restarts start)
    (hlacks : c.audioCacheStart + c.cacheCount < start + count) :
    WindowHolds child (c.shift start count) ∧ (c.shift start count).audioCacheStart ≤ start ∧
      start + count ≤ (c.shift start count).audioCacheStart + (c.shift start count).maxSampleCount ∧
      (c.shift start count).audioCacheStart + (c.shift start count).cacheCount < start + count := by
  obtain ⟨hleft, hright, hreach⟩ := reach_of_not_restarts h hnot
  obtain ⟨hpos, hnonneg, hle, hmax, hend, hshows⟩ := id h
  have hexact := i64_of_range (x := start + count) (by omega) hstop
  have hcc := i32_of_range (x := c.cacheCount) (by omega) (by omega)
  have hhalf : (start - c.audioCacheStart).tdiv 2 = (start - c.audioCacheStart) / 2 :=
    Int.tdiv_eq_ediv_of_nonneg (by omega)
  unfold AudioCache.shift
  simp only [hexact, hreach, hcc, hhalf]
  split
  · next hbeyond =>
    have hneeded := i32_of_range (x := start + count - (c.audioCacheStart + c.maxSampleCount))
      (by omega) (by omega)
    have hhalf' := i32_of_range (x := (start - c.audioCacheStart) / 2) (by omega) (by omega)
    rw [hneeded, hhalf']
    -- the amount shifted is enough, and leaves the window at or before the request
    obtain ⟨n, hn⟩ : ∃ n, n = if (start - c.audioCacheStart) / 2 >
        start + count - (c.audioCacheStart + c.maxSampleCount)
      then (start - c.audioCacheStart) / 2
      else start + count - (c.audioCacheStart + c.maxSampleCount) := ⟨_, rfl⟩
    have hn' : start + count - (c.audioCacheStart + c.maxSampleCount) ≤ n ∧ 0 < n ∧
        c.audioCacheStart + n ≤ start := by
      split at hn <;> omega
    rw [← hn]
    split
    · exact ⟨.empty (by dsimp only; omega) (by dsimp only; omega) rfl (by dsimp only; omega) hmax,
        by dsimp only; omega, by dsimp only; omega, by dsimp only; omega⟩
    · refine ⟨⟨?_, ?_, ?_, hmax, ?_, ?_⟩, ?_, ?_, ?_⟩ <;> dsimp only
      · omega
      · omega
      · omega
      · omega
      · have hblock := hshows.block (k := n) (m := c.cacheCount - n) (by omega) (by omega)
        rw [Int.zero_add] at hblock
        exact hblock.copy
      · omega
      · omega
      · omega
  · exact ⟨h, hleft, by omega, hlacks⟩

/-- Making the window cover a request keeps it good, unless a restart throws. If
the child returns, the window covers the request. -/
theorem WindowHolds.fillWindow (hstart : 0 ≤ start) (hcount : 0 ≤ count)
    (hfits : count ≤ c.maxSampleCount) (hstop : start + count < 2 ^ 63)
    (hok : c.Restarts start → fault = none) :
    WindowHolds child (c.fillWindow child fault start count).2 ∧
      (fault = none → (c.fillWindow child fault start count).1 = false) ∧
      ((c.fillWindow child fault start count).1 = false →
        (c.fillWindow child fault start count).2.audioCacheStart ≤ start ∧
        start + count ≤ (c.fillWindow child fault start count).2.audioCacheStart +
          (c.fillWindow child fault start count).2.cacheCount) := by
  obtain ⟨hpos, hnonneg, hle, hmax, hend, hshows⟩ := id h
  have hexact := i64_of_range (x := start + count) (by omega) hstop
  have hheld := i64_of_range (x := c.audioCacheStart + c.cacheCount) (by omega) hend
  have hmin : min count c.maxSampleCount = count := Int.min_eq_left hfits
  unfold AudioCache.fillWindow
  by_cases hrestart : c.Restarts start
  · obtain rfl := hok hrestart
    simp only [if_pos hrestart, childGetAudio, hmin]
    exact ⟨⟨hstart, by dsimp only; omega, hfits, hmax, hstop, Buffer.shows_copy _ _ _ _ _⟩,
      fun _ => trivial, fun _ => ⟨Int.le_refl _, Int.le_refl _⟩⟩
  · simp only [if_neg hrestart, hexact, hheld]
    by_cases hlacks : start + count > c.audioCacheStart + c.cacheCount
    · rw [if_pos hlacks]
      obtain ⟨hshift, hleft, hright, hbehind⟩ := h.shift hcount hfits hstop hrestart hlacks
      generalize c.shift start count = d at hshift hleft hright hbehind ⊢
      obtain ⟨hpos', hnonneg', hle', hmax', hend', hshows'⟩ := id hshift
      have hheld' := i64_of_range (x := d.audioCacheStart + d.cacheCount) (by omega) hend'
      rw [hheld']
      cases fault with
      | none =>
        simp only [childGetAudio, Bool.false_eq_true, if_false]
        refine ⟨⟨hpos', ?_, ?_, hmax', ?_, ?_⟩, fun _ => trivial, fun _ => ⟨hleft, ?_⟩⟩
        · dsimp only; omega
        · dsimp only; omega
        · dsimp only; omega
        · have happend := hshows'.append
            (n := start + count - (d.audioCacheStart + d.cacheCount))
          rwa [Int.zero_add] at happend
        · omega
      | some garbage =>
        simp only [childGetAudio, if_true, Bool.true_eq_false, false_imp_iff, and_true,
          reduceCtorEq]
        exact ⟨hpos', hnonneg', hle', hmax', hend', hshows'.congr fun i hi hn =>
          Buffer.copy_outside (Or.inl (by omega))⟩
    · rw [if_neg hlacks]
      refine ⟨h, fun _ => rfl, fun _ => ⟨?_, ?_⟩⟩
      · exact (reach_of_not_restarts h hrestart).1
      · dsimp only; omega

/-- A request larger than the cache keeps the window good. If the child returns,
the buffer has its samples. -/
theorem WindowHolds.passBy (fault : Option (ℤ → α)) (buf : ℤ → α) (pos : ℤ) (hstart : 0 ≤ start)
    (hcount : 0 ≤ count) (hstop : start + count < 2 ^ 63) :
    WindowHolds child (c.passBy child fault buf pos start count).2.2 ∧
      ((c.passBy child fault buf pos start count).1 = false →
        (c.passBy child fault buf pos start count).2.1 =
          Buffer.copy buf pos child start count) := by
  obtain ⟨hpos, hnonneg, hle, hmax, hend, hshows⟩ := id h
  cases fault with
  | some garbage =>
    refine ⟨h, fun hfalse => ?_⟩
    simp only [AudioCache.passBy, childGetAudio, if_true, Bool.true_eq_false] at hfalse
  | none =>
    simp only [AudioCache.passBy, childGetAudio, Bool.false_eq_true, if_false]
    -- the samples kept are the last ones of the request
    obtain ⟨m, hm⟩ : ∃ m, m = min count c.maxSampleCount := ⟨_, rfl⟩
    rw [← hm]
    have hblock := (Buffer.shows_copy buf pos child start count).block (k := count - m) (m := m)
      (by omega) (by omega)
    refine ⟨⟨?_, ?_, ?_, hmax, ?_, ?_⟩, fun _ => trivial⟩ <;> dsimp only
    · omega
    · omega
    · omega
    · omega
    · rw [show start + count - m - start = count - m by omega,
        show start + count - m = start + (count - m) by omega]
      exact hblock.copy

end

/-- Whether a request that has been cut to the clip restarts the window. -/
def restarts (vi : AudioInfo) (undef : ℤ → α) (c : AudioCache α) (start count : ℤ) : Bool :=
  let c := c.prepare vi undef start count
  if c.audioPolicy = .audioAutoStartOff ∨ c.audioPolicy = .audioNothing then false
  else match makeRoom vi undef start count 2 c with
    | some (true, d) => d.Restarts start
    | _ => false

/-- A request that has been cut to the clip keeps the window good, unless it
restarts the window and the read throws. If the child returns, the buffer has
the child's samples. -/
theorem WindowHolds.serve (h : WindowHolds child c) (buf : ℤ → α) (pos : ℤ) (hstart : 0 ≤ start)
    (hcount : 0 ≤ count) (hstop : start + count < 2 ^ 63)
    (hok : restarts vi undef c start count = true → fault = none) :
    ∃ thrown buf' d, c.serve vi undef child fault buf pos start count = some (thrown, buf', d) ∧
      WindowHolds child d ∧ (fault = none → thrown = false) ∧
      (thrown = false → buf' = Buffer.copy buf pos child start count) := by
  have hprep : WindowHolds child (c.prepare vi undef start count) := h.prepare start count
  unfold restarts at hok
  unfold AudioCache.serve
  generalize c.prepare vi undef start count = d at hprep hok ⊢
  dsimp only at hok ⊢
  by_cases hdirect : d.audioPolicy = .audioAutoStartOff ∨ d.audioPolicy = .audioNothing
  · rw [if_pos hdirect]
    exact ⟨_, _, _, rfl, hprep, fun hnone => hnone ▸ rfl, childGetAudio_returned⟩
  · rw [if_neg hdirect] at hok ⊢
    obtain ⟨room, e, hroom⟩ := makeRoom_isSome vi undef d start count
    obtain ⟨hgood, hlarge⟩ := hprep.makeRoom hroom
    simp only [hroom] at hok ⊢
    cases room with
    | false =>
      obtain ⟨hpass, hfills⟩ := hgood.passBy fault buf pos hstart hcount hstop
      exact ⟨_, _, _, rfl, hpass, fun hnone => hnone ▸ rfl, hfills⟩
    | true =>
      obtain ⟨hfill, hreturns, hcovers⟩ := hgood.fillWindow hstart hcount (hlarge rfl) hstop
        fun hrestart => hok (decide_eq_true hrestart)
      simp only [Option.map_some, if_true]
      generalize e.fillWindow child fault start count = r at hfill hreturns hcovers ⊢
      obtain ⟨thrown, f⟩ := r
      cases thrown with
      | true => exact ⟨true, buf, f, rfl, hfill, hreturns, fun hfalse => Bool.noConfusion hfalse⟩
      | false =>
        have hfilled : WindowHolds child f := hfill
        have hleft : f.audioCacheStart ≤ start := (hcovers rfl).1
        have hright : start + count ≤ f.audioCacheStart + f.cacheCount := (hcovers rfl).2
        refine ⟨false, _, f, rfl, hfill, hreturns, fun _ => ?_⟩
        have hblock := hfilled.shows.block (k := start - f.audioCacheStart) (m := count)
          (by omega) (by omega)
        rw [Int.zero_add, show f.audioCacheStart + (start - f.audioCacheStart) = start by omega]
          at hblock
        exact hblock.copy_eq

end AviSynth.AudioCache
