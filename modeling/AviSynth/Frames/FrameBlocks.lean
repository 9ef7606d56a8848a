import AviSynth.Frames.FrameSafety

/-!
# Buffers keep their memory blocks

A buffer has one memory block from its allocation to its deletion. This file
follows a request through `GetNewFrame` and says which block it is given.
-/

namespace AviSynth

open RegistryEntry

/-- The two buffers have the same memory block. -/
def VideoFrameBuffer.SameBlock {D : Type} (b b' : VideoFrameBuffer D) : Prop :=
  b.data = b'.data ∧ b.dataSize = b'.dataSize ∧ b.margin = b'.margin

namespace FrameStore

variable {D : Type} {s t u : FrameStore D}

/-- Every buffer of `t` is one of `s`, on the same memory block. -/
def KeepsBlocks (s t : FrameStore D) : Prop :=
  ∀ v b', t.vfbs v = some b' → ∃ b, s.vfbs v = some b ∧ b.SameBlock b'

/-- If the buffers are the same, so are their blocks. -/
theorem KeepsBlocks.of_eq (h : t.vfbs = s.vfbs) : KeepsBlocks s t := by
  intro v b hb
  rw [h] at hb
  exact ⟨b, hb, rfl, rfl, rfl⟩

theorem KeepsBlocks.trans (hst : KeepsBlocks s t) (htu : KeepsBlocks t u) : KeepsBlocks s u := by
  intro v b hb
  obtain ⟨b', hb', hdata, hsize, hmargin⟩ := htu v b hb
  obtain ⟨b'', hb'', hdata', hsize', hmargin'⟩ := hst v b' hb'
  exact ⟨b'', hb'', hdata'.trans hdata, hsize'.trans hsize, hmargin'.trans hmargin⟩

/-- Writing to the counts of a buffer keeps its block. -/
theorem keepsBlocks_modifyVfb (s : FrameStore D) (v : VfbPtr)
    {f : VideoFrameBuffer D → VideoFrameBuffer D}
    (hf : ∀ b : VideoFrameBuffer D, b.SameBlock (f b)) :
    KeepsBlocks s (s.modifyVfb v f) := by
  intro w b' hb'
  rw [modifyVfb_vfbs, Option.map_eq_some_iff] at hb'
  obtain ⟨b, hb, rfl⟩ := hb'
  refine ⟨b, hb, ?_⟩
  split_ifs
  · exact hf b
  · exact ⟨rfl, rfl, rfl⟩

theorem keepsBlocks_addVfbRef (s : FrameStore D) (v : VfbPtr) (n : ℤ) :
    KeepsBlocks s (s.addVfbRef v n) := keepsBlocks_modifyVfb s v fun _ => ⟨rfl, rfl, rfl⟩

theorem keepsBlocks_newFrame (s : FrameStore D) (p : FramePtr) (v : VfbPtr) :
    KeepsBlocks s (s.newFrame p v) :=
  (keepsBlocks_addVfbRef s v 1).trans (KeepsBlocks.of_eq rfl)

/-- Deleting a frame keeps the blocks, whatever its count. -/
theorem keepsBlocks_deleteFrame (s : FrameStore D) (p : FramePtr) :
    KeepsBlocks s (s.deleteFrame p) := by
  simp only [deleteFrame]
  split
  · exact KeepsBlocks.of_eq rfl
  · split_ifs
    · exact (keepsBlocks_addVfbRef s _ _).trans (KeepsBlocks.of_eq rfl)
    · exact KeepsBlocks.of_eq rfl

/-- So does deleting several frames. -/
theorem keepsBlocks_deleteFrames (s : FrameStore D) (ps : List FramePtr) :
    KeepsBlocks s (s.deleteFrames ps) := by
  induction ps generalizing s with
  | nil => exact KeepsBlocks.of_eq rfl
  | cons p ps ih => exact (keepsBlocks_deleteFrame s p).trans (ih (s.deleteFrame p))

/-- Occupying a buffer keeps its block. -/
theorem keepsBlocks_occupy {e : RegistryEntry} {p : FramePtr} (h : s.occupy e = some (p, t)) :
    KeepsBlocks s t := by
  unfold occupy at h
  split at h
  · cases h
  · obtain ⟨⟩ := Option.some.inj h
    refine ((keepsBlocks_modifyVfb s e.vfb fun _ => ?_).trans
      (keepsBlocks_deleteFrames _ _)).trans (KeepsBlocks.of_eq rfl)
    exact ⟨rfl, rfl, rfl⟩

/-- Collecting a buffer keeps the blocks of the others. -/
theorem keepsBlocks_collect [DecidableEq D] (s : FrameStore D) (i : ℕ) (v : VfbPtr)
    (b : VideoFrameBuffer D) (ps : List FramePtr) : KeepsBlocks s (s.collect i v b ps) := by
  have hupdate : KeepsBlocks s { s with
      memoryUsed := Function.update s.memoryUsed b.device (s.memoryUsed b.device - b.dataSize)
      vfbs := Function.update s.vfbs v none } := by
    intro w b' hb'
    by_cases hw : w = v
    · subst hw
      simp at hb'
    · exact ⟨b', by simpa [hw] using hb', rfl, rfl, rfl⟩
  exact (hupdate.trans (keepsBlocks_deleteFrames _ ps)).trans (KeepsBlocks.of_eq rfl)

end FrameStore

/-- The request that the thread inside the mutex works on. -/
def Critical.request {D : Type} : Critical D → Option (FrameRequest D)
  | search request _ _ | occupy request _ _ | allocate request _ | shrink request
  | inspect request _ _ | collect request _ _ => some request
  | purge _ _ | erase _ _ | append _ | assign _ => none

namespace FrameSystem

open FrameStore

variable {D : Type} {s t : FrameSystem D}

/-- What a step of the thread inside the mutex can come to: it goes on with its
request, or throws, or returns a frame of a buffer that it found or allocated. -/
inductive Progress (s : FrameSystem D) (next : FrameSystem D × FrameEvent D) (c : Critical D) : Prop
  | goes (blocks : KeepsBlocks s.toFrameStore next.1.toFrameStore) (quiet : next.2 = .quiet)
      (request : next.1.lock.bind Critical.request = c.request)
  | throws (request : FrameRequest D)
      (blocks : KeepsBlocks s.toFrameStore next.1.toFrameStore)
      (position : c.request = some request) (event : next.2 = .outOfMemory request)
  | reuses (request : FrameRequest D) (again : Bool) (i : ℕ) (entry : RegistryEntry) (p : FramePtr)
      (position : c = .occupy request again i) (found : s.frameRegistry[i]? = some entry)
      (event : next.2 = .handedOut request ⟨p, entry.vfb⟩)
      (blocks : KeepsBlocks s.toFrameStore next.1.toFrameStore)
  | allocates (request : FrameRequest D) (attempt : Attempt) (v : VfbPtr) (p : FramePtr)
      (data : ℕ) (position : c = .allocate request attempt) (fits : request.vfbSize < 2 ^ 31)
      (event : next.2 = .handedOut request ⟨p, v⟩)
      (vfbs : next.1.vfbs = Function.update s.vfbs v
        (some ⟨data, request.vfbSize, request.margin, request.device, 1, 0⟩))

variable {c next : Critical D}

/-- Going on without touching a buffer. -/
theorem Progress.goto (hrequest : next.request = c.request) : Progress s (s.goto next) c :=
  .goes (KeepsBlocks.of_eq rfl) rfl hrequest

/-- Going on with other buffers on the same blocks. -/
theorem Progress.goto_store {store : FrameStore D} (hblocks : KeepsBlocks s.toFrameStore store)
    (hrequest : next.request = c.request) :
    Progress s (FrameSystem.goto { s with toFrameStore := store } next) c :=
  .goes hblocks rfl hrequest

variable [DecidableEq D] (limits : DeviceLimits D) {next : FrameSystem D × FrameEvent D}

/-- What `AllocateFrame` can come to. -/
theorem progress_allocate {request : FrameRequest D} {attempt : Attempt} {memory : Memory}
    (hstep : s.allocate request attempt memory = some next) :
    Progress s next (.allocate request attempt) := by
  simp only [allocate] at hstep
  split_ifs at hstep with hlarge
  · obtain rfl := Option.some.inj hstep
    exact .throws request (KeepsBlocks.of_eq rfl) rfl rfl
  · split at hstep
    · obtain rfl := Option.some.inj hstep
      cases attempt with
      | first => exact .goto rfl
      | second => exact .goto rfl
      | closing | third => exact .throws request (KeepsBlocks.of_eq rfl) rfl rfl
    · rename_i v data p hstorage
      split_ifs at hstep
      obtain rfl := Option.some.inj hstep
      exact .allocates request attempt v p data rfl (by omega) rfl
        (s.toFrameStore.allocateFrame_vfbs _ _ _ _ _ _)

/-- What a test of a collecting loop can come to. -/
theorem progress_inspect {request : FrameRequest D} {pass : Pass} {i : ℕ}
    (hstep : s.inspect limits request pass i = some next) :
    Progress s next (.inspect request pass i) := by
  simp only [inspect] at hstep
  split at hstep
  · rename_i entry hentry
    obtain ⟨b, -, rfl⟩ := Option.map_eq_some_iff.mp hstep
    by_cases hidle : Idle request pass entry b
    · rw [if_pos hidle]
      cases pass with
      | reallocation => exact .goto rfl
      | shrinkCache =>
        refine Progress.goto_store (keepsBlocks_modifyVfb _ _ fun _ => ⟨rfl, rfl, rfl⟩) ?_
        split_ifs <;> rfl
    · rw [if_neg hidle]
      exact .goto rfl
  · obtain rfl := Option.some.inj hstep
    cases pass <;> exact .goto rfl

/-- The inversion lemma of the steps inside the mutex. -/
theorem progress_advance {memory : Memory}
    (hstep : s.advance limits memory c = some next) : Progress s next c := by
  cases c with
  | search request again i =>
    simp only [advance, search] at hstep
    split at hstep
    · obtain ⟨b, -, rfl⟩ := Option.map_eq_some_iff.mp hstep
      apply Progress.goto
      split_ifs <;> rfl
    · obtain rfl := Option.some.inj hstep
      apply Progress.goto
      split_ifs <;> rfl
  | occupy request again i =>
    obtain ⟨entry, hfound, rfl⟩ := Option.map_eq_some_iff.mp hstep
    split
    · exact .goto rfl
    · rename_i p store hoccupy
      exact .reuses request again i entry p rfl hfound rfl (keepsBlocks_occupy hoccupy)
  | allocate request attempt => exact progress_allocate hstep
  | shrink request =>
    obtain rfl := Option.some.inj hstep
    apply Progress.goto
    split_ifs <;> rfl
  | inspect request pass i => exact progress_inspect limits hstep
  | collect request pass i =>
    obtain ⟨entry, -, hstep⟩ := Option.bind_eq_some_iff.mp hstep
    obtain ⟨b, -, rfl⟩ := Option.map_eq_some_iff.mp hstep
    exact .goto_store (keepsBlocks_collect _ _ _ _ _) rfl
  | purge op i =>
    obtain ⟨b, -, rfl⟩ := Option.map_eq_some_iff.mp hstep
    split
    · exact .goto rfl
    · apply Progress.goto
      split_ifs <;> rfl
  | erase op i =>
    obtain ⟨b, -, hstep⟩ := Option.bind_eq_some_iff.mp hstep
    obtain ⟨p, -, rfl⟩ := Option.map_eq_some_iff.mp hstep
    exact .goto_store
      ((keepsBlocks_deleteFrame s.toFrameStore p).trans (KeepsBlocks.of_eq rfl)) rfl
  | append op =>
    obtain ⟨b, -, rfl⟩ := Option.map_eq_some_iff.mp hstep
    exact .goto_store (KeepsBlocks.of_eq rfl) rfl
  | assign op =>
    obtain rfl := Option.some.inj hstep
    exact .goes (KeepsBlocks.of_eq rfl) rfl rfl

/-- The steps outside the mutex keep the blocks and what goes on inside. -/
theorem quiet_step {a : FrameAction D} (hadvance : ∀ memory, a ≠ .advance memory)
    (hstep : s.step limits a = some next) :
    KeepsBlocks s.toFrameStore next.1.toFrameStore ∧ next.2 = .quiet ∧
      (s.lock.isSome → next.1.lock = s.lock) := by
  have hfree : ∀ {x : Option (Critical D)}, s.lock.isNone = true → s.lock.isSome = true →
      x = s.lock := by
    intro x hnone hsome
    rw [Option.isNone_iff_eq_none.mp hnone] at hsome
    cases hsome
  have hderive : ∀ {src sub : FramePtr}, s.derive src sub = some next →
      KeepsBlocks s.toFrameStore next.1.toFrameStore ∧ next.2 = .quiet ∧
        (s.lock.isSome → next.1.lock = s.lock) := by
    intro src sub hstep
    simp only [derive, Option.ite_none_right_eq_some, Option.map_eq_some_iff] at hstep
    obtain ⟨-, x, -, rfl⟩ := hstep
    exact ⟨keepsBlocks_newFrame _ _ _, rfl, fun _ => rfl⟩
  cases a with
  | addRef p | assignNew r =>
    obtain ⟨-, ⟨⟩⟩ := Option.ite_none_right_eq_some.mp hstep
    exact ⟨KeepsBlocks.of_eq rfl, rfl, fun _ => rfl⟩
  | release p =>
    simp only [step, Option.ite_none_right_eq_some, Option.map_eq_some_iff] at hstep
    obtain ⟨-, x, -, rfl⟩ := hstep
    exact ⟨KeepsBlocks.of_eq rfl, rfl, fun _ => rfl⟩
  | releaseVfb v =>
    obtain ⟨-, ⟨⟩⟩ := Option.ite_none_right_eq_some.mp hstep
    exact ⟨keepsBlocks_addVfbRef _ _ _, rfl, fun _ => rfl⟩
  | subframe src sub => exact hderive hstep
  | makePropertyWritable src sub =>
    simp only [step] at hstep
    split_ifs at hstep
    · obtain rfl := Option.some.inj hstep
      exact ⟨KeepsBlocks.of_eq rfl, rfl, fun _ => rfl⟩
    · exact hderive hstep
  | getNewFrame request =>
    obtain ⟨hlock, ⟨⟩⟩ := Option.ite_none_right_eq_some.mp hstep
    exact ⟨KeepsBlocks.of_eq rfl, rfl, hfree hlock⟩
  | registerSubFrame op =>
    simp only [step, Option.ite_none_right_eq_some, Option.map_eq_some_iff] at hstep
    obtain ⟨⟨hlock, -⟩, b, -, rfl⟩ := hstep
    exact ⟨KeepsBlocks.of_eq rfl, rfl, hfree hlock⟩
  | close =>
    obtain ⟨hlock, ⟨⟩⟩ := Option.ite_none_right_eq_some.mp hstep
    exact ⟨KeepsBlocks.of_eq rfl, rfl, hfree hlock⟩
  | advance memory => exact absurd rfl (hadvance memory)

end FrameSystem

end AviSynth
