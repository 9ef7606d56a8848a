import AviSynth.Frames.ShutdownBalance

/-!
# The calls of destructors during a shutdown

Each call that the destructor of a clip makes keeps the counts right and the registered
frames where they are, unless it uses a pointer in the middle of its assignment.
-/

namespace AviSynth

open RefHeap PropObject

variable {data : AList fun _ : String => IntrusivePtr} {key : String} {e : IntrusivePtr}
  {ptr : IntrusivePtr}

theorem entryRefs_eq (data : AList fun _ : String => IntrusivePtr) :
    (entryRefs data : Multiset ObjectRef) =
      data.values.bind fun e => (e.refs : Multiset ObjectRef) := by
  rw [AList.values, Multiset.coe_bind, List.flatMap_map, entryRefs]

/-- An entry and the others. -/
theorem entryRefs_of_lookup (hlookup : data.lookup key = some e) :
    (entryRefs data : Multiset ObjectRef) =
      (e.refs : Multiset ObjectRef) + (entryRefs (data.erase key) : Multiset ObjectRef) := by
  rw [entryRefs_eq, entryRefs_eq, AList.values_of_lookup hlookup, Multiset.cons_bind]

theorem entryRefs_insert (data : AList fun _ : String => IntrusivePtr) (key : String)
    (e : IntrusivePtr) : (entryRefs (data.insert key e) : Multiset ObjectRef) =
      (e.refs : Multiset ObjectRef) + (entryRefs (data.erase key) : Multiset ObjectRef) := by
  rw [entryRefs_eq, entryRefs_eq, AList.values_insert, Multiset.cons_bind]

theorem entryRefs_insertNew (hlookup : data.lookup key = none) (e : IntrusivePtr) :
    (entryRefs (data.insert key e) : Multiset ObjectRef) =
      (e.refs : Multiset ObjectRef) + (entryRefs data : Multiset ObjectRef) := by
  rw [entryRefs_insert, AList.erase_of_lookup_none hlookup]

theorem IntrusivePtr.refs_held (p : ℕ) :
    (IntrusivePtr.refs ⟨p, true⟩ : Multiset ObjectRef) = {.object p} := rfl

theorem IntrusivePtr.refs_of_held (hheld : ptr.held = true) :
    (ptr.refs : Multiset ObjectRef) = {.object ptr.obj} := by
  rw [IntrusivePtr.refs, if_pos hheld]
  rfl

namespace Shutdown

variable {s t u : Shutdown} {E E' : Multiset ObjectRef} {n m : ℕ} {f : FramePtr} {p q : ℕ}
  {r : ObjectRef} {frame : PropFrame} {a : VSArray PropValue}

theorem entriesAt_eq (h : s.entriesAt p = some data) : s.objects.get p = some (.storage data) := by
  unfold entriesAt at h
  split at h
  · next hget =>
    cases h
    exact hget
  · cases h

theorem arrayAt_eq (h : s.arrayAt p = some a) :
    s.objects.get p = some (.array a) := by
  unfold arrayAt at h
  split at h
  · next hget =>
    cases h
    exact hget
  · cases h

theorem entriesAt_of_get (hget : s.objects.get p = some (.storage data)) :
    s.entriesAt p = some data := by
  rw [entriesAt, hget]

/-- The entries of a storage depend on the object only. -/
theorem entriesAt_congr (h : t.objects.get p = s.objects.get p) :
    t.entriesAt p = s.entriesAt p := by
  unfold entriesAt
  rw [h]

theorem mapOf_eq (h : s.mapOf f = some ptr) :
    ∃ frame, s.frames.get f = some frame ∧ frame.properties = some ptr :=
  Option.bind_eq_some_iff.mp h

/-- What an object holds is among the references. -/
theorem mem_references_of_object {v : PropObject} (hget : s.objects.get p = some v)
    (hr : r ∈ v.refs) : r ∈ s.references := by
  obtain ⟨c, hlookup, rfl⟩ := Option.map_eq_some_iff.mp hget
  have hmem : r ∈ s.objects.total fun v => (v.refs : Multiset ObjectRef) := by
    rw [total_of_lookup hlookup]
    exact Multiset.mem_add.mpr (.inl (Multiset.mem_coe.mpr hr))
  simp only [references, Multiset.mem_add]
  exact .inl (.inr hmem)

/-- What the map of a frame holds is among the references. -/
theorem mem_references_of_frame
    (hget : s.frames.get f = some frame) (hr : r ∈ frame.refs) : r ∈ s.references := by
  obtain ⟨c, hlookup, rfl⟩ := Option.map_eq_some_iff.mp hget
  have hmem : r ∈ s.frames.total fun frame => (frame.refs : Multiset ObjectRef) := by
    rw [total_of_lookup hlookup]
    exact Multiset.mem_add.mpr (.inl (Multiset.mem_coe.mpr hr))
  simp only [references, Multiset.mem_add]
  exact .inl (.inl (.inr hmem))

/-- References that an object holds can be taken once more. -/
theorem Balanced.present_of_object (h : s.Balanced E) {v : PropObject}
    (hget : s.objects.get p = some v) : ∀ r ∈ v.refs, s.Present r := by
  intro r hr
  exact h.present (Multiset.mem_add.mpr (.inr (mem_references_of_object hget hr)))

/-- A release leaves the other objects. -/
theorem get_release_ne (hne : q ≠ p) :
    (s.release (.object p)).objects.get q = s.objects.get q := by
  have hobjects : (s.release (.object p)).objects = (s.objects.release p).2 := by
    simp only [Shutdown.release]
    split
    · next hrelease => rw [hrelease]
    · next hrelease => rw [hrelease]
  rw [hobjects]
  rcases release_cases s.objects p with ⟨-, hsame⟩ | ⟨v, -, -, herase⟩
  · exact hsame q
  · rw [herase]
    exact get_erase_ne hne

theorem objects_setMap (s : Shutdown) (f : FramePtr) (ptr : IntrusivePtr) :
    (s.setMap f ptr).objects = s.objects := by
  unfold Shutdown.setMap
  split <;> rfl

/-- The map of a frame is made to point to a storage of its own. -/
theorem Balanced.detach (h : s.Balanced E) (hmap : s.mapOf f = some ⟨p, true⟩)
    (hentries : s.entriesAt p = some data) :
    Moves s (s.detach f p).2 E 0 ∧
      (s.detach f p).2.entriesAt (s.detach f p).1 = some data := by
  unfold Shutdown.detach
  split
  · exact ⟨h.moves_refl, hentries⟩
  · obtain ⟨frame, hframe, hproperties⟩ := mapOf_eq hmap
    have hget := entriesAt_eq hentries
    simp only [hentries]
    have hfirst := h.addRefs (h.present_of_object hget)
    have hsecond := hfirst.balanced.alloc (v := .storage data)
    rw [next_addRefs] at hsecond
    have hframe' : ((s.addRefs (entryRefs data)).alloc (.storage data)).frames.get f =
        some frame := (get_frames_addRefs s _ f).trans hframe
    have hrefs : (frame.refs : Multiset ObjectRef) = {.object p} := by
      rw [PropFrame.refs, hproperties]
      rfl
    have hmoved : (PropFrame.refs { frame with properties := some ⟨s.next, true⟩ } :
        Multiset ObjectRef) + (.object p ::ₘ E) =
          (frame.refs : Multiset ObjectRef) + (.object s.next ::ₘ E) := by
      rw [hrefs]
      simp only [PropFrame.refs, Option.elim_some, IntrusivePtr.refs_held, Multiset.singleton_add]
      exact Multiset.cons_swap _ _ _
    have hthird := hsecond.balanced.setMap hframe' ⟨s.next, true⟩ hmoved
    have hfourth := hthird.balanced.release
    refine ⟨((hfirst.trans hsecond).trans hthird).trans hfourth, ?_⟩
    have hne : s.next ≠ p := Nat.ne_of_gt (h.object_lt p _ hget)
    apply entriesAt_of_get
    rw [get_release_ne hne]
    rw [objects_setMap, get_alloc, if_pos (next_addRefs s _).symm]

/-- The entries of a storage are written. -/
theorem Balanced.setEntries (h : s.Balanced E) (hentries : s.entriesAt p = some data)
    {data' : AList fun _ : String => IntrusivePtr}
    (hrefs : (entryRefs data' : Multiset ObjectRef) + E' =
      (entryRefs data : Multiset ObjectRef) + E) : Moves s (s.setEntries p data') E' 0 :=
  h.put (entriesAt_eq hentries) hrefs rfl

/-- An array is put under a key. The array that was there must not be in the middle of
being replaced. -/
theorem Balanced.insertEntry (h : s.Balanced (.object q ::ₘ E))
    (hentries : s.entriesAt p = some data)
    (hheld : ∀ e, data.lookup key = some e → e.held = true) :
    Moves s (s.insertEntry p key q) E 0 := by
  unfold Shutdown.insertEntry
  simp only [hentries]
  split
  · next hlookup =>
    apply h.setEntries hentries
    rw [entryRefs_insertNew hlookup, IntrusivePtr.refs_held]
    rw [← Multiset.singleton_add]
    abel
  · next old hlookup =>
    have hold := entryRefs_of_lookup hlookup
    rw [IntrusivePtr.refs_of_held (hheld old hlookup)] at hold
    have hentry : (entryRefs (data.insert key ⟨old.obj, false⟩) : Multiset ObjectRef) +
        (.object old.obj ::ₘ .object q ::ₘ E) =
          (entryRefs data : Multiset ObjectRef) + (.object q ::ₘ E) := by
      have hnone : (IntrusivePtr.refs ⟨old.obj, false⟩ : Multiset ObjectRef) = 0 := rfl
      rw [entryRefs_insert, hold, hnone, ← Multiset.singleton_add, ← Multiset.singleton_add]
      abel
    have hfirst := h.setEntries hentries hentry
    refine hfirst.trans (hfirst.balanced.push [.release (.object old.obj), .assign p key q] ?_)
    change _ = (([.object old.obj, .object q] : List ObjectRef) : Multiset ObjectRef) + E
    rw [coe_cons_add, coe_cons_add, Multiset.coe_nil, zero_add]

/-- A new array is put under a key. -/
theorem Balanced.insertArray (h : s.Balanced E) (hmap : s.mapOf f = some ⟨p, true⟩)
    (hentries : s.entriesAt p = some data)
    (hheld : ∀ e, data.lookup key = some e → e.held = true)
    (ha : ∀ r ∈ (array a).refs, s.Present r) :
    Moves s (s.insertArray f p key a) E 0 := by
  have hfirst := h.addRefs ha
  have hsecond := hfirst.balanced.alloc (v := .array a)
  rw [next_addRefs] at hsecond
  have hmap' : ((s.addRefs (array a).refs).alloc (.array a)).mapOf f =
      some ⟨p, true⟩ := by
    obtain ⟨frame, hframe, hproperties⟩ := mapOf_eq hmap
    rw [mapOf]
    have hframe' := (get_frames_addRefs s (array a).refs f).trans hframe
    exact Option.bind_eq_some_iff.mpr ⟨frame, hframe', hproperties⟩
  have hentries' : ((s.addRefs (array a).refs).alloc (.array a)).entriesAt p =
      some data := by
    have hget := entriesAt_eq hentries
    apply entriesAt_of_get
    rw [get_alloc, next_addRefs, if_neg (Nat.ne_of_lt (h.object_lt p _ hget)),
      get_objects_addRefs, hget]
  obtain ⟨hthird, hdata⟩ := hsecond.balanced.detach hmap' hentries'
  have hfourth := hthird.balanced.insertEntry hdata hheld
  exact ((hfirst.trans hsecond).trans hthird).trans hfourth

/-- What a copy of an array holds, the array holds. -/
theorem refs_copy (hr : r ∈ (array a.copy).refs) : r ∈ (array a).refs := by
  simp only [refs, List.mem_flatMap] at hr ⊢
  obtain ⟨val, hval, hr⟩ := hr
  refine ⟨val, ?_, hr⟩
  unfold VSArray.kept VSArray.copy at hval
  unfold VSArray.kept
  by_cases hzero : a.fsize = 0
  · simp [hzero] at hval
  · rw [if_neg hzero]
    simp only [hzero, if_false] at hval
    by_cases hone : a.fsize = 1
    · have hmany : ¬1 < a.fsize := by omega
      simp only [hone, if_true] at hval
      simp at hval
      exact List.mem_cons.mpr (.inl hval)
    · have hmany : 1 < a.fsize := by omega
      rw [if_neg hone, if_pos hmany] at hval
      rcases List.mem_cons.mp hval with rfl | hval
      · cases hr
      · exact List.mem_cons_of_mem _ hval

/-- The array of a key is made one of its own. -/
theorem Balanced.detachArray (h : s.Balanced E)
    (hheld : ∀ data e, s.entriesAt p = some data → data.lookup key = some e → e.held = true)
    (hdetach : s.detachArray p key = some (q, t)) : Moves s t E 0 := by
  obtain ⟨data, hentries, hdetach⟩ := Option.bind_eq_some_iff.mp hdetach
  obtain ⟨e, hlookup, hdetach⟩ := Option.bind_eq_some_iff.mp hdetach
  split at hdetach
  · cases hdetach
    exact h.moves_refl
  · obtain ⟨a, ha, heq⟩ := Option.map_eq_some_iff.mp hdetach
    cases heq
    have hpresent : ∀ r ∈ (array a.copy).refs, s.Present r :=
      fun r hr => h.present_of_object (arrayAt_eq ha) r (refs_copy hr)
    have hfirst := h.addRefs hpresent
    have hsecond := hfirst.balanced.alloc (v := .array a.copy)
    rw [next_addRefs] at hsecond
    have hentries' :
        ((s.addRefs (array a.copy).refs).alloc (.array a.copy)).entriesAt p =
          some data := by
      have hget := entriesAt_eq hentries
      apply entriesAt_of_get
      rw [get_alloc, next_addRefs, if_neg (Nat.ne_of_lt (h.object_lt p _ hget)),
        get_objects_addRefs, hget]
    have hentry : (entryRefs (data.insert key ⟨s.next, true⟩) : Multiset ObjectRef) +
        (.object e.obj ::ₘ E) = (entryRefs data : Multiset ObjectRef) + (.object s.next ::ₘ E) := by
      rw [entryRefs_insert, entryRefs_of_lookup hlookup,
        IntrusivePtr.refs_of_held (hheld data e hentries hlookup), IntrusivePtr.refs_held,
        ← Multiset.singleton_add, ← Multiset.singleton_add]
      abel
    have hthird := hsecond.balanced.setEntries hentries' hentry
    exact ((hfirst.trans hsecond).trans hthird).trans hthird.balanced.release

/-- The values that an array keeps after `push_back`. -/
theorem kept_pushBack (a : VSArray PropValue) (val : PropValue) : (a.pushBack val).kept =
    if a.fsize = 0 then [val]
    else a.singleData :: (a.data ++ if a.fsize = 1 then [a.singleData, val] else [val]) := by
  by_cases hzero : a.fsize = 0
  · simp [VSArray.kept, VSArray.pushBack, hzero, a.data_eq_nil (by omega)]
  · by_cases hone : a.fsize = 1
    · simp [VSArray.kept, VSArray.pushBack, hone]
    · simp [VSArray.kept, VSArray.pushBack, hzero, hone]

/-- The references of an array after `push_back`. -/
theorem refs_pushBack (a : VSArray PropValue) (val : PropValue) :
    ((array (a.pushBack val)).refs : Multiset ObjectRef) =
      (((if a.fsize = 1 then a.singleData.refs else []) ++ val.refs : List ObjectRef) :
        Multiset ObjectRef) + ((array a).refs : Multiset ObjectRef) := by
  simp only [refs, kept_pushBack]
  by_cases hzero : a.fsize = 0
  · simp [hzero, VSArray.kept]
  · by_cases hone : a.fsize = 1
    · simp [hone, VSArray.kept, a.data_eq_nil (by omega)]
      exact List.perm_append_comm.append_left _
    · simp [hzero, hone, VSArray.kept]
      rw [← List.append_assoc]
      exact List.perm_append_comm

/-- A value is added to an array. -/
theorem Balanced.pushBack (h : s.Balanced E) {val : PropValue}
    (hval : ∀ r ∈ val.refs, s.Present r) : Moves s (s.pushBack q val) E 0 := by
  unfold Shutdown.pushBack
  split
  · exact h.moves_refl
  · next a ha =>
    have hget := arrayAt_eq ha
    have hpresent : ∀ r ∈ (if a.fsize = 1 then a.singleData.refs else []) ++ val.refs,
        s.Present r := by
      intro r hr
      rcases List.mem_append.mp hr with hr | hr
      · apply h.present_of_object hget
        split at hr
        · next hone =>
          have hzero : a.fsize ≠ 0 := by omega
          rw [refs, VSArray.kept, if_neg hzero, List.flatMap_cons]
          exact List.mem_append_left _ hr
        · cases hr
      · exact hval r hr
    have hfirst := h.addRefs hpresent
    have hget' := (get_objects_addRefs s ((if a.fsize = 1 then a.singleData.refs else []) ++
      val.refs) q).trans hget
    have hrefs : ((array (a.pushBack val)).refs : Multiset ObjectRef) + E =
        ((array a).refs : Multiset ObjectRef) +
          ((((if a.fsize = 1 then a.singleData.refs else []) ++ val.refs : List ObjectRef) :
            Multiset ObjectRef) + E) := by
      rw [refs_pushBack]
      abel
    exact hfirst.trans (hfirst.balanced.put hget' hrefs rfl)

/-- What a task holds is among the references. -/
theorem mem_references_of_work {task : ShutdownTask} (htask : task ∈ s.work)
    (hr : r ∈ task.refs) : r ∈ s.references := by
  simp only [references, Multiset.mem_add]
  exact .inr (Multiset.mem_coe.mpr (List.mem_flatMap.mpr ⟨task, htask, hr⟩))

/-- What is available is there. -/
theorem present_of_available (h : s.available r = true) : s.Present r := by
  cases r with
  | object p =>
    simp only [available] at h
    split at h
    · next hget => exact ⟨_, hget⟩
    · cases h
  | frame f => exact Option.isSome_iff_exists.mp h

/-- The map of a frame is not in the middle of an assignment. -/
theorem held_of_mapReleased (h : s.mapReleased f = false)
    (hmap : s.mapOf f = some ptr) : ptr.held = true := by
  simpa [mapReleased, hmap] using h

/-- Nor is the entry of a key. -/
theorem held_of_entryReleased {e : IntrusivePtr} (h : s.entryReleased p key = false)
    (hentries : s.entriesAt p = some data) (hlookup : data.lookup key = some e) :
    e.held = true := by
  simpa [entryReleased, hentries, hlookup] using h

/-- The values that the caller still holds can be put into an array. -/
theorem Balanced.propSetShared (h : s.Balanced E) (hmap : s.mapOf f = some ⟨p, true⟩)
    (hentries : s.entriesAt p = some data)
    (hheld : ∀ e, data.lookup key = some e → e.held = true) {val : PropValue}
    (hval : ∀ r ∈ val.refs, .release r ∈ s.work) (type : AVSPropertyType)
    (mode : AVSPropAppendMode) : Moves s (s.propSetShared f p data key type val mode) E 0 := by
  have hpresent : ∀ r ∈ val.refs, s.Present r := by
    intro r hr
    have hmem := mem_references_of_work (hval r hr) (List.mem_singleton_self r)
    exact h.present (Multiset.mem_add.mpr (.inr hmem))
  have hnew : ∀ r ∈ (array ((VSArray.empty type).pushBack val)).refs, s.Present r := by
    intro r hr
    have hkept : ((VSArray.empty type).pushBack val).kept = [val] := rfl
    rw [refs, hkept, List.flatMap_singleton] at hr
    exact hpresent r hr
  have hempty : ∀ r ∈ (array (VSArray.empty type)).refs, s.Present r := nofun
  cases mode with
  | replace => exact h.insertArray hmap hentries hheld hnew
  | touch =>
    simp only [Shutdown.propSetShared]
    split
    · exact h.insertArray hmap hentries hheld hempty
    · exact h.moves_refl
  | append =>
    simp only [Shutdown.propSetShared]
    split
    · exact h.insertArray hmap hentries hheld hnew
    · split
      · obtain ⟨hfirst, hdata⟩ := h.detach hmap hentries
        split
        · exact h.moves_refl
        · next q t hdetach =>
          have hsecond := hfirst.balanced.detachArray (by
            intro data' e hdata' hlookup
            rw [hdata] at hdata'
            cases hdata'
            exact hheld e hlookup) hdetach
          have hmoves := hfirst.trans hsecond
          have hpresent' : ∀ r ∈ val.refs, t.Present r := by
            intro r hr
            have htask := hmoves.work.subset (hval r hr)
            have hmem := mem_references_of_work htask (List.mem_singleton_self r)
            exact hmoves.balanced.present (Multiset.mem_add.mpr (.inr hmem))
          exact hmoves.trans (hsecond.balanced.pushBack hpresent')
      · exact h.moves_refl

/-- References are taken and left to tasks that release them. -/
theorem Balanced.hold (h : s.Balanced E) {rs : List ObjectRef} (hrs : ∀ r ∈ rs, s.Present r) :
    Moves s ((s.addRefs rs).push (rs.map .release)) E 0 := by
  have hrefs : (rs.map ShutdownTask.release).flatMap ShutdownTask.refs = rs := by
    induction rs with
    | nil => rfl
    | cons r rs ih =>
      have hrest := ih fun r' hr' => hrs r' (List.mem_cons_of_mem r hr')
      rw [List.map_cons, List.flatMap_cons, hrest, ShutdownTask.refs, List.singleton_append]
  have hops : ((rs.map ShutdownTask.release).map ShutdownTask.ops).sum = 0 := by
    rw [List.map_map]
    exact List.sum_eq_zero fun n hn => by
      obtain ⟨r, -, rfl⟩ := List.mem_map.mp hn
      rfl
  have hfirst := h.addRefs hrs
  have hsecond := hfirst.balanced.push (rs.map .release) (by rw [hrefs])
  have hmoves := hfirst.trans hsecond
  rwa [hops] at hmoves

/-- The pointers that a call which writes a key reads hold their references. -/
def Writable (s : Shutdown) (f : FramePtr) (key : String) : Prop :=
  ∀ ptr, s.mapOf f = some ptr → ptr.held = true ∧ s.entryReleased ptr.obj key = false

/-- A key that is not in use can be written. -/
theorem writable_of_mapUsed (h : s.mapUsed f key = false) : s.Writable f key := by
  intro ptr hmap
  simp only [mapUsed, Bool.or_eq_false_iff, hmap, Option.any_some] at h
  exact ⟨held_of_mapReleased h.1 hmap, h.2.1⟩

/-- A property is set. -/
theorem Balanced.propSet (h : s.Balanced E) (hwritable : s.Writable f key)
    (type : AVSPropertyType) (val : PropValue) (mode : AVSPropAppendMode) :
    Moves s (s.propSet f key type val mode) E 0 := by
  unfold Shutdown.propSet
  split
  · exact h.moves_refl
  · next ptr hmap =>
    split
    · exact h.moves_refl
    · next data hentries =>
      split
      · next hvalid =>
        obtain ⟨hheld, hentry⟩ := hwritable ptr hmap
        have hpresent : ∀ r ∈ val.refs, s.Present r :=
          fun r hr => present_of_available (List.all_eq_true.mp hvalid.2 r hr)
        have hfirst := h.hold hpresent
        obtain ⟨p, held⟩ := ptr
        cases hheld
        have hmap' : ((s.addRefs val.refs).push (val.refs.map .release)).mapOf f =
            some ⟨p, true⟩ := by
          obtain ⟨frame, hframe, hproperties⟩ := mapOf_eq hmap
          have hframe' := (get_frames_addRefs s val.refs f).trans hframe
          exact Option.bind_eq_some_iff.mpr ⟨frame, hframe', hproperties⟩
        have hentries' : ((s.addRefs val.refs).push (val.refs.map .release)).entriesAt p =
            some data := by
          apply entriesAt_of_get
          exact (get_objects_addRefs s val.refs p).trans (entriesAt_eq hentries)
        refine hfirst.trans (hfirst.balanced.propSetShared hmap' hentries' ?_ ?_ type mode)
        · intro e hlookup
          exact held_of_entryReleased hentry hentries hlookup
        · intro r hr
          exact List.mem_append_left _ (List.mem_map_of_mem hr)
      · exact h.moves_refl

/-- A new clip is set. -/
theorem Balanced.propSetNewClip (h : s.Balanced E) (hwritable : s.Writable f key)
    (holds : List ObjectRef) (destructor : List ClipOp) (mode : AVSPropAppendMode) :
    Moves s (s.propSetNewClip f key holds destructor mode) E (ClipOp.sizeOfList destructor) := by
  have hpresent : ∀ r ∈ holds.filter s.available, s.Present r :=
    fun r hr => present_of_available (List.mem_filter.mp hr).2
  have hfirst := h.addRefs hpresent
  have hsecond := hfirst.balanced.alloc (v := .clip (holds.filter s.available) destructor)
  rw [next_addRefs] at hsecond
  have hthird := hsecond.balanced.push [.release (.object s.next)] (by
    change _ = (([.object s.next] : List ObjectRef) : Multiset ObjectRef) + E
    rw [coe_cons_add, Multiset.coe_nil, zero_add])
  have hwritable' : ((((s.addRefs (holds.filter s.available)).alloc
      (.clip (holds.filter s.available) destructor)).push [.release (.object s.next)])).Writable
        f key := by
    intro ptr hmap
    obtain ⟨frame, hframe, hproperties⟩ := mapOf_eq hmap
    have hframe' := (get_frames_addRefs s (holds.filter s.available) f).symm.trans hframe
    obtain ⟨hheld, hentry⟩ :=
      hwritable ptr (Option.bind_eq_some_iff.mpr ⟨frame, hframe', hproperties⟩)
    refine ⟨hheld, ?_⟩
    by_cases hnew : ptr.obj = s.next
    · have hget : (((s.addRefs (holds.filter s.available)).alloc
          (.clip (holds.filter s.available) destructor)).push
            [.release (.object s.next)]).objects.get ptr.obj =
              some (.clip (holds.filter s.available) destructor) := by
        refine (get_alloc _ _ _).trans ?_
        rw [next_addRefs, if_pos hnew]
      rw [entryReleased, entriesAt, hget]
      rfl
    · have hget : (((s.addRefs (holds.filter s.available)).alloc
          (.clip (holds.filter s.available) destructor)).push
            [.release (.object s.next)]).objects.get ptr.obj = s.objects.get ptr.obj := by
        refine (get_alloc _ _ _).trans ?_
        rw [next_addRefs, if_neg hnew, get_objects_addRefs]
      rw [entryReleased, entriesAt_congr hget]
      exact hentry
  have hfourth := hthird.balanced.propSet hwritable' .clip (.clip s.next) mode
  have hmoves := ((hfirst.trans hsecond).trans hthird).trans hfourth
  have hcalls : 0 + (clip (holds.filter s.available) destructor).ops +
      ([ShutdownTask.release (.object s.next)].map ShutdownTask.ops).sum + 0 =
        ClipOp.sizeOfList destructor := by
    simp [PropObject.ops, ShutdownTask.ops]
  rw [hcalls] at hmoves
  exact hmoves

/-- A key is deleted. -/
theorem Balanced.propDeleteKey (h : s.Balanced E) (hwritable : s.Writable f key) :
    Moves s (s.propDeleteKey f key) E 0 := by
  unfold Shutdown.propDeleteKey
  split
  · exact h.moves_refl
  · next ptr hmap =>
    split
    · exact h.moves_refl
    · next data hentries =>
      split
      · exact h.moves_refl
      · next e hlookup =>
        obtain ⟨hheld, hentry⟩ := hwritable ptr hmap
        have hrefs := entryRefs_of_lookup hlookup
        rw [IntrusivePtr.refs_of_held (held_of_entryReleased hentry hentries hlookup)] at hrefs
        obtain ⟨p, held⟩ := ptr
        cases hheld
        obtain ⟨hfirst, hdata⟩ := h.detach hmap hentries
        have hentry : (entryRefs (data.erase key) : Multiset ObjectRef) + (.object e.obj ::ₘ E) =
            (entryRefs data : Multiset ObjectRef) + E := by
          rw [hrefs, ← Multiset.singleton_add]
          abel
        have hsecond := hfirst.balanced.setEntries hdata hentry
        refine (hfirst.trans hsecond).trans (hsecond.balanced.push [.release (.object e.obj)] ?_)
        change _ = (([.object e.obj] : List ObjectRef) : Multiset ObjectRef) + E
        rw [coe_cons_add, Multiset.coe_nil, zero_add]

/-- The pointer of a frame's map, when it holds its reference. -/
theorem refs_of_mapOf (hproperties : frame.properties = some ptr) (hheld : ptr.held = true) :
    frame.refs = [.object ptr.obj] := by
  rw [PropFrame.refs, hproperties, Option.elim_some, IntrusivePtr.refs, if_pos hheld]

/-- All properties are copied. -/
theorem Balanced.copyFrameProps (h : s.Balanced E) {src dst : FramePtr}
    (hsrc : s.mapReleased src = false) (hdst : s.mapReleased dst = false) :
    Moves s (s.copyFrameProps src dst) E 0 := by
  unfold Shutdown.copyFrameProps
  split
  · next shared old hshared hold =>
    obtain ⟨source, hsource, hproperties⟩ := mapOf_eq hshared
    obtain ⟨frame, hframe, hproperties'⟩ := mapOf_eq hold
    have hrefs := refs_of_mapOf hproperties (held_of_mapReleased hsrc hshared)
    have hrefs' := refs_of_mapOf hproperties' (held_of_mapReleased hdst hold)
    have hpresent : s.Present (.object shared.obj) := by
      apply h.present
      have hmem := mem_references_of_frame (r := .object shared.obj) hsource (by simp [hrefs])
      exact Multiset.mem_add.mpr (.inr hmem)
    have hfirst := h.addRef hpresent
    have hframe' := (get_frames_addRef s (.object shared.obj) dst).trans hframe
    have hmoved : (PropFrame.refs { frame with properties := some ⟨old.obj, false⟩ } :
        Multiset ObjectRef) + (.object old.obj ::ₘ .object shared.obj ::ₘ E) =
          (frame.refs : Multiset ObjectRef) + (.object shared.obj ::ₘ E) := by
      rw [hrefs', coe_cons_add, Multiset.coe_nil, zero_add]
      exact zero_add _
    have hsecond := hfirst.balanced.setMap hframe' ⟨old.obj, false⟩ hmoved
    refine (hfirst.trans hsecond).trans (hsecond.balanced.push
      [.release (.object old.obj), .assignMap dst shared.obj] ?_)
    change _ = (([.object old.obj, .object shared.obj] : List ObjectRef) :
      Multiset ObjectRef) + E
    rw [coe_cons_add, coe_cons_add, Multiset.coe_nil, zero_add]
  · exact h.moves_refl

/-- A frame that nothing refers to is made and registered. -/
theorem Balanced.addFrame
    (h : s.Balanced ((frame.refs : Multiset ObjectRef) + E)) {registry : List RegistryEntry}
    (hregistry : ∀ e ∈ s.frameRegistry, ∃ e' ∈ registry,
      e'.vfbSize = e.vfbSize ∧ e'.vfb = e.vfb ∧ e.frames <+: e'.frames) (k : ℕ) :
    Moves s { s with
      frames := s.frames.insert s.next ⟨0, frame⟩
      frameRegistry := registry
      next := s.next + 1 + k } E 0 := by
  have hnone : s.frames.lookup s.next = none := by
    cases hlookup : s.frames.lookup s.next with
    | none => rfl
    | some c =>
      have hget : s.frames.get s.next = some c.value := by
        rw [RefHeap.get, hlookup, Option.map_some]
      exact absurd (h.frame_lt _ _ hget) (Nat.lt_irrefl _)
  have hget : ∀ g, RefHeap.get (s.frames.insert s.next ⟨0, frame⟩) g =
      if g = s.next then some frame else s.frames.get g := by
    intro g
    split
    · next hg => rw [hg, RefHeap.get, AList.lookup_insert, Option.map_some]
    · next hg => rw [RefHeap.get, AList.lookup_insert_ne hg, RefHeap.get]
  have hrefs : E + { s with
      frames := s.frames.insert s.next ⟨0, frame⟩
      frameRegistry := registry
      next := s.next + 1 + k }.references =
        (frame.refs : Multiset ObjectRef) + E + s.references := by
    simp only [references, total_insertNew hnone]
    abel
  constructor
  · constructor
    · rw [hrefs]
      exact h.objects
    · rw [hrefs]
      have hframes := h.frames.insertNew hnone 0 frame
      rwa [Multiset.replicate_zero, zero_add] at hframes
    · exact h.used
    · intro p v hp
      have hlt := h.object_lt p v hp
      simp only
      omega
    · intro g frame' hg
      rw [hget] at hg
      simp only
      split at hg
      · omega
      · have hlt := h.frame_lt g frame' hg
        omega
    · exact h.nodup
    · intro p hp
      obtain ⟨hlt, hgone⟩ := h.gone p hp
      refine ⟨?_, hgone⟩
      simp only
      omega
  · refine { Extends.refl s with next := ?_, frames := ?_, registry := hregistry }
    · simp only
      omega
    · intro g frame' hg
      refine ⟨frame', ?_, rfl, rfl⟩
      simp only
      rw [hget, if_neg (Nat.ne_of_lt (h.frame_lt g frame' hg)), hg]
  · exact Nat.le_refl _
  · exact List.suffix_rfl

/-- A registered frame stays registered when another one is added. -/
theorem registry_append (registry : List RegistryEntry) (vfbSize vfb : ℕ) (g : FramePtr) :
    ∀ e ∈ registry, ∃ e' ∈ RegistryEntry.modify (RegistryEntry.touch registry vfbSize vfb)
      vfbSize vfb (· ++ [g]),
        e'.vfbSize = e.vfbSize ∧ e'.vfb = e.vfb ∧ e.frames <+: e'.frames := by
  intro e he
  have htouch : e ∈ RegistryEntry.touch registry vfbSize vfb := by
    unfold RegistryEntry.touch
    split
    · exact he
    · exact (List.mem_orderedInsert _).mpr (.inr he)
  refine ⟨_, RegistryEntry.mem_modify.mpr ⟨e, htouch, rfl⟩, ?_⟩
  split
  · exact ⟨rfl, rfl, List.prefix_append _ _⟩
  · exact ⟨rfl, rfl, List.prefix_rfl⟩

theorem Balanced.allocateFrame (h : s.Balanced E) (vfbSize : ℕ) :
    Moves s (s.allocateFrame vfbSize) E 0 := by
  have hnew : s.Balanced (((storage ∅).refs : Multiset ObjectRef) + E) := by
    have hnone : ((storage ∅).refs : Multiset ObjectRef) = 0 := rfl
    rwa [hnone, zero_add]
  have hfirst := hnew.alloc
  have hframe : (s.alloc (.storage ∅)).Balanced
      ((PropFrame.refs ⟨vfbSize, (s.alloc (.storage ∅)).next + 1, some ⟨s.next, true⟩⟩ :
        Multiset ObjectRef) + E) := hfirst.balanced
  exact hfirst.trans (hframe.addFrame (registry_append _ _ _ _) 1)

theorem Balanced.getNewFrame (h : s.Balanced E) (hclosing : s.framePropertiesClosing = true)
    (vfbSize : ℕ) : Moves s (s.getNewFrame vfbSize) E 0 := by
  rw [Shutdown.getNewFrame, if_pos hclosing]
  exact h.allocateFrame vfbSize

/-- A frame takes over the references of its map. -/
theorem Balanced.addSubFrame (h : s.Balanced ((frame.refs : Multiset ObjectRef) + E))
    (hclosing : s.framePropertiesClosing = true) : Moves s (s.addSubFrame frame) E 0 := by
  unfold Shutdown.addSubFrame Shutdown.registerSubFrame
  dsimp only
  rw [if_pos hclosing]
  exact h.addFrame (registry_append _ _ _ _) 0

/-- A subframe shares the map. -/
theorem Balanced.subframe (h : s.Balanced E) (hclosing : s.framePropertiesClosing = true)
    {src : FramePtr} (hsrc : s.mapReleased src = false) : Moves s (s.subframe src) E 0 := by
  unfold Shutdown.subframe
  split
  · exact h.moves_refl
  · next frame hframe =>
    split
    · next ptr hptr =>
      have hproperties := (Option.filter_eq_some_iff.mp hptr).1
      have hmap : s.mapOf src = some ptr :=
        Option.bind_eq_some_iff.mpr ⟨frame, hframe, hproperties⟩
      have hrefs := refs_of_mapOf hproperties (held_of_mapReleased hsrc hmap)
      have hpresent : s.Present (.object ptr.obj) := by
        apply h.present
        have hmem := mem_references_of_frame (r := .object ptr.obj) hframe (by simp [hrefs])
        exact Multiset.mem_add.mpr (.inr hmem)
      have hfirst := h.addRef hpresent
      have hshared : (s.addRef (.object ptr.obj)).Balanced
          ((PropFrame.refs { frame with properties := some ptr } : Multiset ObjectRef) + E) := by
        have heq : PropFrame.refs { frame with properties := some ptr } = [.object ptr.obj] :=
          refs_of_mapOf rfl (held_of_mapReleased hsrc hmap)
        rw [heq, coe_cons_add, Multiset.coe_nil, zero_add]
        exact hfirst.balanced
      exact hfirst.trans (hshared.addSubFrame (hfirst.extends_.closing.trans hclosing))
    · have hnew : s.Balanced (((storage ∅).refs : Multiset ObjectRef) + E) := by
        have hnone : ((storage ∅).refs : Multiset ObjectRef) = 0 := rfl
        rwa [hnone, zero_add]
      have hfirst := hnew.alloc
      have hframe' : (s.alloc (.storage ∅)).Balanced
          ((PropFrame.refs { frame with properties := some ⟨s.next, true⟩ } :
            Multiset ObjectRef) + E) := hfirst.balanced
      exact hfirst.trans (hframe'.addSubFrame (hfirst.extends_.closing.trans hclosing))

/-- Something outside takes a reference. -/
theorem Balanced.keep (h : s.Balanced E) (hr : s.Present r) :
    Moves s { s.addRef r with outside := r :: s.outside } E 0 := by
  have hfirst := h.addRef hr
  have hrefs : E + { s.addRef r with outside := r :: s.outside }.references =
      r ::ₘ E + (s.addRef r).references := by
    have houtside : (s.addRef r).outside = s.outside := by cases r <;> rfl
    simp only [references, houtside, ← Multiset.cons_coe, ← Multiset.singleton_add]
    abel
  constructor
  · constructor
    · rw [hrefs]
      exact hfirst.balanced.objects
    · rw [hrefs]
      exact hfirst.balanced.frames
    · exact hfirst.balanced.used
    · exact hfirst.balanced.object_lt
    · exact hfirst.balanced.frame_lt
    · exact hfirst.balanced.nodup
    · exact hfirst.balanced.gone
  · exact { hfirst.extends_ with }
  · exact hfirst.ops
  · exact hfirst.work

/-- Something outside gives a reference up. -/
theorem Balanced.forget (h : s.Balanced E) (hr : r ∈ s.outside) :
    Moves s ({ s with outside := s.outside.erase r }.push [.release r]) E 0 := by
  have hrefs : r ::ₘ E + { s with outside := s.outside.erase r }.references =
      E + s.references := by
    have houtside : (s.outside : Multiset ObjectRef) =
        r ::ₘ ((s.outside.erase r : List ObjectRef) : Multiset ObjectRef) :=
      Multiset.coe_eq_coe.mpr (List.perm_cons_erase hr)
    simp only [references]
    rw [houtside, ← Multiset.singleton_add, ← Multiset.singleton_add]
    abel
  have hfirst : Moves s { s with outside := s.outside.erase r } (r ::ₘ E) 0 := by
    constructor
    · constructor
      · rw [hrefs]
        exact h.objects
      · rw [hrefs]
        exact h.frames
      · exact h.used
      · exact h.object_lt
      · exact h.frame_lt
      · exact h.nodup
      · exact h.gone
    · exact { Extends.refl s with }
    · exact Nat.le_refl _
    · exact List.suffix_rfl
  refine hfirst.trans (hfirst.balanced.push [.release r] ?_)
  change _ = (([r] : List ObjectRef) : Multiset ObjectRef) + E
  rw [coe_cons_add, Multiset.coe_nil, zero_add]

/-- A call that uses no pointer in the middle of its assignment. The clips that it
creates make fewer calls than it counts for. -/
theorem Balanced.runOp (h : s.Balanced E) (hclosing : s.framePropertiesClosing = true)
    {op : ClipOp} (hop : s.opUses op = false) : ∃ n, n < op.size ∧ Moves s (s.runOp op) E n := by
  cases op with
  | newVideoFrame vfbSize => exact ⟨0, Nat.one_pos, h.getNewFrame hclosing vfbSize⟩
  | subframe src => exact ⟨0, Nat.one_pos, h.subframe hclosing hop⟩
  | propSet f key type val mode =>
    exact ⟨0, Nat.one_pos, h.propSet (writable_of_mapUsed hop) type val mode⟩
  | propSetNewClip f key holds destructor mode =>
    exact ⟨_, Nat.lt_succ_self _,
      h.propSetNewClip (writable_of_mapUsed hop) holds destructor mode⟩
  | propDeleteKey f key => exact ⟨0, Nat.one_pos, h.propDeleteKey (writable_of_mapUsed hop)⟩
  | copyFrameProps src dst =>
    obtain ⟨hsrc, hdst⟩ := Bool.or_eq_false_iff.mp hop
    exact ⟨0, Nat.one_pos, h.copyFrameProps hsrc hdst⟩
  | keep r =>
    refine ⟨0, Nat.one_pos, ?_⟩
    simp only [Shutdown.runOp]
    split
    · next havailable => exact h.keep (present_of_available havailable)
    · exact h.moves_refl
  | forget r =>
    refine ⟨0, Nat.one_pos, ?_⟩
    simp only [Shutdown.runOp]
    split
    · next hmem => exact h.forget hmem
    · exact h.moves_refl

end Shutdown

end AviSynth
