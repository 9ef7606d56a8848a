import AviSynth.Frames.ShutdownCalls

/-!
# What refers to what at shutdown

The map of a frame refers to a storage, a storage to arrays, and an array and a clip to
clips and frames. Every frame is registered. Addresses are not used again, so that a
reference keeps its kind when its object is destroyed.
-/

namespace AviSynth

open RefHeap RegistryEntry

/-- The kinds of counted objects. -/
inductive ObjectKind where
  | storage
  | array
  | clip
  deriving DecidableEq

namespace PropObject

/-- The kind of an object. -/
def kind : PropObject → ObjectKind
  | .storage _ => .storage
  | .array _ => .array
  | .clip _ _ => .clip

end PropObject

namespace Shutdown

variable {s t u : Shutdown} {f : FramePtr} {p q : ℕ} {k : ObjectKind} {key : String}
  {data : AList fun _ : String => IntrusivePtr} {r : ObjectRef}

/-- An object at the address is of the kind. -/
def IsA (s : Shutdown) (k : ObjectKind) (p : ℕ) : Prop :=
  p < s.next ∧ ∀ v, s.objects.get p = some v → v.kind = k

/-- The reference is to a clip or a frame. -/
def IsValue (s : Shutdown) : ObjectRef → Prop
  | .object p => s.IsA .clip p
  | .frame _ => True

/-- The references of an object are of the right kinds. -/
def TypedObject (s : Shutdown) : PropObject → Prop
  | .storage data => ∀ e ∈ data.entries, s.IsA .array e.2.obj
  | v => ∀ r ∈ v.refs, s.IsValue r

/-- The references of a task are. -/
def TypedTask (s : Shutdown) : ShutdownTask → Prop
  | .assign _ _ array => s.IsA .array array
  | .assignMap _ storage => s.IsA .storage storage
  | _ => True

/-- All references are of the right kinds, and all frames are registered. -/
structure Typed (s : Shutdown) : Prop where
  lt : ∀ p v, s.objects.get p = some v → p < s.next
  objects : ∀ p v, s.objects.get p = some v → s.TypedObject v
  maps : ∀ f ptr, s.mapOf f = some ptr → s.IsA .storage ptr.obj
  outside : ∀ r ∈ s.outside, s.IsValue r
  work : ∀ task ∈ s.work, s.TypedTask task
  registered : ∀ f frame, s.frames.get f = some frame → f ∈ s.registered

/-- The kinds of one state are those of another. -/
structure Keeps (s t : Shutdown) : Prop where
  next : s.next ≤ t.next
  kind : ∀ p < s.next, ∀ v, t.objects.get p = some v →
    ∃ w, s.objects.get p = some w ∧ w.kind = v.kind

/-- References of the right kinds lead to references of the right kinds. -/
structure Types (s t : Shutdown) : Prop where
  typed : t.Typed
  keeps : s.Keeps t

theorem Keeps.refl (s : Shutdown) : s.Keeps s :=
  ⟨Nat.le_refl _, fun _ _ v hget => ⟨v, hget, rfl⟩⟩

theorem Keeps.trans (h : s.Keeps t) (h' : t.Keeps u) : s.Keeps u where
  next := Nat.le_trans h.next h'.next
  kind p hp v hget := by
    obtain ⟨w, hw, hkind⟩ := h'.kind p (Nat.lt_of_lt_of_le hp h.next) v hget
    obtain ⟨x, hx, hkind'⟩ := h.kind p hp w hw
    exact ⟨x, hx, hkind'.trans hkind⟩

theorem Typed.refl (h : s.Typed) : s.Types s := ⟨h, .refl s⟩

theorem Types.trans (h : s.Types t) (h' : t.Types u) : s.Types u :=
  ⟨h'.typed, h.keeps.trans h'.keeps⟩

theorem IsA.mono (h : s.IsA k p) (hkeeps : s.Keeps t) : t.IsA k p := by
  constructor
  · exact Nat.lt_of_lt_of_le h.1 hkeeps.next
  · intro v hget
    obtain ⟨w, hw, hkind⟩ := hkeeps.kind p h.1 v hget
    rw [← hkind]
    exact h.2 w hw

theorem IsValue.mono (h : s.IsValue r) (hkeeps : s.Keeps t) : t.IsValue r := by
  cases r with
  | object p => exact IsA.mono h hkeeps
  | frame f => trivial

theorem TypedObject.mono {v : PropObject} (h : s.TypedObject v) (hkeeps : s.Keeps t) :
    t.TypedObject v := by
  cases v with
  | storage data => exact fun e he => (h e he).mono hkeeps
  | array a => exact fun r hr => (h r hr).mono hkeeps
  | clip holds destructor => exact fun r hr => (h r hr).mono hkeeps

theorem TypedTask.mono {task : ShutdownTask} (h : s.TypedTask task) (hkeeps : s.Keeps t) :
    t.TypedTask task := by
  cases task with
  | release r => trivial
  | run op => trivial
  | assign p key array => exact IsA.mono h hkeeps
  | assignMap f storage => exact IsA.mono h hkeeps

section

variable (h : s.Typed)
include h

/-- What is new in a state has to be of the right kinds. -/
theorem Typed.keeps (hkeeps : s.Keeps t)
    (hobjects : ∀ p v, t.objects.get p = some v →
      s.objects.get p = some v ∨ p < t.next ∧ t.TypedObject v)
    (hmaps : ∀ f ptr, t.mapOf f = some ptr → s.mapOf f = some ptr ∨ t.IsA .storage ptr.obj)
    (houtside : ∀ r ∈ t.outside, r ∈ s.outside ∨ t.IsValue r)
    (hwork : ∀ task ∈ t.work, task ∈ s.work ∨ t.TypedTask task)
    (hregistered : ∀ f frame, t.frames.get f = some frame →
      (∃ frame', s.frames.get f = some frame') ∨ f ∈ t.registered)
    (hregistry : s.registered ⊆ t.registered) : s.Types t := by
  refine ⟨?_, hkeeps⟩
  constructor
  · intro p v hget
    rcases hobjects p v hget with hold | hnew
    · exact Nat.lt_of_lt_of_le (h.lt p v hold) hkeeps.next
    · exact hnew.1
  · intro p v hget
    rcases hobjects p v hget with hold | hnew
    · exact (h.objects p v hold).mono hkeeps
    · exact hnew.2
  · intro f ptr hmap
    rcases hmaps f ptr hmap with hold | hnew
    · exact (h.maps f ptr hold).mono hkeeps
    · exact hnew
  · intro r hr
    rcases houtside r hr with hold | hnew
    · exact (h.outside r hold).mono hkeeps
    · exact hnew
  · intro task htask
    rcases hwork task htask with hold | hnew
    · exact (h.work task hold).mono hkeeps
    · exact hnew
  · intro f frame hget
    rcases hregistered f frame hget with ⟨frame', hold⟩ | hnew
    · exact hregistry (h.registered f frame' hold)
    · exact hnew

/-- The objects change, and nothing else. -/
theorem Typed.setObjects {objects : RefHeap PropObject}
    (hkeeps : s.Keeps { s with objects })
    (hobjects : ∀ p v, objects.get p = some v →
      s.objects.get p = some v ∨ p < s.next ∧ TypedObject { s with objects } v) :
    s.Types { s with objects } :=
  h.keeps hkeeps hobjects (fun _ _ => .inl) (fun _ => .inl) (fun _ => .inl)
    (fun _ frame hget => .inl ⟨frame, hget⟩) (List.Subset.refl _)

theorem Typed.addRef (r : ObjectRef) : s.Types (s.addRef r) := by
  have hget : ∀ p, (s.addRef r).objects.get p = s.objects.get p := get_objects_addRef s r
  have hkeeps : s.Keeps (s.addRef r) := by
    constructor
    · rw [next_addRef]
    · intro p _ v hp
      exact ⟨v, (hget p).symm.trans hp, rfl⟩
  have hmap : ∀ g, (s.addRef r).mapOf g = s.mapOf g := by
    intro g
    rw [mapOf, get_frames_addRef, mapOf]
  cases r with
  | object p =>
    apply h.setObjects hkeeps
    intro q v hq
    exact .inl ((hget q).symm.trans hq)
  | frame f =>
    refine h.keeps hkeeps (fun _ _ => .inl) ?_ (fun _ => .inl) (fun _ => .inl) ?_
      (List.Subset.refl _)
    · intro g ptr hptr
      exact .inl ((hmap g).symm.trans hptr)
    · intro g frame hframe
      rw [get_frames_addRef] at hframe
      exact .inl ⟨frame, hframe⟩

theorem Typed.addRefs (rs : List ObjectRef) : s.Types (s.addRefs rs) := by
  induction rs generalizing s with
  | nil => exact h.refl
  | cons r rs ih =>
    have hfirst := h.addRef r
    exact hfirst.trans (ih hfirst.typed)

omit h in
/-- A new object is of its kind. -/
theorem isA_alloc (s : Shutdown) (v : PropObject) : (s.alloc v).IsA v.kind s.next := by
  constructor
  · exact Nat.lt_succ_self _
  · intro w hget
    rw [get_alloc, if_pos rfl] at hget
    cases hget
    rfl

theorem Typed.alloc {v : PropObject} (hv : s.TypedObject v) :
    s.Types (s.alloc v) := by
  have hkeeps : s.Keeps (s.alloc v) := by
    constructor
    · exact Nat.le_succ _
    · intro p hp w hget
      rw [get_alloc, if_neg (Nat.ne_of_lt hp)] at hget
      exact ⟨w, hget, rfl⟩
  refine h.keeps hkeeps ?_ (fun _ _ => .inl) (fun _ => .inl) (fun _ => .inl)
    (fun _ frame hget => .inl ⟨frame, hget⟩) (List.Subset.refl _)
  intro p w hget
  rw [get_alloc] at hget
  split at hget
  · next hp =>
    cases hget
    rw [hp]
    exact .inr ⟨Nat.lt_succ_self _, hv.mono hkeeps⟩
  · exact .inl hget

/-- An object is replaced by one of its kind. -/
theorem Typed.put {w : PropObject} (hp : s.IsA w.kind p) (hw : s.TypedObject w) :
    s.Types { s with objects := s.objects.put p w } := by
  have hput : ∀ q x, (s.objects.put p w).get q = some x →
      s.objects.get q = some x ∨ q = p ∧ x = w ∧ ∃ v, s.objects.get p = some v := by
    intro q x hq
    by_cases hqp : q = p
    · cases hlookup : s.objects.lookup p with
      | none =>
        simp only [RefHeap.put, hlookup] at hq
        exact .inl hq
      | some c =>
        have hget : s.objects.get p = some c.value := by
          rw [RefHeap.get, hlookup, Option.map_some]
        rw [hqp, get_put_self ⟨_, hget⟩] at hq
        cases hq
        exact .inr ⟨hqp, rfl, _, hget⟩
    · rw [get_put_ne hqp] at hq
      exact .inl hq
  have hkeeps : s.Keeps { s with objects := s.objects.put p w } := by
    constructor
    · exact Nat.le_refl _
    · intro q _ x hq
      rcases hput q x hq with hold | ⟨rfl, rfl, v, hget⟩
      · exact ⟨x, hold, rfl⟩
      · exact ⟨v, hget, hp.2 v hget⟩
  apply h.setObjects hkeeps
  intro q x hq
  rcases hput q x hq with hold | ⟨rfl, rfl, -⟩
  · exact .inl hold
  · exact .inr ⟨hp.1, hw.mono hkeeps⟩

theorem Typed.setEntries (hp : s.IsA .storage p)
    (hdata : ∀ e ∈ data.entries, s.IsA .array e.2.obj) : s.Types (s.setEntries p data) :=
  h.put hp hdata

/-- The frames stay, and one of them gets another storage. -/
theorem Typed.setMap (f : FramePtr) (ptr : IntrusivePtr)
    (hptr : s.IsA .storage ptr.obj) : s.Types (s.setMap f ptr) := by
  have hobjects := objects_setMap s f ptr
  have hnext : (s.setMap f ptr).next = s.next := by
    unfold Shutdown.setMap
    split <;> rfl
  have houtside : (s.setMap f ptr).outside = s.outside := by
    unfold Shutdown.setMap
    split <;> rfl
  have hwork : (s.setMap f ptr).work = s.work := by
    unfold Shutdown.setMap
    split <;> rfl
  have hregistered : (s.setMap f ptr).registered = s.registered := by
    unfold Shutdown.setMap
    split <;> rfl
  have hkeeps : s.Keeps (s.setMap f ptr) := by
    constructor
    · rw [hnext]
    · intro p _ v hget
      rw [hobjects] at hget
      exact ⟨v, hget, rfl⟩
  refine h.keeps hkeeps ?_ ?_ ?_ ?_ ?_ ?_
  · intro p v hget
    rw [hobjects] at hget
    exact .inl hget
  · intro g ptr' hmap
    obtain ⟨frame, hframe, hproperties⟩ := mapOf_eq hmap
    rw [get_setMap] at hframe
    obtain ⟨old, hold, hchanged⟩ := Option.map_eq_some_iff.mp hframe
    split at hchanged
    · subst hchanged
      cases hproperties
      exact .inr (hptr.mono hkeeps)
    · subst hchanged
      exact .inl (Option.bind_eq_some_iff.mpr ⟨old, hold, hproperties⟩)
  · rw [houtside]
    exact fun _ => .inl
  · rw [hwork]
    exact fun _ => .inl
  · intro g frame hframe
    rw [get_setMap] at hframe
    obtain ⟨old, hold, -⟩ := Option.map_eq_some_iff.mp hframe
    exact .inl ⟨old, hold⟩
  · rw [hregistered]
    exact List.Subset.refl _

theorem Typed.push {tasks : List ShutdownTask}
    (htasks : ∀ task ∈ tasks, s.TypedTask task) : s.Types (s.push tasks) := by
  have hkeeps : s.Keeps (s.push tasks) :=
    ⟨Nat.le_refl _, fun _ _ v hget => ⟨v, hget, rfl⟩⟩
  refine h.keeps hkeeps (fun _ _ => .inl) (fun _ _ => .inl) (fun _ => .inl) ?_
    (fun _ frame hget => .inl ⟨frame, hget⟩) (List.Subset.refl _)
  intro task htask
  rcases List.mem_append.mp htask with hnew | hold
  · exact .inr ((htasks task hnew).mono hkeeps)
  · exact .inl hold

omit h in
/-- A destructor's tasks only release and call. -/
theorem typed_destructorTasks (s : Shutdown) (v : PropObject) :
    ∀ task ∈ destructorTasks v, s.TypedTask task := by
  have hrelease : ∀ rs : List ObjectRef, ∀ task ∈ rs.map ShutdownTask.release,
      s.TypedTask task := by
    intro rs task htask
    obtain ⟨r, -, rfl⟩ := List.mem_map.mp htask
    trivial
  cases v with
  | storage data => exact hrelease _
  | array a => exact hrelease _
  | clip holds destructor =>
    intro task htask
    rcases List.mem_append.mp htask with hrun | hholds
    · obtain ⟨op, -, rfl⟩ := List.mem_map.mp hrun
      trivial
    · exact hrelease _ task hholds

theorem Typed.release (r : ObjectRef) : s.Types (s.release r) := by
  cases r with
  | frame f =>
    have hget : ∀ g, (s.frames.unref f).get g = s.frames.get g := get_unref _ _
    refine h.keeps ⟨Nat.le_refl _, fun _ _ v hget => ⟨v, hget, rfl⟩⟩ (fun _ _ => .inl) ?_
      (fun _ => .inl) (fun _ => .inl) ?_ (List.Subset.refl _)
    · intro g ptr hmap
      obtain ⟨frame, hframe, hproperties⟩ := mapOf_eq hmap
      exact .inl (Option.bind_eq_some_iff.mpr ⟨frame, (hget g).symm.trans hframe, hproperties⟩)
    · intro g frame hframe
      exact .inl ⟨frame, (hget g).symm.trans hframe⟩
  | object p =>
    have hget : ∀ q v, (s.objects.release p).2.get q = some v → s.objects.get q = some v := by
      intro q v hq
      rcases release_cases s.objects p with ⟨-, hsame⟩ | ⟨w, -, hp, herase⟩
      · exact (hsame q).symm.trans hq
      · rw [herase] at hq
        by_cases hqp : q = p
        · rw [hqp, RefHeap.get, AList.lookup_erase] at hq
          cases hq
        · rwa [get_erase_ne hqp] at hq
    have hfirst : s.Types { s with objects := (s.objects.release p).2 } := by
      apply h.setObjects
      · exact ⟨Nat.le_refl _, fun q _ v hq => ⟨v, hget q v hq, rfl⟩⟩
      · exact fun q v hq => .inl (hget q v hq)
    simp only [Shutdown.release]
    split
    · next objects hrelease =>
      rw [hrelease] at hfirst
      exact hfirst
    · next v objects hrelease =>
      rw [hrelease] at hfirst
      have hsecond := hfirst.typed.push (typed_destructorTasks _ v)
      exact ⟨{ hsecond.typed with }, { (hfirst.trans hsecond).keeps with }⟩

/-- An object that is there is of its kind. -/
theorem Typed.isA {v : PropObject} (hget : s.objects.get p = some v) :
    s.IsA v.kind p := by
  constructor
  · exact h.lt p v hget
  · intro w hw
    rw [hget] at hw
    cases hw
    rfl

theorem Typed.entries (hentries : s.entriesAt p = some data) :
    ∀ e ∈ data.entries, s.IsA .array e.2.obj := h.objects p _ (entriesAt_eq hentries)

end

theorem mem_entries_of_lookup {e : IntrusivePtr} (hlookup : data.lookup key = some e) :
    (⟨key, e⟩ : Sigma fun _ : String => IntrusivePtr) ∈ data.entries :=
  AList.mem_lookup_iff.mp hlookup

/-- The entries after an insertion. -/
theorem typed_insert (key : String) (e : IntrusivePtr)
    (hdata : ∀ e ∈ data.entries, s.IsA .array e.2.obj) (he : s.IsA .array e.obj) :
    ∀ e' ∈ (data.insert key e).entries, s.IsA .array e'.2.obj := by
  intro e' he'
  rw [AList.entries_insert] at he'
  rcases List.mem_cons.mp he' with rfl | hold
  · exact he
  · exact hdata e' ((List.kerase_sublist key data.entries).subset hold)

/-- The entries after one has been erased. -/
theorem typed_erase (key : String) (hdata : ∀ e ∈ data.entries, s.IsA .array e.2.obj) :
    ∀ e ∈ (data.erase key).entries, s.IsA .array e.2.obj := by
  intro e he
  exact hdata e ((List.kerase_sublist key data.entries).subset he)

section

variable (h : s.Typed)
include h

/-- A storage is made unique. -/
theorem Typed.detach (hp : s.IsA .storage p) :
    s.Types (s.detach f p).2 ∧ (s.detach f p).2.IsA .storage (s.detach f p).1 := by
  unfold Shutdown.detach
  split
  · exact ⟨h.refl, hp⟩
  · split
    · exact ⟨h.refl, hp⟩
    · next data hentries =>
      have hfirst := h.addRefs (entryRefs data)
      have hdata : (s.addRefs (entryRefs data)).TypedObject (.storage data) :=
        TypedObject.mono (v := .storage data) (h.entries hentries) hfirst.keeps
      have hsecond := hfirst.typed.alloc hdata
      have hnew : ((s.addRefs (entryRefs data)).alloc (.storage data)).IsA .storage s.next := by
        have hkind := isA_alloc (s.addRefs (entryRefs data)) (.storage data)
        rwa [next_addRefs] at hkind
      have hthird := hsecond.typed.setMap f ⟨s.next, true⟩ hnew
      have hfourth := hthird.typed.release (.object p)
      exact ⟨((hfirst.trans hsecond).trans hthird).trans hfourth,
        (hnew.mono hthird.keeps).mono hfourth.keeps⟩

theorem Typed.insertEntry (hq : s.IsA .array q) :
    s.Types (s.insertEntry p key q) := by
  unfold Shutdown.insertEntry
  split
  · exact h.refl
  · next data hentries =>
    have hdata := h.entries hentries
    have hp : s.IsA .storage p := h.isA (entriesAt_eq hentries)
    split
    · exact h.setEntries hp (typed_insert key _ hdata hq)
    · next old hlookup =>
      have hold : s.IsA .array old.obj := hdata _ (mem_entries_of_lookup hlookup)
      have hfirst := h.setEntries hp
        (typed_insert key ⟨old.obj, false⟩ hdata hold)
      apply hfirst.trans
      apply hfirst.typed.push
      intro task htask
      rcases List.mem_cons.mp htask with rfl | htask
      · trivial
      · cases List.mem_singleton.mp htask
        exact hq.mono hfirst.keeps

/-- An array goes into a storage. -/
theorem Typed.insertArray (hp : s.IsA .storage p) {a : VSArray PropValue}
    (ha : ∀ r ∈ (PropObject.array a).refs, s.IsValue r) : s.Types (s.insertArray f p key a) := by
  have hfirst := h.addRefs (PropObject.array a).refs
  have harray : (s.addRefs (PropObject.array a).refs).TypedObject (.array a) :=
    TypedObject.mono (v := .array a) ha hfirst.keeps
  have hsecond := hfirst.typed.alloc harray
  have hnew : ((s.addRefs (PropObject.array a).refs).alloc (.array a)).IsA .array s.next := by
    have hkind := isA_alloc (s.addRefs (PropObject.array a).refs) (.array a)
    rwa [next_addRefs] at hkind
  obtain ⟨hthird, -⟩ :=
    hsecond.typed.detach (f := f) ((hp.mono hfirst.keeps).mono hsecond.keeps)
  exact ((hfirst.trans hsecond).trans hthird).trans
    (hthird.typed.insertEntry (hnew.mono hthird.keeps))

theorem Typed.detachArray (hdetach : s.detachArray p key = some (q, t)) :
    s.Types t := by
  obtain ⟨data, hentries, hdetach⟩ := Option.bind_eq_some_iff.mp hdetach
  obtain ⟨e, hlookup, hdetach⟩ := Option.bind_eq_some_iff.mp hdetach
  split at hdetach
  · cases hdetach
    exact h.refl
  · obtain ⟨a, ha, heq⟩ := Option.map_eq_some_iff.mp hdetach
    cases heq
    have hvalues : ∀ r ∈ (PropObject.array a.copy).refs, s.IsValue r :=
      fun r hr => h.objects e.obj _ (arrayAt_eq ha) r (refs_copy hr)
    have hfirst := h.addRefs (PropObject.array a.copy).refs
    have harray : (s.addRefs (PropObject.array a.copy).refs).TypedObject (.array a.copy) :=
      TypedObject.mono (v := .array a.copy) hvalues hfirst.keeps
    have hsecond := hfirst.typed.alloc harray
    have hkeeps := hfirst.keeps.trans hsecond.keeps
    have hnew := isA_alloc (s.addRefs (PropObject.array a.copy).refs) (.array a.copy)
    rw [next_addRefs] at hnew
    have hdata : ∀ e ∈ data.entries, IsA ((s.addRefs (PropObject.array a.copy).refs).alloc
        (.array a.copy)) .array e.2.obj :=
      fun e he => (h.entries hentries e he).mono hkeeps
    have hp : s.IsA .storage p := h.isA (entriesAt_eq hentries)
    have hthird := hsecond.typed.setEntries (hp.mono hkeeps)
      (typed_insert key ⟨s.next, true⟩ hdata hnew)
    exact ((hfirst.trans hsecond).trans hthird).trans (hthird.typed.release _)

theorem Typed.pushBack {val : PropValue} (hval : ∀ r ∈ val.refs, s.IsValue r) :
    s.Types (s.pushBack q val) := by
  unfold Shutdown.pushBack
  split
  · exact h.refl
  · next a ha =>
    have hget := arrayAt_eq ha
    have hrefs : ∀ r ∈ (PropObject.array (a.pushBack val)).refs, s.IsValue r := by
      intro r hr
      have hmem : r ∈ ((PropObject.array (a.pushBack val)).refs : Multiset ObjectRef) := hr
      rw [refs_pushBack] at hmem
      rcases Multiset.mem_add.mp hmem with hnew | hold
      · rcases List.mem_append.mp (Multiset.mem_coe.mp hnew) with hmoved | hnew
        · split at hmoved
          · next hone =>
            have hzero : a.fsize ≠ 0 := by omega
            apply h.objects q _ hget r
            rw [PropObject.refs, VSArray.kept, if_neg hzero, List.flatMap_cons]
            exact List.mem_append_left _ hmoved
          · cases hmoved
        · exact hval r hnew
      · exact h.objects q _ hget r (Multiset.mem_coe.mp hold)
    have hfirst := h.addRefs ((if a.fsize = 1 then a.singleData.refs else []) ++ val.refs)
    have hq : s.IsA .array q := h.isA hget
    have harray : (s.addRefs ((if a.fsize = 1 then a.singleData.refs else []) ++
        val.refs)).TypedObject (.array (a.pushBack val)) :=
      TypedObject.mono (v := .array (a.pushBack val)) hrefs hfirst.keeps
    exact hfirst.trans (hfirst.typed.put (hq.mono hfirst.keeps) harray)

omit h in
/-- The references of an array of one value. -/
theorem refs_single (type : AVSPropertyType) (val : PropValue) :
    (PropObject.array ((VSArray.empty type).pushBack val)).refs = val.refs := by
  have hsize : (VSArray.empty type : VSArray PropValue).fsize = 0 := rfl
  rw [PropObject.refs, kept_pushBack, if_pos hsize, List.flatMap_singleton]

theorem Typed.propSetShared (hp : s.IsA .storage p) (type : AVSPropertyType) {val : PropValue}
    (hval : ∀ r ∈ val.refs, s.IsValue r) (mode : AVSPropAppendMode) :
    s.Types (s.propSetShared f p data key type val mode) := by
  have hsingle : ∀ r ∈ (PropObject.array ((VSArray.empty type).pushBack val)).refs,
      s.IsValue r := by
    rw [refs_single]
    exact hval
  unfold Shutdown.propSetShared
  split
  · exact h.insertArray hp hsingle
  · split
    · exact h.insertArray hp hsingle
    · split
      · split
        · exact h.refl
        · next q t hdetach =>
          obtain ⟨hfirst, -⟩ := h.detach (f := f) hp
          have hsecond := hfirst.typed.detachArray hdetach
          have hvalues : ∀ r ∈ val.refs, t.IsValue r :=
            fun r hr => ((hval r hr).mono hfirst.keeps).mono hsecond.keeps
          exact (hfirst.trans hsecond).trans (hsecond.typed.pushBack hvalues)
      · exact h.refl
  · split
    · apply h.insertArray hp
      intro r hr
      cases hr
    · exact h.refl

/-- What is available is a clip or a frame. -/
theorem Typed.isValue (hr : s.available r = true) : s.IsValue r := by
  cases r with
  | frame f => trivial
  | object p =>
    simp only [available] at hr
    split at hr
    · next hget => exact h.isA hget
    · cases hr

omit h in
theorem typed_releases (s : Shutdown) (rs : List ObjectRef) :
    ∀ task ∈ rs.map ShutdownTask.release, s.TypedTask task := by
  intro task htask
  obtain ⟨r, -, rfl⟩ := List.mem_map.mp htask
  trivial

/-- A property is set. -/
theorem Typed.propSet (type : AVSPropertyType) (val : PropValue)
    (mode : AVSPropAppendMode) : s.Types (s.propSet f key type val mode) := by
  unfold Shutdown.propSet
  split
  · exact h.refl
  · next ptr hmap =>
    split
    · exact h.refl
    · split
      · next hvalid =>
        have hfirst := h.addRefs val.refs
        have hsecond := hfirst.typed.push (typed_releases _ val.refs)
        have hkeeps := hfirst.keeps.trans hsecond.keeps
        have hval : ∀ r ∈ val.refs, s.IsValue r :=
          fun r hr => h.isValue (List.all_eq_true.mp hvalid.2 r hr)
        exact (hfirst.trans hsecond).trans (hsecond.typed.propSetShared
          ((h.maps f ptr hmap).mono hkeeps) type (fun r hr => (hval r hr).mono hkeeps) mode)
      · exact h.refl

/-- A new clip is set. -/
theorem Typed.propSetNewClip (holds : List ObjectRef) (destructor : List ClipOp)
    (mode : AVSPropAppendMode) : s.Types (s.propSetNewClip f key holds destructor mode) := by
  have hfirst := h.addRefs (holds.filter s.available)
  have hclip : (s.addRefs (holds.filter s.available)).TypedObject
      (.clip (holds.filter s.available) destructor) := by
    intro r hr
    exact (h.isValue (List.mem_filter.mp hr).2).mono hfirst.keeps
  have hsecond := hfirst.typed.alloc hclip
  have hthird := hsecond.typed.push (typed_releases _ [.object s.next])
  exact ((hfirst.trans hsecond).trans hthird).trans (hthird.typed.propSet .clip _ mode)

theorem Typed.propDeleteKey : s.Types (s.propDeleteKey f key) := by
  unfold Shutdown.propDeleteKey
  split
  · exact h.refl
  · next ptr hmap =>
    split
    · exact h.refl
    · next data hentries =>
      split
      · exact h.refl
      · next e hlookup =>
        obtain ⟨hfirst, hp⟩ := h.detach (f := f) (h.maps f ptr hmap)
        have hdata : ∀ e ∈ data.entries, (s.detach f ptr.obj).2.IsA .array e.2.obj :=
          fun e he => (h.entries hentries e he).mono hfirst.keeps
        have hsecond := hfirst.typed.setEntries hp (typed_erase key hdata)
        exact (hfirst.trans hsecond).trans
          (hsecond.typed.push (typed_releases _ [.object e.obj]))

/-- All properties are copied. -/
theorem Typed.copyFrameProps (src dst : FramePtr) :
    s.Types (s.copyFrameProps src dst) := by
  unfold Shutdown.copyFrameProps
  split
  · next shared old hshared hold =>
    have hfirst := h.addRef (.object shared.obj)
    have hsecond := hfirst.typed.setMap dst ⟨old.obj, false⟩
      ((h.maps dst old hold).mono hfirst.keeps)
    apply (hfirst.trans hsecond).trans
    apply hsecond.typed.push
    intro task htask
    rcases List.mem_cons.mp htask with rfl | htask
    · trivial
    · cases List.mem_singleton.mp htask
      exact ((h.maps src shared hshared).mono hfirst.keeps).mono hsecond.keeps
  · exact h.refl

/-- A frame is made and registered. -/
theorem Typed.addFrame (frame : PropFrame)
    (hframe : ∀ ptr, frame.properties = some ptr → s.IsA .storage ptr.obj)
    {registry : List RegistryEntry}
    (hregistry : s.registered ⊆ registry.flatMap RegistryEntry.frames)
    (hnew : s.next ∈ registry.flatMap RegistryEntry.frames) (k : ℕ) :
    s.Types { s with
      frames := s.frames.insert s.next ⟨0, frame⟩
      frameRegistry := registry
      next := s.next + 1 + k } := by
  have hkeeps : s.Keeps { s with
      frames := s.frames.insert s.next ⟨0, frame⟩
      frameRegistry := registry
      next := s.next + 1 + k } := by
    constructor
    · simp only
      omega
    · exact fun p _ v hget => ⟨v, hget, rfl⟩
  refine h.keeps hkeeps (fun _ _ => .inl) ?_ (fun _ => .inl) (fun _ => .inl) ?_ hregistry
  · intro g ptr hmap
    obtain ⟨frame', hget, hproperties⟩ := mapOf_eq hmap
    by_cases hg : g = s.next
    · rw [hg, RefHeap.get, AList.lookup_insert, Option.map_some] at hget
      cases hget
      exact .inr ((hframe ptr hproperties).mono hkeeps)
    · rw [RefHeap.get, AList.lookup_insert_ne hg] at hget
      exact .inl (Option.bind_eq_some_iff.mpr ⟨frame', hget, hproperties⟩)
  · intro g frame' hget
    by_cases hg : g = s.next
    · rw [hg]
      exact .inr hnew
    · simp only [RefHeap.get, AList.lookup_insert_ne hg] at hget
      exact .inl ⟨frame', hget⟩

end

theorem registered_append (registry : List RegistryEntry) (vfbSize vfb : ℕ) (g : FramePtr) :
    registry.flatMap RegistryEntry.frames ⊆ (modify
      (touch registry vfbSize vfb) vfbSize vfb (· ++ [g])).flatMap
        RegistryEntry.frames := by
  intro f hf
  obtain ⟨e, he, hf⟩ := List.mem_flatMap.mp hf
  obtain ⟨e', he', -, -, hprefix⟩ := registry_append registry vfbSize vfb g e he
  exact List.mem_flatMap.mpr ⟨e', he', hprefix.subset hf⟩

/-- The new frame is registered. -/
theorem registered_new (registry : List RegistryEntry) (vfbSize vfb : ℕ) (g : FramePtr) :
    g ∈ (modify (touch registry vfbSize vfb) vfbSize vfb
      (· ++ [g])).flatMap RegistryEntry.frames := by
  have hentry : ∃ e ∈ touch registry vfbSize vfb,
      HasKey vfbSize vfb e := by
    unfold touch
    split
    · next hany =>
      obtain ⟨e, he, hkey⟩ := List.any_eq_true.mp hany
      exact ⟨e, he, of_decide_eq_true hkey⟩
    · exact ⟨_, (List.mem_orderedInsert _).mpr (.inl rfl), rfl, rfl⟩
  obtain ⟨e, he, hkey⟩ := hentry
  refine List.mem_flatMap.mpr ⟨_, mem_modify.mpr ⟨e, he, rfl⟩, ?_⟩
  rw [if_pos hkey]
  exact List.mem_append_right _ (List.mem_singleton_self g)

theorem Typed.allocateFrame (h : s.Typed) (vfbSize : ℕ) : s.Types (s.allocateFrame vfbSize) := by
  have hempty : s.TypedObject (.storage ∅) := by
    intro e he
    cases he
  have hfirst := h.alloc hempty
  refine hfirst.trans (hfirst.typed.addFrame ⟨vfbSize, _, some ⟨s.next, true⟩⟩ ?_
    (registered_append _ _ _ _) (registered_new _ _ _ _) 1)
  intro ptr hptr
  cases hptr
  exact isA_alloc s (.storage ∅)

theorem Typed.addSubFrame (h : s.Typed) (hclosing : s.framePropertiesClosing = true)
    {frame : PropFrame} (hframe : ∀ ptr, frame.properties = some ptr → s.IsA .storage ptr.obj) :
    s.Types (s.addSubFrame frame) := by
  unfold Shutdown.addSubFrame Shutdown.registerSubFrame
  dsimp only
  rw [if_pos hclosing]
  exact h.addFrame frame hframe (registered_append _ _ _ _) (registered_new _ _ _ _) 0

/-- A subframe shares the properties. -/
theorem Typed.subframe (h : s.Typed) (hclosing : s.framePropertiesClosing = true)
    (src : FramePtr) : s.Types (s.subframe src) := by
  unfold Shutdown.subframe
  split
  · exact h.refl
  · next frame hframe =>
    split
    · next ptr hptr =>
      have hproperties := (Option.filter_eq_some_iff.mp hptr).1
      have hmap : s.mapOf src = some ptr :=
        Option.bind_eq_some_iff.mpr ⟨frame, hframe, hproperties⟩
      have hfirst := h.addRef (.object ptr.obj)
      refine hfirst.trans (hfirst.typed.addSubFrame hclosing ?_)
      intro ptr' hptr'
      cases hptr'
      exact (h.maps src ptr hmap).mono hfirst.keeps
    · have hempty : s.TypedObject (.storage ∅) := by
        intro e he
        cases he
      have hfirst := h.alloc hempty
      refine hfirst.trans (hfirst.typed.addSubFrame hclosing ?_)
      intro ptr hptr
      cases hptr
      exact isA_alloc s (.storage ∅)

/-- What is held outside changes. -/
theorem Typed.setOutside (h : s.Typed) (outside : List ObjectRef)
    (houtside : ∀ r ∈ outside, s.IsValue r) : s.Types { s with outside } := by
  have hkeeps : s.Keeps { s with outside } :=
    ⟨Nat.le_refl _, fun _ _ v hget => ⟨v, hget, rfl⟩⟩
  exact h.keeps hkeeps (fun _ _ => .inl) (fun _ _ => .inl)
    (fun r hr => .inr ((houtside r hr).mono hkeeps)) (fun _ => .inl)
    (fun _ frame hget => .inl ⟨frame, hget⟩) (List.Subset.refl _)

/-- A destructor calls back. -/
theorem Typed.runOp (h : s.Typed) (hclosing : s.framePropertiesClosing = true) (op : ClipOp) :
    s.Types (s.runOp op) := by
  cases op with
  | newVideoFrame vfbSize =>
    simp only [Shutdown.runOp, Shutdown.getNewFrame, hclosing, if_true]
    exact h.allocateFrame vfbSize
  | subframe src => exact h.subframe hclosing src
  | propSet f key type val mode => exact h.propSet type val mode
  | propSetNewClip f key holds destructor mode => exact h.propSetNewClip holds destructor mode
  | propDeleteKey f key => exact h.propDeleteKey
  | copyFrameProps src dst => exact h.copyFrameProps src dst
  | keep r =>
    simp only [Shutdown.runOp]
    split
    · next havailable =>
      have hfirst := h.addRef r
      refine hfirst.trans (hfirst.typed.setOutside _ ?_)
      intro r' hr'
      rcases List.mem_cons.mp hr' with rfl | hold
      · exact (h.isValue havailable).mono hfirst.keeps
      · exact (h.outside r' hold).mono hfirst.keeps
    · exact h.refl
  | forget r =>
    simp only [Shutdown.runOp]
    split
    · have hfirst := h.setOutside (s.outside.erase r)
        fun r' hr' => h.outside r' (List.mem_of_mem_erase hr')
      exact hfirst.trans (hfirst.typed.push (typed_releases _ [r]))
    · exact h.refl

end Shutdown

end AviSynth
