import AviSynth.Frames.PropertyShutdown

/-!
# The references of a shutdown

The count of every array, storage, clip and frame is the number of references that are
held: outside, by the maps of frames, by objects, by what remains to be done, and by the
call in progress. Each primitive moves references and leaves the registered frames.
-/

namespace AviSynth

open RefHeap

/-- The objects among some references. -/
def objectsOf (rs : Multiset ObjectRef) : Multiset ℕ := rs.filterMap ObjectRef.object?

/-- The frames among some references. -/
def framesOf (rs : Multiset ObjectRef) : Multiset FramePtr := rs.filterMap ObjectRef.frame?

@[simp] theorem objectsOf_object (p : ℕ) (rs : Multiset ObjectRef) :
    objectsOf (.object p ::ₘ rs) = p ::ₘ objectsOf rs := Multiset.filterMap_cons_some _ _ _ rfl

@[simp] theorem objectsOf_frame (f : FramePtr) (rs : Multiset ObjectRef) :
    objectsOf (.frame f ::ₘ rs) = objectsOf rs := Multiset.filterMap_cons_none _ _ rfl

@[simp] theorem framesOf_object (p : ℕ) (rs : Multiset ObjectRef) :
    framesOf (.object p ::ₘ rs) = framesOf rs := Multiset.filterMap_cons_none _ _ rfl

@[simp] theorem framesOf_frame (f : FramePtr) (rs : Multiset ObjectRef) :
    framesOf (.frame f ::ₘ rs) = f ::ₘ framesOf rs := Multiset.filterMap_cons_some _ _ _ rfl

variable {p : ℕ}

theorem mem_objectsOf {rs : Multiset ObjectRef} :
    p ∈ objectsOf rs ↔ .object p ∈ rs := by
  rw [objectsOf, Multiset.mem_filterMap]
  constructor
  · rintro ⟨r, hr, hp⟩
    cases r with
    | object q =>
      cases hp
      exact hr
    | frame f => cases hp
  · intro hp
    exact ⟨_, hp, rfl⟩

theorem mem_framesOf {f : FramePtr} {rs : Multiset ObjectRef} :
    f ∈ framesOf rs ↔ .frame f ∈ rs := by
  rw [framesOf, Multiset.mem_filterMap]
  constructor
  · rintro ⟨r, hr, hf⟩
    cases r with
    | object q => cases hf
    | frame g =>
      cases hf
      exact hr
  · intro hf
    exact ⟨_, hf, rfl⟩

theorem coe_cons_add (r : ObjectRef) (rs : List ObjectRef) (E : Multiset ObjectRef) :
    ((r :: rs : List ObjectRef) : Multiset ObjectRef) + E =
      r ::ₘ ((rs : Multiset ObjectRef) + E) := by
  rw [← Multiset.cons_coe, Multiset.cons_add]

/-- The reference that the map of a frame holds. -/
def PropFrame.refs (frame : PropFrame) : List ObjectRef :=
  frame.properties.elim [] IntrusivePtr.refs

/-- The reference that a task holds. -/
def ShutdownTask.refs : ShutdownTask → List ObjectRef
  | .release r => [r]
  | .run _ => []
  | .assign _ _ array => [.object array]
  | .assignMap _ storage => [.object storage]

/-- The calls that a task makes, with those of the clips that it creates. -/
def ShutdownTask.ops : ShutdownTask → ℕ
  | .run op => op.size
  | _ => 0

/-- The calls that an object makes when it is destroyed. -/
def PropObject.ops : PropObject → ℕ
  | .clip _ destructor => ClipOp.sizeOfList destructor
  | _ => 0

namespace Shutdown

/-- The references of a state. -/
def references (s : Shutdown) : Multiset ObjectRef :=
  (s.outside : Multiset ObjectRef) +
    s.frames.total (fun frame => (frame.refs : Multiset ObjectRef)) +
    s.objects.total (fun v => (v.refs : Multiset ObjectRef)) +
    (s.work.flatMap ShutdownTask.refs : List ObjectRef)

/-- The calls that remain to be made. -/
def ops (s : Shutdown) : ℕ := (s.work.map ShutdownTask.ops).sum + s.objects.total PropObject.ops

/-- The counts are those of the references, including the references `extra` of the call
in progress. Each object in use is referred to, and none has been destroyed twice. -/
structure Balanced (s : Shutdown) (extra : Multiset ObjectRef) : Prop where
  objects : s.objects.Counted (objectsOf (extra + s.references))
  frames : s.frames.Counted (framesOf (extra + s.references))
  used : s.objects.Used
  object_lt : ∀ p v, s.objects.get p = some v → p < s.next
  frame_lt : ∀ f frame, s.frames.get f = some frame → f < s.next
  nodup : s.destroyed.Nodup
  gone : ∀ p ∈ s.destroyed, p < s.next ∧ s.objects.get p = none

/-- Nothing is lost between two states: frames stay registered, and objects are there
or have been destroyed. -/
structure Extends (s t : Shutdown) : Prop where
  closing : t.framePropertiesClosing = s.framePropertiesClosing
  next : s.next ≤ t.next
  frames : ∀ f frame, s.frames.get f = some frame →
    ∃ frame', t.frames.get f = some frame' ∧ frame'.vfbSize = frame.vfbSize ∧
      frame'.vfb = frame.vfb
  registry : ∀ e ∈ s.frameRegistry, ∃ e' ∈ t.frameRegistry,
    e'.vfbSize = e.vfbSize ∧ e'.vfb = e.vfb ∧ e.frames <+: e'.frames
  objects : ∀ p v, s.objects.get p = some v → (∃ w, t.objects.get p = some w) ∨ p ∈ t.destroyed
  destroyed : s.destroyed <:+ t.destroyed

/-- A part of a call leads from one state to another, in which it holds the references
`extra`. It may create clips that make `n` more calls. -/
structure Moves (s t : Shutdown) (extra : Multiset ObjectRef) (n : ℕ) : Prop where
  balanced : t.Balanced extra
  extends_ : s.Extends t
  ops : t.ops ≤ s.ops + n
  /-- What remains to be done has grown at the front. -/
  work : s.work <:+ t.work

variable {s t u : Shutdown} {E E' : Multiset ObjectRef} {n m : ℕ}

theorem Extends.refl (s : Shutdown) : s.Extends s where
  closing := rfl
  next := Nat.le_refl _
  frames _ frame h := ⟨frame, h, rfl, rfl⟩
  registry e he := ⟨e, he, rfl, rfl, List.prefix_rfl⟩
  objects _ v h := .inl ⟨v, h⟩
  destroyed := List.suffix_rfl

theorem Extends.trans (h : s.Extends t) (h' : t.Extends u) : s.Extends u where
  closing := h'.closing.trans h.closing
  next := Nat.le_trans h.next h'.next
  frames f frame hget := by
    obtain ⟨frame', hget', hsize, hvfb⟩ := h.frames f frame hget
    obtain ⟨frame'', hget'', hsize', hvfb'⟩ := h'.frames f frame' hget'
    exact ⟨frame'', hget'', hsize'.trans hsize, hvfb'.trans hvfb⟩
  registry e he := by
    obtain ⟨e', he', hsize, hvfb, hprefix⟩ := h.registry e he
    obtain ⟨e'', he'', hsize', hvfb', hprefix'⟩ := h'.registry e' he'
    exact ⟨e'', he'', hsize'.trans hsize, hvfb'.trans hvfb, hprefix.trans hprefix'⟩
  objects p v hget := by
    rcases h.objects p v hget with ⟨w, hw⟩ | hmem
    · exact h'.objects p w hw
    · exact .inr (h'.destroyed.subset hmem)
  destroyed := h.destroyed.trans h'.destroyed

/-- Nothing moves. -/
theorem Balanced.moves_refl (h : s.Balanced E) : Moves s s E 0 :=
  ⟨h, .refl s, Nat.le_refl _, List.suffix_rfl⟩

/-- One move after another. -/
theorem Moves.trans (h : Moves s t E n) (h' : Moves t u E' m) : Moves s u E' (n + m) where
  balanced := h'.balanced
  extends_ := h.extends_.trans h'.extends_
  ops := by
    have hfirst := h.ops
    have hsecond := h'.ops
    omega
  work := h.work.trans h'.work

/-- A reference can be taken. -/
def Present (s : Shutdown) : ObjectRef → Prop
  | .object p => ∃ v, s.objects.get p = some v
  | .frame f => ∃ frame, s.frames.get f = some frame

/-- References lead somewhere. -/
theorem Balanced.present (h : s.Balanced E) {r : ObjectRef} (hr : r ∈ E + s.references) :
    s.Present r := by
  cases r with
  | object p => exact h.objects.get (mem_objectsOf.mpr hr)
  | frame f => exact h.frames.get (mem_framesOf.mpr hr)

@[simp] theorem references_addRef (s : Shutdown) (r : ObjectRef) :
    (s.addRef r).references = s.references := by
  cases r with
  | object | frame => simp only [references, addRef, total_addRef]

/-- A reference is counted. -/
theorem Balanced.addRef (h : s.Balanced E) {r : ObjectRef} (hr : s.Present r) :
    Moves s (s.addRef r) (r ::ₘ E) 0 := by
  have hrefs := references_addRef s r
  cases r with
  | object p =>
    obtain ⟨v, hget⟩ := hr
    have hobjects : (s.addRef (.object p)).objects = s.objects.addRef p := rfl
    constructor
    · constructor
      · rw [hrefs, Multiset.cons_add, objectsOf_object]
        exact h.objects.addRef_of_get hget
      · rw [hrefs, Multiset.cons_add, framesOf_object]
        exact h.frames
      · exact h.used.addRef p
      · intro q w hq
        rw [hobjects, get_addRef] at hq
        exact h.object_lt q w hq
      · exact h.frame_lt
      · exact h.nodup
      · intro q hq
        rw [hobjects, get_addRef]
        exact h.gone q hq
    · refine { Extends.refl s with objects := ?_ }
      intro q w hq
      rw [hobjects, get_addRef]
      exact .inl ⟨w, hq⟩
    · rw [Shutdown.ops, hobjects, total_addRef]
      exact Nat.le_refl _
    · exact List.suffix_rfl
  | frame f =>
    obtain ⟨frame, hget⟩ := hr
    have hframes : (s.addRef (.frame f)).frames = s.frames.addRef f := rfl
    constructor
    · constructor
      · rw [hrefs, Multiset.cons_add, objectsOf_frame]
        exact h.objects
      · rw [hrefs, Multiset.cons_add, framesOf_frame]
        exact h.frames.addRef_of_get hget
      · exact h.used
      · exact h.object_lt
      · intro g w hg
        rw [hframes, get_addRef] at hg
        exact h.frame_lt g w hg
      · exact h.nodup
      · exact h.gone
    · refine { Extends.refl s with frames := ?_ }
      intro g w hg
      rw [hframes, get_addRef]
      exact ⟨w, hg, rfl, rfl⟩
    · exact Nat.le_refl _
    · exact List.suffix_rfl

@[simp] theorem get_objects_addRef (s : Shutdown) (r : ObjectRef) (p : ℕ) :
    (s.addRef r).objects.get p = s.objects.get p := by
  cases r with
  | object q => exact get_addRef _ _ _
  | frame f => rfl

@[simp] theorem get_frames_addRef (s : Shutdown) (r : ObjectRef) (f : FramePtr) :
    (s.addRef r).frames.get f = s.frames.get f := by
  cases r with
  | object q => rfl
  | frame g => exact get_addRef _ _ _

@[simp] theorem next_addRef (s : Shutdown) (r : ObjectRef) : (s.addRef r).next = s.next := by
  cases r <;> rfl

@[simp] theorem get_objects_addRefs (s : Shutdown) (rs : List ObjectRef) (p : ℕ) :
    (s.addRefs rs).objects.get p = s.objects.get p := by
  induction rs generalizing s with
  | nil => rfl
  | cons r rs ih => exact (ih (s.addRef r)).trans (get_objects_addRef s r p)

@[simp] theorem get_frames_addRefs (s : Shutdown) (rs : List ObjectRef) (f : FramePtr) :
    (s.addRefs rs).frames.get f = s.frames.get f := by
  induction rs generalizing s with
  | nil => rfl
  | cons r rs ih => exact (ih (s.addRef r)).trans (get_frames_addRef s r f)

@[simp] theorem next_addRefs (s : Shutdown) (rs : List ObjectRef) :
    (s.addRefs rs).next = s.next := by
  induction rs generalizing s with
  | nil => rfl
  | cons r rs ih => exact (ih (s.addRef r)).trans (next_addRef s r)

/-- References are counted. -/
theorem Balanced.addRefs (h : s.Balanced E) {rs : List ObjectRef} (hrs : ∀ r ∈ rs, s.Present r) :
    Moves s (s.addRefs rs) ((rs : Multiset ObjectRef) + E) 0 := by
  induction rs generalizing s E with
  | nil => simpa [Shutdown.addRefs] using h.moves_refl
  | cons r rs ih =>
    have hfirst := h.addRef (hrs r List.mem_cons_self)
    have hpresent : ∀ r' ∈ rs, (s.addRef r).Present r' := by
      intro r' hr'
      have hold := hrs r' (List.mem_cons_of_mem r hr')
      cases r' with
      | object p => simpa [Present] using hold
      | frame f => simpa [Present] using hold
    have hrest := hfirst.trans (ih hfirst.balanced hpresent)
    rwa [Multiset.add_cons, ← Multiset.cons_add, Multiset.cons_coe] at hrest

/-- No object is at an address that has not been used. -/
theorem Balanced.lookup_next (h : s.Balanced E) : s.objects.lookup s.next = none := by
  cases hlookup : s.objects.lookup s.next with
  | none => rfl
  | some c =>
    have hget : s.objects.get s.next = some c.value := by
      rw [RefHeap.get, hlookup, Option.map_some]
    exact absurd (h.object_lt _ _ hget) (Nat.lt_irrefl _)

theorem get_alloc (s : Shutdown) (v : PropObject) (p : ℕ) :
    (s.alloc v).objects.get p = if p = s.next then some v else s.objects.get p := by
  by_cases hp : p = s.next
  · subst hp
    simp [alloc, RefHeap.get]
  · simp [alloc, RefHeap.get, AList.lookup_insert_ne hp, hp]

/-- An object takes over the references that it holds. -/
theorem Balanced.alloc {v : PropObject} (h : s.Balanced ((v.refs : Multiset ObjectRef) + E)) :
    Moves s (s.alloc v) (.object s.next ::ₘ E) v.ops := by
  have hnone := h.lookup_next
  have hrefs : (s.alloc v).references = (v.refs : Multiset ObjectRef) + s.references := by
    simp only [references, Shutdown.alloc, total_insertNew hnone]
    abel
  have hswap : (v.refs : Multiset ObjectRef) + E + s.references =
      E + ((v.refs : Multiset ObjectRef) + s.references) := by abel
  constructor
  · constructor
    · rw [hrefs, Multiset.cons_add, objectsOf_object, ← hswap]
      exact h.objects.insertNew hnone 1 v
    · rw [hrefs, Multiset.cons_add, framesOf_object, ← hswap]
      exact h.frames
    · exact h.used.insert s.next Int.one_pos
    · intro p w hget
      rw [get_alloc] at hget
      split at hget
      · next heq =>
        rw [heq]
        exact Nat.lt_succ_self _
      · exact Nat.lt_succ_of_lt (h.object_lt p w hget)
    · intro f frame hget
      exact Nat.lt_succ_of_lt (h.frame_lt f frame hget)
    · exact h.nodup
    · intro p hp
      obtain ⟨hlt, hgone⟩ := h.gone p hp
      rw [get_alloc, if_neg (Nat.ne_of_lt hlt)]
      exact ⟨Nat.lt_succ_of_lt hlt, hgone⟩
  · refine { Extends.refl s with next := Nat.le_succ _, objects := ?_ }
    intro p w hget
    rw [get_alloc, if_neg (Nat.ne_of_lt (h.object_lt p w hget))]
    exact .inl ⟨w, hget⟩
  · simp only [Shutdown.ops, Shutdown.alloc, total_insertNew hnone]
    omega
  · exact List.suffix_rfl

/-- An object is written to. -/
theorem Balanced.put {v w : PropObject} (h : s.Balanced E)
    (hget : s.objects.get p = some v)
    (hrefs : (w.refs : Multiset ObjectRef) + E' = (v.refs : Multiset ObjectRef) + E)
    (hops : w.ops = v.ops) : Moves s { s with objects := s.objects.put p w } E' 0 := by
  have htotal := total_put (f := fun v => (v.refs : Multiset ObjectRef)) hget w
  have heq : E' + { s with objects := s.objects.put p w }.references = E + s.references := by
    simp only [references]
    ext r
    have hcount := congrArg (Multiset.count r) htotal
    have hcount' := congrArg (Multiset.count r) hrefs
    simp only [Multiset.count_add] at hcount hcount' ⊢
    omega
  have hget' : ∀ q, (s.objects.put p w).get q = if q = p then some w else s.objects.get q := by
    intro q
    split
    · next hq => rw [hq, get_put_self ⟨v, hget⟩]
    · next hq => exact get_put_ne hq w
  constructor
  · constructor
    · rw [heq]
      exact h.objects.put p w
    · rw [heq]
      exact h.frames
    · exact h.used.put p w
    · intro q x hq
      rw [hget'] at hq
      split at hq
      · next hqp =>
        rw [hqp]
        exact h.object_lt p v hget
      · exact h.object_lt q x hq
    · exact h.frame_lt
    · exact h.nodup
    · intro q hq
      obtain ⟨hlt, hgone⟩ := h.gone q hq
      refine ⟨hlt, ?_⟩
      rw [hget', if_neg, hgone]
      rintro rfl
      rw [hgone] at hget
      cases hget
  · refine { Extends.refl s with objects := ?_ }
    intro q x hq
    rw [hget']
    split
    · exact .inl ⟨w, rfl⟩
    · exact .inl ⟨x, hq⟩
  · have hsum := total_put (f := PropObject.ops) hget w
    simp only [Shutdown.ops]
    omega
  · exact List.suffix_rfl

theorem get_setMap (s : Shutdown) (f : FramePtr) (ptr : IntrusivePtr) (g : FramePtr) :
    (s.setMap f ptr).frames.get g = (s.frames.get g).map fun frame =>
      if g = f then { frame with properties := some ptr } else frame := by
  unfold setMap
  cases hget : s.frames.get f with
  | none =>
    by_cases hg : g = f
    · rw [hg]
      simp [hget]
    · simp [hg]
  | some frame =>
    by_cases hg : g = f
    · subst hg
      simp [hget, get_put_self ⟨frame, hget⟩]
    · simp [hg, get_put_ne hg]

/-- The map of a frame is made to point elsewhere. -/
theorem Balanced.setMap {f : FramePtr} {frame : PropFrame} (h : s.Balanced E)
    (hget : s.frames.get f = some frame) (ptr : IntrusivePtr)
    (hrefs : (PropFrame.refs { frame with properties := some ptr } : Multiset ObjectRef) + E' =
      (frame.refs : Multiset ObjectRef) + E) : Moves s (s.setMap f ptr) E' 0 := by
  have hset : s.setMap f ptr =
      { s with frames := s.frames.put f { frame with properties := some ptr } } := by
    simp only [Shutdown.setMap, hget]
  have htotal := total_put (f := fun frame => (frame.refs : Multiset ObjectRef)) hget
    { frame with properties := some ptr }
  have heq : E' + (s.setMap f ptr).references = E + s.references := by
    rw [hset]
    simp only [references]
    ext r
    have hcount := congrArg (Multiset.count r) htotal
    have hcount' := congrArg (Multiset.count r) hrefs
    simp only [Multiset.count_add] at hcount hcount' ⊢
    omega
  constructor
  · constructor
    · rw [heq, hset]
      exact h.objects
    · rw [heq, hset]
      exact h.frames.put f _
    · rw [hset]
      exact h.used
    · rw [hset]
      exact h.object_lt
    · intro g frame' hg
      rw [get_setMap] at hg
      obtain ⟨old, hold, -⟩ := Option.map_eq_some_iff.mp hg
      rw [hset]
      exact h.frame_lt g old hold
    · rw [hset]
      exact h.nodup
    · rw [hset]
      exact h.gone
  · have hframes : ∀ g old, s.frames.get g = some old →
        ∃ new, (s.setMap f ptr).frames.get g = some new ∧ new.vfbSize = old.vfbSize ∧
          new.vfb = old.vfb := by
      intro g old hold
      rw [get_setMap, hold]
      refine ⟨_, rfl, ?_⟩
      split <;> exact ⟨rfl, rfl⟩
    rw [hset] at hframes ⊢
    exact { Extends.refl s with frames := hframes }
  · rw [hset]
    exact Nat.le_refl _
  · rw [hset]

/-- References are left to tasks. -/
theorem Balanced.push (h : s.Balanced E) (tasks : List ShutdownTask)
    (hrefs : E = (tasks.flatMap ShutdownTask.refs : List ObjectRef) + E') :
    Moves s (s.push tasks) E' (tasks.map ShutdownTask.ops).sum := by
  subst hrefs
  have hrefs : (s.push tasks).references =
      (tasks.flatMap ShutdownTask.refs : List ObjectRef) + s.references := by
    simp only [references, Shutdown.push, List.flatMap_append, ← Multiset.coe_add]
    abel
  have hswap : E' + (s.push tasks).references =
      (tasks.flatMap ShutdownTask.refs : List ObjectRef) + E' + s.references := by
    rw [hrefs]
    abel
  constructor
  · constructor
    · rw [hswap]
      exact h.objects
    · rw [hswap]
      exact h.frames
    · exact h.used
    · exact h.object_lt
    · exact h.frame_lt
    · exact h.nodup
    · exact h.gone
  · exact { Extends.refl s with }
  · simp only [Shutdown.ops, Shutdown.push, List.map_append, List.sum_append]
    omega
  · exact List.suffix_append _ _

/-- The calls of a destructor hold no references themselves. -/
theorem refs_runs (calls : List ClipOp) :
    (calls.map ShutdownTask.run).flatMap ShutdownTask.refs = [] := by
  induction calls with
  | nil => rfl
  | cons op ops ih =>
    rw [List.map_cons, List.flatMap_cons, ih, ShutdownTask.refs, List.nil_append]

/-- The destructor of an object releases the references that the object holds. -/
theorem refs_destructorTasks (v : PropObject) :
    (destructorTasks v).flatMap ShutdownTask.refs = v.refs := by
  have hrelease : ∀ rs : List ObjectRef,
      (rs.map ShutdownTask.release).flatMap ShutdownTask.refs = rs := by
    intro rs
    induction rs with
    | nil => rfl
    | cons r rs ih =>
      rw [List.map_cons, List.flatMap_cons, ih, ShutdownTask.refs, List.singleton_append]
  cases v with
  | storage data => exact hrelease _
  | array a => exact hrelease _
  | clip holds destructor =>
    rw [destructorTasks, List.flatMap_append, refs_runs, List.nil_append]
    exact hrelease holds

/-- It makes the calls that were counted for the object. -/
theorem ops_destructorTasks (v : PropObject) :
    ((destructorTasks v).map ShutdownTask.ops).sum = v.ops := by
  have hrelease : ∀ rs : List ObjectRef,
      ((rs.map ShutdownTask.release).map ShutdownTask.ops).sum = 0 := by
    intro rs
    induction rs with
    | nil => rfl
    | cons r rs ih =>
      rw [List.map_cons, List.map_cons, List.sum_cons, ih]
      rfl
  cases v with
  | storage data => exact hrelease _
  | array a => exact hrelease _
  | clip holds destructor =>
    rw [destructorTasks, List.map_append, List.sum_append, hrelease, PropObject.ops, Nat.add_zero]
    induction destructor with
    | nil => rfl
    | cons op ops ih =>
      rw [List.map_cons, List.map_cons, List.sum_cons, ih, ShutdownTask.ops, ClipOp.sizeOfList]

/-- A reference to a frame is released. -/
theorem Balanced.releaseFrame {f : FramePtr} (h : s.Balanced (.frame f ::ₘ E)) :
    Moves s (s.release (.frame f)) E 0 := by
  have hframes := h.frames
  rw [Multiset.cons_add, framesOf_frame] at hframes
  have hrefs : (s.release (.frame f)).references = s.references := by
    simp only [references, Shutdown.release, total_unref]
  have hget : ∀ g, (s.release (.frame f)).frames.get g = s.frames.get g := get_unref _ _
  constructor
  · constructor
    · rw [hrefs]
      have hobjects := h.objects
      rwa [Multiset.cons_add, objectsOf_frame] at hobjects
    · rw [hrefs]
      exact hframes.unref
    · exact h.used
    · exact h.object_lt
    · intro g frame hg
      rw [hget] at hg
      exact h.frame_lt g frame hg
    · exact h.nodup
    · exact h.gone
  · refine { Extends.refl s with frames := ?_ }
    intro g frame hg
    exact ⟨frame, (hget g).trans hg, rfl, rfl⟩
  · exact Nat.le_refl _
  · exact List.suffix_rfl

/-- The counts without a reference to an object. -/
theorem Balanced.counted_release (h : s.Balanced (.object p ::ₘ E)) :
    (s.objects.release p).2.Counted (objectsOf (E + s.references)) ∧
      s.frames.Counted (framesOf (E + s.references)) := by
  have hobjects := h.objects
  have hframes := h.frames
  rw [Multiset.cons_add, objectsOf_object] at hobjects
  rw [Multiset.cons_add, framesOf_object] at hframes
  have hnext := hobjects.release (Multiset.mem_cons_self p _)
  rw [Multiset.erase_cons_head] at hnext
  exact ⟨hnext, hframes⟩

/-- A reference to an object is released, and it is not the last one. -/
theorem Balanced.releaseKept (h : s.Balanced (.object p ::ₘ E))
    (hkept : (s.objects.release p).1 = none)
    (hsame : ∀ q, (s.objects.release p).2.get q = s.objects.get q) :
    Moves s (s.release (.object p)) E 0 := by
  have hrelease : s.release (.object p) = { s with objects := (s.objects.release p).2 } := by
    simp only [Shutdown.release]
    rw [← Prod.mk.eta (p := s.objects.release p), hkept]
  have htotal := total_release (fun v => (v.refs : Multiset ObjectRef)) s.objects p
  have hops := total_release PropObject.ops s.objects p
  simp only [hkept, Option.elim_none, zero_add] at htotal hops
  have hrefs : (s.release (.object p)).references = s.references := by
    rw [hrelease]
    simp only [references, htotal]
  obtain ⟨hnext, hframes⟩ := h.counted_release
  constructor
  · constructor
    · rw [hrefs, hrelease]
      exact hnext
    · rw [hrefs, hrelease]
      exact hframes
    · rw [hrelease]
      exact h.used.release p
    · intro q w hq
      rw [hrelease] at hq ⊢
      exact h.object_lt q w ((hsame q).symm.trans hq)
    · rw [hrelease]
      exact h.frame_lt
    · rw [hrelease]
      exact h.nodup
    · intro q hq
      rw [hrelease] at hq ⊢
      obtain ⟨hlt, hgone⟩ := h.gone q hq
      exact ⟨hlt, (hsame q).trans hgone⟩
  · rw [hrelease]
    refine { Extends.refl s with objects := ?_ }
    intro q w hq
    exact .inl ⟨w, (hsame q).trans hq⟩
  · rw [hrelease]
    simp only [Shutdown.ops]
    omega
  · rw [hrelease]

/-- The last reference to an object is released, and the object is destroyed. -/
theorem Balanced.releaseLast {v : PropObject} (h : s.Balanced (.object p ::ₘ E))
    (hfreed : (s.objects.release p).1 = some v) (hget : s.objects.get p = some v)
    (herase : (s.objects.release p).2 = s.objects.erase p) :
    Moves s (s.release (.object p)) E 0 := by
  have hrelease : s.release (.object p) =
      { s with
        objects := (s.objects.release p).2
        destroyed := p :: s.destroyed
        work := destructorTasks v ++ s.work } := by
    simp only [Shutdown.release]
    rw [← Prod.mk.eta (p := s.objects.release p), hfreed]
  have htotal := total_release (fun v => (v.refs : Multiset ObjectRef)) s.objects p
  have hops := total_release PropObject.ops s.objects p
  simp only [hfreed, Option.elim_some] at htotal hops
  have hrefs : (s.release (.object p)).references = s.references := by
    rw [hrelease]
    simp only [references, htotal, List.flatMap_append, refs_destructorTasks, ← Multiset.coe_add]
    abel
  obtain ⟨hnext, hframes⟩ := h.counted_release
  have hget' : ∀ q, (s.release (.object p)).objects.get q =
      if q = p then none else s.objects.get q := by
    intro q
    rw [hrelease]
    simp only [herase]
    split
    · next hq => rw [hq, RefHeap.get, AList.lookup_erase, Option.map_none]
    · next hq => exact get_erase_ne hq
  have hfresh : p ∉ s.destroyed := by
    intro hmem
    rw [(h.gone p hmem).2] at hget
    cases hget
  constructor
  · constructor
    · rw [hrefs, hrelease]
      exact hnext
    · rw [hrefs, hrelease]
      exact hframes
    · rw [hrelease]
      exact h.used.release p
    · intro q w hq
      rw [hget'] at hq
      split at hq
      · cases hq
      · rw [hrelease]
        exact h.object_lt q w hq
    · rw [hrelease]
      exact h.frame_lt
    · rw [hrelease]
      exact List.nodup_cons.mpr ⟨hfresh, h.nodup⟩
    · intro q hq
      rw [hget']
      rw [hrelease] at hq ⊢
      by_cases hqp : q = p
      · rw [if_pos hqp, hqp]
        exact ⟨h.object_lt p v hget, rfl⟩
      · rw [if_neg hqp]
        exact h.gone q ((List.mem_cons.mp hq).resolve_left hqp)
  · have hobjects' : ∀ q w, s.objects.get q = some w →
        (∃ w', (s.release (.object p)).objects.get q = some w') ∨
          q ∈ (s.release (.object p)).destroyed := by
      intro q w hq
      rw [hget']
      by_cases hqp : q = p
      · right
        rw [hrelease]
        exact List.mem_cons.mpr (.inl hqp)
      · rw [if_neg hqp]
        exact .inl ⟨w, hq⟩
    rw [hrelease] at hobjects' ⊢
    exact { Extends.refl s with
      objects := hobjects'
      destroyed := List.suffix_cons p s.destroyed }
  · rw [hrelease]
    simp only [Shutdown.ops, List.map_append, List.sum_append, ops_destructorTasks]
    omega
  · rw [hrelease]
    exact List.suffix_append _ _

/-- A reference is released. -/
theorem Balanced.release {r : ObjectRef} (h : s.Balanced (r ::ₘ E)) :
    Moves s (s.release r) E 0 := by
  cases r with
  | frame f => exact h.releaseFrame
  | object p =>
    rcases release_cases s.objects p with ⟨hkept, hsame⟩ | ⟨v, hfreed, hget, herase⟩
    · exact h.releaseKept hkept hsame
    · exact h.releaseLast hfreed hget herase

end Shutdown

end AviSynth
