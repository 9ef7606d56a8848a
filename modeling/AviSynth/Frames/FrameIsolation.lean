import AviSynth.Frames.FrameAllocation
import AviSynth.Frames.FrameCopies

/-!
# No frame sees what is done to another

The count of a frame is the number of variables that point to it, and that of a
buffer the number of frames on it. So a frame that is found writable is the only
one that shows its buffer, and a frame that is found property-writable is pointed
to by one variable only.
-/

namespace AviSynth

open Transition RefHeap PixelType
open AllocationSystem (cpuAlignment)

namespace SharedFrames

variable {V : Type} {s t u : SharedFrames V} {refs : Multiset ℕ} {p q : ℕ} {x y : FrameObject}

/-- The buffers that the frames are made on. -/
abbrev vfbRefs (frames : RefHeap FrameObject) : Multiset ℕ := frames.owned fun x => [x.vfb]

/-- `refs` are the pointers to frames. Every frame has a map. -/
structure Owns (s : SharedFrames V) (refs : Multiset ℕ) : Prop where
  frames : s.frames.Counted refs
  vfbs : s.vfbs.Counted (vfbRefs s.frames)
  properties : s.properties.Owned
  mapped : ∀ p, (s.properties.view p).isSome = (s.frames.get p).isSome
  regular : ∀ p x, s.frames.get p = some x → FrameObject.Regular x.layout

/-- The pointers are those of the variables. -/
def Coherent (s : SharedFrames V) : Prop := Owns s s.handles.values

/-- A frame and what it shows are the same before and after. -/
structure Same (s t : SharedFrames V) (q : ℕ) : Prop where
  frame : t.frames.get q = s.frames.get q
  vfb : ∀ x, s.frames.get q = some x → t.vfbs.get x.vfb = s.vfbs.get x.vfb
  properties : t.properties.view q = s.properties.view q

theorem Same.refl (s : SharedFrames V) (q : ℕ) : Same s s q := ⟨rfl, fun _ _ => rfl, rfl⟩

theorem Same.trans (hst : Same s t q) (htu : Same t u q) : Same s u q where
  frame := htu.frame.trans hst.frame
  vfb x hx := (htu.vfb x (hst.frame.trans hx)).trans (hst.vfb x hx)
  properties := htu.properties.trans hst.properties

/-- The picture that a frame shows. -/
def pictureOf (s : SharedFrames V) (p : ℕ) : Option Picture :=
  (s.frames.get p).bind fun x => (s.vfbs.get x.vfb).map x.picture

/-- A frame that is the same shows the same. -/
theorem Same.picture (h : Same s t q) : t.pictureOf q = s.pictureOf q := by
  rw [pictureOf, pictureOf, h.frame]
  cases hx : s.frames.get q with
  | none => rfl
  | some x => rw [Option.bind_some, Option.bind_some, h.vfb x hx]

/-- The buffer of a frame is one that frames are made on. -/
theorem mem_vfbRefs (hx : s.frames.get p = some x) : x.vfb ∈ vfbRefs s.frames :=
  mem_owned hx List.mem_cons_self

/-- A frame that exists has a map. -/
theorem Owns.view (h : Owns s refs) (hx : s.frames.get p = some x) :
    ∃ m, s.properties.view p = some m :=
  Option.isSome_iff_exists.mp ((h.mapped p).trans (by rw [hx]; rfl))

/-- A pointer leads to a frame. -/
theorem Owns.get (h : Owns s refs) (hp : p ∈ refs) : ∃ x, s.frames.get p = some x :=
  h.frames.get hp

variable [Inhabited V] {a : MapAction ℕ V}

/-- What an operation on property maps does. -/
theorem onProperties_spec (h : s.properties.Owned) (hstep : s.onProperties a = some t) :
    ∃ e, t.properties.Owned ∧
      MapSystem.independentStep s.properties.view a = some (t.properties.view, e) ∧
      t = { s with properties := t.properties } := by
  obtain ⟨⟨properties, e⟩, hmap, rfl⟩ := Option.map_eq_some_iff.mp hstep
  obtain ⟨howned, hindependent⟩ := MapSystem.step_independent h hmap
  exact ⟨e, howned, hindependent, rfl⟩

/-- A pointer to a frame goes away. -/
theorem Owns.releaseFrame (h : Owns s (p ::ₘ refs)) (hstep : s.releaseFrame p = some t) :
    Owns t refs ∧ (∀ q ∈ refs, Same s t q) ∧ t.handles = s.handles := by
  have hframes := h.frames.release (Multiset.mem_cons_self p refs)
  have hkept : ∀ q ∈ refs, (s.frames.release p).2.get q = s.frames.get q := by
    intro q hq
    apply h.frames.get_release
    rwa [Multiset.erase_cons_head]
  rw [Multiset.erase_cons_head] at hframes
  have howned := owned_release (fun x : FrameObject => [x.vfb]) s.frames p
  unfold SharedFrames.releaseFrame at hstep
  rcases release_cases s.frames p with ⟨hnone, hall⟩ | ⟨x, hsome, hx, herase⟩
  · rcases hrelease : s.frames.release p with ⟨_ | x, frames⟩
    · rw [hrelease] at hstep howned hall hframes hkept
      cases hstep
      simp only [Option.elim_none, Multiset.coe_nil, Multiset.zero_add] at howned
      refine ⟨⟨hframes, ?_, h.properties, ?_, ?_⟩, ?_, rfl⟩
      · have hvfbs := h.vfbs
        rw [vfbRefs, howned] at hvfbs
        exact hvfbs
      · intro q
        rw [h.mapped, hall]
      · intro q y hy
        exact h.regular q y ((hall q).symm.trans hy)
      · exact fun q hq => ⟨hkept q hq, fun _ _ => rfl, rfl⟩
    · rw [hrelease] at hnone
      cases hnone
  · have hrelease : s.frames.release p = (some x, s.frames.erase p) := Prod.ext hsome herase
    rw [hrelease] at hstep howned hframes hkept
    simp only [Option.elim_some] at howned
    obtain ⟨e, hproperties, hdestroy, ht⟩ := onProperties_spec (by exact h.properties) hstep
    obtain ⟨m, hm⟩ := h.view hx
    simp only [MapSystem.independentStep, hm, Option.map_some, Option.some.injEq,
      Prod.mk.injEq] at hdestroy
    obtain ⟨hview, -⟩ := hdestroy
    have hvfbs := h.vfbs
    rw [vfbRefs, howned, Multiset.coe_singleton, Multiset.singleton_add] at hvfbs
    have hreleased := hvfbs.release (Multiset.mem_cons_self x.vfb _)
    rw [Multiset.erase_cons_head] at hreleased
    have hgone : RefHeap.get (s.frames.erase p) p = none := by
      rw [RefHeap.get, AList.lookup_erase]
      rfl
    rw [ht]
    refine ⟨⟨hframes, hreleased, hproperties, ?_, ?_⟩, ?_, rfl⟩
    · intro q
      simp only [← hview]
      by_cases hq : q = p
      · subst hq
        rw [Function.update_self, hgone]
        rfl
      · rw [Function.update_of_ne hq, h.mapped, get_erase_ne hq]
    · intro q y hy
      have hq : q ≠ p := by
        rintro rfl
        rw [hgone] at hy
        cases hy
      exact h.regular q y ((get_erase_ne hq).symm.trans hy)
    · intro q hq
      obtain ⟨y, hy⟩ := hframes.get hq
      have hqp : q ≠ p := by
        rintro rfl
        rw [hgone] at hy
        cases hy
      refine ⟨hkept q hq, fun z hz => ?_, ?_⟩
      · have hz' := (hkept q hq).trans hz
        apply hvfbs.get_release
        rw [Multiset.erase_cons_head]
        exact mem_owned hz' List.mem_cons_self
      · simp only [← hview]
        exact Function.update_of_ne hqp _ _

/-- A frame is added on a buffer that counts it. -/
theorem Owns.addFrame {src : Option ℕ} (hframes : s.frames.Counted refs)
    (hvfbs : s.vfbs.Counted (x.vfb ::ₘ vfbRefs s.frames)) (hproperties : s.properties.Owned)
    (hmapped : ∀ p, (s.properties.view p).isSome = (s.frames.get p).isSome)
    (hregular : ∀ p x, s.frames.get p = some x → FrameObject.Regular x.layout)
    (hx : FrameObject.Regular x.layout) (hsrc : ∀ q, src = some q → q ≠ s.frames.fresh)
    (hstep : s.addFrame x src = some t) :
    Owns t (s.frames.fresh ::ₘ refs) ∧ (∀ q, q ≠ s.frames.fresh → Same s t q) ∧
      t.frames.get s.frames.fresh = some x ∧ t.vfbs = s.vfbs ∧ t.handles = s.handles ∧
      ∀ q, src = some q → t.properties.view s.frames.fresh = s.properties.view q := by
  have hfresh : s.frames.get s.frames.fresh = none := by
    rw [RefHeap.get, lookup_fresh]
    rfl
  have hgetNew : (s.frames.alloc x).get s.frames.fresh = some x := get_alloc_self s.frames x
  have hgetOld : ∀ q, q ≠ s.frames.fresh → (s.frames.alloc x).get q = s.frames.get q := by
    intro q hq
    rw [RefHeap.get, RefHeap.alloc, AList.lookup_insert_ne hq, RefHeap.get]
  have hrefs : vfbRefs (s.frames.alloc x) = x.vfb ::ₘ vfbRefs s.frames := by
    rw [vfbRefs, owned_alloc, Multiset.coe_singleton, Multiset.singleton_add]
  obtain ⟨u, hcreate, hstep⟩ := Option.bind_eq_some_iff.mp hstep
  obtain ⟨e, howned, hindependent, hu⟩ := onProperties_spec hproperties hcreate
  have hnoMap : s.properties.view s.frames.fresh = none := by
    rw [← Option.not_isSome_iff_eq_none, hmapped, hfresh]
    exact Bool.false_ne_true
  simp only [MapSystem.independentStep, hnoMap, Option.isSome_none, Bool.false_eq_true, if_false,
    Option.some.injEq, Prod.mk.injEq] at hindependent
  obtain ⟨hview, -⟩ := hindependent
  have hall : ∀ {v : MapSystem ℕ V} {m : PropMap V}, v.Owned →
      v.view = Function.update s.properties.view s.frames.fresh (some m) →
      Owns (⟨s.frames.alloc x, s.vfbs, v, s.handles⟩ : SharedFrames V) (s.frames.fresh ::ₘ refs) ∧
        ∀ q, q ≠ s.frames.fresh → Same s ⟨s.frames.alloc x, s.vfbs, v, s.handles⟩ q := by
    intro v m hv hviews
    refine ⟨⟨hframes.alloc x, ?_, hv, ?_, ?_⟩, ?_⟩
    · rw [hrefs]
      exact hvfbs
    · intro q
      simp only [hviews]
      by_cases hq : q = s.frames.fresh
      · rw [hq, Function.update_self, hgetNew]
        rfl
      · rw [Function.update_of_ne hq, hmapped, hgetOld q hq]
    · intro q y hy
      by_cases hq : q = s.frames.fresh
      · subst hq
        obtain rfl := Option.some.inj (hgetNew.symm.trans hy)
        exact hx
      · exact hregular q y ((hgetOld q hq).symm.trans hy)
    · intro q hq
      refine ⟨hgetOld q hq, fun _ _ => rfl, ?_⟩
      simp only [hviews]
      exact Function.update_of_ne hq _ _
  cases src with
  | none =>
    cases hstep
    rw [hu]
    obtain ⟨howns, hsame⟩ := hall howned hview.symm
    refine ⟨howns, hsame, hgetNew, rfl, rfl, ?_⟩
    intro q hq
    cases hq
  | some q =>
    obtain ⟨e', howned', hindependent', ht⟩ := onProperties_spec (by exact howned) hstep
    have hq := hsrc q rfl
    obtain ⟨m, hm, hassign⟩ := Option.bind_eq_some_iff.mp hindependent'
    simp only [← hview, Function.update_of_ne hq] at hm
    obtain ⟨old, -, heq⟩ := Option.map_eq_some_iff.mp hassign
    obtain ⟨hview', -⟩ := Prod.mk.inj heq
    simp only [MapAction.target, ← hview, Function.update_idem] at hview'
    obtain ⟨howns, hsame⟩ := hall howned' hview'.symm
    rw [ht, hu]
    refine ⟨howns, hsame, hgetNew, rfl, rfl, ?_⟩
    intro q' hq'
    obtain rfl := Option.some.inj hq'
    simp only [← hview', Function.update_self, hm]

/-- A frame is added on the buffer of another. -/
theorem Owns.derive (h : Owns s refs) (hx : s.frames.get p = some x) (hy : y.vfb = x.vfb)
    (hregular : FrameObject.Regular y.layout) (hstep : s.derive p y = some t) :
    Owns t (s.frames.fresh ::ₘ refs) ∧ (∀ q, q ≠ s.frames.fresh → Same s t q) ∧
      t.frames.get s.frames.fresh = some y ∧ t.vfbs.get x.vfb = s.vfbs.get x.vfb ∧
      t.handles = s.handles := by
  have hvfbs := h.vfbs.addRef (mem_vfbRefs hx)
  rw [← hy] at hvfbs
  have hfresh : p ≠ s.frames.fresh := by
    rintro rfl
    rw [RefHeap.get, lookup_fresh] at hx
    cases hx
  have hsrc : ∀ q, (if 0 < s.propNumKeys p then some p else none) = some q →
      q ≠ s.frames.fresh := by
    intro q hq
    split_ifs at hq
    obtain rfl := Option.some.inj hq
    exact hfresh
  obtain ⟨howns, hsame, hget, hvfbsEq, hhandles, -⟩ := Owns.addFrame
    (s := { s with vfbs := s.vfbs.addRef y.vfb }) h.frames hvfbs h.properties h.mapped h.regular
    hregular hsrc hstep
  refine ⟨howns, fun q hq => ?_, hget, ?_, hhandles⟩
  · obtain ⟨hframe, hvfb, hproperties⟩ := hsame q hq
    exact ⟨hframe, fun z hz => (hvfb z hz).trans (get_addRef _ _ _), hproperties⟩
  · rw [hvfbsEq]
    exact get_addRef _ _ _

/-- A frame is added on a buffer of its own. -/
theorem Owns.newBuffer (h : Owns s refs) {memory : ℤ → UInt8} {src : Option ℕ}
    (hy : y.vfb = s.vfbs.fresh) (hregular : FrameObject.Regular y.layout)
    (hsrc : ∀ q, src = some q → q ≠ s.frames.fresh)
    (hstep : SharedFrames.addFrame { s with vfbs := s.vfbs.alloc memory } y src = some t) :
    Owns t (s.frames.fresh ::ₘ refs) ∧ (∀ q, q ≠ s.frames.fresh → Same s t q) ∧
      t.frames.get s.frames.fresh = some y ∧ t.vfbs.get y.vfb = some memory ∧
      t.handles = s.handles ∧
      (∀ q, src = some q → t.properties.view s.frames.fresh = s.properties.view q) := by
  have hvfbs := h.vfbs.alloc memory
  rw [← hy] at hvfbs
  obtain ⟨howns, hsame, hget, hvfbsEq, hhandles, hview⟩ := Owns.addFrame
    (s := { s with vfbs := s.vfbs.alloc memory }) h.frames hvfbs h.properties h.mapped h.regular
    hregular hsrc hstep
  refine ⟨howns, fun q hq => ?_, hget, ?_, hhandles, hview⟩
  · obtain ⟨hframe, hvfb, hproperties⟩ := hsame q hq
    exact ⟨hframe, fun z hz => (hvfb z hz).trans (h.vfbs.get_alloc (mem_vfbRefs hz) memory),
      hproperties⟩
  · rw [hvfbsEq, hy]
    exact get_alloc_self _ _

/-- What an action that works through the variable `dst` leaves as it is. -/
structure Leaves (s t : SharedFrames V) (dst : ℕ) : Prop where
  coherent : Coherent t
  handles : ∀ k, k ≠ dst → t.handles.lookup k = s.handles.lookup k
  same : ∀ k p, k ≠ dst → s.handles.lookup k = some p → Same s t p

section

variable (h : Coherent s)
include h

omit [Inhabited V] in
theorem Leaves.refl (dst : ℕ) : Leaves s s dst :=
  ⟨h, fun _ _ => rfl, fun _ p _ _ => .refl s p⟩

omit [Inhabited V] in
/-- A pointer in a variable leads to a frame. -/
theorem Coherent.get {k : ℕ} (hk : s.handles.lookup k = some p) :
    ∃ x, s.frames.get p = some x := Owns.get h (AList.mem_values hk)

omit [Inhabited V] in
/-- It does not lead to a frame that is yet to be made. -/
theorem Coherent.ne_fresh {k : ℕ} (hk : s.handles.lookup k = some p) :
    p ≠ s.frames.fresh := by
  rintro rfl
  obtain ⟨x, hx⟩ := h.get hk
  rw [RefHeap.get, lookup_fresh] at hx
  cases hx

variable {dst : ℕ}

omit [Inhabited V] in
/-- A variable that held no pointer gets one to a new frame. -/
theorem Coherent.setNew (hdst : s.handles.lookup dst = none)
    (howns : Owns t (s.frames.fresh ::ₘ s.handles.values))
    (hsame : ∀ q, q ≠ s.frames.fresh → Same s t q) (hhandles : t.handles = s.handles) :
    Leaves s { t with handles := t.handles.insert dst s.frames.fresh } dst := by
  constructor
  · have hvalues : (t.handles.insert dst s.frames.fresh).values =
        s.frames.fresh ::ₘ s.handles.values := by
      rw [AList.values_insert, hhandles, AList.erase_of_lookup_none hdst]
    rw [Coherent, hvalues]
    exact ⟨howns.frames, howns.vfbs, howns.properties, howns.mapped, howns.regular⟩
  · intro k hk
    rw [AList.lookup_insert_ne hk, hhandles]
  · intro k p hk hp
    obtain ⟨hframe, hvfb, hproperties⟩ := hsame p (h.ne_fresh hp)
    exact ⟨hframe, hvfb, hproperties⟩

/-- A variable is made to point to a new frame instead. -/
theorem Coherent.replace (hdst : s.handles.lookup dst = some p)
    (howns : Owns t (s.frames.fresh ::ₘ s.handles.values))
    (hsame : ∀ q, q ≠ s.frames.fresh → Same s t q) (hhandles : t.handles = s.handles)
    (hstep : t.assignHandle dst s.frames.fresh p = some u) :
    Leaves s u dst ∧ u.handles.lookup dst = some s.frames.fresh ∧ Same t u s.frames.fresh := by
  have hrest : s.frames.fresh ::ₘ s.handles.values =
      p ::ₘ s.frames.fresh ::ₘ (s.handles.erase dst).values := by
    rw [AList.values_of_lookup hdst, Multiset.cons_swap]
  rw [hrest] at howns
  have hset : Owns { t with handles := t.handles.insert dst s.frames.fresh }
      (p ::ₘ s.frames.fresh ::ₘ (s.handles.erase dst).values) :=
    ⟨howns.frames, howns.vfbs, howns.properties, howns.mapped, howns.regular⟩
  obtain ⟨howns', hsame', hhandles'⟩ := hset.releaseFrame hstep
  have hvalues : u.handles.values = s.frames.fresh ::ₘ (s.handles.erase dst).values := by
    rw [hhandles', AList.values_insert, hhandles]
  have hfresh : Same t u s.frames.fresh := by
    obtain ⟨hframe, hvfb, hproperties⟩ := hsame' _ (Multiset.mem_cons_self _ _)
    exact ⟨hframe, hvfb, hproperties⟩
  refine ⟨⟨?_, ?_, ?_⟩, ?_, hfresh⟩
  · rw [Coherent, hvalues]
    exact howns'
  · intro k hk
    rw [hhandles', AList.lookup_insert_ne hk, hhandles]
  · intro k q hk hq
    have hmem : q ∈ (s.handles.erase dst).values := by
      rw [← AList.lookup_erase_ne hk] at hq
      exact AList.mem_values hq
    obtain ⟨hframe, hvfb, hproperties⟩ := hsame' q (Multiset.mem_cons_of_mem hmem)
    exact (hsame q (h.ne_fresh hq)).trans ⟨hframe, hvfb, hproperties⟩
  · rw [hhandles']
    exact AList.lookup_insert _

omit [Inhabited V] in
/-- A frame that one variable points to. -/
theorem Coherent.unique {dst k : ℕ} (hdst : s.handles.lookup dst = some p)
    (hunique : s.frames.Unique p) (hk : s.handles.lookup k = some p) : k = dst := by
  have hone := (h.frames.unique_iff (AList.mem_values hdst)).mp hunique
  exact AList.eq_of_count_values hone hdst hk

omit [Inhabited V] in
/-- A frame that is writable is the only one on its buffer. -/
theorem Coherent.alone (hx : s.frames.get p = some x) (hunique : s.vfbs.Unique x.vfb)
    (hy : s.frames.get q = some y) (hvfb : y.vfb = x.vfb) :
    q = p := by
  have hone := (h.vfbs.unique_iff (mem_vfbRefs hx)).mp hunique
  apply eq_of_count_owned hone hx List.mem_cons_self hy
  rw [hvfb]
  exact List.mem_cons_self

omit [Inhabited V] in
/-- A pointer is copied. -/
theorem Coherent.copy {dst src : ℕ} (hdst : s.handles.lookup dst = none)
    (hsrc : s.handles.lookup src = some p) :
    Leaves s { s with frames := s.frames.addRef p, handles := s.handles.insert dst p } dst := by
  constructor
  · have hvalues : (s.handles.insert dst p).values = p ::ₘ s.handles.values := by
      rw [AList.values_insert, AList.erase_of_lookup_none hdst]
    have hget : ∀ q, (s.frames.addRef p).get q = s.frames.get q := get_addRef s.frames p
    have howned : vfbRefs (s.frames.addRef p) = vfbRefs s.frames := owned_addRef s.frames p
    rw [Coherent, hvalues]
    refine ⟨h.frames.addRef (AList.mem_values hsrc), ?_, h.properties, ?_, ?_⟩
    · have hvfbs := h.vfbs
      rw [← howned] at hvfbs
      exact hvfbs
    · intro q
      rw [h.mapped, hget]
    · intro q y hy
      exact h.regular q y ((hget q).symm.trans hy)
  · intro k hk
    rw [AList.lookup_insert_ne hk]
  · intro k q hk hq
    exact ⟨get_addRef s.frames p q, fun _ _ => rfl, rfl⟩

/-- A variable gives its pointer up. -/
theorem Coherent.release (hdst : s.handles.lookup dst = some p)
    (hstep : SharedFrames.releaseFrame { s with handles := s.handles.erase dst } p = some t) :
    Leaves s t dst := by
  have hvalues := AList.values_of_lookup hdst
  have howns : Owns { s with handles := s.handles.erase dst }
      (p ::ₘ (s.handles.erase dst).values) := by
    rw [← hvalues]
    exact ⟨h.frames, h.vfbs, h.properties, h.mapped, h.regular⟩
  obtain ⟨howns', hsame, hhandles⟩ := howns.releaseFrame hstep
  constructor
  · rw [Coherent, hhandles]
    exact howns'
  · intro k hk
    rw [hhandles, AList.lookup_erase_ne hk]
  · intro k q hk hq
    rw [← AList.lookup_erase_ne hk] at hq
    obtain ⟨hframe, hvfb, hproperties⟩ := hsame q (AList.mem_values hq)
    exact ⟨hframe, hvfb, hproperties⟩

omit [Inhabited V] in
/-- Pixels are changed through a writable frame. -/
theorem Coherent.write (hdst : s.handles.lookup dst = some p) (hwritable : s.IsWritable p)
    (hx : s.frames.get p = some x) (memory : ℤ → UInt8) :
    Leaves s { s with vfbs := s.vfbs.put x.vfb memory } dst := by
  obtain ⟨hunique, halone⟩ := hwritable
  rw [hx, Option.any_some, decide_eq_true_eq] at halone
  constructor
  · exact ⟨h.frames, h.vfbs.put x.vfb memory, h.properties, h.mapped, h.regular⟩
  · exact fun _ _ => rfl
  · intro k q hk hq
    have hqp : q ≠ p := by
      rintro rfl
      exact hk (h.unique hdst hunique hq)
    refine ⟨rfl, fun y hy => ?_, rfl⟩
    apply get_put_ne
    intro hvfb
    exact hqp (h.alone hx halone hy hvfb)

omit h in
omit [Inhabited V] in
/-- A change of properties leaves the maps of other frames. -/
theorem independentStep_change {maps maps' : ℕ → Option (PropMap V)} {change : PropChange V}
    {e : MapEvent ℕ V} (ha : PropChange.action s p change = some a)
    (hstep : MapSystem.independentStep maps a = some (maps', e)) :
    (maps' p).isSome = true ∧ (maps p).isSome = true ∧ ∀ q, q ≠ p → maps' q = maps q := by
  have hon : ∀ {b : MapAction ℕ V} {f : PropMap V → Bool × PropMap V}, b.target = p →
      MapSystem.onIndependent maps b f = some (maps', e) →
        (maps' p).isSome = true ∧ (maps p).isSome = true ∧ ∀ q, q ≠ p → maps' q = maps q := by
    intro b f htarget hon
    obtain ⟨m, hm, heq⟩ := Option.map_eq_some_iff.mp hon
    obtain ⟨rfl, -⟩ := Prod.mk.inj heq
    rw [htarget] at hm ⊢
    refine ⟨?_, ?_, fun q hq => Function.update_of_ne hq _ _⟩
    · rw [Function.update_self]
      rfl
    · rw [hm]
      rfl
  cases change with
  | set key propType val mode =>
    cases ha
    exact hon rfl hstep
  | setArray key propType vals size =>
    cases ha
    exact hon rfl hstep
  | deleteKey key =>
    cases ha
    exact hon rfl hstep
  | clear =>
    cases ha
    exact hon rfl hstep
  | copy src =>
    obtain ⟨q, -, rfl⟩ := Option.map_eq_some_iff.mp ha
    simp only [MapSystem.independentStep] at hstep
    split_ifs at hstep with hself
    · obtain ⟨m, hm, heq⟩ := Option.map_eq_some_iff.mp hstep
      obtain ⟨rfl, -⟩ := Prod.mk.inj heq
      rw [hm]
      exact ⟨rfl, rfl, fun _ _ => rfl⟩
    · obtain ⟨m, -, hstep⟩ := Option.bind_eq_some_iff.mp hstep
      exact hon rfl hstep
  | assign src =>
    obtain ⟨q, -, rfl⟩ := Option.map_eq_some_iff.mp ha
    obtain ⟨m, -, hstep⟩ := Option.bind_eq_some_iff.mp hstep
    exact hon rfl hstep

/-- Properties are changed through a property-writable frame. -/
theorem Coherent.change (hdst : s.handles.lookup dst = some p) (hunique : s.frames.Unique p)
    {change : PropChange V} (ha : PropChange.action s p change = some a)
    (hstep : s.onProperties a = some t) :
    Leaves s t dst := by
  obtain ⟨e, howned, hindependent, ht⟩ := onProperties_spec h.properties hstep
  obtain ⟨hafter, hbefore, hothers⟩ := independentStep_change ha hindependent
  rw [ht]
  constructor
  · refine ⟨h.frames, h.vfbs, howned, fun q => ?_, h.regular⟩
    rw [← h.mapped]
    by_cases hq : q = p
    · subst hq
      exact hafter.trans hbefore.symm
    · exact congrArg Option.isSome (hothers q hq)
  · exact fun _ _ => rfl
  · intro k q hk hq
    have hqp : q ≠ p := by
      rintro rfl
      exact hk (h.unique hdst hunique hq)
    exact ⟨rfl, fun _ _ => rfl, hothers q hqp⟩

end

/-- A release makes no frames. -/
theorem get_of_releaseFrame (hstep : s.releaseFrame p = some t) (hy : t.frames.get q = some y) :
    s.frames.get q = some y := by
  unfold SharedFrames.releaseFrame at hstep
  rcases release_cases s.frames p with ⟨hnone, hall⟩ | ⟨x, hsome, -, herase⟩
  · rcases hrelease : s.frames.release p with ⟨_ | x, frames⟩
    · rw [hrelease] at hstep hall
      cases hstep
      exact (hall q).symm.trans hy
    · rw [hrelease] at hnone
      cases hnone
  · have hrelease : s.frames.release p = (some x, s.frames.erase p) := Prod.ext hsome herase
    rw [hrelease] at hstep
    obtain ⟨r, -, rfl⟩ := Option.map_eq_some_iff.mp hstep
    have hq : q ≠ p := by
      rintro rfl
      rw [RefHeap.get, AList.lookup_erase] at hy
      cases hy
    exact (get_erase_ne hq).symm.trans hy

/-- What a variable shows: a picture and properties. -/
def look (s : SharedFrames V) (k : ℕ) : Option (Option Picture × Option (PropMap V)) :=
  (s.handles.lookup k).map fun p => (s.pictureOf p, s.properties.view p)

/-- The picture that a variable shows. -/
def shown (s : SharedFrames V) (k : ℕ) : Option Picture := (s.handles.lookup k).bind s.pictureOf

/-- No other variable points to the frame. -/
def OwnProperties (s : SharedFrames V) (dst : ℕ) : Prop :=
  ∃ p, s.handles.lookup dst = some p ∧ ∀ k, s.handles.lookup k = some p → k = dst

/-- No other variable points to the frame, and no other frame is on its buffer. -/
def Unshared (s : SharedFrames V) (dst : ℕ) : Prop :=
  ∃ p x, s.handles.lookup dst = some p ∧ s.frames.get p = some x ∧
    (∀ k, s.handles.lookup k = some p → k = dst) ∧
      ∀ q y, s.frames.get q = some y → y.vfb = x.vfb → q = p

omit [Inhabited V] in
/-- What the other variables show is as it was. -/
theorem Leaves.look {dst k : ℕ} (h : Leaves s t dst) (hk : k ≠ dst) : t.look k = s.look k := by
  rw [SharedFrames.look, SharedFrames.look, h.handles k hk]
  cases hp : s.handles.lookup k with
  | none => rfl
  | some p =>
    have hsame := h.same k p hk hp
    rw [Option.map_some, Option.map_some, hsame.picture, hsame.properties]

omit [Inhabited V] in
/-- A variable that points to a new frame is the only one. -/
theorem Coherent.onlyNew (h : Coherent s) {dst : ℕ} (hleaves : Leaves s u dst) (k : ℕ)
    (hk : u.handles.lookup k = some s.frames.fresh) : k = dst := by
  by_contra hne
  rw [hleaves.handles k hne] at hk
  exact h.ne_fresh hk rfl

variable {settings : AlignmentSettings} {chromaAlignment : Bool}

/-- `MakeWritable` of a shared frame. -/
theorem Coherent.copyFrame (h : Coherent s) {dst : ℕ} (hdst : s.handles.lookup dst = some p)
    (hx : s.frames.get p = some x) (hfits : x.CopyFits settings chromaAlignment) {data : ℕ}
    {contents : ℤ → UInt8} {e : HandleEvent}
    (hstep : s.copyFrame settings chromaAlignment dst p x data contents = some (t, e)) :
    Leaves s t dst ∧ ∀ copied, e = .made copied → t.look dst = s.look dst ∧ t.Unshared dst := by
  unfold SharedFrames.copyFrame at hstep
  simp only at hstep
  split_ifs at hstep with hsize
  · cases hstep
    exact ⟨Leaves.refl h dst, nofun⟩
  · obtain ⟨origin, horigin, hstep⟩ := Option.bind_eq_some_iff.mp hstep
    obtain ⟨u, hadd, hstep⟩ := Option.bind_eq_some_iff.mp hstep
    obtain ⟨v, hassign, heq⟩ := Option.map_eq_some_iff.mp hstep
    obtain ⟨rfl, rfl⟩ := Prod.mk.inj heq
    have hsrc : ∀ q, some p = some q → q ≠ s.frames.fresh := by
      intro q hq
      obtain rfl := Option.some.inj hq
      exact h.ne_fresh hdst
    have hregular := FrameObject.regular_layout hfits.positive
      (x.copyShape.plan settings chromaAlignment settings.frameAlign) data
    have hreceives := FrameObject.receives hfits (h.regular p x hx).alphaLike rfl (by omega) data
    obtain ⟨howns, hsame, hnew, hmemory, hhandles, hview⟩ :=
      Owns.newBuffer h rfl hregular hsrc hadd
    obtain ⟨hleaves, hlookup, hkept⟩ := h.replace hdst howns hsame hhandles hassign
    refine ⟨hleaves, fun copied _ => ⟨?_, ?_⟩⟩
    · have hpicture : v.pictureOf s.frames.fresh = s.pictureOf p := by
        rw [hkept.picture, pictureOf, pictureOf, hnew, hx, Option.bind_some, Option.bind_some,
          hmemory, horigin, Option.map_some, Option.map_some,
          FrameObject.picture_copyPlanes hreceives]
      rw [SharedFrames.look, SharedFrames.look, hlookup, hdst, Option.map_some, Option.map_some,
        hpicture, hkept.properties, hview p rfl]
    · refine ⟨s.frames.fresh, _, hlookup, hkept.frame.trans hnew, h.onlyNew hleaves, ?_⟩
      intro q y hy hvfb
      by_contra hq
      unfold SharedFrames.assignHandle at hassign
      have hadded := get_of_releaseFrame hassign hy
      have hold : s.frames.get q = some y := (hsame q hq).frame.symm.trans hadded
      have hmem := mem_vfbRefs hold
      rw [hvfb] at hmem
      exact h.vfbs.fresh_notMem hmem

/-- `MakePropertyWritable` of a shared frame. -/
theorem Coherent.copyProperties (h : Coherent s) {dst : ℕ} (hdst : s.handles.lookup dst = some p)
    (hx : s.frames.get p = some x) (hfits : x.WholeFits)
    (hderive : s.derive p (x.subframe x.whole) = some t)
    (hassign : t.assignHandle dst s.frames.fresh p = some u) :
    Leaves s u dst ∧ u.shown dst = s.shown dst ∧ u.OwnProperties dst := by
  have hvfb : (x.subframe x.whole).vfb = x.vfb := by cases x.whole <;> rfl
  obtain ⟨howns, hsame, hnew, hmemory, hhandles⟩ :=
    Owns.derive h hx hvfb (FrameObject.regular_subframe x x.whole) hderive
  obtain ⟨hleaves, hlookup, hkept⟩ := h.replace hdst howns hsame hhandles hassign
  refine ⟨hleaves, ?_, s.frames.fresh, hlookup, h.onlyNew hleaves⟩
  have hpicture : (x.subframe x.whole).picture = x.picture :=
    funext (FrameObject.picture_whole hfits (h.regular p x hx))
  rw [shown, shown, hlookup, hdst, Option.bind_some, Option.bind_some, hkept.picture, pictureOf,
    pictureOf, hnew, hx, Option.bind_some, Option.bind_some, hvfb, hmemory, hpicture]

omit [Inhabited V] in
/-- The frame that `MakeWritable` has to copy. -/
def toCopy (s : SharedFrames V) (dst : ℕ) : Option FrameObject :=
  (s.handles.lookup dst).bind fun p => if s.IsWritable p then none else s.frames.get p

omit [Inhabited V] in
/-- The frame that `MakePropertyWritable` has to make another one of. -/
def toDerive (s : SharedFrames V) (dst : ℕ) : Option FrameObject :=
  (s.handles.lookup dst).bind fun p => if s.IsPropertyWritable p then none else s.frames.get p

omit [Inhabited V] in
/-- `MakeWritable` and `MakePropertyWritable` are called with frames that they can copy. -/
def Copyable (settings : AlignmentSettings) (chromaAlignment : Bool) (s : SharedFrames V) :
    HandleAction V → Prop
  | .makeWritable dst _ => ∀ x ∈ s.toCopy dst, x.CopyFits settings chromaAlignment
  | .makePropertyWritable dst => ∀ x ∈ s.toDerive dst, x.WholeFits
  | _ => True

omit [Inhabited V] in
/-- A frame made writable is the same and unshared, and one made property-writable
shows the same picture and has its properties for itself. -/
def Made (s t : SharedFrames V) : HandleAction V → HandleEvent → Prop
  | .makeWritable dst _, .made _ => t.look dst = s.look dst ∧ t.Unshared dst
  | .makePropertyWritable dst, .made _ => t.shown dst = s.shown dst ∧ t.OwnProperties dst
  | _, _ => True

omit [Inhabited V] in
/-- What each action promises; the other variables show what they showed. -/
def Right (s t : SharedFrames V) (a : HandleAction V) (e : HandleEvent) : Prop :=
  (∀ k, k ≠ a.target → t.look k = s.look k) ∧ Made s t a e

/-- The step lemma. -/
theorem Coherent.step (h : Coherent s) {a : HandleAction V} {e : HandleEvent}
    (hcopyable : Copyable settings chromaAlignment s a)
    (hstep : s.step settings chromaAlignment a = some (t, e)) : Coherent t ∧ Right s t a e := by
  suffices hmade : Leaves s t a.target ∧ Made s t a e by
    obtain ⟨hleaves, hmade⟩ := hmade
    exact ⟨hleaves.coherent, fun k hk => hleaves.look hk, hmade⟩
  cases a with
  | newFrame dst shape pixelType buffer =>
    obtain ⟨data, contents⟩ := buffer
    refine ⟨?_, trivial⟩
    simp only [SharedFrames.step] at hstep
    split_ifs at hstep with hfree hsize
    · cases hstep
      exact .refl h dst
    · obtain ⟨u, hadd, heq⟩ := Option.map_eq_some_iff.mp hstep
      obtain ⟨rfl, -⟩ := Prod.mk.inj heq
      have hregular := FrameObject.regular_layout shape.2
        (shape.1.plan settings chromaAlignment settings.frameAlign) data
      obtain ⟨howns, hsame, -, -, hhandles, -⟩ := Owns.newBuffer h rfl hregular (by nofun) hadd
      exact h.setNew (Option.not_isSome_iff_eq_none.mp hfree) howns hsame hhandles
  | copy dst src =>
    refine ⟨?_, trivial⟩
    simp only [SharedFrames.step] at hstep
    split_ifs at hstep with hfree
    obtain ⟨p, hp, heq⟩ := Option.map_eq_some_iff.mp hstep
    obtain ⟨rfl, -⟩ := Prod.mk.inj heq
    exact h.copy (Option.not_isSome_iff_eq_none.mp hfree) hp
  | release dst =>
    refine ⟨?_, trivial⟩
    obtain ⟨p, hp, hstep⟩ := Option.bind_eq_some_iff.mp hstep
    obtain ⟨u, hrelease, heq⟩ := Option.map_eq_some_iff.mp hstep
    obtain ⟨rfl, -⟩ := Prod.mk.inj heq
    exact h.release hp hrelease
  | subframe dst src request =>
    refine ⟨?_, trivial⟩
    simp only [SharedFrames.step] at hstep
    split_ifs at hstep with hfree haligned
    · obtain ⟨p, hp, hstep⟩ := Option.bind_eq_some_iff.mp hstep
      obtain ⟨x, hx, hstep⟩ := Option.bind_eq_some_iff.mp hstep
      obtain ⟨u, hderive, heq⟩ := Option.map_eq_some_iff.mp hstep
      obtain ⟨rfl, -⟩ := Prod.mk.inj heq
      have hvfb : (x.subframe request).vfb = x.vfb := by cases request <;> rfl
      obtain ⟨howns, hsame, -, -, hhandles⟩ :=
        Owns.derive h hx hvfb (FrameObject.regular_subframe x request) hderive
      exact h.setNew (Option.not_isSome_iff_eq_none.mp hfree) howns hsame hhandles
    · obtain ⟨p, hp, heq⟩ := Option.map_eq_some_iff.mp hstep
      obtain ⟨rfl, -⟩ := Prod.mk.inj heq
      exact .refl h dst
  | makeWritable dst buffer =>
    obtain ⟨p, hp, hstep⟩ := Option.bind_eq_some_iff.mp hstep
    split_ifs at hstep with hwritable
    · cases hstep
      obtain ⟨x, hx⟩ := h.get hp
      obtain ⟨hunique, halone⟩ := hwritable
      rw [hx, Option.any_some, decide_eq_true_eq] at halone
      refine ⟨.refl h dst, rfl, p, x, hp, hx, ?_, ?_⟩
      · exact fun k hk => h.unique hp hunique hk
      · exact fun q y hy hvfb => h.alone hx halone hy hvfb
    · cases buffer with
      | none =>
        cases hstep
        exact ⟨.refl h dst, trivial⟩
      | some buffer =>
        obtain ⟨data, contents⟩ := buffer
        obtain ⟨x, hx, hstep⟩ := Option.bind_eq_some_iff.mp hstep
        have hfits : x.CopyFits settings chromaAlignment := by
          apply hcopyable
          rw [toCopy, hp, Option.bind_some, if_neg hwritable, hx]
          rfl
        obtain ⟨hleaves, hmade⟩ := h.copyFrame hp hx hfits hstep
        refine ⟨hleaves, ?_⟩
        cases e with
        | made copied => exact hmade copied rfl
        | thrown => trivial
        | quiet => trivial
  | makePropertyWritable dst =>
    obtain ⟨p, hp, hstep⟩ := Option.bind_eq_some_iff.mp hstep
    split_ifs at hstep with hunique
    · cases hstep
      refine ⟨.refl h dst, rfl, p, hp, ?_⟩
      exact fun k hk => h.unique hp hunique hk
    · obtain ⟨x, hx, hstep⟩ := Option.bind_eq_some_iff.mp hstep
      obtain ⟨u, hderive, hstep⟩ := Option.bind_eq_some_iff.mp hstep
      obtain ⟨v, hassign, heq⟩ := Option.map_eq_some_iff.mp hstep
      obtain ⟨rfl, rfl⟩ := Prod.mk.inj heq
      have hfits : x.WholeFits := by
        apply hcopyable
        rw [toDerive, hp, Option.bind_some, if_neg hunique, hx]
        rfl
      obtain ⟨hleaves, hshown, hown⟩ := h.copyProperties hp hx hfits hderive hassign
      exact ⟨hleaves, hshown, hown⟩
  | write dst memory =>
    refine ⟨?_, trivial⟩
    obtain ⟨p, hp, hstep⟩ := Option.bind_eq_some_iff.mp hstep
    split_ifs at hstep with hwritable
    obtain ⟨x, hx, heq⟩ := Option.map_eq_some_iff.mp hstep
    obtain ⟨rfl, -⟩ := Prod.mk.inj heq
    exact h.write hp hwritable hx memory
  | change dst change =>
    refine ⟨?_, trivial⟩
    obtain ⟨p, hp, hstep⟩ := Option.bind_eq_some_iff.mp hstep
    split_ifs at hstep with hunique
    obtain ⟨a, ha, hstep⟩ := Option.bind_eq_some_iff.mp hstep
    obtain ⟨u, hproperties, heq⟩ := Option.map_eq_some_iff.mp hstep
    obtain ⟨rfl, -⟩ := Prod.mk.inj heq
    exact h.change hp hunique ha hproperties

omit [Inhabited V] in
theorem coherent_start : Coherent (start : SharedFrames V) where
  frames := .empty
  vfbs := .empty
  properties := ⟨.empty, .empty⟩
  mapped p := by
    have hview : (start : SharedFrames V).properties.view p = none := by
      simp only [start, MapSystem.start, MapSystem.view, AList.lookup_empty, Option.bind_none]
    have hget : (start : SharedFrames V).frames.get p = none := by
      simp only [start, RefHeap.get, AList.lookup_empty, Option.map_none]
    rw [hview, hget]
    rfl
  regular p x hx := by
    rw [start, RefHeap.get, AList.lookup_empty] at hx
    cases hx

/-- In every run that calls `MakeWritable` and `MakePropertyWritable` only with frames
that they can copy, each action does what it promises. -/
theorem frames_isolated {history : List HandleEvent}
    (hrun : Run (step settings chromaAlignment) (Copyable settings chromaAlignment) start
      history s) (a : HandleAction V) (e : HandleEvent)
    (hcopyable : Copyable settings chromaAlignment s a)
    (hstep : s.step settings chromaAlignment a = some (t, e)) : Right s t a e := by
  have hcoherent : Coherent s := by
    apply hrun.invariant fun _ => Coherent
    · exact coherent_start
    · intro _ s t a e h hcopyable hstep
      exact (h.step hcopyable hstep).1
  exact (hcoherent.step hcopyable hstep).2

instance : (shape : FrameShape) → Decidable shape.Positive
  | .planar .. => instDecidableAnd
  | .packed .. => instDecidableAnd

instance (x : FrameObject) : Decidable (x.CopyFits settings chromaAlignment) :=
  decidable_of_iff (_ ∧ _ ∧ _)
    ⟨fun h => ⟨h.1, h.2.1, h.2.2⟩, fun h => ⟨h.chroma, h.positive, h.fits⟩⟩

instance (x : FrameObject) : Decidable x.WholeFits :=
  decidable_of_iff (_ ∧ _ ∧ _)
    ⟨fun h => ⟨h.1, h.2.1, h.2.2⟩, fun h => ⟨h.rowSize, h.height, h.type⟩⟩

instance (s : SharedFrames V) (a : HandleAction V) :
    Decidable (Copyable settings chromaAlignment s a) := by
  cases a <;> unfold Copyable <;> infer_instance

/-- Two rows of four pixels in each plane, with alpha. -/
def alphaShape : {shape : FrameShape // shape.Positive} := ⟨.planar 4 2 4 2 false true, by decide⟩

/-- A new frame with two pointers. -/
def twoPointers : List (HandleAction ℕ) :=
  [.newFrame 0 alphaShape (csGenericYUVA444 ||| csSampleBits8) (0, fun i => .ofNat i.toNat),
    .change 0 (.set "_Matrix" .int 6 .replace), .copy 1 0]

/-- A frame with an alpha plane is made writable. -/
theorem frames_isolated_alpha : ∃ s t : SharedFrames ℕ,
    (s.handles.lookup 1 = some 1 ∧ t.handles.lookup 1 = some 2) ∧
      Right s t (.makeWritable 1 (some (64, fun _ => 0))) (.made true) := by
  obtain ⟨_, s, hrun, hcheck⟩ := exists_run (step cpuAlignment true) (Copyable cpuAlignment true)
    start twoPointers
    (fun _ s => s.handles.lookup 1 = some 1 ∧
      Copyable cpuAlignment true s (.makeWritable 1 (some (64, fun _ => 0))) ∧
      (s.step cpuAlignment true (.makeWritable 1 (some (64, fun _ => 0)))).any fun r =>
        r.1.handles.lookup 1 = some 2 ∧ r.2 = .made true) (by decide)
  obtain ⟨hbefore, hcopyable, hany⟩ := of_decide_eq_true hcheck
  obtain ⟨⟨t, e⟩, hstep, hafter⟩ := (Option.any_eq_true _ _).mp hany
  obtain ⟨hafter, rfl⟩ := of_decide_eq_true hafter
  exact ⟨s, t, ⟨hbefore, hafter⟩, frames_isolated hrun _ _ hcopyable hstep⟩

/-- A frame with an alpha plane and without chroma planes is made writable: its alpha
plane is lost. -/
theorem makeWritable_alphaLost :
    ¬∀ (history : List HandleEvent) (s t : SharedFrames ℕ) (a : HandleAction ℕ) (e : HandleEvent),
      Run (step cpuAlignment true) always start history s →
        s.step cpuAlignment true a = some (t, e) → Right s t a e := by
  intro h
  obtain ⟨_, s, hrun, hcheck⟩ := exists_run (step cpuAlignment true) always start
    (twoPointers ++ [.subframe 2 0 (.alpha ⟨0, 64, 4, 2⟩ 0 0 0 0)])
    (fun _ s => (s.shown 2).map (fun picture => picture.rowSize .a) = some 4 ∧
      (s.step cpuAlignment true (.makeWritable 2 (some (64, fun _ => 0)))).any fun r =>
        (r.1.shown 2).map (fun picture => picture.rowSize .a) = some 0 ∧ r.2 = .made true)
    (by decide)
  obtain ⟨hbefore, hany⟩ := of_decide_eq_true hcheck
  obtain ⟨⟨t, e⟩, hstep, hafter⟩ := (Option.any_eq_true _ _).mp hany
  obtain ⟨hafter, rfl⟩ := of_decide_eq_true hafter
  obtain ⟨-, hlook, -⟩ := h _ _ _ _ _ hrun hstep
  have hshown : ∀ u : SharedFrames ℕ, u.shown 2 = (u.look 2).bind Prod.fst := by
    intro u
    rw [shown, SharedFrames.look]
    cases u.handles.lookup 2 <;> rfl
  rw [hshown, hlook, ← hshown, hbefore] at hafter
  cases hafter

end SharedFrames

end AviSynth
