import AviSynth.Frames.FrameSystem

/-!
# Steps outside the mutex

Copying and releasing a pointer, assigning a new frame and constructing a
derived one change counts while another thread may be inside the mutex. Each of
them keeps the invariant.
-/

namespace AviSynth

open FrameStore

namespace FrameSystem

variable {D : Type} {s t : FrameSystem D} {p : FramePtr}

/-- A frame whose count is changed stays on its buffer. -/
theorem addFrameRef_frames (s : FrameStore D) (p : FramePtr) (n : ℤ) :
    ∀ q x, s.frames q = some x → ∃ y, (s.addFrameRef p n).frames q = some y ∧ y.vfb = x.vfb := by
  intro q x hx
  by_cases hq : q = p
  · subst hq
    exact ⟨{ x with refcount := x.refcount + n }, by simp [addFrameRef, hx], rfl⟩
  · exact ⟨x, by simpa [addFrameRef, hq] using hx, rfl⟩

/-- A construction leaves the other frames alone. -/
theorem newFrame_frames {s : FrameStore D} {p : FramePtr} (hp : s.frames p = none) (v : VfbPtr) :
    ∀ q x, s.frames q = some x → ∃ y, (s.newFrame p v).frames q = some y ∧ y.vfb = x.vfb := by
  intro q x hx
  have hq : q ≠ p := by rintro rfl; rw [hp] at hx; cases hx
  exact ⟨x, by simpa [newFrame, addVfbRef, modifyVfb, hq] using hx,
    rfl⟩

/-- The frames' counts stay right when one of them follows its pointers. -/
theorem counts_addFrameRef {s t : FrameSystem D} (n : ℤ)
    (h : ∀ q x, s.frames q = some x → x.refcount = s.references q)
    (hframes : t.frames = (s.addFrameRef p n).frames)
    (hrefs : ∀ q, (t.references q : ℤ) = s.references q + if q = p then n else 0) :
    ∀ q x, t.frames q = some x → x.refcount = t.references q := by
  intro q y hy
  rw [hframes] at hy
  by_cases hq : q = p
  · subst hq
    simp only [addFrameRef, Function.update_self, Option.map_eq_some_iff] at hy
    obtain ⟨x, hx, rfl⟩ := hy
    rw [hrefs q, if_pos rfl, h q x hx]
  · simp only [addFrameRef, Function.update_of_ne hq] at hy
    rw [hrefs q, if_neg hq, h q y hy, add_zero]

/-- One more pointer to a frame makes it live, if it was not. -/
theorem liveOn_raise {e : RegistryEntry} (hnodup : e.frames.Nodup)
    (hrefs : ∀ q, t.references q = s.references q + if q = p then 1 else 0) :
    t.liveOn e = s.liveOn e + if p ∈ e.frames ∧ s.references p = 0 then 1 else 0 := by
  by_cases hp : p ∈ e.frames
  · have h := Counting.countP_change hnodup hp (P := fun q => decide (0 < s.references q))
      (Q := fun q => decide (0 < t.references q)) fun q _ hq => by simp [hrefs q, hq]
    simp only [hrefs p, if_true, Nat.zero_lt_succ, decide_true, Bool.toNat_true] at h
    simp only [liveOn, hp, true_and]
    by_cases hzero : s.references p = 0
    · simp only [hzero, Nat.lt_irrefl, decide_false, Bool.toNat_false] at h
      simp only [hzero, if_true]
      omega
    · simp only [Nat.pos_of_ne_zero hzero, decide_true, Bool.toNat_true] at h
      simp only [hzero, if_false]
      omega
  · simp only [hp, false_and, if_false, Nat.add_zero]
    refine List.countP_congr fun q hq => ?_
    have hne : q ≠ p := fun heq => hp (heq ▸ hq)
    simp [hrefs q, hne]

/-- Without a change of the pointers the same frames are live. -/
theorem liveOn_congr {e : RegistryEntry} (hrefs : ∀ q, t.references q = s.references q) :
    t.liveOn e = s.liveOn e := by
  simp only [liveOn, hrefs]

/-- A pointer to a frame counts. -/
theorem references_pos (hp : p ∈ s.handles) : 0 < s.references p := by
  have := List.count_pos_iff.mpr hp
  simp only [references]
  omega

/-- Pointers that come and go change one frame's count. -/
theorem references_cons {handles : List FramePtr} (hhandles : t.handles = p :: handles)
    (hs : s.handles = handles) (hpending : t.pending = s.pending) (q : FramePtr) :
    t.references q = s.references q + if q = p then 1 else 0 := by
  simp only [references, hhandles, hpending, hs, List.count_cons, beq_iff_eq, eq_comm (a := q)]
  omega

variable [DecidableEq D]

section

variable (h : Consistent s)
include h

/-- The rule for a step outside the mutex. It may change the count of one
buffer `v`, together with the claims on it, and it gives a first pointer to no
frame but one returned by `GetNewFrame`. -/
theorem Consistent.outside (v : VfbPtr) (n : ℤ)
    (hregistry : t.frameRegistry = s.frameRegistry) (hmemory : t.memoryUsed = s.memoryUsed)
    (hlock : t.lock = s.lock)
    (hframes : ∀ q y, s.frames q = some y → ∃ y', t.frames q = some y' ∧ y'.vfb = y.vfb)
    (hcounts : ∀ q x, t.frames q = some x → x.refcount = t.references q)
    (hvfbs : ∀ w, t.vfbs w = (s.vfbs w).map fun b =>
      { b with refcount := b.refcount + if w = v then n else 0 })
    (hclaims : ∀ e ∈ s.frameRegistry,
      (t.claimsOn e : ℤ) = s.claimsOn e + if e.vfb = v then n else 0)
    (hbusy : n ≠ 0 → ∃ e ∈ s.frameRegistry, e.vfb = v ∧ 0 < s.liveOn e + s.releasing.count v)
    (hreleasing : ∀ w ∈ t.releasing, w ∈ s.releasing ∨ ∃ e ∈ s.frameRegistry, e.vfb = w)
    (hreserved : ∀ r ∈ t.reserved, r ∈ s.reserved) (hkept : ∀ op ∈ s.pending, op ∈ t.pending)
    (hpending : ∀ op ∈ t.pending, op ∈ s.pending ∨ DerivationOk t op)
    (hsubs : (t.pending.map (·.sub)).Nodup)
    (hraised : ∀ q, 0 < t.references q → 0 < s.references q ∨ ∃ r ∈ s.reserved, q = r.frame) :
    Consistent t := by
  have hzero : ∀ op ∈ s.pending, ∀ q x, s.frames q = some x → x.vfb = op.vfb →
      s.references q = 0 → t.references q = 0 := by
    intro op hop q x hx hvfb hq
    by_contra hpos
    rcases hraised q (Nat.pos_of_ne_zero hpos) with hpos | ⟨r, hr, rfl⟩
    · omega
    · obtain ⟨e, he, hvfb', hmem, -, -, hnone, -⟩ := h.reserved_alone hr
      obtain ⟨x', hx', hx''⟩ := (h.entries e he).frames _ hmem
      obtain rfl := Option.some.inj (hx.symm.trans hx')
      have hcount := pending_count_pos hop
      rw [← hvfb, hx'', hvfb', hnone] at hcount
      exact Nat.lt_irrefl 0 hcount
  refine ⟨hregistry ▸ h.keys, ?_, hcounts, ?_, ?_, ?_, hsubs, ?_, ?_, ?_, ?_⟩
  · intro e he
    rw [hregistry] at he
    refine (h.entries e he).recount _ hframes (fun b hb => ?_) (hclaims e he)
    exact ⟨{ b with refcount := b.refcount + if e.vfb = v then n else 0 }, by simp [hvfbs, hb],
      rfl, rfl⟩
  · intro q hq
    rw [hregistry]
    rcases hraised q hq with hpos | ⟨r, hr, rfl⟩
    · exact h.referenced q hpos
    · obtain ⟨e, he, -, hmem, -⟩ := h.reserved_alone hr
      exact ⟨e, he, hmem⟩
  · intro r hr
    refine (h.reserved r (hreserved r hr)).mono ?_ hregistry
    by_cases hn : n = 0
    · simp [hvfbs, hn]
    · obtain ⟨e, he, rfl, hbusy⟩ := hbusy hn
      obtain ⟨e', he', hvfb, -, hlive, -, -, hreleasing⟩ := h.reserved_alone (hreserved r hr)
      have hne : r.vfb ≠ e.vfb := by
        intro heq
        obtain rfl := h.entry_unique he he' (heq.symm.trans hvfb.symm)
        rw [hvfb] at hbusy
        omega
      simp [hvfbs, hne]
  · intro op hop
    rcases hpending op hop with hold | hnew
    · have hok := h.pending op hold
      obtain ⟨x, hx, hvfb⟩ := hok.sub
      exact hok.mono hframes (hzero op hold _ x hx hvfb hok.unreferenced) hlock hregistry
    · exact hnew
  · intro w b hb
    rw [hvfbs, Option.map_eq_some_iff] at hb
    obtain ⟨b', hb', -⟩ := hb
    exact hregistry ▸ h.registered w b' hb'
  · intro w hw
    rw [hregistry]
    exact (hreleasing w hw).elim (h.releasing w) id
  · intro d
    rw [hmemory, h.memory d]
    refine (registeredBytes_congr hregistry (fun e _ => ?_) d).symm
    rw [hvfbs, Option.map_map]
    rfl
  · intro c hc
    refine (h.position c (hlock ▸ hc)).mono hregistry ?_ hkept ?_
    · intro w b hb hbzero
      by_cases hn : n = 0
      · simp [hvfbs, hn, hb]
      · obtain ⟨e, he, rfl, hbusy⟩ := hbusy hn
        have hne : w ≠ e.vfb := by
          rintro rfl
          have := h.unused he hb hbzero
          simp only [claimsOn] at this
          omega
        simp [hvfbs, hne, hb]
    · intro op hop e he hvfb q hq hqzero
      obtain ⟨x, hx, hx'⟩ := (h.entries e he).frames q hq
      exact hzero op hop q x hx (hx'.trans hvfb) hqzero

/-- A `PVideoFrame` is copied. -/
theorem Consistent.copyHandle (hp : p ∈ s.handles) :
    Consistent (s.copyHandle p) := by
  have hrefs := references_cons (t := s.copyHandle p) (p := p) rfl (Eq.refl s.handles) rfl
  have hpos := references_pos hp
  apply Consistent.outside (t := s.copyHandle p) h 0 0 rfl rfl rfl
    (addFrameRef_frames s.toFrameStore p 1)
  · exact counts_addFrameRef 1 h.counts rfl fun q => by rw [hrefs q]; split_ifs <;> simp
  · intro w
    simp [FrameSystem.copyHandle, addFrameRef]
  · intro e he
    have hlive := liveOn_raise (h.entries e he).nodup hrefs
    rw [if_neg fun hc => by omega] at hlive
    have hreserved : (s.copyHandle p).reservedOn e.vfb = s.reservedOn e.vfb := rfl
    have hreleasing : (s.copyHandle p).releasing = s.releasing := rfl
    simp only [claimsOn, hlive, hreserved, hreleasing, ite_self, add_zero]
  · simp
  · exact fun w hw => Or.inl hw
  · exact fun r hr => hr
  · exact fun op hop => hop
  · exact fun op hop => Or.inl hop
  · exact h.subs
  · intro q hq
    rw [hrefs q] at hq
    by_cases hne : q = p
    · exact Or.inl (hne ▸ hpos)
    · exact Or.inl (by rwa [if_neg hne] at hq)

/-- A `PVideoFrame` lets go of its frame. The last one leaves the buffer's count
to the second half of the release. -/
theorem Consistent.dropHandle (hp : p ∈ s.handles) {x : VideoFrame}
    (hx : s.frames p = some x) : Consistent (s.dropHandle p x) := by
  have hrefs : ∀ q, s.references q = (s.dropHandle p x).references q + if q = p then 1 else 0 := by
    intro q
    have herase := Counting.count_map_erase id hp q
    simp only [List.map_id, id_eq, eq_comm (a := p)] at herase
    simp only [references, FrameSystem.dropHandle, herase]
    omega
  have hcount : x.refcount = (s.dropHandle p x).references p + 1 := by
    have := hrefs p
    rw [if_pos rfl] at this
    have := h.counts p x hx
    omega
  obtain ⟨e', he', hmem⟩ := h.referenced p (references_pos hp)
  obtain ⟨x', hx', hvfb⟩ := (h.entries e' he').frames p hmem
  obtain rfl := Option.some.inj (hx.symm.trans hx')
  apply Consistent.outside (t := s.dropHandle p x) h 0 0 rfl rfl rfl
    (addFrameRef_frames s.toFrameStore p (-1))
  · refine counts_addFrameRef (-1) h.counts rfl fun q => ?_
    rw [hrefs q]
    split_ifs <;> simp
  · intro w
    simp [FrameSystem.dropHandle, addFrameRef]
  · intro e he
    have hlive := liveOn_raise (h.entries e he).nodup hrefs
    have hmem_iff := h.mem_frames_iff he' hmem he
    have hlast : x.refcount - 1 = 0 ↔ (s.dropHandle p x).references p = 0 := by omega
    have hreleasing : (s.dropHandle p x).releasing.count e.vfb = s.releasing.count e.vfb +
        if p ∈ e.frames ∧ (s.dropHandle p x).references p = 0 then 1 else 0 := by
      simp only [hmem_iff, ← hlast, ← hvfb]
      by_cases hzero : x.refcount - 1 = 0
      · simp only [FrameSystem.dropHandle, hzero, if_true, List.count_cons, beq_iff_eq,
          eq_comm (a := x.vfb), and_true]
      · simp [FrameSystem.dropHandle, hzero]
    have hreserved : (s.dropHandle p x).reservedOn e.vfb = s.reservedOn e.vfb := rfl
    simp only [claimsOn, hlive, hreleasing, hreserved, ite_self]
    omega
  · simp
  · intro w hw
    simp only [FrameSystem.dropHandle] at hw
    split_ifs at hw with hlast
    · rcases List.mem_cons.mp hw with rfl | hw
      · exact Or.inr ⟨e', he', hvfb.symm⟩
      · exact Or.inl hw
    · exact Or.inl hw
  · exact fun r hr => hr
  · exact fun op hop => hop
  · exact fun op hop => Or.inl hop
  · exact h.subs
  · intro q hq
    have := hrefs q
    exact Or.inl (by omega)

/-- A `Release` lets go of the buffer. -/
theorem Consistent.dropVfb {v : VfbPtr} (hv : v ∈ s.releasing) :
    Consistent (s.dropVfb v) := by
  obtain ⟨e, he, hvfb⟩ := h.releasing v hv
  have hpos := List.count_pos_iff.mpr hv
  apply Consistent.outside (t := s.dropVfb v) h v (-1) rfl rfl rfl (fun q y hy => ⟨y, hy, rfl⟩)
    h.counts
  · intro w
    by_cases hw : w = v
    · subst hw
      simp [FrameSystem.dropVfb, addVfbRef, modifyVfb]
    · simp [FrameSystem.dropVfb, addVfbRef, modifyVfb, hw]
  · intro e' _
    have herase := Counting.count_map_erase id hv e'.vfb
    simp only [List.map_id, id_eq, eq_comm (a := v)] at herase
    have hlive : (s.dropVfb v).liveOn e' = s.liveOn e' := rfl
    have hreserved : (s.dropVfb v).reservedOn e'.vfb = s.reservedOn e'.vfb := rfl
    have hreleasing : (s.dropVfb v).releasing = s.releasing.erase v := rfl
    simp only [claimsOn, hlive, hreserved, hreleasing, herase]
    split_ifs <;> omega
  · exact fun _ => ⟨e, he, hvfb, by omega⟩
  · exact fun w hw => Or.inl (List.mem_of_mem_erase hw)
  · exact fun r hr => hr
  · exact fun op hop => hop
  · exact fun op hop => Or.inl hop
  · exact h.subs
  · exact fun q hq => Or.inl hq

/-- A frame returned by `GetNewFrame` gets its first pointer. -/
theorem Consistent.assignReserved {r : Reservation} (hr : r ∈ s.reserved) :
    Consistent (s.assignReserved r) := by
  have hrefs := references_cons (t := s.assignReserved r) (p := r.frame) rfl
    (Eq.refl s.handles) rfl
  obtain ⟨e', he', hvfb, hmem, -⟩ := h.reserved_alone hr
  apply Consistent.outside (t := s.assignReserved r) h 0 0 rfl rfl rfl
    (addFrameRef_frames s.toFrameStore r.frame 1)
  · refine counts_addFrameRef 1 h.counts rfl fun q => ?_
    rw [hrefs q]
    split_ifs <;> simp
  · intro w
    simp [FrameSystem.assignReserved, addFrameRef]
  · intro e he
    have hlive := liveOn_raise (h.entries e he).nodup hrefs
    simp only [h.reserved_unreferenced hr, and_true, h.mem_frames_iff he' hmem he, hvfb] at hlive
    have herase := Counting.count_map_erase (·.vfb) hr e.vfb
    simp only [eq_comm (a := r.vfb)] at herase
    have hreserved : (s.assignReserved r).reserved = s.reserved.erase r := rfl
    have hpending : (s.assignReserved r).pending = s.pending := rfl
    have hreleasing : (s.assignReserved r).releasing = s.releasing := rfl
    simp only [claimsOn, hlive, reservedOn, herase, hreserved, hpending, hreleasing, ite_self]
    omega
  · simp
  · exact fun w hw => Or.inl hw
  · exact fun r' hr' => List.mem_of_mem_erase hr'
  · exact fun op hop => hop
  · exact fun op hop => Or.inl hop
  · exact h.subs
  · intro q hq
    rw [hrefs q] at hq
    by_cases hne : q = r.frame
    · exact Or.inr ⟨r, hr, hne⟩
    · exact Or.inl (by rwa [if_neg hne] at hq)

/-- A frame that is pointed to exists. -/
theorem Consistent.references_eq_zero (hp : s.frames p = none) :
    s.references p = 0 := by
  by_contra hrefs
  obtain ⟨e, he, hmem⟩ := h.referenced p (Nat.pos_of_ne_zero hrefs)
  obtain ⟨x, hx, -⟩ := (h.entries e he).frames p hmem
  rw [hp] at hx
  cases hx

/-- A thread constructs a frame on the buffer of a frame it points to. -/
theorem Consistent.beginDerivation {src sub : FramePtr}
    (hsrc : src ∈ s.handles) (hsub : s.frames sub = none) {x : VideoFrame}
    (hx : s.frames src = some x) : Consistent (s.beginDerivation ⟨src, x.vfb, sub⟩) := by
  generalize hop : (⟨src, x.vfb, sub⟩ : Derivation) = op
  obtain ⟨rfl, hvfb, rfl⟩ : src = op.src ∧ x.vfb = op.vfb ∧ sub = op.sub := by
    subst hop
    exact ⟨rfl, rfl, rfl⟩
  obtain ⟨e', he', hmem⟩ := h.referenced _ (references_pos hsrc)
  have hvfb' : e'.vfb = op.vfb := by
    obtain ⟨x', hx', hvfb'⟩ := (h.entries e' he').frames _ hmem
    obtain rfl := Option.some.inj (hx.symm.trans hx')
    exact hvfb'.symm.trans hvfb
  have hrefs : ∀ q, (s.beginDerivation op).references q = s.references q := by
    intro q
    have herase := Counting.count_map_erase id hsrc q
    simp only [List.map_id, id_eq] at herase
    simp only [references, FrameSystem.beginDerivation, List.map_cons, List.count_cons, beq_iff_eq,
      herase]
    omega
  have hframes := newFrame_frames hsub op.vfb
  have hnew : (s.beginDerivation op).frames op.sub = some ⟨op.vfb, 0⟩ := Function.update_self _ _ _
  apply Consistent.outside (t := s.beginDerivation op) h op.vfb 1 rfl rfl rfl hframes
  · intro q y hy
    rw [hrefs q]
    by_cases hq : q = op.sub
    · subst hq
      obtain rfl := Option.some.inj (hnew.symm.trans hy)
      rw [h.references_eq_zero hsub]
      rfl
    · apply h.counts q y
      rwa [← Function.update_of_ne hq (some ⟨op.vfb, 0⟩) s.frames]
  · intro w
    by_cases hw : w = op.vfb
    · subst hw
      simp [FrameSystem.beginDerivation, newFrame, addVfbRef,
        modifyVfb]
    · simp [FrameSystem.beginDerivation, newFrame, addVfbRef,
        modifyVfb, hw]
  · intro e _
    have hlive : (s.beginDerivation op).liveOn e = s.liveOn e := liveOn_congr hrefs
    have hreserved : (s.beginDerivation op).reservedOn e.vfb =
        s.reservedOn e.vfb + if e.vfb = op.vfb then 1 else 0 := by
      simp only [reservedOn, FrameSystem.beginDerivation, List.map_cons, List.count_cons,
        beq_iff_eq, eq_comm (a := op.vfb)]
      omega
    have hreleasing : (s.beginDerivation op).releasing = s.releasing := rfl
    simp only [claimsOn, hlive, hreserved, hreleasing]
    split_ifs <;> omega
  · exact fun _ => ⟨e', he', hvfb', Nat.add_pos_left (liveOn_pos hmem (references_pos hsrc)) _⟩
  · exact fun w hw => Or.inl hw
  · exact fun r hr => hr
  · exact fun op' hop' => List.mem_cons_of_mem _ hop'
  · intro op' hop'
    rcases List.mem_cons.mp hop' with rfl | hold
    · obtain ⟨y, hy, hy'⟩ := hframes _ x hx
      refine Or.inr ⟨⟨y, hy, hy'.trans hvfb⟩, ⟨_, hnew, rfl⟩, ?_, ?_⟩
      · rw [hrefs, h.references_eq_zero hsub]
      · intro _ e he hmem
        obtain ⟨y, hy, -⟩ := (h.entries e he).frames _ hmem
        rw [hsub] at hy
        cases hy
    · exact Or.inl hold
  · refine List.nodup_cons.mpr ⟨fun hmem => ?_, h.subs⟩
    obtain ⟨op', hop', heq⟩ := List.mem_map.mp hmem
    obtain ⟨y, hy, -⟩ := (h.pending op' hop').sub
    rw [heq, hsub] at hy
    cases hy
  · exact fun q hq => Or.inl (by rwa [hrefs q] at hq)

end

end FrameSystem

end AviSynth
