import AviSynth.Frames.FrameRegistration

/-!
# Recycling, allocating and collecting buffers

A buffer whose count is zero has no claim on it, so that `GetFrameFromRegistry`
may hand out its first frame and the collecting loops may delete it.
-/

namespace AviSynth

open RegistryEntry FrameStore

namespace FrameSystem

variable {D : Type} [DecidableEq D] {s t : FrameSystem D}

section

variable (h : Consistent s)
include h

variable {e : RegistryEntry}

/-- Nothing points to the frames of an unused buffer. -/
theorem Consistent.unused_references
    (he : e ∈ s.frameRegistry) {b : VideoFrameBuffer D} (hb : s.vfbs e.vfb = some b)
    (hzero : b.refcount = 0) {p : FramePtr} (hp : p ∈ e.frames) : s.references p = 0 := by
  by_contra hrefs
  have hlive := liveOn_pos hp (Nat.pos_of_ne_zero hrefs)
  have hclaims := h.unused he hb hzero
  simp only [claimsOn] at hclaims
  omega

/-- What the thread knows of an entry whose buffer it has found unused. -/
theorem Consistent.unusedAt {i : ℕ} (hunused : s.UnusedAt i) (hget : s.frameRegistry[i]? = some e) :
    ∃ b, s.vfbs e.vfb = some b ∧ b.refcount = 0 ∧ s.claimsOn e = 0 ∧
      (∀ p ∈ e.frames, s.references p = 0) ∧
      ∀ p ∈ e.frames, ∀ x, s.frames p = some x → x.refcount = 0 := by
  obtain ⟨e', b, hget', hb, hzero⟩ := hunused
  obtain rfl := Option.some.inj (hget.symm.trans hget')
  have he := List.mem_of_getElem? hget
  have hrefs : ∀ p ∈ e.frames, s.references p = 0 := fun p hp =>
    h.unused_references he hb hzero hp
  refine ⟨b, hb, hzero, h.unused he hb hzero, hrefs, fun p hp x hx => ?_⟩
  rw [h.counts p x hx, hrefs p hp]
  rfl

/-- The list that `occupy` leaves, in general and on the buffer it is about. -/
theorem Consistent.occupy {request : FrameRequest D} {again : Bool} {i : ℕ}
    (hlock : s.lock = some (.occupy request again i)) (hget : s.frameRegistry[i]? = some e)
    {p : FramePtr} {store : FrameStore D} (hoccupy : s.toFrameStore.occupy e = some (p, store)) :
    Consistent (handOut { s with toFrameStore := store } request ⟨p, e.vfb⟩).1 := by
  obtain ⟨b, hb, hzero, hclaims, hrefs, hcount⟩ := h.unusedAt (h.position _ hlock).1 hget
  have he := List.mem_of_getElem? hget
  obtain ⟨first, others, hframes⟩ : ∃ first others, e.frames = first :: others := by
    cases hframes : e.frames with
    | nil => simp [FrameStore.occupy, hframes] at hoccupy
    | cons first others => exact ⟨first, others, rfl⟩
  have hnodup := (h.entries e he).nodup
  rw [hframes] at hnodup
  simp only [FrameStore.occupy, hframes, Option.some.injEq, Prod.mk.injEq] at hoccupy
  obtain ⟨rfl, rfl⟩ := hoccupy
  rw [deleteFrames_eq (s := s.modifyVfb e.vfb _) fun q hq =>
    hcount q (hframes ▸ List.mem_cons_of_mem _ hq)]
  apply h.relist he (fun _ => [first]) 1
  · simp [hlock]
  · rfl
  · rfl
  · rfl
  · rfl
  · rfl
  · exact List.nodup_singleton _
  · have hlive : s.liveOn e = 0 := by
      simp only [claimsOn] at hclaims
      omega
    rw [hlive, List.countP_singleton, hrefs first (hframes ▸ List.mem_cons_self)]
    rfl
  · intro q hq
    exact Or.inl (hframes ▸ List.mem_singleton.mp hq ▸ List.mem_cons_self)
  · intro q hq hpos
    have := hrefs q hq
    omega
  · intro q
    have hiff : q ∈ others ↔ q ∈ e.frames ∧ q ∉ [first] := by
      rw [hframes, List.mem_cons, List.mem_singleton]
      constructor
      · intro hq
        exact ⟨Or.inr hq, fun heq => (List.nodup_cons.mp hnodup).1 (heq ▸ hq)⟩
      · rintro ⟨hq, hne⟩
        exact hq.resolve_left hne
    simp only [handOut, hiff]
    rfl
  · intro w b' hb'
    by_cases hw : w = e.vfb
    · subst hw
      exact ⟨{ b' with refcount := b'.refcount + 1, freeCount := 0 },
        by simp [handOut, modifyVfb, hb'], rfl, rfl, by simp⟩
    · exact ⟨b', by simp [handOut, modifyVfb, hw, hb'], rfl, rfl, by simp [hw]⟩
  · intro w b' hb'
    by_cases hw : w = e.vfb
    · exact ⟨b, hw ▸ hb⟩
    · exact ⟨b', by simpa [handOut, modifyVfb, hw] using hb'⟩
  · intro w
    simp only [handOut, List.map_cons, List.count_cons, beq_iff_eq, eq_comm (a := e.vfb)]
  · intro r hr
    have hmem : ∀ {e'}, e' ∈ s.frameRegistry →
        (if HasKey e.vfbSize e.vfb e' then { e' with frames := [first] } else e') ∈
          modify s.frameRegistry e.vfbSize e.vfb fun _ => [first] :=
      fun {e'} he' => mem_modify.mpr ⟨e', he', rfl⟩
    rcases List.mem_cons.mp hr with rfl | hr
    · refine ⟨⟨_, hmem he, ?_⟩, ?_⟩
      · rw [if_pos ⟨rfl, rfl⟩]
        exact ⟨rfl, List.mem_singleton_self _⟩
      · exact ⟨{ b with refcount := b.refcount + 1, freeCount := 0 },
          by simp [handOut, modifyVfb, hb], by simp [hzero]⟩
    · obtain ⟨⟨e', he', hvfb, hr'⟩, b', hb', hone⟩ := h.reserved r hr
      have hne : r.vfb ≠ e.vfb := reserved_ne hclaims hr
      refine ⟨⟨_, hmem he', ?_⟩, b', by simp [handOut, modifyVfb, hne, hb'], hone⟩
      rw [if_neg fun hkey => hne (hvfb.symm.trans hkey.2)]
      exact ⟨hvfb, hr'⟩
  · intro c hc
    cases hc

/-- A collecting loop deletes an unused buffer with its frames. -/
theorem Consistent.collect {request : FrameRequest D} {pass : Pass} {i : ℕ}
    (hlock : s.lock = some (.collect request pass i)) (hget : s.frameRegistry[i]? = some e)
    {b : VideoFrameBuffer D} (hb : s.vfbs e.vfb = some b) {ps : List FramePtr}
    (hps : ∀ p, p ∈ ps ↔ p ∈ e.frames) :
    Consistent { s with
      toFrameStore := s.toFrameStore.collect i e.vfb b ps
      lock := some (.inspect request pass i) } := by
  obtain ⟨-, -, -, hclaims, hrefs, hcount⟩ := h.unusedAt (h.position _ hlock) hget
  have he := List.mem_of_getElem? hget
  have hsize := (h.buffer_eq he hb).1
  have hreserved := fun r hr => reserved_ne hclaims (r := r) hr
  simp only [claimsOn, reservedOn] at hclaims
  obtain ⟨hi, hgeti⟩ := List.getElem?_eq_some_iff.mp hget
  have hperm := List.getElem_cons_eraseIdx_perm hi
  have hkeys := (hperm.map (·.vfb)).nodup_iff.mpr h.keys
  rw [hgeti] at hperm hkeys
  obtain ⟨hgone, hkeys⟩ := List.nodup_cons.mp hkeys
  have hmem : ∀ {e'}, e' ∈ s.frameRegistry.eraseIdx i → e' ∈ s.frameRegistry ∧ e'.vfb ≠ e.vfb :=
    fun {e'} he' => ⟨List.mem_of_mem_eraseIdx he', fun heq =>
      hgone (List.mem_map.mpr ⟨e', he', heq⟩)⟩
  have hrest : ∀ {e'}, e' ∈ s.frameRegistry → e'.vfb ≠ e.vfb → e' ∈ s.frameRegistry.eraseIdx i := by
    intro e' he' hne
    rcases List.mem_cons.mp (hperm.mem_iff.mpr he') with rfl | he'
    · exact absurd rfl hne
    · exact he'
  have hframes : ∀ q x, s.frames q = some x → x.vfb ≠ e.vfb ∨ q ∉ e.frames →
      (if q ∈ ps then none else s.frames q) = some x := by
    intro q x hx hq
    have hout : q ∉ ps := by
      intro hq'
      have hmem' := (hps q).mp hq'
      exact hq.elim (fun hne => hne (h.frame_vfb he hmem' hx)) fun hout => hout hmem'
    rw [if_neg hout, hx]
  have hvfbs : ∀ {w}, w ≠ e.vfb → Function.update s.vfbs e.vfb none w = s.vfbs w :=
    fun {w} hw => Function.update_of_ne hw _ _
  have hs : ∀ op, s.lock ≠ some (.assign op) := by simp [hlock]
  have hpending : ∀ op ∈ s.pending, op.vfb ≠ e.vfb := by
    intro op hop heq
    have hpos := pending_count_pos hop
    rw [heq] at hpos
    omega
  have hbytes : ∀ d, ((s.frameRegistry.map fun e' =>
      if (s.vfbs e'.vfb).any (fun b => b.device = d) then e'.vfbSize else 0).sum) =
      (if b.device = d then e.vfbSize else 0) + ((s.frameRegistry.eraseIdx i).map fun e' =>
        if (s.vfbs e'.vfb).any (fun b => b.device = d) then e'.vfbSize else 0).sum := by
    intro d
    rw [Counting.sum_map_eraseIdx _ hget, hb]
    simp only [Option.any_some, decide_eq_true_eq]
  rw [collect_eq i e.vfb b fun q hq => hcount q ((hps q).mp hq)]
  refine ⟨hkeys, ?_, ?_, ?_, ?_, ?_, h.subs, ?_, ?_, ?_, ?_⟩
  · intro e' he'
    obtain ⟨he', hne⟩ := hmem he'
    obtain ⟨hnodup, hlisted, b', hb', hok⟩ := h.entries e' he'
    refine ⟨hnodup, ?_, b', (hvfbs hne).trans hb', hok⟩
    intro q hq
    obtain ⟨x, hx, hvfb⟩ := hlisted q hq
    exact ⟨x, hframes q x hx (Or.inl (hvfb.trans_ne hne)), hvfb⟩
  · intro q x hx
    refine h.counts q x ?_
    simp only at hx
    split_ifs at hx
    exact hx
  · intro q hq
    obtain ⟨e', he', hq'⟩ := h.referenced q hq
    refine ⟨e', hrest he' fun heq => ?_, hq'⟩
    obtain rfl := h.entry_unique he' he heq
    have := hrefs q hq'
    simp only [references] at this hq
    omega
  · intro r hr
    obtain ⟨⟨e', he', hvfb, hr'⟩, b', hb', hone⟩ := h.reserved r hr
    have hne : r.vfb ≠ e.vfb := hreserved r hr
    exact ⟨⟨e', hrest he' (hvfb.trans_ne hne), hvfb, hr'⟩, b', (hvfbs hne).trans hb', hone⟩
  · intro op hop
    obtain ⟨⟨x, hx, hsrc⟩, ⟨y, hy, hsub⟩, hzero, hout⟩ := h.pending op hop
    refine ⟨⟨x, hframes _ x hx (Or.inl (hsrc.trans_ne (hpending op hop))), hsrc⟩,
      ⟨y, hframes _ y hy (Or.inl (hsub.trans_ne (hpending op hop))), hsub⟩, hzero, fun _ => ?_⟩
    exact fun e' he' => hout (hs op) e' (hmem he').1
  · intro w b' hb'
    have hw : w ≠ e.vfb := by
      rintro rfl
      simp at hb'
    obtain ⟨e', he', hvfb⟩ := h.registered w b' ((hvfbs hw).symm.trans hb')
    exact ⟨e', hrest he' (hvfb.trans_ne hw), hvfb⟩
  · intro w hw
    obtain ⟨e', he', hvfb⟩ := h.releasing w hw
    have hne : w ≠ e.vfb := by
      rintro rfl
      have hpos := List.count_pos_iff.mpr hw
      simp only at hpos
      omega
    exact ⟨e', hrest he' (hvfb.trans_ne hne), hvfb⟩
  · intro d
    have hold := h.memory d
    have hrest' : ((s.frameRegistry.eraseIdx i).map fun e' =>
        if (Function.update s.vfbs e.vfb none e'.vfb).any (fun b => b.device = d) then e'.vfbSize
        else 0) = (s.frameRegistry.eraseIdx i).map fun e' =>
        if (s.vfbs e'.vfb).any (fun b => b.device = d) then e'.vfbSize else 0 :=
      List.map_congr_left fun e' he' => by rw [hvfbs (hmem he').2]
    simp only [registeredBytes] at hold ⊢
    rw [hrest']
    rw [hbytes] at hold
    by_cases hd : d = b.device
    · subst hd
      simp only [Function.update_self, hsize]
      rw [if_pos rfl] at hold
      omega
    · simp only [Function.update_of_ne hd]
      rw [if_neg fun heq => hd heq.symm] at hold
      omega
  · intro c hc
    obtain rfl := Option.some.inj hc
    trivial

/-- `AllocateFrame` registers a new buffer, which its only frame keeps in use. -/
theorem Consistent.allocate (hs : ∀ op, s.lock ≠ some (.assign op)) (request : FrameRequest D)
    {v : VfbPtr} {p : FramePtr} (hv : s.vfbs v = none) (hp : s.frames p = none) (data : ℕ) :
    Consistent (handOut { s with
      toFrameStore := s.allocateFrame request.vfbSize request.margin request.device v p data }
      request ⟨p, v⟩).1 := by
  generalize ht : (handOut { s with
    toFrameStore := s.allocateFrame request.vfbSize request.margin request.device v p data }
    request ⟨p, v⟩).1 = t
  have hlive : ∀ e ∈ s.frameRegistry, e.vfb ≠ v := by
    rintro e he rfl
    obtain ⟨b, hb, -⟩ := (h.entries e he).buffer
    rw [hv] at hb
    cases hb
  have hunlisted : ∀ e ∈ s.frameRegistry, p ∉ e.frames := by
    intro e he hmem
    obtain ⟨x, hx, -⟩ := (h.entries e he).frames p hmem
    rw [hp] at hx
    cases hx
  have hperm : t.frameRegistry.Perm (⟨request.vfbSize, v, [p]⟩ :: s.frameRegistry) := by
    subst ht
    exact modify_touch_perm hlive p
  have hvfbs : t.vfbs = Function.update s.vfbs v
      (some ⟨data, request.vfbSize, request.margin, request.device, 1, 0⟩) := by
    subst ht
    exact s.allocateFrame_vfbs _ _ _ _ _ _
  have hframes : t.frames = Function.update s.frames p (some ⟨v, 0⟩) := by
    subst ht
    rfl
  obtain ⟨hhandles, hpending, hreleasing, hreserved, hlock, hmemory⟩ :
      t.handles = s.handles ∧ t.pending = s.pending ∧ t.releasing = s.releasing ∧
        t.reserved = ⟨p, v⟩ :: s.reserved ∧ t.lock = none ∧
        t.memoryUsed = Function.update s.memoryUsed request.device
          (s.memoryUsed request.device + request.vfbSize) := by
    subst ht
    exact ⟨rfl, rfl, rfl, rfl, rfl, rfl⟩
  have hrefs : ∀ q, t.references q = s.references q := fun q => by
    simp only [references, hhandles, hpending]
  have hzero : s.references p = 0 := h.references_eq_zero hp
  have hframes' : ∀ q x, s.frames q = some x → t.frames q = some x := by
    intro q x hx
    have hne : q ≠ p := by
      rintro rfl
      rw [hp] at hx
      cases hx
    rw [hframes, Function.update_of_ne hne, hx]
  have hvfbs' : ∀ w b, s.vfbs w = some b → t.vfbs w = some b := by
    intro w b hb
    have hne : w ≠ v := by
      rintro rfl
      rw [hv] at hb
      cases hb
    rw [hvfbs, Function.update_of_ne hne, hb]
  have hreservedOn : s.reservedOn v = 0 := by
    have hleft : (s.reserved.map (·.vfb)).count v = 0 := List.count_eq_zero.mpr fun hmem => by
      obtain ⟨r, hr, hvfb⟩ := List.mem_map.mp hmem
      obtain ⟨⟨e, he, hvfb', -⟩, -⟩ := h.reserved r hr
      exact hlive e he (hvfb'.trans hvfb)
    have hright : (s.pending.map (·.vfb)).count v = 0 := List.count_eq_zero.mpr fun hmem => by
      obtain ⟨op, hop, hvfb⟩ := List.mem_map.mp hmem
      obtain ⟨e, he, hvfb'⟩ := h.pending_entry hop
      exact hlive e he (hvfb'.trans hvfb)
    simp only [reservedOn, hleft, hright]
  have hreleasingOn : s.releasing.count v = 0 := List.count_eq_zero.mpr fun hmem => by
    obtain ⟨e, he, hvfb⟩ := h.releasing v hmem
    exact hlive e he hvfb
  have hclaims : ∀ e, t.claimsOn e = s.claimsOn e + if e.vfb = v then 1 else 0 := by
    intro e
    simp only [claimsOn, liveOn, hrefs, reservedOn, hpending, hreleasing, hreserved,
      List.map_cons, List.count_cons, beq_iff_eq, eq_comm (a := v)]
    omega
  have hmem : ∀ {e}, e ∈ t.frameRegistry ↔ e = ⟨request.vfbSize, v, [p]⟩ ∨ e ∈ s.frameRegistry :=
    hperm.mem_iff.trans List.mem_cons
  refine ⟨?_, ?_, ?_, ?_, ?_, ?_, hpending ▸ h.subs, ?_, ?_, ?_, ?_⟩
  · refine (hperm.map (·.vfb)).nodup_iff.mpr (List.nodup_cons.mpr ⟨fun hv' => ?_, h.keys⟩)
    obtain ⟨e, he, hvfb⟩ := List.mem_map.mp hv'
    exact hlive e he hvfb
  · intro e he
    rcases hmem.mp he with rfl | he
    · refine ⟨List.nodup_singleton p, ?_, _, by rw [hvfbs, Function.update_self], rfl, ?_⟩
      · intro q hq
        obtain rfl := List.mem_singleton.mp hq
        exact ⟨⟨v, 0⟩, by rw [hframes, Function.update_self], rfl⟩
      · have hliveOn : s.liveOn ⟨request.vfbSize, v, [p]⟩ = 0 := by simp [liveOn, hzero]
        rw [hclaims, claimsOn, hliveOn, hreservedOn, hreleasingOn, if_pos rfl]
        rfl
    · refine (h.entries e he).recount 0 (fun q x hx => ⟨x, hframes' q x hx, rfl⟩)
        (fun b hb => ⟨b, hvfbs' _ b hb, rfl, by omega⟩) ?_
      rw [hclaims, if_neg (hlive e he)]
      rfl
  · intro q x hx
    rw [hrefs]
    by_cases hq : q = p
    · rw [hframes, hq, Function.update_self] at hx
      obtain rfl := Option.some.inj hx
      rw [hq, hzero]
      rfl
    · rw [hframes, Function.update_of_ne hq] at hx
      exact h.counts q x hx
  · intro q hq
    rw [hrefs] at hq
    obtain ⟨e, he, hq'⟩ := h.referenced q hq
    exact ⟨e, hmem.mpr (Or.inr he), hq'⟩
  · intro r hr
    rw [hreserved] at hr
    rcases List.mem_cons.mp hr with rfl | hr
    · exact ⟨⟨_, hmem.mpr (Or.inl rfl), rfl, List.mem_singleton_self p⟩, _,
        by rw [hvfbs, Function.update_self], rfl⟩
    · obtain ⟨⟨e, he, hvfb, hr'⟩, b, hb, hone⟩ := h.reserved r hr
      exact ⟨⟨e, hmem.mpr (Or.inr he), hvfb, hr'⟩, b, hvfbs' _ b hb, hone⟩
  · intro op hop
    obtain ⟨⟨x, hx, hsrc⟩, ⟨y, hy, hsub⟩, hzero', hout⟩ := h.pending op (hpending ▸ hop)
    refine ⟨⟨x, hframes' _ x hx, hsrc⟩, ⟨y, hframes' _ y hy, hsub⟩, by rw [hrefs, hzero'], ?_⟩
    intro _ e he hsub'
    rcases hmem.mp he with rfl | he
    · rw [List.mem_singleton.mp hsub', hp] at hy
      cases hy
    · exact hout (hs op) e he hsub'
  · intro w b hb
    by_cases hw : w = v
    · exact ⟨_, hmem.mpr (Or.inl rfl), hw.symm⟩
    · rw [hvfbs, Function.update_of_ne hw] at hb
      obtain ⟨e, he, hvfb⟩ := h.registered w b hb
      exact ⟨e, hmem.mpr (Or.inr he), hvfb⟩
  · intro w hw
    obtain ⟨e, he, hvfb⟩ := h.releasing w (hreleasing ▸ hw)
    exact ⟨e, hmem.mpr (Or.inr he), hvfb⟩
  · intro d
    have hold := h.memory d
    have hrest : (s.frameRegistry.map fun e =>
        if (t.vfbs e.vfb).any (fun b => b.device = d) then e.vfbSize else 0) =
        s.frameRegistry.map fun e =>
          if (s.vfbs e.vfb).any (fun b => b.device = d) then e.vfbSize else 0 :=
      List.map_congr_left fun e he => by rw [hvfbs, Function.update_of_ne (hlive e he)]
    simp only [registeredBytes] at hold ⊢
    rw [(hperm.map _).sum_eq, List.map_cons, List.sum_cons, hrest, ← hold, hmemory, hvfbs]
    simp only [Function.update_self, Option.any_some, decide_eq_true_eq]
    by_cases hd : d = request.device
    · subst hd
      rw [Function.update_self, if_pos rfl, Nat.add_comm]
    · rw [Function.update_of_ne hd, if_neg fun heq => hd heq.symm, Nat.zero_add]
  · intro c hc
    rw [hlock] at hc
    cases hc

/-- A collecting loop notes that it has found a buffer unused. -/
theorem Consistent.countFree (hs : ∀ op, s.lock ≠ some (.assign op)) (v : VfbPtr)
    {c : Critical D} (hposition : PositionOk { s with
      toFrameStore := s.modifyVfb v fun b => { b with freeCount := b.freeCount + 1 } } c) :
    Consistent (FrameSystem.goto { s with
      toFrameStore := s.modifyVfb v fun b => { b with freeCount := b.freeCount + 1 } } c).1 := by
  have hvfbs : ∀ w b, s.vfbs w = some b → ∃ b', (s.modifyVfb v fun b =>
      { b with freeCount := b.freeCount + 1 }).vfbs w = some b' ∧ b'.dataSize = b.dataSize ∧
      b'.device = b.device ∧ b'.refcount = b.refcount := by
    intro w b hb
    by_cases hw : w = v
    · exact ⟨{ b with freeCount := b.freeCount + 1 },
        by rw [modifyVfb_vfbs, hb, Option.map_some, if_pos hw], rfl, rfl, rfl⟩
    · exact ⟨b, by rw [modifyVfb_vfbs, hb, Option.map_some, if_neg hw], rfl, rfl, rfl⟩
  refine ⟨h.keys, ?_, h.counts, h.referenced, ?_, ?_, h.subs, ?_, h.releasing, ?_, ?_⟩
  · intro e he
    refine (h.entries e he).recount 0 (fun q x hx => ⟨x, hx, rfl⟩) (fun b hb => ?_) rfl
    obtain ⟨b', hb', hsize, -, hcount⟩ := hvfbs _ b hb
    exact ⟨b', hb', hsize, by omega⟩
  · intro r hr
    obtain ⟨hregistered, b, hb, hone⟩ := h.reserved r hr
    obtain ⟨b', hb', -, -, hcount⟩ := hvfbs _ b hb
    exact ⟨hregistered, b', hb', hcount.trans hone⟩
  · intro op hop
    have hok := h.pending op hop
    exact ⟨hok.src, hok.sub, hok.unreferenced, fun _ => hok.unregistered (hs op)⟩
  · intro w b hb
    have hb' : (s.modifyVfb v fun b =>
        { b with freeCount := b.freeCount + 1 }).vfbs w = some b := hb
    rw [modifyVfb_vfbs, Option.map_eq_some_iff] at hb'
    obtain ⟨b', hb', -⟩ := hb'
    exact h.registered w b' hb'
  · intro d
    refine (h.memory d).trans (registeredBytes_congr (s := s.toFrameStore)
      (t := s.modifyVfb v fun b => { b with freeCount := b.freeCount + 1 }) rfl
      (fun e he => ?_) d).symm
    obtain ⟨b, hb, -⟩ := (h.entries e he).buffer
    obtain ⟨b', hb', -, hdevice, -⟩ := hvfbs _ b hb
    simp only [hb, hb', Option.map_some, hdevice]
  · intro c' hc'
    obtain rfl := Option.some.inj hc'
    cases c <;> exact hposition

end

end FrameSystem

end AviSynth
