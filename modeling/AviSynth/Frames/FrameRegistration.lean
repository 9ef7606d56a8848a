import AviSynth.Frames.FrameSharing

/-!
# Steps inside the mutex

The thread inside the mutex recycles, deletes and registers frames. What it
deletes has no pointer and no reservation, so that the counts stay right.
-/

namespace AviSynth

open RegistryEntry

namespace FrameSystem

variable {D : Type} [DecidableEq D] {s t : FrameSystem D}

section

variable (h : Consistent s)
include h

section

variable (hlock : ∀ op, s.lock ≠ some (.assign op))
include hlock

/-- The thread is elsewhere, and nothing has changed. -/
theorem Consistent.setLock {lock : Option (Critical D)}
    (hposition : ∀ c, lock = some c → PositionOk s c) :
    Consistent { s with lock } := by
  refine ⟨h.keys, ?_, h.counts, h.referenced, ?_, ?_, h.subs, h.registered,
    h.releasing, h.memory, ?_⟩
  · exact fun e he => ⟨(h.entries e he).nodup, (h.entries e he).frames, (h.entries e he).buffer⟩
  · exact fun r hr => ⟨(h.reserved r hr).registered, (h.reserved r hr).buffer⟩
  · intro op hop
    have hok := h.pending op hop
    exact ⟨hok.src, hok.sub, hok.unreferenced, fun _ => hok.unregistered (hlock op)⟩
  · intro c hc
    have hok := hposition c hc
    cases c <;> exact hok

/-- The thread goes on, having changed nothing. -/
theorem Consistent.goto {c : Critical D} (hposition : PositionOk s c) :
    Consistent (s.goto c).1 :=
  h.setLock hlock fun _ hc => Option.some.inj hc ▸ hposition

/-- The thread leaves the mutex. -/
theorem Consistent.unlock :
    Consistent { s with lock := none } :=
  h.setLock hlock nofun

end

variable {op : Derivation} {b : VideoFrameBuffer D}

/-- A derivation in progress finds its buffer in the registry. -/
theorem Consistent.pending_entry (hop : op ∈ s.pending) :
    ∃ e ∈ s.frameRegistry, e.vfb = op.vfb := by
  obtain ⟨e, he, hmem⟩ := h.referenced op.src (src_references_pos hop)
  obtain ⟨x, hx, hvfb⟩ := (h.pending op hop).src
  exact ⟨e, he, (h.frame_vfb he hmem hx).symm.trans hvfb⟩

/-- The registry lists the frames of an entry under the size and the address of its
buffer. -/
theorem Consistent.framesAt_eq {e : RegistryEntry} (he : e ∈ s.frameRegistry) {v : VfbPtr}
    (hvfb : e.vfb = v) (hb : s.vfbs v = some b) :
    b.dataSize = e.vfbSize ∧ framesAt s.frameRegistry b.dataSize v = e.frames := by
  subst hvfb
  have hsize := (h.buffer_eq he hb).1
  exact ⟨hsize, hsize ▸ RegistryEntry.framesAt_eq h.keys he⟩

/-- No frame on its buffer is reserved. -/
theorem Consistent.pending_not_reserved
    (hop : op ∈ s.pending) {r : Reservation} (hr : r ∈ s.reserved) : r.vfb ≠ op.vfb := by
  intro heq
  obtain ⟨e, -, -, -, -, -, hnone, -⟩ := h.reserved_alone hr
  have := pending_count_pos hop
  rw [heq] at hnone
  omega

/-- A reserved frame stays listed when the list of a derivation's buffer changes. -/
theorem Consistent.reserved_modify (hop : op ∈ s.pending) {r : Reservation}
    (hr : r ∈ s.reserved) (vfbSize : ℕ) (f : List FramePtr → List FramePtr) :
    ∃ e ∈ modify s.frameRegistry vfbSize op.vfb f, e.vfb = r.vfb ∧ r.frame ∈ e.frames := by
  obtain ⟨e, he, hvfb, hframe⟩ := (h.reserved r hr).registered
  have hne : ¬HasKey vfbSize op.vfb e := fun hkey =>
    h.pending_not_reserved hop hr (hvfb.symm.trans hkey.2)
  exact ⟨e, mem_modify.mpr ⟨e, he, if_neg hne⟩, hvfb, hframe⟩

/-- The rule for a step that gives one buffer a new frame list. Frames that
leave the list are deleted, frames that join it are the thread's own, and no
pointer changes. The buffer's count may change with the number of reservations. -/
theorem Consistent.relist {e : RegistryEntry} (he : e ∈ s.frameRegistry)
    (f : List FramePtr → List FramePtr) (n : ℕ) (hs : ∀ op, s.lock ≠ some (.assign op))
    (hregistry : t.frameRegistry = modify s.frameRegistry e.vfbSize e.vfb f)
    (hmemory : t.memoryUsed = s.memoryUsed) (hhandles : t.handles = s.handles)
    (hpending : t.pending = s.pending) (hreleasing : t.releasing = s.releasing)
    (hnodup : (f e.frames).Nodup)
    (hlive : (f e.frames).countP (fun p => 0 < s.references p) = s.liveOn e)
    (hlisted : ∀ p ∈ f e.frames, p ∈ e.frames ∨
      ∃ op ∈ s.pending, p = op.sub ∧ e.vfb = op.vfb ∧ t.lock = some (.assign op))
    (hkept : ∀ p ∈ e.frames, 0 < s.references p → p ∈ f e.frames)
    (hframes : ∀ q, t.frames q =
      if q ∈ e.frames ∧ q ∉ f e.frames then none else s.frames q)
    (hvfbs : ∀ w b, s.vfbs w = some b → ∃ b', t.vfbs w = some b' ∧ b'.dataSize = b.dataSize ∧
      b'.device = b.device ∧ b'.refcount = b.refcount + if w = e.vfb then (n : ℤ) else 0)
    (hvfbs' : ∀ w b', t.vfbs w = some b' → ∃ b, s.vfbs w = some b)
    (hreserved : ∀ w, (t.reserved.map (·.vfb)).count w =
      (s.reserved.map (·.vfb)).count w + if w = e.vfb then n else 0)
    (hreservedOk : ∀ r ∈ t.reserved, ReservedOk t r)
    (hposition : ∀ c, t.lock = some c → PositionOk t c) : Consistent t := by
  have hrefs : ∀ q, t.references q = s.references q := fun q => by
    simp only [references, hhandles, hpending]
  have hkept' : ∀ q x, s.frames q = some x → (q ∈ e.frames → q ∈ f e.frames) →
      t.frames q = some x := by
    intro q x hx hq
    rw [hframes, if_neg fun hc => hc.2 (hq hc.1), hx]
  have hold : ∀ q x, t.frames q = some x → s.frames q = some x := by
    intro q x hx
    rw [hframes] at hx
    split_ifs at hx
    exact hx
  have hunlisted : ∀ e' ∈ s.frameRegistry, e' ≠ e → ∀ q ∈ e'.frames, q ∉ e.frames :=
    fun e' he' hne q hq hq' =>
      hne (h.entry_unique he' he ((h.mem_frames_iff he hq' he').mp hq))
  have hsub : ∀ op ∈ s.pending, op.sub ∉ e.frames := fun op hop hmem =>
    (h.pending op hop).unregistered (hs op) e he hmem
  refine ⟨?_, ?_, ?_, ?_, hreservedOk, ?_, hpending ▸ h.subs, ?_, ?_, ?_, hposition⟩
  · rw [hregistry, map_vfb_modify]
    exact h.keys
  · intro e'' he''
    rw [hregistry, mem_modify] at he''
    obtain ⟨e', he', rfl⟩ := he''
    by_cases hkey : HasKey e.vfbSize e.vfb e'
    · obtain rfl := h.entry_unique he' he hkey.2
      rw [if_pos hkey]
      obtain ⟨b, hb, hsize, hcount⟩ := (h.entries e' he').buffer
      obtain ⟨b', hb', hsize', -, hcount'⟩ := hvfbs _ b hb
      refine ⟨hnodup, ?_, b', hb', hsize'.trans hsize, ?_⟩
      · intro p hp
        rcases hlisted p hp with hmem | ⟨op, hop, rfl, hvfb, -⟩
        · obtain ⟨x, hx, hvfb⟩ := (h.entries e' he').frames p hmem
          exact ⟨x, hkept' p x hx fun _ => hp, hvfb⟩
        · obtain ⟨x, hx, hvfb'⟩ := (h.pending op hop).sub
          exact ⟨x, hkept' _ x hx fun hmem => absurd hmem (hsub op hop), hvfb'.trans hvfb.symm⟩
      · rw [hcount', if_pos rfl, hcount]
        have hreserved' := hreserved e'.vfb
        rw [if_pos rfl] at hreserved'
        simp only [claimsOn, reservedOn, hreleasing, hpending, hreserved', ← hlive]
        simp only [liveOn, hrefs]
        omega
    · rw [if_neg hkey]
      have hne : e' ≠ e := by
        rintro rfl
        exact hkey ⟨rfl, rfl⟩
      have hvfb : e'.vfb ≠ e.vfb := fun heq => hne (h.entry_unique he' he heq)
      obtain ⟨b, hb, hsize, hcount⟩ := (h.entries e' he').buffer
      obtain ⟨b', hb', hsize', -, hcount'⟩ := hvfbs _ b hb
      refine ⟨(h.entries e' he').nodup, ?_, b', hb', hsize'.trans hsize, ?_⟩
      · intro p hp
        obtain ⟨x, hx, hvfb⟩ := (h.entries e' he').frames p hp
        exact ⟨x, hkept' p x hx fun hmem => absurd hmem (hunlisted e' he' hne p hp), hvfb⟩
      · have hreserved' := hreserved e'.vfb
        rw [if_neg hvfb] at hreserved'
        rw [hcount', if_neg hvfb, hcount]
        simp only [claimsOn, reservedOn, hreleasing, hpending, hreserved']
        simp only [liveOn, hrefs]
        omega
  · intro q x hx
    rw [hrefs]
    exact h.counts q x (hold q x hx)
  · intro q hq
    rw [hrefs] at hq
    obtain ⟨e', he', hmem⟩ := h.referenced q hq
    rw [hregistry]
    refine ⟨_, mem_modify.mpr ⟨e', he', rfl⟩, ?_⟩
    by_cases hkey : HasKey e.vfbSize e.vfb e'
    · obtain rfl := h.entry_unique he' he hkey.2
      rw [if_pos hkey]
      exact hkept q hmem hq
    · rwa [if_neg hkey]
  · intro op hop
    rw [hpending] at hop
    have hok := h.pending op hop
    obtain ⟨x, hx, hsrc⟩ := hok.src
    obtain ⟨y, hy, hsub'⟩ := hok.sub
    refine ⟨⟨x, hkept' _ x hx fun hmem => hkept _ hmem (src_references_pos hop), hsrc⟩,
      ⟨y, hkept' _ y hy fun hmem => absurd hmem (hsub op hop), hsub'⟩, ?_, ?_⟩
    · rw [hrefs, hok.unreferenced]
    · intro hlock e'' he'' hmem
      rw [hregistry, mem_modify] at he''
      obtain ⟨e', he', rfl⟩ := he''
      by_cases hkey : HasKey e.vfbSize e.vfb e'
      · obtain rfl := h.entry_unique he' he hkey.2
        rw [if_pos hkey] at hmem
        rcases hlisted _ hmem with hmem' | ⟨op', hop', heq, -, hassign⟩
        · exact hsub op hop hmem'
        · obtain rfl := List.inj_on_of_nodup_map h.subs hop hop' heq
          exact hlock hassign
      · rw [if_neg hkey] at hmem
        exact hok.unregistered (hs op) e' he' hmem
  · intro w b' hb'
    obtain ⟨b, hb⟩ := hvfbs' w b' hb'
    obtain ⟨e', he', hvfb⟩ := h.registered w b hb
    rw [hregistry]
    refine ⟨_, mem_modify.mpr ⟨e', he', rfl⟩, ?_⟩
    split_ifs <;> exact hvfb
  · intro w hw
    obtain ⟨e', he', hvfb⟩ := h.releasing w (hreleasing ▸ hw)
    rw [hregistry]
    refine ⟨_, mem_modify.mpr ⟨e', he', rfl⟩, ?_⟩
    split_ifs <;> exact hvfb
  · intro d
    rw [hmemory, h.memory d]
    have hsum := sum_modify s.frameRegistry e.vfbSize e.vfb f fun size v =>
      if (t.vfbs v).any (fun b => b.device = d) then size else 0
    simp only [FrameStore.registeredBytes, hregistry, hsum]
    refine congrArg List.sum (List.map_congr_left fun e' he' => ?_)
    obtain ⟨b, hb, -⟩ := (h.entries e' he').buffer
    obtain ⟨b', hb', -, hdevice, -⟩ := hvfbs _ b hb
    simp only [hb, hb', Option.any_some, hdevice]

/-- What the thread knows of a frame that `RegisterSubFrameInRegistry` deletes. -/
theorem Consistent.erase_position {i : ℕ} (hlock : s.lock = some (.erase op i))
    (hb : s.vfbs op.vfb = some b) {p : FramePtr}
    (hp : (framesAt s.frameRegistry b.dataSize op.vfb)[i]? = some p) :
    ∃ e ∈ s.frameRegistry, e.vfb = op.vfb ∧ b.dataSize = e.vfbSize ∧ e.frames[i]? = some p ∧
      s.references p = 0 ∧ ∀ x, s.frames p = some x → x.refcount = 0 := by
  obtain ⟨-, e, he, hvfb, p', hp', hzero⟩ := h.position _ hlock
  obtain ⟨hsize, hlist⟩ := h.framesAt_eq he hvfb hb
  rw [hlist] at hp
  obtain rfl := Option.some.inj (hp.symm.trans hp')
  exact ⟨e, he, hvfb, hsize, hp, hzero, fun x hx => by rw [h.counts p x hx, hzero]; rfl⟩

/-- `RegisterSubFrameInRegistry` deletes a frame that nothing points to. -/
theorem Consistent.erase {i : ℕ} (hlock : s.lock = some (.erase op i))
    (hb : s.vfbs op.vfb = some b) {p : FramePtr}
    (hp : (framesAt s.frameRegistry b.dataSize op.vfb)[i]? = some p) :
    Consistent { s with
      toFrameStore := { s.deleteFrame p with
        frameRegistry := modify (s.deleteFrame p).frameRegistry b.dataSize op.vfb (·.eraseIdx i) }
      lock := some (.purge op i) } := by
  have hop : op ∈ s.pending := (h.position _ hlock).1
  obtain ⟨e, he, hvfb, hsize, hp, hzero, hcount⟩ := h.erase_position hlock hb hp
  obtain ⟨hi, hget⟩ := List.getElem?_eq_some_iff.mp hp
  have hperm := List.getElem_cons_eraseIdx_perm hi
  have hnodup := hperm.nodup_iff.mpr (h.entries e he).nodup
  rw [hget] at hperm hnodup
  have hmem : ∀ q, q ∈ e.frames.eraseIdx i ↔ q ∈ e.frames ∧ q ≠ p := by
    intro q
    have hsplit := hperm.mem_iff (a := q)
    rw [List.mem_cons] at hsplit
    constructor
    · intro hq
      exact ⟨hsplit.mp (Or.inr hq), fun heq => (List.nodup_cons.mp hnodup).1 (heq ▸ hq)⟩
    · rintro ⟨hq, hne⟩
      exact (hsplit.mpr hq).resolve_left hne
  rw [FrameStore.deleteFrame_eq hcount]
  apply h.relist he (·.eraseIdx i) 0
  · simp [hlock]
  · simp only [hsize, hvfb]
  · rfl
  · rfl
  · rfl
  · rfl
  · exact (List.nodup_cons.mp hnodup).2
  · rw [liveOn, ← hperm.countP_eq, List.countP_cons, hzero]
    rfl
  · exact fun q hq => Or.inl ((hmem q).mp hq).1
  · intro q hq hpos
    refine (hmem q).mpr ⟨hq, ?_⟩
    rintro rfl
    omega
  · intro q
    by_cases hq : q = p
    · subst hq
      simp [hmem, List.mem_of_getElem? hp]
    · simp [hmem, hq]
  · exact fun w b hb => ⟨b, hb, rfl, rfl, by simp⟩
  · exact fun w b hb => ⟨b, hb⟩
  · simp
  · exact fun r hr => ⟨h.reserved_modify hop hr b.dataSize (·.eraseIdx i), (h.reserved r hr).buffer⟩
  · intro c hc
    obtain rfl := Option.some.inj hc
    exact hop

/-- `RegisterSubFrameInRegistry` adds the derived frame. -/
theorem Consistent.append (hlock : s.lock = some (.append op)) (hb : s.vfbs op.vfb = some b) :
    Consistent { s with
      frameRegistry := modify s.frameRegistry b.dataSize op.vfb (· ++ [op.sub])
      lock := some (.assign op) } := by
  have hop : op ∈ s.pending := h.position _ hlock
  have hs : ∀ op', s.lock ≠ some (.assign op') := by simp [hlock]
  obtain ⟨e, he, hvfb⟩ := h.pending_entry hop
  have hsize := (h.framesAt_eq he hvfb hb).1
  have hok := h.pending op hop
  have hout : op.sub ∉ e.frames := hok.unregistered (hs op) e he
  apply h.relist he (· ++ [op.sub]) 0 hs
  · simp only [hsize, hvfb]
  · rfl
  · rfl
  · rfl
  · rfl
  · refine List.nodup_append.mpr ⟨(h.entries e he).nodup, List.nodup_singleton _, ?_⟩
    rintro q hq q' hq' rfl
    exact hout (List.mem_singleton.mp hq' ▸ hq)
  · simp [liveOn, hok.unreferenced]
  · intro q hq
    rcases List.mem_append.mp hq with hq | hq
    · exact Or.inl hq
    · exact Or.inr ⟨op, hop, List.mem_singleton.mp hq, hvfb, rfl⟩
  · exact fun q hq _ => List.mem_append_left _ hq
  · intro q
    have hnever : ¬(q ∈ e.frames ∧ q ∉ e.frames ++ [op.sub]) := fun hc =>
      hc.2 (List.mem_append_left _ hc.1)
    simp only [hnever, if_false]
  · exact fun w b hb => ⟨b, hb, rfl, rfl, by simp⟩
  · exact fun w b hb => ⟨b, hb⟩
  · simp
  · exact fun r hr =>
      ⟨h.reserved_modify hop hr b.dataSize (· ++ [op.sub]), (h.reserved r hr).buffer⟩
  · intro c hc
    obtain rfl := Option.some.inj hc
    refine ⟨hop, _, (mem_modify (f := (· ++ [op.sub]))).mpr ⟨e, he, rfl⟩, ?_⟩
    rw [if_pos ⟨hsize.symm, hvfb⟩]
    exact List.mem_append_right _ (List.mem_singleton_self _)

/-- The derived frame gets its first pointer, and the mutex is free. -/
theorem Consistent.finishDerivation
    (hlock : s.lock = some (.assign op)) : Consistent (s.finishDerivation op) := by
  obtain ⟨hop, e', he', hmem⟩ := h.position _ hlock
  have hok := h.pending op hop
  have hvfb : e'.vfb = op.vfb := by
    obtain ⟨x, hx, hvfb⟩ := hok.sub
    exact (h.frame_vfb he' hmem hx).symm.trans hvfb
  have hrefs : ∀ q, (s.finishDerivation op).references q =
      s.references q + if q = op.sub then 1 else 0 := by
    intro q
    have herase := Counting.count_map_erase (·.src) hop q
    simp only [references, FrameSystem.finishDerivation, List.count_cons, beq_iff_eq, herase,
      eq_comm (a := q)]
    omega
  have hframes := addFrameRef_frames s.toFrameStore op.sub 1
  refine ⟨h.keys, ?_, ?_, ?_, ?_, ?_, ?_, h.registered, h.releasing, h.memory, ?_⟩
  · intro e he
    refine (h.entries e he).recount 0 hframes (fun b hb => ⟨b, hb, rfl, by omega⟩) ?_
    have hlive := liveOn_raise (h.entries e he).nodup hrefs
    simp only [hok.unreferenced, and_true, h.mem_frames_iff he' hmem he, hvfb] at hlive
    have herase := Counting.count_map_erase (·.vfb) hop e.vfb
    simp only [eq_comm (a := op.vfb)] at herase
    have hreserved : (s.finishDerivation op).reserved = s.reserved := rfl
    have hpending : (s.finishDerivation op).pending = s.pending.erase op := rfl
    have hreleasing : (s.finishDerivation op).releasing = s.releasing := rfl
    simp only [claimsOn, hlive, reservedOn, herase, hreserved, hpending, hreleasing]
    omega
  · refine counts_addFrameRef 1 h.counts rfl fun q => ?_
    rw [hrefs q]
    split_ifs <;> simp
  · intro q hq
    rw [hrefs q] at hq
    by_cases hne : q = op.sub
    · exact ⟨e', he', hne ▸ hmem⟩
    · exact h.referenced q (by rwa [if_neg hne] at hq)
  · exact fun r hr => (h.reserved r hr).mono rfl rfl
  · intro op' hop'
    have hold := List.mem_of_mem_erase hop'
    have hne : op' ≠ op := by
      rintro rfl
      exact (List.Nodup.of_map _ h.subs).not_mem_erase hop'
    have hsub : op'.sub ≠ op.sub := fun heq => hne (List.inj_on_of_nodup_map h.subs hold hop heq)
    obtain ⟨⟨x, hx, hsrc⟩, ⟨y, hy, hsub'⟩, hzero, hout⟩ := h.pending op' hold
    obtain ⟨x', hx', hvfbx⟩ := hframes _ x hx
    obtain ⟨y', hy', hvfby⟩ := hframes _ y hy
    refine ⟨⟨x', hx', hvfbx.trans hsrc⟩, ⟨y', hy', hvfby.trans hsub'⟩, ?_, fun _ => hout ?_⟩
    · rw [hrefs, if_neg hsub, hzero]
    · rw [hlock]
      exact fun heq => hne (by cases heq; rfl)
  · exact h.subs.sublist (List.erase_sublist.map _)
  · intro c hc
    cases hc

end

end FrameSystem

end AviSynth
