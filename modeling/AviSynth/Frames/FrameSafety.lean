import AviSynth.Frames.FrameRecycling
import Mathlib.Data.Set.Card

/-!
# Every interleaving keeps the counts

Each step of each thread keeps the invariant, deletes no frame that is pointed
to, and hands out only frames that nothing else keeps in use.
-/

namespace AviSynth

open RegistryEntry Transition

namespace FrameSystem

variable {D : Type} [DecidableEq D] {s t : FrameSystem D}

/-- Frames that are pointed to stay, on the same buffer. -/
def KeepsReferenced (s t : FrameStore D) : Prop :=
  ∀ p x, s.frames p = some x → 0 < x.refcount → ∃ y, t.frames p = some y ∧ y.vfb = x.vfb

/-- The event hands out a frame that is reserved from now on and that nothing
pointed to before. -/
def HandsOutUnused (s : FrameSystem D) (next : FrameSystem D × FrameEvent D) : Prop :=
  ∀ request r, next.2 = .handedOut request r →
    r ∈ next.1.reserved ∧ ∀ x, s.frames r.frame = some x → x.refcount = 0

/-- What a step must establish. -/
structure Sound (s : FrameSystem D) (next : FrameSystem D × FrameEvent D) : Prop where
  consistent : Consistent next.1
  keeps : KeepsReferenced s.toFrameStore next.1.toFrameStore
  handsOut : HandsOutUnused s next

omit [DecidableEq D] in
/-- Deleting frames that nothing points to loses none that is. -/
theorem keepsReferenced_of_deleted {s t : FrameStore D}
    (h : ∀ p x, s.frames p = some x → x.refcount ≠ 0 → t.frames p = some x) :
    KeepsReferenced s t :=
  fun p x hx hpos => ⟨x, h p x hx (Int.ne_of_gt hpos), rfl⟩

/-- A step that hands nothing out and changes no frame. -/
theorem Sound.quiet (hconsistent : Consistent t) (hframes : t.frames = s.frames) :
    Sound s (t, .quiet) :=
  ⟨hconsistent, fun _ x hx _ => ⟨x, hframes ▸ hx, rfl⟩, fun _ _ heq => nomatch heq⟩

/-- A step that hands nothing out and keeps every frame on its buffer. -/
theorem Sound.kept (hconsistent : Consistent t)
    (hframes : ∀ p x, s.frames p = some x → ∃ y, t.frames p = some y ∧ y.vfb = x.vfb) :
    Sound s (t, .quiet) :=
  ⟨hconsistent, fun p x hx _ => hframes p x hx, fun _ _ heq => nomatch heq⟩

variable (limits : DeviceLimits D)

section

variable (h : Consistent s)
include h

/-- The thread inside the mutex goes on without a change. -/
theorem Sound.goto {c : Critical D} (hlock : ∀ op, s.lock ≠ some (.assign op))
    (hposition : PositionOk s c) :
    Sound s (s.goto c) :=
  .quiet (h.goto hlock hposition) rfl

variable {next : FrameSystem D × FrameEvent D} {request : FrameRequest D} {i : ℕ}
  {b : VideoFrameBuffer D} {e : RegistryEntry}

/-- A step of the search. -/
theorem sound_search {again : Bool} (hlock : s.lock = some (.search request again i))
    (hstep : s.search limits request again i = some next) : Sound s next := by
  have hs : ∀ op, s.lock ≠ some (.assign op) := by simp [hlock]
  simp only [search] at hstep
  split at hstep
  · rename_i e he
    obtain ⟨b, hb, rfl⟩ := Option.map_eq_some_iff.mp hstep
    apply Sound.goto h hs
    split_ifs with hsuits
    · exact ⟨⟨e, b, he, hb, hsuits.2.2.2⟩, fun e' he' => by
        rw [← Option.some.inj (he.symm.trans he')]
        exact hsuits.1⟩
    · trivial
  · obtain rfl := Option.some.inj hstep
    apply Sound.goto h hs
    split_ifs <;> trivial

/-- The first frame of an unused buffer is handed out. -/
theorem sound_occupy {again : Bool} (hlock : s.lock = some (.occupy request again i))
    (hget : s.frameRegistry[i]? = some e) {p : FramePtr} {store : FrameStore D}
    (hoccupy : s.toFrameStore.occupy e = some (p, store)) :
    Sound s (handOut { s with toFrameStore := store } request ⟨p, e.vfb⟩) := by
  have hconsistent := h.occupy hlock hget hoccupy
  obtain ⟨-, -, -, -, -, hcount⟩ := h.unusedAt (h.position _ hlock).1 hget
  cases hframes : e.frames with
  | nil => simp [FrameStore.occupy, hframes] at hoccupy
  | cons first others =>
    rw [hframes] at hcount
    simp only [FrameStore.occupy, hframes, Option.some.injEq, Prod.mk.injEq] at hoccupy
    obtain ⟨rfl, rfl⟩ := hoccupy
    refine ⟨hconsistent, keepsReferenced_of_deleted fun q x hx hne => ?_, ?_⟩
    · rw [FrameStore.deleteFrames_eq (s := s.modifyVfb e.vfb _) fun q hq =>
        hcount q (List.mem_cons_of_mem _ hq)]
      have hq : q ∉ others := fun hq => hne (hcount q (List.mem_cons_of_mem _ hq) x hx)
      exact (if_neg hq).trans hx
    · rintro request' r heq
      cases heq
      exact ⟨List.mem_cons_self, hcount first List.mem_cons_self⟩

/-- A call of `AllocateFrame`. -/
theorem sound_allocate {attempt : Attempt}
    (hlock : s.lock = some (.allocate request attempt)) {memory : Memory}
    (hstep : s.allocate request attempt memory = some next) : Sound s next := by
  have hs : ∀ op, s.lock ≠ some (.assign op) := by simp [hlock]
  have hthrow : Sound s ({ s with lock := none }, .outOfMemory request) :=
    ⟨h.unlock hs, fun p x hx _ => ⟨x, hx, rfl⟩, fun _ _ heq => nomatch heq⟩
  simp only [allocate] at hstep
  split_ifs at hstep with hsize
  · obtain rfl := Option.some.inj hstep
    exact hthrow
  · split at hstep
    · obtain rfl := Option.some.inj hstep
      cases attempt with
      | closing => exact hthrow
      | first => exact .goto h hs trivial
      | second => exact .goto h hs trivial
      | third => exact hthrow
    · rename_i v data p _
      split_ifs at hstep with hfresh
      obtain rfl := Option.some.inj hstep
      have hv := Option.isNone_iff_eq_none.mp hfresh.1
      have hp := Option.isNone_iff_eq_none.mp hfresh.2
      refine ⟨h.allocate hs request hv hp data, ?_, ?_⟩
      · intro q x hx _
        have hne : q ≠ p := by
          rintro rfl
          rw [hp] at hx
          cases hx
        exact ⟨x, (Function.update_of_ne hne _ _).trans hx, rfl⟩
      · rintro request' r heq
        cases heq
        refine ⟨List.mem_cons_self, fun x hx => ?_⟩
        rw [hp] at hx
        cases hx

/-- A test of a collecting loop. -/
theorem sound_inspect {pass : Pass} (hlock : s.lock = some (.inspect request pass i))
    (hstep : s.inspect limits request pass i = some next) : Sound s next := by
  have hs : ∀ op, s.lock ≠ some (.assign op) := by simp [hlock]
  simp only [inspect] at hstep
  split at hstep
  · rename_i e he
    obtain ⟨b, hb, rfl⟩ := Option.map_eq_some_iff.mp hstep
    by_cases hidle : Idle request pass e b
    · rw [if_pos hidle]
      cases pass with
      | reallocation => exact .goto h hs ⟨e, b, he, hb, hidle.2.2⟩
      | shrinkCache =>
        refine .quiet (h.countFree hs e.vfb ?_) rfl
        split_ifs
        · refine ⟨e, { b with freeCount := b.freeCount + 1 }, he, ?_, hidle.2.2⟩
          rw [FrameStore.modifyVfb_vfbs, hb, Option.map_some, if_pos rfl]
        · trivial
    · rw [if_neg hidle]
      exact .goto h hs trivial
  · obtain rfl := Option.some.inj hstep
    apply Sound.goto h hs
    cases pass <;> trivial

/-- A collecting loop deletes an unused buffer. -/
theorem sound_collect {pass : Pass} (hlock : s.lock = some (.collect request pass i))
    (hget : s.frameRegistry[i]? = some e) (hb : s.vfbs e.vfb = some b) {ps : List FramePtr}
    (hps : ∀ p, p ∈ ps ↔ p ∈ e.frames) :
    Sound s (goto { s with toFrameStore := s.toFrameStore.collect i e.vfb b ps }
      (.inspect request pass i)) := by
  have hconsistent := h.collect hlock hget hb hps
  obtain ⟨-, -, -, -, -, hzero⟩ := h.unusedAt (h.position _ hlock) hget
  have hcount : ∀ q ∈ ps, ∀ x, s.frames q = some x → x.refcount = 0 := fun q hq =>
    hzero q ((hps q).mp hq)
  refine ⟨hconsistent, keepsReferenced_of_deleted fun q x hx hne => ?_, fun _ _ heq => nomatch heq⟩
  simp only [goto, FrameStore.collect_eq i e.vfb b hcount]
  rw [if_neg fun hq => hne (hcount q hq x hx), hx]

/-- A frame that `RegisterSubFrameInRegistry` deletes has no pointer. -/
theorem sound_erase {op : Derivation} (hlock : s.lock = some (.erase op i))
    (hb : s.vfbs op.vfb = some b) {p : FramePtr}
    (hp : (framesAt s.frameRegistry b.dataSize op.vfb)[i]? = some p) :
    Sound s (FrameSystem.goto { s with toFrameStore := { s.deleteFrame p with
      frameRegistry := modify (s.deleteFrame p).frameRegistry b.dataSize op.vfb (·.eraseIdx i) } }
      (.purge op i)) := by
  have hconsistent := h.erase hlock hb hp
  obtain ⟨-, -, -, -, -, -, hcount⟩ := h.erase_position hlock hb hp
  refine ⟨hconsistent, keepsReferenced_of_deleted fun q x hx hne => ?_, fun _ _ heq => nomatch heq⟩
  simp only [FrameSystem.goto, FrameStore.deleteFrame_eq hcount]
  have hq : q ≠ p := by
    rintro rfl
    exact hne (hcount x hx)
  rw [if_neg hq, hx]

/-- A test of `RegisterSubFrameInRegistry`. -/
theorem sound_purge {op : Derivation} (hlock : s.lock = some (.purge op i))
    (hb : s.vfbs op.vfb = some b) :
    Sound s (match (framesAt s.frameRegistry b.dataSize op.vfb)[i]? with
      | none => s.goto (.append op)
      | some p => s.goto (if s.Unreferenced p then .erase op i else .purge op (i + 1))) := by
  have hs : ∀ op', s.lock ≠ some (.assign op') := by simp [hlock]
  have hop : op ∈ s.pending := h.position _ hlock
  split
  · exact .goto h hs hop
  · rename_i p hp
    apply Sound.goto h hs
    split_ifs with hzero
    · obtain ⟨e, he, hvfb⟩ := h.pending_entry hop
      rw [(h.framesAt_eq he hvfb hb).2] at hp
      obtain ⟨x, hx, -⟩ := (h.entries e he).frames p (List.mem_of_getElem? hp)
      refine ⟨hop, e, he, hvfb, p, hp, ?_⟩
      have hcount := h.counts p x hx
      simp only [FrameStore.Unreferenced, hx, Option.any_some, decide_eq_true_eq] at hzero
      omega
    · exact hop

/-- The frames that `ShrinkCache` deletes with an unused buffer are all of them. -/
theorem mem_filter_unreferenced (hunused : s.UnusedAt i) (hget : s.frameRegistry[i]? = some e)
    (p : FramePtr) :
    p ∈ e.frames.filter s.Unreferenced ↔ p ∈ e.frames := by
  obtain ⟨-, -, -, -, -, hcount⟩ := h.unusedAt hunused hget
  rw [List.mem_filter]
  refine and_iff_left_of_imp fun hp => ?_
  obtain ⟨x, hx, -⟩ := (h.entries e (List.mem_of_getElem? hget)).frames p hp
  simp only [FrameStore.Unreferenced, hx, Option.any_some, decide_eq_true_eq]
  exact hcount p hp x hx

/-- Whatever the thread inside the mutex does next. -/
theorem sound_advance {c : Critical D} (hlock : s.lock = some c)
    {memory : Memory} (hstep : s.advance limits memory c = some next) : Sound s next := by
  cases c with
  | search request again i => exact sound_search limits h hlock hstep
  | occupy request again i =>
    obtain ⟨e, hget, rfl⟩ := Option.map_eq_some_iff.mp hstep
    split
    · exact .goto h (by simp [hlock]) trivial
    · rename_i p store hoccupy
      exact sound_occupy h hlock hget hoccupy
  | allocate request attempt => exact sound_allocate h hlock hstep
  | shrink request =>
    obtain rfl := Option.some.inj hstep
    apply Sound.goto h (by simp [hlock])
    split_ifs <;> trivial
  | inspect request pass i => exact sound_inspect limits h hlock hstep
  | collect request pass i =>
    obtain ⟨e, hget, hstep⟩ := Option.bind_eq_some_iff.mp hstep
    obtain ⟨b, hb, rfl⟩ := Option.map_eq_some_iff.mp hstep
    apply sound_collect h hlock hget hb
    intro p
    cases pass with
    | reallocation => exact Iff.rfl
    | shrinkCache =>
      exact mem_filter_unreferenced h (h.position _ hlock) hget p
  | purge op i =>
    obtain ⟨b, hb, rfl⟩ := Option.map_eq_some_iff.mp hstep
    exact sound_purge h hlock hb
  | erase op i =>
    obtain ⟨b, hb, hstep⟩ := Option.bind_eq_some_iff.mp hstep
    obtain ⟨p, hp, rfl⟩ := Option.map_eq_some_iff.mp hstep
    exact sound_erase h hlock hb hp
  | append op =>
    obtain ⟨b, hb, rfl⟩ := Option.map_eq_some_iff.mp hstep
    exact .quiet (h.append hlock hb) rfl
  | assign op =>
    obtain rfl := Option.some.inj hstep
    exact .kept (h.finishDerivation hlock) (addFrameRef_frames s.toFrameStore op.sub 1)

/-- The construction of a derived frame. -/
theorem sound_derive {src sub : FramePtr}
    (hstep : s.derive src sub = some next) : Sound s next := by
  simp only [derive, Option.ite_none_right_eq_some, Option.map_eq_some_iff] at hstep
  obtain ⟨⟨hsrc, hsub⟩, x, hx, rfl⟩ := hstep
  have hnone := Option.isNone_iff_eq_none.mp hsub
  exact .kept (h.beginDerivation hsrc hnone hx) (newFrame_frames hnone x.vfb)

/-- The step lemma. -/
theorem sound_step {a : FrameAction D} (hstep : s.step limits a = some next) : Sound s next := by
  have hfree : s.lock.isNone = true → ∀ op, s.lock ≠ some (.assign op) := by
    intro hlock op
    rw [Option.isNone_iff_eq_none.mp hlock]
    nofun
  cases a with
  | addRef p =>
    obtain ⟨hp, ⟨⟩⟩ := Option.ite_none_right_eq_some.mp hstep
    exact .kept (h.copyHandle hp) (addFrameRef_frames s.toFrameStore p 1)
  | release p =>
    simp only [step, Option.ite_none_right_eq_some, Option.map_eq_some_iff] at hstep
    obtain ⟨hp, x, hx, rfl⟩ := hstep
    exact .kept (h.dropHandle hp hx) (addFrameRef_frames s.toFrameStore p (-1))
  | releaseVfb v =>
    obtain ⟨hv, ⟨⟩⟩ := Option.ite_none_right_eq_some.mp hstep
    exact .quiet (h.dropVfb hv) rfl
  | assignNew r =>
    obtain ⟨hr, ⟨⟩⟩ := Option.ite_none_right_eq_some.mp hstep
    exact .kept (h.assignReserved hr) (addFrameRef_frames s.toFrameStore r.frame 1)
  | subframe src sub => exact sound_derive h hstep
  | makePropertyWritable src sub =>
    simp only [step] at hstep
    split_ifs at hstep
    · obtain rfl := Option.some.inj hstep
      exact .quiet h rfl
    · exact sound_derive h hstep
  | getNewFrame request =>
    obtain ⟨hlock, ⟨⟩⟩ := Option.ite_none_right_eq_some.mp hstep
    apply Sound.goto h (hfree hlock)
    split_ifs <;> trivial
  | registerSubFrame op =>
    simp only [step, Option.ite_none_right_eq_some, Option.map_eq_some_iff] at hstep
    obtain ⟨⟨hlock, hop⟩, b, hb, rfl⟩ := hstep
    obtain ⟨e, he, hvfb⟩ := h.pending_entry hop
    rw [(h.framesAt_eq he hvfb hb).1, ← hvfb, touch_eq he]
    apply Sound.goto h (hfree hlock)
    split_ifs <;> exact hop
  | close =>
    obtain ⟨hlock, ⟨⟩⟩ := Option.ite_none_right_eq_some.mp hstep
    refine .quiet ⟨h.keys, ?_, h.counts, h.referenced, ?_, ?_, h.subs, h.registered,
      h.releasing, h.memory, ?_⟩ rfl
    · exact fun e he => ⟨(h.entries e he).nodup, (h.entries e he).frames, (h.entries e he).buffer⟩
    · exact fun r hr => ⟨(h.reserved r hr).registered, (h.reserved r hr).buffer⟩
    · intro op hop
      have hok := h.pending op hop
      exact ⟨hok.src, hok.sub, hok.unreferenced, hok.unregistered⟩
    · intro c hc
      rw [Option.isNone_iff_eq_none.mp hlock] at hc
      cases hc
  | advance memory =>
    obtain ⟨c, hlock, hstep⟩ := Option.bind_eq_some_iff.mp hstep
    exact sound_advance limits h hlock hstep

end

omit [DecidableEq D] in
/-- The number of frames on a buffer that are pointed to. -/
noncomputable def liveFrames (s : FrameStore D) (v : VfbPtr) : ℕ :=
  {p | ∃ x, s.frames p = some x ∧ x.vfb = v ∧ 0 < x.refcount}.ncard

/-- They are those that the entry of the buffer lists. -/
theorem Consistent.liveFrames_eq (h : Consistent s) {e : RegistryEntry}
    (he : e ∈ s.frameRegistry) : liveFrames s.toFrameStore e.vfb = s.liveOn e := by
  have hset : {p | ∃ x, s.frames p = some x ∧ x.vfb = e.vfb ∧ 0 < x.refcount} =
      ((e.frames.filter fun p => 0 < s.references p).toFinset : Set FramePtr) := by
    ext p
    simp only [Set.mem_ofPred_eq, List.coe_toFinset, List.mem_filter, decide_eq_true_eq]
    constructor
    · rintro ⟨x, hx, hvfb, hpos⟩
      have hrefs : 0 < s.references p := by
        have := h.counts p x hx
        omega
      obtain ⟨e', he', hmem⟩ := h.referenced p hrefs
      have hvfb' := h.frame_vfb he' hmem hx
      exact ⟨(h.mem_frames_iff he' hmem he).mpr (hvfb.symm.trans hvfb'), hrefs⟩
    · rintro ⟨hmem, hrefs⟩
      obtain ⟨x, hx, hvfb⟩ := (h.entries e he).frames p hmem
      refine ⟨x, hx, hvfb, ?_⟩
      have := h.counts p x hx
      omega
  rw [liveFrames, hset, Set.ncard_coe_finset,
    List.toFinset_card_of_nodup ((h.entries e he).nodup.filter _), liveOn,
    List.countP_eq_length_filter]

/-- The count of every buffer is the number of its frames that are pointed to,
together with the frames constructed on it that are still to be assigned and the
releases that have decremented the frame's count and not yet the buffer's. -/
def BufferCounts (s : FrameSystem D) : Prop :=
  ∀ v b, s.vfbs v = some b →
    b.refcount = liveFrames s.toFrameStore v + s.reservedOn v + s.releasing.count v

/-- Every pointer is to a frame that exists, on a buffer that exists. -/
def NoDangling (s : FrameSystem D) : Prop :=
  ∀ p ∈ s.handles, ∃ x, s.frames p = some x ∧ 0 < x.refcount ∧ ∃ b, s.vfbs x.vfb = some b

/-- A reserved frame is alone on its buffer: nothing points to any frame there,
and no other frame there is about to be assigned. -/
def Exclusive (s : FrameSystem D) (r : Reservation) : Prop :=
  (∃ x, s.frames r.frame = some x ∧ x.vfb = r.vfb) ∧
    (∀ p x, s.frames p = some x → x.vfb = r.vfb → x.refcount = 0) ∧ s.reservedOn r.vfb = 1

/-- What the invariant says of the counts. -/
theorem Consistent.bufferCounts (h : Consistent s) : BufferCounts s := by
  intro v b hb
  obtain ⟨e, he, rfl⟩ := h.registered v b hb
  rw [(h.buffer_eq he hb).2, h.liveFrames_eq he, claimsOn, Nat.cast_add, Nat.cast_add]

/-- What it says of the pointers. -/
theorem Consistent.noDangling (h : Consistent s) : NoDangling s := by
  intro p hp
  have hrefs := references_pos hp
  obtain ⟨e, he, hmem⟩ := h.referenced p hrefs
  obtain ⟨x, hx, hvfb⟩ := (h.entries e he).frames p hmem
  obtain ⟨b, hb, -⟩ := (h.entries e he).buffer
  refine ⟨x, hx, ?_, b, hvfb ▸ hb⟩
  have := h.counts p x hx
  omega

/-- What it says of a reserved frame. -/
theorem Consistent.exclusive (h : Consistent s) {r : Reservation} (hr : r ∈ s.reserved) :
    Exclusive s r := by
  obtain ⟨e, he, hvfb, hmem, hlive, hone, hnone, -⟩ := h.reserved_alone hr
  obtain ⟨x, hx, hvfb'⟩ := (h.entries e he).frames _ hmem
  refine ⟨⟨x, hx, hvfb'.trans hvfb⟩, ?_, by rw [reservedOn, hone, hnone]⟩
  intro p y hy hy'
  rw [h.counts p y hy]
  by_contra hrefs
  have hpos : 0 < s.references p := by omega
  obtain ⟨e', he', hmem'⟩ := h.referenced p hpos
  have hvfb'' := h.frame_vfb he' hmem' hy
  obtain rfl := h.entry_unique he' he (hvfb''.symm.trans (hy'.trans hvfb.symm))
  have := liveOn_pos hmem' hpos
  omega

/-- A device with room for a few small buffers. -/
def smallDevice : DeviceLimits Unit where
  memoryMax _ := 1000
  freeThresh _ := 0
  belowReserve used max := decide (100 * used < 85 * max)

end FrameSystem

end AviSynth
