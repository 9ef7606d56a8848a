import AviSynth.Cache.LruPool

/-!
# Reserved keys

A handle that is out reserves its key: the entry behind it stays in the main cache until
the handle is finished, whatever other threads do, and no lookup hands out a second handle
for the key.
-/

namespace AviSynth

open LruSystem

variable {T K V : Type} [DecidableEq T] [DecidableEq K] [Zero K] {s t : LruSystem T K V}
  {a : LruAction T K V} {e : LruEvent T K V} {key : K} {p q : EntryPtr}

namespace LruSystem

omit [DecidableEq T] [DecidableEq K] [Zero K] in
/-- The handle is out for the key. -/
def Reserved (s : LruSystem T K V) (key : K) (p : EntryPtr) : Prop :=
  p ∈ s.handles ∧ ⟨key, p⟩ ∈ s.cache.mainCache.cache

/-- The state keeps the invariants of the cache, for some history and some leaks. -/
def Steady (s : LruSystem T K V) : Prop :=
  ∃ history n, Consistent history s ∧ s.cache.Leaks n

/-- The action finishes the handle. -/
def Finishes (p : EntryPtr) : LruAction T K V → Prop
  | .commit q _ | .rollback q => q = p
  | .lookup _ _ _ _ | .wake _ | .write _ _ | .setLimits _ _ => False

omit [DecidableEq T] in
theorem steady_initial (capacity : ℕ) (mode : CacheMode) :
    (initial capacity mode : LruSystem T K V).Steady :=
  ⟨[], 0, Consistent.initial capacity mode, rfl⟩

theorem Steady.step (h : s.Steady) (hstep : LruSystem.step s a = some (t, e)) : t.Steady := by
  obtain ⟨history, n, hcons, hleaks⟩ := h
  exact ⟨e :: history, _, hcons.step_always hstep, (hcons.step_leaks hleaks hstep).1⟩

omit [DecidableEq T] [Zero K] in
/-- One handle reserves one key, and one key is reserved by one handle. -/
theorem Steady.reserved_unique {key' : K} (h : s.Steady) (hp : s.Reserved key p)
    (hq : s.Reserved key' q) : p = q ↔ key = key' := by
  obtain ⟨history, n, hcons, -⟩ := h
  constructor
  · intro hpq
    exact congrArg Entry.key (hcons.slots.eq_of_value hp.2 hq.2 hpq)
  · intro hkey
    exact congrArg Entry.value (hcons.slots.eq_of_key hp.2 hq.2 hkey)

omit [DecidableEq T] [Zero K] in
/-- The entry of a reserved key is locked. -/
theorem Reserved.locks_pos {history : List (LruEvent T K V)} (hcons : Consistent history s)
    (hp : s.Reserved key p) : 0 < (s.cache.entries p).locks := by
  have hlocks := hcons.held.locks _ hp.2
  have hcount := List.count_pos_iff.mpr hp.1
  simp only at hlocks
  omega

omit [DecidableEq T] [DecidableEq K] [Zero K] in
/-- No outcome of a lookup takes a handle back. -/
theorem mem_handles_settle (thread : T) (key : K) (outcome : LruLookup V) (hp : p ∈ s.handles) :
    p ∈ (settle s thread key outcome).1.handles := by
  cases outcome with
  | notFound q => exact List.mem_cons_of_mem _ hp
  | foundAndReady found => exact hp
  | foundButNotAvail => exact hp
  | noCache => exact hp
  | waiting q => exact hp

/-- A handle that the step does not finish is still out. -/
theorem mem_handles_step (hstep : LruSystem.step s a = some (t, e)) (hp : p ∈ s.handles)
    (hfinish : ¬Finishes p a) : p ∈ t.handles := by
  cases a with
  | lookup thread key block suppress =>
    simp only [LruSystem.step, Option.ite_none_left_eq_some, Option.some.injEq] at hstep
    have ht := congrArg (fun r => r.1.handles) hstep.2
    exact ht ▸ mem_handles_settle thread key _ hp
  | wake thread =>
    obtain ⟨w, -, -, hnext⟩ := LruSystem.step_wake hstep
    exact congrArg (fun r => r.1.handles) hnext ▸ mem_handles_settle thread w.key _ hp
  | write q value =>
    simp only [LruSystem.step, Option.ite_none_right_eq_some, Option.some.injEq] at hstep
    exact congrArg (fun r => r.1.handles) hstep.2 ▸ hp
  | commit q value | rollback q =>
    simp only [LruSystem.step, Option.ite_none_right_eq_some, Option.some.injEq] at hstep
    exact congrArg (fun r => r.1.handles) hstep.2 ▸
      (List.mem_erase_of_ne (Ne.symm hfinish)).mpr hp
  | setLimits min max =>
    simp only [LruSystem.step, Option.some.injEq] at hstep
    exact congrArg (fun r => r.1.handles) hstep ▸ hp

omit [DecidableEq T] [Zero K] in
/-- A rollback removes no other reserved entry. -/
theorem Steady.mem_rollback (h : s.Steady) (hq : q ∈ s.handles) (hp : s.Reserved key p)
    (hne : q ≠ p) : ⟨key, p⟩ ∈ (s.cache.rollback q).mainCache.cache := by
  obtain ⟨history, n, hcons, -⟩ := h
  obtain ⟨d, hd, rfl⟩ := hcons.held.handleSlot q hq
  unfold LruCache.rollback
  split
  · have hfind := hcons.slots.find? hd
    have hkey : d.key ≠ key := fun hkey => hne (by rw [hcons.slots.eq_of_key hd hp.2 hkey])
    have hmem := (perm_of_find? hfind).mem_iff.mp hp.2
    obtain heq | hmem := List.mem_cons.mp hmem
    · exact absurd (congrArg Entry.key heq).symm hkey
    · simpa only [SimpleLruCache.remove, hcons.slots.entryKey d hd, hfind] using hmem
  · exact hp.2

/-- A reserved key stays reserved until its handle is finished. -/
theorem Steady.reserved_step (h : s.Steady) (hstep : LruSystem.step s a = some (t, e))
    (hp : s.Reserved key p) (hfinish : ¬Finishes p a) : t.Reserved key p := by
  refine ⟨mem_handles_step hstep hp.1 hfinish, ?_⟩
  obtain ⟨history, n, hcons, hleaks⟩ := h
  by_cases hunwaited : RollsBackUnwaited s a
  · match a, hunwaited with
    | .rollback q, _ =>
      simp only [LruSystem.step, Option.ite_none_right_eq_some, Option.some.injEq,
        Prod.mk.injEq] at hstep
      obtain ⟨hq, rfl, -⟩ := hstep
      exact Steady.mem_rollback ⟨history, n, hcons, hleaks⟩ hq hp hfinish
  · exact (hcons.step_leaks hleaks hstep).2 hunwaited _ hp.2 (Reserved.locks_pos hcons hp)

omit [DecidableEq T] in
/-- A lookup that misses finds its key not reserved, and puts the new entry into the main
cache. -/
theorem Steady.lookup_notFound (h : s.Steady) {block : Bool} {suppress : Option Bool}
    (hmiss : (s.cache.lookup key block suppress).1 = .notFound p) :
    (∀ q, ¬s.Reserved key q) ∧
      ⟨key, p⟩ ∈ (s.cache.lookup key block suppress).2.2.mainCache.cache := by
  obtain ⟨history, n, hcons, hleaks⟩ := h
  cases hfind : s.cache.mainCache.cache.find? (fun e => e.key = key) with
  | some d =>
    simp only [LruCache.lookup, SimpleLruCache.lookup_found _ _ _ hfind, LruCache.takeOrWait]
      at hmiss
    split at hmiss
    · cases hmiss
    · split at hmiss <;> cases hmiss
  | none =>
    refine ⟨fun q hq => ?_, ?_⟩
    · have hnone := List.find?_eq_none.mp hfind _ hq.2
      simp at hnone
    · by_cases hnone : suppress.getD false = true ∨ s.cache.mainCache.realCapacity = 0
      · obtain ⟨flag, d, hlookup, -⟩ := LruCache.lookup_null (Owned.survives n _) hcons.canGrow
          (hleaks.owned hcons.slots) hfind block hnone
        rw [hlookup] at hmiss
        cases hmiss
      · rw [not_or, Bool.not_eq_true] at hnone
        obtain ⟨flag, d, stale, rest, ghosted, hlookup, hcache, -, -⟩ :=
          LruCache.lookup_fresh (Owned.survives n _) hcons.canGrow (hleaks.owned hcons.slots) hfind
            hnone.2 block hnone.1
        rw [hlookup] at hmiss ⊢
        obtain rfl := LruLookup.notFound.inj hmiss
        rw [(LruCache.reserve_cache hcache key ghosted).1]
        exact List.mem_cons_self

omit [DecidableEq T] [DecidableEq K] [Zero K] in
/-- The sleeping calls after a lookup with some outcome. -/
def waitersAfter (thread : T) (key : K) (waiters : List (Waiter T K)) :
    LruLookup V → List (Waiter T K)
  | .waiting p => ⟨thread, key, p⟩ :: waiters
  | .notFound _ | .foundAndReady _ | .foundButNotAvail | .noCache => waiters

/-- What a lookup for a key, or its awakening, does: reservations stay, and a new one is for a
key that had none. -/
structure LookedUp (s t : LruSystem T K V) (thread : T) (key : K) (waiters : List (Waiter T K))
    (outcome : LruLookup V) : Prop where
  steady : t.Steady
  kept : ∀ key' q, s.Reserved key' q → t.Reserved key' q
  fresh : ∀ p, outcome = .notFound p → (∀ q, ¬s.Reserved key q) ∧ t.Reserved key p
  waiters : t.waiters = waitersAfter thread key waiters outcome

omit [DecidableEq T] [DecidableEq K] [Zero K] in
theorem settle_waiters (thread : T) (key : K) (outcome : LruLookup V) :
    (settle s thread key outcome).1.waiters = waitersAfter thread key s.waiters outcome := by
  cases outcome <;> rfl

theorem Steady.lookedUp (h : s.Steady) {thread : T} {block : Bool} {suppress : Option Bool}
    (hstep : LruSystem.step s (.lookup thread key block suppress) = some (t, e)) :
    LookedUp s t thread key s.waiters (s.cache.lookup key block suppress).1 := by
  have hsteady := h.step hstep
  have hkept : ∀ key' q, s.Reserved key' q → t.Reserved key' q := fun key' q hq =>
    h.reserved_step hstep hq id
  simp only [LruSystem.step, Option.ite_none_left_eq_some, Option.some.injEq] at hstep
  obtain rfl : _ = t := congrArg Prod.fst hstep.2
  refine ⟨hsteady, hkept, fun p hmiss => ?_, settle_waiters thread key _⟩
  obtain ⟨hnone, hmem⟩ := h.lookup_notFound hmiss
  refine ⟨hnone, ?_⟩
  rw [hmiss]
  exact ⟨List.mem_cons_self, hmem⟩

theorem Steady.woken (h : s.Steady) {thread : T} {w : Waiter T K}
    (hfind : s.waiters.find? (fun w => w.thread = thread) = some w)
    (hstep : LruSystem.step s (.wake thread) = some (t, e)) :
    LookedUp s t thread w.key (s.waiters.erase w) (s.cache.wakeUp w.entry).1 := by
  have hsteady := h.step hstep
  have hkept : ∀ key' q, s.Reserved key' q → t.Reserved key' q := fun key' q hq =>
    h.reserved_step hstep hq id
  obtain rfl : w.thread = thread := by simpa using List.find?_some hfind
  simp only [LruSystem.step, hfind, Option.some.injEq] at hstep
  obtain rfl : _ = t := congrArg Prod.fst hstep
  refine ⟨hsteady, hkept, fun p hmiss => ?_, settle_waiters w.thread w.key _⟩
  obtain ⟨history, n, hcons, -⟩ := h
  have hslot := hcons.held.waiterSlot w (List.mem_of_find?_eq_some hfind)
  have hcontent := hcons.held.content _ hslot
  have hrolled : (s.cache.entries w.entry).state = .rolledBack ∧ w.entry = p := by
    simp only [LruCache.wakeUp, LruCache.takeOrWait] at hmiss
    split at hmiss
    · exact ⟨‹_›, LruLookup.notFound.inj hmiss⟩
    · split at hmiss <;> cases hmiss
  obtain ⟨hstate, rfl⟩ := hrolled
  simp only [EntryHeld, hstate] at hcontent
  refine ⟨fun q hq => ?_, ?_⟩
  · have hsame : q = w.entry := congrArg Entry.value (hcons.slots.eq_of_key hq.2 hslot rfl)
    exact hcontent (hsame ▸ hq.1)
  · rw [hmiss]
    refine ⟨List.mem_cons_self, ?_⟩
    simpa only [settle_cache, LruCache.wakeUp_mainCache] using hslot

end LruSystem

end AviSynth
