import AviSynth.Cache.LruLimits
import AviSynth.Cache.LruSafety

/-!
# The blocks of the entry pool

Entries live in blocks of the entry pool. The evict event gives the block of an
entry back; `rollback` takes an entry on which nobody waits out of the main cache
and does not. This file counts the blocks in use that no entry of the main cache
owns, through every operation: only such a rollback adds one, and no operation
takes one away.
-/

namespace AviSynth

open Transition LruSystem LruSystem LruCache

variable {T K V : Type}

/-- The listed entries own all blocks in use but `leaked` of them, and the entries
`held` are listed and locked. -/
structure Owned (leaked : ℕ) (held es : List (Entry K EntryPtr)) (s : LruStore K V) : Prop where
  slots : Slots es s
  count : s.entryPool.useList.length = es.length + leaked
  locked : ∀ e ∈ held, e ∈ es ∧ 0 < (s.entries e.value).locks

/-- With no block leaked the blocks in use are those of the entries. -/
theorem Slots.used_iff {es : List (Entry K EntryPtr)} {s : LruStore K V} (h : Slots es s)
    (hcount : s.entryPool.useList.length = es.length) (p : EntryPtr) :
    p ∈ s.entryPool.useList ↔ ∃ e ∈ es, e.value = p := by
  have hsub : es.map Entry.value ⊆ s.entryPool.useList := by
    intro q hq
    obtain ⟨e, he, rfl⟩ := List.mem_map.mp hq
    exact h.used e he
  have hlength : s.entryPool.useList.length ≤ (es.map Entry.value).length := by
    rw [List.length_map, hcount]
  have hperm := (List.subperm_of_subset h.values hsub).perm_of_length_le hlength
  rw [← hperm.mem_iff, List.mem_map]

variable [DecidableEq K] [Zero K]

/-- The evict event gives the block of an entry back together with the entry. -/
theorem Owned.survives (leaked : ℕ) (held : List (Entry K EntryPtr)) :
    SurvivesEviction (Owned leaked held : List (Entry K EntryPtr) → LruStore K V → Prop) where
  one {front rest e s} h hunlocked := by
    have hevicts := Evicts.one h.slots hunlocked
    have hused := h.slots.used e (by simp)
    refine ⟨hevicts.slots, ?_, fun f hf => ?_⟩
    · have hpos := List.length_pos_of_mem hused
      have hcount := h.count
      rw [(LruStore.mainEvictEvent_unlocked hunlocked).2.2]
      simp only [ObjectPool.free, List.length_erase_of_mem hused, List.length_append,
        List.length_cons] at hcount ⊢
      omega
    · obtain ⟨hmem, hlocked⟩ := h.locked f hf
      have hstays := hevicts.locked f hmem hlocked
      exact ⟨hstays, by rwa [hevicts.same f hstays]⟩
  ghosts {es s t} h hentries hpool := {
    slots := h.slots.congr (fun _ _ => by rw [hentries]) hpool
    count := by rw [hpool, h.count]
    locked := fun e he => by rw [hentries]; exact h.locked e he }

/-- The invariant also holds after a blocking lookup that finds its entry rolled
back: such a lookup leaves the entry as it is. -/
theorem Consistent.step_always [DecidableEq T] {history : List (LruEvent T K V)}
    {s t : LruSystem T K V} (h : Consistent history s) {a : LruAction T K V} {e : LruEvent T K V}
    (hstep : LruSystem.step s a = some (t, e)) : Consistent (e :: history) t := by
  by_cases hok : FindsRolledBack s a
  · match a, hok with
    | .lookup thread key true suppress, ⟨d, hd, hkey, hrolled⟩ =>
      subst hkey
      have hfind := h.slots.find? hd
      have hfront := h.moveToFront hfind
      simp only [LruSystem.step, Option.ite_none_left_eq_some, Option.some.injEq] at hstep
      obtain ⟨_, hstep⟩ := hstep
      simp only [LruCache.lookup, SimpleLruCache.lookup_found _ _ _ hfind, Bool.not_true,
        Bool.false_and, Bool.false_eq_true, if_false] at hstep
      rw [takeOrWait_filled (by simp [modifyEntry, hrolled]),
        unlock_lock] at hstep
      obtain ⟨rfl, rfl⟩ := Prod.mk.inj hstep
      exact hfront.record fun _ => rfl
  · exact (h.step hok hstep).1

namespace LruCache

omit [DecidableEq K] [Zero K]

/-- `n` of the blocks in use belong to no entry of the main cache. -/
def Leaks (n : ℕ) (c : LruCache K V) : Prop :=
  c.entryPool.useList.length = c.mainCache.size + n

/-- Every entry that is locked in `c` is still in the main cache of `d`, with its block. -/
def KeepsLocked (c d : LruCache K V) : Prop :=
  ∀ e ∈ c.mainCache.cache, 0 < (c.entries e.value).locks → e ∈ d.mainCache.cache

/-- The locked entries of a cache. -/
def lockedEntries (c : LruCache K V) : List (Entry K EntryPtr) :=
  c.mainCache.cache.filter fun e => 0 < (c.entries e.value).locks

/-- An entry is kept if the list of the locked entries says so. -/
theorem keepsLocked_of_subset {c d : LruCache K V}
    (h : ∀ e ∈ c.lockedEntries, e ∈ d.mainCache.cache) : c.KeepsLocked d := fun e he hlocked =>
  h e (List.mem_filter.mpr ⟨he, decide_eq_true hlocked⟩)

/-- A cache owns its blocks as far as it leaks none. -/
theorem Leaks.owned {n : ℕ} {c : LruCache K V} (h : c.Leaks n)
    (hslots : Slots c.mainCache.cache c.toLruStore) :
    Owned n c.lockedEntries c.mainCache.cache c.toLruStore where
  slots := hslots
  count := h
  locked e he := by
    obtain ⟨hmem, hlocked⟩ := List.mem_filter.mp he
    exact ⟨hmem, of_decide_eq_true hlocked⟩

@[simp] theorem takeOrWait_entryPool (c : LruCache K V) (p : EntryPtr) :
    (c.takeOrWait p).2.entryPool = c.entryPool := by
  unfold takeOrWait
  split <;> rfl

@[simp] theorem wakeUp_entryPool (c : LruCache K V) (p : EntryPtr) :
    (c.wakeUp p).2.entryPool = c.entryPool := by
  unfold wakeUp
  split
  · rfl
  · exact takeOrWait_entryPool c p

/-- A change of one entry leaks nothing and keeps every entry. -/
theorem Leaks.of_eq {n : ℕ} {c d : LruCache K V} (h : c.Leaks n)
    (hmain : d.mainCache = c.mainCache) (hpool : d.entryPool = c.entryPool) :
    d.Leaks n ∧ c.KeepsLocked d :=
  ⟨by rw [Leaks, hmain, hpool]; exact h, fun e he _ => by rw [hmain]; exact he⟩

end LruCache

variable {n : ℕ} {history : List (LruEvent T K V)} {s t : LruSystem T K V}

/-- A lookup leaks nothing and keeps every locked entry. -/
theorem Consistent.lookup_leaks (h : Consistent history s) (hleaks : s.cache.Leaks n) (key : K)
    (block : Bool) (suppress : Option Bool) :
    (s.cache.lookup key block suppress).2.2.Leaks n ∧
      s.cache.KeepsLocked (s.cache.lookup key block suppress).2.2 := by
  have howned := hleaks.owned h.slots
  cases hfind : s.cache.mainCache.cache.find? (fun e => e.key = key) with
  | some e =>
    -- the entry only moves to the front
    have hperm := perm_of_find? hfind
    have hfront : ∀ d : LruCache K V, d.mainCache.cache =
        e :: s.cache.mainCache.cache.eraseP (fun e => e.key = key) →
          d.entryPool = s.cache.entryPool → d.Leaks n ∧ s.cache.KeepsLocked d := by
      intro d hcache hpool
      refine ⟨?_, fun f hf _ => ?_⟩
      · rw [LruCache.Leaks, hpool, SimpleLruCache.size, hcache, ← hperm.length_eq]
        exact hleaks
      · rw [hcache]
        exact hperm.mem_iff.mp hf
    simp only [LruCache.lookup, SimpleLruCache.lookup_found _ _ _ hfind]
    split
    · exact hfront _ rfl rfl
    · refine hfront _ ?_ ?_
      · simp [modifyEntry]
      · simp [modifyEntry]
  | none =>
    by_cases hnone : suppress.getD false = true ∨ s.cache.mainCache.realCapacity = 0
    · obtain ⟨flag, d, hlookup, hnext, -⟩ := LruCache.lookup_null (Owned.survives n _) h.canGrow
        howned hfind block hnone
      rw [hlookup]
      exact ⟨hnext.count, keepsLocked_of_subset fun e he => (hnext.locked e he).1⟩
    · rw [not_or, Bool.not_eq_true] at hnone
      obtain ⟨flag, d, stale, rest, ghosted, hlookup, hcache, hnext, -⟩ :=
        LruCache.lookup_fresh (Owned.survives n _) h.canGrow howned hfind hnone.2 block hnone.1
      have hfront := (reserve_cache hcache key ghosted).1
      have hused : (d.reserve key ghosted).2.entryPool.useList =
          d.entryPool.alloc.1 :: d.entryPool.useList := hnext.slots.pool.alloc.2.1
      rw [hlookup]
      refine ⟨?_, keepsLocked_of_subset fun e he => ?_⟩
      · have hcount := hnext.count
        simp only [LruCache.Leaks, SimpleLruCache.size, hused, hfront, List.length_cons]
        omega
      · rw [hfront]
        exact List.mem_cons_of_mem _ (hnext.locked e he).1

/-- A change of the limits leaks nothing and keeps every locked entry. -/
theorem Consistent.setLimits_leaks (h : Consistent history s) (hleaks : s.cache.Leaks n)
    (min max : ℕ) :
    (s.cache.setLimits min max).Leaks n ∧ s.cache.KeepsLocked (s.cache.setLimits min max) := by
  obtain ⟨rest, hcache, hnext⟩ := (Owned.survives n _).resize s.cache.mainCache.requestedCapacity
    (c := { s.cache.mainCache with minCapacity := min, maxCapacity := max }) (f := [])
    rfl (Nat.zero_le _) (hleaks.owned h.slots)
  rw [List.nil_append] at hcache
  subst hcache
  exact ⟨hnext.count, keepsLocked_of_subset fun e he => (hnext.locked e he).1⟩

namespace LruSystem

/-- The producer of an entry on which no thread waits rolls back. -/
def RollsBackUnwaited (s : LruSystem T K V) : LruAction T K V → Prop
  | .rollback p => ∀ w ∈ s.waiters, w.entry ≠ p
  | _ => False

instance (s : LruSystem T K V) : (a : LruAction T K V) → Decidable (RollsBackUnwaited s a)
  | .rollback p => inferInstanceAs (Decidable (∀ w ∈ s.waiters, w.entry ≠ p))
  | .lookup _ _ _ _ | .wake _ | .write _ _ | .commit _ _ | .setLimits _ _ => isFalse id

/-- The system together with the number of rollbacks so far on which no thread waited. -/
def countUnwaited [DecidableEq T] (s : ℕ × LruSystem T K V) (a : LruAction T K V) :
    Option ((ℕ × LruSystem T K V) × LruEvent T K V) :=
  (step s.2 a).map fun next =>
    ((if RollsBackUnwaited s.2 a then s.1 + 1 else s.1, next.1), next.2)

/-- The entry pool at a moment when no operation is under way: the blocks in use
are those of the entries of the main cache, there is at most one reservation for a
key, every lock belongs to a producer or to a waiting thread, and what these refer
to is in use. -/
structure PoolSound (s : LruSystem T K V) : Prop where
  allocated : s.cache.entryPool.useList.length = s.cache.mainCache.size
  referenced : ∀ p, p ∈ s.cache.entryPool.useList ↔ ∃ e ∈ s.cache.mainCache.cache, e.value = p
  reservations : (s.handles.map fun p => (s.cache.entries p).key).Nodup
  locks : ∀ p ∈ s.cache.entryPool.useList, (s.cache.entries p).locks =
    s.handles.count p + s.waiters.countP (fun w => w.entry = p)
  handles : ∀ p ∈ s.handles, p ∈ s.cache.entryPool.useList
  waiters : ∀ w ∈ s.waiters, w.entry ∈ s.cache.entryPool.useList

end LruSystem

omit [Zero K] in
/-- The last lock of an entry is its producer's just if no thread waits on it. -/
theorem Consistent.locks_one_iff (h : Consistent history s) {p : EntryPtr} (hp : p ∈ s.handles) :
    (s.cache.entries p).locks = 1 ↔ ∀ w ∈ s.waiters, w.entry ≠ p := by
  obtain ⟨e, he, rfl⟩ := h.held.handleSlot p hp
  have hlocks := h.held.locks e he
  have hone := List.count_eq_one_of_mem h.held.handlesNodup hp
  constructor
  · intro halone w hw hentry
    have hzero : s.waiters.countP (fun w => w.entry = e.value) = 0 := by omega
    exact List.countP_eq_zero.mp hzero w hw (decide_eq_true hentry)
  · intro hnobody
    have hzero : s.waiters.countP (fun w => w.entry = e.value) = 0 :=
      List.countP_eq_zero.mpr fun w hw => by simpa using hnobody w hw
    omega

omit [Zero K] in
/-- A rollback on which no thread waits leaks a block. -/
theorem Consistent.rollback_unwaited (h : Consistent history s) (hleaks : s.cache.Leaks n)
    {p : EntryPtr} (hp : p ∈ s.handles) (hnobody : ∀ w ∈ s.waiters, w.entry ≠ p) :
    (s.cache.rollback p).Leaks (n + 1) := by
  have halone := (h.locks_one_iff hp).mpr hnobody
  obtain ⟨e, he, rfl⟩ := h.held.handleSlot p hp
  have hfind := h.slots.find? he
  have hlength := (perm_of_find? hfind).length_eq
  have hcount : s.cache.entryPool.useList.length = s.cache.mainCache.cache.length + n := hleaks
  simp only [LruCache.rollback, if_pos halone, LruCache.Leaks, SimpleLruCache.remove,
    SimpleLruCache.size, h.slots.entryKey e he, hfind]
  rw [List.length_cons] at hlength
  omega

omit [Zero K] in
/-- A rollback on which a thread waits leaks nothing. -/
theorem Consistent.rollback_waited (h : Consistent history s) (hleaks : s.cache.Leaks n)
    {p : EntryPtr} (hp : p ∈ s.handles) (hwaited : ¬∀ w ∈ s.waiters, w.entry ≠ p) :
    (s.cache.rollback p).Leaks n ∧ s.cache.KeepsLocked (s.cache.rollback p) := by
  have hshared : (s.cache.entries p).locks ≠ 1 := fun halone =>
    hwaited ((h.locks_one_iff hp).mp halone)
  rw [LruCache.rollback, if_neg hshared]
  exact hleaks.of_eq rfl rfl

variable [DecidableEq T]

/-- The step lemma: a rollback on which no thread waits leaks one block, and every
other step leaks none and keeps every locked entry. -/
theorem Consistent.step_leaks (h : Consistent history s) (hleaks : s.cache.Leaks n)
    {a : LruAction T K V} {e : LruEvent T K V} (hstep : LruSystem.step s a = some (t, e)) :
    t.cache.Leaks (if RollsBackUnwaited s a then n + 1 else n) ∧
      (¬RollsBackUnwaited s a → s.cache.KeepsLocked t.cache) := by
  -- only the rollback has two cases
  suffices hquiet : ¬RollsBackUnwaited s a → t.cache.Leaks n ∧ s.cache.KeepsLocked t.cache by
    by_cases hunwaited : RollsBackUnwaited s a
    · rw [if_pos hunwaited]
      refine ⟨?_, fun hnot => absurd hunwaited hnot⟩
      match a, hunwaited with
      | .rollback p, hnobody =>
        simp only [LruSystem.step, Option.ite_none_right_eq_some, Option.some.injEq,
          Prod.mk.injEq] at hstep
        obtain ⟨hp, rfl, -⟩ := hstep
        exact h.rollback_unwaited hleaks hp hnobody
    · rw [if_neg hunwaited]
      exact ⟨(hquiet hunwaited).1, fun _ => (hquiet hunwaited).2⟩
  intro hwaited
  cases a with
  | lookup thread key block suppress =>
    simp only [LruSystem.step, Option.ite_none_left_eq_some, Option.some.injEq] at hstep
    have ht := congrArg (fun r => r.1.cache) hstep.2
    simp only [settle_cache] at ht
    exact ht ▸ h.lookup_leaks hleaks key block suppress
  | wake thread =>
    obtain ⟨w, -, -, hnext⟩ := LruSystem.step_wake hstep
    have ht := congrArg (fun r => r.1.cache) hnext
    simp only [settle_cache] at ht
    exact ht ▸ hleaks.of_eq (wakeUp_mainCache _ _) (wakeUp_entryPool _ _)
  | write p value | commit p value =>
    simp only [LruSystem.step, Option.ite_none_right_eq_some, Option.some.injEq] at hstep
    exact congrArg (fun r => r.1.cache) hstep.2 ▸ hleaks.of_eq rfl rfl
  | rollback p =>
    simp only [LruSystem.step, Option.ite_none_right_eq_some, Option.some.injEq] at hstep
    exact congrArg (fun r => r.1.cache) hstep.2 ▸ h.rollback_waited hleaks hstep.1 hwaited
  | setLimits min max =>
    simp only [LruSystem.step, Option.some.injEq] at hstep
    exact congrArg (fun r => r.1.cache) hstep ▸ h.setLimits_leaks hleaks min max

omit [Zero K] [DecidableEq T] in
/-- A cache that leaks nothing has a sound entry pool. -/
theorem Consistent.poolSound (h : Consistent history s) (hleaks : s.cache.Leaks 0) :
    PoolSound s := by
  have hused := h.slots.used_iff hleaks
  constructor
  · exact hleaks
  · exact hused
  · refine h.held.handlesNodup.map_on fun p hp q hq hkey => ?_
    obtain ⟨e, he, rfl⟩ := h.held.handleSlot p hp
    obtain ⟨f, hf, rfl⟩ := h.held.handleSlot q hq
    rw [h.slots.entryKey e he, h.slots.entryKey f hf] at hkey
    rw [h.slots.eq_of_key he hf hkey]
  · intro p hp
    obtain ⟨e, he, rfl⟩ := (hused p).mp hp
    exact h.held.locks e he
  · exact fun p hp => (hused p).mpr (h.held.handleSlot p hp)
  · exact fun w hw => (hused w.entry).mpr ⟨_, h.held.waiterSlot w hw, rfl⟩

/-- In every interleaving as many blocks are leaked as there have been rollbacks on
which no thread waited. -/
theorem leaks_eq_unwaited (capacity : ℕ) (mode : CacheMode) {s : ℕ × LruSystem T K V}
    (hrun : Run countUnwaited always (0, initial capacity mode) history s) :
    s.2.cache.Leaks s.1 := by
  refine (hrun.invariant (fun history s => Consistent history s.2 ∧ s.2.cache.Leaks s.1)
    ⟨Consistent.initial capacity mode, rfl⟩ ?_).2
  intro history s t a e ⟨h, hleaks⟩ _ hcount
  obtain ⟨next, hstep, ⟨⟩⟩ := Option.map_eq_some_iff.mp hcount
  exact ⟨h.step_always hstep, (h.step_leaks hleaks hstep).1⟩

/-- In every interleaving in which every entry that is rolled back has a thread waiting
on it, the entry pool is sound in every state, and no step takes a locked entry away. -/
theorem poolSound_of_waited (capacity : ℕ) (mode : CacheMode)
    (hrun : Run LruSystem.step (fun s a => ¬RollsBackUnwaited s a)
      (initial capacity mode : LruSystem T K V) history s) :
    PoolSound s ∧ ∀ a t e, ¬RollsBackUnwaited s a → LruSystem.step s a = some (t, e) →
      s.cache.KeepsLocked t.cache := by
  have hall := hrun.invariant (fun history s => Consistent history s ∧ s.cache.Leaks 0)
    ⟨Consistent.initial capacity mode, rfl⟩ (by
      intro history s t a e ⟨h, hleaks⟩ hok hstep
      have hnext := (h.step_leaks hleaks hstep).1
      rw [if_neg hok] at hnext
      exact ⟨h.step_always hstep, hnext⟩)
  obtain ⟨h, hleaks⟩ := hall
  exact ⟨h.poolSound hleaks, fun a t e hok hstep => (h.step_leaks hleaks hstep).2 hok⟩

/-- Thread 1 rolls back while thread 2 waits, which takes over and commits. -/
theorem poolSound_of_waited_takeOver :
    ∃ history s, Run LruSystem.step (fun s a => ¬RollsBackUnwaited s a)
        (initial 1 .fastStart : LruSystem ℕ ℕ ℕ) history s ∧
      s.cache.entryPool.useList = [1] ∧ PoolSound s := by
  obtain ⟨history, s, hrun, hcheck⟩ := exists_run LruSystem.step
    (fun s a => ¬RollsBackUnwaited s a) (initial 1 .fastStart : LruSystem ℕ ℕ ℕ)
    [.lookup 1 7 true none, .lookup 2 7 true none, .rollback 1, .wake 2, .commit 1 5]
    (fun _ s => s.cache.entryPool.useList = [1]) rfl
  exact ⟨history, s, hrun, of_decide_eq_true hcheck, (poolSound_of_waited 1 .fastStart hrun).1⟩

/-- Thread 1 misses key 7 and rolls back. Nothing is under way then and the main cache is
empty, but the block of the entry is still in use. -/
theorem poolSound_leak :
    ¬∀ (capacity : ℕ) (mode : CacheMode) (history : List (LruEvent ℕ ℕ ℕ)) (s : LruSystem ℕ ℕ ℕ),
      Run LruSystem.step always (initial capacity mode) history s →
        s.handles = [] ∧ s.waiters = [] → PoolSound s := by
  intro h
  have hsound := h 1 .fastStart _ _
    (Run.init.exec [.lookup 1 7 true none, .rollback 1] rfl) ⟨rfl, rfl⟩
  exact absurd hsound.allocated (by decide)

end AviSynth
