import AviSynth.Cache.LruLookup

/-!
# Every interleaving of lookups and commits

Each step of each thread keeps the invariant and, where it hands back a frame,
hands back the last one committed for its key. The exception is a blocking
lookup that arrives between a rollback and the wake-up of a waiting thread: it
does not enter the waiting loop and hands back the frame that was never
committed.
-/

namespace AviSynth

open Transition LruSystem

variable {T K V : Type} {key : K}

/-- Filling the front node with a newly constructed entry for its key. -/
theorem Slots.reserve {rest : List (Entry K EntryPtr)} {s : LruStore K V} (h : Slots rest s)
    (hkey : ∀ e ∈ rest, e.key ≠ key) (ghosted : ℕ) :
    Slots (⟨key, s.entryPool.alloc.1⟩ :: rest) { s with
      entryPool := s.entryPool.alloc.2
      entries :=
        Function.update s.entries s.entryPool.alloc.1 ⟨key, none, 1, ghosted, .empty⟩ } := by
  obtain ⟨hfresh, huse, hpool⟩ := h.pool.alloc
  have hvalue : ∀ e ∈ rest, e.value ≠ s.entryPool.alloc.1 := fun e he heq =>
    hfresh (heq ▸ h.used e he)
  refine ⟨?_, ?_, ?_, ?_, hpool⟩
  · simpa using ⟨hkey, h.keys⟩
  · simpa using ⟨hvalue, h.values⟩
  · intro e he
    rcases List.mem_cons.mp he with rfl | he
    · simp
    · simpa only [Function.update_of_ne (hvalue e he)] using h.entryKey e he
  · intro e he
    rcases List.mem_cons.mp he with rfl | he
    · simp [huse]
    · simpa only [huse] using List.mem_cons_of_mem _ (h.used e he)

variable [DecidableEq K] {history : List (LruEvent T K V)} {s : LruSystem T K V} {c : LruCache K V}
  {e : Entry K EntryPtr}

omit [DecidableEq K] in
/-- `reserve` fills in the front node and leaves the rest of the list alone. -/
theorem LruCache.reserve_cache {rest : List (Entry K EntryPtr)}
    (hcache : c.mainCache.cache = e :: rest) (key : K) (ghosted : ℕ) :
    (c.reserve key ghosted).2.mainCache.cache = ⟨e.key, c.entryPool.alloc.1⟩ :: rest ∧
      (c.reserve key ghosted).2.mainCache.minCapacity = c.mainCache.minCapacity ∧
      (c.reserve key ghosted).2.mainCache.maxCapacity = c.mainCache.maxCapacity ∧
      (c.reserve key ghosted).2.mainCache.realCapacity = c.mainCache.realCapacity := by
  simp only [reserve, SimpleLruCache.setFront, hcache, and_self]

/-- Filling in the front node after a missed lookup hands out its handle. -/
theorem Consistent.reserve {stale : EntryPtr} {es rest : List (Entry K EntryPtr)}
    {store : LruStore K V} (ghosted : ℕ) (hcache : c.mainCache.cache = ⟨key, stale⟩ :: rest)
    (hkey : ∀ e ∈ rest, e.key ≠ key) (hevicts : Evicts es store rest c.toLruStore)
    (hgrow : c.mainCache.CanGrow) {handles : List EntryPtr} {waiters : List (Waiter T K)}
    (hheld : Held es store handles waiters history) :
    Consistent history ⟨(c.reserve key ghosted).2, waiters,
      (c.reserve key ghosted).1 :: handles⟩ := by
  obtain ⟨hfront, hmin, hmax, hreal⟩ := LruCache.reserve_cache hcache key ghosted
  have hfresh := hevicts.slots.pool.alloc.1
  have hvalue : ∀ e ∈ rest, e.value ≠ c.entryPool.alloc.1 := fun e he heq =>
    hfresh (heq ▸ hevicts.slots.used e he)
  refine ⟨?_, ?_, ?_⟩
  · rw [hfront]
    exact hevicts.slots.reserve hkey ghosted
  · rw [hfront]
    exact (hheld.evicts hevicts).reserve hvalue (Function.update_self _ _ _)
      fun q hq => Function.update_of_ne hq _ _
  · simpa only [SimpleLruCache.CanGrow, hmin, hmax, hreal] using hgrow

variable [Zero K]

/-- A missed lookup that gets a node: after the trim and the self-tuning step
the front node is filled in and the caller gets its handle. -/
theorem Consistent.lookup_fresh (h : Consistent history s)
    (hfind : s.cache.mainCache.cache.find? (fun e => e.key = key) = none)
    (hcap : s.cache.mainCache.realCapacity ≠ 0) (block : Bool) {suppress : Option Bool}
    (hsuppress : suppress.getD false = false) :
    ∃ p flag cache, s.cache.lookup key block suppress = (.notFound p, flag, cache) ∧
      Consistent history { s with cache := cache, handles := p :: s.handles } := by
  obtain ⟨flag, d, stale, rest, ghosted, hlookup, hcache, hevicts, hgrow⟩ :=
    LruCache.lookup_fresh (Evicts.survives _ _) h.canGrow (Evicts.of_eq h.slots rfl rfl) hfind hcap
      block hsuppress
  have hmiss : ∀ e ∈ rest, e.key ≠ key := fun e he => by
    simpa using List.find?_eq_none.mp hfind e (hevicts.sublist.subset he)
  exact ⟨_, flag, _, hlookup, Consistent.reserve ghosted hcache hmiss hevicts hgrow h.held⟩

/-- A missed lookup that gets no node hands nothing back and only evicts. -/
theorem Consistent.lookup_null (h : Consistent history s)
    (hfind : s.cache.mainCache.cache.find? (fun e => e.key = key) = none) (block : Bool)
    {suppress : Option Bool}
    (hnone : suppress.getD false = true ∨ s.cache.mainCache.realCapacity = 0) :
    ∃ flag cache, s.cache.lookup key block suppress = (.noCache, flag, cache) ∧
      Consistent history { s with cache := cache } := by
  obtain ⟨flag, d, hlookup, hevicts, hgrow⟩ := LruCache.lookup_null (Evicts.survives _ _) h.canGrow
    (Evicts.of_eq h.slots rfl rfl) hfind block hnone
  exact ⟨flag, d, hlookup, h.evicts hevicts hgrow⟩

/-- What a step must establish: the invariant with the event it reports, and
that the event hands back the right value. -/
def Sound (history : List (LruEvent T K V)) (next : LruSystem T K V × LruEvent T K V) : Prop :=
  Consistent (next.2 :: history) next.1 ∧ HandsBackLastCommit history next.2

omit [Zero K] in
/-- A step that reports nothing only has to keep the invariant. -/
theorem Consistent.quiet (h : Consistent history s) : Sound history (s, .quiet) :=
  ⟨h.record fun _ => rfl, trivial⟩

omit [DecidableEq K] [Zero K] in
/-- An empty entry is waited for. -/
theorem LruCache.takeOrWait_empty {p : EntryPtr}
    (h : (c.entries p).state = .empty) : c.takeOrWait p = (.waiting p, c) := by
  simp only [takeOrWait, h, if_true]

omit [DecidableEq K] [Zero K] in
/-- Any other entry is copied out and unlocked. -/
theorem LruCache.takeOrWait_filled {p : EntryPtr}
    (h : (c.entries p).state ≠ .empty) : c.takeOrWait p = (.foundAndReady (c.entries p).value,
      c.modifyEntry p fun e => { e with locks := e.locks - 1 }) := by
  simp only [takeOrWait, h, if_false]

omit [DecidableEq K] [Zero K] in
/-- Unlocking right after locking leaves the cache as it was. -/
theorem LruCache.unlock_lock (c : LruCache K V) (p : EntryPtr) :
    ((c.modifyEntry p fun e => { e with locks := e.locks + 1 }).modifyEntry p
      fun e => { e with locks := e.locks - 1 }) = c := by
  simp only [modifyEntry, Function.update_self, Function.update_idem, Nat.add_sub_cancel,
    Function.update_eq_self]

omit [Zero K] in
/-- A call that locks an entry waits for it if it is empty, and otherwise hands
back what it found there. -/
theorem Consistent.take (h : Consistent history s) (thread : T) (he : e ∈ s.cache.mainCache.cache)
    (hstate : (s.cache.entries e.value).state ≠ .rolledBack) :
    Sound history (settle { s with
      cache := ((s.cache.modifyEntry e.value fun d =>
        { d with locks := d.locks + 1 }).takeOrWait e.value).2 } thread e.key
      ((s.cache.modifyEntry e.value fun d =>
        { d with locks := d.locks + 1 }).takeOrWait e.value).1) := by
  have hentry : (s.cache.modifyEntry e.value fun d => { d with locks := d.locks + 1 }).entries
      e.value = { s.cache.entries e.value with locks := (s.cache.entries e.value).locks + 1 } := by
    simp only [LruCache.modifyEntry, Function.update_self]
  by_cases hempty : (s.cache.entries e.value).state = .empty
  · rw [LruCache.takeOrWait_empty (by rw [hentry]; exact hempty)]
    exact (h.wait thread he).quiet
  · have havailable : (s.cache.entries e.value).state = .available := by
      cases hcase : (s.cache.entries e.value).state with
      | empty => exact absurd hcase hempty
      | available => rfl
      | rolledBack => exact absurd hcase hstate
    have hready := h.ready thread he havailable
    rw [LruCache.takeOrWait_filled (by rw [hentry]; exact hempty), LruCache.unlock_lock, hentry]
    exact ⟨h.record fun _ => rfl, hready⟩

/-- A lookup that finds its entry moves it to the front. A non-blocking one
leaves an entry that is not available alone. -/
theorem Consistent.lookup_found (h : Consistent history s)
    (hfind : s.cache.mainCache.cache.find? (fun e => e.key = key) = some e) (thread : T)
    {block : Bool} (suppress : Option Bool)
    (hok : block = true → (s.cache.entries e.value).state ≠ .rolledBack) :
    Sound history (settle { s with cache := (s.cache.lookup key block suppress).2.2 } thread key
      (s.cache.lookup key block suppress).1) := by
  have hfront := h.moveToFront hfind
  obtain rfl := key_of_find? hfind
  simp only [LruCache.lookup, SimpleLruCache.lookup_found _ _ _ hfind]
  split
  · exact hfront.quiet
  · next hgo =>
    refine hfront.take thread List.mem_cons_self ?_
    intro (hrolled : (s.cache.entries e.value).state = .rolledBack)
    cases block with
    | true => exact hok rfl hrolled
    | false => simp [hrolled] at hgo

/-- A lookup keeps the invariant and hands back the last commit. -/
theorem Consistent.lookup (h : Consistent history s) (thread : T) (key : K) (block : Bool)
    (suppress : Option Bool) (hok : ¬FindsRolledBack s (.lookup thread key block suppress)) :
    Sound history (settle { s with cache := (s.cache.lookup key block suppress).2.2 } thread key
      (s.cache.lookup key block suppress).1) := by
  cases hfind : s.cache.mainCache.cache.find? (fun e => e.key = key) with
  | some e =>
    refine h.lookup_found hfind thread suppress fun hblock hstate => hok ?_
    subst hblock
    exact ⟨e, List.mem_of_find?_eq_some hfind, key_of_find? hfind, hstate⟩
  | none =>
    by_cases hnone : suppress.getD false = true ∨ s.cache.mainCache.realCapacity = 0
    · obtain ⟨flag, cache, hlookup, hnext⟩ := h.lookup_null hfind block hnone
      rw [hlookup]
      exact hnext.quiet
    · rw [not_or, Bool.not_eq_true] at hnone
      obtain ⟨p, flag, cache, hlookup, hnext⟩ := h.lookup_fresh hfind hnone.2 block hnone.1
      rw [hlookup]
      exact hnext.quiet

variable [DecidableEq T]

omit [Zero K] in
/-- Waking takes over a rolled back entry, goes back to sleep on an empty one,
and hands back the value of an available one. -/
theorem Consistent.wake (h : Consistent history s) {w : Waiter T K} (hw : w ∈ s.waiters) :
    Sound history (settle { s with
      cache := (s.cache.wakeUp w.entry).2, waiters := s.waiters.erase w } w.thread w.key
      (s.cache.wakeUp w.entry).1) := by
  unfold LruCache.wakeUp LruCache.takeOrWait
  cases hstate : (s.cache.entries w.entry).state with
  | empty => exact (h.sleepOn hw).quiet
  | available =>
    have hready := h.ready w.thread (h.held.waiterSlot w hw) hstate
    exact ⟨(h.leave hw).record fun _ => rfl, hready⟩
  | rolledBack => exact (h.takeOver hw hstate).quiet

/-- The step lemma: every enabled action keeps the invariant and reports a
right event. -/
theorem Consistent.step (h : Consistent history s) {a : LruAction T K V}
    (hok : ¬FindsRolledBack s a) {next : LruSystem T K V × LruEvent T K V}
    (hstep : LruSystem.step s a = some next) : Sound history next := by
  cases a with
  | lookup thread key block suppress =>
    simp only [LruSystem.step, Option.ite_none_left_eq_some, Option.some.injEq] at hstep
    obtain ⟨_, rfl⟩ := hstep
    exact h.lookup thread key block suppress hok
  | wake thread =>
    obtain ⟨w, hw, rfl, rfl⟩ := LruSystem.step_wake hstep
    exact h.wake hw
  | write p value =>
    obtain ⟨hp, ⟨⟩⟩ := Option.ite_none_right_eq_some.mp hstep
    exact (h.write hp value).quiet
  | commit p value =>
    obtain ⟨hp, ⟨⟩⟩ := Option.ite_none_right_eq_some.mp hstep
    have hkey : ((s.cache.modifyEntry p fun e => { e with value := some value }).entries p).key =
        (s.cache.entries p).key := by simp only [LruCache.modifyEntry, Function.update_self]
    refine ⟨?_, trivial⟩
    rw [hkey]
    exact h.commit hp value
  | rollback p =>
    obtain ⟨hp, ⟨⟩⟩ := Option.ite_none_right_eq_some.mp hstep
    exact (h.rollback hp).quiet
  | setLimits min max =>
    simp only [LruSystem.step, Option.some.injEq] at hstep
    subst hstep
    exact (h.setLimits min max).quiet

/-- In every interleaving in which no blocking lookup meets a rolled back entry,
every frame handed back is the one committed last for its key. -/
theorem ready_handsBackLastCommit (capacity : ℕ) (mode : CacheMode)
    (hrun : Run LruSystem.step (fun s a => ¬FindsRolledBack s a)
      (LruSystem.initial capacity mode : LruSystem T K V) history s) :
    AllEvents HandsBackLastCommit history :=
  hrun.allEvents Consistent (Consistent.initial capacity mode)
    fun hinv hok hstep => hinv.step hok hstep

/-- A lookup, its commit, and a second lookup that finds the frame. -/
theorem ready_handsBackLastCommit_hit :
    AllEvents HandsBackLastCommit
      [.ready 2 7 (some 5), .committed 7 5, (.quiet : LruEvent ℕ ℕ ℕ)] :=
  ready_handsBackLastCommit (T := ℕ) (K := ℕ) (V := ℕ) 1 .fastStart
    (Run.init.exec [.lookup 1 7 true none, .commit 1 5, .lookup 2 7 true none] rfl)

/-- Thread 1 produces the frame for key 7 and thread 2 waits for it. Thread 1
rolls back; before thread 2 wakes, thread 3 looks the key up and is handed a null
frame as ready, although nothing was ever committed. -/
theorem ready_nullAfterRollback :
    ¬∀ (capacity : ℕ) (history : List (LruEvent ℕ ℕ ℕ)) (s : LruSystem ℕ ℕ ℕ),
      Run LruSystem.step always (LruSystem.initial capacity .fastStart) history s →
        AllEvents HandsBackLastCommit history := by
  intro h
  have hrun := h 1 [.ready 3 7 none, .quiet, .quiet, .quiet] _
    (Run.init.exec [.lookup 1 7 true none, .lookup 2 7 true none, .rollback 1,
      .lookup 3 7 true none] rfl)
  obtain ⟨v, hnone, _⟩ := hrun.1
  cases hnone

end AviSynth
