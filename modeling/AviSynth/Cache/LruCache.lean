import AviSynth.Cache.SimpleLruCache
import AviSynth.Library.Runs

/-!
# The cache of frames

`LruCache` is shared by threads that look frames up and, when a frame is
missing, produce it. An entry is reserved empty for its producer; other threads
wait on it until the producer commits a value or rolls back. The mutex makes
each operation atomic, except that `lookup` sleeps on the entry's condition
variable. The sleep cuts `lookup` into two steps here: `lookup` itself, which may
end in `waiting`, and `wakeUp`, which runs each time the sleeper wakes.
-/

namespace AviSynth

/-- The address of an `LruEntry`. -/
abbrev EntryPtr := ℕ

/-- `ObjectPool`: the blocks in use and the free blocks. `next` is an address
that `new` has not handed out yet. -/
structure ObjectPool where
  useList : List EntryPtr
  freeList : List EntryPtr
  next : EntryPtr
  deriving DecidableEq

namespace ObjectPool

/-- `ObjectPool::Alloc`: the first free block, or a new one. -/
def alloc (pool : ObjectPool) : EntryPtr × ObjectPool :=
  match pool.freeList with
  | p :: rest => (p, { pool with useList := p :: pool.useList, freeList := rest })
  | [] => (pool.next,
      { pool with useList := pool.next :: pool.useList, next := pool.next + 1 })

/-- `ObjectPool::Free`. -/
def free (pool : ObjectPool) (p : EntryPtr) : ObjectPool :=
  { pool with useList := pool.useList.erase p, freeList := p :: pool.freeList }

end ObjectPool

/-- `CacheMode` of `InternalEnvironment.h`. -/
inductive CacheMode where
  | fastStart
  | optimalSize
  | noResize
  deriving DecidableEq

/-- `LruEntryState`. -/
inductive LruEntryState where
  | empty
  | available
  | rolledBack
  deriving DecidableEq

/-- `LruGhostEntry`. -/
structure LruGhostEntry (K : Type) where
  key : K
  ghosted : ℕ
  deriving DecidableEq

/-- `LruEntry`. The value is a frame handle; `none` is the null handle. -/
structure LruEntry (K V : Type) where
  key : K
  value : Option V
  /-- The producer, if any, and the threads waiting on the entry. -/
  locks : ℕ
  ghosted : ℕ
  state : LruEntryState
  deriving DecidableEq

/-- `LruEntry::reset`. -/
def LruEntry.reset {K V : Type} (k : K) (v : Option V) : LruEntry K V := ⟨k, v, 0, 0, .empty⟩

/-- What the evict event of the main cache reads and writes. -/
structure LruStore (K V : Type) where
  ghosts : SimpleLruCache K (LruGhostEntry K)
  entryPool : ObjectPool
  /-- The contents of every entry address. -/
  entries : EntryPtr → LruEntry K V

/-- The fields of `LruCache`. -/
structure LruCache (K V : Type) extends LruStore K V where
  mode : CacheMode
  mainCache : SimpleLruCache K EntryPtr

/-- How a call of `lookup` stands. The first four are `LruLookupResult`; the
handle of a reserved entry and the value copied out of a found one come with
them. A call that sleeps on an entry is `waiting`. -/
inductive LruLookup (V : Type) where
  | notFound (handle : EntryPtr)
  | foundAndReady (foundItem : Option V)
  | foundButNotAvail
  | noCache
  | waiting (entry : EntryPtr)
  deriving DecidableEq

/-- `GHOSTS_MIN_CAPACITY`. -/
def ghostsMinCapacity : ℕ := 50

/-- The ghost list has no evict event, so `trim` removes all it visits. -/
def ghostEvict {K : Type} : Entry K (LruGhostEntry K) → Unit → Bool × Unit := fun _ _ => (true, ())

variable {K V : Type} [DecidableEq K] [Zero K]

namespace LruStore

/-- Look a key up in the ghost list. The flag is `ghost_found`; the number is
the `ghosted` count behind the returned pointer. -/
def lookupGhost (s : LruStore K V) (key : K) : Option ℕ × LruStore K V :=
  match SimpleLruCache.lookup ghostEvict ⟨0, 0⟩ s.ghosts key false () with
  | (.found g, ghosts, _) => (some g.ghosted, { s with ghosts := ghosts })
  | (_, ghosts, _) => (none, { s with ghosts := ghosts })

/-- A write through the pointer that `lookupGhost` got, into the front node. -/
def setGhost (s : LruStore K V) (g : LruGhostEntry K) : LruStore K V :=
  { s with ghosts := s.ghosts.setFront g }

/-- `LruCache::MainEvictEvent`: locked entries stay; others leave a ghost and
their block goes back to the entry pool. -/
def mainEvictEvent (entry : Entry K EntryPtr) (s : LruStore K V) : Bool × LruStore K V :=
  let e := s.entries entry.value
  if e.locks > 0 then (false, s)
  else
    let (g, s) := s.lookupGhost entry.key
    let s := match g with
      | none => s.setGhost ⟨entry.key, e.ghosted + 1⟩
      | some ghosted => s.setGhost ⟨entry.key, ghosted + 1⟩
    (true, { s with
      entries := Function.update s.entries entry.value (LruEntry.reset 0 none)
      entryPool := s.entryPool.free entry.value })

end LruStore

namespace LruCache

/-- The constructor. -/
def new (capacity : ℕ) (mode : CacheMode) : LruCache K V where
  mode := mode
  mainCache := .new capacity
  ghosts := .new ghostsMinCapacity
  entryPool := ⟨[], [], 1⟩
  entries := fun _ => .reset 0 none

/-- Change one entry in place. -/
def modifyEntry (c : LruCache K V) (p : EntryPtr) (f : LruEntry K V → LruEntry K V) :
    LruCache K V :=
  { c with entries := Function.update c.entries p (f (c.entries p)) }

/-- `MainCache.resize`, whose evictions change the rest of the cache. -/
def resizeMain (c : LruCache K V) (newCap : ℕ) : LruCache K V :=
  let (main, store) := c.mainCache.resize LruStore.mainEvictEvent newCap c.toLruStore
  { c with mainCache := main, toLruStore := store }

/-- `LruCache::set_limits`. -/
def setLimits (c : LruCache K V) (min max : ℕ) : LruCache K V :=
  let (main, store) := c.mainCache.setLimits LruStore.mainEvictEvent min max c.toLruStore
  { c with mainCache := main, toLruStore := store }

/-- The tail of `lookup` on a found entry, from the test of the waiting loop:
an empty entry is waited for, any other is copied out and unlocked. -/
def takeOrWait (c : LruCache K V) (p : EntryPtr) : LruLookup V × LruCache K V :=
  if (c.entries p).state = .empty then (.waiting p, c)
  else (.foundAndReady (c.entries p).value,
    c.modifyEntry p fun e => { e with locks := e.locks - 1 })

/-- The body of the waiting loop after the wait, which may have ended
spuriously: a rolled back entry is taken over, otherwise the loop goes on. -/
def wakeUp (c : LruCache K V) (p : EntryPtr) : LruLookup V × LruCache K V :=
  if (c.entries p).state = .rolledBack then
    (.notFound p, c.modifyEntry p fun e => { e with state := .empty })
  else c.takeOrWait p

/-- The self-tuning step of `lookup` on a missing key: note the miss in the
ghost list and grow the cache when the key has been a ghost before. The number
is the key's `ghosted` count, the flag says whether to suppress caching below. -/
def consultGhosts (c : LruCache K V) (key : K) : ℕ × Bool × LruCache K V :=
  let (g, store) := c.toLruStore.lookupGhost key
  let c := { c with toLruStore := store }
  match g with
  | none => (0, false, { c with toLruStore := c.toLruStore.setGhost ⟨key, 0⟩ })
  | some ghosted =>
    if ghosted > 1 then
      let c := if c.mode ≠ .noResize then
          let c := c.resizeMain (c.mainCache.realCapacity + 1)
          let cap := ghostsMinCapacity + c.mainCache.realCapacity * 2
          { c with ghosts := (c.ghosts.resize ghostEvict cap ()).1 }
        else c
      (ghosted, c.mode = .optimalSize, c)
    else (ghosted, false, c)

/-- `EntryPool.Construct` for the front node of the main cache, and the fields
`lookup` sets in the new entry. -/
def reserve (c : LruCache K V) (key : K) (ghosted : ℕ) : EntryPtr × LruCache K V :=
  let (p, pool) := c.entryPool.alloc
  (p, { c with
    entryPool := pool
    mainCache := c.mainCache.setFront p
    entries := Function.update c.entries p ⟨key, none, 1, ghosted, .empty⟩ })

/-- `g->ghosted++` of an uncached key: the pointer leads to the key's ghost. -/
def countGhost (c : LruCache K V) (key : K) : LruCache K V :=
  { c with ghosts := { c.ghosts with
      cache := c.ghosts.cache.map fun e =>
        if e.key = key then ⟨e.key, e.value.key, e.value.ghosted + 1⟩ else e } }

/-- `LruCache::lookup`, up to its end or its first wait. `suppressCaching` is the
optional in-out flag, returned with its final value. -/
def lookup (c : LruCache K V) (key : K) (blockForCompletion : Bool)
    (suppressCaching : Option Bool) : LruLookup V × Option Bool × LruCache K V :=
  let suppress := suppressCaching.getD false
  let (entryp, main, store) :=
    c.mainCache.lookup LruStore.mainEvictEvent 0 key suppress c.toLruStore
  let c := { c with mainCache := main, toLruStore := store }
  match entryp with
  | .found p =>
    if !blockForCompletion && (c.entries p).state ≠ .available then
      (.foundButNotAvail, suppressCaching, c)
    else
      let (outcome, c) := (c.modifyEntry p fun e => { e with locks := e.locks + 1 }).takeOrWait p
      (outcome, suppressCaching, c)
  | .fresh _ =>
    let (ghosted, grown, c) := c.consultGhosts key
    let (p, c) := c.reserve key ghosted
    (.notFound p, suppressCaching.map (· || grown), c)
  | .null =>
    if suppress then (.noCache, suppressCaching, c)
    else
      let (_, grown, c) := c.consultGhosts key
      (.noCache, suppressCaching.map (· || grown), c.countGhost key)

/-- `LruCache::commit_value`. -/
def commitValue (c : LruCache K V) (p : EntryPtr) : LruCache K V :=
  c.modifyEntry p fun e => { e with state := .available, locks := e.locks - 1 }

/-- `LruCache::rollback`: without waiters the entry leaves the main cache,
otherwise it stays for one of them to take over. -/
def rollback (c : LruCache K V) (p : EntryPtr) : LruCache K V :=
  if (c.entries p).locks = 1 then
    { c with mainCache := c.mainCache.remove (c.entries p).key }
  else c.modifyEntry p fun e => { e with locks := e.locks - 1, state := .rolledBack }

end LruCache

/-!
## Threads around the cache of frames

A state of the system is the cache together with the calls of `lookup` that
sleep inside it and the handles that callers hold. Every caller follows
`Cache::GetFrame` and `Prefetcher::ThreadWorker`: a handle obtained from a missed
lookup is used to write a value into the entry and is then either committed or
rolled back, once. Handles may travel between threads, so they have no owner here.
-/

open Transition

/-- A call of `lookup` by `thread` for `key` that sleeps on `entry`. -/
structure Waiter (T K : Type) where
  thread : T
  key : K
  entry : EntryPtr
  deriving DecidableEq

/-- The cache and the calls in progress. -/
structure LruSystem (T K V : Type) where
  cache : LruCache K V
  waiters : List (Waiter T K)
  /-- The entries of the handles handed out and not finished yet. -/
  handles : List EntryPtr

/-- What a thread does next. -/
inductive LruAction (T K V : Type) where
  /-- Call `lookup`, up to its end or its first wait. -/
  | lookup (thread : T) (key : K) (blockForCompletion : Bool) (suppressCaching : Option Bool)
  /-- Wake from the condition variable, notified or spuriously. -/
  | wake (thread : T)
  /-- Write the value of a reserved entry through its handle. -/
  | write (handle : EntryPtr) (value : V)
  /-- Write the value and call `commit_value`. -/
  | commit (handle : EntryPtr) (value : V)
  /-- Call `rollback`. -/
  | rollback (handle : EntryPtr)
  /-- Call `set_limits`. -/
  | setLimits (min max : ℕ)

/-- What a step makes observable. -/
inductive LruEvent (T K V : Type) where
  /-- A lookup answered `FOUND_AND_READY` and handed back `foundItem`. -/
  | ready (thread : T) (key : K) (foundItem : Option V)
  /-- A value was committed for the key. -/
  | committed (key : K) (value : V)
  | quiet
  deriving DecidableEq

namespace LruSystem

variable {T K V : Type} [DecidableEq T] [DecidableEq K] [Zero K]

/-- A new cache that nobody uses yet. -/
def initial (capacity : ℕ) (mode : CacheMode) : LruSystem T K V :=
  ⟨.new capacity mode, [], []⟩

/-- Record how a call of `lookup` by `thread` for `key` stands. -/
def settle (s : LruSystem T K V) (thread : T) (key : K) :
    LruLookup V → LruSystem T K V × LruEvent T K V
  | .notFound p => ({ s with handles := p :: s.handles }, .quiet)
  | .foundAndReady found => (s, .ready thread key found)
  | .waiting p => ({ s with waiters := ⟨thread, key, p⟩ :: s.waiters }, .quiet)
  | .foundButNotAvail | .noCache => (s, .quiet)

/-- One step of one thread. A sleeping thread can only wake, and only handles
that are out can be used. -/
def step (s : LruSystem T K V) : LruAction T K V → Option (LruSystem T K V × LruEvent T K V)
  | .lookup thread key block suppress =>
    if s.waiters.any (fun w => w.thread = thread) then none
    else
      let (outcome, _, cache) := s.cache.lookup key block suppress
      some (settle { s with cache := cache } thread key outcome)
  | .wake thread =>
    match s.waiters.find? (fun w => w.thread = thread) with
    | none => none
    | some w =>
      let (outcome, cache) := s.cache.wakeUp w.entry
      some (settle { s with cache := cache, waiters := s.waiters.erase w } thread w.key outcome)
  | .write p value =>
    if p ∈ s.handles then
      let cache := s.cache.modifyEntry p fun e => { e with value := some value }
      some ({ s with cache := cache }, .quiet)
    else none
  | .commit p value =>
    if p ∈ s.handles then
      let cache := s.cache.modifyEntry p fun e => { e with value := some value }
      some ({ s with cache := cache.commitValue p, handles := s.handles.erase p },
        .committed (cache.entries p).key value)
    else none
  | .rollback p =>
    if p ∈ s.handles then
      some ({ s with cache := s.cache.rollback p, handles := s.handles.erase p }, .quiet)
    else none
  | .setLimits min max => some ({ s with cache := s.cache.setLimits min max }, .quiet)

/-- The value most recently committed for a key, in a history newest first. -/
def lastCommitted : List (LruEvent T K V) → K → Option V
  | [], _ => none
  | .committed k v :: earlier, key => if k = key then some v else lastCommitted earlier key
  | _ :: earlier, key => lastCommitted earlier key

/-- A lookup that answers `FOUND_AND_READY` hands back the value most recently
committed for its key. -/
def HandsBackLastCommit (earlier : List (LruEvent T K V)) : LruEvent T K V → Prop
  | .ready _ key found => ∃ v, found = some v ∧ lastCommitted earlier key = some v
  | _ => True

/-- The call is a blocking lookup that finds its entry rolled back, before any
of the threads waiting on the entry has woken to take it over. -/
def FindsRolledBack (s : LruSystem T K V) : LruAction T K V → Prop
  | .lookup _ key true _ => ∃ e ∈ s.cache.mainCache.cache,
      e.key = key ∧ (s.cache.entries e.value).state = .rolledBack
  | _ => False

instance (s : LruSystem T K V) : (a : LruAction T K V) → Decidable (FindsRolledBack s a)
  | .lookup _ key true _ => inferInstanceAs (Decidable (∃ e ∈ s.cache.mainCache.cache,
      e.key = key ∧ (s.cache.entries e.value).state = .rolledBack))
  | .lookup _ _ false _ | .wake _ | .write _ _ | .commit _ _ | .rollback _ | .setLimits _ _ =>
    isFalse id

/-- Only a thread that sleeps can wake. -/
theorem step_wake {s : LruSystem T K V} {thread : T} {next : LruSystem T K V × LruEvent T K V}
    (h : s.step (.wake thread) = some next) : ∃ w ∈ s.waiters, w.thread = thread ∧
      settle { s with cache := (s.cache.wakeUp w.entry).2, waiters := s.waiters.erase w } thread
        w.key (s.cache.wakeUp w.entry).1 = next := by
  cases hfind : s.waiters.find? (fun w => w.thread = thread) with
  | none => simp [step, hfind] at h
  | some w =>
    simp only [step, hfind, Option.some.injEq] at h
    exact ⟨w, List.mem_of_find?_eq_some hfind, by simpa using List.find?_some hfind, h⟩

end LruSystem

end AviSynth
