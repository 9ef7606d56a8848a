import AviSynth.Cache.LruCache

/-!
# Prefetching for a device

`QueuePrefetcher` reserves entries of a cache for the frames that follow a requested one
and leaves their handles in a queue. Workers, which run in a thread pool, take handles
from the queue, get the frames from the child clip and finish the handles. A step is what
a thread does between two accesses to what the threads share.
-/

namespace AviSynth

/-- A handle, numbered in the order in which handles are reserved. -/
structure PrefetchHandle where
  ticket : ℕ
  entry : EntryPtr
  deriving DecidableEq

/-- `std::pair<size_t, CacheType::handle>`. -/
abbrev PrefetchWork := ℤ × PrefetchHandle

/-- What a `QueuePrefetcher` is made for. Without frames to prefetch there are no threads. -/
structure PrefetchSetup (V : Type) where
  child : ℤ → V
  numFrames : ℤ
  prefetchFrames : ℤ
  numThreads : ℤ
  valid : prefetchFrames = 0 ∧ numThreads = 0 ∨ 0 < prefetchFrames ∧ 0 < numThreads

/-- A job of the thread pool that runs `ThreadWorker`. -/
inductive PrefetchWorker where
  /-- No thread has taken the job. -/
  | queued
  /-- At the head of the loop. -/
  | idle
  /-- In `GetFrame` of the child. -/
  | working (work : PrefetchWork)
  /-- An exception has been recorded. -/
  | failed (work : PrefetchWork)
  deriving DecidableEq

/-- A call of `GetFrame`. -/
inductive PrefetchRequest where
  /-- Asleep in `lookup`. -/
  | waiting (n : ℤ) (entry : EntryPtr)
  /-- Before the test for an exception of a worker. -/
  | reserved (work : PrefetchWork)
  | producing (work : PrefetchWork)
  | failed (work : PrefetchWork)
  /-- In `GetFrame` of the child, for a frame that is not cached. -/
  | direct (n : ℤ)
  /-- In the loop of `SchedulePrefetch`. -/
  | scheduling (currentN n : ℤ) (numQueued : ℕ)
  /-- There, with a handle that is to be queued. -/
  | holding (currentN : ℤ) (work : PrefetchWork) (numQueued : ℕ)
  deriving DecidableEq

namespace PrefetchWorker

/-- The handle that a worker holds. -/
def held : PrefetchWorker → List PrefetchWork
  | .working work | .failed work => [work]
  | .queued | .idle => []

end PrefetchWorker

namespace PrefetchRequest

/-- The handle that a request holds. -/
def held : PrefetchRequest → List PrefetchWork
  | .reserved work | .producing work | .failed work | .holding _ work _ => [work]
  | .waiting _ _ | .direct _ | .scheduling _ _ _ => []

/-- The request has queued work for which it has not started workers. -/
def wakes : PrefetchRequest → Bool
  | .scheduling _ _ numQueued | .holding _ _ numQueued => 0 < numQueued
  | _ => false

end PrefetchRequest

/-- What a step makes known. The value of a committed entry is read back from the cache. -/
inductive PrefetchEvent (V : Type) where
  | reserved (ticket : ℕ) (n : ℤ)
  | committed (ticket : ℕ) (n : ℤ) (value : Option V)
  | rolledBack (ticket : ℕ)
  | quiet

namespace PrefetchEvent

/-- The event finishes the handle. -/
def finishes {V : Type} (ticket : ℕ) : PrefetchEvent V → Bool
  | .committed t _ _ | .rolledBack t => t = ticket
  | .reserved _ _ | .quiet => false

end PrefetchEvent

/-- What the threads share, and where each of them is. -/
structure QueuePrefetcher (V : Type) where
  videoCache : LruCache ℤ V
  prefetchQueue : List PrefetchWork
  numWorkers : ℤ
  workerExceptionPresent : Bool
  workers : List PrefetchWorker
  requests : List PrefetchRequest
  /-- The handles reserved so far. -/
  reserved : ℕ
  /-- The destructor has finished the thread pool. -/
  finishing : Bool

/-- A step. A call of the child may throw, and so may the activation of the device. -/
inductive PrefetchAction where
  | getFrame (n : ℤ) (suppressThreadCount : ℕ)
  | request (r : PrefetchRequest) (throws : Bool)
  | work (w : PrefetchWorker) (throws : Bool)
  | destroy
  | cancel
  deriving DecidableEq

namespace QueuePrefetcher

variable {V : Type} (c : PrefetchSetup V) (s : QueuePrefetcher V)

/-- The constructor. -/
def initial : QueuePrefetcher V where
  videoCache := LruCache.new (c.prefetchFrames - 1).toNat .noResize
  prefetchQueue := []
  numWorkers := 0
  workerExceptionPresent := false
  workers := []
  requests := []
  reserved := 0
  finishing := false

/-- A request goes on. -/
def addRequest (r : PrefetchRequest) : QueuePrefetcher V := { s with requests := r :: s.requests }

/-- A worker goes on. -/
def addWorker (w : PrefetchWorker) : QueuePrefetcher V := { s with workers := w :: s.workers }

/-- The frame is stored in the entry, and `commit_value`. -/
def commitValue (work : PrefetchWork) : QueuePrefetcher V × PrefetchEvent V :=
  let videoCache := (s.videoCache.modifyEntry work.2.entry fun e =>
    { e with value := some (c.child work.1) }).commitValue work.2.entry
  ({ s with videoCache },
    .committed work.2.ticket work.1 (videoCache.entries work.2.entry).value)

/-- `rollback`. -/
def rollback (work : PrefetchWork) : QueuePrefetcher V × PrefetchEvent V :=
  ({ s with videoCache := s.videoCache.rollback work.2.entry }, .rolledBack work.2.ticket)

/-- `GetFrame` after `lookup`, which may have gone to sleep. -/
def lookedUp (n : ℤ) (videoCache : LruCache ℤ V) :
    LruLookup V → QueuePrefetcher V × PrefetchEvent V
  | .notFound entry =>
    ({ s with videoCache, reserved := s.reserved + 1 }.addRequest
      (.reserved (n, ⟨s.reserved, entry⟩)), .reserved s.reserved n)
  | .foundAndReady _ => ({ s with videoCache }.addRequest (.scheduling n (n + 1) 0), .quiet)
  | .noCache => ({ s with videoCache }.addRequest (.direct n), .quiet)
  | .waiting entry => ({ s with videoCache }.addRequest (.waiting n entry), .quiet)
  | .foundButNotAvail => ({ s with videoCache }, .quiet)

/-- An iteration of `SchedulePrefetch` after `lookup`. -/
def scheduled (currentN n : ℤ) (numQueued : ℕ) (videoCache : LruCache ℤ V) :
    LruLookup V → QueuePrefetcher V × PrefetchEvent V
  | .notFound entry =>
    ({ s with videoCache, reserved := s.reserved + 1 }.addRequest
      (.holding currentN (n, ⟨s.reserved, entry⟩) numQueued), .reserved s.reserved n)
  | _ => ({ s with videoCache }.addRequest (.scheduling currentN (n + 1) numQueued), .quiet)

/-- The end of `SchedulePrefetch`: workers are started. -/
def wakeUp (numQueued : ℕ) : QueuePrefetcher V :=
  let n := min (c.numThreads - s.numWorkers).toNat numQueued
  { s with
    numWorkers := s.numWorkers + n
    workers := List.replicate n .queued ++ s.workers }

/-- A request goes on. It has been taken from the others. -/
def proceed (throws : Bool) : PrefetchRequest → QueuePrefetcher V × PrefetchEvent V
  | .waiting n entry =>
    let (result, videoCache) := s.videoCache.wakeUp entry
    s.lookedUp n videoCache result
  | .reserved work =>
    if s.workerExceptionPresent then (s.addRequest (.failed work), .quiet)
    else (s.addRequest (.producing work), .quiet)
  | .producing work =>
    if throws then (s.addRequest (.failed work), .quiet)
    else
      let (s, event) := s.commitValue c work
      (s.addRequest (.scheduling work.1 (work.1 + 1) 0), event)
  | .failed work => s.rollback work
  | .direct n =>
    if throws then (s, .quiet) else (s.addRequest (.scheduling n (n + 1) 0), .quiet)
  | .scheduling currentN n numQueued =>
    if n < currentN + c.prefetchFrames ∧ n < c.numFrames then
      let (result, _, videoCache) := s.videoCache.lookup n false none
      s.scheduled currentN n numQueued videoCache result
    else (s.wakeUp c numQueued, .quiet)
  | .holding currentN work numQueued =>
    ({ s with prefetchQueue := s.prefetchQueue ++ [work] }.addRequest
      (.scheduling currentN (work.1 + 1) (numQueued + 1)), .quiet)

/-- `ThreadWorker` goes on. What it throws, the thread pool drops. -/
def threadWorker (throws : Bool) : PrefetchWorker → QueuePrefetcher V × PrefetchEvent V
  | .queued => if throws then (s, .quiet) else (s.addWorker .idle, .quiet)
  | .idle =>
    match s.prefetchQueue with
    | [] => ({ s with numWorkers := s.numWorkers - 1 }, .quiet)
    | work :: rest => ({ s with prefetchQueue := rest }.addWorker (.working work), .quiet)
  | .working work =>
    if throws then ({ s with workerExceptionPresent := true }.addWorker (.failed work), .quiet)
    else
      let (s, event) := s.commitValue c work
      (s.addWorker .idle, event)
  | .failed work =>
    let (s, event) := s.rollback work
    (s.addWorker .idle, event)

/-- One step. The destructor waits until no thread runs: a job that has not begun is not
run any more, and what is left in the queue is rolled back. -/
def step : PrefetchAction → Option (QueuePrefetcher V × PrefetchEvent V)
  | .getFrame n suppressThreadCount =>
    if s.finishing then none
    else if c.prefetchFrames = 0 ∨ 0 < suppressThreadCount then some (s, .quiet)
    else
      let (result, _, videoCache) := s.videoCache.lookup n true none
      some (s.lookedUp n videoCache result)
  | .request r throws =>
    if r ∈ s.requests then some (proceed c { s with requests := s.requests.erase r } throws r)
    else none
  | .work w throws =>
    if w ∈ s.workers then some (threadWorker c { s with workers := s.workers.erase w } throws w)
    else none
  | .destroy =>
    if s.finishing = false ∧ s.requests = [] then
      some ({ s with finishing := true, workers := s.workers.filter (· ≠ .queued) }, .quiet)
    else none
  | .cancel =>
    match s.prefetchQueue with
    | [] => none
    | work :: rest =>
      if s.finishing ∧ s.workers = [] then some (rollback { s with prefetchQueue := rest } work)
      else none

/-- The handles that have not been finished, wherever they are. -/
def held : List PrefetchWork :=
  s.prefetchQueue ++ (s.workers.flatMap PrefetchWorker.held ++
    s.requests.flatMap PrefetchRequest.held)

/-- The destructor has returned. -/
def Destroyed : Prop := s.finishing = true ∧ s.workers = [] ∧ s.prefetchQueue = []

/-- The device is activated on the thread of a worker. -/
def Activates (_ : QueuePrefetcher V) : PrefetchAction → Prop
  | .work .queued throws => throws = false
  | _ => True

instance (s : QueuePrefetcher V) : (a : PrefetchAction) → Decidable (s.Activates a)
  | .work .queued throws => inferInstanceAs (Decidable (throws = false))
  | .work .idle _ | .work (.working _) _ | .work (.failed _) _ | .getFrame _ _ | .request _ _
  | .destroy | .cancel => isTrue trivial

end QueuePrefetcher

end AviSynth
