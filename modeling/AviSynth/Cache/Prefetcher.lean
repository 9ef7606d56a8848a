import AviSynth.Cache.LruCache
import AviSynth.Library.MachineInt

/-!
# The prefetcher

`Prefetcher` follows the differences between the frames that are requested. It locks on to
a difference that repeats, and schedules the frames that would come next for its workers,
which put them into a cache. Requests come one after the other, and the workers run beside
them; a step is what one of them does between two accesses to what they share.
-/

namespace AviSynth

open MachineInt

/-- `PATTERN_LOCK_LENGTH`. -/
def patternLockLength : ℤ := 3

/-- The fields of `PrefetcherPimpl` about the pattern of the requests. -/
structure PatternDetector where
  lockedPattern : ℤ
  patternHits : ℤ
  patternMisses : ℤ
  pattern : ℤ
  isLocked : Bool
  lastRequestedFrame : ℤ
  deriving DecidableEq, Repr

namespace PatternDetector

/-- A detector without history. -/
def new : PatternDetector := ⟨1, 0, 0, 1, false, 0⟩

/-- The hits and misses while a pattern is locked, with the new pattern. -/
def trackLocked (d : PatternDetector) (pattern : ℤ) : PatternDetector :=
  let d :=
    if d.lockedPattern = pattern then { d with patternHits := 0, patternMisses := 0 }
    else if d.pattern = pattern then
      { d with
        patternHits := i32 (d.patternHits + 1)
        patternMisses := i32 (d.patternMisses + 1) }
    else { d with patternHits := 0, patternMisses := i32 (d.patternMisses + 1) }
  { d with pattern := pattern }

/-- After enough misses the detector locks on to the other pattern, or unlocks. -/
def relock (d : PatternDetector) : PatternDetector :=
  if patternLockLength ≤ d.patternMisses ∧ patternLockLength ≤ d.patternHits then
    { d with lockedPattern := d.pattern, patternHits := 0, patternMisses := 0 }
  else if patternLockLength ≤ d.patternMisses ∧ d.patternHits < patternLockLength then
    { d with isLocked := false }
  else d

/-- Without a locked pattern the detector looks for one. The field `Pattern` stays. -/
def trackUnlocked (d : PatternDetector) (pattern : ℤ) : PatternDetector :=
  let d :=
    if d.pattern = pattern then
      { d with patternHits := i32 (d.patternHits + 1), patternMisses := 0 }
    else { d with patternHits := 0, patternMisses := i32 (d.patternMisses + 1) }
  if patternLockLength ≤ d.patternHits then
    { d with lockedPattern := pattern, patternMisses := 0, isLocked := true }
  else d

/-- What a request for frame `n` tells the detector. -/
def detect (d : PatternDetector) (n : ℤ) : PatternDetector :=
  let difference := i32 (n - d.lastRequestedFrame)
  let pattern := if difference = 0 then 1 else difference
  let d := { d with lastRequestedFrame := n }
  if d.isLocked then (d.trackLocked pattern).relock else d.trackUnlocked pattern

/-- How far `SchedulePrefetch` goes at a time. -/
def stride (d : PatternDetector) : ℤ := if d.isLocked then d.lockedPattern else 1

/-- The difference of a request from the one before it. That of a repeated request is 1. -/
def difference (d : PatternDetector) (n : ℤ) : ℤ :=
  if i32 (n - d.lastRequestedFrame) = 0 then 1 else i32 (n - d.lastRequestedFrame)

/-- The pattern that is followed after a request, by the state before it: the locked one, if the
request repeats it or is at most the second in a row to miss it; otherwise a difference that has
been repeated often enough; otherwise one frame at a time. -/
def followed (d : PatternDetector) (n : ℤ) : ℤ :=
  if d.isLocked ∧ (d.lockedPattern = d.difference n ∨
      i32 (d.patternMisses + 1) < patternLockLength) then d.lockedPattern
  else if d.pattern = d.difference n ∧ patternLockLength ≤ i32 (d.patternHits + 1) then
    d.difference n
  else 1

end PatternDetector

/-- What a prefetcher is made for. -/
structure PrefetchParams where
  numFrames : ℤ
  nPrefetchFrames : ℤ
  isInt : numFrames < 2 ^ 31

namespace PrefetchParams

/-- The number of steps of a length that lead as far as `x`. -/
def stepsTo (x length : ℤ) : ℤ := -(-x / length)

/-- Frames ahead of `current` are in the clip. Backwards, the steps that lead as far as the number
of frames to prefetch do not lead below zero. Forwards, neither these steps nor those to the end of
the clip and one more lead beyond the greatest `int`. -/
def LeavesRoom (c : PrefetchParams) (current pattern : ℤ) : Prop :=
  (pattern < 0 → stepsTo c.nPrefetchFrames (-pattern) * -pattern ≤ current) ∧
    (0 < pattern → current + min (stepsTo c.nPrefetchFrames pattern)
      (stepsTo (c.numFrames - current) pattern + 1) * pattern < 2 ^ 31)
  deriving Decidable

end PrefetchParams

/-- `PrefetcherJobParams`. -/
structure PrefetcherJob where
  frame : ℤ
  handle : EntryPtr
  deriving DecidableEq, Repr

/-- Where a call of `GetFrame` stands. -/
inductive PrefetcherCaller where
  /-- No frame is requested. -/
  | idle
  /-- At the head of the loop of the first or the second `SchedulePrefetch`. -/
  | scheduling (second : Bool) (current n : ℤ)
  /-- Before the lookup of the requested frame. -/
  | lookingUp (current prefetchPos : ℤ)
  /-- Asleep in that lookup. -/
  | waiting (current prefetchPos : ℤ) (entry : EntryPtr)
  /-- In `GetFrame` of the child, with the handle of a missed lookup. -/
  | producing (current prefetchPos : ℤ) (handle : Option EntryPtr)
  deriving DecidableEq, Repr

/-- The key of a frame number: it is converted to `size_t`. -/
def frameKey (n : ℤ) : ℕ := (n % 2 ^ 64).toNat

/-- The prefetcher, its jobs in the thread pool, and the request under way. A worker that
has finished its handle still has to count itself down, and to record that it failed. -/
structure Prefetcher (V : Type) where
  detector : PatternDetector
  videoCache : LruSystem Unit ℕ V
  runningWorkers : ℤ
  jobs : List PrefetcherJob
  leaving : List Bool
  workerExceptionPresent : Bool
  caller : PrefetcherCaller

/-- What the caller and the workers can do. -/
inductive PrefetcherAction (V : Type) where
  /-- `GetFrame` is called. With a thread count suppressed it calls the child only. -/
  | getFrame (n : ℤ) (suppressed : Bool)
  /-- The request goes on. Where it is in the child, this returns a frame or throws. -/
  | proceed (child : Option V)
  /-- A worker finishes a job, with the frame of the child or an exception. -/
  | work (job : PrefetcherJob) (child : Option V)
  /-- A worker counts itself down. -/
  | leave (failed : Bool)

/-- What can be observed. -/
inductive PrefetcherEvent where
  | lookedUp (frame : ℤ) (scheduled : Bool)
  | quiet
  deriving DecidableEq, Repr

namespace Prefetcher

variable {V : Type}

/-- A prefetcher before any request. -/
def initial (c : PrefetchParams) : Prefetcher V where
  detector := .new
  videoCache := .initial (frameKey (i32 (c.nPrefetchFrames * 2))) .noResize
  runningWorkers := 0
  jobs := []
  leaving := []
  workerExceptionPresent := false
  caller := .idle

/-- `lookup`, up to its end or its first wait. -/
def lookup (p : Prefetcher V) (n : ℤ) (block : Bool) : Option (LruLookup V × Prefetcher V) :=
  (p.videoCache.step (.lookup () (frameKey n) block none)).map fun next =>
    ((p.videoCache.cache.lookup (frameKey n) block none).1, { p with videoCache := next.1 })

/-- `lookup` wakes. -/
def wakeUp (p : Prefetcher V) (entry : EntryPtr) : Option (LruLookup V × Prefetcher V) :=
  (p.videoCache.step (.wake ())).map fun next =>
    ((p.videoCache.cache.wakeUp entry).1, { p with videoCache := next.1 })

/-- The frame is stored and committed, or the handle is rolled back. -/
def finish (p : Prefetcher V) (handle : EntryPtr) (child : Option V) : Option (Prefetcher V) :=
  (p.videoCache.step (match child with
    | some value => .commit handle value
    | none => .rollback handle)).map fun next => { p with videoCache := next.1 }

/-- The loop of `SchedulePrefetch` is left at `n`. -/
def endSchedule (p : Prefetcher V) (second : Bool) (current n : ℤ) : Prefetcher V :=
  { p with caller := if second then .idle else .lookingUp current n }

/-- The loop goes on: there is a worker left, and the last frame is not too far away. -/
def GoesOn (c : PrefetchParams) (p : Prefetcher V) (current n : ℤ) : Prop :=
  p.runningWorkers < c.nPrefetchFrames ∧ ((i32 (n - current)).natAbs : ℤ) < c.nPrefetchFrames
  deriving Decidable

/-- One round of the loop. -/
def schedule (c : PrefetchParams) (p : Prefetcher V) (second : Bool) (current n : ℤ) :
    Option (Prefetcher V × PrefetcherEvent) :=
  if GoesOn c p current n then
    let n := i32 (n + p.detector.stride)
    if c.numFrames ≤ n then some (p.endSchedule second current n, .quiet)
    else
      (p.lookup n false).map fun (outcome, p) =>
        let p := { p with caller := .scheduling second current n }
        match outcome with
        | .notFound handle =>
          ({ p with runningWorkers := p.runningWorkers + 1, jobs := ⟨n, handle⟩ :: p.jobs },
            .lookedUp n true)
        | .foundAndReady _ | .noCache | .foundButNotAvail | .waiting _ => (p, .lookedUp n false)
  else some (p.endSchedule second current n, .quiet)

/-- The outcome of the lookup of the requested frame. -/
def settle (p : Prefetcher V) (current prefetchPos : ℤ) : LruLookup V → Prefetcher V
  | .notFound handle => { p with caller := .producing current prefetchPos (some handle) }
  | .noCache => { p with caller := .producing current prefetchPos none }
  | .waiting entry => { p with caller := .waiting current prefetchPos entry }
  | .foundAndReady _ | .foundButNotAvail =>
    { p with caller := .scheduling true current prefetchPos }

/-- After `GetFrame` of the child. An exception leaves the call. -/
def produce (p : Prefetcher V) (current prefetchPos : ℤ) (handle : Option EntryPtr)
    (child : Option V) : Option (Prefetcher V) :=
  let caller := if child.isSome then .scheduling true current prefetchPos else .idle
  match handle with
  | some handle => (p.finish handle child).map fun p => { p with caller := caller }
  | none => some { p with caller := caller }

/-- One step of a thread. -/
def step (c : PrefetchParams) (p : Prefetcher V) :
    PrefetcherAction V → Option (Prefetcher V × PrefetcherEvent)
  | .getFrame n suppressed =>
    match p.caller with
    | .idle =>
      if suppressed then some (p, .quiet)
      else
        let p := { p with detector := p.detector.detect n }
        if p.workerExceptionPresent then some (p, .quiet)
        else some ({ p with caller := .scheduling false n n }, .quiet)
    | _ => none
  | .proceed child =>
    match p.caller with
    | .idle => none
    | .scheduling second current n => p.schedule c second current n
    | .lookingUp current prefetchPos =>
      (p.lookup current true).map fun (outcome, p) =>
        (p.settle current prefetchPos outcome, .lookedUp current false)
    | .waiting current prefetchPos entry =>
      (p.wakeUp entry).map fun (outcome, p) => (p.settle current prefetchPos outcome, .quiet)
    | .producing current prefetchPos handle =>
      (p.produce current prefetchPos handle child).map fun p => (p, .quiet)
  | .work job child =>
    if job ∈ p.jobs then
      (p.finish job.handle child).map fun p =>
        ({ p with jobs := p.jobs.erase job, leaving := child.isNone :: p.leaving }, .quiet)
    else none
  | .leave failed =>
    if failed ∈ p.leaving then
      some ({ p with
        leaving := p.leaving.erase failed
        workerExceptionPresent := p.workerExceptionPresent || failed
        runningWorkers := p.runningWorkers - 1 }, .quiet)
    else none

/-- Requests are for frames of the clip, and leave room for the pattern that is followed after
them, unless the call ends before anything is scheduled. -/
def StaysInside (c : PrefetchParams) (p : Prefetcher V) : PrefetcherAction V → Prop
  | .getFrame n suppressed => (0 ≤ n ∧ n < c.numFrames) ∧
    (suppressed = false → p.workerExceptionPresent = false →
      c.LeavesRoom n (p.detector.followed n))
  | .proceed _ | .work _ _ | .leave _ => True

instance (c : PrefetchParams) (p : Prefetcher V) :
    (action : PrefetcherAction V) → Decidable (StaysInside c p action)
  | .getFrame _ _ => inferInstanceAs (Decidable (_ ∧ _))
  | .proceed _ | .work _ _ | .leave _ => inferInstanceAs (Decidable True)

/-- The frames that were looked up or scheduled are frames of the clip, and no frame has
two jobs. -/
structure Bounded (c : PrefetchParams) (history : List PrefetcherEvent) (p : Prefetcher V) :
    Prop where
  frames : ∀ frame scheduled, .lookedUp frame scheduled ∈ history →
    0 ≤ frame ∧ frame < c.numFrames
  once : (p.jobs.map PrefetcherJob.frame).Nodup

end Prefetcher

end AviSynth
