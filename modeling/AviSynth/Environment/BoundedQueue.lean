import AviSynth.Library.Counting
import AviSynth.Library.Runs
import Mathlib.Data.List.Range
import Mathlib.Data.Nat.ModEq

/-!
# The bounded queue

The container of `mpmc_bounded_queue` is an array that is filled around its end. The
position behind the newest item follows from the position of the oldest one and the
number of items.
-/

namespace AviSynth

/-- The class `circular_buffer`. -/
structure CircularBuffer (T : Type) where
  array : ℕ → T
  maxSize : ℕ
  /-- Where the next item goes. -/
  head : ℕ
  /-- Where the oldest item is. -/
  tail : ℕ
  size : ℕ
  size_le : size ≤ maxSize
  tail_lt : 0 < maxSize → tail < maxSize
  head_eq : 0 < maxSize → head = (tail + size) % maxSize

namespace CircularBuffer

variable {T : Type} {b : CircularBuffer T}

/-- An empty buffer. -/
def new [Inhabited T] (capacity : ℕ) : CircularBuffer T where
  array := fun _ => default
  maxSize := capacity
  head := 0
  tail := 0
  size := 0
  size_le := Nat.zero_le _
  tail_lt := id
  head_eq := fun _ => (Nat.zero_mod _).symm

/-- Nothing is stored. -/
def empty (b : CircularBuffer T) : Bool := b.size = 0

/-- There is no room. -/
def full (b : CircularBuffer T) : Bool := b.size = b.maxSize

/-- `push_front`, unless the buffer is full. -/
def pushFront (b : CircularBuffer T) (item : T) : Option (CircularBuffer T) :=
  if h : b.size = b.maxSize then none
  else some { b with
    array := Function.update b.array b.head item
    head := (b.head + 1) % b.maxSize
    size := b.size + 1
    size_le := Nat.lt_of_le_of_ne b.size_le h
    head_eq := fun hpos => by rw [b.head_eq hpos, Nat.mod_add_mod, Nat.add_assoc] }

/-- `pop_back`, unless the buffer is empty. -/
def popBack (b : CircularBuffer T) : Option (T × CircularBuffer T) :=
  if h : b.size = 0 then none
  else some (b.array b.tail, { b with
    tail := (b.tail + 1) % b.maxSize
    size := b.size - 1
    size_le := (Nat.sub_le _ _).trans b.size_le
    tail_lt := fun hpos => Nat.mod_lt _ hpos
    head_eq := fun hpos => by
      rw [b.head_eq hpos, Nat.mod_add_mod]
      congr 1
      omega })

/-- The items from the oldest to the newest. -/
def contents (b : CircularBuffer T) : List T :=
  (List.range b.size).map fun i => b.array ((b.tail + i) % b.maxSize)

@[simp] theorem length_contents (b : CircularBuffer T) : b.contents.length = b.size := by
  simp [contents]

theorem contents_of_empty (h : b.size = 0) : b.contents = [] := by
  rw [← List.length_eq_zero_iff, length_contents, h]

/-- The next position is not one of the positions in use. -/
theorem position_ne_head (b : CircularBuffer T) {i : ℕ} (hi : i < b.size)
    (hfull : b.size ≠ b.maxSize) : (b.tail + i) % b.maxSize ≠ b.head := by
  have hsize := b.size_le
  have hpos : 0 < b.maxSize := by omega
  have htail := b.tail_lt hpos
  rw [b.head_eq hpos]
  intro heq
  have hdvd : b.maxSize ∣ b.tail + b.size - (b.tail + i) :=
    (Nat.modEq_iff_dvd' (by omega)).mp heq
  have hle := Nat.le_of_dvd (by omega) hdvd
  omega

theorem pushFront_none {item : T} :
    b.pushFront item = none ↔ b.full = true := by
  simp [pushFront, full]

/-- A pushed item is the newest one. -/
theorem pushFront_contents {b c : CircularBuffer T} {item : T} (h : b.pushFront item = some c) :
    c.contents = b.contents ++ [item] ∧ c.maxSize = b.maxSize := by
  unfold pushFront at h
  split at h
  · simp at h
  · next hfull =>
    obtain rfl := Option.some.inj h
    refine ⟨?_, rfl⟩
    have hsize := b.size_le
    have hpos : 0 < b.maxSize := by omega
    simp only [contents, List.range_succ, List.map_append, List.map_cons, List.map_nil]
    congr 1
    · refine List.map_congr_left fun i hi => ?_
      exact Function.update_of_ne (b.position_ne_head (List.mem_range.mp hi) hfull) _ _
    · rw [← b.head_eq hpos, Function.update_self]

theorem popBack_none : b.popBack = none ↔ b.contents = [] := by
  rw [← List.length_eq_zero_iff, length_contents]
  simp [popBack]

/-- The oldest item is popped. -/
theorem popBack_contents {b c : CircularBuffer T} {item : T} (h : b.popBack = some (item, c)) :
    b.contents = item :: c.contents ∧ c.maxSize = b.maxSize := by
  unfold popBack at h
  split at h
  · simp at h
  · next hempty =>
    obtain ⟨⟩ := Option.some.inj h
    refine ⟨?_, rfl⟩
    have hsize := b.size_le
    have htail := b.tail_lt (by omega)
    obtain ⟨n, hn⟩ := Nat.exists_eq_succ_of_ne_zero hempty
    simp only [contents, hn, Nat.succ_eq_add_one, List.range_succ_eq_map, List.map_cons,
      List.map_map, Nat.add_zero, Nat.mod_eq_of_lt htail, Nat.add_sub_cancel]
    congr 1
    refine List.map_congr_left fun i _ => ?_
    rw [Function.comp_apply, Nat.mod_add_mod, Nat.succ_eq_add_one, Nat.add_right_comm,
      Nat.add_assoc]

end CircularBuffer

/-!
## The thread pool

Producers queue jobs, workers take and execute them, and `Finish` cancels the pool and
hands back the jobs that nobody has executed. The queue has a mutex with two condition
variables, the pool has another one. A step is one critical section, or what a thread
does between two of them.
-/

open Counting

/-- A thread in `ThreadFunc`. -/
inductive PoolWorker where
  /-- In `pop_back`, before the mutex of the queue. -/
  | popping
  /-- There, waiting for `m_not_empty`. -/
  | asleep
  | woken
  /-- There, with a job, before it notifies a producer. -/
  | taken (job : ℕ)
  | running (job : ℕ)
  /-- The pool has been cancelled; before the mutex of the pool. -/
  | cancelled
  deriving DecidableEq

/-- A call of `QueueJob`. Jobs are numbered in the order of these calls. -/
inductive PoolProducer where
  /-- In `push_front`, before the mutex of the queue. -/
  | pushing (job : ℕ)
  /-- There, waiting for `m_not_full`. -/
  | asleep (job : ℕ)
  | woken (job : ℕ)
  /-- The job is in the queue; before it notifies a worker. -/
  | pushed
  deriving DecidableEq

/-- A call of `Finish`. -/
inductive PoolFinisher where
  /-- Before the mutex of the pool. -/
  | entering
  /-- With the mutex, before `finish` of the queue. -/
  | finishing
  /-- With the mutex, before the test of `NumRunning`. -/
  | testing
  /-- Waiting for `FinishCond`, without the mutex. -/
  | asleep
  | woken
  /-- With the mutex, collecting what is left in the queue. -/
  | draining (ret : List ℕ)
  deriving DecidableEq

namespace PoolWorker

/-- The job that a worker has. -/
def jobs : PoolWorker → List ℕ
  | taken job | running job => [job]
  | _ => []

/-- `notify_all` of `m_not_empty`. -/
def notified : PoolWorker → PoolWorker
  | asleep => woken
  | worker => worker

end PoolWorker

namespace PoolProducer

/-- The job that is still to be pushed. -/
def jobs : PoolProducer → List ℕ
  | pushing job | asleep job | woken job => [job]
  | pushed => []

def isAsleep : PoolProducer → Bool
  | asleep _ => true
  | _ => false

/-- `notify_all` of `m_not_full`. -/
def notified : PoolProducer → PoolProducer
  | asleep job => woken job
  | producer => producer

end PoolProducer

namespace PoolFinisher

/-- The jobs that a call has collected. -/
def jobs : PoolFinisher → List ℕ
  | draining ret => ret
  | _ => []

/-- The call has the mutex of the pool. -/
def inMutex : PoolFinisher → Bool
  | finishing | testing | draining _ => true
  | _ => false

/-- `notify_all` of `FinishCond`. -/
def notified : PoolFinisher → PoolFinisher
  | asleep => woken
  | finisher => finisher

end PoolFinisher

/-- `ThreadPoolPimpl`, and the threads that use it. -/
structure ThreadPool where
  msgQueue : CircularBuffer ℕ
  /-- The flag of the queue. -/
  finished : Bool
  /-- The mutex of the pool is taken. -/
  mutex : Bool
  numRunning : ℕ
  workers : List PoolWorker
  producers : List PoolProducer
  finishers : List PoolFinisher
  nextJob : ℕ

/-- What a step reports. -/
inductive PoolEvent where
  | quiet
  | pushed (job : ℕ)
  /-- `QueueJob` throws. -/
  | refused (job : ℕ)
  | taken (job : ℕ)
  | executed (job : ℕ)
  /-- `Finish` has taken a job out of the queue. -/
  | drained (job : ℕ)
  /-- `Finish` returns. -/
  | returned (ret : List ℕ)
  deriving DecidableEq

/-- What a thread can do. -/
inductive PoolAction where
  | queueJob
  | finish
  /-- A worker goes on; `sleeper` is the producer that `notify_one` wakes. -/
  | worker (worker : PoolWorker) (sleeper : Option ℕ)
  | producer (producer : PoolProducer)
  | finisher (finisher : PoolFinisher)
  /-- A condition variable may wake a thread without being notified. -/
  | wakeWorker
  | wakeProducer (job : ℕ)
  | wakeFinisher

namespace ThreadPool

/-- The constructor: all threads have been started. -/
def initial (nThreads : ℕ) : ThreadPool where
  msgQueue := .new (nThreads * 6)
  finished := false
  mutex := false
  numRunning := nThreads
  workers := List.replicate nThreads .popping
  producers := []
  finishers := []
  nextJob := 0

/-- `notify_one` of `m_not_full`: one of the producers that wait, if there are any. -/
def notifyProducer (s : ThreadPool) (sleeper : Option ℕ) : Option ThreadPool :=
  match sleeper with
  | some job =>
    if .asleep job ∈ s.producers then
      some { s with producers := goesOn s.producers (.asleep job) (some (.woken job)) }
    else none
  | none => if s.producers.any PoolProducer.isAsleep then none else some s

/-- `notify_one` of `m_not_empty`. -/
def notifyWorker (s : ThreadPool) : ThreadPool :=
  if .asleep ∈ s.workers then { s with workers := goesOn s.workers .asleep (some .woken) } else s

/-- The critical section of `pop_back`. -/
def popBack (s : ThreadPool) (worker : PoolWorker) : ThreadPool × PoolEvent :=
  if s.finished then
    ({ s with workers := goesOn s.workers worker (some .cancelled) }, .quiet)
  else
    match s.msgQueue.popBack with
    | none => ({ s with workers := goesOn s.workers worker (some .asleep) }, .quiet)
    | some (job, queue) =>
      ({ s with msgQueue := queue, workers := goesOn s.workers worker (some (.taken job)) },
        .taken job)

/-- The critical section of `push_front`. -/
def pushFront (s : ThreadPool) (producer : PoolProducer) (job : ℕ) : ThreadPool × PoolEvent :=
  if s.finished then ({ s with producers := goesOn s.producers producer none }, .refused job)
  else
    match s.msgQueue.pushFront job with
    | none => ({ s with producers := goesOn s.producers producer (some (.asleep job)) }, .quiet)
    | some queue =>
      ({ s with msgQueue := queue, producers := goesOn s.producers producer (some .pushed) },
        .pushed job)

/-- The next step of a worker. -/
def goOnWorker (s : ThreadPool) (worker : PoolWorker) (sleeper : Option ℕ) :
    Option (ThreadPool × PoolEvent) :=
  match worker with
  | .popping | .woken => some (s.popBack worker)
  | .asleep => none
  | .taken job =>
    (s.notifyProducer sleeper).map fun s =>
      ({ s with workers := goesOn s.workers worker (some (.running job)) }, .quiet)
  | .running job =>
    some ({ s with workers := goesOn s.workers worker (some .popping) }, .executed job)
  | .cancelled =>
    if s.mutex then none
    else
      let numRunning := s.numRunning - 1
      some ({ s with
        numRunning := numRunning
        workers := goesOn s.workers worker none
        finishers :=
          if numRunning = 0 then s.finishers.map PoolFinisher.notified else s.finishers }, .quiet)

/-- The next step of a call of `QueueJob`. -/
def goOnProducer (s : ThreadPool) (producer : PoolProducer) : Option (ThreadPool × PoolEvent) :=
  match producer with
  | .pushing job | .woken job => some (s.pushFront producer job)
  | .asleep _ => none
  | .pushed =>
    some ({ s.notifyWorker with producers := goesOn s.producers producer none }, .quiet)

/-- The next step of a call of `Finish`. -/
def goOnFinisher (s : ThreadPool) (finisher : PoolFinisher) : Option (ThreadPool × PoolEvent) :=
  match finisher with
  | .entering =>
    if s.mutex then none
    else if s.numRunning = 0 then
      some ({ s with finishers := goesOn s.finishers finisher none }, .returned [])
    else
      some ({ s with mutex := true, finishers := goesOn s.finishers finisher (some .finishing) },
        .quiet)
  | .finishing =>
    let s := if s.finished then s else { s with
      finished := true
      producers := s.producers.map PoolProducer.notified
      workers := s.workers.map PoolWorker.notified }
    some ({ s with finishers := goesOn s.finishers finisher (some .testing) }, .quiet)
  | .testing =>
    if s.numRunning = 0 then
      some ({ s with finishers := goesOn s.finishers finisher (some (.draining [])) }, .quiet)
    else
      some ({ s with mutex := false, finishers := goesOn s.finishers finisher (some .asleep) },
        .quiet)
  | .asleep => none
  | .woken =>
    if s.mutex then none
    else
      some ({ s with mutex := true, finishers := goesOn s.finishers finisher (some .testing) },
        .quiet)
  | .draining ret =>
    match s.msgQueue.popBack with
    | none =>
      some ({ s with mutex := false, finishers := goesOn s.finishers finisher none },
        .returned ret)
    | some (job, queue) =>
      some ({ s with
        msgQueue := queue
        finishers := goesOn s.finishers finisher (some (.draining (ret ++ [job]))) },
        .drained job)

/-- One step of a thread. -/
def step (s : ThreadPool) : PoolAction → Option (ThreadPool × PoolEvent)
  | .queueJob =>
    some ({ s with producers := .pushing s.nextJob :: s.producers, nextJob := s.nextJob + 1 },
      .quiet)
  | .finish => some ({ s with finishers := .entering :: s.finishers }, .quiet)
  | .worker worker sleeper =>
    if worker ∈ s.workers then s.goOnWorker worker sleeper else none
  | .producer producer => if producer ∈ s.producers then s.goOnProducer producer else none
  | .finisher finisher => if finisher ∈ s.finishers then s.goOnFinisher finisher else none
  | .wakeWorker =>
    if .asleep ∈ s.workers then
      some ({ s with workers := goesOn s.workers .asleep (some .woken) }, .quiet)
    else none
  | .wakeProducer job =>
    if .asleep job ∈ s.producers then
      some ({ s with producers := goesOn s.producers (.asleep job) (some (.woken job)) }, .quiet)
    else none
  | .wakeFinisher =>
    if .asleep ∈ s.finishers then
      some ({ s with finishers := goesOn s.finishers .asleep (some .woken) }, .quiet)
    else none

end ThreadPool

end AviSynth
