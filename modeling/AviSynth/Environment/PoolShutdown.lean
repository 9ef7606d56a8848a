import AviSynth.Environment.ThreadPoolRuns

/-!
# The end of a thread pool

When a call of `Finish` has returned, no thread is left. What remains in the queue is
collected by a call that is still under way; the calls cannot get stuck.
-/

namespace AviSynth

open Counting Transition

/-- A thread that is in the pool takes its next step. -/
def PoolAction.ofThread : PoolAction → Bool
  | .worker _ _ | .producer _ | .finisher _ => true
  | _ => false

namespace ThreadPool

variable {s t : ThreadPool} {event : PoolEvent} {history : List PoolEvent} {nThreads : ℕ}

/-- Some call of `Finish` has returned. -/
def Returned (history : List PoolEvent) : Prop := ∃ ret, .returned ret ∈ history

/-- The queue of a cancelled pool is empty, or a call of `Finish` will empty it. -/
def Settled (s : ThreadPool) : Prop :=
  s.finished = true → s.msgQueue.contents = [] ∨
    ∃ finisher ∈ s.finishers, PoolFinisher.pastFinish finisher = true

theorem Moves.settled (h : Moves s t event) (hs : s.Settled) : t.Settled := by
  intro hfinished
  have hkept : ∀ {finisher : PoolFinisher}, finisher ∈ t.finishers →
      PoolFinisher.pastFinish finisher = true → t.msgQueue.contents = [] ∨
        ∃ finisher ∈ t.finishers, PoolFinisher.pastFinish finisher = true :=
    fun hmem hpast => .inr ⟨_, hmem, hpast⟩
  cases h with
  | finish =>
    obtain hempty | ⟨finisher, hmem, hpast⟩ := hs hfinished
    · exact .inl hempty
    · exact hkept (List.mem_cons_of_mem _ hmem) hpast
  | take _ _ hfalse | push _ _ hfalse => exact absurd (hfalse.symm.trans hfinished) (by decide)
  | leave =>
    obtain hempty | ⟨finisher, hmem, hpast⟩ := hs hfinished
    · exact .inl hempty
    · dsimp only
      split
      · refine .inr ⟨finisher.notified, List.mem_map_of_mem hmem, ?_⟩
        cases finisher <;> simp_all [PoolFinisher.notified, PoolFinisher.pastFinish]
      · exact .inr ⟨finisher, hmem, hpast⟩
  | returnNone hfinisher | enter hfinisher =>
    obtain hempty | ⟨finisher, hmem, hpast⟩ := hs hfinished
    · exact .inl hempty
    · have hne : finisher ≠ .entering := by
        rintro rfl
        simp [PoolFinisher.pastFinish] at hpast
      exact hkept (List.mem_append_right _ ((List.mem_erase_of_ne hne).mpr hmem)) hpast
  | cancelAll | cancelAgain | collect | wait | again | drain | wakeFinisher =>
    exact hkept List.mem_cons_self rfl
  | return_ _ hempty => exact .inl hempty
  | _ => exact hs hfinished

/-- Without threads there are no workers. -/
theorem Staffed.workers_nil (h : Staffed nThreads s) (hrunning : s.numRunning = 0) :
    s.workers = [] := by
  rw [h.running] at hrunning
  exact List.length_eq_zero_iff.mp hrunning

/-- Calls of `Finish` return when no thread runs, and none is started. -/
theorem Moves.returned (h : Moves s t event) (hstaffed : Staffed nThreads s)
    (hs : Returned history → s.numRunning = 0) :
    Returned (event :: history) → t.numRunning = 0 := by
  rintro ⟨ret, hret⟩
  obtain heq | hret := List.mem_cons.mp hret
  · subst heq
    cases h with
    | returnNone _ _ hrunning => exact hrunning
    | return_ hfinisher => exact hstaffed.drained _ hfinisher
  · have hrunning := hs ⟨ret, hret⟩
    cases h with
    | leave => simp only [hrunning]
    | _ => exact hrunning

/-- Without threads no job is pushed, taken by a worker or executed. -/
theorem Moves.nothingDone (h : Moves s t event) (hstaffed : Staffed nThreads s)
    (hrunning : s.numRunning = 0) :
    event.pushes = [] ∧ event.workerTakes = [] ∧ event.executions = [] := by
  have hnobody := hstaffed.workers_nil hrunning
  cases h with
  | take hworker | execute hworker =>
    rw [hnobody] at hworker
    exact absurd hworker List.not_mem_nil
  | push _ _ hfalse hpush =>
    have hzero : nThreads = 0 := by
      rw [← (hstaffed.uncancelled hfalse).1, hnobody, List.length_nil]
    have hfull : s.msgQueue.full = true := by
      have hcapacity := hstaffed.capacity
      have hsize := s.msgQueue.size_le
      simp only [CircularBuffer.full, decide_eq_true_eq]
      omega
    rw [CircularBuffer.pushFront_none.mpr hfull] at hpush
    simp at hpush
  | _ => exact ⟨rfl, rfl, rfl⟩

/-- What holds in every run. -/
structure Sound (nThreads : ℕ) (history : List PoolEvent) (s : ThreadPool) : Prop where
  ledger : Ledger history s
  staffed : Staffed nThreads s
  wakesWorkers : s.WakesWorkers
  wakesProducers : s.WakesProducers
  settled : s.Settled
  returned : Returned history → s.numRunning = 0

theorem Sound.initial (nThreads : ℕ) : Sound nThreads [] (initial nThreads) where
  ledger := ⟨rfl, fun job => by simp [ThreadPool.initial, List.flatMap_replicate, PoolWorker.jobs],
    fun _ => rfl, fun _ => by simp [ThreadPool.initial, pushes]⟩
  staffed := {
    running := List.length_replicate.symm
    capacity := rfl
    uncancelled := fun _ => ⟨List.length_replicate, by simp [ThreadPool.initial]⟩
    awake := fun h => by simp [ThreadPool.initial] at h
    mutex := rfl
    finished := fun _ hmem => by simp [ThreadPool.initial] at hmem
    drained := fun _ hmem => by simp [ThreadPool.initial] at hmem
    waiting := fun hmem => by simp [ThreadPool.initial] at hmem }
  wakesWorkers hmem := by simp [ThreadPool.initial] at hmem
  wakesProducers job hmem := by simp [ThreadPool.initial] at hmem
  settled h := by simp [ThreadPool.initial] at h
  returned := by rintro ⟨ret, hret⟩; simp at hret

theorem Sound.step (h : Sound nThreads history s) (hmoves : Moves s t event) :
    Sound nThreads (event :: history) t :=
  have hstaffed := h.staffed.step hmoves
  ⟨h.ledger.step hmoves, hstaffed, hmoves.wakesWorkers h.wakesWorkers h.staffed hstaffed,
    hmoves.wakesProducers h.wakesProducers h.staffed hstaffed, hmoves.settled h.settled,
    hmoves.returned h.staffed h.returned⟩

/-- A thread that is in the pool can go on, without being woken for no reason. -/
def CanGoOn (s : ThreadPool) : Prop :=
  ∃ action : PoolAction, action.ofThread = true ∧ (s.step action).isSome = true

theorem canGoOn_producer {producer : PoolProducer} (hmem : producer ∈ s.producers)
    (hawake : ∀ job, producer ≠ .asleep job) : s.CanGoOn := by
  refine ⟨.producer producer, rfl, ?_⟩
  rw [step, if_pos hmem]
  cases producer with
  | asleep job => exact absurd rfl (hawake job)
  | _ => rfl

/-- A worker that has taken a job notifies a producer if one sleeps. -/
theorem canGoOn_worker {worker : PoolWorker} (hmem : worker ∈ s.workers)
    (hawake : worker ≠ .asleep) (hleaves : worker = .cancelled → s.mutex = false) : s.CanGoOn := by
  suffices hgoesOn : ∃ sleeper, (s.goOnWorker worker sleeper).isSome = true by
    obtain ⟨sleeper, hsome⟩ := hgoesOn
    exact ⟨.worker worker sleeper, rfl, by rwa [step, if_pos hmem]⟩
  cases worker with
  | asleep => exact absurd rfl hawake
  | taken job =>
    by_cases hsleeper : ∃ sleeper, .asleep sleeper ∈ s.producers
    · obtain ⟨sleeper, hsleeper⟩ := hsleeper
      exact ⟨some sleeper, by simp [goOnWorker, notifyProducer, hsleeper]⟩
    · have hnobody : s.producers.any PoolProducer.isAsleep = false := by
        rw [List.any_eq_false]
        intro producer hproducer
        cases producer with
        | asleep sleeper => exact absurd ⟨sleeper, hproducer⟩ hsleeper
        | _ => simp [PoolProducer.isAsleep]
      exact ⟨none, by simp [goOnWorker, notifyProducer, hnobody]⟩
  | cancelled => exact ⟨none, by simp [goOnWorker, hleaves rfl]⟩
  | popping | woken | running job => exact ⟨none, rfl⟩

theorem canGoOn_finisher {finisher : PoolFinisher} (hmem : finisher ∈ s.finishers)
    (hawake : finisher ≠ .asleep) (hmutex : finisher.inMutex = true ∨ s.mutex = false) :
    s.CanGoOn := by
  refine ⟨.finisher finisher, rfl, ?_⟩
  rw [step, if_pos hmem]
  cases finisher with
  | asleep => exact absurd rfl hawake
  | entering | woken =>
    have hfree : s.mutex = false := hmutex.resolve_left (by simp [PoolFinisher.inMutex])
    simp only [goOnFinisher, hfree, Bool.false_eq_true, if_false]
    try split
    all_goals rfl
  | finishing => rfl
  | testing =>
    simp only [goOnFinisher]
    split <;> rfl
  | draining ret =>
    simp only [goOnFinisher]
    split <;> rfl

section

variable (h : Sound nThreads history s)
include h

/-- When all calls of `Finish` have returned the queue is empty. -/
theorem Sound.contents_nil (hreturned : Returned history)
    (hnobody : s.finishers = []) : s.msgQueue.contents = [] := by
  cases hfinished : s.finished with
  | true =>
    refine (h.settled hfinished).resolve_right ?_
    rintro ⟨finisher, hmem, -⟩
    rw [hnobody] at hmem
    exact absurd hmem List.not_mem_nil
  | false =>
    have hlength := (h.staffed.uncancelled hfinished).1
    rw [h.staffed.workers_nil (h.returned hreturned), List.length_nil] at hlength
    have hcapacity := h.staffed.capacity
    have hsize := s.msgQueue.size_le
    exact CircularBuffer.contents_of_empty (by omega)

/-- While the pool is not cancelled, jobs in the queue keep some thread going. -/
theorem Sound.canGoOn_queue (hthreads : nThreads ≠ 0)
    (hfinished : s.finished = false) (hjobs : s.msgQueue.contents ≠ []) : s.CanGoOn := by
  obtain ⟨hlength, hcancelled⟩ := h.staffed.uncancelled hfinished
  by_cases hall : ∀ worker ∈ s.workers, worker = .asleep
  · have hworkers : s.workers ≠ [] := by
      rintro hnil
      rw [hnil, List.length_nil] at hlength
      exact hthreads hlength.symm
    obtain ⟨worker, hworker⟩ := List.exists_mem_of_ne_nil _ hworkers
    have hwoken : s.workers.countP PoolWorker.isWoken = 0 := by
      rw [List.countP_eq_zero]
      intro other hother
      rw [hall other hother]
      decide
    have hpos : 0 < s.msgQueue.contents.length := List.length_pos_iff.mpr hjobs
    have hwakes := h.wakesWorkers (hall worker hworker ▸ hworker)
    have hpushed : 0 < s.producers.countP PoolProducer.isPushed := by omega
    obtain ⟨producer, hproducer, hispushed⟩ := List.countP_pos_iff.mp hpushed
    refine canGoOn_producer hproducer fun job => ?_
    rintro rfl
    simp [PoolProducer.isPushed] at hispushed
  · simp only [not_forall] at hall
    obtain ⟨worker, hworker, hawake⟩ := hall
    refine canGoOn_worker hworker hawake ?_
    rintro rfl
    exact absurd hworker hcancelled

/-- Producers that are to push a job keep some thread going. -/
theorem Sound.canGoOn_push (hthreads : nThreads ≠ 0)
    {producer : PoolProducer} (hproducer : producer ∈ s.producers) : s.CanGoOn := by
  by_cases hall : ∀ producer ∈ s.producers, ∃ job, producer = .asleep job
  · obtain ⟨job, rfl⟩ := hall producer hproducer
    cases hfinished : s.finished with
    | true => exact absurd hproducer ((h.staffed.awake hfinished).2 job)
    | false =>
      by_cases hempty : s.msgQueue.contents = []
      · have hwoken : s.producers.countP PoolProducer.isWoken = 0 := by
          rw [List.countP_eq_zero]
          intro other hother
          obtain ⟨job, rfl⟩ := hall other hother
          simp [PoolProducer.isWoken]
        have hwakes := h.wakesProducers job hproducer
        rw [hempty, List.length_nil, hwoken, h.staffed.capacity] at hwakes
        have htaken : 0 < s.workers.countP PoolWorker.isTaken := by omega
        obtain ⟨worker, hworker, histaken⟩ := List.countP_pos_iff.mp htaken
        refine canGoOn_worker hworker ?_ ?_ <;> rintro rfl <;>
          simp [PoolWorker.isTaken] at histaken
      · exact h.canGoOn_queue hthreads hfinished hempty
  · simp only [not_forall, not_exists] at hall
    obtain ⟨other, hother, hawake⟩ := hall
    exact canGoOn_producer hother hawake

/-- A call of `Finish` is not stuck. -/
theorem Sound.canGoOn_finish {finisher : PoolFinisher}
    (hfinisher : finisher ∈ s.finishers) : s.CanGoOn := by
  cases hmutex : s.mutex with
  | true =>
    -- Another call has the mutex.
    have hin : 0 < s.finishers.countP PoolFinisher.inMutex := by
      rw [h.staffed.mutex, hmutex]
      decide
    obtain ⟨inside, hinside, hinMutex⟩ := List.countP_pos_iff.mp hin
    refine canGoOn_finisher hinside ?_ (.inl hinMutex)
    rintro rfl
    simp [PoolFinisher.inMutex] at hinMutex
  | false =>
    by_cases hasleep : finisher = .asleep
    · subst hasleep
      -- It waits for a thread that runs.
      have hfinished := h.staffed.finished _ hfinisher rfl
      have hrunning := h.staffed.waiting hfinisher
      rw [h.staffed.running] at hrunning
      obtain ⟨worker, hworker⟩ := List.exists_mem_of_length_pos (Nat.pos_of_ne_zero hrunning)
      refine canGoOn_worker hworker ?_ fun _ => hmutex
      rintro rfl
      exact (h.staffed.awake hfinished).1 hworker
    · exact canGoOn_finisher hfinisher hasleep (.inr hmutex)

/-- As long as there is a job in the queue or to be pushed, or a call of `Finish` has not
returned, some thread can go on. -/
theorem Sound.canGoOn (hthreads : nThreads ≠ 0)
    (hbusy : s.msgQueue.contents ≠ [] ∨ s.producers ≠ [] ∨ s.finishers ≠ []) : s.CanGoOn := by
  obtain hjobs | hproducers | hfinishers := hbusy
  · cases hfinished : s.finished with
    | true =>
      obtain hempty | ⟨finisher, hfinisher, -⟩ := h.settled hfinished
      · exact absurd hempty hjobs
      · exact h.canGoOn_finish hfinisher
    | false => exact h.canGoOn_queue hthreads hfinished hjobs
  · obtain ⟨producer, hproducer⟩ := List.exists_mem_of_ne_nil _ hproducers
    exact h.canGoOn_push hthreads hproducer
  · obtain ⟨finisher, hfinisher⟩ := List.exists_mem_of_ne_nil _ hfinishers
    exact h.canGoOn_finish hfinisher

end

end ThreadPool

open ThreadPool

/-- Jobs leave the queue of a thread pool in the order in which they were pushed, and
each is in one place. When a call of `Finish` has returned nothing is pushed, taken by a
worker or executed any more, and when no other call is under way each job has been
executed once or handed back once. As long as there is something to do some thread can
go on. -/
theorem threadPool_jobs (nThreads : ℕ) {history : List PoolEvent} {s : ThreadPool}
    (hrun : Run ThreadPool.step always (ThreadPool.initial nThreads) history s) :
    pushes history = takes history ++ s.msgQueue.contents ∧
    (∀ job ∈ pushes history, s.msgQueue.contents.count job +
      (s.workers.flatMap PoolWorker.jobs).count job +
      (s.finishers.flatMap PoolFinisher.jobs).count job +
      (history.flatMap PoolEvent.executions).count job +
      (history.flatMap PoolEvent.returns).count job = 1) ∧
    (Returned history → s.finishers = [] → ∀ job ∈ pushes history,
      (history.flatMap PoolEvent.executions).count job +
        (history.flatMap PoolEvent.returns).count job = 1) ∧
    AllEvents (fun earlier event => Returned earlier →
      event.pushes = [] ∧ event.workerTakes = [] ∧ event.executions = []) history ∧
    (nThreads ≠ 0 → s.msgQueue.contents ≠ [] ∨ s.producers ≠ [] ∨ s.finishers ≠ [] →
      s.CanGoOn) := by
  have hsound : ThreadPool.Sound nThreads history s :=
    hrun.invariant (fun history s => ThreadPool.Sound nThreads history s)
      (ThreadPool.Sound.initial nThreads) fun hs _ hstep => hs.step (moves_of_step hstep)
  have hplace : ∀ job ∈ pushes history, s.msgQueue.contents.count job +
      (s.workers.flatMap PoolWorker.jobs).count job +
      (s.finishers.flatMap PoolFinisher.jobs).count job +
      (history.flatMap PoolEvent.executions).count job +
      (history.flatMap PoolEvent.returns).count job = 1 := by
    intro job hjob
    have hpushed : 0 < (pushes history).count job := List.count_pos_iff.mpr hjob
    have horder := congrArg (List.count job) hsound.ledger.order
    rw [List.count_append, count_takes] at horder
    have honce := hsound.ledger.once job
    have hexecuted := hsound.ledger.executed job
    have hreturned := hsound.ledger.returned job
    split_ifs at honce <;> omega
  refine ⟨hsound.ledger.order, hplace, fun hreturned hnobody job hjob => ?_, ?_, hsound.canGoOn⟩
  · have hrunning := hsound.returned hreturned
    have hworkers := hsound.staffed.workers_nil hrunning
    have hempty := hsound.contents_nil hreturned hnobody
    have hone := hplace job hjob
    rw [hempty, hworkers, hnobody] at hone
    simpa using hone
  · refine hrun.allEvents (fun history s => ThreadPool.Sound nThreads history s)
      (ThreadPool.Sound.initial nThreads) ?_
    rintro history s t a event hs - hstep
    have hmoves := moves_of_step hstep
    exact ⟨hs.step hmoves, fun hreturned =>
      hmoves.nothingDone hs.staffed (hs.returned hreturned)⟩

/-- A pool with one thread is finished while the first of two jobs runs. -/
theorem threadPool_jobs_two : ∃ (history : List PoolEvent) (s : ThreadPool),
    takes history = [0, 1] ∧ history.flatMap PoolEvent.executions = [0] ∧
    history.flatMap PoolEvent.returns = [1] ∧
    pushes history = takes history ++ s.msgQueue.contents ∧
    (∀ job ∈ pushes history, s.msgQueue.contents.count job +
      (s.workers.flatMap PoolWorker.jobs).count job +
      (s.finishers.flatMap PoolFinisher.jobs).count job +
      (history.flatMap PoolEvent.executions).count job +
      (history.flatMap PoolEvent.returns).count job = 1) ∧
    (Returned history → s.finishers = [] → ∀ job ∈ pushes history,
      (history.flatMap PoolEvent.executions).count job +
        (history.flatMap PoolEvent.returns).count job = 1) ∧
    AllEvents (fun earlier event => Returned earlier →
      event.pushes = [] ∧ event.workerTakes = [] ∧ event.executions = []) history ∧
    (1 ≠ 0 → s.msgQueue.contents ≠ [] ∨ s.producers ≠ [] ∨ s.finishers ≠ [] → s.CanGoOn) := by
  obtain ⟨history, s, hrun, hcheck⟩ := exists_run ThreadPool.step always (ThreadPool.initial 1)
    [.queueJob, .producer (.pushing 0), .producer .pushed,
      .queueJob, .producer (.pushing 1), .producer .pushed,
      .worker .popping none, .worker (.taken 0) none,
      .finish, .finisher .entering, .finisher .finishing, .finisher .testing,
      .worker (.running 0) none, .worker .popping none, .worker .cancelled none,
      .finisher .woken, .finisher .testing, .finisher (.draining []), .finisher (.draining [1])]
    (fun history _ => takes history = [0, 1] ∧ history.flatMap PoolEvent.executions = [0] ∧
      history.flatMap PoolEvent.returns = [1]) (by decide)
  obtain ⟨htakes, hexecutions, hreturns⟩ := of_decide_eq_true hcheck
  exact ⟨history, s, htakes, hexecutions, hreturns, threadPool_jobs 1 hrun⟩

end AviSynth
