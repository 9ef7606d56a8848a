import AviSynth.Environment.BoundedQueue

/-!
# What one step of the thread pool can do

The steps with their guards, one for each branch of a critical section.
-/

namespace AviSynth

open Counting

namespace ThreadPool

/-- A worker before the critical section of `pop_back`. -/
def Pops (worker : PoolWorker) : Prop := worker = .popping ∨ worker = .woken

/-- A producer before the critical section of `push_front`. -/
def Pushes (producer : PoolProducer) (job : ℕ) : Prop :=
  producer = .pushing job ∨ producer = .woken job

/-- The steps. -/
inductive Moves (s : ThreadPool) : ThreadPool → PoolEvent → Prop where
  | queueJob : Moves s
      { s with producers := .pushing s.nextJob :: s.producers, nextJob := s.nextJob + 1 } .quiet
  | finish : Moves s { s with finishers := .entering :: s.finishers } .quiet
  | cancelled {worker} (hworker : worker ∈ s.workers) (hpops : Pops worker)
      (hfinished : s.finished = true) : Moves s
      { s with workers := goesOn s.workers worker (some .cancelled) } .quiet
  | empty {worker} (hworker : worker ∈ s.workers) (hpops : Pops worker)
      (hfinished : s.finished = false) (hempty : s.msgQueue.contents = []) : Moves s
      { s with workers := goesOn s.workers worker (some .asleep) } .quiet
  | take {worker job queue} (hworker : worker ∈ s.workers) (hpops : Pops worker)
      (hfinished : s.finished = false) (hpop : s.msgQueue.popBack = some (job, queue)) : Moves s
      { s with msgQueue := queue, workers := goesOn s.workers worker (some (.taken job)) }
      (.taken job)
  | notifyProducer {job sleeper} (hworker : .taken job ∈ s.workers)
      (hsleeper : .asleep sleeper ∈ s.producers) : Moves s
      { s with
        producers := goesOn s.producers (.asleep sleeper) (some (.woken sleeper))
        workers := goesOn s.workers (.taken job) (some (.running job)) } .quiet
  | notifyNoProducer {job} (hworker : .taken job ∈ s.workers)
      (hnobody : ∀ sleeper, .asleep sleeper ∉ s.producers) : Moves s
      { s with workers := goesOn s.workers (.taken job) (some (.running job)) } .quiet
  | execute {job} (hworker : .running job ∈ s.workers) : Moves s
      { s with workers := goesOn s.workers (.running job) (some .popping) } (.executed job)
  | leave (hworker : .cancelled ∈ s.workers) (hmutex : s.mutex = false) : Moves s
      { s with
        numRunning := s.numRunning - 1
        workers := goesOn s.workers .cancelled none
        finishers :=
          if s.numRunning - 1 = 0 then s.finishers.map PoolFinisher.notified
          else s.finishers } .quiet
  | refuse {producer job} (hproducer : producer ∈ s.producers) (hpushes : Pushes producer job)
      (hfinished : s.finished = true) : Moves s
      { s with producers := goesOn s.producers producer none } (.refused job)
  | full {producer job} (hproducer : producer ∈ s.producers) (hpushes : Pushes producer job)
      (hfinished : s.finished = false) (hfull : s.msgQueue.full = true) : Moves s
      { s with producers := goesOn s.producers producer (some (.asleep job)) } .quiet
  | push {producer job queue} (hproducer : producer ∈ s.producers) (hpushes : Pushes producer job)
      (hfinished : s.finished = false) (hpush : s.msgQueue.pushFront job = some queue) : Moves s
      { s with msgQueue := queue, producers := goesOn s.producers producer (some .pushed) }
      (.pushed job)
  | notifyWorker (hproducer : .pushed ∈ s.producers) (hsleeper : .asleep ∈ s.workers) : Moves s
      { s with
        workers := goesOn s.workers .asleep (some .woken)
        producers := goesOn s.producers .pushed none } .quiet
  | notifyNoWorker (hproducer : .pushed ∈ s.producers) (hnobody : .asleep ∉ s.workers) : Moves s
      { s with producers := goesOn s.producers .pushed none } .quiet
  | returnNone (hfinisher : .entering ∈ s.finishers) (hmutex : s.mutex = false)
      (hrunning : s.numRunning = 0) : Moves s
      { s with finishers := goesOn s.finishers .entering none } (.returned [])
  | enter (hfinisher : .entering ∈ s.finishers) (hmutex : s.mutex = false)
      (hrunning : s.numRunning ≠ 0) : Moves s
      { s with mutex := true, finishers := goesOn s.finishers .entering (some .finishing) } .quiet
  | cancelAll (hfinisher : .finishing ∈ s.finishers) (hfinished : s.finished = false) : Moves s
      { s with
        finished := true
        producers := s.producers.map PoolProducer.notified
        workers := s.workers.map PoolWorker.notified
        finishers := goesOn s.finishers .finishing (some .testing) } .quiet
  | cancelAgain (hfinisher : .finishing ∈ s.finishers) (hfinished : s.finished = true) : Moves s
      { s with finishers := goesOn s.finishers .finishing (some .testing) } .quiet
  | collect (hfinisher : .testing ∈ s.finishers) (hrunning : s.numRunning = 0) : Moves s
      { s with finishers := goesOn s.finishers .testing (some (.draining [])) } .quiet
  | wait (hfinisher : .testing ∈ s.finishers) (hrunning : s.numRunning ≠ 0) : Moves s
      { s with mutex := false, finishers := goesOn s.finishers .testing (some .asleep) } .quiet
  | again (hfinisher : .woken ∈ s.finishers) (hmutex : s.mutex = false) : Moves s
      { s with mutex := true, finishers := goesOn s.finishers .woken (some .testing) } .quiet
  | drain {ret job queue} (hfinisher : .draining ret ∈ s.finishers)
      (hpop : s.msgQueue.popBack = some (job, queue)) : Moves s
      { s with
        msgQueue := queue
        finishers := goesOn s.finishers (.draining ret) (some (.draining (ret ++ [job]))) }
      (.drained job)
  | return_ {ret} (hfinisher : .draining ret ∈ s.finishers) (hempty : s.msgQueue.contents = []) :
      Moves s { s with mutex := false, finishers := goesOn s.finishers (.draining ret) none }
      (.returned ret)
  | wakeWorker (hworker : .asleep ∈ s.workers) : Moves s
      { s with workers := goesOn s.workers .asleep (some .woken) } .quiet
  | wakeProducer {job} (hproducer : .asleep job ∈ s.producers) : Moves s
      { s with producers := goesOn s.producers (.asleep job) (some (.woken job)) } .quiet
  | wakeFinisher (hfinisher : .asleep ∈ s.finishers) : Moves s
      { s with finishers := goesOn s.finishers .asleep (some .woken) } .quiet

variable {s t : ThreadPool} {event : PoolEvent}

theorem moves_popBack {worker : PoolWorker} (hworker : worker ∈ s.workers) (hpops : Pops worker)
    (h : s.popBack worker = (t, event)) : Moves s t event := by
  unfold popBack at h
  split at h
  · next hfinished =>
    obtain ⟨rfl, rfl⟩ := Prod.mk.inj h
    exact .cancelled hworker hpops hfinished
  · next hfinished =>
    rw [Bool.not_eq_true] at hfinished
    cases hpop : s.msgQueue.popBack with
    | none =>
      rw [hpop] at h
      obtain ⟨rfl, rfl⟩ := Prod.mk.inj h
      exact .empty hworker hpops hfinished (CircularBuffer.popBack_none.mp hpop)
    | some popped =>
      rw [hpop] at h
      obtain ⟨rfl, rfl⟩ := Prod.mk.inj h
      exact .take hworker hpops hfinished hpop

theorem moves_pushFront {producer : PoolProducer} {job : ℕ} (hproducer : producer ∈ s.producers)
    (hpushes : Pushes producer job) (h : s.pushFront producer job = (t, event)) :
    Moves s t event := by
  unfold pushFront at h
  split at h
  · next hfinished =>
    obtain ⟨rfl, rfl⟩ := Prod.mk.inj h
    exact .refuse hproducer hpushes hfinished
  · next hfinished =>
    rw [Bool.not_eq_true] at hfinished
    cases hpush : s.msgQueue.pushFront job with
    | none =>
      rw [hpush] at h
      obtain ⟨rfl, rfl⟩ := Prod.mk.inj h
      exact .full hproducer hpushes hfinished (CircularBuffer.pushFront_none.mp hpush)
    | some queue =>
      rw [hpush] at h
      obtain ⟨rfl, rfl⟩ := Prod.mk.inj h
      exact .push hproducer hpushes hfinished hpush

theorem moves_worker {worker : PoolWorker} {sleeper : Option ℕ} (hworker : worker ∈ s.workers)
    (h : s.goOnWorker worker sleeper = some (t, event)) : Moves s t event := by
  cases worker with
  | popping => exact moves_popBack hworker (.inl rfl) (Option.some.inj h)
  | woken => exact moves_popBack hworker (.inr rfl) (Option.some.inj h)
  | asleep => simp [goOnWorker] at h
  | taken job =>
    simp only [goOnWorker, Option.map_eq_some_iff, Prod.mk.injEq] at h
    obtain ⟨notified, hnotify, rfl, rfl⟩ := h
    cases sleeper with
    | some sleeper =>
      obtain ⟨hsleeper, ⟨⟩⟩ := Option.ite_none_right_eq_some.mp hnotify
      exact .notifyProducer hworker hsleeper
    | none =>
      simp only [notifyProducer, Option.ite_none_left_eq_some, Option.some.injEq] at hnotify
      obtain ⟨hnobody, rfl⟩ := hnotify
      refine .notifyNoProducer hworker fun sleeper hsleeper => hnobody ?_
      exact List.any_eq_true.mpr ⟨_, hsleeper, rfl⟩
  | running job =>
    obtain ⟨⟩ := Option.some.inj h
    exact .execute hworker
  | cancelled =>
    simp only [goOnWorker, Option.ite_none_left_eq_some, Option.some.injEq, Prod.mk.injEq,
      Bool.not_eq_true] at h
    obtain ⟨hmutex, rfl, rfl⟩ := h
    exact .leave hworker hmutex

theorem moves_producer {producer : PoolProducer} (hproducer : producer ∈ s.producers)
    (h : s.goOnProducer producer = some (t, event)) : Moves s t event := by
  cases producer with
  | pushing job => exact moves_pushFront hproducer (.inl rfl) (Option.some.inj h)
  | woken job => exact moves_pushFront hproducer (.inr rfl) (Option.some.inj h)
  | asleep job => simp [goOnProducer] at h
  | pushed =>
    obtain ⟨⟩ := Option.some.inj h
    unfold notifyWorker
    split
    · next hsleeper => exact .notifyWorker hproducer hsleeper
    · next hnobody => exact .notifyNoWorker hproducer hnobody

theorem moves_finisher {finisher : PoolFinisher} (hfinisher : finisher ∈ s.finishers)
    (h : s.goOnFinisher finisher = some (t, event)) : Moves s t event := by
  cases finisher with
  | entering =>
    simp only [goOnFinisher, Option.ite_none_left_eq_some, Bool.not_eq_true] at h
    obtain ⟨hmutex, h⟩ := h
    split at h
    · next hrunning =>
      obtain ⟨⟩ := Option.some.inj h
      exact .returnNone hfinisher hmutex hrunning
    · next hrunning =>
      obtain ⟨⟩ := Option.some.inj h
      exact .enter hfinisher hmutex hrunning
  | finishing =>
    obtain ⟨⟩ := Option.some.inj h
    cases hfinished : s.finished with
    | true =>
      simp only [if_true]
      exact .cancelAgain hfinisher hfinished
    | false =>
      simp only [Bool.false_eq_true, if_false]
      exact .cancelAll hfinisher hfinished
  | testing =>
    simp only [goOnFinisher] at h
    split at h
    · next hrunning =>
      obtain ⟨⟩ := Option.some.inj h
      exact .collect hfinisher hrunning
    · next hrunning =>
      obtain ⟨⟩ := Option.some.inj h
      exact .wait hfinisher hrunning
  | asleep => simp [goOnFinisher] at h
  | woken =>
    simp only [goOnFinisher, Option.ite_none_left_eq_some, Option.some.injEq, Prod.mk.injEq,
      Bool.not_eq_true] at h
    obtain ⟨hmutex, rfl, rfl⟩ := h
    exact .again hfinisher hmutex
  | draining ret =>
    simp only [goOnFinisher] at h
    cases hpop : s.msgQueue.popBack with
    | none =>
      rw [hpop] at h
      obtain ⟨⟩ := Option.some.inj h
      exact .return_ hfinisher (CircularBuffer.popBack_none.mp hpop)
    | some popped =>
      rw [hpop] at h
      obtain ⟨⟩ := Option.some.inj h
      exact .drain hfinisher hpop

/-- A step is one of the moves. -/
theorem moves_of_step {action : PoolAction} (h : s.step action = some (t, event)) :
    Moves s t event := by
  cases action with
  | queueJob =>
    obtain ⟨⟩ := Option.some.inj h
    exact .queueJob
  | finish =>
    obtain ⟨⟩ := Option.some.inj h
    exact .finish
  | worker worker sleeper =>
    simp only [step, Option.ite_none_right_eq_some] at h
    exact moves_worker h.1 h.2
  | producer producer =>
    simp only [step, Option.ite_none_right_eq_some] at h
    exact moves_producer h.1 h.2
  | finisher finisher =>
    simp only [step, Option.ite_none_right_eq_some] at h
    exact moves_finisher h.1 h.2
  | wakeWorker =>
    obtain ⟨hworker, ⟨⟩⟩ := Option.ite_none_right_eq_some.mp h
    exact .wakeWorker hworker
  | wakeProducer job =>
    obtain ⟨hproducer, ⟨⟩⟩ := Option.ite_none_right_eq_some.mp h
    exact .wakeProducer hproducer
  | wakeFinisher =>
    obtain ⟨hfinisher, ⟨⟩⟩ := Option.ite_none_right_eq_some.mp h
    exact .wakeFinisher hfinisher

end ThreadPool

end AviSynth
