import AviSynth.Environment.ThreadPoolSteps

/-!
# The jobs of a thread pool

Each job that is pushed is in one place: in the queue, with a worker or a call of
`Finish`, executed, or handed back. When `Finish` has returned, only the last two are
left.
-/

namespace AviSynth

open Counting Transition PoolFinisher

namespace PoolEvent

/-- The job that has been pushed. -/
def pushes : PoolEvent → List ℕ
  | pushed job => [job]
  | _ => []

/-- The job that a worker has taken. -/
def workerTakes : PoolEvent → List ℕ
  | taken job => [job]
  | _ => []

/-- The job that `Finish` has taken. -/
def drains : PoolEvent → List ℕ
  | drained job => [job]
  | _ => []

/-- The job that has left the queue. -/
def takes (event : PoolEvent) : List ℕ := event.workerTakes ++ event.drains

/-- The jobs that an event executes. -/
def executions : PoolEvent → List ℕ
  | executed job => [job]
  | _ => []

/-- The jobs that `Finish` has handed back. -/
def returns : PoolEvent → List ℕ
  | returned ret => ret
  | _ => []

end PoolEvent

/-- A call of `Finish` that has cancelled the queue. -/
def PoolFinisher.pastFinish : PoolFinisher → Bool
  | .entering | .finishing => false
  | _ => true

/-- A worker that has been woken and will look at the queue. -/
def PoolWorker.isWoken : PoolWorker → Bool
  | .woken => true
  | _ => false

/-- A worker that will notify a producer. -/
def PoolWorker.isTaken : PoolWorker → Bool
  | .taken _ => true
  | _ => false

/-- A producer that has been woken and will look at the queue. -/
def PoolProducer.isWoken : PoolProducer → Bool
  | .woken _ => true
  | _ => false

/-- A producer that will notify a worker. -/
def PoolProducer.isPushed : PoolProducer → Bool
  | .pushed => true
  | _ => false

namespace ThreadPool

/-- The jobs that have been pushed, in their order. -/
def pushes (history : List PoolEvent) : List ℕ := history.reverse.flatMap PoolEvent.pushes

/-- The jobs that have left the queue, in their order. -/
def takes (history : List PoolEvent) : List ℕ := history.reverse.flatMap PoolEvent.takes

variable {s t : ThreadPool} {event : PoolEvent} {history : List PoolEvent}

@[simp] theorem pushes_cons (event : PoolEvent) (history : List PoolEvent) :
    pushes (event :: history) = pushes history ++ event.pushes := by
  simp [pushes]

@[simp] theorem takes_cons (event : PoolEvent) (history : List PoolEvent) :
    takes (event :: history) = takes history ++ event.takes := by
  simp [takes]

/-- What leaves the queue goes to a worker or to `Finish`. -/
theorem count_takes (history : List PoolEvent) (job : ℕ) :
    (takes history).count job = (history.flatMap PoolEvent.workerTakes).count job +
      (history.flatMap PoolEvent.drains).count job := by
  induction history with
  | nil => rfl
  | cons event history ih =>
    rw [takes_cons, List.count_append, ih, PoolEvent.takes, List.count_append, List.flatMap_cons,
      List.flatMap_cons, List.count_append, List.count_append]
    omega

/-- An element that goes on with the same items leaves the count. -/
theorem count_goesOn_same {α : Type} [DecidableEq α] {l : List α} {a : α} (ha : a ∈ l)
    (b : Option α) (f : α → List ℕ) (hf : b.elim [] f = f a) (job : ℕ) :
    ((goesOn l a b).flatMap f).count job = (l.flatMap f).count job := by
  have hcount := count_flatMap_goesOn ha b f job
  rw [hf] at hcount
  omega

theorem Pops.jobs {worker : PoolWorker} (h : Pops worker) : worker.jobs = [] := by
  obtain rfl | rfl := h <;> rfl

theorem Pushes.jobs {producer : PoolProducer} {job : ℕ} (h : Pushes producer job) :
    producer.jobs = [job] := by
  obtain rfl | rfl := h <;> rfl


/-- Workers have the jobs that they have taken and not executed. -/
theorem Moves.workers_jobs (h : Moves s t event) (job : ℕ) :
    (t.workers.flatMap PoolWorker.jobs).count job + event.executions.count job =
      (s.workers.flatMap PoolWorker.jobs).count job + event.workerTakes.count job := by
  cases h with
  | cancelled hworker hpops | empty hworker hpops =>
    exact count_goesOn_same hworker _ PoolWorker.jobs (by rw [hpops.jobs]; rfl) job
  | @take _ job' _ hworker hpops =>
    have hcount := count_flatMap_goesOn hworker (some (.taken job')) PoolWorker.jobs job
    rw [hpops.jobs] at hcount
    exact hcount
  | notifyProducer hworker | notifyNoProducer hworker =>
    exact count_goesOn_same hworker _ PoolWorker.jobs rfl job
  | execute hworker =>
    exact count_flatMap_goesOn hworker (some .popping) PoolWorker.jobs job
  | leave hworker => exact count_goesOn_same hworker _ PoolWorker.jobs rfl job
  | notifyWorker _ hworker | wakeWorker hworker =>
    exact count_goesOn_same hworker _ PoolWorker.jobs rfl job
  | cancelAll =>
    have hjobs : (s.workers.map PoolWorker.notified).flatMap PoolWorker.jobs =
        s.workers.flatMap PoolWorker.jobs := by
      rw [List.flatMap_map]
      exact List.flatMap_congr fun worker _ => by cases worker <;> rfl
    simp only [hjobs]
    rfl
  | _ => rfl

/-- Calls of `Finish` have the jobs that they have taken and not handed back. -/
theorem Moves.finishers_jobs (h : Moves s t event) (job : ℕ) :
    (t.finishers.flatMap jobs).count job + event.returns.count job =
      (s.finishers.flatMap jobs).count job + event.drains.count job := by
  cases h with
  | leave =>
    have hjobs : (s.finishers.map notified).flatMap jobs =
        s.finishers.flatMap jobs := by
      rw [List.flatMap_map]
      exact List.flatMap_congr fun finisher _ => by cases finisher <;> rfl
    dsimp only
    split
    · rw [hjobs]
      rfl
    · rfl
  | returnNone hfinisher | enter hfinisher | cancelAll hfinisher | cancelAgain hfinisher
  | collect hfinisher | wait hfinisher | again hfinisher | wakeFinisher hfinisher =>
    exact count_goesOn_same hfinisher _ jobs rfl job
  | @drain ret job' queue hfinisher hpop =>
    have hcount := count_flatMap_goesOn hfinisher (some (.draining (ret ++ [job'])))
      jobs job
    simp only [jobs, Option.elim_some, List.count_append] at hcount
    simp only [PoolEvent.returns, PoolEvent.drains, List.count_nil]
    omega
  | @return_ ret hfinisher hempty =>
    exact count_flatMap_goesOn hfinisher none jobs job
  | _ => rfl

/-- A job waits to be pushed until it is pushed or refused. -/
theorem Moves.producers_jobs (h : Moves s t event) (job : ℕ) :
    (t.producers.flatMap PoolProducer.jobs).count job + event.pushes.count job ≤
      (s.producers.flatMap PoolProducer.jobs).count job +
        if s.nextJob ≤ job ∧ job < t.nextJob then 1 else 0 := by
  cases h with
  | queueJob =>
    simp only [List.flatMap_cons, PoolProducer.jobs, List.count_append, PoolEvent.pushes,
      List.count_nil, List.count_singleton, beq_iff_eq]
    split <;> split <;> omega
  | refuse hproducer hpushes =>
    have hcount := count_flatMap_goesOn hproducer none PoolProducer.jobs job
    simp only [Option.elim_none, List.count_nil] at hcount
    simp only [PoolEvent.pushes, List.count_nil]
    omega
  | full hproducer hpushes =>
    have hcount := count_goesOn_same hproducer (some (.asleep _)) PoolProducer.jobs
      (by rw [hpushes.jobs]; rfl) job
    exact hcount.le.trans (Nat.le_add_right _ _)
  | @push producer job' queue hproducer hpushes =>
    have hcount := count_flatMap_goesOn hproducer (some .pushed) PoolProducer.jobs job
    rw [hpushes.jobs] at hcount
    simp only [Option.elim_some, PoolProducer.jobs, List.count_nil] at hcount
    simp only [PoolEvent.pushes]
    omega
  | notifyProducer _ hproducer | notifyWorker hproducer | notifyNoWorker hproducer
  | wakeProducer hproducer =>
    refine (count_goesOn_same hproducer _ PoolProducer.jobs ?_ job).le.trans (Nat.le_add_right _ _)
    rfl
  | cancelAll =>
    have hjobs : (s.producers.map PoolProducer.notified).flatMap PoolProducer.jobs =
        s.producers.flatMap PoolProducer.jobs := by
      rw [List.flatMap_map]
      exact List.flatMap_congr fun producer _ => by cases producer <;> rfl
    simp only [hjobs]
    exact Nat.le_add_right _ _
  | _ => exact Nat.le_add_right _ _

/-- The queue gives up its jobs in the order in which it got them. -/
theorem Moves.contents (h : Moves s t event) :
    s.msgQueue.contents ++ event.pushes = event.takes ++ t.msgQueue.contents ∧
      t.msgQueue.maxSize = s.msgQueue.maxSize := by
  cases h with
  | take _ _ _ hpop | drain _ hpop =>
    obtain ⟨hcontents, hsize⟩ := CircularBuffer.popBack_contents hpop
    exact ⟨by rw [hcontents]; simp [PoolEvent.pushes, PoolEvent.takes, PoolEvent.workerTakes,
      PoolEvent.drains], hsize⟩
  | push _ _ _ hpush =>
    obtain ⟨hcontents, hsize⟩ := CircularBuffer.pushFront_contents hpush
    exact ⟨by rw [hcontents]; rfl, hsize⟩
  | _ => exact ⟨List.append_nil _, rfl⟩

theorem Moves.nextJob (h : Moves s t event) : s.nextJob ≤ t.nextJob := by
  cases h with
  | queueJob => exact Nat.le_succ _
  | _ => exact Nat.le_refl _

/-- Where every job is. -/
structure Ledger (history : List PoolEvent) (s : ThreadPool) : Prop where
  order : pushes history = takes history ++ s.msgQueue.contents
  executed : ∀ job, (s.workers.flatMap PoolWorker.jobs).count job +
    (history.flatMap PoolEvent.executions).count job =
      (history.flatMap PoolEvent.workerTakes).count job
  returned : ∀ job, (s.finishers.flatMap jobs).count job +
    (history.flatMap PoolEvent.returns).count job = (history.flatMap PoolEvent.drains).count job
  once : ∀ job, (s.producers.flatMap PoolProducer.jobs).count job + (pushes history).count job ≤
    if job < s.nextJob then 1 else 0

theorem Ledger.step (h : Ledger history s) (hmoves : Moves s t event) :
    Ledger (event :: history) t where
  order := by
    rw [pushes_cons, takes_cons, h.order, List.append_assoc, hmoves.contents.1, List.append_assoc]
  executed job := by
    have hjob := h.executed job
    have hworkers := hmoves.workers_jobs job
    rw [List.flatMap_cons, List.flatMap_cons, List.count_append, List.count_append]
    omega
  returned job := by
    have hjob := h.returned job
    have hfinishers := hmoves.finishers_jobs job
    rw [List.flatMap_cons, List.flatMap_cons, List.count_append, List.count_append]
    omega
  once job := by
    have hjob := h.once job
    have hproducers := hmoves.producers_jobs job
    have hnext := hmoves.nextJob
    rw [pushes_cons, List.count_append]
    split_ifs at hjob hproducers ⊢ <;> omega

/-- Who is there, and who sleeps. -/
structure Staffed (nThreads : ℕ) (s : ThreadPool) : Prop where
  running : s.numRunning = s.workers.length
  capacity : s.msgQueue.maxSize = nThreads * 6
  uncancelled : s.finished = false → s.workers.length = nThreads ∧ .cancelled ∉ s.workers
  awake : s.finished = true → .asleep ∉ s.workers ∧ ∀ job, .asleep job ∉ s.producers
  mutex : s.finishers.countP inMutex = s.mutex.toNat
  finished : ∀ finisher ∈ s.finishers, pastFinish finisher = true → s.finished = true
  drained : ∀ ret, .draining ret ∈ s.finishers → s.numRunning = 0
  waiting : .asleep ∈ s.finishers → s.numRunning ≠ 0

variable {nThreads : ℕ}

section

variable (h : Moves s t event)
include h

/-- The number of threads that run is counted down by those that leave. -/
theorem Moves.running (hs : s.numRunning = s.workers.length) :
    t.numRunning = t.workers.length := by
  cases h with
  | cancelled hworker | empty hworker | take hworker | notifyProducer hworker
  | notifyNoProducer hworker | execute hworker | notifyWorker _ hworker | wakeWorker hworker =>
    exact hs.trans (length_goesOn_some hworker _).symm
  | leave hworker =>
    have hlength := length_goesOn hworker none
    simp only [Option.toList_none, List.length_nil, Nat.zero_add] at hlength
    simp only [hs]
    omega
  | cancelAll => exact hs.trans (List.length_map _).symm
  | _ => exact hs

theorem Moves.finished_mono (hs : s.finished = true) : t.finished = true := by
  cases h with
  | cancelAll => rfl
  | _ => exact hs

/-- Before the pool is cancelled nobody leaves. -/
theorem Moves.uncancelled (ht : t.finished = false)
    (hs : s.finished = false → s.workers.length = nThreads ∧ .cancelled ∉ s.workers) :
    t.workers.length = nThreads ∧ .cancelled ∉ t.workers := by
  have hfinished : s.finished = false := by
    by_contra hne
    rw [h.finished_mono (Bool.not_eq_false _ ▸ hne)] at ht
    exact absurd ht (by decide)
  obtain ⟨hlength, hnobody⟩ := hs hfinished
  cases h with
  | cancelled _ _ htrue => simp [hfinished] at htrue
  | leave hworker => exact absurd hworker hnobody
  | cancelAll => simp at ht
  | empty hworker | take hworker | notifyProducer hworker
  | notifyNoProducer hworker | execute hworker | notifyWorker _ hworker | wakeWorker hworker =>
    refine ⟨(length_goesOn_some hworker _).trans hlength, fun hmem => ?_⟩
    obtain hmem | hmem := mem_of_mem_goesOn hmem
    · simp at hmem
    · exact hnobody hmem
  | _ => exact ⟨hlength, hnobody⟩

/-- After the pool has been cancelled nobody sleeps at the queue. -/
theorem Moves.awake (ht : t.finished = true)
    (hs : s.finished = true → .asleep ∉ s.workers ∧ ∀ job, .asleep job ∉ s.producers) :
    .asleep ∉ t.workers ∧ ∀ job, .asleep job ∉ t.producers := by
  cases h with
  | queueJob =>
    obtain ⟨hworkers, hproducers⟩ := hs ht
    exact ⟨hworkers, fun job hmem => hproducers job (by simpa using hmem)⟩
  | empty _ _ hfalse | take _ _ hfalse | full _ _ hfalse | push _ _ hfalse =>
    exact absurd (hfalse.symm.trans ht) (by decide)
  | cancelled hworker | execute hworker | notifyNoProducer hworker | leave hworker
  | wakeWorker hworker =>
    obtain ⟨hworkers, hproducers⟩ := hs ht
    refine ⟨fun hmem => ?_, hproducers⟩
    obtain hmem | hmem := mem_of_mem_goesOn hmem
    · simp at hmem
    · exact hworkers hmem
  | notifyProducer _ hproducer => exact absurd hproducer ((hs ht).2 _)
  | notifyWorker _ hworker => exact absurd hworker (hs ht).1
  | refuse hproducer | notifyNoWorker hproducer | wakeProducer hproducer =>
    obtain ⟨hworkers, hproducers⟩ := hs ht
    refine ⟨hworkers, fun job hmem => ?_⟩
    obtain hmem | hmem := mem_of_mem_goesOn hmem
    · simp at hmem
    · exact hproducers job hmem
  | cancelAll =>
    refine ⟨fun hmem => ?_, fun job hmem => ?_⟩
    · obtain ⟨worker, -, hworker⟩ := List.mem_map.mp hmem
      cases worker <;> simp [PoolWorker.notified] at hworker
    · obtain ⟨producer, -, hproducer⟩ := List.mem_map.mp hmem
      cases producer <;> simp [PoolProducer.notified] at hproducer
  | _ => exact hs ht

/-- The mutex of the pool is taken by the call that is in it. -/
theorem Moves.mutex (hs : s.finishers.countP inMutex = s.mutex.toNat) :
    t.finishers.countP inMutex = t.mutex.toNat := by
  cases h with
  | finish => simpa [List.countP_cons, inMutex] using hs
  | leave =>
    have hsame : inMutex ∘ notified = inMutex := by
      funext finisher
      cases finisher <;> rfl
    dsimp only
    split
    · rw [List.countP_map, hsame, hs]
    · exact hs
  | returnNone hfinisher | cancelAll hfinisher | cancelAgain hfinisher | collect hfinisher
  | drain hfinisher | wakeFinisher hfinisher =>
    rw [countP_goesOn_eq_iff hfinisher, hs]
    rfl
  | enter hfinisher hmutex _ | again hfinisher hmutex =>
    rw [countP_goesOn_eq_iff hfinisher, hs, hmutex]
    rfl
  | wait hfinisher | return_ hfinisher =>
    have hpos : 0 < s.finishers.countP inMutex :=
      List.countP_pos_iff.mpr ⟨_, hfinisher, rfl⟩
    rw [hs] at hpos
    have htaken : s.mutex = true := Bool.toNat_eq_one.mp (Nat.le_antisymm (Bool.toNat_le _) hpos)
    rw [countP_goesOn_eq_iff hfinisher, hs, htaken]
    rfl
  | _ => exact hs

/-- Calls of `Finish` wait, and collect jobs, only after they have cancelled the queue. -/
theorem Moves.finished
    (hs : ∀ finisher ∈ s.finishers, pastFinish finisher = true → s.finished = true) :
    ∀ finisher ∈ t.finishers, pastFinish finisher = true → t.finished = true := by
  intro finisher hmem hpast
  cases h with
  | finish =>
    obtain rfl | hmem := List.mem_cons.mp hmem
    · simp [pastFinish] at hpast
    · exact hs finisher hmem hpast
  | leave =>
    dsimp only at hmem
    split at hmem
    · obtain ⟨before, hbefore, rfl⟩ := List.mem_map.mp hmem
      refine hs before hbefore ?_
      cases before <;> simp_all [notified, pastFinish]
    · exact hs finisher hmem hpast
  | cancelAll => rfl
  | cancelAgain _ hfinished => exact hfinished
  | returnNone | return_ =>
    obtain hmem | hmem := mem_of_mem_goesOn hmem
    · simp at hmem
    · exact hs finisher hmem hpast
  | enter =>
    obtain hmem | hmem := mem_of_mem_goesOn hmem
    · obtain rfl := Option.some.inj hmem
      simp [pastFinish] at hpast
    · exact hs finisher hmem hpast
  | collect hfinisher | wait hfinisher | again hfinisher | drain hfinisher
  | wakeFinisher hfinisher => exact hs _ hfinisher rfl
  | _ => exact hs finisher hmem hpast

/-- Calls of `Finish` collect jobs only after all threads have left. -/
theorem Moves.drained (hs : ∀ ret, .draining ret ∈ s.finishers → s.numRunning = 0) :
    ∀ ret, .draining ret ∈ t.finishers → t.numRunning = 0 := by
  intro ret hmem
  cases h with
  | finish => exact hs ret (by simpa using hmem)
  | leave hworker =>
    have hbefore : ∃ ret, .draining ret ∈ s.finishers := by
      dsimp only at hmem
      split at hmem
      · obtain ⟨before, hbefore, heq⟩ := List.mem_map.mp hmem
        cases before <;> simp [notified] at heq
        exact ⟨_, hbefore⟩
      · exact ⟨ret, hmem⟩
    obtain ⟨ret', hret⟩ := hbefore
    simp only [hs ret' hret]
  | returnNone | return_ | enter | cancelAll | cancelAgain | wait | again | wakeFinisher =>
    obtain hmem | hmem := mem_of_mem_goesOn hmem
    · simp at hmem
    · exact hs ret hmem
  | collect _ hzero => exact hzero
  | drain hfinisher => exact hs _ hfinisher
  | _ => exact hs ret hmem

/-- Calls of `Finish` sleep only while threads run. -/
theorem Moves.waiting (hs : .asleep ∈ s.finishers → s.numRunning ≠ 0) :
    .asleep ∈ t.finishers → t.numRunning ≠ 0 := by
  intro hmem
  cases h with
  | finish => exact hs (by simpa using hmem)
  | leave =>
    dsimp only at hmem ⊢
    split at hmem
    · obtain ⟨before, -, heq⟩ := List.mem_map.mp hmem
      cases before <;> simp [notified] at heq
    · next hne => exact hne
  | returnNone | return_ | enter | cancelAll | cancelAgain | collect | again | drain
  | wakeFinisher =>
    obtain hmem | hmem := mem_of_mem_goesOn hmem
    · simp at hmem
    · exact hs hmem
  | wait _ hne => exact hne
  | _ => exact hs hmem

end

theorem Staffed.step (h : Staffed nThreads s) (hmoves : Moves s t event) : Staffed nThreads t where
  running := hmoves.running h.running
  capacity := hmoves.contents.2.trans h.capacity
  uncancelled ht := hmoves.uncancelled ht h.uncancelled
  awake ht := hmoves.awake ht h.awake
  mutex := hmoves.mutex h.mutex
  finished := hmoves.finished h.finished
  drained := hmoves.drained h.drained
  waiting := hmoves.waiting h.waiting

/-- No call of `notify_one` is lost on the workers: while one sleeps, there are enough
that will look at the queue. -/
def WakesWorkers (s : ThreadPool) : Prop :=
  .asleep ∈ s.workers → s.msgQueue.contents.length ≤
    s.workers.countP PoolWorker.isWoken + s.producers.countP PoolProducer.isPushed

/-- No call of `notify_one` is lost on the producers: while one sleeps, there are enough
that will look at the free places of the queue. -/
def WakesProducers (s : ThreadPool) : Prop :=
  ∀ job, .asleep job ∈ s.producers → s.msgQueue.maxSize ≤ s.msgQueue.contents.length +
    (s.producers.countP PoolProducer.isWoken + s.workers.countP PoolWorker.isTaken)

theorem Moves.wakesWorkers (h : Moves s t event) (hs : s.WakesWorkers)
    (hstaffed : Staffed nThreads s) (ht : Staffed nThreads t) : t.WakesWorkers := by
  intro hasleep
  have hfinished : t.finished = false := by
    by_contra hne
    exact (ht.awake (Bool.not_eq_false _ ▸ hne)).1 hasleep
  cases h with
  | queueJob => simpa [List.countP_cons, PoolProducer.isPushed] using hs hasleep
  | cancelled _ _ htrue | refuse _ _ htrue => exact absurd (htrue.symm.trans hfinished) (by decide)
  | cancelAll => simp at hfinished
  | empty _ _ _ hempty => simp [hempty]
  | @take worker job queue hworker hpops _ hpop =>
    have hbefore := hs ((mem_of_mem_goesOn hasleep).resolve_left (by simp))
    have hcount := countP_goesOn hworker (some (.taken job)) PoolWorker.isWoken
    rw [(CircularBuffer.popBack_contents hpop).1, List.length_cons] at hbefore
    obtain rfl | rfl := hpops <;> simp [PoolWorker.isWoken] at hcount <;> dsimp only <;> omega
  | notifyProducer hworker hproducer =>
    have hbefore := hs ((mem_of_mem_goesOn hasleep).resolve_left (by simp))
    exact hbefore.trans (Nat.add_le_add (countP_le_goesOn hworker (Nat.zero_le _))
      (countP_le_goesOn hproducer (Nat.zero_le _)))
  | notifyNoProducer hworker | execute hworker =>
    have hbefore := hs ((mem_of_mem_goesOn hasleep).resolve_left (by simp))
    exact hbefore.trans (Nat.add_le_add_right (countP_le_goesOn hworker (Nat.zero_le _)) _)
  | leave hworker => exact absurd hworker (hstaffed.uncancelled hfinished).2
  | full hproducer hpushes =>
    refine (hs hasleep).trans (Nat.add_le_add_left (countP_le_goesOn hproducer ?_) _)
    obtain rfl | rfl := hpushes <;> exact Nat.zero_le _
  | @push producer job queue hproducer hpushes _ hpush =>
    have hbefore := hs hasleep
    have hproducers := countP_goesOn hproducer (some .pushed) PoolProducer.isPushed
    rw [(CircularBuffer.pushFront_contents hpush).1, List.length_append, List.length_singleton]
    obtain rfl | rfl := hpushes <;> simp [PoolProducer.isPushed] at hproducers <;> dsimp only <;>
      omega
  | notifyWorker hproducer hworker =>
    have hbefore := hs hworker
    have hworkers := countP_goesOn hworker (some .woken) PoolWorker.isWoken
    have hproducers := countP_goesOn hproducer none PoolProducer.isPushed
    simp [PoolWorker.isWoken] at hworkers
    simp [PoolProducer.isPushed] at hproducers
    dsimp only
    omega
  | notifyNoWorker _ hnobody => exact absurd hasleep hnobody
  | drain hfinisher =>
    have htrue := hstaffed.finished _ hfinisher rfl
    exact absurd (htrue.symm.trans hfinished) (by decide)
  | wakeWorker hworker =>
    exact (hs hworker).trans (Nat.add_le_add_right (countP_le_goesOn hworker (Nat.zero_le _)) _)
  | wakeProducer hproducer =>
    exact (hs hasleep).trans (Nat.add_le_add_left (countP_le_goesOn hproducer (Nat.zero_le _)) _)
  | _ => exact hs hasleep

theorem Moves.wakesProducers (h : Moves s t event) (hs : s.WakesProducers)
    (hstaffed : Staffed nThreads s) (ht : Staffed nThreads t) : t.WakesProducers := by
  intro sleeping hasleep
  have hfinished : t.finished = false := by
    by_contra hne
    exact (ht.awake (Bool.not_eq_false _ ▸ hne)).2 sleeping hasleep
  cases h with
  | queueJob =>
    have hbefore := hs sleeping (by simpa using hasleep)
    simpa [List.countP_cons, PoolProducer.isWoken] using hbefore
  | cancelled _ _ htrue | refuse _ _ htrue => exact absurd (htrue.symm.trans hfinished) (by decide)
  | cancelAll => simp at hfinished
  | empty hworker hpops =>
    refine (hs sleeping hasleep).trans (Nat.add_le_add_left (Nat.add_le_add_left
      (countP_le_goesOn hworker ?_) _) _)
    obtain rfl | rfl := hpops <;> exact Nat.zero_le _
  | @take worker job queue hworker hpops _ hpop =>
    have hbefore := hs sleeping hasleep
    have hworkers := countP_goesOn hworker (some (.taken job)) PoolWorker.isTaken
    obtain ⟨hcontents, hsize⟩ := CircularBuffer.popBack_contents hpop
    rw [hcontents, List.length_cons] at hbefore
    obtain rfl | rfl := hpops <;> simp [PoolWorker.isTaken] at hworkers <;> dsimp only <;> omega
  | @notifyProducer job sleeper hworker hproducer =>
    have hbefore := hs sleeper hproducer
    have hworkers := countP_goesOn hworker (some (.running job)) PoolWorker.isTaken
    have hproducers := countP_goesOn hproducer (some (.woken sleeper)) PoolProducer.isWoken
    simp [PoolWorker.isTaken] at hworkers
    simp [PoolProducer.isWoken] at hproducers
    dsimp only
    omega
  | notifyNoProducer _ hnobody => exact absurd hasleep (hnobody sleeping)
  | leave hworker => exact absurd hworker (hstaffed.uncancelled hfinished).2
  | full _ _ _ hfull =>
    have hsize : s.msgQueue.size = s.msgQueue.maxSize := by
      simpa [CircularBuffer.full] using hfull
    simp only [CircularBuffer.length_contents]
    omega
  | @push producer job queue hproducer hpushes _ hpush =>
    have hbefore := hs sleeping ((mem_of_mem_goesOn hasleep).resolve_left (by simp))
    have hproducers := countP_goesOn hproducer (some .pushed) PoolProducer.isWoken
    obtain ⟨hcontents, hsize⟩ := CircularBuffer.pushFront_contents hpush
    have hlength : queue.contents.length = s.msgQueue.contents.length + 1 := by
      rw [hcontents, List.length_append, List.length_singleton]
    obtain rfl | rfl := hpushes <;> simp [PoolProducer.isWoken] at hproducers <;> dsimp only <;>
      omega
  | notifyWorker hproducer hworker =>
    have hbefore := hs sleeping ((mem_of_mem_goesOn hasleep).resolve_left (by simp))
    exact hbefore.trans (Nat.add_le_add_left (Nat.add_le_add
      (countP_le_goesOn hproducer (Nat.zero_le _)) (countP_le_goesOn hworker (Nat.zero_le _))) _)
  | notifyNoWorker hproducer =>
    have hbefore := hs sleeping ((mem_of_mem_goesOn hasleep).resolve_left (by simp))
    exact hbefore.trans (Nat.add_le_add_left (Nat.add_le_add_right
      (countP_le_goesOn hproducer (Nat.zero_le _)) _) _)
  | drain hfinisher =>
    have htrue := hstaffed.finished _ hfinisher rfl
    exact absurd (htrue.symm.trans hfinished) (by decide)
  | execute hworker | wakeWorker hworker =>
    exact (hs sleeping hasleep).trans (Nat.add_le_add_left (Nat.add_le_add_left
      (countP_le_goesOn hworker (Nat.zero_le _)) _) _)
  | @wakeProducer job hproducer =>
    exact (hs job hproducer).trans (Nat.add_le_add_left (Nat.add_le_add_right
      (countP_le_goesOn hproducer (Nat.zero_le _)) _) _)
  | _ => exact hs sleeping hasleep

end ThreadPool

end AviSynth
