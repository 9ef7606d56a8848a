import AviSynth.Devices.PrefetchLedger
import AviSynth.Devices.PrefetchWorkers
import Mathlib.Algebra.BigOperators.Group.List.Basic

/-!
# The runs of a prefetcher

Each handle that is reserved is finished once: none is lost or finished twice, some
thread goes on as long as one is held, and the threads come to an end. A worker that
ends with an exception before its loop is counted for ever, and the work that is queued
for it stays there.
-/

namespace AviSynth

open Transition

namespace QueuePrefetcher

variable {V : Type} {c : PrefetchSetup V} {s t : QueuePrefetcher V}
  {history : List (PrefetchEvent V)} {event : PrefetchEvent V} {r : PrefetchRequest}
  {w : PrefetchWorker}

/-- A step of a worker, of a request that is awake, or of the destructor. -/
def Own : PrefetchAction → Bool
  | .request (.waiting _ _) _ | .getFrame _ _ | .destroy => false
  | .request _ _ | .work _ _ | .cancel => true

/-- The frames that `SchedulePrefetch` still has to look up. -/
def left (c : PrefetchSetup V) (currentN n : ℤ) : ℕ :=
  (min (currentN + c.prefetchFrames) c.numFrames - n).toNat

/-- More than the steps of a request and of what it leaves to workers. -/
def requestSteps (c : PrefetchSetup V) : PrefetchRequest → ℕ
  | .waiting _ _ => 0
  | .reserved work => 8 * left c work.1 (work.1 + 1) + 3
  | .producing work => 8 * left c work.1 (work.1 + 1) + 2
  | .failed _ => 1
  | .direct n => 8 * left c n (n + 1) + 2
  | .scheduling currentN n numQueued => 8 * left c currentN n + 2 * numQueued + 1
  | .holding currentN work numQueued => 8 * left c currentN (work.1 + 1) + 2 * numQueued + 8

/-- More than the steps of a worker with the handle it has. -/
def workerSteps : PrefetchWorker → ℕ
  | .queued | .failed _ => 2
  | .idle => 1
  | .working _ => 3

/-- A bound for the steps that are left, when no request begins or wakes up. -/
def stepsLeft (c : PrefetchSetup V) (s : QueuePrefetcher V) : ℕ :=
  (s.requests.map (requestSteps c)).sum + (s.workers.map workerSteps).sum +
    4 * s.prefetchQueue.length

theorem stepsLeft_addRequest (s : QueuePrefetcher V) (r : PrefetchRequest) :
    (s.addRequest r).stepsLeft c = requestSteps c r + s.stepsLeft c := by
  simp only [stepsLeft, addRequest, List.map_cons, List.sum_cons]
  omega

theorem stepsLeft_addWorker (s : QueuePrefetcher V) (w : PrefetchWorker) :
    (s.addWorker w).stepsLeft c = workerSteps w + s.stepsLeft c := by
  simp only [stepsLeft, addWorker, List.map_cons, List.sum_cons]
  omega

theorem stepsLeft_eraseRequest (hr : r ∈ s.requests) :
    s.stepsLeft c =
      requestSteps c r + stepsLeft c { s with requests := s.requests.erase r } := by
  have hsum := ((List.perm_cons_erase hr).map (requestSteps c)).sum_eq
  rw [List.map_cons, List.sum_cons] at hsum
  simp only [stepsLeft]
  omega

theorem stepsLeft_eraseWorker (hw : w ∈ s.workers) :
    s.stepsLeft c = workerSteps w + stepsLeft c { s with workers := s.workers.erase w } := by
  have hsum := ((List.perm_cons_erase hw).map workerSteps).sum_eq
  rw [List.map_cons, List.sum_cons] at hsum
  simp only [stepsLeft]
  omega

theorem stepsLeft_wakeUp (s : QueuePrefetcher V) (numQueued : ℕ) :
    (s.wakeUp c numQueued).stepsLeft c ≤ 2 * numQueued + s.stepsLeft c := by
  have hsum : ∀ n, ((List.replicate n PrefetchWorker.queued).map workerSteps).sum = 2 * n := by
    intro n
    induction n with
    | zero => rfl
    | succ n ih =>
      rw [List.replicate_succ, List.map_cons, List.sum_cons, ih, workerSteps]
      omega
  simp only [stepsLeft, wakeUp, List.map_append, List.sum_append, hsum]
  omega

/-- An iteration of `SchedulePrefetch`. -/
theorem left_succ {currentN n : ℤ} (hn : n < currentN + c.prefetchFrames ∧ n < c.numFrames) :
    left c currentN n = left c currentN (n + 1) + 1 := by
  unfold left
  omega

theorem stepsLeft_scheduled (s : QueuePrefetcher V) {currentN n : ℤ} (numQueued : ℕ)
    (hn : n < currentN + c.prefetchFrames ∧ n < c.numFrames) (videoCache : LruCache ℤ V)
    (result : LruLookup V) :
    (s.scheduled currentN n numQueued videoCache result).1.stepsLeft c <
      requestSteps c (.scheduling currentN n numQueued) + s.stepsLeft c := by
  have hleft := left_succ hn
  have hmore : (({ s with videoCache }.addRequest
      (.scheduling currentN (n + 1) numQueued)).stepsLeft c) <
        requestSteps c (.scheduling currentN n numQueued) + s.stepsLeft c := by
    have hsame : stepsLeft c { s with videoCache } = s.stepsLeft c := rfl
    rw [stepsLeft_addRequest, hsame]
    simp only [requestSteps]
    omega
  cases result with
  | notFound p =>
    have hsame : stepsLeft c { s with videoCache, reserved := s.reserved + 1 } =
        s.stepsLeft c := rfl
    simp only [scheduled]
    rw [stepsLeft_addRequest, hsame]
    simp only [requestSteps]
    omega
  | foundAndReady found => exact hmore
  | foundButNotAvail => exact hmore
  | noCache => exact hmore
  | waiting p => exact hmore

theorem stepsLeft_proceed (s : QueuePrefetcher V) (throws : Bool)
    (hown : Own (.request r throws) = true) :
    (s.proceed c throws r).1.stepsLeft c < requestSteps c r + s.stepsLeft c := by
  cases r with
  | waiting n entry => cases hown
  | reserved work =>
    simp only [proceed]
    split
    · rw [stepsLeft_addRequest]
      simp only [requestSteps]
      omega
    · rw [stepsLeft_addRequest]
      simp only [requestSteps]
      omega
  | producing work =>
    simp only [proceed]
    split
    · rw [stepsLeft_addRequest]
      simp only [requestSteps]
      omega
    · have hsame : (s.commitValue c work).1.stepsLeft c = s.stepsLeft c := rfl
      simp only
      rw [stepsLeft_addRequest, hsame]
      simp only [requestSteps]
      omega
  | failed work =>
    have hsame : (s.rollback work).1.stepsLeft c = s.stepsLeft c := rfl
    simp only [proceed, hsame, requestSteps]
    omega
  | direct n =>
    simp only [proceed]
    split
    · simp only [requestSteps]
      omega
    · rw [stepsLeft_addRequest]
      simp only [requestSteps]
      omega
  | scheduling currentN n numQueued =>
    simp only [proceed]
    split
    · next hn => exact stepsLeft_scheduled s numQueued hn _ _
    · have hle := stepsLeft_wakeUp (c := c) s numQueued
      simp only [requestSteps]
      omega
  | holding currentN work numQueued =>
    simp only [proceed]
    rw [stepsLeft_addRequest]
    simp only [requestSteps, stepsLeft, List.length_append, List.length_singleton]
    omega

theorem stepsLeft_threadWorker (s : QueuePrefetcher V) (throws : Bool) (w : PrefetchWorker) :
    (s.threadWorker c throws w).1.stepsLeft c < workerSteps w + s.stepsLeft c := by
  cases w with
  | queued =>
    simp only [threadWorker]
    split
    · simp only [workerSteps]
      omega
    · rw [stepsLeft_addWorker]
      simp only [workerSteps]
      omega
  | idle =>
    simp only [threadWorker]
    split
    · have hsame : stepsLeft c { s with numWorkers := s.numWorkers - 1 } = s.stepsLeft c := rfl
      simp only [workerSteps, hsame]
      omega
    · next work rest hqueue =>
      rw [stepsLeft_addWorker]
      simp only [workerSteps, stepsLeft, hqueue, List.length_cons]
      omega
  | working work =>
    simp only [threadWorker]
    split
    · have hsame : stepsLeft c { s with workerExceptionPresent := true } = s.stepsLeft c := rfl
      rw [stepsLeft_addWorker, hsame]
      simp only [workerSteps]
      omega
    · have hsame : (s.commitValue c work).1.stepsLeft c = s.stepsLeft c := rfl
      simp only
      rw [stepsLeft_addWorker, hsame]
      simp only [workerSteps]
      omega
  | failed work =>
    have hsame : (s.rollback work).1.stepsLeft c = s.stepsLeft c := rfl
    simp only [threadWorker]
    rw [stepsLeft_addWorker, hsame]
    simp only [workerSteps]
    omega

/-- A step of its own threads brings the prefetcher nearer to rest. -/
theorem stepsLeft_lt {a : PrefetchAction} (hown : Own a = true)
    (hstep : step c s a = some (t, event)) : t.stepsLeft c < s.stepsLeft c := by
  cases a with
  | getFrame n suppressThreadCount => cases hown
  | destroy => cases hown
  | request r throws =>
    simp only [step] at hstep
    split at hstep
    · next hr =>
      have hless :=
        stepsLeft_proceed (c := c) { s with requests := s.requests.erase r } throws hown
      rw [Option.some.inj hstep] at hless
      rw [stepsLeft_eraseRequest hr]
      exact hless
    · cases hstep
  | work w throws =>
    simp only [step] at hstep
    split at hstep
    · next hw =>
      have hless :=
        stepsLeft_threadWorker (c := c) { s with workers := s.workers.erase w } throws w
      rw [Option.some.inj hstep] at hless
      rw [stepsLeft_eraseWorker hw]
      exact hless
    · cases hstep
  | cancel =>
    simp only [step] at hstep
    split at hstep
    · cases hstep
    · next work rest hqueue =>
      split at hstep
      · cases hstep
        simp only [stepsLeft, hqueue, List.length_cons]
        omega
      · cases hstep

/-- So there are only so many of them in a row. -/
theorem length_le_stepsLeft {actions : List PrefetchAction} {final : List (PrefetchEvent V)}
    (hown : ∀ a ∈ actions, Own a = true)
    (hexec : exec (step c) always actions history s = some (final, t)) :
    actions.length + t.stepsLeft c ≤ s.stepsLeft c := by
  induction actions generalizing history s with
  | nil =>
    cases hexec
    exact (Nat.zero_add _).le
  | cons a actions ih =>
    simp only [exec, always] at hexec
    obtain ⟨⟨u, event⟩, hstep, hrest⟩ := Option.bind_eq_some_iff.mp hexec
    have hless := stepsLeft_lt (hown a List.mem_cons_self) hstep
    have hle : actions.length + t.stepsLeft c ≤ u.stepsLeft c :=
      ih (fun b hb => hown b (List.mem_cons_of_mem a hb)) hrest
    rw [List.length_cons]
    omega

/-- What the prefetcher keeps to, whatever its threads have done. -/
structure Served (c : PrefetchSetup V) (history : List (PrefetchEvent V))
    (s : QueuePrefetcher V) : Prop where
  /-- A handle has been finished once, or it is in the queue or held by one thread. -/
  once : ∀ ticket, finishes ticket history + (tickets s.held).count ticket =
    if ticket < s.reserved then 1 else 0
  values : ∀ ticket n value, .committed ticket n value ∈ history →
    .reserved ticket n ∈ history ∧ value = some (c.child n)
  workers_le : (s.workers.length : ℤ) ≤ c.numThreads
  awake : s.finishing = false → s.prefetchQueue ≠ [] →
    s.workers ≠ [] ∨ ∃ r ∈ s.requests, r.wakes = true
  /-- As long as a handle is held, some thread goes on. -/
  progress : s.held ≠ [] → ∃ a, Own a = true ∧ (step c s a).isSome = true
  /-- The steps between two requests come to an end. -/
  ends : ∀ actions final t, (∀ a ∈ actions, Own a = true) →
    exec (step c) always actions history s = some (final, t) → actions.length ≤ s.stepsLeft c
  destroyed : s.Destroyed → ∀ ticket < s.reserved, finishes ticket history = 1

/-- Every thread that is awake can take a step. -/
theorem Staffed.progress (h : s.Staffed c) (hheld : s.held ≠ []) :
    ∃ a, Own a = true ∧ (QueuePrefetcher.step c s a).isSome = true := by
  have hrequest : ∀ r ∈ s.requests, Own (.request r false) = true →
      ∃ a, Own a = true ∧ (QueuePrefetcher.step c s a).isSome = true := by
    intro r hr hown
    refine ⟨_, hown, ?_⟩
    simp only [QueuePrefetcher.step, if_pos hr, Option.isSome_some]
  by_cases hworkers : s.workers = []
  · by_cases hqueue : s.prefetchQueue = []
    · obtain ⟨work, hwork⟩ := List.exists_mem_of_ne_nil _ hheld
      simp only [held, hworkers, hqueue, List.flatMap_nil, List.nil_append] at hwork
      obtain ⟨r, hr, hmem⟩ := List.mem_flatMap.mp hwork
      apply hrequest r hr
      cases r with
      | waiting n entry => cases hmem
      | _ => rfl
    · cases hfinishing : s.finishing with
      | true =>
        refine ⟨.cancel, rfl, ?_⟩
        obtain ⟨work, rest, hcons⟩ := List.exists_cons_of_ne_nil hqueue
        simp only [QueuePrefetcher.step, hcons, if_pos (And.intro hfinishing hworkers),
          Option.isSome_some]
      | false =>
        rcases h.awake hfinishing hqueue with hsome | ⟨r, hr, hwakes⟩
        · exact absurd hworkers hsome
        · apply hrequest r hr
          cases r with
          | waiting n entry => cases hwakes
          | _ => rfl
  · obtain ⟨w, hw⟩ := List.exists_mem_of_ne_nil _ hworkers
    refine ⟨.work w false, rfl, ?_⟩
    simp only [QueuePrefetcher.step, if_pos hw, Option.isSome_some]

theorem staffed_initial (c : PrefetchSetup V) : (initial c).Staffed c where
  workers_le := by
    rcases c.valid with ⟨-, hzero⟩ | ⟨-, hpos⟩
    · exact hzero.ge
    · exact hpos.le
  counted _ := rfl
  finished _ := rfl
  inactive _ := rfl
  awake _ hne := absurd rfl hne

theorem served_of_ledger (h : s.Staffed c)
    (hledger : PrefetchLedger c history s.held s.reserved) : s.Served c history where
  once := hledger.once
  values := hledger.values
  workers_le := h.workers_le
  awake := h.awake
  progress := h.progress
  ends actions final t hown hexec := by
    have hle := length_le_stepsLeft hown hexec
    omega
  destroyed hdestroyed ticket hticket := by
    obtain ⟨hfinishing, hworkers, hqueue⟩ := hdestroyed
    have hcount := hledger.once ticket
    have hheld : s.held = [] := by
      simp only [held, hqueue, hworkers, h.finished hfinishing]
      rfl
    rw [if_pos hticket, hheld] at hcount
    exact hcount

/-- Whatever the order of the steps, if the device is activated for each worker that begins,
every handle is finished once, and the queue is served by no more workers than threads. -/
theorem run_served (c : PrefetchSetup V) {history : List (PrefetchEvent V)}
    {s : QueuePrefetcher V} (hrun : Run (step c) Activates (initial c) history s) :
    s.Served c history := by
  have hinv : s.Staffed c ∧ PrefetchLedger c history s.held s.reserved := by
    apply hrun.invariant fun history s =>
      s.Staffed c ∧ PrefetchLedger c history s.held s.reserved
    · exact ⟨staffed_initial c, PrefetchLedger.initial c⟩
    · intro history s a t event hinv hactivates hstep
      exact ⟨hinv.1.step hactivates hstep, step_ledger hstep hinv.2⟩
  exact served_of_ledger hinv.1 hinv.2

/-- Two frames ahead of a clip of ten frames, with one thread. -/
def oneThread : PrefetchSetup ℤ where
  child := id
  numFrames := 10
  prefetchFrames := 2
  numThreads := 1
  valid := .inr ⟨by decide, by decide⟩

/-- The first frame is requested, and the next one is put into the queue. -/
def queueNext : List PrefetchAction := [
  .getFrame 0 0,
  .request (.reserved (0, ⟨0, 1⟩)) false,
  .request (.producing (0, ⟨0, 1⟩)) false,
  .request (.scheduling 0 1 0) false,
  .request (.holding 0 (1, ⟨1, 2⟩) 0) false,
  .request (.scheduling 0 2 1) false]

/-- A prefetcher is destroyed after its worker has failed. -/
theorem run_served_destroyed :
    ∃ (history : List (PrefetchEvent ℤ)) (s : QueuePrefetcher ℤ),
      s.Served oneThread history ∧ s.Destroyed ∧ s.reserved = 2 := by
  obtain ⟨history, s, hrun, hcheck⟩ := exists_run (step oneThread) Activates (initial oneThread)
    (queueNext ++ [.work .queued false, .work .idle false, .work (.working (1, ⟨1, 2⟩)) true,
      .destroy, .work (.failed (1, ⟨1, 2⟩)) false, .work .idle false])
    (fun _ s => s.finishing && s.workers.isEmpty && s.prefetchQueue.isEmpty && s.reserved == 2)
    (by decide)
  simp only [Bool.and_eq_true, List.isEmpty_iff, beq_iff_eq] at hcheck
  exact ⟨history, s, run_served oneThread hrun, ⟨hcheck.1.1.1, hcheck.1.1.2, hcheck.1.2⟩,
    hcheck.2⟩

/-- When the device cannot be activated, the work stays in the queue and no worker is there. -/
theorem failedActivation_notServed :
    ¬∀ (c : PrefetchSetup ℤ) (history : List (PrefetchEvent ℤ)) (s : QueuePrefetcher ℤ),
      Run (step c) always (initial c) history s → s.Served c history := by
  intro hall
  obtain ⟨history, s, hrun, hcheck⟩ := exists_run (step oneThread) always (initial oneThread)
    (queueNext ++ [.work .queued true])
    (fun _ s => !s.finishing && !s.prefetchQueue.isEmpty && s.workers.isEmpty &&
      s.requests.isEmpty) (by decide)
  simp only [Bool.and_eq_true, Bool.not_eq_true', List.isEmpty_eq_false_iff,
    List.isEmpty_iff] at hcheck
  obtain ⟨⟨⟨hrunning, hqueue⟩, hworkers⟩, hrequests⟩ := hcheck
  rcases (hall oneThread history s hrun).awake hrunning hqueue with hsome | ⟨r, hr, -⟩
  · exact hsome hworkers
  · rw [hrequests] at hr
    cases hr

end QueuePrefetcher

end AviSynth
