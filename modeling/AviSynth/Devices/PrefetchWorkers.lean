import AviSynth.Devices.QueuePrefetcher

/-!
# The workers of a prefetcher

As long as the device is activated for every worker that begins, the workers are those
that are counted, there are no more of them than threads, and queued work has a worker or
a request that is about to start one.
-/

namespace AviSynth

namespace QueuePrefetcher

variable {V : Type} {c : PrefetchSetup V} {s t : QueuePrefetcher V} {event : PrefetchEvent V}
  {work : PrefetchWork} {r : PrefetchRequest} {w : PrefetchWorker}

/-- The workers: as many as are counted, and enough for the work that is queued. -/
structure Staffed (c : PrefetchSetup V) (s : QueuePrefetcher V) : Prop where
  workers_le : (s.workers.length : ℤ) ≤ c.numThreads
  counted : s.finishing = false → s.numWorkers = s.workers.length
  finished : s.finishing = true → s.requests = []
  inactive : c.prefetchFrames = 0 → s.requests = []
  awake : s.finishing = false → s.prefetchQueue ≠ [] →
    s.workers ≠ [] ∨ ∃ r ∈ s.requests, r.wakes = true

section

variable (h : s.Staffed c)
include h

/-- There are requests only before the destructor, and with threads. -/
theorem Staffed.active (hr : r ∈ s.requests) :
    s.finishing = false ∧ 0 < c.numThreads := by
  constructor
  · cases hfinishing : s.finishing with
    | false => rfl
    | true =>
      rw [h.finished hfinishing] at hr
      cases hr
  · rcases c.valid with ⟨hzero, -⟩ | ⟨-, hpos⟩
    · rw [h.inactive hzero] at hr
      cases hr
    · exact hpos

/-- The others that are waiting to start workers are still there. -/
theorem Staffed.awake_erase (hr : r ∈ s.requests) (hqueue : s.prefetchQueue ≠ [])
    (hwakes : r.wakes = false) :
    s.workers ≠ [] ∨ ∃ r' ∈ s.requests.erase r, r'.wakes = true := by
  rcases h.awake (h.active hr).1 hqueue with hworkers | ⟨r', hr', hwakes'⟩
  · exact .inl hworkers
  · refine .inr ⟨r', ?_, hwakes'⟩
    apply (List.mem_erase_of_ne _).mpr hr'
    rintro rfl
    rw [hwakes] at hwakes'
    cases hwakes'

/-- A request goes on, or comes to an end, as `rs`, and queues nothing. -/
theorem Staffed.request (hr : r ∈ s.requests) (rs : List PrefetchRequest)
    (hrs : r.wakes = true → ∃ r' ∈ rs, r'.wakes = true)
    (hworkers : t.workers = s.workers) (hnumWorkers : t.numWorkers = s.numWorkers)
    (hfinishing : t.finishing = s.finishing) (hqueue : t.prefetchQueue = s.prefetchQueue)
    (hrequests : t.requests = rs ++ s.requests.erase r) : t.Staffed c := by
  obtain ⟨hrunning, hthreads⟩ := h.active hr
  constructor
  · rw [hworkers]
    exact h.workers_le
  · intro _
    rw [hnumWorkers, hworkers]
    exact h.counted hrunning
  · intro hend
    rw [hfinishing, hrunning] at hend
    cases hend
  · intro hzero
    rw [h.inactive hzero] at hr
    cases hr
  · intro _ hne
    rw [hqueue] at hne
    rw [hworkers, hrequests]
    cases hwakes : r.wakes with
    | true =>
      obtain ⟨r', hr', hwakes'⟩ := hrs hwakes
      exact .inr ⟨r', List.mem_append_left _ hr', hwakes'⟩
    | false =>
      rcases h.awake_erase hr hne hwakes with hsome | ⟨r', hr', hwakes'⟩
      · exact .inl hsome
      · exact .inr ⟨r', List.mem_append_right _ hr', hwakes'⟩

variable {numQueued : ℕ}

/-- A request starts workers. -/
theorem Staffed.wakeUp {currentN n : ℤ} (hr : .scheduling currentN n numQueued ∈ s.requests) :
    ((wakeUp c { s with requests := s.requests.erase (.scheduling currentN n numQueued) }
      numQueued).Staffed c) := by
  obtain ⟨hrunning, hthreads⟩ := h.active hr
  have hcounted := h.counted hrunning
  have hle := h.workers_le
  constructor
  · simp only [QueuePrefetcher.wakeUp, List.length_append, List.length_replicate]
    omega
  · intro _
    simp only [QueuePrefetcher.wakeUp, List.length_append, List.length_replicate]
    omega
  · intro hend
    have hend' : s.finishing = true := hend
    rw [hrunning] at hend'
    cases hend'
  · intro hzero
    rw [h.inactive hzero] at hr
    cases hr
  · intro _ hne
    have hqueue : s.prefetchQueue ≠ [] := hne
    by_cases hworkers : s.workers = []
    · cases hnumQueued : numQueued with
      | zero =>
        subst hnumQueued
        rcases h.awake_erase hr hqueue rfl with hsome | ⟨r', hr', hwakes⟩
        · exact absurd hworkers hsome
        · exact .inr ⟨r', hr', hwakes⟩
      | succ k =>
        left
        rw [hworkers, List.length_nil] at hcounted
        have hone : min (c.numThreads - s.numWorkers).toNat (k + 1) ≠ 0 := by omega
        simp only [QueuePrefetcher.wakeUp, hworkers, List.append_nil, ne_eq,
          List.replicate_eq_nil_iff]
        exact hone
    · left
      intro hnil
      exact hworkers (List.append_eq_nil_iff.mp hnil).2

/-- A request queues the handle it holds. -/
theorem Staffed.enqueue {currentN : ℤ} (hr : .holding currentN work numQueued ∈ s.requests) :
    (proceed c { s with requests := s.requests.erase (.holding currentN work numQueued) } false
      (.holding currentN work numQueued)).1.Staffed c := by
  obtain ⟨hrunning, hthreads⟩ := h.active hr
  constructor
  · exact h.workers_le
  · exact h.counted
  · intro hend
    have hend' : s.finishing = true := hend
    rw [hrunning] at hend'
    cases hend'
  · intro hzero
    rw [h.inactive hzero] at hr
    cases hr
  · intro _ _
    refine .inr ⟨.scheduling currentN (work.1 + 1) (numQueued + 1), List.mem_cons_self, ?_⟩
    exact decide_eq_true (Nat.succ_pos numQueued)

theorem staffed_lookedUp {n : ℤ} {entry : EntryPtr} (hr : .waiting n entry ∈ s.requests)
    (videoCache : LruCache ℤ V) (result : LruLookup V) :
    (lookedUp { s with requests := s.requests.erase (.waiting n entry) } n videoCache
      result).1.Staffed c := by
  cases result with
  | notFound | foundAndReady => exact h.request hr [_] nofun rfl rfl rfl rfl rfl
  | foundButNotAvail => exact h.request hr [] nofun rfl rfl rfl rfl rfl
  | noCache | waiting => exact h.request hr [_] nofun rfl rfl rfl rfl rfl

theorem staffed_scheduled {currentN n : ℤ} (hr : .scheduling currentN n numQueued ∈ s.requests)
    (videoCache : LruCache ℤ V) (result : LruLookup V) :
    (scheduled { s with requests := s.requests.erase (.scheduling currentN n numQueued) }
      currentN n numQueued videoCache result).1.Staffed c := by
  have hwakes : ∀ r : PrefetchRequest,
      r.wakes = PrefetchRequest.wakes (.scheduling currentN n numQueued) →
        PrefetchRequest.wakes (.scheduling currentN n numQueued) = true →
          ∃ r' ∈ [r], r'.wakes = true := by
    intro r hsame hsome
    exact ⟨r, List.mem_singleton_self r, hsame.trans hsome⟩
  have hmore := hwakes (.scheduling currentN (n + 1) numQueued) rfl
  cases result with
  | notFound p =>
    have hholding := hwakes (.holding currentN (n, ⟨s.reserved, p⟩) numQueued) rfl
    exact h.request hr [_] hholding rfl rfl rfl rfl rfl
  | foundAndReady | foundButNotAvail | noCache | waiting =>
    exact h.request hr [_] hmore rfl rfl rfl rfl rfl

theorem staffed_proceed (hr : r ∈ s.requests) (throws : Bool) :
    (proceed c { s with requests := s.requests.erase r } throws r).1.Staffed c := by
  cases r with
  | waiting n entry => exact staffed_lookedUp h hr _ _
  | reserved work | producing work =>
    simp only [proceed]
    split
    · exact h.request hr [_] nofun rfl rfl rfl rfl rfl
    · exact h.request hr [_] nofun rfl rfl rfl rfl rfl
  | failed work => exact h.request hr [] nofun rfl rfl rfl rfl rfl
  | direct n =>
    simp only [proceed]
    split
    · exact h.request hr [] nofun rfl rfl rfl rfl rfl
    · exact h.request hr [_] nofun rfl rfl rfl rfl rfl
  | scheduling currentN n numQueued =>
    simp only [proceed]
    split
    · exact staffed_scheduled h hr _ _
    · exact h.wakeUp hr
  | holding currentN work numQueued => exact h.enqueue hr

/-- A worker goes on as another one. -/
theorem Staffed.worker (hw : w ∈ s.workers) {w' : PrefetchWorker}
    (hworkers : t.workers = w' :: s.workers.erase w) (hnumWorkers : t.numWorkers = s.numWorkers)
    (hfinishing : t.finishing = s.finishing) (hrequests : t.requests = s.requests) :
    t.Staffed c := by
  have hlength : t.workers.length = s.workers.length := by
    rw [hworkers, List.length_cons, List.length_erase_of_mem hw]
    exact Nat.succ_pred (List.length_pos_of_mem hw).ne'
  constructor
  · rw [hlength]
    exact h.workers_le
  · intro hrunning
    rw [hlength, hnumWorkers]
    exact h.counted (hfinishing.symm.trans hrunning)
  · intro hend
    rw [hrequests]
    exact h.finished (hfinishing.symm.trans hend)
  · rw [hrequests]
    exact h.inactive
  · intro _ _
    left
    rw [hworkers]
    exact List.cons_ne_nil _ _

/-- A worker leaves its loop when the queue is empty. -/
theorem Staffed.leave (hw : w ∈ s.workers) (hqueue : s.prefetchQueue = []) :
    Staffed c { s with workers := s.workers.erase w, numWorkers := s.numWorkers - 1 } := by
  have hlength := List.length_erase_of_mem hw
  have hpos := List.length_pos_of_mem hw
  have hle := h.workers_le
  constructor
  · simp only
    omega
  · intro hrunning
    have hcounted := h.counted hrunning
    simp only
    omega
  · exact h.finished
  · exact h.inactive
  · intro _ hne
    exact absurd hqueue hne

/-- The device is activated for a worker that begins. -/
theorem staffed_threadWorker (hw : w ∈ s.workers) {throws : Bool}
    (hactivates : s.Activates (.work w throws)) :
    (threadWorker c { s with workers := s.workers.erase w } throws w).1.Staffed c := by
  cases w with
  | queued =>
    have hthrows : throws = false := hactivates
    subst hthrows
    exact h.worker hw rfl rfl rfl rfl
  | idle =>
    simp only [threadWorker]
    split
    · next hqueue => exact h.leave hw hqueue
    · exact h.worker hw rfl rfl rfl rfl
  | working work =>
    simp only [threadWorker]
    split
    · exact h.worker hw rfl rfl rfl rfl
    · exact h.worker hw rfl rfl rfl rfl
  | failed work => exact h.worker hw rfl rfl rfl rfl

/-- A request begins. -/
theorem Staffed.begin_ (hrunning : s.finishing = false)
    (hframes : c.prefetchFrames ≠ 0) (n : ℤ) (videoCache : LruCache ℤ V)
    (result : LruLookup V) : (s.lookedUp n videoCache result).1.Staffed c := by
  have hmore : ∀ (t : QueuePrefetcher V) (rs : List PrefetchRequest), t.workers = s.workers →
      t.numWorkers = s.numWorkers → t.finishing = s.finishing →
        t.prefetchQueue = s.prefetchQueue → t.requests = rs ++ s.requests → t.Staffed c := by
    intro t rs hworkers hnumWorkers hfinishing hqueue hrequests
    constructor
    · rw [hworkers]
      exact h.workers_le
    · intro _
      rw [hnumWorkers, hworkers]
      exact h.counted hrunning
    · intro hend
      rw [hfinishing, hrunning] at hend
      cases hend
    · intro hzero
      exact absurd hzero hframes
    · intro _ hne
      rw [hqueue] at hne
      rw [hworkers, hrequests]
      rcases h.awake hrunning hne with hsome | ⟨r', hr', hwakes⟩
      · exact .inl hsome
      · exact .inr ⟨r', List.mem_append_right _ hr', hwakes⟩
  cases result with
  | notFound p => exact hmore _ [_] rfl rfl rfl rfl rfl
  | foundAndReady found => exact hmore _ [_] rfl rfl rfl rfl rfl
  | foundButNotAvail => exact hmore _ [] rfl rfl rfl rfl rfl
  | noCache => exact hmore _ [_] rfl rfl rfl rfl rfl
  | waiting p => exact hmore _ [_] rfl rfl rfl rfl rfl

/-- Each step in which no activation fails keeps the workers. -/
theorem Staffed.step {a : PrefetchAction} (hactivates : s.Activates a)
    (hstep : step c s a = some (t, event)) : t.Staffed c := by
  cases a with
  | getFrame n suppressThreadCount =>
    simp only [QueuePrefetcher.step] at hstep
    split at hstep
    · cases hstep
    · next hrunning =>
      split at hstep
      · cases hstep
        exact h
      · next hframes =>
        have heq := congrArg Prod.fst (Option.some.inj hstep)
        have hstaffed := h.begin_ (Bool.eq_false_iff.mpr hrunning)
          (fun hzero => hframes (.inl hzero)) n (s.videoCache.lookup n true none).2.2
          (s.videoCache.lookup n true none).1
        rwa [heq] at hstaffed
  | request r throws =>
    simp only [QueuePrefetcher.step] at hstep
    split at hstep
    · next hr =>
      have heq := congrArg Prod.fst (Option.some.inj hstep)
      have hstaffed := staffed_proceed h hr throws
      rwa [heq] at hstaffed
    · cases hstep
  | work w throws =>
    simp only [QueuePrefetcher.step] at hstep
    split at hstep
    · next hw =>
      have heq := congrArg Prod.fst (Option.some.inj hstep)
      have hstaffed := staffed_threadWorker h hw hactivates
      rwa [heq] at hstaffed
    · cases hstep
  | destroy =>
    simp only [QueuePrefetcher.step] at hstep
    split at hstep
    · next hend =>
      cases hstep
      have hlength := List.length_filter_le (fun w => decide (w ≠ .queued)) s.workers
      have hle := h.workers_le
      constructor
      · simp only
        omega
      · exact nofun
      · exact fun _ => hend.2
      · exact fun _ => hend.2
      · exact nofun
    · cases hstep
  | cancel =>
    simp only [QueuePrefetcher.step] at hstep
    split at hstep
    · cases hstep
    · split at hstep
      · next hend =>
        cases hstep
        constructor
        · exact h.workers_le
        · exact h.counted
        · exact h.finished
        · exact h.inactive
        · intro hrunning
          have hrunning' : s.finishing = false := hrunning
          rw [hend.1] at hrunning'
          cases hrunning'
      · cases hstep

end

end QueuePrefetcher

end AviSynth
