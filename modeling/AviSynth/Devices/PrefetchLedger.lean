import AviSynth.Devices.QueuePrefetcher
import Mathlib.Algebra.Order.Group.Multiset
import Mathlib.Tactic.Abel

/-!
# The handles of a prefetcher

Every handle that has been reserved is either held, by the queue, one worker or one
request, or has been finished once. A step reserves a handle, finishes one that it held,
or moves handles from one holder to another.
-/

namespace AviSynth

open Transition

variable {V : Type} {c : PrefetchSetup V}

/-- How often a handle has been finished. -/
def finishes (ticket : ℕ) (history : List (PrefetchEvent V)) : ℕ :=
  history.countP (PrefetchEvent.finishes ticket)

/-- The tickets of some handles. -/
def tickets (works : Multiset PrefetchWork) : Multiset ℕ := works.map fun work => work.2.ticket

/-- The handles `works` are those that have been reserved and not finished. A committed
value is the frame of the number for which its handle was reserved. -/
structure PrefetchLedger (c : PrefetchSetup V) (history : List (PrefetchEvent V))
    (works : Multiset PrefetchWork) (bound : ℕ) : Prop where
  once : ∀ ticket, finishes ticket history + (tickets works).count ticket =
    if ticket < bound then 1 else 0
  reservations : ∀ work ∈ works, .reserved work.2.ticket work.1 ∈ history
  values : ∀ ticket n value, .committed ticket n value ∈ history →
    .reserved ticket n ∈ history ∧ value = some (c.child n)

namespace PrefetchLedger

variable {history : List (PrefetchEvent V)} {works : Multiset PrefetchWork} {bound : ℕ}
  {work : PrefetchWork}

theorem initial (c : PrefetchSetup V) : PrefetchLedger c [] 0 0 where
  once _ := rfl
  reservations := nofun
  values := nofun

theorem quiet (h : PrefetchLedger c history works bound) :
    PrefetchLedger c (.quiet :: history) works bound where
  once := h.once
  reservations w hw := List.mem_cons_of_mem _ (h.reservations w hw)
  values ticket n value hmem := by
    rcases List.mem_cons.mp hmem with heq | hold
    · cases heq
    · obtain ⟨hreserved, hvalue⟩ := h.values ticket n value hold
      exact ⟨List.mem_cons_of_mem _ hreserved, hvalue⟩

theorem reserve (h : PrefetchLedger c history works bound) (n : ℤ) (entry : EntryPtr) :
    PrefetchLedger c (.reserved bound n :: history) ((n, ⟨bound, entry⟩) ::ₘ works)
      (bound + 1) where
  once ticket := by
    have hcount := h.once ticket
    have hfinishes : finishes ticket (.reserved bound n :: history) =
        finishes ticket history := rfl
    rw [hfinishes, tickets, Multiset.map_cons, Multiset.count_cons]
    simp only [tickets] at hcount
    by_cases hticket : ticket = bound
    · rw [if_neg (by omega)] at hcount
      rw [if_pos hticket, if_pos (by omega)]
      omega
    · rw [if_neg hticket]
      by_cases hlt : ticket < bound
      · rw [if_pos hlt] at hcount
        rw [if_pos (by omega)]
        omega
      · rw [if_neg hlt] at hcount
        rw [if_neg (by omega)]
        omega
  reservations w hw := by
    rcases Multiset.mem_cons.mp hw with rfl | hold
    · exact List.mem_cons_self
    · exact List.mem_cons_of_mem _ (h.reservations w hold)
  values ticket n' value hmem := by
    rcases List.mem_cons.mp hmem with heq | hold
    · cases heq
    · obtain ⟨hreserved, hvalue⟩ := h.values ticket n' value hold
      exact ⟨List.mem_cons_of_mem _ hreserved, hvalue⟩

/-- An event finishes a handle that was held. -/
theorem finish (h : PrefetchLedger c history (work ::ₘ works) bound)
    {event : PrefetchEvent V}
    (hevent : ∀ ticket, event.finishes ticket = decide (work.2.ticket = ticket))
    (hvalue : ∀ ticket n value, event = .committed ticket n value →
      ticket = work.2.ticket ∧ n = work.1 ∧ value = some (c.child n)) :
    PrefetchLedger c (event :: history) works bound where
  once ticket := by
    have hcount := h.once ticket
    rw [tickets, Multiset.map_cons, Multiset.count_cons] at hcount
    have hfinishes : finishes ticket (event :: history) =
        finishes ticket history + if ticket = work.2.ticket then 1 else 0 := by
      rw [finishes, List.countP_cons, hevent, finishes]
      by_cases hticket : ticket = work.2.ticket
      · simp [hticket]
      · simp [hticket, Ne.symm hticket]
    rw [hfinishes, tickets, ← hcount]
    omega
  reservations w hw :=
    List.mem_cons_of_mem _ (h.reservations w (Multiset.mem_cons_of_mem hw))
  values ticket n value hmem := by
    rcases List.mem_cons.mp hmem with heq | hold
    · obtain ⟨rfl, rfl, hframe⟩ := hvalue ticket n value heq.symm
      exact ⟨List.mem_cons_of_mem _ (h.reservations work (Multiset.mem_cons_self _ _)), hframe⟩
    · obtain ⟨hreserved, hframe⟩ := h.values ticket n value hold
      exact ⟨List.mem_cons_of_mem _ hreserved, hframe⟩

end PrefetchLedger

namespace QueuePrefetcher

variable {s t : QueuePrefetcher V} {history : List (PrefetchEvent V)} {event : PrefetchEvent V}
  {work : PrefetchWork} {r : PrefetchRequest} {w : PrefetchWorker} {extra : List PrefetchWork}

/-- A step keeps the ledger. The handles `extra` are those of the thread that takes it. -/
def Records (c : PrefetchSetup V) (s : QueuePrefetcher V) (extra : List PrefetchWork)
    (r : QueuePrefetcher V × PrefetchEvent V) : Prop :=
  ∀ history, PrefetchLedger c history ((extra : Multiset PrefetchWork) + s.held) s.reserved →
    PrefetchLedger c (r.2 :: history) r.1.held r.1.reserved

/-- The handles stay the same. -/
theorem records_quiet (hreserved : t.reserved = s.reserved)
    (hheld : (t.held : Multiset PrefetchWork) = (extra : Multiset PrefetchWork) + s.held) :
    Records c s extra (t, .quiet) := by
  intro history h
  simp only
  rw [hreserved, hheld]
  exact h.quiet

theorem held_addRequest (s : QueuePrefetcher V) (r : PrefetchRequest) :
    ((s.addRequest r).held : Multiset PrefetchWork) =
      (r.held : Multiset PrefetchWork) + s.held := by
  simp only [held, addRequest, List.flatMap_cons, ← Multiset.coe_add]
  abel

theorem held_addWorker (s : QueuePrefetcher V) (w : PrefetchWorker) :
    ((s.addWorker w).held : Multiset PrefetchWork) =
      (w.held : Multiset PrefetchWork) + s.held := by
  simp only [held, addWorker, List.flatMap_cons, ← Multiset.coe_add]
  abel

/-- A request is taken from the others with its handle. -/
theorem held_eraseRequest {r : PrefetchRequest} (hr : r ∈ s.requests) :
    (s.held : Multiset PrefetchWork) =
      (r.held : Multiset PrefetchWork) +
        (held { s with requests := s.requests.erase r } : Multiset PrefetchWork) := by
  rw [← held_addRequest]
  apply Multiset.coe_eq_coe.mpr
  simp only [held, addRequest]
  apply List.Perm.append_left
  apply List.Perm.append_left
  exact (List.perm_cons_erase hr).flatMap_right _

/-- A worker is taken from the others with its handle. -/
theorem held_eraseWorker {w : PrefetchWorker} (hw : w ∈ s.workers) :
    (s.held : Multiset PrefetchWork) =
      (w.held : Multiset PrefetchWork) +
        (held { s with workers := s.workers.erase w } : Multiset PrefetchWork) := by
  rw [← held_addWorker]
  apply Multiset.coe_eq_coe.mpr
  simp only [held, addWorker]
  apply List.Perm.append_left
  apply List.Perm.append_right
  exact (List.perm_cons_erase hw).flatMap_right _

/-- A request goes on with the handle it has. -/
theorem records_request (hreserved : t.reserved = s.reserved) (hheld : t.held = s.held)
    (hr : r.held = extra) :
    Records c s extra (t.addRequest r, .quiet) := by
  apply records_quiet
  · exact hreserved
  · rw [held_addRequest, hheld, hr]

/-- So does a worker. -/
theorem records_worker (hreserved : t.reserved = s.reserved) (hheld : t.held = s.held)
    (hw : w.held = extra) :
    Records c s extra (t.addWorker w, .quiet) := by
  apply records_quiet
  · exact hreserved
  · rw [held_addWorker, hheld, hw]

/-- A request gets a new handle. -/
theorem records_reserve {n : ℤ} {entry : EntryPtr} (hreserved : t.reserved = s.reserved + 1)
    (hheld : t.held = s.held) (hr : r.held = [(n, ⟨s.reserved, entry⟩)]) :
    Records c s [] (t.addRequest r, .reserved s.reserved n) := by
  intro history h
  rw [Multiset.coe_nil, zero_add] at h
  have hlater : (t.addRequest r).reserved = s.reserved + 1 := hreserved
  simp only
  rw [held_addRequest, hheld, hr, hlater, Multiset.coe_singleton, Multiset.singleton_add]
  exact h.reserve n entry

/-- The value that has been committed is the frame. -/
theorem value_commitValue (s : QueuePrefetcher V) (work : PrefetchWork) :
    (s.commitValue c work).2 = .committed work.2.ticket work.1 (some (c.child work.1)) := by
  simp [commitValue, LruCache.commitValue, LruCache.modifyEntry]

theorem records_commit (hreserved : t.reserved = s.reserved)
    (hheld : (t.held : Multiset PrefetchWork) = s.held) :
    Records c s [work] (t, (s.commitValue c work).2) := by
  intro history h
  simp only
  rw [Multiset.coe_singleton, Multiset.singleton_add] at h
  rw [hheld, hreserved, value_commitValue]
  apply h.finish
  · intro ticket
    rfl
  · intro ticket n value heq
    cases heq
    exact ⟨rfl, rfl, rfl⟩

theorem records_rollback (hreserved : t.reserved = s.reserved)
    (hheld : (t.held : Multiset PrefetchWork) = s.held) :
    Records c s [work] (t, .rolledBack work.2.ticket) := by
  intro history h
  simp only
  rw [Multiset.coe_singleton, Multiset.singleton_add] at h
  rw [hheld, hreserved]
  apply h.finish
  · intro ticket
    rfl
  · intro ticket n value heq
    cases heq

theorem records_lookedUp (s : QueuePrefetcher V) (n : ℤ) (videoCache : LruCache ℤ V)
    (result : LruLookup V) : Records c s [] (s.lookedUp n videoCache result) := by
  cases result with
  | notFound entry => exact records_reserve rfl rfl rfl
  | foundAndReady found => exact records_request rfl rfl rfl
  | foundButNotAvail => exact records_quiet rfl (zero_add _).symm
  | noCache => exact records_request rfl rfl rfl
  | waiting entry => exact records_request rfl rfl rfl

theorem records_scheduled (s : QueuePrefetcher V) (currentN n : ℤ) (numQueued : ℕ)
    (videoCache : LruCache ℤ V) (result : LruLookup V) :
    Records c s [] (s.scheduled currentN n numQueued videoCache result) := by
  cases result with
  | notFound entry => exact records_reserve rfl rfl rfl
  | foundAndReady found => exact records_request rfl rfl rfl
  | foundButNotAvail => exact records_request rfl rfl rfl
  | noCache => exact records_request rfl rfl rfl
  | waiting entry => exact records_request rfl rfl rfl

/-- Jobs that have not begun hold nothing. -/
theorem flatMap_queued (n : ℕ) :
    (List.replicate n PrefetchWorker.queued).flatMap PrefetchWorker.held = [] := by
  induction n with
  | zero => rfl
  | succ n ih =>
    rw [List.replicate_succ, List.flatMap_cons, ih]
    rfl

theorem held_wakeUp (s : QueuePrefetcher V) (numQueued : ℕ) :
    (s.wakeUp c numQueued).held = s.held := by
  simp only [held, wakeUp, List.flatMap_append, flatMap_queued, List.nil_append]

theorem records_proceed (s : QueuePrefetcher V) (throws : Bool) (r : PrefetchRequest) :
    Records c s r.held (s.proceed c throws r) := by
  cases r with
  | waiting n entry => exact records_lookedUp s n _ _
  | reserved work =>
    simp only [proceed]
    split
    · exact records_request rfl rfl rfl
    · exact records_request rfl rfl rfl
  | producing work =>
    simp only [proceed]
    split
    · exact records_request rfl rfl rfl
    · apply records_commit
      · rfl
      · exact (held_addRequest _ _).trans (zero_add _)
  | failed work => exact records_rollback rfl rfl
  | direct n =>
    simp only [proceed]
    split
    · exact records_quiet rfl (zero_add _).symm
    · exact records_request rfl rfl rfl
  | scheduling currentN n numQueued =>
    simp only [proceed]
    split
    · exact records_scheduled s currentN n numQueued _ _
    · apply records_quiet
      · rfl
      · rw [held_wakeUp]
        exact (zero_add _).symm
  | holding currentN work numQueued =>
    simp only [proceed]
    apply records_quiet
    · rfl
    · rw [held_addRequest]
      simp only [held, PrefetchRequest.held, ← Multiset.coe_add]
      abel

theorem records_threadWorker (s : QueuePrefetcher V) (throws : Bool) (w : PrefetchWorker) :
    Records c s w.held (s.threadWorker c throws w) := by
  cases w with
  | queued =>
    simp only [threadWorker]
    split
    · exact records_quiet rfl (zero_add _).symm
    · exact records_worker rfl rfl rfl
  | idle =>
    simp only [threadWorker]
    split
    · exact records_quiet rfl (zero_add _).symm
    · next work rest hqueue =>
      apply records_quiet
      · rfl
      · rw [held_addWorker]
        simp only [held, hqueue, PrefetchWorker.held, ← Multiset.cons_coe, ← Multiset.coe_add,
          ← Multiset.singleton_add, Multiset.coe_nil]
        abel
  | working work =>
    simp only [threadWorker]
    split
    · exact records_worker rfl rfl rfl
    · apply records_commit
      · rfl
      · exact (held_addWorker _ _).trans (zero_add _)
  | failed work =>
    apply records_rollback
    · rfl
    · exact (held_addWorker _ _).trans (zero_add _)

/-- The jobs that are dropped hold nothing. -/
theorem flatMap_started (workers : List PrefetchWorker) :
    (workers.filter (· ≠ .queued)).flatMap PrefetchWorker.held =
      workers.flatMap PrefetchWorker.held := by
  induction workers with
  | nil => rfl
  | cons w workers ih =>
    by_cases hw : w = .queued
    · subst hw
      rw [List.filter_cons_of_neg (by decide), ih]
      rfl
    · have hkept : decide (w ≠ .queued) = true := decide_eq_true hw
      rw [List.filter_cons, if_pos hkept, List.flatMap_cons, List.flatMap_cons, ih]

/-- Each step keeps the ledger. -/
theorem step_ledger {a : PrefetchAction} (hstep : step c s a = some (t, event))
    (h : PrefetchLedger c history s.held s.reserved) :
    PrefetchLedger c (event :: history) t.held t.reserved := by
  have hnone : PrefetchLedger c history
      ((([] : List PrefetchWork) : Multiset PrefetchWork) + s.held) s.reserved := by
    rwa [Multiset.coe_nil, zero_add]
  cases a with
  | getFrame n suppressThreadCount =>
    simp only [step] at hstep
    split at hstep
    · cases hstep
    · split at hstep
      · cases hstep
        exact h.quiet
      · have heq := Option.some.inj hstep
        have hledger := records_lookedUp s n (s.videoCache.lookup n true none).2.2
          (s.videoCache.lookup n true none).1 history hnone
        rwa [heq] at hledger
  | request r throws =>
    simp only [step] at hstep
    split at hstep
    · next hr =>
      have heq := Option.some.inj hstep
      rw [held_eraseRequest hr] at h
      have hledger :=
        records_proceed { s with requests := s.requests.erase r } throws r history h
      rwa [heq] at hledger
    · cases hstep
  | work w throws =>
    simp only [step] at hstep
    split at hstep
    · next hw =>
      have heq := Option.some.inj hstep
      rw [held_eraseWorker hw] at h
      have hledger :=
        records_threadWorker { s with workers := s.workers.erase w } throws w history h
      rwa [heq] at hledger
    · cases hstep
  | destroy =>
    simp only [step] at hstep
    split at hstep
    · cases hstep
      simp only [held, flatMap_started]
      exact h.quiet
    · cases hstep
  | cancel =>
    simp only [step] at hstep
    split at hstep
    · cases hstep
    · next work rest hqueue =>
      split at hstep
      · cases hstep
        have hheld : (s.held : Multiset PrefetchWork) =
            (([work] : List PrefetchWork) : Multiset PrefetchWork) +
              (held { s with prefetchQueue := rest } : Multiset PrefetchWork) := by
          simp only [held, hqueue]
          rfl
        rw [hheld] at h
        exact records_rollback (s := { s with prefetchQueue := rest }) rfl rfl history h
      · cases hstep

end QueuePrefetcher

end AviSynth
