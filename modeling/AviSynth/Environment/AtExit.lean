import AviSynth.Library.Runs
import Mathlib.Data.List.Nodup

/-!
# Callbacks at the end of the environment

`AtExit` puts a record on a list, and the destructor of the environment calls the
functions of the list, the newest one first. A callback may register others while
it runs. The list then has a new head when the callback returns, and that head is
what `Execute` deletes.
-/

namespace AviSynth

/-- `AtExitRec`. The number tells apart the records that have been made. -/
structure AtExitRec where
  func : ℕ
  userData : ℕ
  number : ℕ
  deriving DecidableEq

/-- What happens to a record. -/
inductive ExitEvent where
  | added (r : AtExitRec)
  /-- Its function is called with its user data. -/
  | ran (r : AtExitRec)
  | freed (r : AtExitRec)
  deriving DecidableEq

/-- `AtExiter`, with everything else that callbacks see and change as `env`. -/
structure AtExiter (σ : Type) where
  atexitList : List AtExitRec
  created : ℕ
  env : σ
  /-- What has happened, newest first. -/
  log : List ExitEvent

namespace AtExiter

variable {σ : Type}

/-- The constructor. -/
def new (env : σ) : AtExiter σ := ⟨[], 0, env, []⟩

/-- `Add`. -/
def add (s : AtExiter σ) (f d : ℕ) : AtExiter σ :=
  { s with
    atexitList := ⟨f, d, s.created⟩ :: s.atexitList
    created := s.created + 1
    log := .added ⟨f, d, s.created⟩ :: s.log }

/-- A sequence of registrations, each a function with its user data. -/
def addAll (s : AtExiter σ) : List (ℕ × ℕ) → AtExiter σ
  | [] => s
  | (f, d) :: rest => (s.add f d).addAll rest

/-- The functions: what each registers, and what else it does, when it is called
with some user data. -/
abbrev Callbacks (σ : Type) := ℕ → ℕ → σ → List (ℕ × ℕ) × σ

variable (call : Callbacks σ)

/-- The call of the function of a record. -/
def runCallback (r : AtExitRec) (s : AtExiter σ) : AtExiter σ :=
  { s with
    env := (call r.func r.userData s.env).2
    log := .ran r :: s.log }.addAll (call r.func r.userData s.env).1

/-- `delete atexit_list`. -/
def deleteHead (s : AtExiter σ) : AtExiter σ :=
  match s.atexitList with
  | [] => s
  | r :: _ => { s with log := .freed r :: s.log }

/-- The loop of `Execute`, entered with the given list. -/
def executeFrom : List AtExitRec → AtExiter σ → AtExiter σ
  | [], s => s
  | r :: next, s =>
    -- `next` was read before the call; what the callback added is not in it.
    executeFrom next { deleteHead (runCallback call r s) with atexitList := next }

/-- `Execute`. -/
def execute (s : AtExiter σ) : AtExiter σ := executeFrom call s.atexitList s

/-- The registrations before the shutdown, and the shutdown. -/
def shutdown (registered : List (ℕ × ℕ)) (env : σ) : AtExiter σ :=
  execute call ((new env).addAll registered)

/-- The records that have been added and not run, the newest one first. -/
def pending : List ExitEvent → List AtExitRec
  | [] => []
  | .added r :: log => r :: pending log
  | .ran r :: log => (pending log).erase r
  | .freed _ :: log => pending log

/-- Every record has been run once and freed once, and each was the newest of those
still pending when its function was called. -/
structure Orderly (log : List ExitEvent) : Prop where
  once : ∀ r, .added r ∈ log → log.count (.ran r) = 1 ∧ log.count (.freed r) = 1
  newest : Transition.AllEvents
    (fun earlier e => ∀ r, e = .ran r → (pending earlier).head? = some r) log

/-- No function registers another, when they are called in turn. -/
def RegistersNothing : List (ℕ × ℕ) → σ → Prop
  | [], _ => True
  | (f, d) :: rest, env =>
    (call f d env).1 = [] ∧ RegistersNothing rest (call f d env).2

/-- The records that registrations make, the newest one first, numbered from `n` on. -/
def records (n : ℕ) : List (ℕ × ℕ) → List AtExitRec
  | [] => []
  | (f, d) :: rest => records (n + 1) rest ++ [⟨f, d, n⟩]

theorem records_reverse (n : ℕ) (registered : List (ℕ × ℕ)) :
    (records n registered).map (fun r => (r.func, r.userData)) = registered.reverse := by
  induction registered generalizing n with
  | nil => rfl
  | cons fd rest ih => simp [records, ih]

theorem le_number_of_mem_records {n : ℕ} {registered : List (ℕ × ℕ)} {r : AtExitRec}
    (hr : r ∈ records n registered) : n ≤ r.number ∧ r.number < n + registered.length := by
  induction registered generalizing n with
  | nil => cases hr
  | cons fd rest ih =>
    rw [List.length_cons]
    rcases List.mem_append.mp hr with hr | hr
    · have hbounds := ih hr
      omega
    · obtain rfl := List.mem_singleton.mp hr
      exact ⟨Nat.le_refl n, Nat.lt_add_of_pos_right (Nat.succ_pos _)⟩

theorem records_nodup (n : ℕ) (registered : List (ℕ × ℕ)) : (records n registered).Nodup := by
  induction registered generalizing n with
  | nil => exact List.nodup_nil
  | cons fd rest ih =>
    refine List.nodup_append.mpr ⟨ih (n + 1), List.pairwise_singleton _ _, ?_⟩
    rintro r hr r' hr' rfl
    obtain rfl := List.mem_singleton.mp hr'
    have hlow := (le_number_of_mem_records hr).1
    exact absurd hlow (Nat.not_succ_le_self n)

theorem addAll_eq (s : AtExiter σ) (registered : List (ℕ × ℕ)) :
    s.addAll registered =
      { s with
        atexitList := records s.created registered ++ s.atexitList
        created := s.created + registered.length
        log := (records s.created registered).map .added ++ s.log } := by
  induction registered generalizing s with
  | nil => rfl
  | cons fd rest ih =>
    have hnext : s.addAll (fd :: rest) = (s.add fd.1 fd.2).addAll rest := rfl
    rw [hnext, ih]
    simp only [add, records, List.append_assoc, List.map_append, List.map_cons, List.map_nil,
      List.cons_append, List.nil_append, List.length_cons, AtExiter.mk.injEq, true_and, and_true]
    omega

variable {call} {s : AtExiter σ} {r : AtExitRec} {l : List AtExitRec}

/-- One pass of the loop: the function is called, the head of the list is deleted. -/
theorem pass_log (call : ℕ → ℕ → σ → List (ℕ × ℕ) × σ) (s : AtExiter σ) (r : AtExitRec) :
    ∃ freed : List ExitEvent, (∀ e ∈ freed, ∃ r, e = .freed r) ∧
      (deleteHead (runCallback call r s)).log =
        freed ++ (records s.created (call r.func r.userData s.env).1).map .added ++
          .ran r :: s.log := by
  have hrun : (runCallback call r s).log =
      (records s.created (call r.func r.userData s.env).1).map .added ++ .ran r :: s.log := by
    rw [runCallback, addAll_eq]
  unfold deleteHead
  split
  · exact ⟨[], by simp, by rw [hrun, List.nil_append]⟩
  · rename_i head _ _
    exact ⟨[.freed head], by simp, by simp [hrun]⟩

theorem pass_env (call : ℕ → ℕ → σ → List (ℕ × ℕ) × σ) (s : AtExiter σ) (r : AtExitRec) :
    (deleteHead (runCallback call r s)).env = (call r.func r.userData s.env).2 ∧
      (deleteHead (runCallback call r s)).created =
        s.created + (call r.func r.userData s.env).1.length := by
  have hrun : (runCallback call r s).env = (call r.func r.userData s.env).2 ∧
      (runCallback call r s).created =
        s.created + (call r.func r.userData s.env).1.length := by
    rw [runCallback, addAll_eq]
    exact ⟨rfl, rfl⟩
  unfold deleteHead
  split
  · exact hrun
  · exact hrun

/-- Records made before the shutdown are the only ones whose functions are called. -/
theorem ran_mem_executeFrom :
    .ran r ∈ (executeFrom call l s).log ↔ .ran r ∈ s.log ∨ r ∈ l := by
  induction l generalizing s with
  | nil => simp [executeFrom]
  | cons first next ih =>
    obtain ⟨freed, hfreed, hlog⟩ := pass_log call s first
    have hnot : .ran r ∉ freed := by
      intro hmem
      obtain ⟨r', heq⟩ := hfreed _ hmem
      cases heq
    rw [executeFrom, ih, hlog, List.mem_cons]
    simp only [List.mem_append, List.mem_map, reduceCtorEq, and_false, exists_false, or_false,
      List.mem_cons, ExitEvent.ran.injEq, hnot, false_or]
    tauto

/-- What has been logged stays in the log. -/
theorem log_suffix_executeFrom (l : List AtExitRec) (s : AtExiter σ) :
    s.log <:+ (executeFrom call l s).log := by
  induction l generalizing s with
  | nil => exact List.suffix_rfl
  | cons first next ih =>
    obtain ⟨freed, -, hlog⟩ := pass_log call s first
    refine List.IsSuffix.trans ?_ (ih _)
    rw [hlog]
    exact (List.suffix_cons _ _).trans (List.suffix_append _ _)

/-- A callback that registers another adds a record whose function is never called. -/
theorem exists_lost
    (hregisters : ¬RegistersNothing call (l.map fun r => (r.func, r.userData)) s.env) :
    ∃ r, .added r ∈ (executeFrom call l s).log ∧ s.created ≤ r.number := by
  induction l generalizing s with
  | nil => exact absurd trivial hregisters
  | cons first next ih =>
    obtain ⟨freed, -, hlog⟩ := pass_log call s first
    cases hadded : (call first.func first.userData s.env).1 with
    | cons fd rest =>
      have hmem : (⟨fd.1, fd.2, s.created⟩ : AtExitRec) ∈
          records s.created (call first.func first.userData s.env).1 := by
        rw [hadded]
        exact List.mem_append_right _ (List.mem_singleton.mpr rfl)
      refine ⟨⟨fd.1, fd.2, s.created⟩, ?_, Nat.le_refl _⟩
      apply (log_suffix_executeFrom next _).subset
      rw [hlog]
      simp [hmem]
    | nil =>
      obtain ⟨henv, hcreated⟩ := pass_env call s first
      rw [hadded] at hcreated
      have hrest : ¬RegistersNothing call (next.map fun r => (r.func, r.userData))
          (deleteHead (runCallback call first s)).env := by
        rw [henv]
        exact fun h => hregisters ⟨hadded, h⟩
      obtain ⟨r, hr, hnumber⟩ :=
        ih (s := { deleteHead (runCallback call first s) with atexitList := next }) hrest
      exact ⟨r, hr, Nat.le_trans (Nat.le_of_eq hcreated.symm) hnumber⟩

/-- The events of a loop whose callbacks register nothing. -/
def exitEvents : List AtExitRec → List ExitEvent
  | [] => []
  | r :: next => exitEvents next ++ [.freed r, .ran r]

/-- If no callback registers another, each record of the list is run and then freed. -/
theorem log_executeFrom (hlist : s.atexitList = l)
    (hquiet : RegistersNothing call (l.map fun r => (r.func, r.userData)) s.env) :
    (executeFrom call l s).log = exitEvents l ++ s.log := by
  induction l generalizing s with
  | nil => rfl
  | cons first next ih =>
    obtain ⟨hadded, hquiet⟩ := hquiet
    obtain ⟨henv, -⟩ := pass_env call s first
    have hpass : (deleteHead (runCallback call first s)).log =
        .freed first :: .ran first :: s.log := by
      rw [runCallback, hadded]
      unfold deleteHead addAll
      simp only [hlist]
    rw [executeFrom, ih rfl (by rw [henv]; exact hquiet)]
    simp only [hpass, exitEvents, List.append_assoc, List.cons_append, List.nil_append]

theorem count_exitEvents (l : List AtExitRec) (r : AtExitRec) :
    (exitEvents l).count (.ran r) = l.count r ∧ (exitEvents l).count (.freed r) = l.count r := by
  induction l with
  | nil => exact ⟨rfl, rfl⟩
  | cons first next ih =>
    obtain ⟨hran, hfreed⟩ := ih
    simp [exitEvents, hran, hfreed, List.count_cons]

theorem added_notMem_exitEvents (l : List AtExitRec) (r : AtExitRec) :
    .added r ∉ exitEvents l := by
  induction l with
  | nil => exact List.not_mem_nil
  | cons first next ih => simp [exitEvents, ih]

/-- Each record run is the newest one pending. -/
theorem newest_exitEvents {log : List ExitEvent} (hpending : pending log = l)
    (hlog : Transition.AllEvents
      (fun earlier e => ∀ r, e = .ran r → (pending earlier).head? = some r) log) :
    Transition.AllEvents
      (fun earlier e => ∀ r, e = .ran r → (pending earlier).head? = some r)
      (exitEvents l ++ log) := by
  induction l generalizing log with
  | nil => exact hlog
  | cons first next ih =>
    have hfreed : pending (.freed first :: .ran first :: log) = next := by
      simp only [pending, hpending, List.erase_cons_head]
    have hnewest : Transition.AllEvents
        (fun earlier e => ∀ r, e = .ran r → (pending earlier).head? = some r)
        (.freed first :: .ran first :: log) := by
      refine ⟨fun r h => (nomatch h), fun r h => ?_, hlog⟩
      cases h
      rw [hpending, List.head?_cons]
    have hnext := ih hfreed hnewest
    simpa only [exitEvents, List.append_assoc, List.cons_append, List.nil_append] using hnext

theorem pending_added (l : List AtExitRec) : pending (l.map .added) = l := by
  induction l with
  | nil => rfl
  | cons r l ih => rw [List.map_cons, pending, ih]

theorem newest_added (l : List AtExitRec) : Transition.AllEvents
    (fun earlier e => ∀ r, e = .ran r → (pending earlier).head? = some r) (l.map .added) := by
  induction l with
  | nil => trivial
  | cons r l ih => exact ⟨fun r h => (nomatch h), ih⟩

/-- Every registered callback is run once, the newest pending one first, and every
record freed once, exactly if no callback that was registered before the shutdown
registers another when it is run. -/
theorem shutdown_orderly_iff (registered : List (ℕ × ℕ)) (env : σ) :
    Orderly (shutdown call registered env).log ↔
      RegistersNothing call registered.reverse env := by
  have hstart : (new env).addAll registered =
      ⟨records 0 registered, registered.length, env, (records 0 registered).map .added⟩ := by
    rw [addAll_eq]
    simp [new]
  rw [shutdown, execute, hstart, ← records_reverse 0 registered]
  constructor
  · intro horderly
    by_contra hregisters
    obtain ⟨r, hadded, hnumber⟩ := exists_lost (s := ⟨records 0 registered, registered.length, env,
      (records 0 registered).map .added⟩) hregisters
    have hran := (horderly.once r hadded).1
    have hmem := List.count_pos_iff.mp (by rw [hran]; exact Nat.one_pos)
    rcases ran_mem_executeFrom.mp hmem with hbefore | hlisted
    · simp at hbefore
    · have hlt := (le_number_of_mem_records hlisted).2
      simp only at hnumber
      omega
  · intro hquiet
    rw [log_executeFrom rfl hquiet]
    constructor
    · intro r hadded
      obtain ⟨hran, hfreed⟩ := count_exitEvents (records 0 registered) r
      have hlisted : r ∈ records 0 registered := by
        rcases List.mem_append.mp hadded with hadded | hadded
        · exact absurd hadded (added_notMem_exitEvents _ r)
        · simpa using hadded
      have hone := List.nodup_iff_count_eq_one.mp (records_nodup 0 registered) r hlisted
      have hnone : ∀ e, (∀ r', e ≠ .added r') →
          ((records 0 registered).map ExitEvent.added).count e = 0 := by
        intro e he
        refine List.count_eq_zero.mpr fun hmem => ?_
        obtain ⟨r', -, heq⟩ := List.mem_map.mp hmem
        exact he r' heq.symm
      simp only [List.count_append]
      rw [hran, hfreed, hone, hnone (.ran r) fun _ => ExitEvent.noConfusion,
        hnone (.freed r) fun _ => ExitEvent.noConfusion]
      exact ⟨rfl, rfl⟩
    · exact newest_exitEvents (pending_added _) (newest_added _)

/-- Function 1 registers function 2 when it is called. -/
def registersAnother : Callbacks Unit
  | 1, _, () => ([(2, 0)], ())
  | _, _, () => ([], ())

/-- The new record is deleted in place of the one whose function was called, and its own
function is never called. -/
theorem lateRegistration_lost :
    (shutdown registersAnother [(1, 7)] ()).log =
      [.freed ⟨2, 0, 1⟩, .added ⟨2, 0, 1⟩, .ran ⟨1, 7, 0⟩, .added ⟨1, 7, 0⟩] ∧
    ¬∀ (call : Callbacks Unit) (registered : List (ℕ × ℕ)),
      Orderly (shutdown call registered ()).log := by
  constructor
  · rfl
  · intro horderly
    have hran := ((horderly registersAnother [(1, 7)]).once ⟨2, 0, 1⟩ (by decide)).1
    exact absurd hran (by decide)

end AtExiter

end AviSynth
