import Mathlib.Data.List.Basic

/-!
# Runs of labelled partial transitions

A component is given by a partial step function: an action either is not
enabled in a state, or leads to one next state and reports one event. A run
starts in a fixed state, obeys a condition on every step, and keeps the events
it reported, newest first. The rules here turn a fact about one step into a
fact about every state and every event of every run.
-/

namespace Transition

variable {S A E : Type*}

/-- The condition that every step meets. -/
def always : S → A → Prop := fun _ _ => True

instance (s : S) (a : A) : Decidable (always s a) := inferInstanceAs (Decidable True)

/-- `Run step ok start history state`: some sequence of enabled actions, each
meeting `ok` in the state it is taken in, leads from `start` to `state` and
reports the events of `history`, newest first. -/
inductive Run (step : S → A → Option (S × E)) (ok : S → A → Prop) (start : S) :
    List E → S → Prop
  | init : Run step ok start [] start
  | step {history : List E} {s t : S} {a : A} {e : E} :
      Run step ok start history s → ok s a → step s a = some (t, e) →
      Run step ok start (e :: history) t

variable {step : S → A → Option (S × E)} {ok : S → A → Prop} {start : S}

/-- The invariant rule: what holds at the start and is preserved by every step
that meets the condition holds in every state a run reaches. The invariant may
speak about the history. -/
theorem Run.invariant {history : List E} {s : S} (hrun : Run step ok start history s)
    (Inv : List E → S → Prop) (hstart : Inv [] start)
    (hstep : ∀ {history s t a e}, Inv history s → ok s a → step s a = some (t, e) →
      Inv (e :: history) t) : Inv history s := by
  induction hrun with
  | init => exact hstart
  | step _ hok hs ih => exact hstep ih hok hs

/-- Every event of the history, together with the history before it, satisfies `P`. -/
def AllEvents (P : List E → E → Prop) : List E → Prop
  | [] => True
  | e :: earlier => P earlier e ∧ AllEvents P earlier

instance decidableAllEvents {P : List E → E → Prop} [∀ earlier e, Decidable (P earlier e)] :
    (history : List E) → Decidable (AllEvents P history)
  | [] => isTrue trivial
  | _ :: earlier =>
    have := decidableAllEvents (P := P) earlier
    inferInstanceAs (Decidable (_ ∧ _))

/-- The event rule: if the invariant makes every step report an event that is
right after the history so far, all events of a run are right. -/
theorem Run.allEvents {history : List E} {s : S} (hrun : Run step ok start history s)
    (Inv : List E → S → Prop) {P : List E → E → Prop} (hstart : Inv [] start)
    (hstep : ∀ {history s t a e}, Inv history s → ok s a → step s a = some (t, e) →
      Inv (e :: history) t ∧ P history e) : AllEvents P history := by
  suffices h : Inv history s ∧ AllEvents P history from h.2
  induction hrun with
  | init => exact ⟨hstart, trivial⟩
  | step _ hok hs ih =>
    obtain ⟨hinv, hevents⟩ := ih
    obtain ⟨hinv', hevent⟩ := hstep hinv hok hs
    exact ⟨hinv', hevent, hevents⟩

/-- Execute a list of actions that all meet the condition, collecting the events
on top of `history`. -/
def exec (step : S → A → Option (S × E)) (ok : S → A → Prop) [∀ s a, Decidable (ok s a)] :
    List A → List E → S → Option (List E × S)
  | [], history, s => some (history, s)
  | a :: as, history, s =>
    if ok s a then (step s a).bind fun next => exec step ok as (next.2 :: history) next.1
    else none

/-- A successful execution from the end of a run extends that run. -/
theorem Run.exec [∀ s a, Decidable (ok s a)] {history final : List E} {s t : S}
    (hrun : Run step ok start history s) (actions : List A)
    (hexec : Transition.exec step ok actions history s = some (final, t)) :
    Run step ok start final t := by
  induction actions generalizing history s with
  | nil =>
    obtain ⟨⟩ := Option.some.inj hexec
    exact hrun
  | cons a as ih =>
    simp only [Transition.exec, Option.ite_none_right_eq_some] at hexec
    obtain ⟨hok, hexec⟩ := hexec
    obtain ⟨⟨next, e⟩, hstep, hrest⟩ := Option.bind_eq_some_iff.mp hexec
    exact ih (hrun.step hok hstep) hrest

/-- What a check computes of an execution holds of some run. -/
theorem exists_run (step : S → A → Option (S × E)) (ok : S → A → Prop)
    [∀ s a, Decidable (ok s a)] (start : S) (actions : List A) (check : List E → S → Bool)
    (hexec : (exec step ok actions [] start).any (fun r => check r.1 r.2) = true) :
    ∃ history s, Run step ok start history s ∧ check history s = true := by
  cases hsome : exec step ok actions [] start with
  | none => simp only [hsome, Option.any_none, Bool.false_eq_true] at hexec
  | some r =>
    have hcheck : check r.1 r.2 = true := by simpa only [hsome, Option.any_some] using hexec
    exact ⟨r.1, r.2, Run.init.exec actions hsome, hcheck⟩

end Transition
