import AviSynth.Library.Programs

/-!
# Pre- and postconditions of computations

A computation with exceptions has two postconditions: one of the value that it returns and the
state after it, and one of the exception that it ends with. There is a rule for each way in which
computations are put together. A computation that does not end meets every specification.
-/

namespace Exceptional

variable {σ ε α β : Type} {P : σ → Prop} {Q : α → σ → Prop} {E : ε → σ → Prop}

/-- An end: `Q` of a returned value, `E` of an exception. -/
def Ends (Q : α → σ → Prop) (E : ε → σ → Prop) : Except ε α × σ → Prop
  | (.ok a, s) => Q a s
  | (.error e, s) => E e s

/-- From a state with `P`, the computation returns with `Q` or ends by an exception with `E`,
if it ends. -/
def Meets (P : σ → Prop) (p : Exceptional σ ε α) (Q : α → σ → Prop) (E : ε → σ → Prop) : Prop :=
  ∀ s ended, P s → p s = some ended → Ends Q E ended

/-- A computation that returns something about the state, and may change it. -/
theorem meets_step {f : σ → α} {g : σ → σ} (h : ∀ s, P s → Q (f s) (g s)) :
    Meets P (fun s => some (.ok (f s), g s) : Exceptional σ ε α) Q E := by
  intro s ended hs hrun
  obtain rfl := Option.some.inj hrun
  exact h s hs

theorem meets_update {f : σ → σ} {Q : Unit → σ → Prop} (h : ∀ s, P s → Q () (f s)) :
    Meets P (update f : Exceptional σ ε Unit) Q E := meets_step h

theorem meets_pure {a : α} (h : ∀ s, P s → Q a s) :
    Meets P (pure a : Exceptional σ ε α) Q E := meets_step (f := fun _ => a) (g := id) h

theorem meets_raise {e : ε} (h : ∀ s, P s → E e s) :
    Meets P (raise e : Exceptional σ ε α) Q E := by
  intro s ended hs hrun
  obtain rfl := Option.some.inj hrun
  exact h s hs

theorem meets_diverge : Meets P (diverge : Exceptional σ ε α) Q E := by
  intro s ended hs hrun
  cases hrun

namespace Meets

variable {p : Exceptional σ ε α}

/-- The second computation starts from what the first one returns with. -/
theorem bind {R : β → σ → Prop} (hp : Meets P p Q E) {next : α → Exceptional σ ε β}
    (hnext : ∀ a, Meets (Q a) (next a) R E) : Meets P (p >>= next) R E := by
  intro s ended hs hrun
  obtain ⟨⟨first, t⟩, hfirst, hrest⟩ := Option.bind_eq_some_iff.mp hrun
  have hmeets := hp s _ hs hfirst
  cases first with
  | ok a => exact hnext a t ended hmeets hrest
  | error e =>
    obtain rfl := Option.some.inj hrest
    exact hmeets

/-- An attempt returns what it raised. -/
theorem attempt {E' : ε → σ → Prop} {R : Except ε α → σ → Prop} (hp : Meets P p Q E')
    (hok : ∀ a s, Q a s → R (.ok a) s) (herror : ∀ e s, E' e s → R (.error e) s) :
    Meets P p.attempt R E := by
  intro s ended hs hrun
  obtain ⟨⟨result, t⟩, hend, rfl⟩ := Option.map_eq_some_iff.mp hrun
  have hmeets := hp s _ hs hend
  cases result with
  | ok a => exact hok a t hmeets
  | error e => exact herror e t hmeets

end Meets

end Exceptional
