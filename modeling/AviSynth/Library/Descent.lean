import AviSynth.Library.Programs
import Mathlib.Data.Nat.Notation

/-!
# Computations that use up what is left

What is left is measured by a number. A recursive descent that is cut off after a number of
levels ends if each level uses something up, and it then gives the same however many more
levels there are. So the rules are about two computations at once.
-/

namespace Exceptional

variable {σ ε α β : Type} {left : σ → ℕ} {m n : ℕ} {s : σ} {p q : Exceptional σ ε α}
  {next next' : α → Exceptional σ ε β}

/-- From `s` both computations end in the same way, and with less than `m` left where they
return. -/
def EndAlike (left : σ → ℕ) (m : ℕ) (p q : Exceptional σ ε α) (s : σ) : Prop :=
  ∃ result t, p s = some (result, t) ∧ q s = some (result, t) ∧ ∀ a, result = .ok a → left t < m

theorem endAlike_pure (a : α) (h : left s < m) :
    EndAlike left m (pure a : Exceptional σ ε α) (pure a) s :=
  ⟨.ok a, s, rfl, rfl, fun _ _ => h⟩

theorem endAlike_raise (e : ε) :
    EndAlike left m (raise e : Exceptional σ ε α) (raise e) s :=
  ⟨.error e, s, rfl, rfl, fun a h => by cases h⟩

theorem endAlike_update (f : σ → σ) (h : left (f s) < m) :
    EndAlike left m (update f : Exceptional σ ε Unit) (update f) s :=
  ⟨.ok (), f s, rfl, rfl, fun _ _ => h⟩

theorem EndAlike.bind (h : EndAlike left n p q s)
    (hnext : ∀ a t, left t < n → EndAlike left m (next a) (next' a) t) :
    EndAlike left m (p >>= next) (q >>= next') s := by
  obtain ⟨result, t, hp, hq, hleft⟩ := h
  cases result with
  | error e =>
    refine ⟨.error e, t, ?_, ?_, fun a heq => by cases heq⟩
    · exact Option.bind_eq_some_iff.mpr ⟨_, hp, rfl⟩
    · exact Option.bind_eq_some_iff.mpr ⟨_, hq, rfl⟩
  | ok a =>
    obtain ⟨result, u, hp', hq', hend⟩ := hnext a t (hleft a rfl)
    exact ⟨result, u, (bind_of_ok hp).trans hp', (bind_of_ok hq).trans hq', hend⟩

/-- A step that is the same in both computations. -/
theorem EndAlike.step {p : Exceptional σ ε α} {a : α} {t : σ} (h : p s = some (.ok a, t))
    (hnext : EndAlike left m (next a) (next' a) t) :
    EndAlike left m (p >>= next) (p >>= next') s := by
  obtain ⟨result, u, hp, hq, hend⟩ := hnext
  exact ⟨result, u, (bind_of_ok h).trans hp, (bind_of_ok h).trans hq, hend⟩

theorem endAlike_of_error {p : Exceptional σ ε α} {e : ε} {t : σ} (h : p s = some (.error e, t))
    (next next' : α → Exceptional σ ε β) : EndAlike left m (p >>= next) (p >>= next') s := by
  refine ⟨.error e, t, ?_, ?_, fun a heq => by cases heq⟩
  · exact Option.bind_eq_some_iff.mpr ⟨_, h, rfl⟩
  · exact Option.bind_eq_some_iff.mpr ⟨_, h, rfl⟩

/-- A step that is only made under a condition, and what comes after it. -/
theorem EndAlike.after {c : Prop} [Decidable c] {p : Exceptional σ ε Unit}
    {next next' : Unit → Exceptional σ ε β} (h : EndAlike left (left s + 1) p p s)
    (hnext : ∀ t, left t ≤ left s → EndAlike left m (next ()) (next' ()) t) :
    EndAlike left m (if c then p >>= next else next ()) (if c then p >>= next' else next' ())
      s := by
  by_cases hc : c
  · rw [if_pos hc, if_pos hc]
    exact h.bind fun _ t ht => hnext t (Nat.le_of_lt_succ ht)
  · rw [if_neg hc, if_neg hc]
    exact hnext s (Nat.le_refl _)

theorem EndAlike.mono (h : EndAlike left n p q s) (hle : n ≤ m) :
    EndAlike left m p q s := by
  obtain ⟨result, t, hp, hq, hleft⟩ := h
  exact ⟨result, t, hp, hq, fun a heq => Nat.lt_of_lt_of_le (hleft a heq) hle⟩

theorem EndAlike.catching {handler : ε → Exceptional σ ε α} (h : EndAlike left m p q s)
    (hhandler : ∀ e t, EndAlike left m (handler e) (handler e) t) :
    EndAlike left m (p.catching handler) (q.catching handler) s := by
  obtain ⟨result, t, hp, hq, hleft⟩ := h
  cases result with
  | error e =>
    obtain ⟨result, u, hhandled, -, hend⟩ := hhandler e t
    refine ⟨result, u, ?_, ?_, hend⟩
    · exact Option.bind_eq_some_iff.mpr ⟨_, hp, hhandled⟩
    · exact Option.bind_eq_some_iff.mpr ⟨_, hq, hhandled⟩
  | ok a =>
    refine ⟨.ok a, t, ?_, ?_, hleft⟩
    · exact Option.bind_eq_some_iff.mpr ⟨_, hp, rfl⟩
    · exact Option.bind_eq_some_iff.mpr ⟨_, hq, rfl⟩

/-- A family of computations gives the same from some number on, if any two of them do. -/
theorem exists_of_endAlike {p : ℕ → Exceptional σ ε α} {k : ℕ}
    (h : ∀ n n', k ≤ n → k ≤ n' → EndAlike left m (p n) (p n') s) :
    ∃ result t, (∀ n, k ≤ n → p n s = some (result, t)) ∧
      ∀ a, result = .ok a → left t < m := by
  obtain ⟨result, t, hk, -, hend⟩ := h k k k.le_refl k.le_refl
  refine ⟨result, t, fun n hn => ?_, hend⟩
  obtain ⟨result', t', hk', hn', -⟩ := h k n k.le_refl hn
  rw [hn', ← hk', hk]

end Exceptional
