import Mathlib.Data.List.Basic

/-!
# Lists that own what they consist of

A relation between cells of memory and the values that they stand for comes with the blocks that
a cell owns. Here it is carried over to lists: the blocks of a list are those of its cells, one
cell after another, so that a list without duplicate blocks is one of separate cells. One cell
can then be exchanged while the others keep what they own.
-/

namespace OwnedLists

variable {α β : Type*} {R R' : α → β → List ℕ → Prop} {xs : List α} {ys : List β}
  {owned : List ℕ} {x : α} {y : β} {i : ℕ}

/-- Cells and values are related one by one, and own their blocks one after another. -/
inductive Together (R : α → β → List ℕ → Prop) : List α → List β → List ℕ → Prop
  | nil : Together R [] [] []
  | cons {x : α} {y : β} {ps : List ℕ} {xs : List α} {ys : List β} {qs : List ℕ} :
      R x y ps → Together R xs ys qs → Together R (x :: xs) (y :: ys) (ps ++ qs)

theorem Together.length_eq (h : Together R xs ys owned) : xs.length = ys.length := by
  induction h with
  | nil => rfl
  | cons hx _ ih => rw [List.length_cons, List.length_cons, ih]

/-- What holds of every cell by its own blocks holds of the list. -/
theorem Together.mono (h : Together R xs ys owned)
    (hmono : ∀ x y ps, (∀ p ∈ ps, p ∈ owned) → R x y ps → R' x y ps) :
    Together R' xs ys owned := by
  induction h with
  | nil => exact .nil
  | cons hx hxs ih =>
    refine .cons (hmono _ _ _ (fun p hp => List.mem_append_left _ hp) hx) (ih ?_)
    exact fun x y ps hps => hmono x y ps fun p hp => List.mem_append_right _ (hps p hp)

/-- A cell of the list, and the blocks before and after its own. -/
theorem Together.focus (h : Together R xs ys owned) (hi : xs[i]? = some x) :
    ∃ y before ps after, ys[i]? = some y ∧ owned = before ++ ps ++ after ∧ R x y ps ∧
      ∀ (R' : α → β → List ℕ → Prop) x' y' ps',
        (∀ x y qs, (∀ p ∈ qs, p ∈ before ++ after) → R x y qs → R' x y qs) → R' x' y' ps' →
        Together R' (xs.set i x') (ys.set i y') (before ++ ps' ++ after) := by
  induction h generalizing i with
  | nil => simp at hi
  | @cons x₀ y₀ ps xs ys qs hx hxs ih =>
    cases i with
    | zero =>
      obtain rfl : x₀ = x := by simpa using hi
      refine ⟨y₀, [], ps, qs, rfl, rfl, hx, fun R' x' y' ps' hmono hx' => ?_⟩
      exact .cons hx' (hxs.mono fun x y rs hrs => hmono x y rs hrs)
    | succ i =>
      obtain ⟨y, before, rs, after, hy, howned, hR, hset⟩ := ih (by simpa using hi)
      refine ⟨y, ps ++ before, rs, after, by simpa using hy, by simp [howned], hR, ?_⟩
      intro R' x' y' ps' hmono hx'
      have hfirst : R' x₀ y₀ ps :=
        hmono _ _ _ (fun p hp => by simp [hp]) hx
      have hrest := hset R' x' y' ps' (fun x y qs hqs => hmono x y qs fun p hp => by
        have hin := hqs p hp
        simp only [List.mem_append] at hin ⊢
        tauto) hx'
      have hcons := Together.cons hfirst hrest
      simpa [List.append_assoc] using hcons

/-- A block of the list is one of a cell. -/
theorem Together.exists_of_mem (h : Together R xs ys owned) {p : ℕ} (hp : p ∈ owned) :
    ∃ (i : ℕ) (x : α) (y : β) (ps : List ℕ), xs[i]? = some x ∧ ys[i]? = some y ∧ R x y ps ∧
      p ∈ ps ∧ ∀ q ∈ ps, q ∈ owned := by
  induction h with
  | nil => simp at hp
  | @cons x₀ y₀ ps xs ys qs hx hxs ih =>
    rcases List.mem_append.mp hp with hfirst | hrest
    · exact ⟨0, x₀, y₀, ps, rfl, rfl, hx, hfirst, fun q hq => List.mem_append_left _ hq⟩
    · obtain ⟨i, x, y, rs, hxi, hyi, hR, hprs, hrs⟩ := ih hrest
      exact ⟨i + 1, x, y, rs, hxi, hyi, hR, hprs, fun q hq => List.mem_append_right _ (hrs q hq)⟩

end OwnedLists
