import Mathlib.Algebra.GroupWithZero.Nat
import Mathlib.Algebra.BigOperators.Group.List.Basic

/-!
# Counting in lists under one change

Counts of list elements, when the predicate changes at one element or when one
element leaves the list.
-/

namespace Counting

variable {α β : Type*} {l : List α}

/-- Two predicates that differ at most at `a` count alike, up to what they say of `a`. -/
theorem countP_change (hl : l.Nodup) {a : α} (ha : a ∈ l) {P Q : α → Bool}
    (h : ∀ b ∈ l, b ≠ a → P b = Q b) :
    l.countP P + (Q a).toNat = l.countP Q + (P a).toNat := by
  induction l with
  | nil => cases ha
  | cons b l ih =>
    obtain ⟨hb, hl⟩ := List.nodup_cons.mp hl
    simp only [List.countP_cons]
    rcases List.mem_cons.mp ha with rfl | hmem
    · have hrest : l.countP P = l.countP Q := List.countP_congr fun c hc => by
        rw [h c (List.mem_cons_of_mem _ hc) fun heq => hb (heq ▸ hc)]
      rw [hrest]
      cases P a <;> cases Q a <;> simp
    · have hne : b ≠ a := fun heq => hb (heq ▸ hmem)
      have hih := ih hl hmem fun c hc => h c (List.mem_cons_of_mem _ hc)
      rw [h b List.mem_cons_self hne]
      omega

/-- Two predicates that share out a third one count what it counts. -/
theorem countP_add {p q r : α → Bool} (h : ∀ a ∈ l, (p a).toNat = (q a).toNat + (r a).toNat) :
    l.countP p = l.countP q + l.countP r := by
  induction l with
  | nil => rfl
  | cons a l ih =>
    have ha := h a List.mem_cons_self
    have hl := ih fun b hb => h b (List.mem_cons_of_mem _ hb)
    simp only [List.countP_cons]
    cases hp : p a <;> cases hq : q a <;> cases hr : r a <;> simp_all <;> omega

/-- What an erased element contributed to a count of images. -/
theorem count_map_erase [DecidableEq α] [DecidableEq β] (f : α → β) {a : α} (ha : a ∈ l) (b : β) :
    (l.map f).count b = ((l.erase a).map f).count b + if f a = b then 1 else 0 := by
  rw [((List.perm_cons_erase ha).map f).count_eq, List.map_cons, List.count_cons]
  simp only [beq_iff_eq]

/-- What the element at a position contributes to a sum. -/
theorem sum_map_eraseIdx (f : α → ℕ) {i : ℕ} {a : α} (ha : l[i]? = some a) :
    (l.map f).sum = f a + ((l.eraseIdx i).map f).sum := by
  obtain ⟨hi, rfl⟩ := List.getElem?_eq_some_iff.mp ha
  rw [((List.getElem_cons_eraseIdx_perm hi).map f).symm.sum_eq, List.map_cons, List.sum_cons]

/-- An element of a list goes on as another one, or leaves the list. -/
def goesOn [DecidableEq α] (l : List α) (a : α) (b : Option α) : List α := b.toList ++ l.erase a

section GoesOn

variable [DecidableEq α] {a : α} {b : Option α}

theorem goesOn_perm (ha : a ∈ l) (b : Option α) : (goesOn l a b ++ [a]).Perm (b.toList ++ l) := by
  rw [goesOn, List.append_assoc]
  exact (List.perm_append_comm.trans (List.perm_cons_erase ha).symm).append_left _

theorem mem_of_mem_goesOn {c : α} (hc : c ∈ goesOn l a b) : c ∈ b ∨ c ∈ l := by
  rw [goesOn, List.mem_append, Option.mem_toList] at hc
  exact hc.imp_right List.mem_of_mem_erase

theorem forall_goesOn {P : α → Prop} (hl : ∀ c ∈ l, P c) (hb : ∀ c ∈ b, P c) :
    ∀ c ∈ goesOn l a b, P c :=
  fun c hc => (mem_of_mem_goesOn hc).elim (hb c) (hl c)

theorem length_goesOn (ha : a ∈ l) (b : Option α) :
    (goesOn l a b).length + 1 = b.toList.length + l.length := by
  simpa using (goesOn_perm ha b).length_eq

@[simp] theorem length_goesOn_some (ha : a ∈ l) (b : α) :
    (goesOn l a (some b)).length = l.length := by
  have hlength := length_goesOn ha (some b)
  simp only [Option.toList_some, List.length_singleton] at hlength
  omega

theorem countP_goesOn (ha : a ∈ l) (b : Option α) (p : α → Bool) :
    (goesOn l a b).countP p + (p a).toNat = l.countP p + (b.elim false p).toNat := by
  have hcount := (goesOn_perm ha b).countP_eq p
  rw [List.countP_append, List.countP_append] at hcount
  cases b with
  | none => cases hpa : p a <;> simp_all
  | some b => cases hpa : p a <;> cases hpb : p b <;> simp_all <;> omega

/-- No element is missed if what it goes on as is counted where it was counted itself. -/
theorem countP_le_goesOn (ha : a ∈ l) {p : α → Bool}
    (h : (p a).toNat ≤ (b.elim false p).toNat) : l.countP p ≤ (goesOn l a b).countP p := by
  have hcount := countP_goesOn ha b p
  omega

theorem countP_goesOn_eq_iff (ha : a ∈ l) {p : α → Bool} {n : ℕ} :
    (goesOn l a b).countP p = n ↔ l.countP p + (b.elim false p).toNat = n + (p a).toNat := by
  have hcount := countP_goesOn ha b p
  omega

/-- What the elements contribute to a count. -/
theorem count_flatMap_goesOn [DecidableEq β] (ha : a ∈ l) (b : Option α) (f : α → List β) (x : β) :
    ((goesOn l a b).flatMap f).count x + (f a).count x =
      (l.flatMap f).count x + (b.elim [] f).count x := by
  have hcount := ((goesOn_perm ha b).flatMap_right f).count_eq x
  cases b with
  | none => simpa using hcount
  | some b =>
    simp only [List.flatMap_append, List.count_append, Option.toList_some, List.flatMap_cons,
      List.flatMap_nil, List.append_nil] at hcount
    rw [hcount, Option.elim_some, Nat.add_comm]

end GoesOn

end Counting
