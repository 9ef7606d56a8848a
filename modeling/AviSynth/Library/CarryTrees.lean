import Mathlib.Tactic.Ring
import Mathlib.Data.List.Induction

/-!
# Balanced trees built by carrying

Values that can be joined two at a time are collected in numbered slots, as the digits of
a binary counter: a slot is empty, or has a balanced tree of a power of two of them. A new
value is joined with the trees of the full slots at the front. The order of the values is
kept, and nothing is lost as long as a slot is left; a counter that is full starts again.
-/

namespace CarryTrees

variable {T : Type}

/-- Puts a value into the slots. Full slots at the front are emptied on the way. -/
def carry (join : T → T → T) (x : T) : List (Option T) → List (Option T)
  | [] => []
  | some tree :: slots => none :: carry join (join tree x) slots
  | none :: slots => some x :: slots

/-- Joins what is in the slots, from the front on, to the right of it what came before. -/
def merge (join : T → T → T) (slots : List (Option T)) : Option T :=
  slots.foldl (fun result slot =>
    match slot, result with
    | some tree, some result => some (join tree result)
    | some tree, none => some tree
    | none, result => result) none

/-- The slots after some values. -/
def collect (join : T → T → T) (slots : ℕ) (xs : List T) : List (Option T) :=
  xs.foldl (fun slots x => carry join x slots) (List.replicate slots none)

/-- `x` is a tree of joins with the given values as its leaves, from left to right, and with
the given depth. -/
inductive IsTree (join : T → T → T) : T → List T → ℕ → Prop
  | leaf (x : T) : IsTree join x [x] 0
  | node {x y : T} {xs ys : List T} {d e : ℕ} (left : IsTree join x xs d)
      (right : IsTree join y ys e) : IsTree join (join x y) (xs ++ ys) (max d e + 1)

/-- The slots have the given values in them, the first slot a tree of depth `k`, and each
other slot one that is twice as large as the slot before it. -/
inductive Holds (join : T → T → T) : ℕ → List (Option T) → List T → Prop
  | nil (k : ℕ) : Holds join k [] []
  | empty {k : ℕ} {slots : List (Option T)} {xs : List T} (rest : Holds join (k + 1) slots xs) :
      Holds join k (none :: slots) xs
  | full {k : ℕ} {x : T} {slots : List (Option T)} {xs ys : List T} (tree : IsTree join x ys k)
      (size : ys.length = 2 ^ k) (rest : Holds join (k + 1) slots xs) :
      Holds join k (some x :: slots) (xs ++ ys)

variable {join : T → T → T} {slots : List (Option T)}

/-- A tree has a leaf. -/
theorem IsTree.leaves_ne_nil {x : T} {xs : List T} {d : ℕ} (h : IsTree join x xs d) : xs ≠ [] := by
  induction h with
  | leaf x => simp
  | node _ _ ihx _ => simp [ihx]

/-- The slots behind the first one start a level higher. -/
theorem level_succ (k : ℕ) (slot : Option T) (slots : List (Option T)) :
    k + (slot :: slots).length = k + 1 + slots.length := by
  rw [List.length_cons]
  omega

/-- No slots have more in them than they have room for. -/
theorem Holds.length_le {k : ℕ} {xs : List T}
    (h : Holds join k slots xs) : xs.length + 2 ^ k ≤ 2 ^ (k + slots.length) := by
  induction h with
  | nil k => simp
  | @empty k slots xs _ ih =>
    have hdouble := Nat.two_pow_succ k
    have hpos : 0 < 2 ^ k := Nat.two_pow_pos k
    have hlength := level_succ k none slots
    rw [hlength]
    omega
  | @full k x slots xs ys _ hsize _ ih =>
    have hdouble := Nat.two_pow_succ k
    have hlength := level_succ k (some x) slots
    rw [hlength, List.length_append]
    omega

theorem holds_replicate (k slots : ℕ) : Holds join k (List.replicate slots none) [] := by
  induction slots generalizing k with
  | zero => exact Holds.nil k
  | succ slots ih => exact Holds.empty (ih (k + 1))

/-- A carry appends the values of a tree. If it runs through all slots, everything is lost. -/
theorem Holds.carry {k : ℕ} {xs ys : List T} {y : T} (h : Holds join k slots xs)
    (htree : IsTree join y ys k) (hsize : ys.length = 2 ^ k) :
    (xs.length + 2 ^ k < 2 ^ (k + slots.length) →
        Holds join k (CarryTrees.carry join y slots) (xs ++ ys)) ∧
      (xs.length + 2 ^ k = 2 ^ (k + slots.length) →
        Holds join k (CarryTrees.carry join y slots) []) := by
  induction h generalizing y ys with
  | nil k =>
    refine ⟨fun hroom => ?_, fun _ => Holds.nil k⟩
    simp at hroom
  | @empty k slots xs rest _ =>
    refine ⟨fun _ => Holds.full htree hsize rest, fun hfull => ?_⟩
    have hle := rest.length_le
    have hdouble := Nat.two_pow_succ k
    have hpos : 0 < 2 ^ k := Nat.two_pow_pos k
    have hlength := level_succ k none slots
    rw [hlength] at hfull
    omega
  | @full k x slots xs zs tree size _ ih =>
    have hjoined : IsTree join (join x y) (zs ++ ys) (k + 1) := by
      have h := IsTree.node tree htree
      rwa [Nat.max_self] at h
    have hdouble := Nat.two_pow_succ k
    have hlength := level_succ k (some x) slots
    obtain ⟨hroom, hfull⟩ := ih hjoined (by rw [List.length_append]; omega)
    rw [hlength, List.length_append]
    constructor
    · intro hlt
      rw [List.append_assoc]
      exact Holds.empty (hroom (by omega))
    · intro heq
      exact Holds.empty (hfull (by omega))

/-- After `n` values the slots have the last of them: as many as the counter shows. -/
theorem holds_collect (slots : ℕ) (xs : List T) :
    Holds join 0 (collect join slots xs) (xs.drop (xs.length - xs.length % 2 ^ slots)) ∧
      (collect join slots xs).length = slots := by
  have hlength_carry (x : T) (ts : List (Option T)) : (carry join x ts).length = ts.length := by
    induction ts generalizing x with
    | nil => rfl
    | cons slot ts ih => cases slot <;> simp [carry, ih]
  induction xs using List.reverseRecOn with
  | nil => exact ⟨holds_replicate 0 slots, List.length_replicate⟩
  | append_singleton xs x ih =>
    have hcollect : collect join slots (xs ++ [x]) = carry join x (collect join slots xs) := by
      simp [collect]
    obtain ⟨hholds, hslots⟩ := ih
    rw [hcollect, hlength_carry]
    refine ⟨?_, hslots⟩
    obtain ⟨hroom, hfull⟩ := hholds.carry (IsTree.leaf x) rfl
    rw [hslots, Nat.zero_add] at hroom hfull
    have hmod : xs.length % 2 ^ slots < 2 ^ slots := Nat.mod_lt _ (Nat.two_pow_pos slots)
    have hmod_le : xs.length % 2 ^ slots ≤ xs.length := Nat.mod_le _ _
    have hkept : (xs.drop (xs.length - xs.length % 2 ^ slots)).length = xs.length % 2 ^ slots := by
      rw [List.length_drop]
      omega
    rw [hkept] at hroom hfull
    rw [List.length_append, List.length_singleton]
    by_cases hlast : xs.length % 2 ^ slots + 1 = 2 ^ slots
    · have hwrap : (xs.length + 1) % 2 ^ slots = 0 := by
        rw [Nat.add_mod, ← hlast]
        have h : xs.length % (xs.length % 2 ^ slots + 1) = xs.length % 2 ^ slots := by rw [hlast]
        by_cases hone : 2 ^ slots = 1
        · have hzero : xs.length % 2 ^ slots = 0 := by omega
          simp [hzero, Nat.mod_one]
        · rw [h, @Nat.mod_eq_of_lt 1 _ (by omega), Nat.mod_self]
      rw [hwrap, Nat.sub_zero, List.drop_of_length_le (by simp)]
      exact hfull hlast
    · have hnext : (xs.length + 1) % 2 ^ slots = xs.length % 2 ^ slots + 1 := by
        rw [Nat.add_mod]
        have hone : 1 % 2 ^ slots = 1 := Nat.mod_eq_of_lt (by omega)
        rw [hone, Nat.mod_eq_of_lt (by omega)]
      have hdrop : xs.length + 1 - (xs.length % 2 ^ slots + 1) =
          xs.length - xs.length % 2 ^ slots := by omega
      rw [hnext, hdrop, List.drop_append_of_le_length (by omega)]
      exact hroom (by omega)

/-- The result of a merge up to the slot `k`: a tree of the values so far, with a depth that is
at most `k` and at most one more than their logarithm. -/
def Merged (join : T → T → T) (k : ℕ) (result : Option T) (xs : List T) : Prop :=
  match result with
  | none => xs = []
  | some tree => ∃ d ≤ k, IsTree join tree xs d ∧ 2 ^ d ≤ 2 * xs.length

theorem Holds.merged {k : ℕ} {xs ys : List T} {result : Option T} (h : Holds join k slots xs)
    (hresult : Merged join k result ys) :
    Merged join (k + slots.length) (slots.foldl (fun result slot =>
      match slot, result with
      | some tree, some result => some (join tree result)
      | some tree, none => some tree
      | none, result => result) result) (xs ++ ys) := by
  induction h generalizing result ys with
  | nil k => exact hresult
  | @empty k slots xs _ ih =>
    have hnext : Merged join (k + 1) result ys := by
      cases result with
      | none => exact hresult
      | some tree =>
        obtain ⟨d, hd, hrest⟩ := hresult
        exact ⟨d, by omega, hrest⟩
    have h := ih hnext
    rw [List.length_cons, ← Nat.add_assoc, Nat.add_right_comm]
    exact h
  | @full k x slots xs zs tree size _ ih =>
    rw [List.length_cons, ← Nat.add_assoc, Nat.add_right_comm, List.append_assoc]
    cases result with
    | none =>
      obtain rfl : ys = [] := hresult
      refine ih ⟨k, by omega, ?_, ?_⟩
      · rwa [List.append_nil]
      · rw [List.append_nil, size]
        omega
    | some result =>
      obtain ⟨d, hd, hright, _⟩ := hresult
      refine ih ⟨max k d + 1, by omega, tree.node hright, ?_⟩
      rw [Nat.max_eq_left hd, List.length_append, size, Nat.pow_succ]
      omega

/-- The merge of the collected values is a tree of the last of them, as many as the counter
shows, and its depth is logarithmic. -/
theorem merged_collect (join : T → T → T) (slots : ℕ) (xs : List T) :
    Merged join slots (merge join (collect join slots xs))
      (xs.drop (xs.length - xs.length % 2 ^ slots)) := by
  obtain ⟨hholds, hlength⟩ := @holds_collect T join slots xs
  have hstart : Merged join 0 none [] := rfl
  have h := hholds.merged hstart
  rw [hlength, List.append_nil, Nat.zero_add] at h
  exact h

section Invariants

variable {P : T → Prop} (hjoin : ∀ x y, P x → P y → P (join x y)) {slots : List (Option T)}
  (hslots : ∀ slot ∈ slots, ∀ x ∈ slot, P x)

include hjoin hslots

end Invariants

end CarryTrees
