import Mathlib.Data.Nat.Count
import Mathlib.Algebra.BigOperators.Group.List.Basic
import Mathlib.Tactic.Ring

/-!
# First positions and occurrences

The least position with a property, as a search hands it back, and the positions at which
one list occurs in another one.
-/

namespace Occurrences

variable {α : Type*} {s : List α} {p q : ℕ → Prop}

/-- What a search finds: the least position with the property, if there is one. -/
def First (p : ℕ → Prop) : Option ℕ → Prop
  | none => ∀ i, ¬p i
  | some n => p n ∧ ∀ i < n, ¬p i

theorem First.unique {a b : Option ℕ} (ha : First p a) (hb : First p b) :
    a = b := by
  cases a with
  | none =>
    cases b with
    | none => rfl
    | some n => exact absurd hb.1 (ha n)
  | some m =>
    cases b with
    | none => exact absurd ha.1 (hb m)
    | some n =>
      have hmn : ¬m < n := fun hlt => hb.2 m hlt ha.1
      have hnm : ¬n < m := fun hlt => ha.2 n hlt hb.1
      congr
      omega

theorem exists_first (p : ℕ → Prop) : ∃ a, First p a := by
  by_cases h : ∃ n, p n
  · classical
    exact ⟨some (Nat.find h), Nat.find_spec h, fun i hi => Nat.find_min h hi⟩
  · exact ⟨none, fun i hi => h ⟨i, hi⟩⟩

/-- Searches for two properties end alike if the properties agree up to where the one
search ends. -/
theorem First.congr {a : Option ℕ} (ha : First p a)
    (h : ∀ i, (∀ n ∈ a, i ≤ n) → (p i ↔ q i)) : First q a := by
  cases a with
  | none => exact fun i hi => ha i ((h i (by simp)).mpr hi)
  | some n =>
    refine ⟨(h n (by simp)).mp ha.1, fun i hi hq => ha.2 i hi ((h i ?_).mpr hq)⟩
    simpa using hi.le

/-- Where nothing counts between two positions, the counts up to them agree. -/
theorem count_eq_of_none [DecidablePred p] {a b : ℕ} (hab : a ≤ b)
    (h : ∀ i, a ≤ i → i < b → ¬p i) : Nat.count p b = Nat.count p a := by
  induction b, hab using Nat.le_induction with
  | base => rfl
  | succ b hab ih =>
    rw [Nat.count_succ, if_neg (h b hab (by omega)), ih fun i hi hib => h i hi (by omega)]
    rfl

theorem count_congr [DecidablePred p] [DecidablePred q] {n : ℕ}
    (h : ∀ i < n, p i ↔ q i) : Nat.count p n = Nat.count q n :=
  Nat.le_antisymm (Nat.count_mono_left fun i hi => (h i hi).mp)
    (Nat.count_mono_left fun i hi => (h i hi).mpr)

/-- A position that only the weaker property has makes the counts differ. -/
theorem count_lt_count [DecidablePred p] [DecidablePred q] (hpq : ∀ i, p i → q i) {i n : ℕ}
    (hin : i < n) (hq : q i) (hp : ¬p i) :
    Nat.count p n < Nat.count q n := by
  induction n, hin using Nat.le_induction with
  | base =>
    rw [Nat.count_succ, Nat.count_succ, if_pos hq, if_neg hp]
    have hle := Nat.count_mono_left (n := i) fun j _ => hpq j
    omega
  | succ n _ ih =>
    rw [Nat.count_succ, Nat.count_succ]
    by_cases hpn : p n
    · rw [if_pos hpn, if_pos (hpq n hpn)]
      omega
    · rw [if_neg hpn]
      omega

/-- A positive count has a last element. -/
theorem exists_last [DecidablePred p] {b : ℕ} (h : 0 < Nat.count p b) :
    ∃ i < b, p i ∧ Nat.count p b = Nat.count p i + 1 := by
  induction b with
  | zero => simp at h
  | succ b ih =>
    by_cases hp : p b
    · exact ⟨b, by omega, hp, by rw [Nat.count_succ, if_pos hp]⟩
    · rw [Nat.count_succ, if_neg hp] at h ⊢
      obtain ⟨i, hi, hpi, hcount⟩ := ih h
      exact ⟨i, by omega, hpi, hcount⟩

/-- The needle occurs at place `i`. -/
def OccursAt (needle s : List α) (i : ℕ) : Prop := needle <+: s.drop i

instance [DecidableEq α] (needle s : List α) : DecidablePred (OccursAt needle s) :=
  fun i => inferInstanceAs (Decidable (needle <+: s.drop i))

/-- The occurrences in a list, by its first element. -/
theorem count_occursAt_cons [DecidableEq α] (needle : List α) (b : α) (rest : List α) :
    Nat.count (OccursAt needle (b :: rest)) (rest.length + 1) =
      Nat.count (OccursAt needle rest) rest.length +
        if OccursAt needle (b :: rest) 0 then 1 else 0 :=
  Nat.count_succ' _ _

theorem occursAt_drop (needle s : List α) (n i : ℕ) :
    OccursAt needle (s.drop n) i ↔ OccursAt needle s (n + i) := by
  rw [OccursAt, OccursAt, List.drop_drop]

@[simp] theorem occursAt_cons_succ (needle s : List α) (b : α) (i : ℕ) :
    OccursAt needle (b :: s) (i + 1) ↔ OccursAt needle s i := Iff.rfl

/-- A mark of two elements occurs where both are. -/
theorem occursAt_pair {a b : α} {i : ℕ} :
    OccursAt [a, b] s i ↔ s[i]? = some a ∧ s[i + 1]? = some b := by
  rw [OccursAt, ← List.head?_drop, ← List.head?_drop, ← List.tail_drop]
  cases s.drop i with
  | nil => simp
  | cons c rest => cases rest <;> simp [List.cons_prefix_cons, eq_comm]

theorem OccursAt.lt_length {a b : α} {i : ℕ} (h : OccursAt [a, b] s i) :
    i + 1 < s.length := by
  obtain ⟨h, -⟩ := List.getElem?_eq_some_iff.mp (occursAt_pair.mp h).2
  exact h

/-- In the first part of a list occurs what ends in it. -/
theorem occursAt_take {a b : α} {n i : ℕ} :
    OccursAt [a, b] (s.take n) i ↔ OccursAt [a, b] s i ∧ i + 2 ≤ n := by
  simp only [occursAt_pair, List.getElem?_take]
  constructor
  · rintro ⟨hfirst, hsecond⟩
    split_ifs at hfirst hsecond
    exact ⟨⟨hfirst, hsecond⟩, by omega⟩
  · rintro ⟨⟨hfirst, hsecond⟩, hn⟩
    rw [if_pos (by omega), if_pos (by omega)]
    exact ⟨hfirst, hsecond⟩

theorem count_occursAt_take [DecidableEq α] {a b : α} (n : ℕ) :
    Nat.count (OccursAt [a, b] (s.take n)) n = Nat.count (OccursAt [a, b] s) (n - 1) := by
  cases n with
  | zero => rfl
  | succ n =>
    have hlast : ¬OccursAt [a, b] (s.take (n + 1)) n := fun h => by
      have hend := (occursAt_take.mp h).2
      omega
    rw [Nat.count_succ, if_neg hlast]
    exact count_congr fun i hi => occursAt_take.trans (and_iff_left (by omega))

end Occurrences

/-!
## Replacing the occurrences of a list

A list is split at the occurrences of another one, each of them the first one behind the
one before. What is compared is what a function makes of the elements, so the pieces keep
the elements as they are.
-/

namespace Occurrences

variable {α β : Type*}

theorem OccursAt.add_length_le {needle s : List β} {n : ℕ} (h : OccursAt needle s n)
    (hneedle : needle ≠ []) : n + needle.length ≤ s.length := by
  have hlength := h.length_le
  have hpos := List.length_pos_iff.mpr hneedle
  rw [List.length_drop] at hlength
  omega

variable [DecidableEq β] {fold : α → β} {needle : List α} {s : List α}

/-- The pieces between the occurrences, read from left to right. -/
def splitAll (fold : α → β) (needle : List α) : List α → List (List α)
  | [] => [[]]
  | a :: rest =>
    if OccursAt (needle.map fold) ((a :: rest).map fold) 0 then
      [] :: splitAll fold needle (rest.drop (needle.length - 1))
    else (splitAll fold needle rest).modifyHead (a :: ·)
termination_by s => s.length
decreasing_by
  · simp only [List.length_drop, List.length_cons]
    omega
  · simp

/-- The list with a replacement for each occurrence. -/
def replaceAll (fold : α → β) (needle replacement s : List α) : List α :=
  ((splitAll fold needle s).intersperse replacement).flatten

/-- The number of occurrences that are replaced. -/
def countAll (fold : α → β) (needle s : List α) : ℕ := (splitAll fold needle s).length - 1

theorem splitAll_ne_nil (fold : α → β) (needle s : List α) : splitAll fold needle s ≠ [] := by
  induction s with
  | nil => simp [splitAll]
  | cons a rest ih =>
    rw [splitAll]
    split_ifs
    · simp
    · simpa using ih

/-- Without an occurrence the list is the only piece. -/
theorem splitAll_of_none (hfirst : First (OccursAt (needle.map fold) (s.map fold)) none) :
    splitAll fold needle s = [s] := by
  induction s with
  | nil => rw [splitAll]
  | cons a rest ih =>
    rw [splitAll, if_neg (hfirst 0), ih fun i hi => hfirst (i + 1) hi]
    rfl

/-- The first piece ends at the first occurrence. -/
theorem splitAll_of_some (hneedle : needle ≠ []) {n : ℕ}
    (hfirst : First (OccursAt (needle.map fold) (s.map fold)) (some n)) :
    splitAll fold needle s = s.take n :: splitAll fold needle (s.drop (n + needle.length)) := by
  induction s generalizing n with
  | nil => simp [First, OccursAt, hneedle] at hfirst
  | cons a rest ih =>
    obtain ⟨hoccurs, hbefore⟩ := hfirst
    rw [splitAll]
    cases n with
    | zero =>
      have hlength := List.length_pos_iff.mpr hneedle
      rw [if_pos hoccurs, Nat.zero_add, List.take_zero]
      congr 2
      rw [show needle.length = needle.length - 1 + 1 by omega, List.drop_succ_cons]
      rfl
    | succ n =>
      have hrest := ih ⟨hoccurs, fun i hi => hbefore (i + 1) (Nat.succ_lt_succ hi)⟩
      rw [if_neg (hbefore 0 n.succ_pos), hrest, Nat.succ_add]
      rfl

theorem replaceAll_of_none (replacement : List α)
    (hfirst : First (OccursAt (needle.map fold) (s.map fold)) none) :
    replaceAll fold needle replacement s = s := by
  simp [replaceAll, splitAll_of_none hfirst]

theorem replaceAll_of_some (hneedle : needle ≠ []) {n : ℕ} (replacement : List α)
    (hfirst : First (OccursAt (needle.map fold) (s.map fold)) (some n)) :
    replaceAll fold needle replacement s = s.take n ++ replacement ++
      replaceAll fold needle replacement (s.drop (n + needle.length)) := by
  obtain ⟨piece, pieces, hpieces⟩ :=
    List.exists_cons_of_ne_nil (splitAll_ne_nil fold needle (s.drop (n + needle.length)))
  simp [replaceAll, splitAll_of_some hneedle hfirst, hpieces]

theorem countAll_of_none (hfirst : First (OccursAt (needle.map fold) (s.map fold)) none) :
    countAll fold needle s = 0 := by
  simp [countAll, splitAll_of_none hfirst]

theorem countAll_of_some (hneedle : needle ≠ []) {n : ℕ}
    (hfirst : First (OccursAt (needle.map fold) (s.map fold)) (some n)) :
    countAll fold needle s = countAll fold needle (s.drop (n + needle.length)) + 1 := by
  have hpos := List.length_pos_iff.mpr
    (splitAll_ne_nil fold needle (s.drop (n + needle.length)))
  rw [countAll, countAll, splitAll_of_some hneedle hfirst, List.length_cons]
  omega

/-- Each occurrence takes the length of the replacement instead of its own. -/
theorem length_replaceAll (hneedle : needle ≠ []) (replacement s : List α) :
    (replaceAll fold needle replacement s).length + countAll fold needle s * needle.length =
      s.length + countAll fold needle s * replacement.length := by
  induction hlength : s.length using Nat.strong_induction_on generalizing s with
  | h length ih =>
    obtain ⟨found, hfirst⟩ := exists_first (OccursAt (needle.map fold) (s.map fold))
    cases found with
    | none => rw [replaceAll_of_none _ hfirst, countAll_of_none hfirst, hlength]; simp
    | some n =>
      have hin := hfirst.1.add_length_le (by simpa using hneedle)
      have hpos := List.length_pos_iff.mpr hneedle
      rw [List.length_map, List.length_map] at hin
      have hrest := ih _ (by rw [List.length_drop]; omega) (s.drop (n + needle.length)) rfl
      rw [replaceAll_of_some hneedle _ hfirst, countAll_of_some hneedle hfirst,
        List.length_append, List.length_append, List.length_take, Nat.min_eq_left (by omega),
        Nat.succ_mul, Nat.succ_mul]
      rw [List.length_drop] at hrest
      omega

theorem mem_replaceAll (hneedle : needle ≠ []) {replacement s : List α} {a : α}
    (ha : a ∈ replaceAll fold needle replacement s) : a ∈ s ∨ a ∈ replacement := by
  induction hlength : s.length using Nat.strong_induction_on generalizing s with
  | h length ih =>
    obtain ⟨found, hfirst⟩ := exists_first (OccursAt (needle.map fold) (s.map fold))
    cases found with
    | none =>
      rw [replaceAll_of_none _ hfirst] at ha
      exact .inl ha
    | some n =>
      have hin := hfirst.1.add_length_le (by simpa using hneedle)
      have hpos := List.length_pos_iff.mpr hneedle
      rw [List.length_map, List.length_map] at hin
      rw [replaceAll_of_some hneedle _ hfirst, List.mem_append, List.mem_append] at ha
      obtain (hbefore | hreplaced) | hrest := ha
      · exact .inl (List.take_subset _ _ hbefore)
      · exact .inr hreplaced
      · obtain hbehind | hreplaced := ih _ (by rw [List.length_drop]; omega) hrest rfl
        · exact .inl (List.drop_subset _ _ hbehind)
        · exact .inr hreplaced

end Occurrences
