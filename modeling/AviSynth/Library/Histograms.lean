import Mathlib.Order.Nat
import Mathlib.Data.List.Count

/-!
# Histograms

A histogram counts how often each value occurs in a list. Searches from either end add up its
counts until they exceed a limit, and so find the smallest value that more than so many members do
not exceed, and the largest that more than so many reach.
-/

namespace Histogram

/-- One more of `x`. -/
def tally (counts : ℕ → ℕ) (x : ℕ) : ℕ → ℕ := Function.update counts x (counts x + 1)

/-- The first of `n` values from `i` on at which the counts exceed the limit. -/
def searchUp (counts : ℕ → ℕ) (limit default : ℕ) : ℕ → ℕ → ℕ → ℕ
  | 0, _, _ => default
  | n + 1, i, counted =>
      if limit < counted + counts i then i
      else searchUp counts limit default n (i + 1) (counted + counts i)

/-- The last of the values below `i` at which the counts from above exceed the limit. -/
def searchDown (counts : ℕ → ℕ) (limit default : ℕ) : ℕ → ℕ → ℕ
  | 0, _ => default
  | i + 1, counted =>
      if limit < counted + counts i then i
      else searchDown counts limit default i (counted + counts i)

/-- The smallest value that more than `limit` members do not exceed. -/
def IsLeastAbove (l : List ℕ) (limit v : ℕ) : Prop :=
  limit < l.countP (· ≤ v) ∧ ∀ w < v, l.countP (· ≤ w) ≤ limit

/-- The largest value that more than `limit` members reach. -/
def IsGreatestAbove (l : List ℕ) (limit v : ℕ) : Prop :=
  limit < l.countP (v ≤ ·) ∧ ∀ w, v < w → l.countP (w ≤ ·) ≤ limit

variable {l : List ℕ} {limit v w bound : ℕ}

theorem foldl_tally (l : List ℕ) (counts : ℕ → ℕ) (x : ℕ) :
    l.foldl tally counts x = counts x + l.count x := by
  induction l generalizing counts with
  | nil => rfl
  | cons a l ih =>
    rw [List.foldl_cons, ih, tally, List.count_cons]
    by_cases h : a = x
    · subst h
      rw [Function.update_self, beq_self_eq_true, if_pos rfl]
      omega
    · rw [Function.update_of_ne (Ne.symm h), if_neg (by simpa using h)]
      rfl

/-! ### Counts up to a value -/

theorem countP_le_mono (h : v ≤ w) : l.countP (· ≤ v) ≤ l.countP (· ≤ w) :=
  List.countP_mono_left fun x _ hx => by
    simp only [decide_eq_true_eq] at hx ⊢
    omega

theorem countP_lt_succ (l : List ℕ) (i : ℕ) :
    l.countP (· < i + 1) = l.countP (· < i) + l.count i := by
  induction l with
  | nil => rfl
  | cons a l ih =>
    rw [List.countP_cons, List.countP_cons, List.count_cons, ih]
    obtain hlt | heq | hgt := Nat.lt_trichotomy a i
    · simp [hlt, hlt.ne, Nat.lt_succ_of_lt hlt]
      omega
    · simp [heq]
      omega
    · simp [hgt.ne', not_lt.mpr hgt.le, not_lt.mpr (Nat.succ_le_of_lt hgt)]

theorem countP_ge_succ (l : List ℕ) (i : ℕ) :
    l.countP (i ≤ ·) = l.countP (i + 1 ≤ ·) + l.count i := by
  induction l with
  | nil => rfl
  | cons a l ih =>
    rw [List.countP_cons, List.countP_cons, List.count_cons, ih]
    obtain hlt | heq | hgt := Nat.lt_trichotomy a i
    · simp [hlt.ne, not_le.mpr hlt, not_le.mpr (Nat.lt_succ_of_lt hlt)]
    · rw [if_pos (by simp [heq]), if_neg (by simp [heq]), if_pos (by simp [heq])]
      omega
    · simp [hgt.ne', hgt.le, Nat.succ_le_of_lt hgt]
      omega

theorem countP_le_eq (l : List ℕ) (i : ℕ) : l.countP (· ≤ i) = l.countP (· < i + 1) :=
  List.countP_congr fun x _ => by simp only [decide_eq_true_eq, Nat.lt_succ_iff]

/-! ### Searches -/

/-- What a search upwards has counted is what lies below. -/
theorem searchUp_cases (l : List ℕ) (limit default n i : ℕ) :
    (∃ v, searchUp l.count limit default n i (l.countP (· < i)) = v ∧ v < i + n ∧
      limit < l.countP (· ≤ v) ∧ ∀ w, i ≤ w → w < v → l.countP (· ≤ w) ≤ limit) ∨
    (searchUp l.count limit default n i (l.countP (· < i)) = default ∧
      ∀ w, i ≤ w → w < i + n → l.countP (· ≤ w) ≤ limit) := by
  induction n generalizing i with
  | zero => exact .inr ⟨rfl, fun w hi hw => by omega⟩
  | succ n ih =>
    rw [searchUp, ← countP_lt_succ, ← countP_le_eq]
    split_ifs with hfound
    · exact .inl ⟨i, rfl, by omega, hfound, fun w hi hw => by omega⟩
    · have hfirst : ∀ w, i ≤ w → w < i + 1 → l.countP (· ≤ w) ≤ limit := fun w hi hw => by
        obtain rfl : w = i := by omega
        omega
      rw [countP_le_eq]
      obtain ⟨v, hv, hlt, habove, hleast⟩ | ⟨hdefault, hnone⟩ := ih (i + 1)
      · refine .inl ⟨v, hv, by omega, habove, fun w hi hw => ?_⟩
        by_cases hw' : w < i + 1
        · exact hfirst w hi hw'
        · exact hleast w (by omega) hw
      · refine .inr ⟨hdefault, fun w hi hw => ?_⟩
        by_cases hw' : w < i + 1
        · exact hfirst w hi hw'
        · exact hnone w (by omega) (by omega)

/-- What a search downwards has counted is what lies from its place on. -/
theorem searchDown_cases (l : List ℕ) (limit default i : ℕ) :
    (∃ v, searchDown l.count limit default i (l.countP (i ≤ ·)) = v ∧ v < i ∧
      limit < l.countP (v ≤ ·) ∧ ∀ w, v < w → w < i → l.countP (w ≤ ·) ≤ limit) ∨
    (searchDown l.count limit default i (l.countP (i ≤ ·)) = default ∧
      ∀ w < i, l.countP (w ≤ ·) ≤ limit) := by
  induction i with
  | zero => exact .inr ⟨rfl, fun w hw => by omega⟩
  | succ i ih =>
    rw [searchDown, ← countP_ge_succ]
    split_ifs with hfound
    · exact .inl ⟨i, rfl, by omega, hfound, fun w hw hi => by omega⟩
    · have hfirst : ∀ w, i ≤ w → w < i + 1 → l.countP (w ≤ ·) ≤ limit := fun w hi hw => by
        obtain rfl : w = i := by omega
        omega
      obtain ⟨v, hv, hlt, habove, hgreatest⟩ | ⟨hdefault, hnone⟩ := ih
      · refine .inl ⟨v, hv, by omega, habove, fun w hw hi => ?_⟩
        by_cases hw' : w < i
        · exact hgreatest w hw hw'
        · exact hfirst w (by omega) hi
      · refine .inr ⟨hdefault, fun w hw => ?_⟩
        by_cases hw' : w < i
        · exact hnone w hw'
        · exact hfirst w (by omega) hw

theorem countP_eq_length (h : ∀ x ∈ l, x < bound) : l.countP (· ≤ bound - 1) = l.length :=
  List.countP_eq_length.mpr fun x hx => by
    have := h x hx
    simp only [decide_eq_true_eq]
    omega

/-- A limit below the number of members is exceeded. -/
theorem isLeastAbove_searchUp (default : ℕ) (hlimit : limit < l.length)
    (hbound : ∀ x ∈ l, x < bound) :
    IsLeastAbove l limit (searchUp l.count limit default bound 0 0) := by
  have hstart : l.countP (· < 0) = 0 := List.countP_eq_zero.mpr fun x _ => by simp
  obtain ⟨v, hv, -, habove, hleast⟩ | ⟨-, hnone⟩ :=
    searchUp_cases l limit default bound 0
  · rw [hstart] at hv
    rw [hv]
    exact ⟨habove, fun w hw => hleast w (Nat.zero_le w) hw⟩
  · have hpos : 0 < bound := by
      obtain ⟨x, hx⟩ := List.exists_mem_of_length_pos (Nat.zero_lt_of_lt hlimit)
      exact Nat.zero_lt_of_lt (hbound x hx)
    have hall := hnone (bound - 1) (Nat.zero_le _) (by omega)
    rw [countP_eq_length hbound] at hall
    omega

theorem isGreatestAbove_searchDown (default : ℕ) (hlimit : limit < l.length)
    (hbound : ∀ x ∈ l, x < bound) :
    IsGreatestAbove l limit (searchDown l.count limit default bound 0) := by
  have hend (w : ℕ) (hw : bound ≤ w) : l.countP (w ≤ ·) = 0 :=
    List.countP_eq_zero.mpr fun x hx => by
      have := hbound x hx
      simp only [decide_eq_true_eq]
      omega
  have hall : l.countP (0 ≤ ·) = l.length := List.countP_eq_length.mpr fun x _ => by simp
  obtain ⟨v, hv, hlt, habove, hgreatest⟩ | ⟨-, hnone⟩ :=
    searchDown_cases l limit default bound
  · rw [hend bound le_rfl] at hv
    rw [hv]
    refine ⟨habove, fun w hw => ?_⟩
    by_cases hw' : w < bound
    · exact hgreatest w hw hw'
    · rw [hend w (by omega)]
      exact Nat.zero_le _
  · have hpos : 0 < bound := by
      obtain ⟨x, hx⟩ := List.exists_mem_of_length_pos (Nat.zero_lt_of_lt hlimit)
      exact Nat.zero_lt_of_lt (hbound x hx)
    have hle := hnone 0 hpos
    omega

/-- No count exceeds a limit that the number of members does not. -/
theorem searchUp_eq_default (default : ℕ) (hlimit : l.length ≤ limit) (n : ℕ) :
    searchUp l.count limit default n 0 0 = default := by
  have hstart : l.countP (· < 0) = 0 := List.countP_eq_zero.mpr fun x _ => by simp
  obtain ⟨v, -, -, habove, -⟩ | ⟨hdefault, -⟩ :=
    searchUp_cases l limit default n 0
  · have hle : l.countP (· ≤ v) ≤ l.length := List.countP_le_length
    omega
  · rwa [hstart] at hdefault

theorem searchDown_eq_default (default : ℕ) (hlimit : l.length ≤ limit)
    (hbound : ∀ x ∈ l, x < bound) :
    searchDown l.count limit default bound 0 = default := by
  have hend : l.countP (bound ≤ ·) = 0 := List.countP_eq_zero.mpr fun x hx => by
    have := hbound x hx
    simp only [decide_eq_true_eq]
    omega
  obtain ⟨v, -, -, habove, -⟩ | ⟨hdefault, -⟩ :=
    searchDown_cases l limit default bound
  · have hle : l.countP (v ≤ ·) ≤ l.length := List.countP_le_length
    omega
  · rwa [hend] at hdefault

/-! ### The values found -/

theorem IsLeastAbove.le (h : IsLeastAbove l limit v) (hw : limit < l.countP (· ≤ w)) : v ≤ w := by
  by_contra hlt
  have := h.2 w (by omega)
  omega

theorem IsLeastAbove.unique (hv : IsLeastAbove l limit v) (hw : IsLeastAbove l limit w) : v = w :=
  le_antisymm (hv.le hw.1) (hw.le hv.1)

theorem IsGreatestAbove.unique (hv : IsGreatestAbove l limit v) (hw : IsGreatestAbove l limit w) :
    v = w := by
  obtain hlt | heq | hgt := Nat.lt_trichotomy v w
  · exact absurd hw.1 (by have := hv.2 w hlt; omega)
  · exact heq
  · exact absurd hv.1 (by have := hw.2 v hgt; omega)

/-- More than the limit do not exceed a value exactly from the value found on. -/
theorem IsLeastAbove.lt_iff (h : IsLeastAbove l limit v) (w : ℕ) :
    limit < l.countP (· ≤ w) ↔ v ≤ w :=
  ⟨h.le, fun hle => h.1.trans_le (countP_le_mono hle)⟩

/-- Two limits find the same value when the same counts exceed them. -/
theorem IsLeastAbove.eq_iff {limit' : ℕ} (hv : IsLeastAbove l limit v)
    (hw : IsLeastAbove l limit' w) :
    v = w ↔ ∀ x, limit < l.countP (· ≤ x) ↔ limit' < l.countP (· ≤ x) := by
  constructor
  · rintro rfl x
    rw [hv.lt_iff, hw.lt_iff]
  · intro h
    exact le_antisymm (hv.le ((h w).mpr hw.1)) (hw.le ((h v).mp hv.1))

/-- The smallest member is what more than none do not exceed. -/
theorem isLeastAbove_zero (hmem : v ∈ l) (hle : ∀ x ∈ l, v ≤ x) : IsLeastAbove l 0 v := by
  refine ⟨List.countP_pos_iff.mpr ⟨v, hmem, by simp⟩, fun w hw => ?_⟩
  rw [Nat.le_zero, List.countP_eq_zero]
  intro x hx
  have := hle x hx
  simp only [decide_eq_true_eq]
  omega

theorem isGreatestAbove_zero (hmem : v ∈ l) (hle : ∀ x ∈ l, x ≤ v) : IsGreatestAbove l 0 v := by
  refine ⟨List.countP_pos_iff.mpr ⟨v, hmem, by simp⟩, fun w hw => ?_⟩
  rw [Nat.le_zero, List.countP_eq_zero]
  intro x hx
  have := hle x hx
  simp only [decide_eq_true_eq]
  omega

end Histogram
