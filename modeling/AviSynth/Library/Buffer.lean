import Mathlib.Logic.Function.Basic
import Mathlib.Data.Int.Notation
import Mathlib.Data.Nat.Notation

/-!
# Buffers and block copies

A buffer is a function from positions to cells. Code that moves blocks between
buffers keeps a fact of one form: over some block, a buffer shows what a source
has from some position on. The rules here carry that form through copies.
-/

namespace Buffer

variable {α : Type*}

/-- `dst` after copying `n` cells of `src` from position `srcPos` to `dstPos`. -/
def copy (dst : ℤ → α) (dstPos : ℤ) (src : ℤ → α) (srcPos n : ℤ) : ℤ → α := fun i =>
  if dstPos ≤ i ∧ i < dstPos + n then src (srcPos + (i - dstPos)) else dst i

/-- `Shows buf pos src srcPos n`: the `n` cells of `buf` from `pos` on are those of
`src` from `srcPos` on. -/
def Shows (buf : ℤ → α) (pos : ℤ) (src : ℤ → α) (srcPos n : ℤ) : Prop :=
  ∀ i, 0 ≤ i → i < n → buf (pos + i) = src (srcPos + i)

variable {buf src dst : ℤ → α} {pos srcPos dstPos m n : ℤ}

/-- Nothing is shown by no cells. -/
theorem Shows.empty (h : n ≤ 0) : Shows buf pos src srcPos n := fun i hi hn => by omega

/-- A copied block shows its source. -/
theorem shows_copy (dst : ℤ → α) (dstPos : ℤ) (src : ℤ → α) (srcPos n : ℤ) :
    Shows (copy dst dstPos src srcPos n) dstPos src srcPos n := by
  intro i hi hn
  simp only [copy, if_pos (⟨by omega, by omega⟩ : dstPos ≤ dstPos + i ∧ dstPos + i < dstPos + n)]
  congr 1
  omega

/-- Cells outside the copied block are not touched. -/
theorem copy_outside {i : ℤ} (h : i < dstPos ∨ dstPos + n ≤ i) :
    copy dst dstPos src srcPos n i = dst i := by
  simp only [copy]
  rw [if_neg (by omega)]

/-- A block within a shown block is shown. -/
theorem Shows.block (h : Shows buf pos src srcPos n) {k : ℤ} (hk : 0 ≤ k) (hm : k + m ≤ n) :
    Shows buf (pos + k) src (srcPos + k) m := by
  intro i hi him
  have hcell := h (k + i) (by omega) (by omega)
  rwa [← Int.add_assoc, ← Int.add_assoc] at hcell

/-- Two shown blocks, one behind the other. -/
theorem Shows.join (h : Shows buf pos src srcPos m) (h' : Shows buf (pos + m) src (srcPos + m) n) :
    Shows buf pos src srcPos (m + n) := by
  intro i hi hn
  by_cases him : i < m
  · exact h i hi him
  · have hcell := h' (i - m) (by omega) (by omega)
    rwa [show pos + m + (i - m) = pos + i by omega,
      show srcPos + m + (i - m) = srcPos + i by omega] at hcell

/-- Copying a shown block shows the source again. -/
theorem Shows.copy {mid : ℤ → α} {midPos : ℤ} (h : Shows mid midPos src srcPos n) :
    Shows (Buffer.copy dst dstPos mid midPos n) dstPos src srcPos n := fun i hi hn =>
  (shows_copy _ _ _ _ _ i hi hn).trans (h i hi hn)

/-- Appending a block to a shown one extends it. -/
theorem Shows.append (h : Shows buf pos src srcPos m) :
    Shows (Buffer.copy buf (pos + m) src (srcPos + m) n) pos src srcPos (m + n) := by
  intro i hi hin
  by_cases him : i < m
  · rw [copy_outside (Or.inl (by omega))]
    exact h i hi him
  · have hcell := shows_copy buf (pos + m) src (srcPos + m) n (i - m) (by omega) (by omega)
    rwa [show pos + m + (i - m) = pos + i by omega,
      show srcPos + m + (i - m) = srcPos + i by omega] at hcell

/-- Buffers that agree on the block show the same. -/
theorem Shows.congr {buf' : ℤ → α} (h : Shows buf pos src srcPos n)
    (hsame : ∀ i, 0 ≤ i → i < n → buf' (pos + i) = buf (pos + i)) :
    Shows buf' pos src srcPos n := fun i hi hn => (hsame i hi hn).trans (h i hi hn)

/-- Copying from a buffer that shows the source is copying from the source. -/
theorem Shows.copy_eq (h : Shows buf pos src srcPos n) :
    Buffer.copy dst dstPos buf pos n = Buffer.copy dst dstPos src srcPos n := by
  funext i
  simp only [Buffer.copy]
  split
  · exact h (i - dstPos) (by omega) (by omega)
  · rfl

/-- A copy of no cells changes nothing. -/
theorem copy_empty (dst : ℤ → α) (dstPos : ℤ) (src : ℤ → α) (srcPos : ℤ) (h : n ≤ 0) :
    copy dst dstPos src srcPos n = dst := by
  funext i
  exact copy_outside (by omega)

/-- A copy only depends on the cells that it reads. -/
theorem copy_congr {src' : ℤ → α} {srcPos' : ℤ}
    (h : ∀ i, 0 ≤ i → i < n → src (srcPos + i) = src' (srcPos' + i)) :
    copy dst dstPos src srcPos n = copy dst dstPos src' srcPos' n := by
  funext i
  simp only [copy]
  split
  · exact h (i - dstPos) (by omega) (by omega)
  · rfl

/-- Two consecutive copies are one. -/
theorem copy_append (dst : ℤ → α) (dstPos : ℤ) (src : ℤ → α) (srcPos : ℤ) (hm : 0 ≤ m)
    (hn : 0 ≤ n) :
    copy (copy dst dstPos src srcPos m) (dstPos + m) src (srcPos + m) n =
      copy dst dstPos src srcPos (m + n) := by
  funext i
  by_cases hsecond : dstPos + m ≤ i ∧ i < dstPos + m + n
  · simp only [copy, if_pos hsecond, if_pos (by omega : dstPos ≤ i ∧ i < dstPos + (m + n))]
    congr 1
    omega
  by_cases hfirst : dstPos ≤ i ∧ i < dstPos + m
  · simp only [copy, if_neg hsecond, if_pos hfirst,
      if_pos (by omega : dstPos ≤ i ∧ i < dstPos + (m + n))]
  · simp only [copy, if_neg hsecond, if_neg hfirst,
      if_neg (by omega : ¬(dstPos ≤ i ∧ i < dstPos + (m + n)))]

end Buffer

/-!
## Memory with bounds

A block of memory is a buffer of which only the cells from zero up to a length may be used.
Reading or writing another cell is an error. Loops that move through such memory succeed where
the ranges that they use are inside.
-/

/-- A buffer and the number of its cells. -/
structure BoundedCells (α : Type) where
  length : ℤ
  cell : ℤ → α

namespace BoundedCells

variable {α : Type}

/-- A read, which fails outside. -/
def get? (a : BoundedCells α) (i : ℤ) : Option α :=
  if 0 ≤ i ∧ i < a.length then some (a.cell i) else none

/-- Memory with another cell. -/
def put (a : BoundedCells α) (i : ℤ) (v : α) : BoundedCells α :=
  ⟨a.length, Function.update a.cell i v⟩

/-- A write, which fails outside. -/
def set? (a : BoundedCells α) (i : ℤ) (v : α) : Option (BoundedCells α) :=
  if 0 ≤ i ∧ i < a.length then some (a.put i v) else none

/-- Memory with values from position `i` on. -/
def setAll (a : BoundedCells α) (i : ℤ) : List α → BoundedCells α
  | [] => a
  | v :: values => setAll (a.put i v) (i + 1) values

/-- The `n` cells from position `i` on are inside. -/
def Has (a : BoundedCells α) (i n : ℤ) : Prop := n ≤ 0 ∨ 0 ≤ i ∧ i + n ≤ a.length

/-- The values from position `i` on. -/
def Lists (a : BoundedCells α) (i : ℤ) (values : List α) : Prop :=
  ∀ (k : ℕ) (h : k < values.length), a.cell (i + k) = values[k]

/-- Only the `n` cells from position `i` on differ. -/
structure WritesOnly (a b : BoundedCells α) (i n : ℤ) : Prop where
  length_eq : b.length = a.length
  cell_eq : ∀ k, k < i ∨ i + n ≤ k → b.cell k = a.cell k

variable {a b c : BoundedCells α} {i j k m n : ℤ} {v : α} {values : List α}

@[simp] theorem length_put (a : BoundedCells α) (i : ℤ) (v : α) :
    (a.put i v).length = a.length := rfl

@[simp] theorem cell_put (a : BoundedCells α) (i : ℤ) (v : α) : (a.put i v).cell i = v := by
  simp [put]

section

variable (h : 0 ≤ i ∧ i < a.length)
include h

theorem get?_inside : a.get? i = some (a.cell i) := if_pos h

theorem set?_inside : a.set? i v = some (a.put i v) := if_pos h

theorem get?_bind {β : Type} {f : α → Option β} :
    (a.get? i >>= f) = f (a.cell i) := by
  rw [get?_inside h]
  rfl

theorem set?_bind {β : Type} {f : BoundedCells α → Option β} :
    (a.set? i v >>= f) = f (a.put i v) := by
  rw [set?_inside h]
  rfl

end

theorem get?_eq_some : a.get? i = some v ↔ (0 ≤ i ∧ i < a.length) ∧ a.cell i = v := by
  simp [get?]

theorem set?_eq_some :
    a.set? i v = some b ↔ (0 ≤ i ∧ i < a.length) ∧ b = a.put i v := by
  simp [set?, eq_comm]

theorem Has.congr (h : a.Has i n) (hlength : b.length = a.length) : b.Has i n := by
  unfold Has at *
  omega

namespace WritesOnly

theorem refl (a : BoundedCells α) (i n : ℤ) : a.WritesOnly a i n := ⟨rfl, fun _ _ => rfl⟩

/-- What is written in two steps lies in a range that contains both. -/
theorem trans {i' n' : ℤ} (h : a.WritesOnly b i m) (h' : b.WritesOnly c j n)
    (hi : i' ≤ i ∧ i + m ≤ i' + n') (hj : i' ≤ j ∧ j + n ≤ i' + n') : a.WritesOnly c i' n' := by
  refine ⟨h'.length_eq.trans h.length_eq, fun k hk => ?_⟩
  rw [h'.cell_eq k (by omega), h.cell_eq k (by omega)]

/-- A range beside the written one shows the same as before. -/
theorem shows {src : ℤ → α} {srcPos : ℤ} (h : a.WritesOnly b i m)
    (hapart : j + n ≤ i ∨ i + m ≤ j) (hshows : Buffer.Shows a.cell j src srcPos n) :
    Buffer.Shows b.cell j src srcPos n :=
  hshows.congr fun k hk hn => h.cell_eq (j + k) (by omega)

theorem lists (h : a.WritesOnly b i m) (hapart : j + values.length ≤ i ∨ i + m ≤ j)
    (hlists : a.Lists j values) : b.Lists j values := by
  intro k hk
  rw [h.cell_eq (j + k) (by omega)]
  exact hlists k hk

end WritesOnly

theorem writesOnly_setAll (a : BoundedCells α) (i : ℤ) (values : List α) :
    a.WritesOnly (a.setAll i values) i values.length := by
  induction values generalizing a i with
  | nil => exact .refl a i _
  | cons v values ih =>
    have hone : a.WritesOnly (a.put i v) i 1 :=
      ⟨rfl, fun k hk => Function.update_of_ne (by omega) _ _⟩
    have hlength : ((v :: values).length : ℤ) = values.length + 1 := by simp
    exact hone.trans (ih _ (i + 1)) (by omega) (by omega)

theorem lists_setAll (a : BoundedCells α) (i : ℤ) (values : List α) :
    (a.setAll i values).Lists i values := by
  induction values generalizing a i with
  | nil => exact fun k hk => absurd hk (Nat.not_lt_zero k)
  | cons v values ih =>
    intro k hk
    cases k with
    | zero =>
      have hrest := (writesOnly_setAll (a.put i v) (i + 1) values).cell_eq i (by omega)
      rw [Int.natCast_zero, Int.add_zero, List.getElem_cons_zero]
      exact hrest.trans (cell_put a i v)
    | succ k =>
      have hrest := ih (a.put i v) (i + 1) k (by simpa using hk)
      rw [List.getElem_cons_succ, ← hrest]
      exact congrArg _ (by omega)

/-- A list of the cells of a source. -/
theorem Lists.shows {src : ℤ → α} {srcPos : ℤ} {count : ℕ}
    (h : a.Lists i ((List.range count).map fun k : ℕ => src (srcPos + k))) :
    Buffer.Shows a.cell i src srcPos count := by
  intro k hk hcount
  obtain ⟨n, rfl⟩ := Int.eq_ofNat_of_zero_le hk
  have hcell := h n (by simpa using hcount)
  simpa using hcell

end BoundedCells
