import AviSynth.Library.Buffer
import Mathlib.Algebra.BigOperators.Intervals
import Mathlib.Tactic.Ring

/-!
# Counted loops

A loop that counts up is given by its rounds. Where each round copies the cells that belong to
its part of the count, the loop copies the cells of all of it, whatever the size of the parts is.
-/

namespace CountedLoop

open Buffer

/-- The rounds of `for (x = start; x < stop; x += step)`. -/
def rounds (start stop step : ℤ) : ℕ := ((stop - start + (step - 1)) / step).toNat

variable {σ τ : Type}

/-- `n` rounds from `x` on. -/
def forStep (step : ℤ) (body : ℤ → σ → σ) : ℕ → ℤ → σ → σ
  | 0, _, s => s
  | n + 1, x, s => forStep step body n (x + step) (body x s)

/-- `for (x = start; x < stop; x += step)`. -/
def forLoop (start stop step : ℤ) (body : ℤ → σ → σ) (s : σ) : σ :=
  forStep step body (rounds start stop step) start s

variable {start stop step : ℤ} {body : ℤ → σ → σ} {body' : ℤ → τ → τ} {n : ℕ} {x : ℤ} {s : σ}
  {body₁ body₂ : ℤ → σ → σ}

/-- The part of a state that the loop treats on its own. -/
theorem forStep_part (part : σ → τ) (h : ∀ x s, part (body x s) = body' x (part s)) :
    part (forStep step body n x s) = forStep step body' n x (part s) := by
  induction n generalizing x s with
  | zero => rfl
  | succ n ih => rw [forStep, forStep, ih, h]

theorem forLoop_part (part : σ → τ) (h : ∀ x s, part (body x s) = body' x (part s)) :
    part (forLoop start stop step body s) = forLoop start stop step body' (part s) :=
  forStep_part part h

theorem forLoop_congr (h : ∀ x s, body₁ x s = body₂ x s) :
    forLoop start stop step body₁ s = forLoop start stop step body₂ s := by
  have hbody : body₁ = body₂ := funext fun x => funext (h x)
  rw [hbody]

/-- Bodies that agree on the numbers that are counted. -/
theorem forLoop_congr_of_lt (h : ∀ x s, start ≤ x → x < stop → body₁ x s = body₂ x s) (s : σ) :
    forLoop start stop 1 body₁ s = forLoop start stop 1 body₂ s := by
  have hrounds (n : ℕ) : ∀ x s, start ≤ x → x + n ≤ stop →
      forStep 1 body₁ n x s = forStep 1 body₂ n x s := by
    induction n with
    | zero => exact fun _ _ _ _ => rfl
    | succ n ih =>
      intro x s hstart hstop
      rw [forStep, forStep, h x s hstart (by omega)]
      exact ih (x + 1) _ (by omega) (by omega)
  unfold forLoop
  obtain hnone | hsome := le_or_gt stop start
  · have hzero : rounds start stop 1 = 0 := by
      unfold rounds
      omega
    rw [hzero]
    rfl
  · exact hrounds _ start s le_rfl (by unfold rounds; omega)

theorem forLoop_empty (hstep : 0 < step) (h : stop ≤ start) :
    forLoop start stop step body s = s := by
  have hrounds : rounds start stop step = 0 := by
    unfold rounds
    have hnone : (stop - start + (step - 1)) / step ≤ 0 := by
      have hlt : (stop - start + (step - 1)) / step < 1 := by
        rw [Int.ediv_lt_iff_lt_mul hstep]
        omega
      omega
    omega
  rw [forLoop, hrounds]
  rfl

/-- A loop whose count is made of `n` steps. -/
theorem forLoop_eq (hstep : 0 < step) (n : ℕ) :
    forLoop start (start + step * n) step body s = forStep step body n start s := by
  have hrounds : rounds start (start + step * n) step = n := by
    have hcount : start + step * n - start + (step - 1) = step - 1 + step * n := by ring
    rw [rounds, hcount, Int.add_mul_ediv_left _ _ hstep.ne',
      Int.ediv_eq_zero_of_lt (by omega) (by omega), Int.zero_add]
    rfl
  rw [forLoop, hrounds]

/-- A loop over all numbers below `n`. -/
theorem forLoop_foldl {body : ℤ → σ → σ} (n : ℕ) (s : σ) :
    forLoop 0 n 1 body s = (List.range n).foldl (fun s (k : ℕ) => body k s) s := by
  have hsteps (n : ℕ) : ∀ (x : ℤ) (s : σ), forStep 1 body n x s =
      (List.range n).foldl (fun s (k : ℕ) => body (x + k) s) s := by
    induction n with
    | zero => exact fun _ _ => rfl
    | succ n ih =>
      intro x s
      have hpos (k : ℕ) : x + (k + 1 : ℕ) = x + 1 + k := by
        push_cast
        ring
      rw [forStep, ih, List.range_succ_eq_map, List.foldl_cons, List.foldl_map]
      simp only [hpos, Nat.cast_zero, add_zero]
  have hstop : (n : ℤ) = 0 + 1 * n := by omega
  rw [hstop, forLoop_eq (by decide), hsteps]
  simp only [zero_add]

/-- Rounds that add. -/
theorem forStep_add {M : Type} [AddCommMonoid M] (f : ℤ → M) (acc : M) :
    forStep step (fun x acc => acc + f x) n x acc =
      acc + ∑ k ∈ Finset.range n, f (x + step * k) := by
  induction n generalizing x acc with
  | zero => exact (add_zero acc).symm
  | succ n ih =>
    have hpos (k : ℕ) : x + step * (k + 1 : ℕ) = x + step + step * k := by
      push_cast
      ring
    rw [forStep, ih, Finset.sum_range_succ']
    simp only [hpos, Nat.cast_zero, mul_zero, add_zero]
    rw [add_assoc, add_comm (f x)]

section Copies

variable {α : Type} {copies : ℤ → (ℤ → α) → ℤ → α} {buf : ℤ → α} {pos cells : ℤ} {g : ℤ → α}

/-- Rounds that copy their parts. -/
theorem forStep_copy (hcells : 0 ≤ cells) (hstep : 0 ≤ step)
    (h : ∀ x buf, copies x buf = Buffer.copy buf (pos + cells * x) g (cells * x) (cells * step)) :
    forStep step copies n x buf =
      Buffer.copy buf (pos + cells * x) g (cells * x) (cells * (step * n)) := by
  have hpart : 0 ≤ cells * step := Int.mul_nonneg hcells hstep
  induction n generalizing x buf with
  | zero => exact (Buffer.copy_empty _ _ _ _ (by simp)).symm
  | succ n ih =>
    have hrest : 0 ≤ cells * (step * n) :=
      Int.mul_nonneg hcells (Int.mul_nonneg hstep (by omega))
    have happend := copy_append buf (pos + cells * x) g (cells * x) hpart hrest
    have hpos : pos + cells * x + cells * step = pos + cells * (x + step) := by ring
    have hsrc : cells * x + cells * step = cells * (x + step) := by ring
    have hlength : cells * step + cells * (step * n) = cells * (step * (n + 1 : ℕ)) := by
      push_cast
      ring
    rw [hpos, hsrc, hlength] at happend
    rw [forStep, ih, h]
    exact happend

/-- A loop whose count is made of whole parts. -/
theorem forLoop_copy (hcells : 0 ≤ cells) (hstep : 0 < step) (hle : start ≤ stop)
    (hdvd : step ∣ stop - start)
    (h : ∀ x buf, copies x buf = Buffer.copy buf (pos + cells * x) g (cells * x) (cells * step)) :
    forLoop start stop step copies buf =
      Buffer.copy buf (pos + cells * start) g (cells * start) (cells * (stop - start)) := by
  obtain ⟨k, hk⟩ := hdvd
  have hk0 : 0 ≤ k := by
    by_contra hneg
    have hlow : step * k ≤ step * (-1) := Int.mul_le_mul_of_nonneg_left (by omega) hstep.le
    omega
  have hrounds : (rounds start stop step : ℤ) = k := by
    have hdiv : (step * k + (step - 1)) / step = k := by
      rw [Int.add_comm, Int.add_mul_ediv_left _ _ (by omega),
        Int.ediv_eq_zero_of_lt (by omega) (by omega), Int.zero_add]
    unfold rounds
    rw [hk, hdiv]
    omega
  rw [forLoop, forStep_copy hcells hstep.le h, hrounds, hk]

/-- A loop over parts, and one over what is left, copy all cells. -/
theorem forLoop_parts {parts rest : ℤ → (ℤ → α) → ℤ → α} {count : ℤ} (hcells : 0 ≤ cells)
    (hstep : 0 < step)
    (hparts : ∀ x buf,
      parts x buf = Buffer.copy buf (pos + cells * x) g (cells * x) (cells * step))
    (hrest : ∀ x buf, rest x buf = Buffer.copy buf (pos + cells * x) g (cells * x) cells)
    (buf : ℤ → α) :
    forLoop (count.tdiv step * step) count 1 rest
        (forLoop 0 (count.tdiv step * step) step parts buf) =
      Buffer.copy buf pos g 0 (cells * count) := by
  obtain hneg | hpos := lt_or_ge count 0
  · have htdiv : count.tdiv step = -(-count / step) := by
      rw [← Int.neg_neg count, Int.neg_tdiv, Int.tdiv_eq_ediv_of_nonneg (by omega)]
      simp
    have hle : -count / step * step ≤ -count := Int.ediv_mul_le _ hstep.ne'
    have hparts0 : 0 ≤ -count / step * step :=
      Int.mul_nonneg (Int.ediv_nonneg (by omega) hstep.le) hstep.le
    have hnone : cells * count ≤ 0 := Int.mul_nonpos_of_nonneg_of_nonpos hcells hneg.le
    rw [htdiv, Int.neg_mul, forLoop_empty hstep (by omega), forLoop_empty (by decide) (by omega),
      Buffer.copy_empty _ _ _ _ hnone]
  · have hle : count / step * step ≤ count := Int.ediv_mul_le _ hstep.ne'
    have hparts0 : 0 ≤ count / step * step :=
      Int.mul_nonneg (Int.ediv_nonneg hpos hstep.le) hstep.le
    have hfirst : 0 ≤ cells * (count / step * step) := Int.mul_nonneg hcells hparts0
    have hsecond : 0 ≤ cells * (count - count / step * step) :=
      Int.mul_nonneg hcells (by omega)
    rw [Int.tdiv_eq_ediv_of_nonneg hpos, forLoop_copy hcells hstep hparts0 (by simp) hparts,
      forLoop_copy hcells (by decide) hle (by simp) (by simpa using hrest)]
    have happend := copy_append buf pos g 0 hfirst hsecond
    rw [← Int.mul_add] at happend
    simpa using happend

/-- A loop over all cells copies them. -/
theorem forLoop_all {rest : ℤ → (ℤ → α) → ℤ → α} {count : ℤ} (hcells : 0 ≤ cells)
    (hrest : ∀ x buf, rest x buf = Buffer.copy buf (pos + cells * x) g (cells * x) cells)
    (buf : ℤ → α) : forLoop 0 count 1 rest buf = Buffer.copy buf pos g 0 (cells * count) := by
  obtain hneg | hpos := lt_or_ge count 0
  · have hnone : cells * count ≤ 0 := Int.mul_nonpos_of_nonneg_of_nonpos hcells hneg.le
    rw [forLoop_empty (by decide) hneg.le, Buffer.copy_empty _ _ _ _ hnone]
  · rw [forLoop_copy hcells (by decide) hpos (by simp) (by simpa using hrest)]
    simp

end Copies

/-! ### Rows -/

section Rows

variable {α : Type} {pos pitch width height row i : ℤ} {lines : ℤ → ℤ → α} {buf : ℤ → α}

/-- One round: copy a row. -/
def copyRow (pos pitch width : ℤ) (lines : ℤ → ℤ → α) (row : ℤ) (buf : ℤ → α) : ℤ → α :=
  Buffer.copy buf (pos + pitch * row) (lines row) 0 width

theorem forStep_rows_outside (hpitch : 0 ≤ pitch) (hwidth : width ≤ pitch)
    (hi : i < pos + pitch * row ∨ pos + pitch * (row + n) ≤ i) :
    forStep 1 (copyRow pos pitch width lines) n row buf i = buf i := by
  induction n generalizing row buf with
  | zero => rfl
  | succ n ih =>
    have hnext : pitch * (row + 1) = pitch * row + pitch := by ring
    have hend : pitch * (row + (n + 1 : ℕ)) = pitch * row + pitch + pitch * n := by
      push_cast
      ring
    have hend' : pitch * (row + 1 + n) = pitch * row + pitch + pitch * n := by ring
    have hrest : 0 ≤ pitch * n := Int.mul_nonneg hpitch (by omega)
    rw [forStep, ih (by omega)]
    exact copy_outside (by omega)

theorem forStep_rows_inside {k : ℕ} (hwidth : width ≤ pitch) (hk : k < n) (hi : 0 ≤ i)
    (hn : i < width) :
    forStep 1 (copyRow pos pitch width lines) n row buf (pos + pitch * (row + k) + i) =
      lines (row + k) i := by
  induction n generalizing row buf k with
  | zero => omega
  | succ n ih =>
    rw [forStep]
    cases k with
    | zero =>
      have hnext : pitch * (row + 1) = pitch * row + pitch := by ring
      rw [Int.natCast_zero, add_zero, forStep_rows_outside (by omega) hwidth (Or.inl (by omega))]
      have hcell := shows_copy buf (pos + pitch * row) (lines row) 0 width i hi hn
      simpa [copyRow] using hcell
    | succ k =>
      have hrow : row + (k + 1 : ℕ) = row + 1 + k := by omega
      rw [hrow]
      exact ih (by omega)

/-- Every row arrives where the rows do not overlap. -/
theorem forLoop_rows_inside (hwidth : width ≤ pitch) (hrow : 0 ≤ row ∧ row < height)
    (hi : 0 ≤ i ∧ i < width) :
    forLoop 0 height 1 (copyRow pos pitch width lines) buf (pos + pitch * row + i) =
      lines row i := by
  obtain ⟨k, rfl⟩ := Int.eq_ofNat_of_zero_le hrow.1
  have hcell : forStep 1 (copyRow pos pitch width lines) (rounds 0 height 1) 0 buf
      (pos + pitch * (0 + (k : ℤ)) + i) = lines (0 + (k : ℤ)) i :=
    forStep_rows_inside hwidth (by unfold rounds; omega) hi.1 hi.2
  simpa [forLoop] using hcell

/-- Nothing is written before the first row and from the end of the last pitch on. -/
theorem forLoop_rows_outside (hpitch : 0 ≤ pitch) (hwidth : width ≤ pitch) (hheight : 0 ≤ height)
    (hi : i < pos ∨ pos + pitch * height ≤ i) :
    forLoop 0 height 1 (copyRow pos pitch width lines) buf i = buf i := by
  have hrounds : (rounds 0 height 1 : ℤ) = height := by
    unfold rounds
    omega
  refine forStep_rows_outside hpitch hwidth ?_
  rw [hrounds]
  simpa using hi

/-- A cell that is in no row. -/
theorem forStep_rows_other {x : ℤ}
    (h : ∀ k, row ≤ k → k < row + n → x < pos + pitch * k ∨ pos + pitch * k + width ≤ x) :
    forStep 1 (copyRow pos pitch width lines) n row buf x = buf x := by
  induction n generalizing row buf with
  | zero => rfl
  | succ n ih =>
    rw [forStep, ih fun k hk hn => h k (by omega) (by omega)]
    exact copy_outside (h row le_rfl (by omega))

/-- All cells, where rows begin at a multiple of the pitch and an offset. -/
theorem forLoop_rows_apply (hpitch : 0 < pitch) (hpos : 0 ≤ pos) (hwidth : pos + width ≤ pitch)
    (x : ℤ) : forLoop 0 height 1 (copyRow pos pitch width lines) buf x =
      if (0 ≤ x / pitch ∧ x / pitch < height) ∧ pos ≤ x % pitch ∧ x % pitch < pos + width then
        lines (x / pitch) (x % pitch - pos)
      else buf x := by
  have hx : pitch * (x / pitch) + x % pitch = x := Int.mul_ediv_add_emod x pitch
  have hlow : 0 ≤ x % pitch := Int.emod_nonneg x hpitch.ne'
  have hhigh : x % pitch < pitch := Int.emod_lt_of_pos x hpitch
  split_ifs with h
  · have hcell : pos + pitch * (x / pitch) + (x % pitch - pos) = x := by
      rw [← Int.add_sub_assoc, Int.add_assoc, hx]
      omega
    have hinside : forLoop 0 height 1 (copyRow pos pitch width lines) buf
        (pos + pitch * (x / pitch) + (x % pitch - pos)) = lines (x / pitch) (x % pitch - pos) :=
      forLoop_rows_inside (by omega) h.1 ⟨by omega, by omega⟩
    rw [hcell] at hinside
    exact hinside
  · refine forStep_rows_other fun k hk hn => ?_
    by_contra hin
    have hrow : x / pitch = k := by
      have hlower : k ≤ x / pitch := by
        rw [Int.le_ediv_iff_mul_le hpitch, Int.mul_comm]
        omega
      have hupper : x / pitch < k + 1 := by
        rw [Int.ediv_lt_iff_lt_mul hpitch, Int.mul_comm, Int.mul_add]
        omega
      omega
    rw [hrow] at h hx
    refine h ⟨⟨hk, ?_⟩, by omega, by omega⟩
    unfold rounds at hn
    omega

end Rows

/-! ### A pointer that moves on -/

section Writers

/-- A buffer that is written in order, and where the next cell goes. -/
structure Writer (α : Type) where
  buf : ℤ → α
  pos : ℤ

/-- The next cells are a copy. -/
def Writer.append {α : Type} (w : Writer α) (src : ℤ → α) (srcPos n : ℤ) : Writer α :=
  ⟨Buffer.copy w.buf w.pos src srcPos n, w.pos + n⟩

variable {α : Type} {body : ℤ → Writer α → Writer α} {src : ℤ → ℤ → α} {first : ℤ → ℤ} {cells : ℤ}
  {start stop : ℤ} {n : ℕ} {x : ℤ} {w : Writer α}

/-- The cells of consecutive rounds. -/
def roundCells (src : ℤ → ℤ → α) (first : ℤ → ℤ) (cells x : ℤ) : ℤ → α := fun j =>
  src (x + j / cells) (first (x + j / cells) + j % cells)

theorem Writer.append_empty (w : Writer α) (src : ℤ → α) (srcPos : ℤ) :
    w.append src srcPos 0 = w := by
  rw [append, Buffer.copy_empty _ _ _ _ le_rfl, Int.add_zero]

/-- Rounds that append as many cells each. -/
theorem forStep_append (hcells : 0 ≤ cells)
    (h : ∀ x w, body x w = w.append (src x) (first x) cells) :
    forStep 1 body n x w = w.append (roundCells src first cells x) 0 (cells * n) := by
  induction n generalizing x w with
  | zero =>
    rw [Nat.cast_zero, Int.mul_zero, Writer.append_empty]
    rfl
  | succ n ih =>
    have hrest : 0 ≤ cells * n := Int.mul_nonneg hcells (by omega)
    have hfirst : Buffer.copy w.buf w.pos (src x) (first x) cells =
        Buffer.copy w.buf w.pos (roundCells src first cells x) 0 cells := by
      refine copy_congr fun j hj hlt => ?_
      rw [roundCells, Int.zero_add, Int.ediv_eq_zero_of_lt hj hlt, Int.emod_eq_of_lt hj hlt,
        Int.add_zero]
    have hsecond (dst : ℤ → α) :
        Buffer.copy dst (w.pos + cells) (roundCells src first cells (x + 1)) 0 (cells * n) =
          Buffer.copy dst (w.pos + cells) (roundCells src first cells x) (0 + cells)
            (cells * n) := by
      refine copy_congr fun j hj hlt => ?_
      have hpos : cells ≠ 0 := by
        rintro rfl
        rw [Int.zero_mul] at hlt
        omega
      have hround : (0 + cells + j) / cells = 1 + j / cells := by
        rw [Int.zero_add, Int.add_ediv_of_dvd_left (Int.dvd_refl cells), Int.ediv_self hpos]
      have hcell : (0 + cells + j) % cells = j % cells := by
        rw [Int.zero_add, Int.add_emod_left]
      rw [roundCells, roundCells, hround, hcell, Int.zero_add, Int.add_assoc]
    have happend := copy_append w.buf w.pos (roundCells src first cells x) 0 hcells hrest
    have hlength : cells + cells * n = cells * (n + 1 : ℕ) := by
      push_cast
      ring
    rw [hlength] at happend
    rw [forStep, ih, h, Writer.append, Writer.append, Writer.append, hfirst, hsecond, happend,
      Int.add_assoc, hlength]

theorem forLoop_append (hcells : 0 ≤ cells) (hle : start ≤ stop)
    (h : ∀ x w, body x w = w.append (src x) (first x) cells) :
    forLoop start stop 1 body w =
      w.append (roundCells src first cells start) 0 (cells * (stop - start)) := by
  have hrounds : (rounds start stop 1 : ℤ) = stop - start := by
    unfold rounds
    omega
  rw [forLoop, forStep_append hcells h, hrounds]

end Writers

end CountedLoop

/-!
## Tables by columns

A table is written into a buffer column by column. A column has a width, which is a number of
cells, and its cells in each row.
-/

namespace Columns

open CountedLoop

/-- A column of a table. -/
structure Column (α : Type) where
  width : ℤ
  width_nonneg : 0 ≤ width
  cell : ℤ → ℤ → α

variable {α : Type}

/-- The width of a table. -/
def totalWidth : List (Column α) → ℤ
  | [] => 0
  | c :: columns => c.width + totalWidth columns

/-- A cell of a table, counted from the first column on. -/
def cellAt (default : α) : List (Column α) → ℤ → ℤ → α
  | [], _, _ => default
  | c :: columns, row, i =>
    if i < c.width then c.cell row i else cellAt default columns row (i - c.width)

/-- The columns are written one after the other. -/
def writeColumns (pitch height : ℤ) : ℤ → List (Column α) → (ℤ → α) → ℤ → α
  | _, [], buf => buf
  | pos, c :: columns, buf =>
    writeColumns pitch height (pos + c.width) columns
      (forLoop 0 height 1 (copyRow pos pitch c.width c.cell) buf)

variable {columns before after : List (Column α)} {c : Column α} {default : α}
  {row i pos pitch height : ℤ}

theorem totalWidth_nonneg : ∀ columns : List (Column α), 0 ≤ totalWidth columns
  | [] => le_rfl
  | c :: columns => Int.add_nonneg c.width_nonneg (totalWidth_nonneg columns)

/-- The cells of one column. -/
theorem cellAt_column (hi : 0 ≤ i) (hlt : i < c.width) :
    cellAt default (before ++ c :: after) row (totalWidth before + i) = c.cell row i := by
  induction before with
  | nil =>
    have hfirst : totalWidth ([] : List (Column α)) + i = i := Int.zero_add i
    rw [List.nil_append, cellAt, hfirst, if_pos hlt]
  | cons b before ih =>
    have hwidth := totalWidth_nonneg before
    have hrest : b.width + totalWidth before + i - b.width = totalWidth before + i := by omega
    rw [List.cons_append, cellAt, totalWidth, if_neg (by omega), hrest, ih]

/-- Columns that have no cells. -/
theorem writeColumns_empty (h : totalWidth columns = 0) (pos : ℤ) (buf : ℤ → α) :
    writeColumns pitch height pos columns buf = buf := by
  induction columns generalizing pos buf with
  | nil => rfl
  | cons c columns ih =>
    have hwidth := c.width_nonneg
    have hrest := totalWidth_nonneg columns
    rw [totalWidth] at h
    have hnone : forLoop 0 height 1 (copyRow pos pitch c.width c.cell) buf = buf :=
      funext fun x => forStep_rows_other fun k _ _ => by omega
    rw [writeColumns, hnone, ih (by omega)]

/-- The columns are written at the end of rows of a buffer, and nothing else is. -/
theorem writeColumns_apply (default : α) (hpitch : 0 < pitch) (hpos : 0 ≤ pos)
    (hwidth : pos + totalWidth columns = pitch) (buf : ℤ → α) (x : ℤ) :
    writeColumns pitch height pos columns buf x =
      if (0 ≤ x / pitch ∧ x / pitch < height) ∧ pos ≤ x % pitch then
        cellAt default columns (x / pitch) (x % pitch - pos)
      else buf x := by
  have hhigh : x % pitch < pitch := Int.emod_lt_of_pos x hpitch
  induction columns generalizing pos buf with
  | nil =>
    have hend : pos = pitch := by
      rw [← hwidth]
      exact (Int.add_zero pos).symm
    rw [if_neg (by omega)]
    rfl
  | cons c columns ih =>
    have hc := c.width_nonneg
    have hrest := totalWidth_nonneg columns
    rw [totalWidth] at hwidth
    rw [writeColumns, ih (by omega) (by omega),
      forLoop_rows_apply hpitch hpos (by omega)]
    by_cases hrow : 0 ≤ x / pitch ∧ x / pitch < height
    · by_cases hmine : x % pitch < pos + c.width
      · rw [if_neg (by omega), cellAt]
        by_cases hfirst : pos ≤ x % pitch
        · rw [if_pos ⟨hrow, hfirst, hmine⟩, if_pos ⟨hrow, hfirst⟩, if_pos (by omega)]
        · rw [if_neg (by omega), if_neg (by omega)]
      · have hcell : x % pitch - pos - c.width = x % pitch - (pos + c.width) := by omega
        rw [if_pos ⟨hrow, by omega⟩, if_pos ⟨hrow, by omega⟩, cellAt, if_neg (by omega), hcell]
    · rw [if_neg (by omega), if_neg (by omega), if_neg (by omega)]

/-- A table that is written as a whole is a copy of its cells. -/
theorem writeColumns_eq (default : α) (buf : ℤ → α) :
    writeColumns (totalWidth columns) height 0 columns buf =
      Buffer.copy buf 0 (fun x => cellAt default columns (x / totalWidth columns)
        (x % totalWidth columns)) 0 (height * totalWidth columns) := by
  have hwidth := totalWidth_nonneg columns
  by_cases hzero : totalWidth columns = 0
  · rw [writeColumns_empty hzero, Buffer.copy_empty _ _ _ _ (by rw [hzero, Int.mul_zero])]
  · have hpos : 0 < totalWidth columns := by omega
    funext x
    rw [writeColumns_apply default hpos le_rfl (Int.zero_add _), Buffer.copy]
    have hlow : 0 ≤ x % totalWidth columns := Int.emod_nonneg x hzero
    have hin : (0 ≤ x / totalWidth columns ∧ x / totalWidth columns < height) ∧
        0 ≤ x % totalWidth columns ↔ 0 ≤ x ∧ x < 0 + height * totalWidth columns := by
      rw [Int.zero_add, ← Int.ediv_lt_iff_lt_mul hpos, Int.ediv_nonneg_iff_of_pos hpos]
      exact ⟨fun h => h.1, fun h => ⟨h, hlow⟩⟩
    simp only [hin, Int.zero_add, Int.sub_zero]

end Columns
