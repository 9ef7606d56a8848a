import Mathlib.Tactic.Ring
import Mathlib.Tactic.Linarith

/-!
# Blocks of rows in a buffer

A block of bytes is copied row by row, a fixed distance apart that may be negative.
Whether it stays in a buffer is decided by its first and its last row.
-/

namespace AviSynth

/-- The destination of a copy: `height` rows of `rowSize` bytes, `pitch` bytes apart. -/
structure RowBlock where
  start : ℤ
  pitch : ℤ
  rowSize : ℤ
  height : ℤ
  deriving DecidableEq

namespace RowBlock

variable {b : RowBlock} {size : ℤ}

/-- The byte at `x` belongs to one of the rows. -/
def Writes (b : RowBlock) (x : ℤ) : Prop :=
  ∃ row, 0 ≤ row ∧ row < b.height ∧
    b.start + row * b.pitch ≤ x ∧ x < b.start + row * b.pitch + b.rowSize

/-- Only bytes of a buffer of this size are written. -/
def Within (b : RowBlock) (size : ℤ) : Prop := ∀ x, b.Writes x → 0 ≤ x ∧ x < size

/-- A row lies between the first and the last one, on either side. -/
theorem row_between {row : ℤ} (hlow : 0 ≤ row) (hhigh : row < b.height) :
    min 0 ((b.height - 1) * b.pitch) ≤ row * b.pitch ∧
      row * b.pitch ≤ max 0 ((b.height - 1) * b.pitch) := by
  have hle : row ≤ b.height - 1 := by omega
  rcases le_total 0 b.pitch with hpitch | hpitch
  · have hstart := mul_nonneg hlow hpitch
    have hfinish := mul_le_mul_of_nonneg_right hle hpitch
    exact ⟨(min_le_left _ _).trans hstart, hfinish.trans (le_max_right _ _)⟩
  · have hstart := mul_nonpos_of_nonneg_of_nonpos hlow hpitch
    have hfinish := mul_le_mul_of_nonpos_right hle hpitch
    exact ⟨(min_le_right _ _).trans hfinish, hstart.trans (le_max_left _ _)⟩

/-- A block without bytes is within every buffer. -/
theorem within_of_empty (h : b.rowSize ≤ 0 ∨ b.height ≤ 0) : b.Within size := by
  rintro x ⟨row, hlow, hhigh, hstart, hfinish⟩
  omega

/-- A block is within a buffer when its first and its last row are. -/
theorem within_of_ends (hfirst : 0 ≤ b.start ∧ b.start + b.rowSize ≤ size)
    (hlast : 0 ≤ b.start + (b.height - 1) * b.pitch ∧
      b.start + (b.height - 1) * b.pitch + b.rowSize ≤ size) : b.Within size := by
  rintro x ⟨row, hlow, hhigh, hstart, hfinish⟩
  obtain ⟨hmin, hmax⟩ := row_between hlow hhigh
  omega

/-- Rows that follow each other stay below the end of the last one. -/
theorem within_downwards {start pitch rowSize height : ℤ} (hstart : 0 ≤ start)
    (hpitch : 0 ≤ pitch) (hheight : 0 < height)
    (hend : start + pitch * (height - 1) + rowSize ≤ size) :
    Within ⟨start, pitch, rowSize, height⟩ size := by
  have hrows : 0 ≤ pitch * (height - 1) := mul_nonneg hpitch (by omega)
  have hcomm : (height - 1) * pitch = pitch * (height - 1) := mul_comm _ _
  apply within_of_ends
  · exact ⟨hstart, by dsimp only; omega⟩
  · dsimp only
    omega

/-- The same rows may be written from the last one to the first. -/
theorem within_upwards {pitch rowSize height : ℤ} (hpitch : 0 ≤ pitch) (hheight : 0 < height)
    (hend : pitch * (height - 1) + rowSize ≤ size) :
    Within ⟨pitch * (height - 1), -pitch, rowSize, height⟩ size := by
  have hrows : 0 ≤ pitch * (height - 1) := mul_nonneg hpitch (by omega)
  have hback : pitch * (height - 1) + (height - 1) * -pitch = 0 := by ring
  apply within_of_ends
  · exact ⟨hrows, hend⟩
  · dsimp only
    omega

/-- The rows of a block that is within a buffer are. -/
theorem Within.row (h : b.Within size) (hsize : 0 < b.rowSize) {row : ℤ} (hlow : 0 ≤ row)
    (hhigh : row < b.height) :
    0 ≤ b.start + row * b.pitch ∧ b.start + row * b.pitch + b.rowSize ≤ size := by
  have hfirst := h (b.start + row * b.pitch) ⟨row, hlow, hhigh, le_rfl, by omega⟩
  have hlast := h (b.start + row * b.pitch + b.rowSize - 1)
    ⟨row, hlow, hhigh, by omega, by omega⟩
  omega

end RowBlock

end AviSynth
