import Mathlib.Tactic.Ring

/-!
# Copying rows of bytes

Memory is a function from positions to bytes. Rows of one length that lie a pitch
apart are copied one after the other. If no row is longer than the pitch, every row
arrives, and nothing else is written.
-/

namespace ByteRows

variable {B : Type} {memory origin : ℤ → B} {dst src dstPitch srcPitch i : ℤ} {n rows x y : ℕ}

/-- Copy `n` bytes of `origin` from `src` on into `memory`, from `dst` on. -/
def copyBytes (memory : ℤ → B) (dst : ℤ) (origin : ℤ → B) (src : ℤ) (n : ℕ) : ℤ → B :=
  fun i => if dst ≤ i ∧ i < dst + n then origin (i - dst + src) else memory i

/-- Copy rows of `n` bytes, the first row first. -/
def copyRows (origin : ℤ → B) (dstPitch srcPitch : ℤ) (n : ℕ) :
    ℕ → (ℤ → B) → ℤ → ℤ → ℤ → B
  | 0, memory, _, _ => memory
  | rows + 1, memory, dst, src =>
    copyRows origin dstPitch srcPitch n rows (copyBytes memory dst origin src n) (dst + dstPitch)
      (src + srcPitch)

/-- The bytes that are copied. -/
theorem copyBytes_inside (memory origin : ℤ → B) (dst src : ℤ) (hx : x < n) :
    copyBytes memory dst origin src n (dst + x) = origin (src + x) := by
  have hinside : dst ≤ dst + (x : ℤ) ∧ dst + (x : ℤ) < dst + n := by omega
  simp only [copyBytes, if_pos hinside]
  congr 1
  omega

/-- The other bytes. -/
theorem copyBytes_outside (hi : i < dst ∨ dst + n ≤ i) :
    copyBytes memory dst origin src n i = memory i := by
  have hinside : ¬(dst ≤ i ∧ i < dst + n) := by omega
  simp only [copyBytes, if_neg hinside]

/-- Nothing is written before the first row or from the end of the last pitch on. -/
theorem copyRows_outside (hn : n ≤ dstPitch) (hi : i < dst ∨ dst + dstPitch * rows ≤ i) :
    copyRows origin dstPitch srcPitch n rows memory dst src i = memory i := by
  induction rows generalizing memory dst src with
  | zero => rfl
  | succ rows ih =>
    have hend : dst + dstPitch * (rows + 1 : ℕ) = dst + dstPitch + dstPitch * rows := by
      push_cast
      ring
    have hrest : 0 ≤ dstPitch * rows := Int.mul_nonneg (by omega) (by omega)
    rw [copyRows, ih (by omega)]
    exact copyBytes_outside (by omega)

/-- Every row arrives. -/
theorem copyRows_inside (hn : n ≤ dstPitch) (hy : y < rows) (hx : x < n) :
    copyRows origin dstPitch srcPitch n rows memory dst src (dst + dstPitch * y + x) =
      origin (src + srcPitch * y + x) := by
  induction rows generalizing memory dst src y with
  | zero => omega
  | succ rows ih =>
    rw [copyRows]
    cases y with
    | zero =>
      rw [copyRows_outside hn (by push_cast; omega)]
      simpa using copyBytes_inside memory origin dst src hx
    | succ y =>
      have hrow : copyRows origin dstPitch srcPitch n rows (copyBytes memory dst origin src n)
          (dst + dstPitch) (src + srcPitch) (dst + dstPitch + dstPitch * y + x) =
            origin (src + srcPitch + srcPitch * y + x) := ih (by omega)
      have hdst : dst + dstPitch * (y + 1 : ℕ) + x = dst + dstPitch + dstPitch * y + x := by
        push_cast
        ring
      have hsrc : src + srcPitch * (y + 1 : ℕ) + x = src + srcPitch + srcPitch * y + x := by
        push_cast
        ring
      rw [hdst, hsrc]
      exact hrow

end ByteRows
