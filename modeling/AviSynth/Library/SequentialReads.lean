import Mathlib.Data.Int.Notation
import Mathlib.Data.List.Basic
import Mathlib.Order.Defs.LinearOrder

/-!
# Sequential reads

A reader of a stream has a position. Some readers are only right when each read starts where the
one before it ended, or at the beginning of the stream.
-/

namespace SequentialReads

variable {β : Type}

/-- A read into a buffer. A read that fails is not answered. -/
structure Read (β : Type) where
  start : ℤ
  count : ℤ
  into : β
  answered : Bool
  deriving DecidableEq

/-- Where the reader is after a read. A read that fails does not move it. -/
def Read.after (p : ℤ) (r : Read β) : ℤ := if r.answered then r.start + r.count else p

/-- Where a reader is after some reads. -/
def position : ℤ → List (Read β) → ℤ := List.foldl Read.after

/-- Each read starts where the reader is. -/
def Follows : ℤ → List (Read β) → Prop
  | _, [] => True
  | p, r :: reads => r.start = p ∧ Follows (r.after p) reads

/-- Each read starts where the reader is, or at the beginning. -/
def Sequential : ℤ → List (Read β) → Prop
  | _, [] => True
  | p, r :: reads => (r.start = p ∨ r.start = 0) ∧ Sequential (r.after p) reads

instance decidableSequential : ∀ (p : ℤ) (reads : List (Read β)), Decidable (Sequential p reads)
  | _, [] => inferInstanceAs (Decidable True)
  | p, r :: reads =>
    have := decidableSequential (r.after p) reads
    inferInstanceAs (Decidable ((r.start = p ∨ r.start = 0) ∧ Sequential (r.after p) reads))

variable {p q : ℤ} {reads more : List (Read β)} {r : Read β}

theorem position_append : position p (reads ++ more) = position (position p reads) more :=
  List.foldl_append

theorem follows_append :
    Follows p (reads ++ more) ↔ Follows p reads ∧ Follows (position p reads) more := by
  induction reads generalizing p with
  | nil => simp [Follows, position]
  | cons r reads ih =>
    rw [List.cons_append, Follows, Follows, ih, and_assoc]
    rfl

theorem sequential_append :
    Sequential p (reads ++ more) ↔ Sequential p reads ∧ Sequential (position p reads) more := by
  induction reads generalizing p with
  | nil => simp [Sequential, position]
  | cons r reads ih =>
    rw [List.cons_append, Sequential, Sequential, ih, and_assoc]
    rfl

/-- Reads that follow each other from the position on, or from the beginning on. -/
theorem Follows.sequential (h : Follows q reads) (hq : q = p ∨ q = 0) : Sequential p reads := by
  induction reads generalizing p q with
  | nil => trivial
  | cons r reads ih =>
    obtain ⟨hstart, hrest⟩ := h
    refine ⟨?_, ?_⟩
    · rw [hstart]
      exact hq
    · cases hanswered : r.answered with
      | true =>
        have hafter (p : ℤ) : r.after p = r.start + r.count := by
          rw [Read.after, hanswered, if_pos rfl]
        rw [hafter] at hrest ⊢
        exact ih hrest (Or.inl rfl)
      | false =>
        have hafter (p : ℤ) : r.after p = p := by
          rw [Read.after, hanswered, if_neg Bool.false_ne_true]
        rw [hafter] at hrest ⊢
        exact ih hrest hq

/-- One more read that is answered. -/
theorem Follows.snoc (h : Follows p reads) (hstart : r.start = position p reads) :
    Follows p (reads ++ [r]) :=
  follows_append.mpr ⟨h, hstart, trivial⟩

theorem position_snoc : position p (reads ++ [r]) = r.after (position p reads) :=
  position_append

end SequentialReads
