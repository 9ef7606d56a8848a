import Mathlib.Algebra.Group.Nat.Defs
import Mathlib.Data.List.Basic

/-!
# Flat memory and its spans

Memory is a function from addresses to cells. A span is a run of addresses. What is
written in one span is read back from it, and is not seen in a span apart from it.
A word is a number in eight bytes, the lowest first.
-/

namespace Memory

/-- Addresses from `start` on. -/
structure Span where
  start : ℕ
  size : ℕ
  deriving DecidableEq, Repr

namespace Span

/-- The first address behind the span. -/
def finish (s : Span) : ℕ := s.start + s.size

/-- The spans have no address in common. -/
def Apart (s t : Span) : Prop := s.finish ≤ t.start ∨ t.finish ≤ s.start
  deriving Decidable

/-- One span lies in the other. -/
def Within (s t : Span) : Prop := t.start ≤ s.start ∧ s.finish ≤ t.finish
  deriving Decidable

variable {s s' t t' : Span}

theorem Apart.symm (h : s.Apart t) : t.Apart s := Or.symm h

theorem Within.trans (h : s.Within s') (h' : s'.Within t) : s.Within t := by
  unfold Within at *
  omega

/-- Parts of spans that are apart are apart. -/
theorem Apart.mono (h : s.Apart t) (hs : s'.Within s) (ht : t'.Within t) : s'.Apart t' := by
  unfold Apart Within at *
  omega

/-- A span that has an address is not apart from itself. -/
theorem Apart.start_ne (h : s.Apart t) (hs : 0 < s.size) (ht : 0 < t.size) :
    s.start ≠ t.start := by
  unfold Apart finish at h
  omega

end Span

variable {B : Type*} {memory : ℕ → B} {cells : List B} {a b n : ℕ}

/-- Memory after the cells are written from address `a` on. -/
def write (memory : ℕ → B) (a : ℕ) (cells : List B) : ℕ → B := fun i =>
  if a ≤ i then (cells[i - a]?).getD (memory i) else memory i

/-- The `n` cells from address `a` on. -/
def read (memory : ℕ → B) (a n : ℕ) : List B := (List.range n).map fun i => memory (a + i)

@[simp] theorem length_read : (read memory a n).length = n := by simp [read]

/-- One cell more is read. -/
theorem read_succ : read memory a (n + 1) = read memory a n ++ [memory (a + n)] := by
  simp [read, List.range_succ]

/-- A written cell. -/
theorem write_inside (h : n < cells.length) : write memory a cells (a + n) = cells[n] := by
  simp [write, h]

/-- A cell that is not written. -/
theorem write_outside (h : b < a ∨ a + cells.length ≤ b) : write memory a cells b = memory b := by
  unfold write
  split
  · have hnone : cells[b - a]? = none := List.getElem?_eq_none (by omega)
    rw [hnone, Option.getD_none]
  · rfl

/-- What is written is read. -/
theorem read_write_self (memory : ℕ → B) (a : ℕ) (cells : List B) :
    read (write memory a cells) a cells.length = cells := by
  apply List.ext_getElem (by simp)
  intro i hi hcells
  simp [read, write_inside hcells]

/-- Writing apart from a span is not seen in it. -/
theorem read_write_apart (h : Span.Apart ⟨a, cells.length⟩ ⟨b, n⟩) :
    read (write memory a cells) b n = read memory b n := by
  unfold Span.Apart Span.finish at h
  apply List.map_congr_left
  intro i hi
  have hlt : i < n := List.mem_range.mp hi
  exact write_outside (by dsimp only at h; omega)

/-- The size of a pointer. -/
def sizeofPointer : ℕ := 8

/-- The lowest bytes of a number. -/
def wordBytes : ℕ → ℕ → List UInt8
  | 0, _ => []
  | width + 1, x => UInt8.ofNat x :: wordBytes width (x / 256)

/-- The number that bytes stand for. -/
def bytesWord : List UInt8 → ℕ
  | [] => 0
  | b :: bytes => b.toNat + 256 * bytesWord bytes

@[simp] theorem length_wordBytes (width x : ℕ) : (wordBytes width x).length = width := by
  induction width generalizing x with
  | zero => rfl
  | succ width ih => simp [wordBytes, ih]

/-- A number that fits is kept. -/
theorem bytesWord_wordBytes {width x : ℕ} (h : x < 256 ^ width) :
    bytesWord (wordBytes width x) = x := by
  induction width generalizing x with
  | zero =>
    obtain rfl : x = 0 := by simpa using h
    rfl
  | succ width ih =>
    have hrest : x / 256 < 256 ^ width := by
      rw [Nat.pow_succ] at h
      omega
    have hlow : (UInt8.ofNat x).toNat = x % 256 := by simp
    rw [wordBytes, bytesWord, ih hrest, hlow]
    omega

/-- The word at an address. -/
def readWord (memory : ℕ → UInt8) (a : ℕ) : ℕ := bytesWord (read memory a sizeofPointer)

/-- Memory after words are written one behind the other. -/
def writeWords : (ℕ → UInt8) → ℕ → List ℕ → ℕ → UInt8
  | memory, _, [] => memory
  | memory, a, x :: words =>
    writeWords (write memory a (wordBytes sizeofPointer x)) (a + sizeofPointer) words

variable {bytes : ℕ → UInt8} {words : List ℕ}

/-- Words are not seen apart from them. -/
theorem read_writeWords_apart (h : Span.Apart ⟨a, sizeofPointer * words.length⟩ ⟨b, n⟩) :
    read (writeWords bytes a words) b n = read bytes b n := by
  induction words generalizing bytes a with
  | nil => rfl
  | cons x words ih =>
    simp only [List.length_cons, Nat.mul_add, Span.Apart, Span.finish] at h ih
    rw [writeWords, ih (by omega)]
    refine read_write_apart ?_
    simp only [Span.Apart, Span.finish, length_wordBytes]
    omega

/-- Every word is read. -/
theorem readWord_writeWords (hfit : ∀ x ∈ words, x < 2 ^ 64) {i : ℕ} (hi : i < words.length) :
    readWord (writeWords bytes a words) (a + sizeofPointer * i) = words[i] := by
  induction words generalizing bytes a i with
  | nil => simp at hi
  | cons x words ih =>
    cases i with
    | zero =>
      have hx : x < 256 ^ sizeofPointer := by
        have := hfit x List.mem_cons_self
        simp only [sizeofPointer]
        omega
      have hself : read (write bytes a (wordBytes sizeofPointer x)) a sizeofPointer =
          wordBytes sizeofPointer x := by
        simpa using read_write_self bytes a (wordBytes sizeofPointer x)
      rw [readWord, writeWords, Nat.mul_zero, Nat.add_zero,
        read_writeWords_apart (Or.inr (by simp [Span.finish])), hself, bytesWord_wordBytes hx,
        List.getElem_cons_zero]
    | succ i =>
      have hlt : i < words.length := Nat.lt_of_succ_lt_succ hi
      have hrest : readWord (writeWords (write bytes a (wordBytes sizeofPointer x))
          (a + sizeofPointer) words) (a + sizeofPointer + sizeofPointer * i) = words[i] :=
        ih (fun y hy => hfit y (List.mem_cons_of_mem _ hy)) hlt
      have haddress : a + sizeofPointer * (i + 1) = a + sizeofPointer + sizeofPointer * i := by
        simp only [sizeofPointer]
        omega
      rw [writeWords, haddress, hrest, List.getElem_cons_succ]

end Memory
