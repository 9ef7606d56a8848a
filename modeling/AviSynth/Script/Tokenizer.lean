import AviSynth.Library.MachineInt
import Mathlib.Data.List.Basic

/-!
# String tokens of a script

The tokenizer finds the end of a string literal by looking for a closing
quotation mark; in a literal with the prefix `e` it passes over a mark that has
a backslash right before it. The text between the marks goes to `SaveString`,
which reads the escapes of such a literal from left to right.
-/

namespace AviSynth

open MachineInt

/-- The bytes that a character pointer leads to. A zero byte ends the string, as
the end of the list does. -/
abbrev Bytes := List UInt8

def quotationMark : UInt8 := 0x22

def backslash : UInt8 := 0x5C

def letterE : UInt8 := 0x65

def newline : UInt8 := 0x0A

/-- The number of bytes before the terminating zero. -/
def strlen (s : Bytes) : ℕ := (s.takeWhile (· != 0)).length

/-- The letters that follow a backslash with the bytes that they stand for:
`n`, `r`, `t`, `0`, `a`, `f`, the backslash, both quotation marks, `b` and `v`. -/
def escapeSequences : List (UInt8 × UInt8) :=
  [(0x6E, 0x0A), (0x72, 0x0D), (0x74, 0x09), (0x30, 0x00), (0x61, 0x07), (0x66, 0x0C),
    (backslash, backslash), (quotationMark, quotationMark), (0x27, 0x27), (0x62, 0x08),
    (0x76, 0x0B)]

/-- The escapes among the first `count` bytes are replaced. The byte after a
backslash is read also where it lies behind the counted ones. -/
def decodeEscapes : Bytes → ℕ → Bytes
  | [], _ => []
  | _, 0 => []
  | [b], _ + 1 => if b = 0 then [] else [b]
  | b :: c :: rest, count + 1 =>
    if b = 0 then []
    else if b = backslash then
      match escapeSequences.lookup c with
      | some decoded => decoded :: decodeEscapes rest (count - 1)
      | none => b :: decodeEscapes (c :: rest) count
    else b :: decodeEscapes (c :: rest) count

@[simp] theorem decodeEscapes_nil (count : ℕ) : decodeEscapes [] count = [] := by
  cases count <;> rfl

@[simp] theorem decodeEscapes_zero (s : Bytes) : decodeEscapes s 0 = [] := by
  cases s <;> rfl

/-- A byte that starts no escape stands for itself. -/
theorem decodeEscapes_plain {b : UInt8} (hzero : b ≠ 0) (hplain : b ≠ backslash) (rest : Bytes)
    (count : ℕ) : decodeEscapes (b :: rest) (count + 1) = b :: decodeEscapes rest count := by
  cases rest with
  | nil => simp [decodeEscapes, hzero]
  | cons c rest => simp [decodeEscapes, hzero, hplain]

/-- An escape stands for one byte, also where only its backslash is counted. -/
theorem decodeEscapes_escape {letter decoded : UInt8}
    (hletter : escapeSequences.lookup letter = some decoded) (rest : Bytes) (count : ℕ) :
    decodeEscapes (backslash :: letter :: rest) (count + 1) =
      decoded :: decodeEscapes rest (count - 1) := by
  have hzero : backslash ≠ 0 := by decide
  simp [decodeEscapes, hzero, hletter]

/-- The bytes that `SaveString` stores for the string at `s`. -/
def saveString (s : Bytes) (len : ℤ) (escape : Bool) : Bytes :=
  let srclen := if len = -1 then strlen s else if 0 ≤ len then len.toNat else 0
  if escape then decodeEscapes s srclen else s.take srclen

/-- The text that is left, and the line. -/
structure Tokenizer where
  pc : Bytes
  line : ℕ
  deriving DecidableEq, Repr

namespace Tokenizer

/-- The distance to the closing marks. `previous` is the byte before the list;
with `escape`, marks right after a backslash are passed over. -/
def findClosing (marks : Bytes) (escape : Bool) (previous : UInt8) : Bytes → Option ℕ
  | [] => none
  | b :: rest =>
    if b = 0 then none
    else if marks.isPrefixOf (b :: rest) && !(escape && previous == backslash) then some 0
    else (findClosing marks escape b rest).map (· + 1)

/-- What `NextToken` does at a quotation mark, or at an `e` with a quotation
mark behind it: the string of the token, and the tokenizer behind it. -/
def getString (t : Tokenizer) : Except String (Bytes × Tokenizer) :=
  let escape := t.pc.head? == some letterE
  let pc := if escape then t.pc.tail else t.pc
  if [quotationMark, quotationMark].isPrefixOf pc.tail then
    let start := pc.drop 3
    match findClosing [quotationMark, quotationMark, quotationMark] escape quotationMark start with
    | none => throw "Parse error: string missing closing quotation marks"
    | some found =>
      -- further marks belong to the string
      let len := found + ((start.drop (found + 3)).takeWhile (· == quotationMark)).length
      return (saveString start (i32 len) escape,
        { pc := start.drop (len + 3), line := t.line + (start.take len).count newline })
  else
    let start := pc.drop 1
    match findClosing [quotationMark] escape quotationMark start with
    | none => throw "Parse error: string missing closing quotation mark"
    | some len =>
      return (saveString start (i32 len) escape,
        { pc := start.drop (len + 1), line := t.line + (start.take len).count newline })

/-- A search finds the marks inside the string. -/
theorem findClosing_lt {marks : Bytes} {escape : Bool} {previous : UInt8} {s : Bytes} {n : ℕ}
    (h : findClosing marks escape previous s = some n) : n < s.length := by
  induction s generalizing previous n with
  | nil => simp [findClosing] at h
  | cons b rest ih =>
    simp only [findClosing] at h
    split_ifs at h
    · obtain rfl : 0 = n := by simpa using h
      simp
    · obtain ⟨m, hm, rfl⟩ := Option.map_eq_some_iff.mp h
      simpa using ih hm

/-- A byte that is neither zero nor a quotation mark is passed over. -/
theorem findClosing_pass {escape : Bool} {previous b : UInt8} (rest : Bytes) (hzero : b ≠ 0)
    (hmark : b = quotationMark → escape = true ∧ previous = backslash) :
    findClosing [quotationMark] escape previous (b :: rest) =
      (findClosing [quotationMark] escape b rest).map (· + 1) := by
  rw [findClosing, if_neg hzero, if_neg]
  rintro h
  simp only [List.isPrefixOf, Bool.and_true, Bool.and_eq_true, beq_iff_eq, Bool.not_eq_true',
    Bool.and_eq_false_imp] at h
  obtain ⟨hescape, hprevious⟩ := hmark h.1.symm
  simp [hescape, hprevious] at h

/-- A mark that no backslash precedes closes the literal. -/
theorem findClosing_mark {previous : UInt8} (rest : Bytes) (h : previous ≠ backslash) :
    findClosing [quotationMark] true previous (quotationMark :: rest) = some 0 := by
  have hzero : quotationMark ≠ 0 := by decide
  simp [findClosing, hzero, h]

end Tokenizer

end AviSynth
