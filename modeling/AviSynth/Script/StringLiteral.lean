import AviSynth.Script.Tokenizer
import Mathlib.Data.List.Induction

/-!
# Writing a string as an escaped literal

A string is written with a backslash before each backslash and quotation mark,
and with an escape for each control character that has one. Reading the literal
back gives the string, unless the string ends with a backslash: the byte before
the closing mark is then a backslash, although the decoder takes it for the
second byte of an escape.
-/

namespace AviSynth

open MachineInt Tokenizer

/-- The escapes that a literal is written with. A zero byte cannot be part of a
string and the apostrophe needs no escape. -/
def writtenEscapes : List (UInt8 × UInt8) :=
  escapeSequences.filter fun e => e.2 != 0 && e.2 != 0x27

def writeByte (b : UInt8) : Bytes :=
  match writtenEscapes.find? (fun e => e.2 == b) with
  | some e => [backslash, e.1]
  | none => [b]

def writeString (s : Bytes) : Bytes := s.flatMap writeByte

/-- The literal that stands for `s` in a script. -/
def stringLiteral (s : Bytes) : Bytes :=
  letterE :: quotationMark :: (writeString s ++ [quotationMark])

/-- A byte is written as an escape that stands for it, or as itself; only a
backslash is written with a backslash at the end. -/
theorem writeByte_cases (b : UInt8) :
    (∃ letter, writeByte b = [backslash, letter] ∧ (letter ≠ 0 ∧ letter ≠ newline) ∧
      escapeSequences.lookup letter = some b ∧ (letter = backslash ↔ b = backslash)) ∨
    (writeByte b = [b] ∧ (b ≠ quotationMark ∧ b ≠ newline) ∧ b ≠ backslash) := by
  unfold writeByte
  cases hfind : writtenEscapes.find? (fun e => e.2 == b) with
  | none =>
    right
    rw [List.find?_eq_none] at hfind
    have hplain (e : UInt8 × UInt8) (he : e ∈ writtenEscapes) : b ≠ e.2 := by
      rintro rfl
      exact hfind e he (by simp)
    exact ⟨rfl, ⟨hplain (quotationMark, quotationMark) (by decide),
      hplain (0x6E, newline) (by decide)⟩, hplain (backslash, backslash) (by decide)⟩
  | some e =>
    left
    have hletter : e.2 = b := by simpa using List.find?_some hfind
    subst hletter
    have hmem := List.mem_of_find?_eq_some hfind
    have htable : writtenEscapes.all (fun e => decide ((e.1 ≠ 0 ∧ e.1 ≠ newline) ∧
        escapeSequences.lookup e.1 = some e.2 ∧ (e.1 = backslash ↔ e.2 = backslash))) := by
      decide
    have hspec := List.all_eq_true.mp htable e hmem
    exact ⟨e.1, rfl, of_decide_eq_true hspec⟩

@[simp] theorem writeString_nil : writeString [] = [] := rfl

@[simp] theorem writeString_cons (b : UInt8) (s : Bytes) :
    writeString (b :: s) = writeByte b ++ writeString s := rfl

/-- The byte before the mark that closes the literal. -/
def lastWritten (s : Bytes) : UInt8 := (writeString s).getLastD quotationMark

variable {s : Bytes}

/-- The search for the closing mark passes over everything that is written for
the string. -/
theorem findClosing_writeString (hs : 0 ∉ s) (previous : UInt8) (rest : Bytes) :
    findClosing [quotationMark] true previous (writeString s ++ rest) =
      (findClosing [quotationMark] true ((writeString s).getLastD previous) rest).map
        (· + (writeString s).length) := by
  induction s generalizing previous with
  | nil => simp
  | cons b s ih =>
    have hb : b ≠ 0 := fun h => hs (by simp [h])
    have ih := ih (fun h => hs (by simp [h]))
    obtain ⟨letter, hwrite, ⟨hzero, -⟩, -, -⟩ | ⟨hwrite, ⟨hmark, -⟩, -⟩ := writeByte_cases b
    · have hslash : backslash ≠ quotationMark := by decide
      simp only [writeString_cons, hwrite, List.cons_append, List.nil_append]
      rw [findClosing_pass _ (by decide) (absurd · hslash),
        findClosing_pass _ hzero (fun _ => ⟨rfl, rfl⟩), ih, List.getLastD_cons, List.getLastD_cons]
      simp only [Option.map_map, Function.comp_def, List.length_cons, Nat.add_assoc]
    · simp only [writeString_cons, hwrite, List.cons_append, List.nil_append]
      rw [findClosing_pass _ hb (absurd · hmark), ih, List.getLastD_cons]
      simp only [Option.map_map, Function.comp_def, List.length_cons, Nat.add_assoc]

/-- The byte before the closing mark is a backslash just when the string ends
with one. -/
theorem lastWritten_backslash (s : Bytes) :
    lastWritten s = backslash ↔ s.getLast? = some backslash := by
  induction s using List.reverseRecOn with
  | nil => decide
  | append_singleton s b =>
    have hsplit : writeString (s ++ [b]) = writeString s ++ writeByte b := by simp [writeString]
    obtain ⟨letter, hwrite, -, -, hletter⟩ | ⟨hwrite, -, hb⟩ := writeByte_cases b
    · simpa [lastWritten, hsplit, hwrite] using hletter
    · simp [lastWritten, hsplit, hwrite]

/-- The decoder gives back the string from the bytes that are written for it,
and goes on behind them as far as it is told to. -/
theorem decodeEscapes_writeString (hs : 0 ∉ s) (rest : Bytes) (count : ℕ) :
    decodeEscapes (writeString s ++ rest) ((writeString s).length + count) =
      s ++ decodeEscapes rest count := by
  induction s with
  | nil => simp
  | cons b s ih =>
    have hb : b ≠ 0 := fun h => hs (by simp [h])
    have ih := ih (fun h => hs (by simp [h]))
    obtain ⟨letter, hwrite, -, hletter, -⟩ | ⟨hwrite, -, hplain⟩ := writeByte_cases b
    · have hlength : (writeString (b :: s)).length + count =
          ((writeString s).length + count + 1) + 1 := by
        simp only [writeString_cons, hwrite, List.length_append, List.length_cons, List.length_nil]
        omega
      rw [hlength, writeString_cons, hwrite]
      simp [decodeEscapes_escape hletter, ih]
    · have hlength : (writeString (b :: s)).length + count =
          ((writeString s).length + count) + 1 := by
        simp only [writeString_cons, hwrite, List.length_append, List.length_cons, List.length_nil]
        omega
      rw [hlength, writeString_cons, hwrite]
      simp [decodeEscapes_plain hb hplain, ih]

/-- A decoder that stops two bytes early, or earlier, loses bytes of the string. -/
theorem decodeEscapes_short (hs : 0 ∉ s) (rest : Bytes) (count : ℕ)
    (hcount : count + 2 ≤ (writeString s).length) :
    (decodeEscapes (writeString s ++ rest) count).length < s.length := by
  induction s generalizing count with
  | nil => simp at hcount
  | cons b s ih =>
    have hb : b ≠ 0 := fun h => hs (by simp [h])
    have ih := ih (fun h => hs (by simp [h]))
    cases count with
    | zero => simp
    | succ count =>
      obtain ⟨letter, hwrite, -, hletter, -⟩ | ⟨hwrite, -, hplain⟩ := writeByte_cases b
      · rw [writeString_cons, hwrite] at hcount ⊢
        simp only [List.cons_append, List.nil_append, List.length_cons,
          decodeEscapes_escape hletter] at hcount ⊢
        cases count with
        | zero =>
          cases s with
          | nil => simp at hcount
          | cons c s => simp
        | succ count =>
          have := ih count (by omega)
          simp only [Nat.add_sub_cancel]
          omega
      · rw [writeString_cons, hwrite] at hcount ⊢
        simp only [List.cons_append, List.nil_append, List.length_cons,
          decodeEscapes_plain hb hplain] at hcount ⊢
        have := ih count (by omega)
        omega

/-- No byte of a written string ends a line or the string itself. -/
theorem notMem_writeString (hs : 0 ∉ s) :
    newline ∉ writeString s ∧ 0 ∉ writeString s := by
  induction s with
  | nil => simp
  | cons b s ih =>
    have hslash : newline ≠ backslash ∧ 0 ≠ backslash := by decide
    have hb : 0 ≠ b := fun h => hs (by simp [h])
    have ih := ih (fun h => hs (by simp [h]))
    obtain ⟨letter, hwrite, ⟨hzero, hnewline⟩, -, -⟩ | ⟨hwrite, ⟨-, hnewline⟩, -⟩ :=
      writeByte_cases b
    · simp [hwrite, ih, hslash, hzero.symm, hnewline.symm]
    · simp [hwrite, ih, hb, hnewline.symm]

/-- The literal of `s` with `rest` behind it is read as `s`, and the tokenizer
stands at `rest`. -/
def ReadsBack (s rest : Bytes) (line : ℕ) : Prop :=
  getString ⟨stringLiteral s ++ rest, line⟩ = .ok (s, ⟨rest, line⟩)
  deriving Decidable

/-- The two marks of the literal and the byte behind them are taken for three
opening marks. -/
def LooksTripled (s rest : Bytes) : Prop := s = [] ∧ rest.head? = some quotationMark
  deriving Decidable

theorem tripled_iff (s rest : Bytes) :
    [quotationMark, quotationMark].isPrefixOf (writeString s ++ quotationMark :: rest) = true ↔
      LooksTripled s rest := by
  cases s with
  | nil =>
    cases rest with
    | nil => decide
    | cons b rest =>
      simp only [writeString_nil, List.nil_append, List.isPrefixOf, beq_self_eq_true,
        Bool.and_true, Bool.true_and, beq_iff_eq, LooksTripled, List.head?_cons,
        Option.some.injEq, true_and]
      exact eq_comm
  | cons b s =>
    have hslash : quotationMark ≠ backslash := by decide
    obtain ⟨letter, hwrite, -, -, -⟩ | ⟨hwrite, ⟨hmark, -⟩, -⟩ := writeByte_cases b
    · simp [LooksTripled, hwrite, hslash]
    · simp [LooksTripled, hwrite, hmark.symm]

/-- Three opening marks lead the tokenizer past the start of `rest`. -/
theorem not_readsBack_of_tripled {s rest : Bytes} (line : ℕ) (h : LooksTripled s rest) :
    ¬ReadsBack s rest line := by
  have hopen := (tripled_iff s rest).mpr h
  obtain ⟨rfl, hrest⟩ := h
  obtain ⟨rest, rfl⟩ := List.head?_eq_some_iff.mp hrest
  simp only [writeString_nil, List.nil_append] at hopen
  simp only [ReadsBack, getString, stringLiteral, writeString_nil, List.nil_append,
    List.cons_append, List.head?_cons, beq_self_eq_true, if_true, List.tail_cons, hopen,
    List.drop_succ_cons, List.drop_zero]
  split
  · simp
  · intro heq
    simp only [Except.ok.injEq, Prod.mk.injEq, Tokenizer.mk.injEq, pure, Except.pure] at heq
    have hlength := congrArg List.length heq.2.1
    simp at hlength
    omega

/-- Any other literal is read up to the first mark that the search accepts. -/
theorem getString_literal {s rest : Bytes} (line : ℕ) (hopen : ¬LooksTripled s rest) :
    getString ⟨stringLiteral s ++ rest, line⟩ =
      let start := writeString s ++ quotationMark :: rest
      match findClosing [quotationMark] true quotationMark start with
      | none => .error "Parse error: string missing closing quotation mark"
      | some len => .ok (saveString start (i32 len) true,
          ⟨start.drop (len + 1), line + (start.take len).count newline⟩) := by
  have hsingle := mt (tripled_iff s rest).mp hopen
  have hletter : (letterE == letterE) = true := by decide
  simp only [getString, stringLiteral, List.cons_append, List.append_assoc, List.nil_append,
    List.head?_cons, beq_self_eq_true, if_true, List.tail_cons, hsingle,
    List.drop_succ_cons, List.drop_zero]
  rfl

/-- The length of the literal is passed as an `int`. The stored string is right
just when it fits. -/
theorem saveString_writeString_iff (hs : 0 ∉ s) (rest : Bytes) :
    saveString (writeString s ++ quotationMark :: rest) (i32 (writeString s).length) true = s ↔
      (writeString s).length < 2 ^ 31 := by
  set len := (writeString s).length with hlen
  constructor
  · contrapose!
    intro hlong heq
    have hturn : (2 ^ 32 : ℤ) ∣ i32 len - len := Int.dvd_bmod_sub_self
    have hlt := i32_lt len
    have hlength := congrArg List.length heq
    simp only [saveString, if_true] at hlength
    split_ifs at hlength with hwhole hpositive
    · -- the length -1 stands for the whole rest of the script
      have hzero := (notMem_writeString hs).2
      have hmark : quotationMark ≠ 0 := by decide
      have hstrlen : len + 1 ≤ strlen (writeString s ++ quotationMark :: rest) := by
        have hall : ∀ b ∈ writeString s, (b != 0) = true := by
          intro b hb
          exact bne_iff_ne.mpr (ne_of_mem_of_not_mem hb hzero)
        rw [strlen, List.takeWhile_append_of_pos hall]
        simp [hmark]
        omega
      obtain ⟨count, hcount⟩ := Nat.exists_eq_add_of_le hstrlen
      have hmark' : quotationMark ≠ backslash := by decide
      rw [hcount, Nat.add_assoc, hlen, decodeEscapes_writeString hs, Nat.add_comm 1,
        decodeEscapes_plain hmark hmark'] at hlength
      simp at hlength
    · have hshort := decodeEscapes_short hs (quotationMark :: rest) (i32 len).toNat (by omega)
      omega
    · have hshort := decodeEscapes_short hs (quotationMark :: rest) 0 (by omega)
      omega
  · intro hshort
    rw [i32_of_range (by omega) (by omega), saveString, if_pos rfl, if_neg (by omega),
      if_pos (by omega), Int.toNat_natCast]
    simpa using decodeEscapes_writeString hs (quotationMark :: rest) 0

/-- A string is read back from its literal exactly when it does not end with a
backslash, its literal does not look like the start of a longer quotation, and
the length of what is written for it fits an `int`. -/
theorem stringLiteral_readsBack_iff {s : Bytes} (hs : 0 ∉ s) (rest : Bytes) (line : ℕ) :
    ReadsBack s rest line ↔
      s.getLast? ≠ some backslash ∧ ¬LooksTripled s rest ∧ (writeString s).length < 2 ^ 31 := by
  by_cases htripled : LooksTripled s rest
  · simp [htripled, not_readsBack_of_tripled line htripled]
  have hsearch := findClosing_writeString hs quotationMark (quotationMark :: rest)
  have hlast : (writeString s).getLastD quotationMark = backslash ↔ s.getLast? = some backslash :=
    lastWritten_backslash s
  by_cases hslash : s.getLast? = some backslash
  · -- the mark is passed over, so the tokenizer stops behind the start of `rest`
    have hmark : quotationMark ≠ 0 := by decide
    rw [hlast.mpr hslash, findClosing_pass rest hmark (fun _ => ⟨rfl, rfl⟩)] at hsearch
    simp only [hslash, ne_eq, not_true_eq_false, false_and, iff_false]
    intro hread
    rw [ReadsBack, getString_literal line htripled] at hread
    cases hfound : findClosing [quotationMark] true quotationMark rest with
    | none => simp [hsearch, hfound] at hread
    | some found =>
      have hlt := findClosing_lt hfound
      simp only [hsearch, hfound, Option.map_some] at hread
      simp only [Except.ok.injEq, Prod.mk.injEq, Tokenizer.mk.injEq] at hread
      have hlength := congrArg List.length hread.2.1
      simp at hlength
      omega
  · have hfound : findClosing [quotationMark] true quotationMark
        (writeString s ++ quotationMark :: rest) = some (writeString s).length := by
      rw [hsearch, findClosing_mark rest (mt hlast.mp hslash), Option.map_some, Nat.zero_add]
    have hnewline := List.count_eq_zero.mpr (notMem_writeString hs).1
    rw [ReadsBack, getString_literal line htripled]
    simp [hfound, hnewline, saveString_writeString_iff hs, hslash, htripled]

/-- A string with escapes of both kinds and a closing mark inside reads back. -/
theorem stringLiteral_readsBack_mixed : ReadsBack [0x61, 0x5C, 0x22, 0x0A] [0x29] 1 :=
  (stringLiteral_readsBack_iff (by decide) [0x29] 1).mpr (by decide)

/-- The string of one backslash does not: its closing mark is passed over. -/
theorem stringLiteral_lost_backslash : ¬ReadsBack [backslash] [0x29] 1 := by
  decide

end AviSynth
