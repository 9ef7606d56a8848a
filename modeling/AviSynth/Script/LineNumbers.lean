import AviSynth.Library.Runs
import AviSynth.Script.CommentBalance
import AviSynth.Script.NextToken

/-!
# Line numbers of tokens

A line break is a line feed, a carriage return, or one of each next to each other, read from
left to right. The tokenizer keeps one more than the breaks before its place, as long as the
comments and strings that it passes have a line feed in each of their breaks.
-/

namespace AviSynth

open MachineInt

/-- The breaks so far, and the byte of the last one if a byte of the other kind would still
belong to it; zero if not. -/
structure BreakCount where
  breaks : ℕ
  last : UInt8

def BreakCount.next (c : BreakCount) (b : UInt8) : BreakCount :=
  if !isBreak b then { c with last := 0 }
  else if c.last != 0 && c.last != b then { c with last := 0 }
  else { breaks := c.breaks + 1, last := b }

/-- The count behind a text. -/
def BreakCount.through (c : BreakCount) (text : Bytes) : BreakCount := text.foldl BreakCount.next c

/-- The line breaks of a text. -/
def lineBreaks (text : Bytes) : ℕ := (BreakCount.through ⟨0, 0⟩ text).breaks

/-- Some line break of the text is a carriage return alone. -/
def hasLoneReturn : Bytes → Bool
  | 0x0A :: 0x0D :: rest => hasLoneReturn rest
  | 0x0D :: 0x0A :: rest => hasLoneReturn rest
  | b :: rest => b == carriageReturn || hasLoneReturn rest
  | [] => false

namespace BreakCount

variable {c : BreakCount} {text rest : Bytes} {b : UInt8}

@[simp] theorem through_nil (c : BreakCount) : c.through [] = c := rfl

@[simp] theorem through_cons (c : BreakCount) (b : UInt8) (rest : Bytes) :
    c.through (b :: rest) = (c.next b).through rest := rfl

/-- One text after another. -/
@[simp] theorem through_append (c : BreakCount) (text rest : Bytes) :
    c.through (text ++ rest) = (c.through text).through rest := List.foldl_append ..

/-- A byte within a line. -/
theorem next_of_not_isBreak (c : BreakCount) (hb : isBreak b = false) :
    c.next b = ⟨c.breaks, 0⟩ := by
  simp [next, hb]

theorem next_new (n : ℕ) (hb : isBreak b = true) : next ⟨n, 0⟩ b = ⟨n + 1, b⟩ := by
  simp [next, hb]

/-- No byte of the rest belongs to a break before it. -/
def Fresh (c : BreakCount) (rest : Bytes) : Prop :=
  ∀ b ∈ rest.head?, isBreak b = true → c.last = 0 ∨ c.last = b

/-- The rest is then counted on its own. -/
theorem Fresh.next (h : c.Fresh (b :: rest)) : c.next b = next ⟨c.breaks, 0⟩ b := by
  by_cases hb : isBreak b = true
  · rcases h b rfl hb with hlast | hlast <;> simp [BreakCount.next, hlast]
  · simp [BreakCount.next, hb]

/-- Between lines the count starts afresh. -/
theorem Fresh.through (h : c.Fresh rest) :
    (c.through rest).breaks = (through ⟨c.breaks, 0⟩ rest).breaks := by
  cases rest with
  | nil => rfl
  | cons b rest => rw [through_cons, through_cons, h.next]

/-- Where every break has a line feed, the line feeds count the breaks. -/
theorem through_of_not_hasLoneReturn (h : hasLoneReturn text = false) (n : ℕ) :
    (through ⟨n, 0⟩ text).breaks = n + text.count newline := by
  induction text using hasLoneReturn.induct generalizing n with
  | case1 rest ih =>
    have hcount : (0x0A :: 0x0D :: rest).count newline = rest.count newline + 1 := by
      simp [newline]
    have hthrough : through ⟨n, 0⟩ (0x0A :: 0x0D :: rest) = through ⟨n + 1, 0⟩ rest := rfl
    rw [hcount, hthrough, ih h]
    omega
  | case2 rest ih =>
    have hcount : (0x0D :: 0x0A :: rest).count newline = rest.count newline + 1 := by
      simp [newline]
    have hthrough : through ⟨n, 0⟩ (0x0D :: 0x0A :: rest) = through ⟨n + 1, 0⟩ rest := rfl
    rw [hcount, hthrough, ih h]
    omega
  | case3 b rest hfeed hreturn ih =>
    rw [hasLoneReturn.eq_3 _ _ hfeed hreturn, Bool.or_eq_false_iff] at h
    obtain ⟨hb, hrest⟩ := h
    by_cases hnewline : b = newline
    · subst hnewline
      have hfresh : Fresh ⟨n + 1, newline⟩ rest := by
        intro d hd hbreak
        right
        simp only [isBreak, Bool.or_eq_true, beq_iff_eq] at hbreak
        obtain ⟨rest', rfl⟩ : ∃ rest', rest = d :: rest' := by
          cases rest with
          | nil => simp at hd
          | cons e rest' => exact ⟨rest', by simpa using hd⟩
        rcases hbreak with rfl | rfl
        · rfl
        · exact (hfeed rest' rfl rfl).elim
      rw [through_cons, next_new n rfl, hfresh.through, ih hrest, List.count_cons_self]
      change n + 1 + rest.count newline = _
      omega
    · have hbreak : isBreak b = false := by simp [isBreak, hnewline, hb]
      rw [through_cons, next_of_not_isBreak _ hbreak, ih hrest, List.count_cons_of_ne hnewline]
  | case4 => rfl

/-- A text between two bytes of a line is counted on its own. -/
theorem through_enclosed {a b : UInt8} (ha : isBreak a = false) (hb : isBreak b = false)
    (h : hasLoneReturn (a :: text ++ [b]) = false) :
    c.through (a :: text ++ [b]) = ⟨c.breaks + (a :: text ++ [b]).count newline, 0⟩ := by
  have hstart : c.through (a :: text ++ [b]) = through ⟨c.breaks, 0⟩ (a :: text ++ [b]) := by
    rw [List.cons_append, through_cons, through_cons, next_of_not_isBreak c ha,
      next_of_not_isBreak _ ha]
  have hcount := through_of_not_hasLoneReturn h c.breaks
  rw [hstart]
  rw [through_append, through_cons, through_nil, next_of_not_isBreak _ hb] at hcount ⊢
  rw [← hcount]

end BreakCount

/-- What lies before a place of the text. -/
def before (text pc : Bytes) : Bytes := text.take (text.length - pc.length)

/-- The tokenizer is at a place of the text, has counted the breaks before it, and is not inside
of a break. -/
structure Counts (text : Bytes) (t : Tokenizer) : Prop where
  suffix : t.pc <:+ text
  line : t.line = 1 + lineBreaks (before text t.pc)
  fresh : (BreakCount.through ⟨0, 0⟩ (before text t.pc)).Fresh t.pc

theorem before_append (head pc : Bytes) : before (head ++ pc) pc = head := by
  simp [before]

section Counts

variable {text : Bytes} {t t' : Tokenizer}

/-- The text before a place. -/
theorem counts_iff {head pc : Bytes} {line : ℕ} :
    Counts (head ++ pc) ⟨pc, line⟩ ↔ line = 1 + lineBreaks head ∧
      (BreakCount.through ⟨0, 0⟩ head).Fresh pc := by
  constructor
  · intro h
    have hline := h.line
    have hfresh := h.fresh
    rw [before_append] at hline hfresh
    exact ⟨hline, hfresh⟩
  · rintro ⟨hline, hfresh⟩
    refine ⟨List.suffix_append .., ?_, ?_⟩
    · rwa [before_append]
    · rwa [before_append]

theorem Counts.start (text : Bytes) : Counts text ⟨text, 1⟩ :=
  show Counts ([] ++ text) ⟨text, 1⟩ from counts_iff.mpr ⟨rfl, fun _ _ _ => Or.inl rfl⟩

/-- A step over a part of the text keeps the count. -/
theorem counts_step {head rest : Bytes} {line line' : ℕ} (part : Bytes) (last : UInt8)
    (h : Counts (head ++ (part ++ rest)) ⟨part ++ rest, line⟩)
    (hthrough : (BreakCount.through ⟨0, 0⟩ head).Fresh (part ++ rest) →
      (BreakCount.through ⟨0, 0⟩ head).through part = ⟨lineBreaks head + (line' - line), last⟩)
    (hle : line ≤ line') (hfresh : BreakCount.Fresh ⟨lineBreaks head + (line' - line), last⟩ rest) :
    Counts (head ++ (part ++ rest)) ⟨rest, line'⟩ := by
  obtain ⟨hline, hbefore⟩ := counts_iff.mp h
  rw [← List.append_assoc]
  have hcount : BreakCount.through ⟨0, 0⟩ (head ++ part) =
      ⟨lineBreaks head + (line' - line), last⟩ := by
    rw [BreakCount.through_append, hthrough hbefore]
  refine counts_iff.mpr ⟨?_, ?_⟩
  · rw [lineBreaks, hcount]
    dsimp only
    omega
  · rwa [hcount]

/-- A byte within a line is passed. -/
theorem Counts.byte {b : UInt8} {rest : Bytes} {line : ℕ} (h : Counts text ⟨b :: rest, line⟩)
    (hb : isBreak b = false) : Counts text ⟨rest, line⟩ := by
  obtain ⟨head, rfl⟩ := h.suffix
  refine counts_step [b] 0 h (fun _ => ?_) le_rfl fun _ _ _ => Or.inl rfl
  rw [BreakCount.through_cons, BreakCount.through_nil, BreakCount.next_of_not_isBreak _ hb,
    Nat.sub_self]
  rfl

theorem Counts.enclosed {a b : UInt8} {c rest : Bytes} {line : ℕ}
    (h : Counts text ⟨a :: c ++ b :: rest, line⟩) (ha : isBreak a = false)
    (hb : isBreak b = false) (hlone : hasLoneReturn (a :: c ++ [b]) = false) :
    Counts text ⟨rest, line + (a :: c ++ [b]).count newline⟩ := by
  obtain ⟨head, rfl⟩ := h.suffix
  have hsplit : a :: c ++ b :: rest = (a :: c ++ [b]) ++ rest := by simp
  rw [hsplit] at h ⊢
  refine counts_step _ 0 h (fun _ => ?_) (by omega) fun _ _ _ => Or.inl rfl
  rw [BreakCount.through_enclosed ha hb hlone, Nat.add_sub_cancel_left]
  rfl

/-- A line is ended. -/
theorem Counts.skipNewline (h : Counts text t) : Counts text t.skipNewline := by
  obtain ⟨pc, line⟩ := t
  obtain ⟨head, rfl⟩ := h.suffix
  unfold Tokenizer.skipNewline
  cases pc with
  | nil => exact h
  | cons b rest =>
    by_cases hb : isBreak b = true
    · have hzero : b ≠ 0 := by
        rintro rfl
        cases hb
      have hfirst (hfresh : (BreakCount.through ⟨0, 0⟩ head).Fresh (b :: rest)) :
          (BreakCount.through ⟨0, 0⟩ head).next b = ⟨lineBreaks head + 1, b⟩ := by
        rw [hfresh.next, BreakCount.next_new _ hb]
        rfl
      dsimp only
      rw [if_pos hb]
      split_ifs with hpair
      · cases rest with
        | nil => cases hpair
        | cons d rest =>
          simp only [List.head?_cons, Option.any_some, Bool.and_eq_true, bne_iff_ne, ne_eq] at hpair
          refine counts_step [b, d] 0 h (fun hfresh => ?_) (by omega)
            fun _ _ _ => Or.inl rfl
          have hsecond : BreakCount.next ⟨lineBreaks head + 1, b⟩ d = ⟨lineBreaks head + 1, 0⟩ := by
            simp [BreakCount.next, hpair.1, hzero, Ne.symm hpair.2]
          rw [BreakCount.through_cons, BreakCount.through_cons, BreakCount.through_nil,
            hfirst hfresh, hsecond, Nat.add_sub_cancel_left]
      · refine counts_step [b] b h (fun hfresh => ?_) (by omega) ?_
        · rw [BreakCount.through_cons, BreakCount.through_nil, hfirst hfresh,
            Nat.add_sub_cancel_left]
        · intro d hd hbreak
          right
          by_contra hne
          obtain hd : rest.head? = some d := hd
          rw [hd, Option.any_some, hbreak, Bool.true_and] at hpair
          simp [Ne.symm hne] at hpair
    · rw [Bool.not_eq_true] at hb
      simpa [hb] using h

/-- A step forward keeps the count, unless it is over a carriage return alone in a comment or
string. -/
theorem Counts.advance (h : Counts text t)
    (hstep : Tokenizer.Advance (fun c => hasLoneReturn c = false) t t') : Counts text t' := by
  cases hstep with
  | byte hb => exact h.byte hb
  | newline hb => exact h.skipNewline
  | enclosed ha hb hlone => exact h.enclosed ha hb hlone

/-- Blanks, breaks and comments without a lone return are passed. -/
theorem Counts.reaches (h : Counts text t)
    (hsteps : Tokenizer.Reaches (fun c => hasLoneReturn c = false) t t') : Counts text t' := by
  induction hsteps with
  | refl => exact h
  | tail _ hstep ih => exact ih.advance hstep

end Counts

namespace TokenReader

open Tokenizer Transition

variable {D : Type}

/-- The text of the current token. -/
def tokenText (r : TokenReader D) : Bytes := r.tokenStart.take (r.tokenStart.length - r.pc.length)

/-- The current token is a string. -/
def isString (r : TokenReader D) : Bool :=
  match r.token with
  | .string _ => true
  | _ => false

/-- Neither the comments that the next call passes nor the string that is the current token have
a carriage return alone in them. -/
def KeepsLines (r : TokenReader D) : Prop :=
  (∀ c ∈ r.resume.passedComments, hasLoneReturn c = false) ∧
    (r.isString = true → hasLoneReturn r.tokenText = false)
  deriving Decidable

/-- A call of `NextToken`, with the token that it reads. -/
def step (ops : DoubleArithmetic D) (r : TokenReader D) (_ : Unit) :
    Option (TokenReader D × ScriptToken D) :=
  (r.nextToken ops).toOption.map fun r' => (r', r'.token)

/-- The line of the token, where a string counts its own line feeds, and the count that the next
call begins with. -/
structure Located (text : Bytes) (r : TokenReader D) : Prop where
  line : r.line = 1 + lineBreaks (before text r.tokenStart) +
    if r.isString then r.tokenText.count newline else 0
  resumes : (r.isString = true → hasLoneReturn r.tokenText = false) → Counts text r.resume

/-- The start of the text. -/
theorem located_start (text : Bytes) : Located text (start text : TokenReader D) := by
  refine ⟨?_, fun _ => Counts.start text⟩
  simp [start, before, lineBreaks, isString]

/-- A token read at a counted place is located. -/
theorem Located.read {text : Bytes} {t behind : Tokenizer} {token : ScriptToken D}
    (h : Counts text t) (hread : Passes t token behind) :
    Located text ({ behind with tokenStart := t.pc, token } : TokenReader D) := by
  have hline := h.line
  cases token with
  | newline =>
    obtain ⟨hbreak, rfl⟩ := hread
    have hskip := h.skipNewline
    have hnext : t.skipNewline.line = t.line + 1 := by
      obtain ⟨pc, line⟩ := t
      cases pc with
      | nil => cases hbreak
      | cons b rest =>
        have hb : isBreak b = true := hbreak
        simp [skipNewline, hb]
    have hback : t.skipNewline.line - 1 + 1 = t.skipNewline.line := by omega
    refine ⟨?_, fun _ => ?_⟩
    · change t.skipNewline.line - 1 = 1 + lineBreaks (before text t.pc) + 0
      omega
    · change Counts text ⟨t.skipNewline.pc, t.skipNewline.line - 1 + 1⟩
      rwa [hback]
  | string s =>
    obtain ⟨a, c, b, rest, hpc, ha, hb, rfl⟩ := hread
    obtain ⟨pc, line⟩ := t
    obtain rfl : pc = a :: c ++ b :: rest := hpc
    have htext : tokenText ({
        pc := rest
        line := line + (a :: c ++ [b]).count newline
        tokenStart := a :: c ++ b :: rest
        token := .string s } : TokenReader D) = a :: c ++ [b] := by
      have hsplit : a :: c ++ b :: rest = (a :: c ++ [b]) ++ rest := by simp
      change before (a :: c ++ b :: rest) rest = _
      rw [hsplit, before_append]
    refine ⟨?_, fun hlone => ?_⟩
    · rw [htext]
      change line + _ = 1 + lineBreaks (before text (a :: c ++ b :: rest)) + _
      have hline : line = 1 + lineBreaks (before text (a :: c ++ b :: rest)) := hline
      rw [hline]
      rfl
    · exact h.enclosed ha hb (htext ▸ hlone rfl)
  | _ =>
    obtain ⟨hpart, hsame⟩ := hread
    obtain ⟨pc, line⟩ := behind
    obtain rfl : line = t.line := hsame
    exact ⟨hline, fun _ => h.reaches (hpart.reaches t.line)⟩

/-- A call of `NextToken` reads a token at a counted place. -/
theorem Located.nextToken {text : Bytes} {ops : DoubleArithmetic D} {r r' : TokenReader D}
    (h : Located text r) (hkeeps : r.KeepsLines) (hnext : r.nextToken ops = .ok r') :
    Located text r' := by
  unfold TokenReader.nextToken at hnext
  cases hskip : r.resume.skip with
  | error msg =>
    rw [hskip] at hnext
    cases hnext
  | ok t =>
    rw [hskip] at hnext
    cases hread : readToken ops t with
    | error msg =>
      simp [hread, bind, Except.bind] at hnext
    | ok result =>
      obtain ⟨token, behind⟩ := result
      simp only [bind, Except.bind, hread] at hnext
      cases hnext
      exact Located.read ((h.resumes hkeeps.2).reaches (skip_reaches hskip hkeeps.1))
        (readToken_passes hread)

/-- Along a run whose calls all keep the lines, the tokens are located. -/
theorem located_run {ops : DoubleArithmetic D} {text : Bytes} {history : List (ScriptToken D)}
    {r : TokenReader D}
    (hrun : Run (step ops) (fun r _ => r.KeepsLines) (start text) history r) : Located text r := by
  refine hrun.invariant (fun _ r => Located text r) (located_start text) ?_
  intro history r r' _ token hlocated hkeeps hstep
  obtain ⟨next, hnext, heq⟩ := Option.map_eq_some_iff.mp hstep
  obtain ⟨rfl, -⟩ := Prod.mk.inj heq
  cases hread : r.nextToken ops with
  | error msg =>
    rw [hread] at hnext
    cases hnext
  | ok _ =>
    rw [hread] at hnext
    cases hnext
    exact hlocated.nextToken hkeeps hread

/-- A nestable comment is skipped as its marks balance exactly if each `[*]` lies behind it or
none of its closing marks overtakes. Along a run whose calls keep the lines, the line of a token
is one more than the breaks before it, unless it is a string with line feeds of its own or the
number does not fit. -/
theorem tokenizer_locates (ops : DoubleArithmetic D) (text : Bytes) :
    (∀ s, SkipsBalanced (openingMark ++ s) ↔ OverlapsBehind s ∨ NeverOvertaken s) ∧
      ∀ history r, Run (step ops) (fun r _ => r.KeepsLines) (start text) history r →
        (r.isString = true → newline ∉ r.tokenText) →
        1 + lineBreaks (before text r.tokenStart) < 2 ^ 31 →
        r.getLine = 1 + lineBreaks (before text r.tokenStart) := by
  refine ⟨skipsBalanced_iff, fun history r hrun hstring hsmall => ?_⟩
  have hline := (located_run hrun).line
  have hfeeds : (if r.isString = true then r.tokenText.count newline else 0) = 0 := by
    split_ifs with h
    · exact List.count_eq_zero.mpr (hstring h)
    · rfl
  rw [hfeeds, Nat.add_zero] at hline
  rw [getLine, hline, i32_of_range (by omega) (by exact_mod_cast hsmall)]
  push_cast
  rfl

/-- Rational numbers in the place of `double`. -/
def rationals : DoubleArithmetic ℚ where
  zero := 0
  one := 1
  addDigit x digit := x * 10 + digit
  tenfold x := x * 10
  div x y := x / y
  tooBig x := decide ((2 ^ 1024 - 2 ^ 971 : ℚ) ≤ x)

/-- A comment and a string of two lines each, and an escaped newline: `x` is in line 4. -/
def fourLines : Bytes :=
  [0x2F, 0x2A, 0x0D, 0x0A, 0x2A, 0x2F, 0x22, 0x61, 0x0A, 0x62, 0x22, 0x20, 0x5C, 0x0D, 0x0A, 0x78]

theorem tokenizer_locates_fourLines : ∃ history r,
    Run (step rationals) (fun r _ => r.KeepsLines) (start fourLines) history r ∧
      r.getLine = 4 := by
  obtain ⟨history, r, hrun, hcheck⟩ := exists_run (step rationals) (fun r _ => r.KeepsLines)
    (start fourLines) [(), ()]
    (fun _ r => decide ((r.isString = true → newline ∉ r.tokenText) ∧
      1 + lineBreaks (before fourLines r.tokenStart) = 4)) (by decide +kernel)
  obtain ⟨hstring, hbreaks⟩ := of_decide_eq_true hcheck
  refine ⟨history, r, hrun, ?_⟩
  rw [(tokenizer_locates rationals fourLines).2 history r hrun hstring (by omega)]
  exact_mod_cast hbreaks

/-- A comment with a carriage return alone in it, and `x` behind it. -/
def loneReturn : Bytes := [0x2F, 0x2A, 0x0D, 0x2A, 0x2F, 0x78]

/-- A string with a line feed in it. -/
def twoLines : Bytes := [0x22, 0x0A, 0x22]

/-- A comment that closes at `[*]`, a break in a comment that is not counted, and a string that is
reported in the line of its end. -/
theorem tokenizer_misplaces :
    ¬SkipsBalanced (openingMark ++ [0x20, openBracket, asterisk, closeBracket, 0x20, asterisk,
        closeBracket]) ∧
      ((start loneReturn).nextToken rationals).toOption.map
        (fun r => (r.getLine, lineBreaks (before loneReturn r.tokenStart))) = some (1, 1) ∧
      ((start twoLines).nextToken rationals).toOption.map
        (fun r => (r.getLine, lineBreaks (before twoLines r.tokenStart))) = some (2, 0) := by
  refine ⟨fun h => ?_, by decide +kernel, by decide +kernel⟩
  have hleast := (h.1 6).mp (by decide +kernel)
  exact absurd hleast.1.2.2 (by decide +kernel)

end TokenReader

end AviSynth
