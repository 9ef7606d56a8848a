import AviSynth.Script.NestedComments

/-!
# The tokens of a script

`NextToken` skips white space, comments and escaped newlines, and reads one token. Each part
of a script that it passes advances the line number in its own way: newlines one by one,
comments and strings by the line feeds in them.
-/

namespace AviSynth

open MachineInt

/-- A carriage return. -/
def carriageReturn : UInt8 := 0x0D

/-- The byte ends a line. -/
def isBreak (b : UInt8) : Bool := b == newline || b == carriageReturn

def isDigit (b : UInt8) : Bool := 0x30 ≤ b && b ≤ 0x39

def isAlpha (b : UInt8) : Bool := (0x41 ≤ b && b ≤ 0x5A) || (0x61 ≤ b && b ≤ 0x7A)

def isAlnum (b : UInt8) : Bool := isAlpha b || isDigit b

def isNameByte (b : UInt8) : Bool := b == 0x5F || isAlnum b

def toLower (b : UInt8) : UInt8 := if 0x41 ≤ b && b ≤ 0x5A then b + 0x20 else b

/-- `type` with the member that it selects; `D` stands for `double`. -/
inductive ScriptToken (D : Type) where
  | eof
  | newline
  | operator (op : ℕ)
  | integer (value : ℤ)
  | longlong (value : ℤ)
  | doublePt (value : D)
  | string (text : Bytes)
  | identifier (name : Bytes)
  deriving DecidableEq

/-- The operations on `double` that the tokenizer uses. -/
structure DoubleArithmetic (D : Type) where
  zero : D
  one : D
  /-- `x * 10 + digit`. -/
  addDigit : D → ℤ → D
  tenfold : D → D
  div : D → D → D
  /-- At least `DBL_MAX`. -/
  tooBig : D → Bool

section Numbers

variable {D : Type} (ops : DoubleArithmetic D)

/-- What `GetNumber` has gathered. -/
structure Number (D : Type) where
  isFloat : Bool
  longlong : ℤ
  dtemp : D
  place : D

/-- A digit before the point. The number becomes a float before it leaves the 64-bit range. -/
def Number.addDigit (n : Number D) (b : UInt8) : Number D :=
  let digit : ℤ := b.toNat - 0x30
  let dtemp := ops.addDigit n.dtemp digit
  if n.isFloat then { n with dtemp }
  else if 922337203685477580 < n.longlong ∨ (n.longlong = 922337203685477580 ∧ 7 < digit) then
    { n with dtemp, isFloat := true }
  else { n with dtemp, longlong := n.longlong * 10 + digit }

/-- The loop over the digits after a point. -/
def gatherFraction : Bytes → Number D → Number D × Bytes
  | [], n => (n, [])
  | b :: rest, n =>
    if isDigit b then
      gatherFraction rest
        { n with place := ops.tenfold n.place, dtemp := ops.addDigit n.dtemp (b.toNat - 0x30) }
    else (n, b :: rest)

/-- The loop over a number, up to its point. -/
def gatherNumber : Bytes → Number D → Number D × Bytes
  | [], n => (n, [])
  | b :: rest, n =>
    if b = 0x2E then gatherFraction ops rest { n with isFloat := true }
    else if isDigit b then gatherNumber rest (n.addDigit ops b)
    else (n, b :: rest)

/-- `GetNumber`: the token, and the bytes behind it. -/
def getNumber (pc : Bytes) : Except String (ScriptToken D × Bytes) :=
  let (n, rest) := gatherNumber ops pc ⟨false, 0, ops.zero, ops.one⟩
  let value := ops.div n.dtemp n.place
  if ops.tooBig value then throw "Tokenizer: Number is to big."
  else if n.isFloat then return (.doublePt value, rest)
  else if n.longlong ≤ 2147483647 then return (.integer n.longlong, rest)
  else return (.longlong n.longlong, rest)

/-- The value of a hexadecimal digit. -/
def hexDigit (b : UInt8) : Option ℤ :=
  if 0x30 ≤ b ∧ b ≤ 0x39 then some (b.toNat - 0x30)
  else if 0x61 ≤ b ∧ b ≤ 0x66 then some (b.toNat - 0x61 + 10)
  else if 0x41 ≤ b ∧ b ≤ 0x46 then some (b.toNat - 0x41 + 10)
  else none

/-- The digits behind a dollar sign: the value, whether an `L` ends them, and the bytes
behind them. -/
def gatherHex : Bytes → ℤ → Except String (ℤ × Bool × Bytes)
  | [], _ => throw "$ must be followed by a hexadecimal number"
  | b :: rest, value =>
    match hexDigit b with
    | some digit =>
      let value := i64 (value * 16 + digit)
      if rest.head?.any isAlnum then gatherHex rest value
      else return (value, false, rest)
    | none =>
      if b = 0x4C ∨ b = 0x6C then return (value, true, rest)
      else throw "$ must be followed by a hexadecimal number"

end Numbers

/-- The operators: those with a version that another character ends, and the lone ones. -/
def readOperator : Bytes → Option (ℕ × Bytes)
  | [] => none
  | b :: rest =>
    let next := rest.headD 0
    let single := some (b.toNat, rest)
    let double := some (b.toNat * 256 + next.toNat, rest.tail)
    -- `<`, then `>`, `!` and `=`, then `+`, `&` and `|`
    if b = 0x3C then if next = 0x3D ∨ next = 0x3E then double else single
    else if b ∈ [0x3E, 0x21, 0x3D] then if next ≠ 0x3D then single else double
    else if b ∈ [0x2B, 0x26, 0x7C] then if next ≠ b then single else double
    -- the braces, parentheses and brackets, and `,`, `?`, `:`, `-`, `*`, `/`, `%`
    else if b ∈ [0x7B, 0x7D, 0x28, 0x29, openBracket, closeBracket, 0x2C, 0x3F, 0x3A, 0x2D,
        asterisk, 0x2F, 0x25] then single
    else none

namespace Tokenizer

def atBreak (t : Tokenizer) : Bool := t.pc.head?.any isBreak

/-- `SkipWhitespace`. -/
def skipWhitespace (t : Tokenizer) : Tokenizer :=
  { t with pc := t.pc.dropWhile fun b => b == 0x20 || b == 0x09 }

/-- `SkipNewline`: a line feed and a carriage return next to each other are one newline. -/
def skipNewline (t : Tokenizer) : Tokenizer :=
  match t.pc with
  | [] => t
  | b :: rest =>
    if isBreak b then
      { pc := if rest.head?.any fun c => isBreak c && c != b then rest.tail else rest,
        line := t.line + 1 }
    else t

/-- One step forward: over a byte of a line, over a newline, or over a comment or string, whose
text satisfies `P`. -/
inductive Advance (P : Bytes → Prop) : Tokenizer → Tokenizer → Prop
  | byte {b : UInt8} {rest : Bytes} {line : ℕ} (hb : isBreak b = false) :
      Advance P ⟨b :: rest, line⟩ ⟨rest, line⟩
  | newline {b : UInt8} {rest : Bytes} {line : ℕ} (hb : isBreak b = true) :
      Advance P ⟨b :: rest, line⟩ (skipNewline ⟨b :: rest, line⟩)
  | enclosed {a b : UInt8} {c rest : Bytes} {line : ℕ} (ha : isBreak a = false)
      (hb : isBreak b = false) (hP : P (a :: c ++ [b])) :
      Advance P ⟨a :: c ++ b :: rest, line⟩ ⟨rest, line + (a :: c ++ [b]).count AviSynth.newline⟩

/-- Some steps forward, each over a text with the property if it is over a text at all. -/
abbrev Reaches (P : Bytes → Prop) : Tokenizer → Tokenizer → Prop :=
  Relation.ReflTransGen (Advance P)

section Advance

variable {P : Bytes → Prop} {t t' : Tokenizer}

theorem Advance.length_lt (h : Advance P t t') : t'.pc.length < t.pc.length := by
  cases h with
  | byte => simp
  | @newline b rest line hb =>
    simp only [skipNewline, hb, if_true]
    split
    · simp only [List.length_tail, List.length_cons]
      omega
    · simp
  | enclosed =>
    simp only [List.length_append, List.length_cons]
    omega

theorem Reaches.length_le (h : Reaches P t t') : t'.pc.length ≤ t.pc.length := by
  induction h with
  | refl => exact Nat.le_refl _
  | tail _ hstep ih => exact (hstep.length_lt.trans_le ih).le

/-- Bytes of a line are stepped over one by one. -/
theorem dropWhile_reaches {p : UInt8 → Bool} (hp : ∀ b, p b = true → isBreak b = false)
    (t : Tokenizer) : Reaches P t { t with pc := t.pc.dropWhile p } := by
  obtain ⟨pc, line⟩ := t
  induction pc with
  | nil => exact .refl
  | cons b rest ih =>
    by_cases hb : p b = true
    · have hstep : Advance P ⟨b :: rest, line⟩ ⟨rest, line⟩ := .byte (hp b hb)
      simpa [hb] using Relation.ReflTransGen.head hstep ih
    · simpa [hb] using Relation.ReflTransGen.refl

/-- Blanks are passed within a line. -/
theorem skipWhitespace_reaches (t : Tokenizer) : Reaches P t t.skipWhitespace := by
  refine dropWhile_reaches (fun b hb => ?_) t
  simp only [Bool.or_eq_true, beq_iff_eq] at hb
  rcases hb with rfl | rfl <;> rfl

theorem skipNewline_advances (h : t.atBreak = true) : Advance P t t.skipNewline := by
  obtain ⟨pc, line⟩ := t
  cases pc with
  | nil => simp [atBreak] at h
  | cons b rest => exact .newline (by simpa [atBreak] using h)

end Advance

/-- The newlines at the tokenizer, with the white space around them. -/
def skipNewlines (t : Tokenizer) : Tokenizer :=
  if t.atBreak then skipNewlines t.skipNewline.skipWhitespace else t
termination_by t.pc.length
decreasing_by
  rename_i h
  have hadvance : Advance (fun _ => True) t t.skipNewline := skipNewline_advances h
  exact (skipWhitespace_reaches (P := fun _ => True) _).length_le.trans_lt hadvance.length_lt

/-- A block comment: the number of bytes that it has. -/
def skipBlockComment (pc : Bytes) : Except String ℕ :=
  match strstr [asterisk, 0x2F] (pc.drop 2) with
  | none => throw "Parse error: block comment missing closing */"
  | some e => return e + 4

/-- The tokenizer behind a comment of `n` bytes, with the marks at both ends. -/
def passComment (t : Tokenizer) (n : ℕ) : Tokenizer :=
  { pc := t.pc.drop n, line := t.line + ((t.pc.take (n - 2)).drop 2).count newline }

/-- The loop of `NextToken` goes on, or is at a token. -/
inductive Skipped where
  | goesOn (t : Tokenizer)
  | stops (t : Tokenizer)

/-- One round of the loop that skips white space, comments and escaped newlines. -/
def skipOnce (t : Tokenizer) : Except String Skipped := do
  let t := t.skipWhitespace
  if [backslash].isPrefixOf t.pc then
    -- a backslash followed by a newline
    let behind := { t with pc := t.pc.tail }.skipWhitespace
    if behind.atBreak then return .goesOn behind.skipNewline
    else throw "Script error: `\\' can only appear at the beginning or end of a line"
  else if t.atBreak then
    -- a newline is skipped if it is followed by a backslash or `{`
    let behind := t.skipNewlines
    if [backslash].isPrefixOf behind.pc then return .goesOn { behind with pc := behind.pc.tail }
    else if [0x7B].isPrefixOf behind.pc then return .stops behind
    else return .stops t
  else if [0x23].isPrefixOf t.pc then
    return .stops { t with pc := t.pc.dropWhile fun b => b != 0 && !isBreak b }
  else if [0x2F, asterisk].isPrefixOf t.pc then
    return .goesOn (t.passComment (← skipBlockComment t.pc))
  else if [asterisk, 0x2F].isPrefixOf t.pc then
    throw "Parse error: orphan block comment closing */"
  else if openingMark.isPrefixOf t.pc then
    return .goesOn (t.passComment (← skipNestableComment t.pc))
  else if closingMark.isPrefixOf t.pc then
    throw "Parse error: orphan nestable block comment closing *]"
  else return .stops t

/-- The text of the comment at a place, with its marks, if there is one. -/
def commentText (pc : Bytes) : Bytes :=
  let length :=
    if [0x2F, asterisk].isPrefixOf pc then skipBlockComment pc
    else if openingMark.isPrefixOf pc then skipNestableComment pc
    else return 0
  pc.take (length.toOption.getD 0)

section Skipping

variable {P : Bytes → Prop} {t t' : Tokenizer}

theorem skipNewlines_reaches (t : Tokenizer) : Reaches P t t.skipNewlines := by
  induction t using skipNewlines.induct with
  | case1 t h ih =>
    rw [skipNewlines, if_pos h]
    exact (Relation.ReflTransGen.head (skipNewline_advances h) (skipWhitespace_reaches _)).trans ih
  | case2 t h =>
    rw [skipNewlines, if_neg h]

/-- The comment that ends with a mark of two bytes. -/
theorem exists_enclosed {x y : UInt8} {s : Bytes} {e : ℕ}
    (h : Occurrences.OccursAt [x, y] (cString s) e) :
    ∃ c rest, s = c ++ x :: y :: rest ∧ c.length = e := by
  have hcut : cString s <+: s := List.takeWhile_prefix _
  have hlt := h.lt_length
  have hle := hcut.length_le
  obtain ⟨rest, hrest⟩ : [x, y] <+: s.drop e := h.trans (hcut.drop e)
  refine ⟨s.take e, rest, ?_, List.length_take_of_le (by omega)⟩
  calc s = s.take e ++ s.drop e := (List.take_append_drop e s).symm
    _ = s.take e ++ x :: y :: rest := by rw [← hrest]; rfl

/-- A comment is passed with its marks. -/
theorem passComment_advances {a b x y : UInt8} {c rest : Bytes}
    (hpc : t.pc = a :: b :: c ++ x :: y :: rest) (hmarks : ([a, b, x, y].any isBreak) = false)
    (hP : P (t.pc.take (c.length + 4))) : Advance P t (t.passComment (c.length + 4)) := by
  obtain ⟨pc, line⟩ := t
  obtain rfl : pc = _ := hpc
  simp only [List.any_cons, List.any_nil, Bool.or_false, Bool.or_eq_false_iff] at hmarks
  obtain ⟨ha, hb, hx, hy⟩ := hmarks
  have hne {d : UInt8} (hd : isBreak d = false) : (d == AviSynth.newline) = false := by
    simp only [isBreak, Bool.or_eq_false_iff] at hd
    exact hd.1
  have htake : (a :: b :: c ++ x :: y :: rest).take (c.length + 4) =
      a :: (b :: c ++ [x]) ++ [y] := by
    simp [List.take_append]
  have hpass : passComment ⟨a :: b :: c ++ x :: y :: rest, line⟩ (c.length + 4) =
      ⟨rest, line + (a :: (b :: c ++ [x]) ++ [y]).count AviSynth.newline⟩ := by
    simp [passComment, List.drop_append, List.count_cons, List.count_append,
      hne ha, hne hb, hne hx, hne hy]
  rw [htake] at hP
  rw [hpass]
  have hstep : Advance P ⟨a :: (b :: c ++ [x]) ++ y :: rest, line⟩
      ⟨rest, line + (a :: (b :: c ++ [x]) ++ [y]).count AviSynth.newline⟩ := .enclosed ha hy hP
  simpa using hstep

theorem blockComment_advances {n : ℕ} (hpc : [0x2F, asterisk].isPrefixOf t.pc = true)
    (hn : skipBlockComment t.pc = .ok n) (hP : P (commentText t.pc)) :
    Advance P t (t.passComment n) := by
  have htext : commentText t.pc = t.pc.take n := by
    simp [commentText, hpc, hn, Except.toOption]
  obtain ⟨s, hs⟩ := List.isPrefixOf_iff_prefix.mp hpc
  have hfirst : Occurrences.First (Occurrences.OccursAt [asterisk, 0x2F] (cString s))
      (findClosing [asterisk, 0x2F] false 0 s) := findClosing_first (by decide) (by decide) 0 s
  rw [← hs] at hn
  change (match strstr [asterisk, 0x2F] s with
    | none => throw "Parse error: block comment missing closing */"
    | some e => return e + 4) = Except.ok n at hn
  cases hend : strstr [asterisk, 0x2F] s with
  | none =>
    rw [hend] at hn
    cases hn
  | some e =>
    rw [hend] at hn
    cases hn
    rw [strstr] at hend
    rw [hend] at hfirst
    obtain ⟨c, rest, rfl, rfl⟩ := exists_enclosed hfirst.1
    exact passComment_advances hs.symm (by decide) (htext ▸ hP)

theorem nestableComment_advances {n : ℕ} (hpc : openingMark.isPrefixOf t.pc = true)
    (hn : skipNestableComment t.pc = .ok n) (hP : P (commentText t.pc)) :
    Advance P t (t.passComment n) := by
  obtain ⟨s, hs⟩ := List.isPrefixOf_iff_prefix.mp hpc
  have hblock : [0x2F, asterisk].isPrefixOf t.pc = false := by
    rw [← hs]
    rfl
  have htext : commentText t.pc = t.pc.take n := by
    simp [commentText, hblock, hpc, hn, Except.toOption]
  have hfirst := nestedEnd_first s
  rw [← hs] at hn
  change (match nestedEnd s with
    | none => throw "Parse error: nestable block comment missing closing *]"
    | some e => return e + 4) = Except.ok n at hn
  cases hend : nestedEnd s with
  | none =>
    rw [hend] at hn
    cases hn
  | some e =>
    rw [hend] at hn
    cases hn
    rw [hend] at hfirst
    obtain ⟨c, rest, rfl, rfl⟩ := exists_enclosed hfirst.1.1
    exact passComment_advances hs.symm (by decide) (htext ▸ hP)

/-- A byte that is not part of a newline. -/
theorem tail_advances {b : UInt8} (hpc : [b].isPrefixOf t.pc = true) (hb : isBreak b = false) :
    Advance P t { t with pc := t.pc.tail } := by
  obtain ⟨rest, hrest⟩ := List.isPrefixOf_iff_prefix.mp hpc
  obtain ⟨pc, line⟩ := t
  obtain rfl : b :: rest = pc := hrest
  exact .byte hb

/-- Where a round of the loop leads: at least one step forward if the loop goes on. -/
def Skipped.Follows (P : Bytes → Prop) (t : Tokenizer) : Skipped → Prop
  | goesOn t' => Relation.TransGen (Advance P) t t'
  | stops t' => Reaches P t t'

/-- A round of the loop steps forward, over the comment that begins there if there is one. -/
theorem skipOnce_follows {skipped : Skipped} (h : t.skipOnce = .ok skipped)
    (hP : P (commentText t.skipWhitespace.pc)) : skipped.Follows P t := by
  have hwhite : Reaches P t t.skipWhitespace := skipWhitespace_reaches t
  unfold skipOnce at h
  generalize t.skipWhitespace = s at *
  simp only at h
  split_ifs at h with hback hbehind hbreak hnext hbrace hhash hblock horphan hnest
  · cases h
    have hstep := tail_advances (P := P) hback (by decide)
    have hthen := (skipWhitespace_reaches (P := P) _).tail (skipNewline_advances hbehind)
    exact Relation.TransGen.trans_right hwhite (Relation.TransGen.head' hstep hthen)
  · cases h
    have hstep := tail_advances (P := P) hnext (by decide)
    exact Relation.TransGen.tail' (hwhite.trans (skipNewlines_reaches s)) hstep
  · cases h
    exact hwhite.trans (skipNewlines_reaches s)
  · cases h
    exact hwhite
  · cases h
    refine hwhite.trans (dropWhile_reaches (fun b hb => ?_) s)
    simp only [Bool.and_eq_true, Bool.not_eq_true'] at hb
    exact hb.2
  · cases hn : skipBlockComment s.pc with
    | error msg =>
      rw [hn] at h
      cases h
    | ok n =>
      rw [hn] at h
      cases h
      exact Relation.TransGen.tail' hwhite (blockComment_advances hblock hn hP)
  · cases hn : skipNestableComment s.pc with
    | error msg =>
      rw [hn] at h
      cases h
    | ok n =>
      rw [hn] at h
      cases h
      exact Relation.TransGen.tail' hwhite (nestableComment_advances hnest hn hP)
  · cases h
    exact hwhite

theorem skipOnce_length_lt (h : t.skipOnce = .ok (.goesOn t')) : t'.pc.length < t.pc.length := by
  have hfollows : Relation.TransGen (Advance fun _ => True) t t' := skipOnce_follows h trivial
  obtain ⟨s, hstep, hrest⟩ := Relation.TransGen.head'_iff.mp hfollows
  exact (Reaches.length_le hrest).trans_lt hstep.length_lt

end Skipping

/-- The loop that skips white space, comments and escaped newlines. -/
def skip (t : Tokenizer) : Except String Tokenizer :=
  match _ : t.skipOnce with
  | .error msg => .error msg
  | .ok (.stops t') => .ok t'
  | .ok (.goesOn t') => t'.skip
termination_by t.pc.length
decreasing_by exact skipOnce_length_lt ‹_›

/-- The comments that the loop passes. -/
def passedComments (t : Tokenizer) : List Bytes :=
  commentText t.skipWhitespace.pc ::
    match _ : t.skipOnce with
    | .error _ => []
    | .ok (.stops _) => []
    | .ok (.goesOn t') => t'.passedComments
termination_by t.pc.length
decreasing_by exact skipOnce_length_lt ‹_›

section Loop

variable {t t' : Tokenizer}

theorem skip_of_error {msg : String} (h : t.skipOnce = .error msg) : t.skip = .error msg := by
  rw [skip]
  split <;> simp_all

theorem skip_of_stops (h : t.skipOnce = .ok (.stops t')) : t.skip = .ok t' := by
  rw [skip]
  split <;> simp_all

theorem skip_of_goesOn (h : t.skipOnce = .ok (.goesOn t')) : t.skip = t'.skip := by
  rw [skip]
  split <;> simp_all

theorem passedComments_of_goesOn (h : t.skipOnce = .ok (.goesOn t')) :
    t.passedComments = commentText t.skipWhitespace.pc :: t'.passedComments := by
  rw [passedComments]
  split <;> simp_all

theorem commentText_mem_passedComments (t : Tokenizer) :
    commentText t.skipWhitespace.pc ∈ t.passedComments := by
  rw [passedComments]
  exact List.mem_cons_self

/-- The loop steps forward over the comments that it passes. -/
theorem skip_reaches {P : Bytes → Prop} (h : t.skip = .ok t') (hP : ∀ c ∈ t.passedComments, P c) :
    Reaches P t t' := by
  induction t using skip.induct with
  | case1 t msg herror =>
    rw [skip_of_error herror] at h
    cases h
  | case2 t t'' hstops =>
    rw [skip_of_stops hstops] at h
    cases h
    exact skipOnce_follows hstops (hP _ t.commentText_mem_passedComments)
  | case3 t t'' hgoesOn ih =>
    have hfirst : Relation.TransGen (Advance P) t t'' :=
      skipOnce_follows hgoesOn (hP _ t.commentText_mem_passedComments)
    rw [skip_of_goesOn hgoesOn] at h
    rw [passedComments_of_goesOn hgoesOn] at hP
    exact hfirst.to_reflTransGen.trans (ih h fun c hc => hP c (List.mem_cons_of_mem _ hc))

end Loop

end Tokenizer

/-- The tokenizer with its current token and the place where the token starts. -/
structure TokenReader (D : Type) extends Tokenizer where
  tokenStart : Bytes
  token : ScriptToken D

namespace TokenReader

variable {D : Type}

/-- `__END__`, in lower case. -/
def endOfScript : Bytes := [0x5F, 0x5F, 0x65, 0x6E, 0x64, 0x5F, 0x5F]

/-- The `switch` of `NextToken`: the token at a place, and the tokenizer behind it. -/
def readToken (ops : DoubleArithmetic D) (t : Tokenizer) :
    Except String (ScriptToken D × Tokenizer) := do
  let b := t.pc.headD 0
  let next := t.pc.tail.headD 0
  if b = 0 then return (.eof, t)
  else if t.atBreak then
    let behind := t.skipNewline
    return (.newline, { behind with line := behind.line - 1 })
  else if isDigit b ∨ (b = 0x2E ∧ isDigit next) then
    let (token, pc) ← getNumber ops t.pc
    return (token, { t with pc })
  else if b = 0x2E then return (.operator b.toNat, { t with pc := t.pc.tail })
  else if b = 0x24 then
    let (value, isLong, pc) ← gatherHex t.pc.tail 0
    return (if isLong then .longlong value else .integer (i32 value), { t with pc })
  else if b = quotationMark ∨ (b = letterE ∧ next = quotationMark) then
    let (text, behind) ← t.getString
    return (.string text, behind)
  else if b = 0x5F ∨ isAlpha b then
    let len := (t.pc.takeWhile isNameByte).length
    let name := saveString t.pc (i32 len) false
    return (if name.map toLower = endOfScript then .eof else .identifier name,
      { t with pc := t.pc.dropWhile isNameByte })
  else
    match readOperator t.pc with
    | some (op, pc) => return (.operator op, { t with pc })
    | none => throw ("unexpected character \"" ++ String.singleton (Char.ofNat b.toNat) ++ "\"")

/-- Where `NextToken` begins: the newline that was the token is counted now. -/
def resume (r : TokenReader D) : Tokenizer :=
  match r.token with
  | .newline => { pc := r.pc, line := r.line + 1 }
  | _ => r.toTokenizer

/-- `Tokenizer::NextToken`. -/
def nextToken (ops : DoubleArithmetic D) (r : TokenReader D) : Except String (TokenReader D) := do
  let t ← r.resume.skip
  let (token, behind) ← readToken ops t
  return { behind with tokenStart := t.pc, token }

/-- The constructor, before it reads the first token. -/
def start (text : Bytes) : TokenReader D :=
  { pc := text, line := 1, tokenStart := text, token := .eof }

/-- `GetLine`. -/
def getLine (r : TokenReader D) : ℤ := i32 r.line

section Reading

variable {P : Bytes → Prop} {t t' : Tokenizer} {pc rest : Bytes} {ops : DoubleArithmetic D}
  {token : ScriptToken D}

/-- The bytes of a line that a part of a token is made of. -/
def LinePart (pc rest : Bytes) : Prop := ∃ c, pc = c ++ rest ∧ ∀ b ∈ c, isBreak b = false

theorem LinePart.refl (pc : Bytes) : LinePart pc pc := ⟨[], rfl, nofun⟩

theorem LinePart.cons {b : UInt8} (hb : isBreak b = false)
    (h : LinePart pc rest) : LinePart (b :: pc) rest := by
  obtain ⟨c, rfl, hc⟩ := h
  exact ⟨b :: c, rfl, List.forall_mem_cons.mpr ⟨hb, hc⟩⟩

theorem LinePart.reaches (h : LinePart pc rest) (line : ℕ) :
    Tokenizer.Reaches P ⟨pc, line⟩ ⟨rest, line⟩ := by
  obtain ⟨c, rfl, hc⟩ := h
  induction c with
  | nil => exact .refl
  | cons b c ih =>
    obtain ⟨hb, hc⟩ := List.forall_mem_cons.mp hc
    exact .head (.byte hb) (ih hc)

theorem not_isBreak_of {p : UInt8 → Prop} {b : UInt8} (h : p b) (hfeed : ¬p newline)
    (hreturn : ¬p carriageReturn) : isBreak b = false := by
  by_contra hbreak
  simp only [isBreak, Bool.not_eq_false, Bool.or_eq_true, beq_iff_eq] at hbreak
  rcases hbreak with rfl | rfl
  · exact hfeed h
  · exact hreturn h

theorem not_isBreak_of_isDigit {b : UInt8} (h : isDigit b = true) : isBreak b = false :=
  not_isBreak_of (p := (isDigit · = true)) h (by decide) (by decide)

/-- What is no break is passed within a line. -/
theorem linePart_dropWhile {p : UInt8 → Bool} (hp : ∀ b, p b = true → isBreak b = false)
    (pc : Bytes) : LinePart pc (pc.dropWhile p) := by
  refine ⟨pc.takeWhile p, List.takeWhile_append_dropWhile.symm, fun b hb => hp b ?_⟩
  exact List.all_eq_true.mp List.all_takeWhile b hb

theorem linePart_gatherFraction (ops : DoubleArithmetic D) (pc : Bytes) (n : Number D) :
    LinePart pc (gatherFraction ops pc n).2 := by
  induction pc generalizing n with
  | nil => exact LinePart.refl []
  | cons b rest ih =>
    rw [gatherFraction]
    split_ifs with hb
    · exact (ih _).cons (not_isBreak_of_isDigit hb)
    · exact LinePart.refl _

theorem linePart_gatherNumber (ops : DoubleArithmetic D) (pc : Bytes) (n : Number D) :
    LinePart pc (gatherNumber ops pc n).2 := by
  induction pc generalizing n with
  | nil => exact LinePart.refl []
  | cons b rest ih =>
    rw [gatherNumber]
    split_ifs with hpoint hb
    · exact (linePart_gatherFraction ops rest _).cons (hpoint ▸ rfl)
    · exact (ih _).cons (not_isBreak_of_isDigit hb)
    · exact LinePart.refl _

theorem linePart_getNumber (h : getNumber ops pc = .ok (token, rest)) : LinePart pc rest := by
  have hpart := linePart_gatherNumber ops pc ⟨false, 0, ops.zero, ops.one⟩
  unfold getNumber at h
  simp only at h
  split_ifs at h <;> cases h <;> exact hpart

theorem linePart_gatherHex {value value' : ℤ} {isLong : Bool}
    (h : gatherHex pc value = .ok (value', isLong, rest)) : LinePart pc rest := by
  induction pc generalizing value with
  | nil => cases h
  | cons b pc ih =>
    rw [gatherHex] at h
    cases hdigit : hexDigit b with
    | some digit =>
      have hb : isBreak b = false :=
        not_isBreak_of (p := (hexDigit · = some digit)) hdigit nofun nofun
      rw [hdigit] at h
      dsimp only at h
      split_ifs at h
      · exact (ih h).cons hb
      · cases h
        exact (LinePart.refl _).cons hb
    | none =>
      rw [hdigit] at h
      dsimp only at h
      split_ifs at h with hl
      cases h
      refine (LinePart.refl _).cons ?_
      rcases hl with rfl | rfl <;> rfl

theorem linePart_tail {pc : Bytes} (h : isBreak (pc.headD 0) = false) : LinePart pc pc.tail := by
  cases pc with
  | nil => exact LinePart.refl []
  | cons b rest => exact (LinePart.refl rest).cons h

theorem linePart_readOperator {op : ℕ} (h : readOperator pc = some (op, rest)) :
    LinePart pc rest := by
  cases pc with
  | nil => cases h
  | cons b pc =>
    simp only [readOperator] at h
    have hbyte {marks : Bytes} (hb : b ∈ marks) (hfeed : newline ∉ marks)
        (hreturn : carriageReturn ∉ marks) : isBreak b = false :=
      not_isBreak_of (p := (· ∈ marks)) hb hfeed hreturn
    split_ifs at h with hless hnext hcompare hsingle hrepeat hsingle hlone
    · cases h
      refine (linePart_tail ?_).cons (hless ▸ rfl)
      rcases hnext with hnext | hnext <;> rw [hnext] <;> rfl
    · cases h
      exact (LinePart.refl _).cons (hless ▸ rfl)
    · cases h
      exact (LinePart.refl _).cons (hbyte hcompare (by decide) (by decide))
    · cases h
      rw [not_not] at hsingle
      exact (linePart_tail (hsingle ▸ rfl)).cons (hbyte hcompare (by decide) (by decide))
    · cases h
      exact (LinePart.refl _).cons (hbyte hrepeat (by decide) (by decide))
    · cases h
      rw [not_not] at hsingle
      have hb := hbyte hrepeat (by decide) (by decide)
      exact (linePart_tail (hsingle.symm ▸ hb)).cons hb
    · cases h
      exact (LinePart.refl _).cons (hbyte hlone (by decide) (by decide))

/-- The mark stands where it was found. -/
theorem findClosing_reads {marks s : Bytes} {escape : Bool} {previous : UInt8} {n : ℕ}
    (h : Tokenizer.findClosing marks escape previous s = some n) : marks <+: s.drop n := by
  induction s generalizing previous n with
  | nil => cases h
  | cons b rest ih =>
    rw [Tokenizer.findClosing] at h
    split_ifs at h with hzero hmarks
    · cases h
      simp only [Bool.and_eq_true] at hmarks
      exact List.isPrefixOf_iff_prefix.mp hmarks.1
    · obtain ⟨m, hm, rfl⟩ := Option.map_eq_some_iff.mp h
      exact ih hm

/-- A string lies between the quotation mark or the `e` at its start and a quotation mark. -/
def Encloses (t t' : Tokenizer) : Prop :=
  ∃ a c b rest, t.pc = a :: c ++ b :: rest ∧ isBreak a = false ∧ isBreak b = false ∧
    t' = ⟨rest, t.line + (a :: c ++ [b]).count AviSynth.newline⟩

/-- The marks at both ends have no line feed. -/
theorem encloses_of_marks {a : UInt8} {pre : Bytes} (hpre : ∀ b ∈ a :: pre, isBreak b = false)
    (text : Bytes) {post : Bytes} (hpost : ∀ b ∈ post, isBreak b = false) (rest : Bytes)
    (line : ℕ) :
    Encloses ⟨a :: pre ++ (text ++ (post ++ quotationMark :: rest)), line⟩
      ⟨rest, line + text.count newline⟩ := by
  have hcount {marks : Bytes} (hmarks : ∀ b ∈ marks, isBreak b = false) :
      marks.count newline = 0 := by
    refine List.count_eq_zero.mpr fun hmem => ?_
    cases hmarks _ hmem
  refine ⟨a, pre ++ text ++ post, quotationMark, rest, by simp,
    hpre a List.mem_cons_self, rfl, ?_⟩
  have hmark : [quotationMark].count newline = 0 := rfl
  rw [show a :: (pre ++ text ++ post) ++ [quotationMark] =
    (a :: pre) ++ (text ++ (post ++ [quotationMark])) by simp]
  rw [List.count_append, List.count_append, List.count_append, hcount hpre, hcount hpost, hmark]
  simp

/-- The marks that close a string, where further ones belong to it. -/
theorem closing_marks {start : Bytes} {found : ℕ}
    (h : [quotationMark, quotationMark, quotationMark] <+: start.drop found) :
    ∃ text rest, start = text ++ ([quotationMark, quotationMark] ++ quotationMark :: rest) ∧
      text.length =
        found + ((start.drop (found + 3)).takeWhile (· == quotationMark)).length := by
  obtain ⟨more, hmore⟩ := h
  have hdrop : start.drop (found + 3) = more := by
    rw [← List.drop_drop, ← hmore]
    rfl
  rw [hdrop]
  obtain ⟨count, hcount⟩ : ∃ count, more.takeWhile (· == quotationMark) =
      List.replicate count quotationMark :=
    ⟨_, List.eq_replicate_length.mpr fun b hb => by
      simpa using List.all_eq_true.mp List.all_takeWhile b hb⟩
  have hmarks :
      [quotationMark, quotationMark, quotationMark] ++ List.replicate count quotationMark =
        List.replicate count quotationMark ++ [quotationMark, quotationMark, quotationMark] := by
    change List.replicate 3 quotationMark ++ _ = _ ++ List.replicate 3 quotationMark
    rw [List.replicate_append_replicate, List.replicate_append_replicate, Nat.add_comm]
  have hfound : found ≤ start.length := by
    by_contra hlt
    rw [List.drop_eq_nil_of_le (by omega)] at hmore
    cases hmore
  refine ⟨start.take found ++ List.replicate count quotationMark,
    more.dropWhile (· == quotationMark), ?_, ?_⟩
  · calc start = start.take found ++ start.drop found := (List.take_append_drop ..).symm
      _ = start.take found ++ ([quotationMark, quotationMark, quotationMark] ++
          (List.replicate count quotationMark ++ more.dropWhile (· == quotationMark))) := by
        rw [← hmore, ← hcount, List.takeWhile_append_dropWhile]
      _ = _ := by
        rw [← List.append_assoc [quotationMark, quotationMark, quotationMark], hmarks]
        simp
  · rw [hcount, List.length_append, List.length_take_of_le hfound]

theorem not_isBreak_quotationMark : isBreak quotationMark = false := by decide

theorem not_isBreak_letterE : isBreak letterE = false := by decide

/-- The string read, by the byte that it starts with. -/
theorem getString_encloses {text : Bytes} (h : t.getString = .ok (text, t'))
    (hstart : t.pc.headD 0 = quotationMark ∨
      (t.pc.headD 0 = letterE ∧ t.pc.tail.headD 0 = quotationMark)) : Encloses t t' := by
  obtain ⟨pc, line⟩ := t
  -- the bytes before the first quotation mark
  obtain ⟨a, pre, escape, rest, rfl, hescape, hpre, hmark⟩ : ∃ a pre escape rest,
      pc = a :: pre ++ rest ∧ (pc.head? == some letterE) = escape ∧
        (∀ b ∈ a :: pre, isBreak b = false) ∧
        (if escape then pc.tail else pc) = quotationMark :: rest := by
    dsimp only at hstart
    cases pc with
    | nil => simp [quotationMark, letterE] at hstart
    | cons b pc =>
      rcases hstart with hstart | ⟨hstart, hnext⟩
      · obtain rfl : b = quotationMark := hstart
        exact ⟨quotationMark, [], false, pc, rfl, rfl,
          List.forall_mem_singleton.mpr not_isBreak_quotationMark, rfl⟩
      · obtain rfl : b = letterE := hstart
        cases pc with
        | nil => simp [quotationMark] at hnext
        | cons d pc =>
          obtain rfl : d = quotationMark := hnext
          exact ⟨letterE, [quotationMark], true, pc, rfl, rfl, List.forall_mem_cons.mpr
            ⟨not_isBreak_letterE, List.forall_mem_singleton.mpr not_isBreak_quotationMark⟩, rfl⟩
  simp only [Tokenizer.getString] at h
  rw [hescape, hmark] at h
  by_cases htriple : [quotationMark, quotationMark].isPrefixOf (quotationMark :: rest).tail = true
  · rw [if_pos htriple] at h
    obtain ⟨start, rfl⟩ := List.isPrefixOf_iff_prefix.mp htriple
    change (match Tokenizer.findClosing _ escape quotationMark start with
      | none => _
      | some found => _) = _ at h
    cases hfound : Tokenizer.findClosing [quotationMark, quotationMark, quotationMark] escape
        quotationMark start with
    | none =>
      rw [hfound] at h
      cases h
    | some found =>
      obtain ⟨inner, behind, hsplit, hlength⟩ := closing_marks (findClosing_reads hfound)
      have hthree : List.drop 3 (quotationMark :: ([quotationMark, quotationMark] ++ start)) =
          start := rfl
      rw [hfound] at h
      dsimp only at h
      rw [hthree, ← hlength] at h
      cases h
      have htake : start.take inner.length = inner := by
        rw [hsplit, List.take_left]
      have hdrop : start.drop (inner.length + 3) = behind := by
        rw [hsplit, ← List.drop_drop, List.drop_left]
        rfl
      have hpost : ∀ b ∈ [quotationMark, quotationMark], isBreak b = false :=
        List.forall_mem_cons.mpr
          ⟨not_isBreak_quotationMark, List.forall_mem_singleton.mpr not_isBreak_quotationMark⟩
      have hmarks : ∀ b ∈ a :: (pre ++ [quotationMark, quotationMark]), isBreak b = false := by
        rw [← List.cons_append]
        exact List.forall_mem_append.mpr ⟨hpre, hpost⟩
      have hencloses := encloses_of_marks hmarks inner hpost behind line
      rw [htake, hdrop]
      rw [← hsplit, List.cons_append, List.append_assoc, ← List.cons_append] at hencloses
      exact hencloses
  · rw [if_neg htriple] at h
    change (match Tokenizer.findClosing _ escape quotationMark rest with
      | none => _
      | some len => _) = _ at h
    cases hfound : Tokenizer.findClosing [quotationMark] escape quotationMark rest with
    | none =>
      rw [hfound] at h
      cases h
    | some found =>
      obtain ⟨behind, hbehind⟩ := findClosing_reads hfound
      rw [hfound] at h
      cases h
      have hsplit : rest = rest.take found ++ ([] ++ quotationMark :: behind) := by
        conv_lhs => rw [← List.take_append_drop found rest, ← hbehind]
        rfl
      have hdrop : rest.drop (found + 1) = behind := by
        rw [← List.drop_drop, ← hbehind]
        rfl
      have hpost : ∀ b ∈ ([] : Bytes), isBreak b = false := nofun
      have hencloses := encloses_of_marks hpre (rest.take found) hpost behind line
      rw [← hsplit, ← hdrop] at hencloses
      exact hencloses

/-- What the tokenizer has passed behind a token of each type. -/
def Passes (t : Tokenizer) : ScriptToken D → Tokenizer → Prop
  | .newline, behind =>
    t.atBreak = true ∧ behind = { t.skipNewline with line := t.skipNewline.line - 1 }
  | .string _, behind => Encloses t behind
  | _, behind => LinePart t.pc behind.pc ∧ behind.line = t.line

/-- A number is a token. -/
theorem passes_getNumber {rest : Bytes}
    (h : getNumber ops t.pc = .ok (token, rest)) : Passes t token { t with pc := rest } := by
  have hpart := linePart_getNumber h
  unfold getNumber at h
  simp only at h
  split_ifs at h <;> cases h <;> exact ⟨hpart, rfl⟩

/-- Each token that is read is passed. -/
theorem readToken_passes (h : readToken ops t = .ok (token, t')) : Passes t token t' := by
  unfold readToken at h
  have hname : LinePart t.pc (t.pc.dropWhile isNameByte) :=
    linePart_dropWhile
      (fun b hb => not_isBreak_of (p := (isNameByte · = true)) hb (by decide) (by decide)) t.pc
  dsimp only at h
  split_ifs at h with hend hbreak hnumber hpoint hdollar hstring hletter hscript
  · cases h
    exact ⟨LinePart.refl _, rfl⟩
  · cases h
    exact ⟨hbreak, rfl⟩
  · cases hresult : getNumber ops t.pc with
    | error msg =>
      rw [hresult] at h
      cases h
    | ok result =>
      rw [hresult] at h
      cases h
      exact passes_getNumber hresult
  · cases h
    exact ⟨linePart_tail (hpoint ▸ rfl), rfl⟩
  · cases hresult : gatherHex t.pc.tail 0 with
    | error msg =>
      rw [hresult] at h
      cases h
    | ok result =>
      obtain ⟨value, isLong, rest⟩ := result
      rw [hresult] at h
      have hpart : LinePart t.pc rest := by
        obtain ⟨c, hc, hline⟩ := linePart_gatherHex hresult
        have hbyte : isBreak (t.pc.headD 0) = false := hdollar ▸ rfl
        obtain ⟨d, hd, hfirst⟩ := linePart_tail hbyte
        refine ⟨d ++ c, by rw [List.append_assoc, ← hc, ← hd], ?_⟩
        exact List.forall_mem_append.mpr ⟨hfirst, hline⟩
      cases isLong <;> cases h <;> exact ⟨hpart, rfl⟩
  · cases hresult : t.getString with
    | error msg =>
      rw [hresult] at h
      cases h
    | ok result =>
      rw [hresult] at h
      cases h
      exact getString_encloses hresult hstring
  · cases h
    exact ⟨hname, rfl⟩
  · cases h
    exact ⟨hname, rfl⟩
  · cases hop : readOperator t.pc with
    | none =>
      rw [hop] at h
      cases h
    | some result =>
      rw [hop] at h
      cases h
      exact ⟨linePart_readOperator hop, rfl⟩

end Reading

end TokenReader

end AviSynth
