import AviSynth.Language.PrintedValues

/-!
# Format strings

`Format` copies a string and inserts its parameters where the string has brackets. The scanner is
outside of the brackets or inside of them; it looks for the nearest bracket from a position on and
continues behind it. What a pair of brackets refers to is left open here: `insert` gives it, with
the number of parameters that were taken in their order before.
-/

namespace AviSynth

namespace Language

variable {F D : Type}

/-- What the scanner has done: it is before `rest`, the part of the string from `lastPos` on. -/
structure FormatState where
  inParenthesis : Bool
  rest : List Char
  lastPos : ℕ
  text : List Char
  paramCounter : ℕ

/-- The loop goes on, or is left. -/
inductive FormatStep where
  | goesOn (s : FormatState)
  | leaves (s : FormatState)

/-- What stands in brackets, with the number of parameters taken so far. -/
abbrev InsertSection (F D : Type) := List Char → ℕ → Result F D (List Char × ℕ)

namespace FormatState

/-- The closing bracket before the opening one. -/
def closingBefore (cx x : Option ℕ) : Option ℕ := cx.filter fun cx => x.all (cx < ·)

/-- Behind `n` characters that are copied and `skip` others. -/
def copy (s : FormatState) (n skip : ℕ) : FormatState :=
  { s with text := s.text ++ s.rest.take n, rest := s.rest.drop (n + skip),
           lastPos := s.lastPos + n + skip }

/-- A round of the loop outside of brackets. -/
def outside (s : FormatState) : Result F D FormatStep :=
  let x := s.rest.findIdx? (· == '\x7b')
  let cx := s.rest.findIdx? (· == '\x7d')
  match closingBefore cx x with
  | some cx =>
    if s.rest[cx + 1]? = some '\x7d' then .ok (.goesOn (s.copy (cx + 1) 1))
    else .error (.avisynthError
      ("Format: unbalanced curly bracket at position " ++ toString (s.lastPos + cx)))
  | none =>
    match x with
    | none => .ok (.leaves { s with text := s.text ++ s.rest })
    | some x =>
      if s.rest[x + 1]? = some '\x7b' then .ok (.goesOn (s.copy (x + 1) 1))
      else .ok (.goesOn { s.copy x 1 with inParenthesis := true })

/-- A round of the loop inside of brackets. -/
def inside (insert : InsertSection F D) (s : FormatState) : Result F D FormatStep :=
  match s.rest.findIdx? (· == '\x7d') with
  | none => .ok (.leaves s)
  | some x => do
    let (value, paramCounter) ← insert (s.rest.take x) s.paramCounter
    return .goesOn { inParenthesis := false, rest := s.rest.drop (x + 1),
                     lastPos := s.lastPos + x + 1, text := s.text ++ value, paramCounter }

/-- A round of the loop. -/
def round (insert : InsertSection F D) (s : FormatState) : Result F D FormatStep :=
  if s.rest = [] then .ok (.leaves s)
  else if s.inParenthesis then s.inside insert
  else s.outside

theorem round_length_lt {insert : InsertSection F D} {s s' : FormatState}
    (h : s.round insert = .ok (.goesOn s')) : s'.rest.length < s.rest.length := by
  unfold round at h
  split_ifs at h with hempty hin
  · cases h
  · have hlt := List.length_pos_of_ne_nil hempty
    unfold inside at h
    split at h
    · cases h
    · obtain ⟨⟨value, paramCounter⟩, -, hnext⟩ := except_bind_eq_ok.mp h
      cases hnext
      simp only [List.length_drop]
      omega
  · have hlt := List.length_pos_of_ne_nil hempty
    unfold outside at h
    dsimp only at h
    split at h
    · split_ifs at h with hdouble
      cases h
      simp only [copy, List.length_drop]
      omega
    · split at h
      · cases h
      · split_ifs at h with hdouble <;> cases h <;> simp only [copy, List.length_drop] <;> omega

/-- The loop over the string, and the check behind it. -/
def scan (insert : InsertSection F D) (s : FormatState) : Result F D (List Char) :=
  match _ : s.round insert with
  | .error e => .error e
  | .ok (.goesOn s') => s'.scan insert
  | .ok (.leaves s') =>
    if s'.inParenthesis then .error (.avisynthError "Format: unclosed curly bracket")
    else .ok s'.text
termination_by s.rest.length
decreasing_by exact round_length_lt ‹_›

section Characters

variable (insert : InsertSection F D) {s s' : FormatState}

theorem scan_of_error {e : ScriptError F D} (h : s.round insert = .error e) :
    s.scan insert = .error e := by
  rw [scan]
  split <;> simp_all

theorem scan_of_goesOn (h : s.round insert = .ok (.goesOn s')) :
    s.scan insert = s'.scan insert := by
  rw [scan]
  split <;> simp_all

theorem scan_of_leaves (h : s.round insert = .ok (.leaves s')) :
    s.scan insert =
      if s'.inParenthesis then .error (.avisynthError "Format: unclosed curly bracket")
      else .ok s'.text := by
  rw [scan]
  split <;> simp_all

variable {c : Char} {rest : List Char} {p k : ℕ} {text : List Char}

theorem scan_nil : scan insert ⟨false, [], p, text, k⟩ = .ok text := by
  have hround : round insert ⟨false, [], p, text, k⟩ = .ok (.leaves ⟨false, [], p, text, k⟩) := rfl
  rw [scan_of_leaves insert hround]
  rfl

theorem closingBefore_succ (cx x : Option ℕ) :
    closingBefore (cx.map (· + 1)) (x.map (· + 1)) = (closingBefore cx x).map (· + 1) := by
  cases cx with
  | none => rfl
  | some cx =>
    cases x with
    | none => rfl
    | some x =>
      by_cases h : cx < x
      · simp [closingBefore, Option.filter, h]
      · simp [closingBefore, Option.filter, h]

/-- One more character in front is one more that is copied. -/
theorem copy_cons (c : Char) (rest : List Char) (p : ℕ) (text : List Char) (k n skip : ℕ) :
    copy ⟨false, c :: rest, p, text, k⟩ (n + 1) skip =
      copy ⟨false, rest, p + 1, text ++ [c], k⟩ n skip := by
  have hn : n + 1 + skip = n + skip + 1 := by omega
  simp only [copy, hn, List.take_succ_cons, List.drop_succ_cons, List.append_assoc,
    List.singleton_append]
  congr 1
  omega

/-- A character that is no bracket is copied. -/
theorem scan_cons (hopen : c ≠ '\x7b') (hclose : c ≠ '\x7d') :
    scan insert ⟨false, c :: rest, p, text, k⟩ =
      scan insert ⟨false, rest, p + 1, text ++ [c], k⟩ := by
  have hx : (c :: rest).findIdx? (· == '\x7b') = (rest.findIdx? (· == '\x7b')).map (· + 1) := by
    rw [List.findIdx?_cons, if_neg (by simpa using hopen)]
  have hcx : (c :: rest).findIdx? (· == '\x7d') = (rest.findIdx? (· == '\x7d')).map (· + 1) := by
    rw [List.findIdx?_cons, if_neg (by simpa using hclose)]
  by_cases hrest : rest = []
  · subst hrest
    have hround : round insert ⟨false, [c], p, text, k⟩ =
        .ok (.leaves ⟨false, [c], p, text ++ [c], k⟩) := by
      rw [round, if_neg (List.cons_ne_nil _ _), if_neg Bool.false_ne_true, outside]
      dsimp only
      rw [hx, hcx]
      rfl
    rw [scan_of_leaves insert hround, scan_nil]
    rfl
  have hround : round insert ⟨false, c :: rest, p, text, k⟩ =
      outside ⟨false, c :: rest, p, text, k⟩ := by
    rw [round, if_neg (List.cons_ne_nil _ _), if_neg Bool.false_ne_true]
  have hround' : round insert ⟨false, rest, p + 1, text ++ [c], k⟩ =
      outside ⟨false, rest, p + 1, text ++ [c], k⟩ := by
    rw [round, if_neg hrest, if_neg Bool.false_ne_true]
  have hget (n : ℕ) : (c :: rest)[n + 1 + 1]? = rest[n + 1]? := rfl
  unfold outside at hround hround'
  dsimp only at hround hround'
  rw [hx, hcx, closingBefore_succ] at hround
  cases hclosing : closingBefore (rest.findIdx? (· == '\x7d')) (rest.findIdx? (· == '\x7b')) with
  | some cx =>
    simp only [hclosing, Option.map_some, hget, copy_cons] at hround hround'
    split_ifs at hround hround'
    · rw [scan_of_goesOn insert hround, scan_of_goesOn insert hround']
    · have hposition : p + (cx + 1) = p + 1 + cx := by omega
      rw [scan_of_error insert hround, scan_of_error insert hround', hposition]
  | none =>
    simp only [hclosing, Option.map_none] at hround hround'
    cases hopening : rest.findIdx? (· == '\x7b') with
    | none =>
      simp only [hopening, Option.map_none] at hround hround'
      rw [scan_of_leaves insert hround, scan_of_leaves insert hround']
      simp
    | some x =>
      simp only [hopening, Option.map_some, hget, copy_cons] at hround hround'
      split_ifs at hround hround'
      · rw [scan_of_goesOn insert hround, scan_of_goesOn insert hround']
      · rw [scan_of_goesOn insert hround, scan_of_goesOn insert hround']

/-- The round at an opening bracket. -/
theorem round_open :
    round insert ⟨false, '\x7b' :: rest, p, text, k⟩ =
      if rest.head? = some '\x7b' then .ok (.goesOn ⟨false, rest.tail, p + 2, text ++ ['\x7b'], k⟩)
      else .ok (.goesOn ⟨true, rest, p + 1, text, k⟩) := by
  have hx : ('\x7b' :: rest).findIdx? (· == '\x7b') = some 0 := by
    rw [List.findIdx?_cons, if_pos (beq_self_eq_true _)]
  have hclosing (cx : Option ℕ) : closingBefore cx (some 0) = none := by
    cases cx <;> simp [closingBefore]
  rw [round, if_neg (List.cons_ne_nil _ _), if_neg Bool.false_ne_true, outside]
  dsimp only
  rw [hx, hclosing]
  dsimp only
  rw [show ('\x7b' :: rest)[0 + 1]? = rest.head? from List.head?_eq_getElem?.symm]
  cases rest <;> simp [copy]

/-- The round at a closing bracket. -/
theorem round_close :
    round insert ⟨false, '\x7d' :: rest, p, text, k⟩ =
      if rest.head? = some '\x7d' then .ok (.goesOn ⟨false, rest.tail, p + 2, text ++ ['\x7d'], k⟩)
      else .error (.avisynthError
        ("Format: unbalanced curly bracket at position " ++ toString p)) := by
  have hx : ('\x7d' :: rest).findIdx? (· == '\x7b') =
      (rest.findIdx? (· == '\x7b')).map (· + 1) := by
    rw [List.findIdx?_cons, if_neg (by decide)]
  have hcx : ('\x7d' :: rest).findIdx? (· == '\x7d') = some 0 := by
    rw [List.findIdx?_cons, if_pos (beq_self_eq_true _)]
  have hclosing (x : Option ℕ) : closingBefore (some 0) (x.map (· + 1)) = some 0 := by
    cases x <;> simp [closingBefore, Option.filter]
  rw [round, if_neg (List.cons_ne_nil _ _), if_neg Bool.false_ne_true, outside]
  dsimp only
  rw [hx, hcx, hclosing]
  dsimp only
  rw [show ('\x7d' :: rest)[0 + 1]? = rest.head? from List.head?_eq_getElem?.symm]
  cases rest <;> simp [copy]

/-- Two brackets are one of the text. -/
theorem scan_doubled (hc : c = '\x7b' ∨ c = '\x7d') :
    scan insert ⟨false, c :: c :: rest, p, text, k⟩ =
      scan insert ⟨false, rest, p + 2, text ++ [c], k⟩ := by
  rcases hc with rfl | rfl
  · exact scan_of_goesOn insert ((round_open insert).trans (if_pos rfl))
  · exact scan_of_goesOn insert ((round_close insert).trans (if_pos rfl))

/-- A lone closing bracket is an error. -/
theorem scan_close (hnext : rest.head? ≠ some '\x7d') :
    scan insert ⟨false, '\x7d' :: rest, p, text, k⟩ =
      .error (.avisynthError ("Format: unbalanced curly bracket at position " ++ toString p)) :=
  scan_of_error insert ((round_close insert).trans (if_neg hnext))

/-- An opening bracket alone begins a section. -/
theorem scan_open (hnext : rest.head? ≠ some '\x7b') :
    scan insert ⟨false, '\x7b' :: rest, p, text, k⟩ =
      scan insert ⟨true, rest, p + 1, text, k⟩ :=
  scan_of_goesOn insert ((round_open insert).trans (if_neg hnext))

theorem findIdx?_not_mem (h : c ∉ rest) : rest.findIdx? (· == c) = none := by
  rw [List.findIdx?_eq_none_iff]
  intro d hd
  rw [beq_eq_false_iff_ne]
  rintro rfl
  exact h hd

/-- A section that is not closed is an error. -/
theorem scan_unclosed (hrest : '\x7d' ∉ rest) :
    scan insert ⟨true, rest, p, text, k⟩ =
      .error (.avisynthError "Format: unclosed curly bracket") := by
  have hround : round insert ⟨true, rest, p, text, k⟩ =
      .ok (.leaves ⟨true, rest, p, text, k⟩) := by
    rw [round]
    by_cases hempty : rest = []
    · exact if_pos hempty
    · rw [if_neg hempty, if_pos rfl, inside, findIdx?_not_mem hrest]
  rw [scan_of_leaves insert hround, if_pos rfl]

/-- A section ends at the nearest closing bracket. -/
theorem scan_section {section_ : List Char} (hsection : '\x7d' ∉ section_) :
    scan insert ⟨true, section_ ++ '\x7d' :: rest, p, text, k⟩ =
      insert section_ k >>= fun result =>
        scan insert ⟨false, rest, p + section_.length + 1, text ++ result.1, result.2⟩ := by
  have hx : (section_ ++ '\x7d' :: rest).findIdx? (· == '\x7d') = some section_.length := by
    rw [List.findIdx?_append, findIdx?_not_mem hsection, List.findIdx?_cons,
      if_pos (beq_self_eq_true _)]
    simp
  have hround : round insert ⟨true, section_ ++ '\x7d' :: rest, p, text, k⟩ =
      insert section_ k >>= fun result =>
        .ok (.goesOn ⟨false, rest, p + section_.length + 1, text ++ result.1, result.2⟩) := by
    rw [round, if_neg (by simp), if_pos rfl, inside, hx]
    dsimp only
    rw [List.take_left, show section_.length + 1 = (section_ ++ ['\x7d']).length by simp]
    rw [show section_ ++ '\x7d' :: rest = (section_ ++ ['\x7d']) ++ rest by simp, List.drop_left]
    rfl
  cases hinsert : insert section_ k with
  | error e =>
    rw [hinsert] at hround
    exact scan_of_error insert hround
  | ok result =>
    rw [hinsert] at hround
    exact scan_of_goesOn insert hround

end Characters

end FormatState

/-- A part of a format string: text, or a section in brackets. -/
inductive Segment where
  | text (chars : List Char)
  | field (section_ : List Char)

namespace Segment

/-- Text as a format string has it: each bracket is doubled. -/
def escape (chars : List Char) : List Char :=
  chars.flatMap fun c => if c = '\x7b' ∨ c = '\x7d' then [c, c] else [c]

/-- The text of a segment. -/
def write : Segment → List Char
  | text chars => escape chars
  | field section_ => '\x7b' :: section_ ++ ['\x7d']

/-- A section ends at its closing bracket, and is not taken for a doubled bracket. -/
def WellFormed : Segment → Prop
  | text _ => True
  | field section_ => '\x7d' ∉ section_ ∧ section_.head? ≠ some '\x7b'

/-- The text with what its sections refer to. -/
def insertAll (insert : InsertSection F D) : List Segment → ℕ → Result F D (List Char)
  | [], _ => .ok []
  | text chars :: segments, k => (chars ++ ·) <$> insertAll insert segments k
  | field section_ :: segments, k =>
    insert section_ k >>= fun result => (result.1 ++ ·) <$> insertAll insert segments result.2

variable (insert : InsertSection F D)

open FormatState

/-- Text is copied without the doubling. -/
theorem scan_escape (chars rest : List Char) (p k : ℕ) (text : List Char) :
    ∃ p', scan insert ⟨false, escape chars ++ rest, p, text, k⟩ =
      scan insert ⟨false, rest, p', text ++ chars, k⟩ := by
  induction chars generalizing p text with
  | nil => exact ⟨p, by rw [List.append_nil]; rfl⟩
  | cons c chars ih =>
    by_cases hc : c = '\x7b' ∨ c = '\x7d'
    · obtain ⟨p', hrest⟩ := ih (p + 2) (text ++ [c])
      have hwrite : escape (c :: chars) ++ rest = c :: c :: (escape chars ++ rest) := by
        simp [escape, hc]
      exact ⟨p', by rw [hwrite, scan_doubled insert hc, hrest, List.append_assoc]; rfl⟩
    · obtain ⟨p', hrest⟩ := ih (p + 1) (text ++ [c])
      have hwrite : escape (c :: chars) ++ rest = c :: (escape chars ++ rest) := by
        simp [escape, hc]
      rw [not_or] at hc
      exact ⟨p', by rw [hwrite, scan_cons insert hc.1 hc.2, hrest, List.append_assoc]; rfl⟩

/-- The scanner inserts what the sections of a written text refer to. -/
theorem scan_write {segments : List Segment} (h : ∀ s ∈ segments, s.WellFormed) (p k : ℕ)
    (text : List Char) :
    scan insert ⟨false, segments.flatMap write, p, text, k⟩ =
      (text ++ ·) <$> insertAll insert segments k := by
  induction segments generalizing p k text with
  | nil =>
    rw [List.flatMap_nil, scan_nil]
    exact congrArg Except.ok (List.append_nil text).symm
  | cons segment segments ih =>
    obtain ⟨hsegment, hrest⟩ := List.forall_mem_cons.mp h
    rw [List.flatMap_cons]
    cases segment with
    | text chars =>
      obtain ⟨p', hscan⟩ := scan_escape insert chars (segments.flatMap write) p k text
      rw [write, hscan, ih hrest, insertAll]
      cases insertAll insert segments k with
      | error e => rfl
      | ok result => exact congrArg Except.ok (List.append_assoc ..)
    | field section_ =>
      obtain ⟨hclose, hopen⟩ := hsegment
      have hhead : (section_ ++ '\x7d' :: segments.flatMap write).head? ≠ some '\x7b' := by
        cases section_ with
        | nil => simp
        | cons c section_ => simpa using hopen
      have hwrite : write (field section_) ++ segments.flatMap write =
          '\x7b' :: (section_ ++ '\x7d' :: segments.flatMap write) := by
        simp [write]
      rw [hwrite, scan_open insert hhead, scan_section insert hclose, insertAll]
      cases insert section_ k with
      | error e => rfl
      | ok result =>
        change scan insert ⟨false, segments.flatMap write, _, text ++ result.1, result.2⟩ =
          (text ++ ·) <$> ((result.1 ++ ·) <$> insertAll insert segments result.2)
        rw [ih hrest]
        cases insertAll insert segments result.2 with
        | error e => rfl
        | ok rest => exact congrArg Except.ok (List.append_assoc ..)

/-- What the scanner accepts is a written text. -/
theorem exists_segments {rest text result : List Char} {p k : ℕ}
    (h : scan insert ⟨false, rest, p, text, k⟩ = .ok result) :
    ∃ segments : List Segment, (∀ s ∈ segments, s.WellFormed) ∧
      rest = segments.flatMap write := by
  -- the rest of the string is shorter behind each character, doubled bracket and section
  induction hn : rest.length using Nat.strong_induction_on generalizing rest text p k with
  | _ n ih =>
    have hbehind (segment : Segment) {behind text' : List Char} {p' k' : ℕ}
        (hsegment : segment.WellFormed) (hwrite : rest = segment.write ++ behind)
        (hlt : behind.length < n)
        (hscan : scan insert ⟨false, behind, p', text', k'⟩ = .ok result) :
        ∃ segments : List Segment, (∀ s ∈ segments, s.WellFormed) ∧
          rest = segments.flatMap write := by
      obtain ⟨segments, hsegments, hrest⟩ := ih _ hlt hscan rfl
      refine ⟨segment :: segments, List.forall_mem_cons.mpr ⟨hsegment, hsegments⟩, ?_⟩
      rw [List.flatMap_cons, ← hrest, hwrite]
    cases rest with
    | nil => exact ⟨[], nofun, rfl⟩
    | cons c rest =>
      rw [List.length_cons] at hn
      by_cases hbracket : c = '\x7b' ∨ c = '\x7d'
      · by_cases hdouble : rest.head? = some c
        · obtain ⟨behind, rfl⟩ := List.head?_eq_some_iff.mp hdouble
          rw [scan_doubled insert hbracket] at h
          refine hbehind (.text [c]) trivial ?_ ?_ h
          · simp [write, escape, hbracket]
          · rw [List.length_cons] at hn
            omega
        · rcases hbracket with rfl | rfl
          · rw [scan_open insert hdouble] at h
            by_cases hclose : '\x7d' ∈ rest
            · obtain ⟨section_, behind, rfl, hsection⟩ := List.eq_append_cons_of_mem hclose
              have hhead : section_.head? ≠ some '\x7b' := by
                cases section_ with
                | nil => nofun
                | cons d section_ => simpa using hdouble
              rw [scan_section insert hsection] at h
              obtain ⟨value, -, hscan⟩ := except_bind_eq_ok.mp h
              refine hbehind (.field section_) ⟨hsection, hhead⟩ ?_ ?_ hscan
              · simp [write]
              · rw [List.length_append, List.length_cons] at hn
                omega
            · rw [scan_unclosed insert hclose] at h
              cases h
          · rw [scan_close insert hdouble] at h
            cases h
      · rw [not_or] at hbracket
        rw [scan_cons insert hbracket.1 hbracket.2] at h
        refine hbehind (.text [c]) trivial ?_ (by omega) h
        simp [write, escape, hbracket.1, hbracket.2]

end Segment

end Language

end AviSynth
