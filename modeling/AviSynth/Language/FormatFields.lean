import AviSynth.Language.FormatStrings

/-!
# The fields of a format string

A section of a format string is empty, a name, or a number. The grammar has decimal numbers; the
code reads a section that is no name with `std::stoi`, which passes blanks and a sign in front of
the digits and ignores what is behind them. It accepts more sections than the grammar, and reads
those of the grammar as it says.
-/

namespace AviSynth

namespace Language

variable {F D W : Type}

/-- `validName`. -/
def validName : List Char → Bool
  | [] => false
  | c :: chars => (c == '_' || c.isAlpha) && chars.all fun c => c == '_' || c.isAlphanum

/-- `std::stoi`, which throws where there is no number and where an `int` does not hold it. -/
def stoi (text : List Char) : Option ℤ :=
  let result := strtol 64 10 text
  if result.taken = [] ∨ result.rangeError ∨ result.value < -2 ^ 31 ∨ 2 ^ 31 ≤ result.value then
    none
  else some result.value

/-- The arguments behind the format string. The size of an array is a `short`. -/
structure FormatArguments (F D : Type) where
  values : List (AVSValue F D)
  length_lt : values.length < 2 ^ 15

section Code

variable [Floating F D] (printer : FloatPrinter D)

/-- The name of a parameter, which may be empty, and its text. -/
def formatParameter (objects : List (FunctionInstance F D)) :
    AVSValue F D → Result F D (String × String)
  | .array [.string name, value] => (name, ·) <$> avsValueToString printer objects value
  | .array _ => .error (.avisynthError
      "Format: for key-value lookup parameter must be in [\"name\", value] array format")
  | value => ("", ·) <$> avsValueToString printer objects value

/-- The names and the texts of all parameters. -/
def formatParameters (objects : List (FunctionInstance F D)) (args : FormatArguments F D) :
    Result F D (List (String × String)) :=
  args.values.mapM (formatParameter printer objects)

/-- What stands in brackets. -/
def insertSection (env : Environment F D W) (sv : List (String × String)) : InsertSection F D :=
  fun section_ paramCounter =>
    let text := String.ofList section_
    if section_ = [] then
      match sv[paramCounter]? with
      | some param => .ok (param.2.toList, paramCounter + 1)
      | none => .error (.avisynthError "Format: more parameter sections than parameters supplied")
    else if validName section_ then
      match sv.find? (·.1 == text) with
      | some param => .ok (param.2.toList, paramCounter)
      | none =>
        match env.vars.get text with
        | some value =>
          (fun s => (s.toList, paramCounter)) <$> avsValueToString printer env.objects value
        | none => .error (.avisynthError
            ("Format: no parameter or variable found with name \"" ++ text ++ "\"."))
    else
      match stoi section_ with
      | none => .error (.avisynthError
          ("Format: invalid parameter specifier: \"" ++ text ++ "\"."))
      | some index =>
        match if 0 ≤ index then sv[index.toNat]? else none with
        | some param => .ok (param.2.toList, paramCounter)
        | none => .error (.avisynthError
            ("Format: parameter index is out of range: " ++ toString index))

/-- `FormatString`. -/
def formatString (env : Environment F D W) (format : String) (args : FormatArguments F D) :
    Result F D (AVSValue F D) := do
  let sv ← formatParameters printer env.objects args
  let text ← FormatState.scan (insertSection printer env sv) ⟨false, format.toList, 0, [], 0⟩
  return .string (String.ofList text)

end Code

section Grammar

/-- A decimal number. -/
def decimalNumber (section_ : List Char) : Option ℕ :=
  if section_ ≠ [] ∧ section_.all Char.isDigit then some (ofDigits 10 section_) else none

/-- A number as the code reads it. -/
def looseNumber (section_ : List Char) : Option ℕ :=
  if '\x7d' ∈ section_ then none
  else (stoi section_).bind fun index => if 0 ≤ index then some index.toNat else none

/-- A piece of a format string, where `number` reads the indices. -/
inductive FormatPiece (number : List Char → Option ℕ) where
  | literal (text : List Char)
  | automatic
  | indexed (section_ : List Char) (index : ℕ) (h : number section_ = some index)
  | named (name : List Char) (h : validName name = true)

namespace FormatPiece

variable {number : List Char → Option ℕ}

/-- What a piece is read as. -/
def segment : FormatPiece number → Segment
  | literal text => .text text
  | automatic => .field []
  | indexed section_ _ _ => .field section_
  | named name _ => .field name

/-- The text of the pieces. -/
def writeAll (pieces : List (FormatPiece number)) : List Char :=
  (pieces.map segment).flatMap Segment.write

/-- What a piece stands for, behind a number of automatic fields. Names are those of parameters
first and of variables else. -/
def value (sv : List (String × String)) (variableText : String → Option String) (taken : ℕ) :
    FormatPiece number → Option (List Char)
  | literal text => some text
  | automatic => (sv[taken]?).map (·.2.toList)
  | indexed _ index _ => (sv[index]?).map (·.2.toList)
  | named name _ =>
    match sv.find? (·.1 == String.ofList name) with
    | some param => some param.2.toList
    | none => (variableText (String.ofList name)).map (·.toList)

/-- The number of automatic fields behind a piece. -/
def next (taken : ℕ) : FormatPiece number → ℕ
  | automatic => taken + 1
  | _ => taken

/-- The concatenation of what the pieces stand for. -/
def concatenation (sv : List (String × String)) (variableText : String → Option String) :
    List (FormatPiece number) → ℕ → Option (List Char)
  | [], _ => some []
  | piece :: pieces, taken => do
    let text ← piece.value sv variableText taken
    let rest ← concatenation sv variableText pieces (piece.next taken)
    return text ++ rest

theorem concatenation_cons (sv : List (String × String)) (variableText : String → Option String)
    (piece : FormatPiece number) (pieces : List (FormatPiece number)) (taken : ℕ) :
    concatenation sv variableText (piece :: pieces) taken =
      (piece.value sv variableText taken).bind fun text =>
        (concatenation sv variableText pieces (piece.next taken)).map (text ++ ·) := by
  rw [concatenation]
  cases piece.value sv variableText taken with
  | none => rfl
  | some text => cases concatenation sv variableText pieces (piece.next taken) <;> rfl

/-- An index that is no decimal number. -/
def IsLoose : FormatPiece number → Prop
  | indexed section_ _ _ => decimalNumber section_ = none
  | _ => False

end FormatPiece

variable [Floating F D] (printer : FloatPrinter D) (env : Environment F D W)

/-- The text of a variable. -/
def variableText (name : String) : Option String :=
  (env.vars.get name).bind fun value => (avsValueToString printer env.objects value).toOption

/-- What some pieces stand for, if there is all that they refer to. -/
def formatted {number : List Char → Option ℕ} (args : FormatArguments F D)
    (pieces : List (FormatPiece number)) : Option String := do
  let sv ← (formatParameters printer env.objects args).toOption
  let text ← FormatPiece.concatenation sv (variableText printer env) pieces 0
  return String.ofList text

end Grammar

section Numbers

/-- A text that does not begin as a number does is none. -/
theorem stoi_none {c : Char} (hspace : isSpace c = false) (hsign : c ≠ '-' ∧ c ≠ '+')
    (hdigit : 10 ≤ digitOf c) (chars : List Char) : stoi (c :: chars) = none := by
  have hradix : radixOf 10 (c :: chars) = (10, []) := by
    obtain ⟨x, rest, -, hbase, -⟩ | ⟨hbase, -⟩ | ⟨hbase, -⟩ | ⟨-, h⟩ :=
      radixOf_cases 10 (c :: chars)
    · omega
    · omega
    · omega
    · exact h
  have hblanks : (c :: chars).dropWhile isSpace = c :: chars := by
    rw [List.dropWhile_cons_of_neg (by simp [hspace])]
  have hsigns : signOf (c :: chars) = [] := by
    unfold signOf
    split
    · rename_i heq
      exact (hsign.1 (List.cons_eq_cons.mp heq).1).elim
    · rename_i heq
      exact (hsign.2 (List.cons_eq_cons.mp heq).1).elim
    · rfl
  have hdigits : digitsOf 10 (c :: chars) = [] := by
    rw [digitsOf, hradix]
    exact List.takeWhile_cons_of_neg (by simpa using hdigit)
  have hconvert : strtol 64 10 (c :: chars) = ⟨0, [], false⟩ := by
    rw [strtol, hblanks, convertNumber, hsigns]
    exact if_pos hdigits
  rw [stoi, hconvert]
  exact if_pos (.inl rfl)

theorem not_isAlpha_of_isDigit {c : Char} (h : c.isDigit) : c.isAlpha = false := by
  rw [Bool.eq_false_iff]
  intro halpha
  have hdigits := isDigit_iff.mp h
  have hletters := isAlpha_iff.mp halpha
  omega

variable {section_ : List Char} {index : ℕ}

/-- The characters of a name. -/
theorem mem_validName (h : validName section_ = true) :
    ∀ c ∈ section_, c = '_' ∨ c.isAlphanum = true := by
  cases section_ with
  | nil => nofun
  | cons c chars =>
    simp only [validName, Bool.and_eq_true, Bool.or_eq_true, beq_iff_eq, List.all_eq_true] at h
    refine List.forall_mem_cons.mpr ⟨h.1.imp_right fun halpha => ?_, h.2⟩
    rw [Char.isAlphanum, halpha]
    rfl

/-- No name is a number. -/
theorem stoi_validName (h : validName section_ = true) :
    stoi section_ = none := by
  cases section_ with
  | nil => cases h
  | cons c chars =>
    simp only [validName, Bool.and_eq_true, Bool.or_eq_true, beq_iff_eq] at h
    obtain ⟨rfl | halpha, -⟩ := h
    · exact stoi_none (by decide) (by decide) (by decide) chars
    · have hdigit : c.isDigit = false := by
        rw [Bool.eq_false_iff]
        intro hdigit
        rw [not_isAlpha_of_isDigit hdigit] at halpha
        cases halpha
      have hne {d : Char} (hd : d.isAlpha = false) : c ≠ d := by
        rintro rfl
        rw [hd] at halpha
        cases halpha
      exact stoi_none (not_isSpace_of_isAlpha halpha) ⟨hne (by decide), hne (by decide)⟩
        (le_digitOf hdigit) chars

/-- A decimal number is read as its value, if an `int` holds it. -/
theorem stoi_digits (hne : section_ ≠ []) (hdigits : ∀ c ∈ section_, c.isDigit) :
    stoi section_ = if ofDigits 10 section_ < 2 ^ 31 then some (ofDigits 10 section_ : ℤ)
      else none := by
  have hread : strtol 64 10 section_ = saturated 64 (ofDigits 10 section_) section_ := by
    have hall : strtol 64 10 (section_ ++ []) = saturated 64 (ofDigits 10 section_) section_ :=
      strtol_digits 64 hne hdigits (.inl rfl) nofun
    rwa [List.append_nil] at hall
  rw [stoi, hread, saturated_taken]
  by_cases hlarge : ofDigits 10 section_ < 2 ^ 63
  · rw [saturated_of_lt hlarge]
    dsimp only
    by_cases hfits : ofDigits 10 section_ < 2 ^ 31
    · rw [if_pos hfits, if_neg]
      rintro (hempty | herror | hlow | hhigh)
      · exact hne hempty
      · cases herror
      · omega
      · omega
    · rw [if_neg hfits]
      exact if_pos (.inr (.inr (.inr (by omega))))
  · have herror : (saturated 64 (ofDigits 10 section_) section_).rangeError = true := by
      rw [saturated, if_neg (by omega), if_pos (by omega)]
    have hfits : ¬ofDigits 10 section_ < 2 ^ 31 := by omega
    rw [if_neg hfits]
    exact if_pos (.inr (.inl herror))

theorem looseNumber_eq_some (h : looseNumber section_ = some index) :
    '\x7d' ∉ section_ ∧ ∃ i, stoi section_ = some i ∧ 0 ≤ i ∧ i.toNat = index := by
  unfold looseNumber at h
  split_ifs at h with hclose
  obtain ⟨i, hi, hindex⟩ := Option.bind_eq_some_iff.mp h
  split_ifs at hindex with hpos
  exact ⟨hclose, i, hi, hpos, Option.some.inj hindex⟩

theorem decimalNumber_eq_some (h : decimalNumber section_ = some index) :
    section_ ≠ [] ∧ (∀ c ∈ section_, c.isDigit) ∧ ofDigits 10 section_ = index := by
  unfold decimalNumber at h
  split_ifs at h with hdigits
  exact ⟨hdigits.1, by simpa using hdigits.2, Option.some.inj h⟩

theorem wellFormed_looseNumber
    (h : looseNumber section_ = some index) : (Segment.field section_).WellFormed := by
  obtain ⟨hclose, i, hi, -⟩ := looseNumber_eq_some h
  refine ⟨hclose, fun hhead => ?_⟩
  obtain ⟨chars, rfl⟩ := List.head?_eq_some_iff.mp hhead
  rw [stoi_none (by decide) (by decide) (by decide)] at hi
  cases hi

theorem wellFormed_decimalNumber
    (h : decimalNumber section_ = some index) : (Segment.field section_).WellFormed := by
  obtain ⟨-, hdigits, -⟩ := decimalNumber_eq_some h
  refine ⟨fun hclose => ?_, fun hhead => ?_⟩
  · exact absurd (hdigits _ hclose) (by decide)
  · exact absurd (hdigits _ (List.mem_of_mem_head? hhead)) (by decide)

theorem FormatPiece.wellFormed_segments {number : List Char → Option ℕ}
    (h : ∀ {section_ index}, number section_ = some index → (Segment.field section_).WellFormed)
    (pieces : List (FormatPiece number)) : ∀ s ∈ pieces.map segment, s.WellFormed := by
  intro s hs
  obtain ⟨piece, -, rfl⟩ := List.mem_map.mp hs
  cases piece with
  | literal text => exact trivial
  | automatic => exact ⟨nofun, nofun⟩
  | indexed section_ index hindex => exact h hindex
  | named name hname =>
    have hchars := mem_validName hname
    refine ⟨fun hclose => ?_, fun hhead => ?_⟩
    · exact absurd (hchars _ hclose) (by decide)
    · exact absurd (hchars _ (List.mem_of_mem_head? hhead)) (by decide)

end Numbers

section Insertion

variable [Floating F D] (printer : FloatPrinter D) (env : Environment F D W)
  (sv : List (String × String))

/-- A section that is no name is taken for an index. -/
theorem insertSection_index {section_ : List Char} (hne : section_ ≠ [])
    (hname : validName section_ = false) (k : ℕ) :
    (insertSection printer env sv section_ k).toOption =
      ((stoi section_).bind fun index => if 0 ≤ index then sv[index.toNat]? else none).map
        fun param => (param.2.toList, k) := by
  unfold insertSection
  dsimp only
  rw [if_neg hne, hname, if_neg Bool.false_ne_true]
  cases stoi section_ with
  | none => rfl
  | some index =>
    dsimp only [Option.bind_some]
    cases (if 0 ≤ index then sv[index.toNat]? else none) with
    | none => rfl
    | some param => rfl

/-- The sections of some numbers are read as indices of parameters. -/
structure ReadsIndices (number : List Char → Option ℕ) : Prop where
  wellFormed {section_ : List Char} {index : ℕ} (h : number section_ = some index) :
    (Segment.field section_).WellFormed
  insert {section_ : List Char} {index : ℕ} (h : number section_ = some index) (k : ℕ) :
    (insertSection printer env sv section_ k).toOption =
      (sv[index]?).map fun param => (param.2.toList, k)

theorem readsIndices_looseNumber : ReadsIndices printer env sv looseNumber := by
  refine ⟨wellFormed_looseNumber, fun {section_ index} h k => ?_⟩
  obtain ⟨-, i, hi, hpos, rfl⟩ := looseNumber_eq_some h
  have hne : section_ ≠ [] := by
    rintro rfl
    cases hi
  have hname : validName section_ = false := by
    by_contra hname
    rw [stoi_validName (by simpa using hname)] at hi
    cases hi
  rw [insertSection_index printer env sv hne hname, hi, Option.bind_some, if_pos hpos]

theorem readsIndices_decimalNumber (hlength : sv.length ≤ 2 ^ 31) :
    ReadsIndices printer env sv decimalNumber := by
  refine ⟨wellFormed_decimalNumber, fun {section_ index} h k => ?_⟩
  obtain ⟨hne, hdigits, rfl⟩ := decimalNumber_eq_some h
  have hname : validName section_ = false := by
    obtain ⟨c, chars, rfl⟩ := List.exists_cons_of_ne_nil hne
    have hc : c.isDigit := hdigits c List.mem_cons_self
    have hunderscore : c ≠ '_' := ne_of_isDigit hc (by decide)
    simp [validName, hunderscore, not_isAlpha_of_isDigit hc]
  rw [insertSection_index printer env sv hne hname, stoi_digits hne hdigits]
  by_cases hfits : ofDigits 10 section_ < 2 ^ 31
  · rw [if_pos hfits, Option.bind_some, if_pos (Int.natCast_nonneg _), Int.toNat_natCast]
  · rw [if_neg hfits, List.getElem?_eq_none (by omega)]
    rfl

namespace FormatPiece

variable {number : List Char → Option ℕ} {printer env sv}

/-- The code inserts what a field stands for. -/
theorem insert_toOption (h : ReadsIndices printer env sv number) {piece : FormatPiece number}
    {section_ : List Char} (hsegment : piece.segment = .field section_) (k : ℕ) :
    (insertSection printer env sv section_ k).toOption =
      (piece.value sv (variableText printer env) k).map fun text => (text, piece.next k) := by
  cases piece with
  | literal text => cases hsegment
  | automatic =>
    obtain rfl : [] = section_ := Segment.field.inj hsegment
    unfold insertSection
    dsimp only [value, next]
    rw [if_pos rfl]
    cases sv[k]? <;> rfl
  | indexed chars index hindex =>
    obtain rfl : chars = section_ := Segment.field.inj hsegment
    rw [h.insert hindex, value, Option.map_map]
    rfl
  | named name hname =>
    obtain rfl : name = section_ := Segment.field.inj hsegment
    have hne : name ≠ [] := by
      rintro rfl
      cases hname
    unfold insertSection
    dsimp only [value, next]
    rw [if_neg hne, if_pos hname]
    cases sv.find? (·.1 == String.ofList name) with
    | some param => rfl
    | none =>
      dsimp only [variableText]
      cases env.vars.get (String.ofList name) with
      | none => rfl
      | some v =>
        dsimp only [Option.bind_some]
        cases avsValueToString printer env.objects v <;> rfl

/-- The code inserts what all pieces stand for. -/
theorem insertAll_toOption (h : ReadsIndices printer env sv number)
    (pieces : List (FormatPiece number)) (k : ℕ) :
    (Segment.insertAll (insertSection printer env sv) (pieces.map segment) k).toOption =
      concatenation sv (variableText printer env) pieces k := by
  induction pieces generalizing k with
  | nil => rfl
  | cons piece pieces ih =>
    rw [List.map_cons, concatenation_cons]
    have hfield {section_ : List Char} (hsegment : piece.segment = .field section_) :
        (Segment.insertAll (insertSection printer env sv)
            (piece.segment :: pieces.map segment) k).toOption =
          ((piece.value sv (variableText printer env) k).bind fun text =>
            (concatenation sv (variableText printer env) pieces (piece.next k)).map
              (text ++ ·)) := by
      have hinsert := insert_toOption h hsegment k
      rw [hsegment, Segment.insertAll]
      cases hvalue : piece.value sv (variableText printer env) k with
      | none =>
        rw [hvalue] at hinsert
        cases hresult : insertSection printer env sv section_ k with
        | error e => rfl
        | ok result =>
          rw [hresult] at hinsert
          cases hinsert
      | some text =>
        rw [hvalue] at hinsert
        cases hresult : insertSection printer env sv section_ k with
        | error e =>
          rw [hresult] at hinsert
          cases hinsert
        | ok result =>
          rw [hresult] at hinsert
          obtain rfl : result = (text, piece.next k) := Option.some.inj hinsert
          rw [Option.bind_some, ← ih]
          change Except.toOption ((text ++ ·) <$> Segment.insertAll _ _ (piece.next k)) = _
          cases Segment.insertAll (insertSection printer env sv) (pieces.map segment)
            (piece.next k) <;> rfl
    cases piece with
    | literal text =>
      rw [FormatPiece.segment, Segment.insertAll, value, Option.bind_some]
      change _ = (concatenation sv (variableText printer env) pieces k).map (text ++ ·)
      rw [← ih]
      cases Segment.insertAll (insertSection printer env sv) (pieces.map segment) k <;> rfl
    | automatic => exact hfield rfl
    | indexed section_ index hindex => exact hfield rfl
    | named name hname => exact hfield rfl

/-- The sections that the code accepts are those of pieces with loose numbers. -/
theorem exists_pieces {segments : List Segment} {k : ℕ} {text : List Char}
    (hsegments : ∀ s ∈ segments, s.WellFormed)
    (h : Segment.insertAll (insertSection printer env sv) segments k = .ok text) :
    ∃ pieces : List (FormatPiece looseNumber), pieces.map segment = segments := by
  induction segments generalizing k text with
  | nil => exact ⟨[], rfl⟩
  | cons first segments ih =>
    obtain ⟨hfirst, hmore⟩ := List.forall_mem_cons.mp hsegments
    cases first with
    | text chars =>
      rw [Segment.insertAll] at h
      obtain ⟨rest, hrest⟩ : ∃ rest,
          Segment.insertAll (insertSection printer env sv) segments k = .ok rest := by
        cases hrest : Segment.insertAll (insertSection printer env sv) segments k with
        | error e =>
          rw [hrest] at h
          cases h
        | ok rest => exact ⟨rest, rfl⟩
      obtain ⟨pieces, rfl⟩ := ih hmore hrest
      exact ⟨.literal chars :: pieces, rfl⟩
    | field section_ =>
      rw [Segment.insertAll] at h
      obtain ⟨result, hresult, hmap⟩ := except_bind_eq_ok.mp h
      obtain ⟨rest, hrest⟩ : ∃ rest,
          Segment.insertAll (insertSection printer env sv) segments result.2 = .ok rest := by
        cases hrest : Segment.insertAll (insertSection printer env sv) segments result.2 with
        | error e =>
          rw [hrest] at hmap
          cases hmap
        | ok rest => exact ⟨rest, rfl⟩
      obtain ⟨pieces, rfl⟩ := ih hmore hrest
      by_cases hempty : section_ = []
      · subst hempty
        exact ⟨.automatic :: pieces, rfl⟩
      by_cases hname : validName section_ = true
      · exact ⟨.named section_ hname :: pieces, rfl⟩
      have hinsert := insertSection_index printer env sv hempty (by simpa using hname) k
      rw [hresult] at hinsert
      obtain ⟨param, hparam, -⟩ := Option.map_eq_some_iff.mp hinsert.symm
      obtain ⟨index, hindex, hget⟩ := Option.bind_eq_some_iff.mp hparam
      split_ifs at hget with hpos
      have hloose : looseNumber section_ = some index.toNat := by
        rw [looseNumber, if_neg hfirst.1, hindex, Option.bind_some, if_pos hpos]
      exact ⟨.indexed section_ index.toNat hloose :: pieces, rfl⟩

end FormatPiece

end Insertion

section Ambiguity

open FormatPiece

/-- Fails at each loose number. -/
def rejectLoose : InsertSection F D := fun section_ k =>
  if decimalNumber section_ = none ∧ (looseNumber section_).isSome then .error .unknown
  else .ok ([], k)

theorem insertAll_decimal (pieces : List (FormatPiece decimalNumber)) (k : ℕ) :
    ∃ text, Segment.insertAll (rejectLoose : InsertSection F D) (pieces.map segment) k =
      .ok text := by
  have hfield {section_ : List Char}
      (h : decimalNumber section_ ≠ none ∨ looseNumber section_ = none) (k : ℕ) :
      (rejectLoose : InsertSection F D) section_ k = .ok ([], k) := by
    refine if_neg fun hloose => ?_
    rcases h with h | h
    · exact h hloose.1
    · rw [h] at hloose
      cases hloose.2
  have hnot {section_ : List Char} (h : stoi section_ = none) : looseNumber section_ = none := by
    unfold looseNumber
    rw [h]
    split_ifs <;> rfl
  induction pieces generalizing k with
  | nil => exact ⟨[], rfl⟩
  | cons piece pieces ih =>
    obtain ⟨text, htext⟩ := ih k
    have hsection {section_ : List Char} (hsegment : piece.segment = .field section_)
        (h : decimalNumber section_ ≠ none ∨ looseNumber section_ = none) :
        ∃ text, Segment.insertAll (rejectLoose : InsertSection F D)
          (piece.segment :: pieces.map segment) k = .ok text := by
      rw [hsegment, Segment.insertAll, hfield h]
      exact ⟨[] ++ text, congrArg (([] ++ ·) <$> ·) htext⟩
    cases piece with
    | literal chars => exact ⟨chars ++ text, congrArg ((chars ++ ·) <$> ·) htext⟩
    | automatic => exact hsection rfl (.inr (hnot rfl))
    | indexed section_ index h => exact hsection rfl (.inl (by rw [h]; exact Option.some_ne_none _))
    | named name h => exact hsection rfl (.inr (hnot (stoi_validName h)))

variable {pieces : List (FormatPiece looseNumber)}

theorem insertAll_loose (h : ∃ piece ∈ pieces, piece.IsLoose) (k : ℕ) (text : List Char) :
    Segment.insertAll (rejectLoose : InsertSection F D) (pieces.map segment) k ≠ .ok text := by
  intro htext
  induction pieces generalizing k text with
  | nil =>
    obtain ⟨piece, hmem, -⟩ := h
    cases hmem
  | cons piece pieces ih =>
    rw [List.map_cons] at htext
    -- the first piece is passed, so that a later one is loose
    have hfirst : ¬piece.IsLoose := by
      intro hloose
      cases piece with
      | literal chars => exact hloose
      | automatic => exact hloose
      | named name hname => exact hloose
      | indexed section_ index hindex =>
        have hreject : (rejectLoose : InsertSection F D) section_ k = .error .unknown :=
          if_pos ⟨hloose, by rw [hindex]; rfl⟩
        rw [FormatPiece.segment, Segment.insertAll, hreject] at htext
        cases htext
    have hlater : ∃ piece ∈ pieces, piece.IsLoose := by
      obtain ⟨other, hmem, hloose⟩ := h
      rcases List.mem_cons.mp hmem with rfl | hmem
      · exact (hfirst hloose).elim
      · exact ⟨other, hmem, hloose⟩
    cases hsegment : piece.segment with
    | text chars =>
      rw [hsegment, Segment.insertAll] at htext
      cases hrest : Segment.insertAll (rejectLoose : InsertSection F D) (pieces.map segment) k with
      | error e =>
        rw [hrest] at htext
        cases htext
      | ok rest => exact ih hlater k rest hrest
    | field section_ =>
      rw [hsegment, Segment.insertAll] at htext
      obtain ⟨result, -, hmap⟩ := except_bind_eq_ok.mp htext
      cases hrest : Segment.insertAll (rejectLoose : InsertSection F D) (pieces.map segment)
          result.2 with
      | error e =>
        rw [hrest] at hmap
        cases hmap
      | ok rest => exact ih hlater _ rest hrest

/-- A format string is not written both with a loose number and without one. -/
theorem writeAll_ne (h : ∃ piece ∈ pieces, piece.IsLoose)
    (pieces' : List (FormatPiece decimalNumber)) :
    writeAll pieces ≠ writeAll pieces' := by
  intro hwrite
  obtain ⟨text, htext⟩ := insertAll_decimal (F := Float32) (D := Float) pieces' 0
  have hscan := Segment.scan_write (rejectLoose : InsertSection Float32 Float)
    (wellFormed_segments wellFormed_looseNumber pieces) 0 0 []
  have hscan' := Segment.scan_write (rejectLoose : InsertSection Float32 Float)
    (wellFormed_segments wellFormed_decimalNumber pieces') 0 0 []
  change FormatState.scan _ ⟨false, writeAll pieces, 0, [], 0⟩ = _ at hscan
  rw [hwrite] at hscan
  change FormatState.scan _ ⟨false, writeAll pieces', 0, [], 0⟩ = _ at hscan'
  rw [hscan', htext] at hscan
  cases hinsert : Segment.insertAll (rejectLoose : InsertSection Float32 Float)
      (pieces.map segment) 0 with
  | error e =>
    rw [hinsert] at hscan
    cases hscan
  | ok text => exact insertAll_loose h 0 text hinsert

/-- Pieces without a loose number are pieces with decimal numbers. -/
theorem exists_decimalPieces (h : ¬∃ piece ∈ pieces, piece.IsLoose) :
    ∃ pieces' : List (FormatPiece decimalNumber), writeAll pieces' = writeAll pieces := by
  suffices hsegments : ∃ pieces' : List (FormatPiece decimalNumber),
      pieces'.map segment = pieces.map segment by
    obtain ⟨pieces', hsegments⟩ := hsegments
    exact ⟨pieces', by rw [writeAll, hsegments, writeAll]⟩
  induction pieces with
  | nil => exact ⟨[], rfl⟩
  | cons piece pieces ih =>
    obtain ⟨pieces', hpieces⟩ := ih fun ⟨other, hmem, hloose⟩ =>
      h ⟨other, List.mem_cons_of_mem _ hmem, hloose⟩
    have hcons (first : FormatPiece decimalNumber) (hfirst : first.segment = piece.segment) :
        ∃ pieces' : List (FormatPiece decimalNumber),
          pieces'.map segment = (piece :: pieces).map segment :=
      ⟨first :: pieces', by rw [List.map_cons, List.map_cons, hpieces, hfirst]⟩
    cases piece with
    | literal text => exact hcons (.literal text) rfl
    | automatic => exact hcons .automatic rfl
    | named name hname => exact hcons (.named name hname) rfl
    | indexed section_ index hindex =>
      cases hdecimal : decimalNumber section_ with
      | none => exact (h ⟨_, List.mem_cons_self, hdecimal⟩).elim
      | some number => exact hcons (.indexed section_ number hdecimal) rfl

end Ambiguity

section Formatting

open FormatPiece

variable [Floating F D] (printer : FloatPrinter D) (env : Environment F D W) (format : String)
  (args : FormatArguments F D)

theorem eq_ok_of_toOption {α ε : Type} {result : Except ε α} {a : α}
    (h : result.toOption = some a) : result = .ok a := by
  cases result with
  | error e => cases h
  | ok b => exact congrArg Except.ok (Option.some.inj h)

/-- The result for a format string that pieces are written as. -/
theorem formatString_toOption {number : List Char → Option ℕ} {pieces : List (FormatPiece number)}
    (hnumber : ∀ sv, formatParameters printer env.objects args = .ok sv →
      ReadsIndices printer env sv number) (hformat : format.toList = writeAll pieces) :
    (formatString printer env format args).toOption =
      (formatted printer env args pieces).map .string := by
  unfold formatString formatted
  cases hparams : formatParameters printer env.objects args with
  | error e => rfl
  | ok sv =>
    have hreads := hnumber sv hparams
    have hscan := Segment.scan_write (insertSection printer env sv)
      (wellFormed_segments hreads.wellFormed pieces) 0 0 []
    have hconcat := insertAll_toOption hreads pieces 0
    rw [hformat, writeAll]
    change Except.toOption (FormatState.scan (insertSection printer env sv) _ >>= _) = _
    rw [hscan]
    change _ = ((concatenation sv (variableText printer env) pieces 0).bind _).map _
    rw [← hconcat]
    cases Segment.insertAll (insertSection printer env sv) (pieces.map segment) 0 <;> rfl

/-- There are fewer parameters than an `int` can count. -/
theorem length_formatParameters {sv : List (String × String)}
    (h : formatParameters printer env.objects args = .ok sv) : sv.length ≤ 2 ^ 31 := by
  have hlength := length_of_mapM h
  have hlt := args.length_lt
  omega

/-- What the code accepts is written with loose numbers. -/
theorem exists_loosePieces {v : AVSValue F D} (h : formatString printer env format args = .ok v) :
    ∃ pieces : List (FormatPiece looseNumber), format.toList = writeAll pieces := by
  unfold formatString at h
  obtain ⟨sv, -, h⟩ := except_bind_eq_ok.mp h
  obtain ⟨text, hscan, -⟩ := except_bind_eq_ok.mp h
  obtain ⟨segments, hsegments, hformat⟩ :=
    Segment.exists_segments (insertSection printer env sv) hscan
  rw [hformat, Segment.scan_write _ hsegments] at hscan
  obtain ⟨text, hinsert⟩ : ∃ text,
      Segment.insertAll (insertSection printer env sv) segments 0 = .ok text := by
    cases hinsert : Segment.insertAll (insertSection printer env sv) segments 0 with
    | error e =>
      rw [hinsert] at hscan
      cases hscan
    | ok text => exact ⟨text, rfl⟩
  obtain ⟨pieces, rfl⟩ := exists_pieces hsegments hinsert
  exact ⟨pieces, hformat⟩

/-- What a format string should give: the text that the pieces stand for, if it is written with
pieces that refer to what is there, and an error else. -/
def MeetsFormat : Prop :=
  (∀ (pieces : List (FormatPiece decimalNumber)) (text : String),
      format.toList = writeAll pieces → formatted printer env args pieces = some text →
        formatString printer env format args = .ok (.string text)) ∧
    ((¬∃ pieces : List (FormatPiece decimalNumber),
        format.toList = writeAll pieces ∧ (formatted printer env args pieces).isSome) →
      ∃ e, formatString printer env format args = .error e)

/-- A format string is written with a loose number, and with other fields that all refer to what
is there. -/
def IsLooselyWritten : Prop :=
  ∃ pieces : List (FormatPiece looseNumber), format.toList = writeAll pieces ∧
    (∃ piece ∈ pieces, piece.IsLoose) ∧ (formatted printer env args pieces).isSome

/-- The result for pieces with loose numbers. -/
theorem formatString_loose {pieces : List (FormatPiece looseNumber)}
    (hformat : format.toList = writeAll pieces) :
    (formatString printer env format args).toOption =
      (formatted printer env args pieces).map .string :=
  formatString_toOption printer env format args
    (fun sv _ => readsIndices_looseNumber printer env sv) hformat

/-- The result for pieces with decimal numbers. -/
theorem formatString_decimal {pieces : List (FormatPiece decimalNumber)}
    (hformat : format.toList = writeAll pieces) :
    (formatString printer env format args).toOption =
      (formatted printer env args pieces).map .string :=
  formatString_toOption printer env format args
    (fun sv hsv => readsIndices_decimalNumber printer env sv
      (length_formatParameters printer env args hsv)) hformat

/-- A loose number is inserted where an error should be raised. -/
theorem not_meetsFormat (h : IsLooselyWritten printer env format args) :
    ¬MeetsFormat printer env format args := by
  rintro ⟨-, herror⟩
  obtain ⟨pieces, hformat, hpiece, hdefined⟩ := h
  have hresult := formatString_loose printer env format args hformat
  obtain ⟨text, htext⟩ := Option.isSome_iff_exists.mp hdefined
  obtain ⟨e, he⟩ := herror fun ⟨pieces', hformat', _⟩ =>
    writeAll_ne hpiece pieces' (hformat.symm.trans hformat')
  rw [he, htext] at hresult
  cases hresult

/-- What the code accepts without a loose number is written with decimal ones. -/
theorem exists_decimal {v : AVSValue F D} (hnot : ¬IsLooselyWritten printer env format args)
    (h : formatString printer env format args = .ok v) :
    ∃ pieces : List (FormatPiece decimalNumber), format.toList = writeAll pieces ∧
      (formatted printer env args pieces).isSome := by
  have hdefined {o : Option String} (hresult : some v = o.map AVSValue.string) : o.isSome := by
    obtain ⟨text, htext, -⟩ := Option.map_eq_some_iff.mp hresult.symm
    rw [htext]
    rfl
  obtain ⟨pieces, hformat⟩ := exists_loosePieces printer env format args h
  have hresult := formatString_loose printer env format args hformat
  rw [h] at hresult
  obtain ⟨pieces', hpieces⟩ := exists_decimalPieces fun hpiece =>
    hnot ⟨pieces, hformat, hpiece, hdefined hresult⟩
  have hformat' : format.toList = writeAll pieces' := hformat.trans hpieces.symm
  have hresult' := formatString_decimal printer env format args hformat'
  rw [h] at hresult'
  exact ⟨pieces', hformat', hdefined hresult'⟩

/-- `Format` does what it should exactly where no loose number is inserted. -/
theorem formatString_meets_iff :
    MeetsFormat printer env format args ↔ ¬IsLooselyWritten printer env format args := by
  refine ⟨fun h hloose => not_meetsFormat printer env format args hloose h, fun hnot =>
    ⟨fun pieces text hformat htext => ?_, fun hwritten => ?_⟩⟩
  · have hresult := formatString_decimal printer env format args hformat
    rw [htext] at hresult
    exact eq_ok_of_toOption hresult
  · cases hformatted : formatString printer env format args with
    | error e => exact ⟨e, rfl⟩
    | ok v => exact (hwritten (exists_decimal printer env format args hnot hformatted)).elim

/-- Prints no number. -/
def silentPrinter : FloatPrinter Float := ⟨fun _ => none, fun _ _ => ""⟩

/-- Two parameters. -/
def twoArguments : FormatArguments Float32 Float := ⟨[.string "a", .string "b"], by decide⟩

/-- The second parameter is inserted for an index with letters behind the digit. -/
theorem formatString_ignores_letters :
    formatString silentPrinter emptyEnvironment "\x7b1abc\x7d" twoArguments = .ok (.string "b") ∧
      ¬MeetsFormat silentPrinter emptyEnvironment "\x7b1abc\x7d" twoArguments := by
  have hindex : looseNumber "1abc".toList = some 1 := by decide
  have hdecimal : decimalNumber "1abc".toList = none := by decide
  have hformat : "\x7b1abc\x7d".toList = writeAll [.indexed "1abc".toList 1 hindex] := by
    rw [writeAll, List.map_singleton, FormatPiece.segment]
    decide
  have htext : formatted silentPrinter emptyEnvironment twoArguments
      [.indexed "1abc".toList 1 hindex] = some "b" := rfl
  have hloose : IsLooselyWritten silentPrinter emptyEnvironment "\x7b1abc\x7d" twoArguments :=
    ⟨_, hformat, ⟨_, List.mem_cons_self, hdecimal⟩, by rw [htext]; rfl⟩
  have hresult := formatString_loose silentPrinter emptyEnvironment "\x7b1abc\x7d" twoArguments
    hformat
  rw [htext] at hresult
  exact ⟨eq_ok_of_toOption hresult, not_meetsFormat _ _ _ _ hloose⟩

end Formatting

end Language

end AviSynth
