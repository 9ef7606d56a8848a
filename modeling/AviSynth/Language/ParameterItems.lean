import AviSynth.Language.ParameterLists

/-!
# Parameter items

A parameter string is a sequence of items: the name of an optional parameter in brackets, the
letter of a type, and `*` or `+` for an array. `IsValidParameterString` accepts these strings
and no others.
-/

namespace AviSynth

namespace Language

/-- One parameter, as a parameter string has it. -/
structure ParameterItem where
  name : Option (List Char)
  type : Char
  modifier : Option Char
  closed : ∀ n ∈ name, ']' ∉ n
  isType : isParameterTypeSpecifier type = true
  isModifier : ∀ c ∈ modifier, isParameterTypeModifier c = true

namespace ParameterItem

/-- The type with what is behind it. -/
def typeText (item : ParameterItem) : List Char := item.type :: item.modifier.toList

/-- How an item is written. -/
def text (item : ParameterItem) : List Char :=
  match item.name with
  | none => item.typeText
  | some name => '[' :: name ++ ']' :: item.typeText

end ParameterItem

def itemsText (items : List ParameterItem) : List Char := items.flatMap ParameterItem.text

@[simp] theorem itemsText_cons (item : ParameterItem) (items : List ParameterItem) :
    itemsText (item :: items) = item.text ++ itemsText items := rfl

variable {s : ParameterState}

/-- What an item leads to, from a state in which it may begin. -/
theorem ParameterItem.foldl_text (item : ParameterItem) (hs : Ready s) :
    Ready (item.text.foldl ParameterState.next s) := by
  have htype {s : ParameterState} (hs : Ready s ∨ s = .named) :
      Ready (item.typeText.foldl ParameterState.next s) := by
    have hfirst : s.next item.type = .typed := by
      rcases hs with (rfl | rfl) | rfl <;> simp [ParameterState.next, item.isType]
    rw [ParameterItem.typeText, List.foldl_cons, hfirst]
    cases hmodifier : item.modifier with
    | none => exact Or.inr rfl
    | some c =>
      have hc := item.isModifier c hmodifier
      left
      obtain rfl | rfl : c = '+' ∨ c = '*' := by simpa [isParameterTypeModifier] using hc
      · decide
      · decide
  unfold ParameterItem.text
  cases hname : item.name with
  | none => exact htype (Or.inl hs)
  | some n =>
    simp only [List.cons_append, List.foldl_cons, List.foldl_append, next_bracket hs,
      (foldl_next_name (item.closed n hname)).1]
    exact htype (Or.inr rfl)

theorem foldl_itemsText (items : List ParameterItem) (hs : Ready s) :
    Ready ((itemsText items).foldl ParameterState.next s) := by
  induction items generalizing s with
  | nil => exact hs
  | cons item items ih =>
    rw [itemsText_cons, List.foldl_append]
    exact ih (item.foldl_text hs)

/-- What is left of a string behind a type: the modifier, if there is one, and items. -/
def AfterType (cs : List Char) : Prop :=
  ∃ modifier : Option Char, (∀ c ∈ modifier, isParameterTypeModifier c = true) ∧
    ∃ items, cs = modifier.toList ++ itemsText items

/-- What a string can be that the states accept from each state on. -/
def ReadsFrom : ParameterState → List Char → Prop
  | .start, cs => ∃ items, cs = itemsText items
  | .typed, cs => AfterType cs
  | .name, cs => ∃ n c rest, ']' ∉ n ∧ cs = n ++ ']' :: c :: rest ∧
    isParameterTypeSpecifier c = true ∧ AfterType rest
  | .named, cs => ∃ c rest, cs = c :: rest ∧ isParameterTypeSpecifier c = true ∧ AfterType rest
  | .invalid, _ => False

/-- A type with what is behind it begins an item. -/
theorem AfterType.items {c : Char} {rest : List Char} (h : AfterType rest)
    (hc : isParameterTypeSpecifier c = true) (name : Option (List Char))
    (hname : ∀ n ∈ name, ']' ∉ n) :
    ∃ items, (match name with
      | none => c :: rest
      | some n => '[' :: n ++ ']' :: c :: rest) = itemsText items := by
  obtain ⟨modifier, hmodifier, items, rfl⟩ := h
  refine ⟨⟨name, c, modifier, hname, hc, hmodifier⟩ :: items, ?_⟩
  cases name <;> simp [ParameterItem.text, ParameterItem.typeText]

theorem readsFrom_of_ready {cs : List Char}
    (h : Ready (cs.foldl ParameterState.next s)) : ReadsFrom s cs := by
  induction cs generalizing s with
  | nil =>
    obtain rfl | rfl : s = .start ∨ s = .typed := h
    · exact ⟨[], rfl⟩
    · exact ⟨none, by simp, [], rfl⟩
  | cons c cs ih =>
    rw [List.foldl_cons] at h
    have hread := ih h
    have hbegin (hc : isParameterTypeSpecifier c = true) (hread : ReadsFrom .typed cs) :
        ∃ items, c :: cs = itemsText items := hread.items hc none (by simp)
    have hopen (hread : ReadsFrom .name cs) : ∃ items, '[' :: cs = itemsText items := by
      obtain ⟨n, d, rest, hn, rfl, hd, hrest⟩ := hread
      exact hrest.items hd (some n) (by simpa using hn)
    cases s with
    | start =>
      simp only [ParameterState.next] at hread
      split_ifs at hread with htype hname
      · exact hbegin htype hread
      · obtain rfl : c = '[' := by simpa using hname
        exact hopen hread
      · exact hread.elim
    | typed =>
      simp only [ParameterState.next] at hread
      split_ifs at hread with htype hname hmodifier
      · obtain ⟨items, hitems⟩ := hbegin htype hread
        exact ⟨none, by simp, items, hitems⟩
      · obtain rfl : c = '[' := by simpa using hname
        obtain ⟨items, hitems⟩ := hopen hread
        exact ⟨none, by simp, items, hitems⟩
      · obtain ⟨items, rfl⟩ := hread
        exact ⟨some c, by simpa using hmodifier, items, rfl⟩
      · exact hread.elim
    | name =>
      simp only [ParameterState.next] at hread
      split_ifs at hread with hclose
      · obtain rfl : c = ']' := by simpa using hclose
        obtain ⟨d, rest, rfl, hd, hrest⟩ := hread
        exact ⟨[], d, rest, List.not_mem_nil, rfl, hd, hrest⟩
      · obtain ⟨n, d, rest, hn, rfl, hd, hrest⟩ := hread
        refine ⟨c :: n, d, rest, ?_, rfl, hd, hrest⟩
        rw [List.mem_cons, not_or]
        exact ⟨Ne.symm (by simpa using hclose), hn⟩
    | named =>
      simp only [ParameterState.next] at hread
      split_ifs at hread with htype
      · exact ⟨c, cs, rfl, htype, hread⟩
      · exact hread.elim
    | invalid => exact hread.elim

/-- The accepted strings are the sequences of items. -/
theorem isValidParameterString_iff_items {params : String} :
    isValidParameterString params = true ↔ ∃ items, params.toList = itemsText items := by
  rw [isValidParameterString_iff]
  constructor
  · exact readsFrom_of_ready
  · rintro ⟨items, hitems⟩
    rw [hitems]
    exact foldl_itemsText items (Or.inl rfl)

end Language

end AviSynth
