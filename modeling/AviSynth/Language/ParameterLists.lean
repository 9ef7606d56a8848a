import AviSynth.Language.Parser
import AviSynth.Language.Signatures

/-!
# Lists of parameters

The parser writes each declared parameter into a signature. A signature is read back item by
item, each with one type, so that there is an item for each parameter as long as the quoted
names have no closing bracket. Whoever packs arguments for such a signature makes one value
for each parameter.
-/

namespace AviSynth

open ParameterState

namespace Language

/-- The number of items of a signature from a state of `IsValidParameterString` on: each item
has one type. -/
def itemCount : ParameterState → List Char → ℕ
  | _, [] => 0
  | s, c :: cs => (if s.next c = .typed then 1 else 0) + itemCount (s.next c) cs

theorem itemCount_append (s : ParameterState) (xs ys : List Char) :
    itemCount s (xs ++ ys) = itemCount s xs + itemCount (xs.foldl next s) ys := by
  induction xs generalizing s with
  | nil => simp [itemCount]
  | cons x xs ih =>
    simp only [List.cons_append, itemCount, ih, List.foldl_cons]
    omega

theorem foldl_next_invalid (cs : List Char) :
    cs.foldl next .invalid = .invalid := by
  induction cs with
  | nil => rfl
  | cons c cs ih => exact ih

/-- Inside of a name all characters are passed over up to a closing bracket. -/
theorem foldl_next_name {cs : List Char} (h : ']' ∉ cs) :
    cs.foldl next .name = .name ∧ itemCount .name cs = 0 := by
  induction cs with
  | nil => exact ⟨rfl, rfl⟩
  | cons c cs ih =>
    simp only [List.mem_cons, not_or] at h
    have hnext : next .name c = .name := by
      simp [next, Ne.symm h.1]
    simp only [List.foldl_cons, itemCount, hnext]
    simpa using ih h.2

/-- Behind a name there is an item before anything else. -/
theorem itemCount_named_pos {cs : List Char} (hne : cs ≠ [])
    (hvalid : cs.foldl next .named ≠ .invalid) : 1 ≤ itemCount .named cs := by
  cases cs with
  | nil => exact absurd rfl hne
  | cons c cs =>
    have hnext : next .named c = .typed ∨
        next .named c = .invalid := by
      simp only [next]
      split
      · exact .inl rfl
      · exact .inr rfl
    obtain htyped | hinvalid := hnext
    · simp [itemCount, htyped]
    · rw [List.foldl_cons, hinvalid, foldl_next_invalid] at hvalid
      exact absurd rfl hvalid

theorem parameterType_letters {id : String} {type : Char} {arrayKind : Option Char}
    (h : parameterType id = some (type, arrayKind)) :
    isParameterTypeSpecifier type = true ∧ ∀ c ∈ arrayKind, isParameterTypeModifier c = true := by
  have hall : (parameterTypes.all fun e =>
      isParameterTypeSpecifier e.2.1 && e.2.2.all isParameterTypeModifier) = true := by
    decide
  obtain ⟨l₁, l₂, heq, -⟩ := List.lookup_eq_some_iff.mp h
  have hentry := List.all_eq_true.mp hall (id.toLower, type, arrayKind) (by simp [heq])
  rw [Bool.and_eq_true, Option.all_eq_true] at hentry
  exact hentry

/-- The states of `IsValidParameterString` in which a signature may end. -/
def Ready (s : ParameterState) : Prop := s = .start ∨ s = .typed

theorem isValidParameterString_iff {params : String} :
    isValidParameterString params = true ↔
      Ready (params.toList.foldl next .start) := by
  unfold isValidParameterString Ready
  cases params.toList.foldl next .start <;> simp

namespace Declaration

/-- The name has no closing bracket, or it is not in the signature. -/
def Plain (d : Declaration) : Prop := d.quoted = true → ']' ∉ d.name.toList
  deriving Decidable

theorem type_letters (d : Declaration) : isParameterTypeSpecifier d.type.1 = true ∧
    ∀ c ∈ d.type.2, isParameterTypeModifier c = true := by
  unfold type
  cases h : d.typeWord.bind parameterType with
  | none => exact ⟨rfl, nofun⟩
  | some letters =>
    obtain ⟨id, -, hid⟩ := Option.bind_eq_some_iff.mp h
    exact parameterType_letters hid

/-- The type is read as an item, where one is expected. -/
theorem reads_type (d : Declaration) {s : ParameterState} (hs : s.next d.type.1 = .typed) :
    Ready ((d.type.1 :: d.type.2.toList).foldl next s) ∧
      itemCount s (d.type.1 :: d.type.2.toList) = 1 := by
  have hmodifier := d.type_letters.2
  cases hkind : d.type.2 with
  | none => simp [itemCount, hs, Ready]
  | some c =>
    rw [hkind] at hmodifier
    have hc : isParameterTypeModifier c = true := hmodifier c rfl
    have hnext : next .typed c = .start := by
      obtain rfl | rfl : c = '+' ∨ c = '*' := by simpa [isParameterTypeModifier] using hc
      · decide
      · decide
    simp [itemCount, hs, hnext, Ready]

theorem next_type (d : Declaration) {s : ParameterState} (hs : Ready s ∨ s = .named) :
    s.next d.type.1 = .typed := by
  have htype := d.type_letters.1
  obtain (rfl | rfl) | rfl := hs <;> simp [next, htype]

end Declaration

variable {s : ParameterState} {ds : List Declaration}

theorem next_bracket (hs : Ready s) : s.next '[' = .name := by
  obtain rfl | rfl := hs
  · decide
  · decide

namespace Declaration

/-- The text of a parameter is one item, if it is plain. -/
theorem reads_text_of_plain {d : Declaration} (h : d.Plain) (hs : Ready s) :
    Ready (d.text.foldl next s) ∧ itemCount s d.text = 1 := by
  unfold text
  cases hquoted : d.quoted with
  | false => simpa using d.reads_type (d.next_type (.inl hs))
  | true =>
    obtain ⟨hname, hcount⟩ := foldl_next_name (h hquoted)
    have hclose : next .name ']' = .named := rfl
    have htype := d.reads_type (d.next_type (.inr rfl))
    simp only [if_true, List.cons_append, List.append_assoc, List.foldl_cons, List.foldl_append,
      List.nil_append, itemCount, itemCount_append, next_bracket hs, hname, hcount, hclose]
    simpa [itemCount] using htype

/-- If it is not, it is more than one item, or not valid at all. -/
theorem reads_text_of_not_plain {d : Declaration} (h : ¬d.Plain) (hs : Ready s)
    (hvalid : d.text.foldl next s ≠ .invalid) :
    Ready (d.text.foldl next s) ∧ 2 ≤ itemCount s d.text := by
  obtain ⟨hquoted, hname⟩ : d.quoted = true ∧ ']' ∈ d.name.toList := by
    simpa [Plain] using h
  obtain ⟨u, v, heq, hu⟩ := List.eq_append_cons_of_mem hname
  obtain ⟨hfirst, hcount⟩ := foldl_next_name hu
  have hclose : next .name ']' = .named := rfl
  have htext : d.text = '[' :: u ++ ']' :: v ++ ']' :: d.type.1 :: d.type.2.toList := by
    simp [text, hquoted, heq]
  rw [htext] at hvalid ⊢
  simp only [List.cons_append, List.append_assoc, List.foldl_cons, List.foldl_append,
    itemCount, itemCount_append, next_bracket hs, hfirst, hcount, hclose] at hvalid ⊢
  -- the last bracket closes a name, or there is none to close
  have hopen : v.foldl next .named = .name := by
    by_contra hne
    have hinvalid : (v.foldl next .named).next ']' = .invalid := by
      revert hne
      cases v.foldl next .named with
      | name => exact fun hne => absurd rfl hne
      | _ => intro; decide
    rw [hinvalid] at hvalid
    exact hvalid (foldl_next_invalid (d.type.1 :: d.type.2.toList))
  have hne : v ≠ [] := by
    rintro rfl
    simp at hopen
  have hmiddle : 1 ≤ itemCount .named v := by
    refine itemCount_named_pos hne ?_
    rw [hopen]
    decide
  have htype := d.reads_type (d.next_type (.inr rfl))
  rw [hopen, hclose] at *
  refine ⟨htype.1, ?_⟩
  have hlast := htype.2
  simp only [itemCount] at hlast
  simp
  omega

end Declaration

/-- The signature of some parameters. -/
def signature (ds : List Declaration) : List Char := ds.flatMap Declaration.text

theorem signature_reads (hs : Ready s) (h : Ready ((signature ds).foldl next s)) :
    ds.length ≤ itemCount s (signature ds) ∧
      (itemCount s (signature ds) = ds.length → ∀ d ∈ ds, d.Plain) := by
  induction ds generalizing s with
  | nil => simp [signature, itemCount]
  | cons d ds ih =>
    have hsplit : signature (d :: ds) = d.text ++ signature ds := List.flatMap_cons
    rw [hsplit, List.foldl_append] at h
    rw [hsplit, itemCount_append]
    by_cases hplain : d.Plain
    · obtain ⟨hready, hone⟩ := d.reads_text_of_plain hplain hs
      obtain ⟨hle, hall⟩ := ih hready h
      rw [hone, List.length_cons]
      refine ⟨by omega, fun heq => ?_⟩
      have hrest := hall (by omega)
      simpa using ⟨hplain, hrest⟩
    · have hvalid : d.text.foldl next s ≠ .invalid := by
        intro hinvalid
        rw [hinvalid, foldl_next_invalid] at h
        simp [Ready] at h
      obtain ⟨hready, htwo⟩ := d.reads_text_of_not_plain hplain hs hvalid
      have hle := (ih hready h).1
      rw [List.length_cons]
      exact ⟨by omega, fun heq => by omega⟩

theorem signature_reads_of_plain (h : ∀ d ∈ ds, d.Plain) (hs : Ready s) :
    Ready ((signature ds).foldl next s) ∧
      itemCount s (signature ds) = ds.length := by
  induction ds generalizing s with
  | nil => exact ⟨hs, rfl⟩
  | cons d ds ih =>
    have hsplit : signature (d :: ds) = d.text ++ signature ds := List.flatMap_cons
    obtain ⟨hready, hone⟩ := d.reads_text_of_plain (h d List.mem_cons_self) hs
    obtain ⟨hend, hcount⟩ := ih (fun d' hd' => h d' (List.mem_cons_of_mem _ hd')) hready
    rw [hsplit, List.foldl_append, itemCount_append, hone, hcount]
    exact ⟨hend, by rw [List.length_cons]; omega⟩

/-- A signature is valid and has an item for each parameter if and only if no quoted name has
a closing bracket. -/
theorem signature_items_iff (ds : List Declaration) :
    (isValidParameterString (String.ofList (signature ds)) = true ∧
        itemCount .start (signature ds) = ds.length) ↔ ∀ d ∈ ds, d.Plain := by
  have hstart : Ready .start := .inl rfl
  rw [isValidParameterString_iff, String.toList_ofList]
  constructor
  · rintro ⟨hready, hcount⟩
    exact (signature_reads hstart hready).2 hcount
  · exact fun h => signature_reads_of_plain h hstart

section Packing

variable {F D : Type} {args : List (AVSValue F D)} {strict : Bool} {name : String}
  {named : List (Option String × AVSValue F D)} {lastWasNamed : Bool}

theorem splitName_append {name : List Char} (rest : List Char) (h : ']' ∉ name) :
    splitName (name ++ ']' :: rest) = some (name, rest) := by
  induction name with
  | nil => rfl
  | cons c name ih =>
    simp only [List.mem_cons, not_or] at h
    have hc : c ≠ ']' := Ne.symm h.1
    rw [List.cons_append, splitName, ih h.2]
    · rfl
    · exact hc

theorem Declaration.type_ne_bracket (d : Declaration) : d.type.1 ≠ '[' := by
  intro heq
  have hletter := d.type_letters.1
  rw [heq] at hletter
  revert hletter
  decide

theorem not_modifier_of_specifier {c : Char} (h : isParameterTypeSpecifier c = true) :
    c ≠ '*' ∧ c ≠ '+' := by
  constructor
  · rintro rfl
    revert h
    decide
  · rintro rfl
    revert h
    decide

/-- A signature does not begin with the letter for an array. -/
theorem signature_head (ds : List Declaration) :
    signature ds = [] ∨ ∃ c cs, signature ds = c :: cs ∧ c ≠ '*' ∧ c ≠ '+' := by
  cases ds with
  | nil => exact .inl rfl
  | cons d ds =>
    right
    cases hquoted : d.quoted with
    | false =>
      refine ⟨d.type.1, d.type.2.toList ++ signature ds, ?_,
        not_modifier_of_specifier d.type_letters.1⟩
      simp [signature, Declaration.text, hquoted]
    | true =>
      refine ⟨'[', d.name.toList ++ ']' :: d.type.1 :: (d.type.2.toList ++ signature ds), ?_,
        by decide, by decide⟩
      simp [signature, Declaration.text, hquoted]

/-- Where there is no array, one argument is taken, if there is one left. -/
theorem packParameter_plain (name : String) (strict : Bool) (type : Char)
    (args : List (AVSValue F D)) (lastWasNamed : Bool) {params : List Char}
    (h : params = [] ∨ ∃ c cs, params = c :: cs ∧ c ≠ '*' ∧ c ≠ '+') :
    ∃ slot args', packParameter name strict type params args lastWasNamed =
      .ok (slot, params, args') := by
  obtain rfl | ⟨c, cs, rfl, hstar, hplus⟩ := h
  · cases args with
    | nil => exact ⟨_, _, rfl⟩
    | cons arg args => exact ⟨_, _, rfl⟩
  · unfold packParameter
    split
    · next heq => exact absurd (List.cons.inj heq).1 hstar
    · next heq => exact absurd (List.cons.inj heq).1 hplus
    · cases args with
      | nil => exact ⟨_, _, rfl⟩
      | cons arg args => exact ⟨_, _, rfl⟩

/-- The parameters behind the one that is packed are left. -/
theorem packParameter_rest (d : Declaration)
    (ds : List Declaration) {slot : Slot F D} {params : List Char} {rest : List (AVSValue F D)}
    (h : packParameter name strict d.type.1 (d.type.2.toList ++ signature ds) args lastWasNamed =
      .ok (slot, params, rest)) : params = signature ds := by
  have harray {kind : Bool} (h : (packArray name strict d.type.1 kind args lastWasNamed >>=
        fun packed => pure (packed.1, signature ds, packed.2) : Result F D _) =
        .ok (slot, params, rest)) : params = signature ds := by
    obtain ⟨packed, -, hend⟩ := except_bind_eq_ok.mp h
    exact (congrArg (fun r => r.2.1) (Except.ok.inj hend)).symm
  cases hkind : d.type.2 with
  | some c =>
    have hmodifier := d.type_letters.2
    rw [hkind] at h hmodifier
    obtain rfl | rfl : c = '+' ∨ c = '*' := by
      simpa [isParameterTypeModifier] using hmodifier c rfl
    · exact harray h
    · exact harray h
  | none =>
    rw [hkind, Option.toList_none, List.nil_append] at h
    obtain ⟨slot', args', hplain⟩ :=
      packParameter_plain name strict d.type.1 args lastWasNamed (signature_head ds)
    rw [hplain] at h
    exact (congrArg (fun r => r.2.1) (Except.ok.inj h)).symm

/-- The type of a parameter is packed into one value. -/
theorem packUnnamed_type (d : Declaration)
    (ds : List Declaration) {rounds : ℕ} {slots : List (Slot F D)}
    (h : packUnnamed name strict (rounds + 1)
      (d.type.1 :: (d.type.2.toList ++ signature ds)) args lastWasNamed = .ok slots) :
    ∃ slot slots' args', slots = slot :: slots' ∧
      packUnnamed name strict rounds (signature ds) args' false = .ok slots' := by
  rw [packUnnamed] at h
  · obtain ⟨⟨slot, params, args'⟩, hpack, hrest⟩ := except_bind_eq_ok.mp h
    obtain rfl := packParameter_rest d ds hpack
    obtain ⟨slots', hslots, hend⟩ := except_bind_eq_ok.mp hrest
    exact ⟨slot, slots', args', (Except.ok.inj hend).symm, hslots⟩
  · exact fun heq => d.type_ne_bracket heq

/-- There is one value for each parameter. -/
theorem packUnnamed_length (hplain : ∀ d ∈ ds, d.Plain) {rounds : ℕ} {slots : List (Slot F D)}
    (hrounds : (signature ds).length < rounds)
    (h : packUnnamed name strict rounds (signature ds) args lastWasNamed = .ok slots) :
    slots.length = ds.length := by
  induction ds generalizing rounds args lastWasNamed slots with
  | nil =>
    obtain ⟨rounds, rfl⟩ : ∃ n, rounds = n + 1 := ⟨rounds - 1, by omega⟩
    cases args with
    | nil =>
      obtain rfl := Except.ok.inj h
      rfl
    | cons arg args => simp [signature, packUnnamed] at h
  | cons d ds ih =>
    have hsplit : signature (d :: ds) = d.text ++ signature ds := List.flatMap_cons
    have hds : ∀ d ∈ ds, d.Plain := fun d' hd' => hplain d' (List.mem_cons_of_mem _ hd')
    have htype {rounds : ℕ} {lastWasNamed : Bool}
        (hrounds : (d.type.1 :: (d.type.2.toList ++ signature ds)).length < rounds)
        (h : packUnnamed name strict rounds (d.type.1 :: (d.type.2.toList ++ signature ds)) args
          lastWasNamed = .ok slots) : slots.length = (d :: ds).length := by
      simp only [List.length_cons, List.length_append] at hrounds
      obtain ⟨rounds, rfl⟩ : ∃ n, rounds = n + 1 := ⟨rounds - 1, by omega⟩
      obtain ⟨slot, slots', args', rfl, hpack⟩ := packUnnamed_type d ds h
      rw [List.length_cons, List.length_cons, ih hds (by omega) hpack]
    cases hquoted : d.quoted with
    | false =>
      have htext : signature (d :: ds) = d.type.1 :: (d.type.2.toList ++ signature ds) := by
        simp [hsplit, Declaration.text, hquoted]
      rw [htext] at h hrounds
      exact htype hrounds h
    | true =>
      have htext : signature (d :: ds) =
          '[' :: (d.name.toList ++ ']' :: (d.type.1 :: (d.type.2.toList ++ signature ds))) := by
        simp [hsplit, Declaration.text, hquoted]
      rw [htext] at h hrounds
      rw [List.length_cons, List.length_append, List.length_cons] at hrounds
      obtain ⟨rounds, rfl⟩ : ∃ n, rounds = n + 1 := ⟨rounds - 1, by omega⟩
      rw [packUnnamed, splitName_append _ (hplain d List.mem_cons_self hquoted)] at h
      exact htype (by omega) h

/-- Named arguments do not change the number of values. -/
theorem packNamed_length {name params argName : String} {slots slots' : List (Slot F D)}
    {arg : AVSValue F D} (h : packNamed name params slots argName arg = .ok slots') :
    slots'.length = slots.length := by
  unfold packNamed at h
  split at h
  · simp at h
  · dsimp only at h
    split at h
    · simp at h
    · obtain ⟨value, -, hend⟩ := except_bind_eq_ok.mp h
      rw [← Except.ok.inj hend, List.length_set]

theorem packAllNamed_length {name params : String} {slots slots' : List (Slot F D)}
    (h : packAllNamed name params slots named = .ok slots') : slots'.length = slots.length := by
  induction named generalizing slots with
  | nil => rw [Except.ok.inj h]
  | cons arg named ih =>
    obtain ⟨_ | argName, arg⟩ := arg
    · exact ih h
    · obtain ⟨slots1, hnamed, hrest⟩ := except_bind_eq_ok.mp h
      exact (ih hrest).trans (packNamed_length hnamed)

/-- For the signature of plain parameters the arguments are packed into one value for each
parameter. -/
theorem packArgs_length (hplain : ∀ d ∈ ds, d.Plain) {values : List (AVSValue F D)}
    (h : packArgs name (String.ofList (signature ds)) strict args named = .ok values) :
    values.length = ds.length := by
  unfold packArgs at h
  rw [String.toList_ofList, String.length_ofList] at h
  obtain ⟨slots, hslots, hrest⟩ := except_bind_eq_ok.mp h
  obtain ⟨slots', hnamed, hend⟩ := except_bind_eq_ok.mp hrest
  rw [← Except.ok.inj hend, List.length_map, packAllNamed_length hnamed]
  exact packUnnamed_length hplain (Nat.lt_succ_self _) hslots

end Packing

end Language

end AviSynth
