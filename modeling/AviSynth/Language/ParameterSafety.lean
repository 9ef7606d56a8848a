import AviSynth.Language.ParameterItems
import AviSynth.Language.ParameterScans

/-!
# Scans of accepted parameter strings

On an accepted string each scan stands at the start of an item or at a modifier whenever a round
begins. It therefore comes to its end inside of the string, and computes what the functions on
the characters compute.
-/

namespace AviSynth

namespace Language

variable {F D : Type} {items : List ParameterItem} {rounds : ℕ} {args : List (AVSValue F D)}
  {p : Cursor} {strict : Bool}

section Reading

variable {previous : Option Char} {c : Char} {rest : List Char}

@[simp] theorem Cursor.read_cons : (Cursor.mk previous (c :: rest)).read = some c := rfl

@[simp] theorem Cursor.next_cons :
    (Cursor.mk previous (c :: rest)).next = (.ok ⟨some c, rest⟩ : Scan F D Cursor) := rfl

@[simp] theorem Cursor.peek_cons :
    (Cursor.mk previous (c :: rest)).peek = (.ok rest.head? : Scan F D (Option Char)) := rfl

@[simp] theorem Cursor.back_some :
    (Cursor.mk (some c) rest).back = (.ok c : Scan F D Char) := rfl

/-- A name without a bracket ends at the bracket behind it. -/
theorem Cursor.findBracket_append (previous : Option Char) {name : List Char} (h : ']' ∉ name)
    (rest : List Char) : ∃ q, (Cursor.mk previous (name ++ ']' :: rest)).findBracket =
      some (name, ⟨q, ']' :: rest⟩) := by
  induction name generalizing previous with
  | nil => exact ⟨previous, rfl⟩
  | cons d name ih =>
    simp only [List.mem_cons, not_or] at h
    obtain ⟨q, hq⟩ := ih (some d) h.2
    have hd : d ≠ ']' := Ne.symm h.1
    refine ⟨q, ?_⟩
    unfold Cursor.findBracket at hq ⊢
    simp only [List.cons_append, Cursor.bracketFrom, if_neg hd] at hq ⊢
    rw [hq]
    rfl

end Reading

namespace ParameterItem

variable (item : ParameterItem)

/-- A type is no bracket. -/
theorem type_ne_bracket : item.type ≠ '[' := by
  intro heq
  have htype := item.isType
  rw [heq] at htype
  revert htype
  decide +kernel

/-- The types are those that `TypeMatch` knows. -/
theorem type_known : item.type = '.' ∨ isTypeLetter item.type = true := by
  have hall : ("bifsc.na".toList.all fun c => c == '.' || isTypeLetter c) = true := by
    decide +kernel
  have hmem : item.type ∈ "bifsc.na".toList := List.contains_iff_mem.mp item.isType
  have htype := List.all_eq_true.mp hall item.type hmem
  simpa using htype

end ParameterItem

/-- No modifier begins an item. -/
theorem itemsText_head (items : List ParameterItem) :
    ∀ c ∈ (itemsText items).head?, c ≠ '*' ∧ c ≠ '+' := by
  cases items with
  | nil => nofun
  | cons item items =>
    intro c hc
    cases hname : item.name with
    | none =>
      obtain rfl : item.type = c := by
        simpa [ParameterItem.text, ParameterItem.typeText, hname] using hc
      exact not_modifier_of_specifier item.isType
    | some name =>
      obtain rfl : '[' = c := by simpa [ParameterItem.text, hname] using hc
      decide

/-- An item does not begin with a modifier. -/
theorem isModifierAt_items (items : List ParameterItem) :
    isModifierAt (itemsText items).head? = false := by
  cases hfirst : (itemsText items).head? with
  | none => rfl
  | some c => simpa [isModifierAt] using itemsText_head items c hfirst

/-- Where a round of a scan begins: at the start of the items that are left, or at a modifier
before them. -/
inductive OnItems : Cursor → List ParameterItem → Prop
  | item {previous : Option Char} (items : List ParameterItem) :
      OnItems ⟨previous, itemsText items⟩ items
  | modifier {type c : Char} (hc : c = '*' ∨ c = '+') (items : List ParameterItem) :
      OnItems ⟨some type, c :: itemsText items⟩ items

/-- Behind a type is a modifier exactly if the item has it. -/
theorem ParameterItem.modifier_head (item : ParameterItem) (items : List ParameterItem) {c : Char}
    (hc : c = '*' ∨ c = '+') :
    (item.modifier.toList ++ itemsText items).head? = some c ↔ item.modifier = some c := by
  cases hmodifier : item.modifier with
  | some d => simp
  | none =>
    refine ⟨fun h => ?_, nofun⟩
    have hhead := itemsText_head items c h
    rcases hc with rfl | rfl
    · exact absurd rfl hhead.1
    · exact absurd rfl hhead.2

/-- A nameless item is optional if it may be repeated zero times. -/
theorem allOptional_cons {c : Char} (hc : c ≠ '[') (rest : List Char) :
    allOptional (c :: rest) = if rest.head? = some '*' then allOptional rest.tail else false := by
  rw [allOptional.eq_def]
  split <;> simp_all
  intro h
  cases rest <;> simp_all

/-- At the start of an item that is not named, the scan over the rest ends as the function does. -/
theorem allOptionalScan_items (items : List ParameterItem) {previous : Option Char}
    (hrounds : (itemsText items).length < rounds)
    (hfirst : ∃ c rest, itemsText items = c :: rest ∧ c ≠ '[') :
    allOptionalScan rounds ⟨previous, itemsText items⟩ =
      (.ok (allOptional (itemsText items)) : Scan F D Bool) := by
  induction items generalizing previous rounds with
  | nil =>
    obtain ⟨c, rest, hrest, -⟩ := hfirst
    cases hrest
  | cons item items ih =>
    obtain ⟨rounds, rfl⟩ : ∃ n, rounds = n + 1 := ⟨rounds - 1, by omega⟩
    obtain ⟨c, rest, hrest, hc⟩ := hfirst
    have hname : item.name = none := by
      by_contra hname
      obtain ⟨name, hname⟩ := Option.ne_none_iff_exists'.mp hname
      simp only [itemsText_cons, ParameterItem.text, hname, List.cons_append,
        List.cons.injEq] at hrest
      exact hc hrest.1.symm
    have htext : itemsText (item :: items) =
        item.type :: (item.modifier.toList ++ itemsText items) := by
      simp [ParameterItem.text, ParameterItem.typeText, hname]
    rw [htext] at hrounds ⊢
    rw [allOptional_cons item.type_ne_bracket, allOptionalScan, Cursor.peek_cons, Cursor.next_cons]
    by_cases hstar : item.modifier = some '*'
    · have hread : (Cursor.mk (some '*') (itemsText items)).read = (itemsText items).head? := rfl
      simp only [hstar, Option.toList_some, List.cons_append, List.nil_append, List.head?_cons,
        Cursor.next_cons, bind, Except.bind, beq_self_eq_true, if_true, List.tail_cons, hread]
      cases hitems : itemsText items with
      | nil => simp [allOptional, pure, Except.pure]
      | cons d tail =>
        by_cases hd : d = '['
        · simp [hd, allOptional, pure, Except.pure]
        · rw [if_neg (by simp [hd]), ← hitems]
          refine ih ?_ ⟨d, tail, hitems, hd⟩
          simp only [List.length_cons, List.length_append] at hrounds
          omega
    · have hhead : (item.modifier.toList ++ itemsText items).head? ≠ some '*' := fun h =>
        hstar ((item.modifier_head items (Or.inl rfl)).mp h)
      simp only [bind, Except.bind]
      rw [if_neg (by rwa [beq_iff_eq]), if_neg hhead]
      rfl

/-- What follows the loop of `TypeMatch` stays inside of the string. -/
theorem typeMatchEndScan_onItems (hp : OnItems p items) :
    typeMatchEndScan p = (.ok (typeMatchEnd p.rest) : Scan F D Bool) := by
  have hitems (items : List ParameterItem) {previous : Option Char} :
      (if ((Cursor.mk previous (itemsText items)).read == none ||
          (Cursor.mk previous (itemsText items)).read == some '[') = true then pure true
        else allOptionalScan ((itemsText items).length + 1) ⟨previous, itemsText items⟩) =
        (.ok (allOptional (itemsText items)) : Scan F D Bool) := by
    have hread : (Cursor.mk previous (itemsText items)).read = (itemsText items).head? := rfl
    rw [hread]
    cases htext : itemsText items with
    | nil => simp [allOptional, pure, Except.pure]
    | cons d tail =>
      by_cases hd : d = '['
      · simp [hd, allOptional, pure, Except.pure]
      · rw [if_neg (by simp [hd]), ← htext]
        exact allOptionalScan_items items (Nat.lt_succ_self _) ⟨d, tail, htext, hd⟩
  unfold typeMatchEndScan
  cases hp with
  | @item previous =>
    have hhead := itemsText_head items
    have hplain : isModifierAt (Cursor.mk previous (itemsText items)).read = false :=
      isModifierAt_items items
    have hend : typeMatchEnd (itemsText items) = allOptional (itemsText items) := by
      cases htext : itemsText items with
      | nil => rfl
      | cons c rest =>
        rw [htext] at hhead
        obtain ⟨hstar, hplus⟩ := hhead c rfl
        simp [typeMatchEnd, hstar, hplus]
    simp only [hplain, Bool.false_eq_true, if_false, bind, Except.bind, pure, Except.pure, hend]
    exact hitems items
  | modifier hc =>
    rcases hc with rfl | rfl
    · exact hitems items
    · exact hitems items

/-- The name of an item is skipped. -/
theorem skipNameScan_item (item : ParameterItem) (items : List ParameterItem)
    (previous : Option Char) (optional : Bool) :
    ∃ before optional', skipNameScan ⟨previous, itemsText (item :: items)⟩ optional =
        (.ok (⟨before, item.type :: (item.modifier.toList ++ itemsText items)⟩, optional') :
          Scan F D (Cursor × Bool)) ∧
      skipName (itemsText (item :: items)) optional =
        (.ok (item.type :: (item.modifier.toList ++ itemsText items), optional') :
          Result F D (List Char × Bool)) := by
  cases hname : item.name with
  | none =>
    have htext : itemsText (item :: items) =
        item.type :: (item.modifier.toList ++ itemsText items) := by
      simp [ParameterItem.text, ParameterItem.typeText, hname]
    refine ⟨previous, optional, ?_, ?_⟩
    · rw [htext, skipNameScan, Cursor.read_cons, if_neg (by simpa using item.type_ne_bracket)]
      rfl
    · rw [htext, skipName]
      exact fun _ heq => item.type_ne_bracket (List.cons.inj heq).1
  | some name =>
    have hclosed := item.closed name hname
    have htext : itemsText (item :: items) = '[' ::
        (name ++ ']' :: item.type :: (item.modifier.toList ++ itemsText items)) := by
      simp [ParameterItem.text, ParameterItem.typeText, hname]
    obtain ⟨q, hq⟩ := Cursor.findBracket_append (some '[') hclosed
      (item.type :: (item.modifier.toList ++ itemsText items))
    refine ⟨some ']', true, ?_, ?_⟩
    · rw [htext, skipNameScan, Cursor.read_cons, if_pos (by decide)]
      simp only [Cursor.next_cons, bind, Except.bind, hq]
      rfl
    · rw [htext, skipName, splitName_append _ hclosed]

/-- Behind a type is the modifier of the item or the next item. -/
theorem ParameterItem.onItems_tail (item : ParameterItem) (items : List ParameterItem) :
    OnItems ⟨some item.type, item.modifier.toList ++ itemsText items⟩ items := by
  cases hmodifier : item.modifier with
  | none => exact .item items
  | some c =>
    have hc : c = '*' ∨ c = '+' := by
      have hmodifier := item.isModifier c hmodifier
      simpa [isParameterTypeModifier, or_comm] using hmodifier
    exact .modifier hc items

/-- What a round of `TypeMatch` does at a character, once the name and the type before `*` are
passed. -/
def typeMatchRound (strict : Bool)
    (again : Char → List Char → List (AVSValue F D) → Result F D Bool) (previous c : Char)
    (params : List Char) (arg : AVSValue F D) (args : List (AVSValue F D)) (optional : Bool) :
    Result F D Bool :=
  if c == '+' || c == '*' then
    if arg.isArray && previous != '.' then
      if singleTypeMatchArray previous arg strict then again c params args else .ok false
    else if singleTypeMatch previous arg strict then again previous (c :: params) args
    else again c params (arg :: args)
  else if c == '.' then again c params args
  else if isTypeLetter c then
    if params.head? == some '+' && arg.isArray && c != 'a' then again c params (arg :: args)
    else if (!optional || arg.defined) && !singleTypeMatch c arg strict then .ok false
    else again c params args
  else .error (.avisynthError "TypeMatch: invalid character in parameter list (bug in filter)")

/-- One round of the loop. -/
theorem typeMatchLoop_round {previous c : Char} {params tail : List Char} {arg : AVSValue F D}
    {optional optional' : Bool}
    (hskip : (skipName params optional : Result F D _) = .ok (c :: tail, optional'))
    (htail : tail.head? ≠ some '*') :
    typeMatchLoop strict (rounds + 1) previous params (arg :: args) optional =
      typeMatchRound strict
        (fun previous params args => typeMatchLoop strict rounds previous params args optional')
        previous c tail arg args optional' := by
  rw [typeMatchLoop, hskip]
  cases tail with
  | nil => rfl
  | cons d tail =>
    have hd : d ≠ '*' := by simpa using htail
    simp [bind, Except.bind, typeMatchRound, hd]

/-- The round of an item that may be missing. -/
theorem typeMatchLoop_star {previous c : Char} {params tail : List Char} {arg : AVSValue F D}
    {optional optional' : Bool}
    (hskip : (skipName params optional : Result F D _) = .ok (c :: '*' :: tail, optional')) :
    typeMatchLoop strict (rounds + 1) previous params (arg :: args) optional =
      typeMatchRound strict
        (fun previous params args => typeMatchLoop strict rounds previous params args optional')
        c '*' tail arg args optional' := by
  rw [typeMatchLoop, hskip]
  rfl
theorem itemsText_cons_head (item : ParameterItem) (items : List ParameterItem) :
    ∃ c rest, itemsText (item :: items) = c :: rest := by
  rw [itemsText_cons, ParameterItem.text]
  cases item.name <;> exact ⟨_, _, rfl⟩

/-- From an item or a modifier on, the loop of `TypeMatch` ends with an answer. -/
theorem typeMatchScan_onItems {optional : Bool} (hp : OnItems p items)
    (hrounds : args.length + p.rest.length < rounds) :
    ∃ b, typeMatchScan strict rounds p args optional = .ok b ∧
      typeMatchLoop strict rounds (p.previous.getD '\x00') p.rest args optional = .ok b := by
  induction rounds generalizing p items args optional with
  | zero => omega
  | succ rounds ih =>
    cases args with
    | nil => exact ⟨_, typeMatchEndScan_onItems hp, rfl⟩
    | cons arg args =>
      rw [List.length_cons] at hrounds
      cases hp with
      | @modifier type c hc =>
        rw [List.length_cons] at hrounds
        have hbracket : (some c == some '[') = false := by rcases hc with rfl | rfl <;> decide
        have hmodifier : (c == '+' || c == '*') = true := by rcases hc with rfl | rfl <;> decide
        have hzero : (some c == none) = false := rfl
        have htail : (itemsText items).head? ≠ some '*' := fun h =>
          (itemsText_head items '*' h).1 rfl
        have hstar : ((itemsText items).head? == some '*') = false := by simpa using htail
        have hskip : (skipName (c :: itemsText items) optional : Result F D _) =
            .ok (c :: itemsText items, optional) := by
          rcases hc with rfl | rfl <;> rfl
        rw [typeMatchLoop_round hskip htail, typeMatchRound]
        simp only [typeMatchScan, skipNameScan, Cursor.read_cons, hbracket, hstar, hzero,
          Cursor.peek_cons, bind, Except.bind, pure, Except.pure, Cursor.back_some, hmodifier,
          if_true, Cursor.next_cons, Bool.false_eq_true, if_false, Option.getD_some]
        have hnext : OnItems ⟨some c, itemsText items⟩ items := .item items
        split_ifs
        · exact ih hnext (by dsimp only; omega)
        · exact ⟨false, rfl, rfl⟩
        · exact ih (.modifier hc items) (by rw [List.length_cons]; omega)
        · exact ih hnext (by rw [List.length_cons]; dsimp only; omega)
      | @item previous =>
        cases items with
        | nil => exact ⟨false, rfl, rfl⟩
        | cons item items =>
          obtain ⟨first, rest, hfirst⟩ := itemsText_cons_head item items
          obtain ⟨before, optional', hscan, hskip⟩ :=
            skipNameScan_item (F := F) (D := D) item items previous optional
          have hlength : (item.modifier.toList ++ itemsText items).length + 1 ≤
              (itemsText (item :: items)).length := by
            rw [itemsText_cons, ParameterItem.text]
            cases item.name with
            | none => simp [ParameterItem.typeText]
            | some name =>
              simp only [ParameterItem.typeText, List.length_append, List.length_cons]
              omega
          dsimp only at hrounds
          have hzero : ((Cursor.mk previous (itemsText (item :: items))).read == none) = false := by
            rw [hfirst]
            rfl
          by_cases hstar : item.modifier = some '*'
          · -- the type is passed, and the round is at the modifier
            rw [hstar] at hscan hskip hlength
            simp only [Option.toList_some, List.cons_append, List.nil_append,
              List.length_cons] at hscan hskip hlength
            have hat : OnItems ⟨some item.type, '*' :: itemsText items⟩ items :=
              .modifier (Or.inl rfl) items
            have hnext : OnItems ⟨some '*', itemsText items⟩ items := .item items
            rw [typeMatchLoop_star hskip, typeMatchRound]
            simp only [typeMatchScan, hzero, hscan, Cursor.peek_cons, bind, Except.bind, pure,
              Except.pure, Cursor.next_cons, Cursor.read_cons, Cursor.back_some, List.head?_cons,
              beq_self_eq_true, Bool.or_true, if_true, Bool.false_eq_true, if_false]
            split_ifs
            · exact ih hnext (by dsimp only; omega)
            · exact ⟨false, rfl, rfl⟩
            · exact ih hat (by rw [List.length_cons]; omega)
            · exact ih hnext (by rw [List.length_cons]; dsimp only; omega)
          · have htail : (item.modifier.toList ++ itemsText items).head? ≠ some '*' := fun h =>
              hstar ((item.modifier_head items (Or.inl rfl)).mp h)
            obtain ⟨hnotStar, hnotPlus⟩ := not_modifier_of_specifier item.isType
            have hmodifier : (item.type == '+' || item.type == '*') = false := by
              simp [hnotStar, hnotPlus]
            have hpeek : ((item.modifier.toList ++ itemsText items).head? == some '*') = false := by
              simpa using htail
            have hnext := item.onItems_tail items
            rw [typeMatchLoop_round hskip htail, typeMatchRound]
            simp only [typeMatchScan, hzero, hscan, Cursor.peek_cons, bind, Except.bind, pure,
              Except.pure, Cursor.next_cons, Cursor.read_cons, hpeek, hmodifier, Bool.false_eq_true,
              if_false]
            split_ifs with hpoint hletter hplus hmatch
            · exact ih hnext (by dsimp only; omega)
            · exact ih hnext (by rw [List.length_cons]; dsimp only; omega)
            · exact ⟨false, rfl, rfl⟩
            · exact ih hnext (by dsimp only; omega)
            · exact absurd item.type_known (by simp_all)

/-- The item at which a round begins: it has no name, or the name is in front. -/
theorem ParameterItem.text_cases (item : ParameterItem) (items : List ParameterItem) :
    (item.name = none ∧
      itemsText (item :: items) = item.type :: (item.modifier.toList ++ itemsText items)) ∨
    ∃ name, item.name = some name ∧ ']' ∉ name ∧ itemsText (item :: items) =
      '[' :: (name ++ ']' :: item.type :: (item.modifier.toList ++ itemsText items)) := by
  cases hname : item.name with
  | none => simp [ParameterItem.text, ParameterItem.typeText, hname]
  | some name =>
    simp [ParameterItem.text, ParameterItem.typeText, hname, item.closed name hname]

/-- Characters that open no name are passed over. -/
theorem hasParameterScan_pass (name : String) (rounds : ℕ) (previous : Option Char) {c : Char}
    (hc : c ≠ '[') (rest : List Char) :
    (hasParameterScan name (rounds + 1) ⟨previous, c :: rest⟩ : Scan F D Bool) =
        hasParameterScan name rounds ⟨some c, rest⟩ ∧
      hasParameter name (rounds + 1) (c :: rest) = hasParameter name rounds rest := by
  constructor
  · simp [hasParameterScan, bind, Except.bind]
  · simp [hasParameter]

/-- The search of `ArgNameMatch` ends at the name or behind the last item. -/
theorem hasParameterScan_onItems {name : String} (hp : OnItems p items)
    (hrounds : p.rest.length < rounds) :
    hasParameterScan name rounds p = (.ok (hasParameter name rounds p.rest) : Scan F D Bool) := by
  induction rounds generalizing p items with
  | zero => omega
  | succ rounds ih =>
    cases hp with
    | @modifier type c hc =>
      have hnext : OnItems ⟨some c, itemsText items⟩ items := .item items
      have hrest := ih hnext (by rw [List.length_cons] at hrounds; dsimp only; omega)
      rcases hc with rfl | rfl <;> exact hrest
    | @item previous =>
      cases items with
      | nil => rfl
      | cons item items =>
        have hnext := item.onItems_tail items
        dsimp only at hrounds ⊢
        obtain ⟨hname, htext⟩ | ⟨found, hname, hclosed, htext⟩ := item.text_cases items
        · rw [htext, List.length_cons] at hrounds
          have hpass := hasParameterScan_pass (F := F) (D := D) name rounds previous
            item.type_ne_bracket (item.modifier.toList ++ itemsText items)
          rw [htext, hpass.1, hpass.2]
          exact ih hnext (by dsimp only; omega)
        · rw [htext] at hrounds
          simp only [List.length_cons, List.length_append] at hrounds
          have hrest := ih hnext (by simp only [List.length_append]; omega)
          obtain ⟨q, hq⟩ := Cursor.findBracket_append (some '[') hclosed
            (item.type :: (item.modifier.toList ++ itemsText items))
          rw [htext]
          simp only [hasParameterScan, Cursor.read_cons, Cursor.next_cons, bind, Except.bind, hq,
            hasParameter, splitName_append _ hclosed, List.tail_cons]
          cases sameName name found with
          | true => rfl
          | false => simpa using hrest

/-- `ArgNameMatch` ends with the answer of the function. -/
theorem argNameMatchOf_items {params : String} (hparams : params.toList = itemsText items)
    (argNames : List (Option String)) :
    argNameMatchOf params argNames = (.ok (argNameMatch params argNames) : Scan F D Bool) := by
  induction argNames with
  | nil => rfl
  | cons argName argNames ih =>
    cases argName with
    | none => exact ih
    | some name =>
      have hstart : OnItems (Cursor.start params) items := by
        rw [Cursor.start, hparams]
        exact .item items
      have hscan : (hasParameterScan name (params.length + 1) (Cursor.start params) :
          Scan F D Bool) = .ok (hasParameter name (params.length + 1) params.toList) :=
        hasParameterScan_onItems hstart (Nat.lt_succ_self _)
      rw [argNameMatchOf, hscan]
      simp only [bind, Except.bind, argNameMatch, List.all_cons]
      cases hasParameter name (params.length + 1) params.toList with
      | true => simpa [argNameMatch] using ih
      | false => rfl

/-- Without a modifier a parameter takes the next argument, if there is one. -/
theorem packParameter_items (name : String) (strict : Bool) (type : Char)
    (items : List ParameterItem) (args : List (AVSValue F D)) (lastWasNamed : Bool) :
    packParameter name strict type (itemsText items) args lastWasNamed =
      .ok (match args with
        | [] => (.undefined, false)
        | arg :: _ => (arg, true), itemsText items, args.tail) := by
  have hhead := itemsText_head items
  cases htext : itemsText items with
  | nil => cases args <;> rfl
  | cons c rest =>
    rw [htext] at hhead
    obtain ⟨hstar, hplus⟩ := hhead c rfl
    cases args <;> simp [packParameter, hstar, hplus]

/-- Where a round of the packer begins, with the number of the values to come: at the start of an
item, or at its type behind its name. -/
inductive PacksFrom : Cursor → ℕ → Prop
  | item {previous : Option Char} (items : List ParameterItem) :
      PacksFrom ⟨previous, itemsText items⟩ items.length
  | type {before : Option Char} (item : ParameterItem) (items : List ParameterItem) :
      PacksFrom ⟨before, item.type :: (item.modifier.toList ++ itemsText items)⟩
        (items.length + 1)

/-- The packer does what it does on the characters, with a value for each item. -/
def PacksAlike (scan : Scan F D (List (Slot F D))) (result : Result F D (List (Slot F D)))
    (count : ℕ) : Prop :=
  scan = .ofResult result ∧ ∀ slots, result = .ok slots → slots.length = count

theorem PacksAlike.cons {scan : Scan F D (List (Slot F D))}
    {result : Result F D (List (Slot F D))} {count : ℕ} (h : PacksAlike scan result count)
    (slot : Slot F D) :
    PacksAlike (List.cons slot <$> scan) (List.cons slot <$> result) (count + 1) := by
  obtain ⟨hscan, hcount⟩ := h
  rw [hscan]
  cases result with
  | error e => exact ⟨rfl, nofun⟩
  | ok slots =>
    refine ⟨rfl, fun slots' h => ?_⟩
    cases h
    rw [List.length_cons, hcount slots rfl]

/-- The scan packs as the items do. -/
theorem packUnnamedScan_packsFrom {name : String} {count : ℕ} {lastWasNamed : Bool}
    (hp : PacksFrom p count) (hrounds : p.rest.length < rounds) :
    PacksAlike (packUnnamedScan name strict rounds p args lastWasNamed)
      (packUnnamed name strict rounds p.rest args lastWasNamed) count := by
  induction rounds generalizing p count args lastWasNamed with
  | zero => omega
  | succ rounds ih =>
    have htype {before : Option Char} (item : ParameterItem) (items : List ParameterItem)
        (hlength : (item.modifier.toList ++ itemsText items).length < rounds) :
        PacksAlike
          (packUnnamedScan name strict (rounds + 1)
            ⟨before, item.type :: (item.modifier.toList ++ itemsText items)⟩ args lastWasNamed)
          (packUnnamed name strict (rounds + 1)
            (item.type :: (item.modifier.toList ++ itemsText items)) args lastWasNamed)
          (items.length + 1) := by
      have hrest {previous : Option Char} (args : List (AVSValue F D)) :
          PacksAlike (packUnnamedScan name strict rounds ⟨previous, itemsText items⟩ args false)
            (packUnnamed name strict rounds (itemsText items) args false) items.length :=
        ih (.item items) (by simp only [List.length_append] at hlength; dsimp only; omega)
      have hbracket := item.type_ne_bracket
      cases hmodifier : item.modifier with
      | none =>
        have hread : (Cursor.mk (some item.type) (itemsText items)).read =
            (itemsText items).head? := rfl
        simp only [packUnnamedScan, packUnnamed, Cursor.read_cons, Cursor.peek_cons,
          Cursor.next_cons, Option.toList_none, List.nil_append,
          packParameter_items, bind, Except.bind, isModifierAt_items, hread, Bool.false_eq_true,
          if_false, pure, Except.pure]
        exact (hrest _).cons _
      | some c =>
        have hc : c = '*' ∨ c = '+' := by
          have hmodifier := item.isModifier c hmodifier
          simpa [isParameterTypeModifier, or_comm] using hmodifier
        have hat : isModifierAt (some c) = true := by rcases hc with rfl | rfl <;> rfl
        have hpack : packParameter name strict item.type (c :: itemsText items) args lastWasNamed =
            (packArray name strict item.type (some c == some '+') args lastWasNamed).map
              fun r => (r.1, itemsText items, r.2) := by
          rcases hc with rfl | rfl
          · rfl
          · rfl
        simp only [packUnnamedScan, packUnnamed, Cursor.read_cons, Cursor.peek_cons,
          Cursor.next_cons, Option.toList_some, List.cons_append, List.nil_append,
          List.head?_cons, hat, hpack, bind, Except.bind, if_true]
        cases packArray name strict item.type (some c == some '+') args lastWasNamed with
        | error e => exact ⟨rfl, fun slots h => by cases h⟩
        | ok result => exact (hrest _).cons _
    cases hp with
    | type item items => exact htype item items (by simpa using hrounds)
    | @item previous items =>
      cases items with
      | nil =>
        cases args with
        | nil => exact ⟨rfl, fun slots h => by cases h; rfl⟩
        | cons arg args => exact ⟨rfl, fun slots h => by cases h⟩
      | cons item items =>
        dsimp only at hrounds ⊢
        rw [List.length_cons]
        obtain ⟨hname, htext⟩ | ⟨found, hname, hclosed, htext⟩ := item.text_cases items
        · rw [htext] at hrounds ⊢
          exact htype item items (by simpa using hrounds)
        · rw [htext] at hrounds ⊢
          obtain ⟨q, hq⟩ := Cursor.findBracket_append (some '[') hclosed
            (item.type :: (item.modifier.toList ++ itemsText items))
          simp only [packUnnamedScan, Cursor.read_cons, Cursor.next_cons, bind, Except.bind, hq,
            packUnnamed, splitName_append _ hclosed]
          refine ih (.type item items) ?_
          simp only [List.length_cons, List.length_append] at hrounds ⊢
          omega

/-- The search for a named argument finds the parameter that the function finds, with the number
of an item. -/
theorem findParameterScan_onItems (name : String) (index : ℕ) (hp : OnItems p items)
    (hrounds : p.rest.length < rounds) :
    ∃ found : Option (ℕ × Option Char × Option Char),
      findParameterScan name rounds index p = (.ok found : Scan F D _) ∧
        findParameter name rounds index p.rest = found.map (fun r =>
          (r.1, r.2.1.getD '\x00', r.2.2.filter fun c => c == '*' || c == '+')) ∧
        ∀ r ∈ found, r.1 < index + items.length := by
  induction rounds generalizing index p items with
  | zero => omega
  | succ rounds ih =>
    cases hp with
    | @modifier type c hc =>
      have hnext : OnItems ⟨some c, itemsText items⟩ items := .item items
      rw [List.length_cons] at hrounds
      have hrest := ih index hnext (by dsimp only; omega)
      rcases hc with rfl | rfl <;> exact hrest
    | @item previous =>
      cases items with
      | nil => exact ⟨none, rfl, rfl, nofun⟩
      | cons item items =>
        have hnext := item.onItems_tail items
        dsimp only at hrounds ⊢
        obtain ⟨hname, htext⟩ | ⟨quoted, hname, hclosed, htext⟩ := item.text_cases items
        · rw [htext, List.length_cons] at hrounds
          obtain ⟨hnotStar, hnotPlus⟩ := not_modifier_of_specifier item.isType
          have hbracket := item.type_ne_bracket
          obtain ⟨r, hscan, hresult, hindex⟩ := ih (index + 1) hnext (by dsimp only; omega)
          refine ⟨r, ?_, ?_, fun x hx => ?_⟩
          · rw [htext, ← hscan]
            simp [findParameterScan, hnotStar, hnotPlus, bind, Except.bind]
          · rw [htext, ← hresult]
            simp [findParameter, hnotStar, hnotPlus]
          · have hlt := hindex x hx
            rw [List.length_cons]
            omega
        · rw [htext] at hrounds
          simp only [List.length_cons, List.length_append] at hrounds
          obtain ⟨q, hq⟩ := Cursor.findBracket_append (some '[') hclosed
            (item.type :: (item.modifier.toList ++ itemsText items))
          obtain ⟨r, hscan, hresult, hindex⟩ := ih (index + 1) hnext
            (by simp only [List.length_append]; omega)
          rw [htext]
          simp only [findParameterScan, Cursor.read_cons, Cursor.next_cons, bind, Except.bind, hq,
            findParameter, splitName_append _ hclosed, List.tail_cons, Cursor.peek_cons,
            List.headD_cons]
          cases hsame : sameName name quoted with
          | true =>
            refine ⟨some (index, some item.type, (item.modifier.toList ++ itemsText items).head?),
              rfl, rfl, fun x hx => ?_⟩
            cases hx
            rw [List.length_cons]
            omega
          | false =>
            refine ⟨r, hscan, hresult, fun x hx => ?_⟩
            have hlt := hindex x hx
            rw [List.length_cons]
            omega

section Accepted

variable {params : String} {items : List ParameterItem}

section

variable (hparams : params.toList = itemsText items)
include hparams

/-- The scan starts on the items. -/
theorem onItems_start :
    OnItems (Cursor.start params) items := by
  rw [Cursor.start, hparams]
  exact .item items

/-- `TypeMatch` ends with the answer of the function. -/
theorem typeMatchOf_items (args : List (AVSValue F D)) (strict : Bool) :
    ∃ b, typeMatchOf params args strict = .ok b ∧ typeMatch params args strict = .ok b := by
  have hlength : (Cursor.start params).rest.length = params.length := rfl
  exact typeMatchScan_onItems (onItems_start hparams) (by omega)

/-- It packs all unnamed arguments as the items do. -/
theorem packUnnamedScan_items (name : String) (strict : Bool) (args : List (AVSValue F D)) :
    PacksAlike (packUnnamedScan name strict (params.length + 1) (Cursor.start params) args false)
      (packUnnamed name strict (params.length + 1) params.toList args false) items.length := by
  have hstart : PacksFrom (Cursor.start params) items.length := by
    rw [Cursor.start, hparams]
    exact .item items
  exact packUnnamedScan_packsFrom hstart (Nat.lt_succ_self _)

/-- A named argument goes where the function puts it, if there is a value for each item. -/
theorem packNamedScan_items {slots : List (Slot F D)} (hslots : slots.length = items.length)
    (name argName : String) (arg : AVSValue F D) :
    packNamedScan name params slots argName arg =
      .ofResult (packNamed name params slots argName arg) := by
  have hrounds : (Cursor.start params).rest.length < params.length + 1 := Nat.lt_succ_self _
  obtain ⟨found, hscan, hfind, hindex⟩ := findParameterScan_onItems (F := F) (D := D) argName
    0 (onItems_start hparams) hrounds
  have hrest : (Cursor.start params).rest = params.toList := rfl
  rw [hrest] at hfind
  rw [packNamedScan, packNamed, hscan, hfind]
  cases found with
  | none => rfl
  | some r =>
    obtain ⟨index, type, kind⟩ := r
    have hlt : index < slots.length := by
      have hlt := hindex _ rfl
      dsimp only at hlt
      omega
    simp only [bind, Except.bind, Option.map_some, List.getElem?_eq_getElem hlt,
      List.getD_eq_getElem?_getD, Option.getD_some]
    split_ifs
    · rfl
    · cases namedValue name argName (type.getD '\x00')
        (kind.filter fun c => c == '*' || c == '+') arg <;> rfl

/-- So it does the named ones. -/
theorem packAllNamedScan_items (name : String) (named : List (Option String × AVSValue F D))
    {slots : List (Slot F D)} (hslots : slots.length = items.length) :
    PacksAlike (packAllNamedScan name params slots named) (packAllNamed name params slots named)
      items.length := by
  induction named generalizing slots with
  | nil =>
    refine ⟨rfl, fun slots' h => ?_⟩
    cases h
    exact hslots
  | cons arg named ih =>
    obtain ⟨argName, arg⟩ := arg
    cases argName with
    | none => exact ih hslots
    | some argName =>
      rw [packAllNamedScan, packAllNamed, packNamedScan_items hparams hslots]
      cases hpack : packNamed name params slots argName arg with
      | error e => exact ⟨rfl, nofun⟩
      | ok slots' => exact ih ((packNamed_length hpack).trans hslots)

/-- The packing of `Invoke_` does what it does on the characters, with a value for each item. -/
theorem packArgsOf_items (name : String) (strict : Bool) (args : List (AVSValue F D))
    (named : List (Option String × AVSValue F D)) :
    packArgsOf name params strict args named = .ofResult (packArgs name params strict args named) ∧
      ∀ values, packArgsOf name params strict args named = .ok values →
        values.length = items.length := by
  obtain ⟨hscan, hcount⟩ := packUnnamedScan_items hparams name strict args
  rw [packArgsOf, packArgs, hscan]
  cases hpack : packUnnamed name strict (params.length + 1) params.toList args false with
  | error e => exact ⟨rfl, nofun⟩
  | ok slots =>
    obtain ⟨hnamed, hcount⟩ := packAllNamedScan_items hparams name named (hcount slots hpack)
    simp only [bind, Except.bind, Scan.ofResult, hnamed]
    cases hall : packAllNamed name params slots named with
    | error e => exact ⟨rfl, nofun⟩
    | ok slots' =>
      refine ⟨rfl, fun values h => ?_⟩
      cases h
      rw [List.length_map, hcount slots' hall]

end

end Accepted

/-- The scan ends inside of the string, without an error that blames the parameter string. -/
def Scan.Safe {α : Type} (scan : Scan F D α) : Prop :=
  ∀ fault, scan = .error fault → ∃ e, fault = .raised e

/-- A result is safe. -/
theorem Scan.safe_ofResult {α : Type} (result : Result F D α) :
    (Scan.ofResult result).Safe := by
  intro fault h
  cases result with
  | ok x => cases h
  | error e =>
    cases h
    exact ⟨e, rfl⟩

/-- The accepted strings are the sequences of items. On each of them `TypeMatch` and
`ArgNameMatch` end with an answer, and the packing of `Invoke_` ends with a value for each item or
with an error that is none of the scan. -/
theorem parameterStrings_scanned (params : String) :
    (isValidParameterString params = true ↔ ∃ items, params.toList = itemsText items) ∧
      (isValidParameterString params = true →
        ∀ (args : List (AVSValue F D)) (strict : Bool) (argNames : List (Option String))
          (name : String) (named : List (Option String × AVSValue F D)),
          (∃ b, typeMatchOf params args strict = .ok b) ∧
            (∃ b, (argNameMatchOf params argNames : Scan F D Bool) = .ok b) ∧
            (packArgsOf name params strict args named).Safe ∧
            ∀ items values, params.toList = itemsText items →
              packArgsOf name params strict args named = .ok values →
              values.length = items.length) := by
  refine ⟨isValidParameterString_iff_items, fun hvalid args strict argNames name named => ?_⟩
  obtain ⟨items, hitems⟩ := isValidParameterString_iff_items.mp hvalid
  obtain ⟨b, hmatch, -⟩ := typeMatchOf_items hitems args strict
  refine ⟨⟨b, hmatch⟩, ⟨_, argNameMatchOf_items hitems argNames⟩, ?_, ?_⟩
  · rw [(packArgsOf_items hitems name strict args named).1]
    exact Scan.safe_ofResult _
  · intro items values hitems
    exact (packArgsOf_items hitems name strict args named).2 values

/-- A clip, more clips and a named array of integers, for one clip and a name in lower case. -/
theorem parameterStrings_scanned_mixed :
    (packArgsOf "F" "cc*[Length]i+" false [.clip 7, .clip 8]
      [(some "length", .int 5)] : Scan Unit Unit (List (AVSValue Unit Unit))).Safe :=
  ((parameterStrings_scanned "cc*[Length]i+").2 (by decide +kernel) [.clip 7, .clip 8] false
    [some "length"] "F" [(some "length", .int 5)]).2.2.1

end Language

end AviSynth
