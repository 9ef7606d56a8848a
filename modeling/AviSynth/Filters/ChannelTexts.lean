import AviSynth.Filters.ChannelLayouts

/-!
# The texts of channel layouts

What a text of joined names stands for, which texts are rejected, and what the
text of a mask is when it is read again.
-/

namespace AviSynth

/-! ## Names and numbers -/

/-- The names of the two tables. -/
def knownNames : List String := channelLayoutMap.map (·.name) ++ channelNames

/-- The text names a layout. -/
def IsKnownName (name : List Char) : Prop := ∃ entry ∈ knownNames, entry.toList = name

/-- A number of channels, which stands for the default layout. -/
def IsChannelCount (name : List Char) : Prop :=
  ∃ number, name = number ++ ['c'] ∧ IsSignedNumeral 10 number

/-- A mask given as a number. -/
def IsMaskNumber (name : List Char) : Prop := IsSignedNumeral 0 name

/-- What a name stands for. -/
inductive Denotes : List Char → ChannelMask → Prop
  | layout {layout} (h : layout ∈ channelLayoutMap) : Denotes layout.name.toList layout.mask
  | channel {i} (h : i < channelNames.length) : Denotes channelNames[i].toList (1#32 <<< i)
  | count {n : ℕ} (hn : n < 2 ^ 31) (hne : avGetDefaultChannelLayout n ≠ 0) :
      Denotes (Nat.toDigits 10 n ++ ['c']) (avGetDefaultChannelLayout n)
  | number {mask} (hne : mask ≠ 0) : Denotes (Nat.toDigits 10 mask.toNat) mask

/-- The tests of the tables see the name alone. -/
theorem isName_append (entry : String) (name rest : List Char) :
    isName entry (name ++ rest) name.length = (entry.toList == name) := by
  rw [isName, List.take_left' rfl]
  by_cases h : entry.toList = name
  · simp [h]
  · simp [h]

theorem find?_channelLayoutMap : ∀ layout ∈ channelLayoutMap,
    channelLayoutMap.find? (·.name.toList == layout.name.toList) = some layout := by
  decide

theorem find?_channelNames : ∀ i (h : i < channelNames.length),
    channelLayoutMap.find? (·.name.toList == channelNames[i].toList) = none ∧
      channelNames.findIdx? (·.toList == channelNames[i].toList) = some i := by
  decide

theorem layout_mask_ne : ∀ layout ∈ channelLayoutMap, layout.mask ≠ 0 := by
  decide

theorem channel_mask_ne : ∀ i < channelNames.length, (1#32 <<< i) ≠ 0 := by
  decide

theorem knownNames_ne_number : ∀ entry ∈ knownNames,
    ∃ c ∈ entry.toList, c.isDigit = false ∧ c ≠ 'c' := by
  have hall : (knownNames.all fun entry =>
      entry.toList.any fun c => !c.isDigit && c != 'c') = true := by decide
  simpa using hall

theorem knownNames_char : ∀ entry ∈ knownNames,
    entry.toList ≠ [] ∧ ∀ c ∈ entry.toList, isSeparator c = false ∧ c ≠ ' ' := by
  have hall : (knownNames.all fun entry => !entry.toList.isEmpty &&
      entry.toList.all fun c => !isSeparator c && c != ' ') = true := by decide
  simpa using hall

theorem knownNames_ne_speakerAll : ∀ entry ∈ knownNames,
    entry.toList.map Char.toLower ≠ "speaker_all".toList := by
  decide

theorem mem_knownNames_of_layout {layout : ChannelLayout} (h : layout ∈ channelLayoutMap) :
    layout.name ∈ knownNames :=
  List.mem_append_left _ (List.mem_map_of_mem h)

theorem mem_knownNames_of_channel {i : ℕ} (h : i < channelNames.length) :
    channelNames[i] ∈ knownNames :=
  List.mem_append_right _ (List.getElem_mem h)

theorem not_isKnownName_of_digits {name : List Char} (h : ∀ c ∈ name, c.isDigit ∨ c = 'c') :
    ¬IsKnownName name := by
  rintro ⟨entry, hentry, rfl⟩
  obtain ⟨c, hc, hdigit, hne⟩ := knownNames_ne_number entry hentry
  obtain h | h := h c hc
  · exact Bool.false_ne_true (hdigit ▸ h)
  · exact hne h

/-! ## One name -/

section

variable (long : LongWidth)

/-- The name of a layout gives its mask. -/
theorem getChannelLayoutSingle_layout {layout : ChannelLayout} (h : layout ∈ channelLayoutMap)
    (rest : List Char) :
    getChannelLayoutSingle long (layout.name.toList ++ rest) layout.name.toList.length =
      layout.mask := by
  unfold getChannelLayoutSingle
  simp only [isName_append]
  rw [find?_channelLayoutMap layout h]

/-- The name of a channel gives its bit. -/
theorem getChannelLayoutSingle_channel {i : ℕ} (h : i < channelNames.length) (rest : List Char) :
    getChannelLayoutSingle long (channelNames[i].toList ++ rest) channelNames[i].toList.length =
      1#32 <<< i := by
  obtain ⟨hlayout, hchannel⟩ := find?_channelNames i h
  unfold getChannelLayoutSingle
  simp only [isName_append]
  rw [hlayout, hchannel]

/-- Any other name is read as a number. -/
theorem getChannelLayoutSingle_unknown {name : List Char} (h : ¬IsKnownName name)
    (rest : List Char) :
    getChannelLayoutSingle long (name ++ rest) name.length =
      layoutOfNumber long (name ++ rest) name.length := by
  have hlayout : channelLayoutMap.find? (·.name.toList == name) = none := by
    refine List.find?_eq_none.2 fun layout hmem heq => h ?_
    exact ⟨_, mem_knownNames_of_layout hmem, beq_iff_eq.1 heq⟩
  have hchannel : channelNames.findIdx? (·.toList == name) = none := by
    refine List.findIdx?_eq_none_iff.2 fun channel hmem => beq_eq_false_iff_ne.2 fun heq => h ?_
    exact ⟨_, List.mem_append_right _ hmem, heq⟩
  unfold getChannelLayoutSingle
  simp only [isName_append]
  rw [hlayout, hchannel]

/-- A count gives the default layout. -/
theorem layoutOfNumber_count {n : ℕ} (hn : n < 2 ^ 31) (rest : List Char) :
    layoutOfNumber long (Nat.toDigits 10 n ++ ['c'] ++ rest) (Nat.toDigits 10 n ++ ['c']).length =
      avGetDefaultChannelLayout n := by
  have hlong : n < 2 ^ (long.bits - 1) :=
    hn.trans_le (Nat.pow_le_pow_right (by decide) (by cases long <;> decide))
  have hcount : strtol long.bits 10 (Nat.toDigits 10 n ++ 'c' :: rest) =
      ⟨n, Nat.toDigits 10 n, false⟩ := by
    rw [strtol_toDigits long.bits (.inl rfl) (by simp [digitOf]), saturated_of_lt hlong]
  have hint : (BitVec.ofNat 32 n).toInt = n := by
    have hnat : (BitVec.ofNat 32 n).toNat = n := by
      rw [BitVec.toNat_ofNat, Nat.mod_eq_of_lt (by omega)]
    rw [BitVec.toInt_eq_toNat_of_lt (by omega), hnat]
  simp [layoutOfNumber, hcount, hint]

theorem ten_le_digitOf_of_isSeparator {c : Char} (h : isSeparator c) : 10 ≤ digitOf c := by
  obtain rfl | rfl : c = '+' ∨ c = '|' := by simpa [isSeparator] using h
  · decide
  · decide

/-- A number gives a mask. -/
theorem layoutOfNumber_number {mask : ChannelMask} (hne : mask ≠ 0) {rest : List Char}
    (hrest : ∀ c ∈ rest.head?, isSeparator c) :
    layoutOfNumber long (Nat.toDigits 10 mask.toNat ++ rest) (Nat.toDigits 10 mask.toNat).length =
      mask := by
  have hnat : mask.toNat ≠ 0 := fun hzero => hne (BitVec.eq_of_toNat_eq hzero)
  have hmask : mask.toNat < 2 ^ 32 := mask.isLt
  have hdigit : ∀ c ∈ rest.head?, 10 ≤ digitOf c := fun c hc =>
    ten_le_digitOf_of_isSeparator (hrest c hc)
  -- the number of channels would have one more character
  have hcount : (strtol long.bits 10 (Nat.toDigits 10 mask.toNat ++ rest)).taken =
      Nat.toDigits 10 mask.toNat := by
    rw [strtol_toDigits long.bits (.inl rfl) hdigit, saturated_taken]
  have hlayout : strtol 64 0 (Nat.toDigits 10 mask.toNat ++ rest) =
      ⟨mask.toNat, Nat.toDigits 10 mask.toNat, false⟩ := by
    rw [strtol_toDigits 64 (.inr ⟨rfl, hnat⟩) hdigit, saturated_of_lt (by omega)]
  have hsmall : ¬(mask.toNat : ℤ) > 0xFFFFFFFF := by omega
  simp [layoutOfNumber, hcount, hlayout, hsmall]

/-- A name that denotes a mask is resolved to it, whatever follows the separator. -/
theorem Denotes.getChannelLayoutSingle {name : List Char} {mask : ChannelMask}
    (h : Denotes name mask) (rest : List Char) (hrest : ∀ c ∈ rest.head?, isSeparator c) :
    getChannelLayoutSingle long (name ++ rest) name.length = mask := by
  cases h with
  | layout h => exact getChannelLayoutSingle_layout long h rest
  | channel h => exact getChannelLayoutSingle_channel long h rest
  | count hn _ =>
      rw [getChannelLayoutSingle_unknown, layoutOfNumber_count long hn]
      exact not_isKnownName_of_digits fun c hc =>
        (List.mem_append.1 hc).imp isDigit_of_mem_toDigits List.mem_singleton.1
  | number hne =>
      rw [getChannelLayoutSingle_unknown, layoutOfNumber_number long hne hrest]
      exact not_isKnownName_of_digits fun c hc => .inl (isDigit_of_mem_toDigits hc)

end

theorem not_isSeparator_of_isDigit {c : Char} (h : c.isDigit) : isSeparator c = false := by
  simp [isSeparator, ne_of_isDigit h (d := '+') rfl, ne_of_isDigit h (d := '|') rfl]

namespace Denotes

variable {name : List Char} {mask : ChannelMask}

theorem mask_ne (h : Denotes name mask) : mask ≠ 0 := by
  cases h with
  | layout h => exact layout_mask_ne _ h
  | channel h => exact channel_mask_ne _ h
  | count _ hne => exact hne
  | number hne => exact hne

theorem not_isSeparator (h : Denotes name mask) : ∀ c ∈ name, isSeparator c = false := by
  intro c hc
  cases h with
  | layout h => exact ((knownNames_char _ (mem_knownNames_of_layout h)).2 c hc).1
  | channel h => exact ((knownNames_char _ (mem_knownNames_of_channel h)).2 c hc).1
  | count hn _ =>
      obtain hc | hc := List.mem_append.1 hc
      · exact not_isSeparator_of_isDigit (isDigit_of_mem_toDigits hc)
      · rw [List.mem_singleton.1 hc]
        rfl
  | number hne => exact not_isSeparator_of_isDigit (isDigit_of_mem_toDigits hc)

theorem ne_nil (h : Denotes name mask) : name ≠ [] := by
  cases h with
  | layout h => exact (knownNames_char _ (mem_knownNames_of_layout h)).1
  | channel h => exact (knownNames_char _ (mem_knownNames_of_channel h)).1
  | count hn _ => exact List.append_ne_nil_of_right_ne_nil _ (List.cons_ne_nil _ _)
  | number hne => exact Nat.toDigits_ne_nil

end Denotes

/-! ## Joined names -/

/-- A name together with the mask it stands for. -/
structure LayoutPart where
  text : List Char
  mask : ChannelMask
  denotes : Denotes text mask

/-- Names joined with separators. -/
def joined : List Char → List (Char × List Char) → List Char
  | first, [] => first
  | first, (separator, next) :: rest => first ++ separator :: joined next rest

/-- The text of parts that are joined with separators. -/
def textOf (first : LayoutPart) (rest : List (Char × LayoutPart)) : List Char :=
  joined first.text (rest.map fun part => (part.1, part.2.text))

/-- The channels of all parts. -/
def unionOf (parts : List LayoutPart) : ChannelMask :=
  parts.foldl (fun mask part => mask ||| part.mask) 0

theorem takeWhile_name {name rest : List Char} (hname : ∀ c ∈ name, isSeparator c = false)
    (hrest : ∀ c ∈ rest.head?, isSeparator c) :
    (name ++ rest).takeWhile (!isSeparator ·) = name := by
  rw [List.takeWhile_append_of_pos fun c hc => by rw [hname c hc]; rfl]
  cases rest with
  | nil => simp
  | cons c rest => rw [List.takeWhile_cons_of_neg (by simp [hrest c rfl]), List.append_nil]

section

variable (long : LongWidth)

/-- A round of the loop: the name up to the separator, then the text behind it. -/
theorem layoutLoop_succ (fuel : ℕ) {name : List Char} (rest : List Char) (layout : ChannelMask)
    (hname : ∀ c ∈ name, isSeparator c = false) (hrest : ∀ c ∈ rest.head?, isSeparator c)
    (hne : name ++ rest ≠ []) :
    layoutLoop long (fuel + 1) (name ++ rest) layout =
      if getChannelLayoutSingle long (name ++ rest) name.length = 0 then 0
      else layoutLoop long fuel (rest.drop 1)
        (layout ||| getChannelLayoutSingle long (name ++ rest) name.length) := by
  have htake := takeWhile_name hname hrest
  have hdrop : (name ++ rest).drop (name.length + 1) = rest.drop 1 := by
    rw [List.drop_append]
    simp
  obtain ⟨c, text, heq⟩ := List.exists_cons_of_ne_nil hne
  rw [heq] at htake hdrop ⊢
  rw [layoutLoop, htake, hdrop]

@[simp] theorem layoutLoop_nil (fuel : ℕ) (layout : ChannelMask) :
    layoutLoop long fuel [] layout = layout := by
  cases fuel <;> rfl

/-- The loop collects the masks of the parts; by induction on the parts. -/
theorem layoutLoop_textOf {first : LayoutPart} {rest : List (Char × LayoutPart)}
    (hseparators : ∀ part ∈ rest, isSeparator part.1) {fuel : ℕ}
    (hfuel : (textOf first rest).length ≤ fuel) (layout : ChannelMask) :
    layoutLoop long fuel (textOf first rest) layout =
      (first :: rest.map Prod.snd).foldl (fun mask part => mask ||| part.mask) layout := by
  have hpos := List.length_pos_of_ne_nil first.denotes.ne_nil
  induction rest generalizing first fuel layout with
  | nil =>
      obtain ⟨fuel, rfl⟩ := Nat.exists_eq_succ_of_ne_zero (hpos.trans_le hfuel).ne'
      have hsingle := first.denotes.getChannelLayoutSingle long [] (by simp)
      have hround := layoutLoop_succ long fuel [] layout first.denotes.not_isSeparator
        (by simp) (by simpa using first.denotes.ne_nil)
      rw [hsingle, if_neg first.denotes.mask_ne, List.append_nil, List.drop_nil,
        layoutLoop_nil] at hround
      exact hround
  | cons part rest ih =>
      have htext : textOf first (part :: rest) =
          first.text ++ part.1 :: textOf part.2 rest := rfl
      have hpart : ∀ c ∈ (part.1 :: textOf part.2 rest).head?, isSeparator c := fun c hc => by
        obtain rfl : part.1 = c := by simpa using hc
        exact hseparators part (List.mem_cons_self ..)
      obtain ⟨fuel, rfl⟩ := Nat.exists_eq_succ_of_ne_zero (n := fuel) (by
        rw [htext, List.length_append] at hfuel
        omega)
      rw [htext, List.length_append, List.length_cons] at hfuel
      rw [htext, layoutLoop_succ long fuel _ layout first.denotes.not_isSeparator hpart (by simp),
        first.denotes.getChannelLayoutSingle long _ hpart, if_neg first.denotes.mask_ne,
        List.drop_one, List.tail_cons,
        ih (fun other hother => hseparators other (List.mem_cons_of_mem _ hother)) (by omega) _
          (List.length_pos_of_ne_nil part.2.denotes.ne_nil)]
      rfl

theorem ne_speakerAll_of_mem {text : List Char} {c : Char} (hc : c ∈ text)
    (h : c.toLower ∉ "speaker_all".toList) : text.map Char.toLower ≠ "speaker_all".toList :=
  fun heq => h (heq ▸ List.mem_map_of_mem hc)

theorem ne_speakerAll_of_isDigit {text : List Char} {c : Char} (hc : c ∈ text) (h : c.isDigit) :
    text.map Char.toLower ≠ "speaker_all".toList := by
  obtain ⟨-, hhigh⟩ := isDigit_iff.1 h
  have hlower : c.toLower = c := dif_neg fun hupper => by
    have : 65 ≤ c.toNat := UInt32.le_iff_toNat_le.1 hupper.1
    omega
  have hletters : ("speaker_all".toList.all fun c => !c.isDigit) = true := by decide
  refine ne_speakerAll_of_mem hc fun hmem => Bool.false_ne_true ?_
  have hletter := List.all_eq_true.1 hletters c (hlower ▸ hmem)
  rw [h] at hletter
  exact hletter

theorem Denotes.ne_speakerAll {name : List Char} {mask : ChannelMask} (h : Denotes name mask) :
    name.map Char.toLower ≠ "speaker_all".toList := by
  have hdigits (n : ℕ) : ∃ c ∈ Nat.toDigits 10 n, c.isDigit := by
    obtain ⟨c, digits, heq⟩ := List.exists_cons_of_ne_nil (Nat.toDigits_ne_nil (n := n) (b := 10))
    have hc : c ∈ Nat.toDigits 10 n := heq ▸ List.mem_cons_self ..
    exact ⟨c, hc, isDigit_of_mem_toDigits hc⟩
  cases h with
  | layout h => exact knownNames_ne_speakerAll _ (mem_knownNames_of_layout h)
  | channel h => exact knownNames_ne_speakerAll _ (mem_knownNames_of_channel h)
  | @count n _ _ =>
      obtain ⟨c, hc, hdigit⟩ := hdigits n
      exact ne_speakerAll_of_isDigit (List.mem_append_left _ hc) hdigit
  | number _ =>
      obtain ⟨c, hc, hdigit⟩ := hdigits mask.toNat
      exact ne_speakerAll_of_isDigit hc hdigit

/-- No list of parts is `speaker_all`. -/
theorem textOf_ne_speakerAll {first : LayoutPart} {rest : List (Char × LayoutPart)}
    (hseparators : ∀ part ∈ rest, isSeparator part.1) :
    (textOf first rest).map Char.toLower ≠ "speaker_all".toList := by
  cases rest with
  | nil => exact first.denotes.ne_speakerAll
  | cons part rest =>
      have hmem : part.1 ∈ textOf first (part :: rest) :=
        List.mem_append_right _ (List.mem_cons_self ..)
      refine ne_speakerAll_of_mem hmem ?_
      obtain heq | heq : part.1 = '+' ∨ part.1 = '|' := by
        simpa [isSeparator] using hseparators part (List.mem_cons_self ..)
      · rw [heq]
        decide
      · rw [heq]
        decide

/-- A text of joined names stands for the union of their masks. -/
theorem avGetChannelLayout_textOf (first : LayoutPart) (rest : List (Char × LayoutPart))
    (hseparators : ∀ part ∈ rest, isSeparator part.1) :
    avGetChannelLayout long (textOf first rest) = unionOf (first :: rest.map Prod.snd) := by
  rw [avGetChannelLayout, if_neg (textOf_ne_speakerAll hseparators),
    layoutLoop_textOf long hseparators le_rfl, unionOf]

end

/-! ## Rejected names -/

/-- The names between the separators of a text. Nothing behind the last separator
is no name. -/
inductive IsSegment : List Char → List Char → Prop
  | last {name} (hne : name ≠ []) (hname : ∀ c ∈ name, isSeparator c = false) :
      IsSegment name name
  | first {name separator rest} (hname : ∀ c ∈ name, isSeparator c = false)
      (hseparator : isSeparator separator) : IsSegment (name ++ separator :: rest) name
  | later {name separator rest segment} (hname : ∀ c ∈ name, isSeparator c = false)
      (hseparator : isSeparator separator) (h : IsSegment rest segment) :
      IsSegment (name ++ separator :: rest) segment

theorem take_append_getElem? {text : List Char} {c : Char} {n : ℕ} (h : text[n]? = some c) :
    text.take (n + 1) = text.take n ++ [c] := by
  rw [List.take_add_one, h, Option.toList_some]

/-- What is no name and no number is rejected. -/
theorem layoutOfNumber_eq_zero (long : LongWidth) {name rest : List Char}
    (hcount : ¬IsChannelCount name) (hnumber : ¬IsMaskNumber name) :
    layoutOfNumber long (name ++ rest) name.length = 0 := by
  have hinit {taken : List Char} (h : taken <+: name ++ rest) {n : ℕ} (hn : taken.length = n) :
      (name ++ rest).take n = taken := hn ▸ (List.prefix_iff_eq_take.1 h).symm
  rw [layoutOfNumber]
  dsimp only
  split_ifs with hc hl hbig
  · simp only [Bool.and_eq_true, beq_iff_eq] at hc
    obtain ⟨⟨-, hlength⟩, hchar⟩ := hc
    obtain ⟨-, hzero⟩ | ⟨hnumeral, htaken⟩ := strtol_taken long.bits 10 (name ++ rest)
    · rw [hzero]
      decide
    · refine absurd ⟨_, ?_, hnumeral⟩ hcount
      calc name = (name ++ rest).take name.length := (List.take_left' rfl).symm
        _ = (strtol long.bits 10 (name ++ rest)).taken ++ ['c'] := by
            rw [← hlength, take_append_getElem? hchar, hinit htaken rfl]
  · rfl
  · simp only [Bool.and_eq_true, beq_iff_eq] at hl
    obtain ⟨-, hzero⟩ | ⟨hnumeral, htaken⟩ := strtol_taken 64 0 (name ++ rest)
    · rw [hzero]
      rfl
    · refine absurd ?_ hnumber
      have hname : name = (strtol 64 0 (name ++ rest)).taken := by
        rw [← hinit htaken hl.2, List.take_left' rfl]
      exact hname ▸ hnumeral
  · rfl

/-- One name that is rejected makes the loop return nothing. -/
theorem layoutLoop_eq_zero (long : LongWidth) {text segment : List Char}
    (h : IsSegment text segment) (hname : ¬IsKnownName segment) (hcount : ¬IsChannelCount segment)
    (hnumber : ¬IsMaskNumber segment) {fuel : ℕ} (hfuel : text.length ≤ fuel)
    (layout : ChannelMask) : layoutLoop long fuel text layout = 0 := by
  have hsingle (rest : List Char) :
      getChannelLayoutSingle long (segment ++ rest) segment.length = 0 := by
    rw [getChannelLayoutSingle_unknown long hname, layoutOfNumber_eq_zero long hcount hnumber]
  induction h generalizing fuel layout with
  | @last name hne hsep =>
      obtain ⟨fuel, rfl⟩ := Nat.exists_eq_succ_of_ne_zero
        ((List.length_pos_of_ne_nil hne).trans_le hfuel).ne'
      have hround := layoutLoop_succ long fuel [] layout hsep (by simp) (by simpa)
      rw [hsingle, if_pos rfl, List.append_nil] at hround
      exact hround
  | @first name separator rest hsep hseparator =>
      obtain ⟨fuel, rfl⟩ := Nat.exists_eq_succ_of_ne_zero (n := fuel) (by
        rw [List.length_append, List.length_cons] at hfuel
        omega)
      rw [layoutLoop_succ long fuel _ layout hsep (by simpa using hseparator) (by simp), hsingle,
        if_pos rfl]
  | @later name separator rest segment hsep hseparator _ ih =>
      rw [List.length_append, List.length_cons] at hfuel
      obtain ⟨fuel, rfl⟩ := Nat.exists_eq_succ_of_ne_zero (n := fuel) (by omega)
      rw [layoutLoop_succ long fuel _ layout hsep (by simpa using hseparator) (by simp)]
      split_ifs
      · rfl
      · exact ih hname hcount hnumber (by omega) _ hsingle

/-- A segment that means nothing spoils the text. -/
theorem avGetChannelLayout_eq_zero (long : LongWidth) {text segment : List Char}
    (h : IsSegment text segment) (hname : ¬IsKnownName segment) (hcount : ¬IsChannelCount segment)
    (hnumber : ¬IsMaskNumber segment) (hall : text.map Char.toLower ≠ "speaker_all".toList) :
    avGetChannelLayout long text = 0 := by
  rw [avGetChannelLayout, if_neg hall, layoutLoop_eq_zero long h hname hcount hnumber le_rfl]

end AviSynth
