import AviSynth.Filters.ChannelTexts

/-!
# The shown text of a layout

The text of a mask is the name of its layout, or for any other mask the number of
its channels with their names. The names alone stand for the mask, the whole text
is only shown.
-/

namespace AviSynth

/-- Names joined with `+`. -/
def plusJoined : List (List Char) → List Char
  | [] => []
  | first :: rest => joined first (rest.map fun name => ('+', name))

/-- The names of the channels of a mask. -/
def channelList (mask : ChannelMask) : List Char :=
  plusJoined ((setBits mask).map fun i => (channelNames[i]?.getD "").toList)

/-! ## The channels by index -/

theorem channelFromIndexLoop_eq (mask : ChannelMask) (bits : List ℕ) (idx : ℕ) :
    channelFromIndexLoop mask bits idx = (bits.filter (mask.getLsbD ·))[idx]? := by
  induction bits generalizing idx with
  | nil => rfl
  | cons i bits ih =>
      rw [channelFromIndexLoop, List.filter_cons]
      cases mask.getLsbD i with
      | false => exact ih idx
      | true =>
          cases idx with
          | zero => rfl
          | succ idx => exact ih idx

variable {mask : ChannelMask}

/-- The name at an index is the name of that channel. -/
theorem channelText_eq (hcount : channelcountFromMask mask = (setBits mask).length) {i : ℕ}
    (hi : i < (setBits mask).length) :
    channelText mask i =
      ((setBits mask).map fun i => (channelNames[i]?.getD "").toList)[i]?.getD [] := by
  have hsome : avChannelLayoutChannelFromIndex mask i = some (setBits mask)[i] := by
    rw [avChannelLayoutChannelFromIndex, if_neg (hcount ▸ Nat.not_le_of_lt hi),
      channelFromIndexLoop_eq]
    exact List.getElem?_eq_getElem hi
  rw [channelText, hsome, List.getElem?_map, List.getElem?_eq_getElem hi]
  rfl

theorem joined_plus (first : List Char) (rest : List (List Char)) :
    joined first (rest.map fun name => ('+', name)) = first ++ rest.flatMap ('+' :: ·) := by
  induction rest generalizing first with
  | nil => exact (List.append_nil first).symm
  | cons next rest ih => rw [List.map_cons, joined, ih, List.flatMap_cons, List.cons_append]

theorem flatMap_range_getElem? (names : List (List Char)) :
    (List.range names.length).flatMap (fun i => '+' :: names[i]?.getD []) =
      names.flatMap ('+' :: ·) := by
  induction names with
  | nil => rfl
  | cons name names ih =>
      rw [List.length_cons, List.range_succ_eq_map, List.flatMap_cons, List.flatMap_map,
        List.flatMap_cons, ← ih]
      rfl

/-- The loop over the channels joins their names. -/
theorem flatMap_range_plus (names : List (List Char)) :
    (List.range names.length).flatMap (fun i =>
      (if i ≠ 0 then ['+'] else []) ++ names[i]?.getD []) = plusJoined names := by
  cases names with
  | nil => rfl
  | cons first rest =>
      rw [plusJoined, joined_plus, ← flatMap_range_getElem?, List.length_cons,
        List.range_succ_eq_map, List.flatMap_cons, List.flatMap_map]
      rfl

theorem setBits_ne_nil (h : mask ≠ 0) : setBits mask ≠ [] := by
  intro hnil
  refine h (BitVec.eq_of_getLsbD_eq fun i hi => ?_)
  have := List.filter_eq_nil_iff.1 hnil i (List.mem_range.2 hi)
  rw [Bool.not_eq_true] at this
  simpa using this

/-- The text of a mask that is no layout and whose channels are counted right. -/
theorem channelLayoutToStr_eq (hne : mask ≠ 0) (hall : mask ≠ Speaker.all)
    (hlayout : ∀ layout ∈ channelLayoutMap, layout.mask ≠ mask)
    (hcount : channelcountFromMask mask = (setBits mask).length) :
    channelLayoutToStr mask = Nat.toDigits 10 (setBits mask).length ++ " channels (".toList ++
      channelList mask ++ [')'] := by
  have hfind : channelLayoutMap.find? (mask == ·.mask) = none :=
    List.find?_eq_none.2 fun layout hmem heq => hlayout layout hmem (beq_iff_eq.1 heq).symm
  have hpos : channelcountFromMask mask ≠ 0 := by
    rw [hcount]
    exact (List.length_pos_of_ne_nil (setBits_ne_nil hne)).ne'
  have hnames := flatMap_range_plus
    ((setBits mask).map fun i => (channelNames[i]?.getD "").toList)
  rw [List.length_map] at hnames
  rw [channelLayoutToStr, if_neg hall, hfind]
  dsimp only
  rw [if_pos hpos, hcount, channelList, ← hnames]
  congr 2
  refine List.flatMap_congr fun i hi => ?_
  rw [channelText_eq hcount (List.mem_range.1 hi)]

/-! ## The list of channels -/

/-- The part that is the name of one channel. -/
def channelPart (i : Fin 18) : LayoutPart :=
  ⟨channelNames[i.val].toList, 1#32 <<< i.val, .channel i.isLt⟩

/-- The channels of a mask of known channels. -/
def setChannels (mask : ChannelMask) : List (Fin 18) :=
  (List.finRange 18).filter fun i => mask.getLsbD i

theorem getLsbD_of_lt {n i : ℕ} (h : mask.toNat < 2 ^ n) (hi : n ≤ i) :
    mask.getLsbD i = false :=
  Nat.testBit_lt_two_pow (h.trans_le (Nat.pow_le_pow_right (by decide) hi))

theorem setBits_eq (h : mask.toNat < 2 ^ 18) :
    setBits mask = (setChannels mask).map Fin.val := by
  have hrange : List.range 32 = (List.finRange 18).map Fin.val ++ (List.range 14).map (18 + ·) := by
    decide
  have hhigh : ((List.range 14).map (18 + ·)).filter (mask.getLsbD ·) = [] := by
    refine List.filter_eq_nil_iff.2 fun i hi => ?_
    obtain ⟨k, -, rfl⟩ := List.mem_map.1 hi
    rw [getLsbD_of_lt h (by omega)]
    exact Bool.false_ne_true
  rw [setBits, hrange, List.filter_append, hhigh, List.append_nil, List.filter_map]
  rfl

theorem channelList_eq (h : mask.toNat < 2 ^ 18) :
    channelList mask = plusJoined ((setChannels mask).map fun i => (channelPart i).text) := by
  rw [channelList, setBits_eq h, List.map_map]
  congr 1
  refine List.map_congr_left fun i _ => ?_
  rw [Function.comp_apply, List.getElem?_eq_getElem i.isLt]
  rfl

/-- A bit of the union is a bit of a part. -/
theorem getLsbD_foldl (parts : List LayoutPart) (mask : ChannelMask) (i : ℕ) :
    (parts.foldl (fun mask part => mask ||| part.mask) mask).getLsbD i ↔
      mask.getLsbD i ∨ ∃ part ∈ parts, part.mask.getLsbD i := by
  induction parts generalizing mask with
  | nil => simp
  | cons part parts ih =>
      rw [List.foldl_cons, ih, BitVec.getLsbD_or, Bool.or_eq_true, List.exists_mem_cons_iff,
        or_assoc]

theorem unionOf_setChannels (h : mask.toNat < 2 ^ 18) :
    unionOf ((setChannels mask).map channelPart) = mask := by
  apply BitVec.eq_of_getLsbD_eq
  intro i hi
  rw [Bool.eq_iff_iff, unionOf, getLsbD_foldl]
  have hpart (j : Fin 18) : (channelPart j).mask.getLsbD i ↔ i = j := by
    change (1#32 <<< j.val).getLsbD i = true ↔ _
    rw [BitVec.getLsbD_shiftLeft, BitVec.getLsbD_one]
    simp only [hi, decide_true, Bool.true_and, Bool.and_eq_true, decide_eq_true_eq,
      Bool.not_eq_true', decide_eq_false_iff_not, Nat.zero_lt_succ]
    omega
  constructor
  · rintro (hzero | ⟨part, hmem, hbit⟩)
    · simp at hzero
    · obtain ⟨j, hj, rfl⟩ := List.mem_map.1 hmem
      rw [(hpart j).1 hbit]
      exact (List.mem_filter.1 hj).2
  · intro hbit
    have hlt : i < 18 := by
      by_contra hle
      rw [getLsbD_of_lt h (by omega)] at hbit
      exact Bool.false_ne_true hbit
    exact .inr ⟨channelPart ⟨i, hlt⟩,
      List.mem_map_of_mem (List.mem_filter.2 ⟨List.mem_finRange _, hbit⟩), (hpart ⟨i, hlt⟩).2 rfl⟩

/-- The names in the text of a mask stand for the mask. -/
theorem avGetChannelLayout_channelList (long : LongWidth) (hne : mask ≠ 0)
    (h : mask.toNat < 2 ^ 18) : avGetChannelLayout long (channelList mask) = mask := by
  have hunion := unionOf_setChannels h
  rw [channelList_eq h]
  cases hchannels : setChannels mask with
  | nil => exact absurd (by rw [setBits_eq h, hchannels]; rfl) (setBits_ne_nil hne)
  | cons first rest =>
      have hparse := avGetChannelLayout_textOf long (channelPart first)
        (rest.map fun i => ('+', channelPart i)) (by simp [isSeparator])
      rw [hchannels] at hunion
      rw [List.map_map, textOf, List.map_map] at hparse
      rw [List.map_cons, plusJoined, List.map_map]
      exact hparse.trans hunion

/-! ## The whole text -/

/-- The text with the number of channels is no name and no number. -/
theorem not_accepted_of_channels (digits name : List Char) :
    ¬IsKnownName (digits ++ " channels (".toList ++ name) ∧
      ¬IsChannelCount (digits ++ " channels (".toList ++ name) ∧
      ¬IsMaskNumber (digits ++ " channels (".toList ++ name) := by
  have hmem {c : Char} (hc : c ∈ " channels (".toList) :
      c ∈ digits ++ " channels (".toList ++ name :=
    List.mem_append_left _ (List.mem_append_right _ hc)
  have hl {base : ℕ} (hbase : base ≤ 16) {number : List Char} (h : IsSignedNumeral base number) :
      'l' ∉ number := fun hmem => by
    have hchars := h.mem hbase hmem
    revert hchars
    decide
  refine ⟨?_, ?_, fun h => hl (by decide) h (hmem (by decide))⟩
  · rintro ⟨entry, hentry, heq⟩
    exact ((knownNames_char entry hentry).2 ' ' (heq ▸ hmem (by decide))).2 rfl
  · rintro ⟨number, heq, hnumber⟩
    have hin : 'l' ∈ number ++ ['c'] := heq ▸ hmem (by decide)
    refine hl (by decide) hnumber ?_
    simpa using hin

theorem not_isSeparator_of_mem_name {i : ℕ} {c : Char}
    (hc : c ∈ (channelNames[i]?.getD "").toList) : isSeparator c = false := by
  cases h : channelNames[i]? with
  | none => simp [h] at hc
  | some name =>
      rw [h] at hc
      have hname := List.mem_append_right (channelLayoutMap.map (·.name)) (List.mem_of_getElem? h)
      exact ((knownNames_char name hname).2 c hc).1

/-- The whole text of a list of channels is rejected. -/
theorem avGetChannelLayout_shown (long : LongWidth) (hne : mask ≠ 0) (count : ℕ) :
    avGetChannelLayout long (Nat.toDigits 10 count ++ " channels (".toList ++ channelList mask ++
      [')']) = 0 := by
  obtain ⟨first, rest, hbits⟩ := List.exists_cons_of_ne_nil (setBits_ne_nil hne)
  have hstart : ∀ c ∈ Nat.toDigits 10 count ++ " channels (".toList ++
      (channelNames[first]?.getD "").toList, isSeparator c = false := fun c hc => by
    obtain hc | hc := List.mem_append.1 hc
    · obtain hc | hc := List.mem_append.1 hc
      · exact not_isSeparator_of_isDigit (isDigit_of_mem_toDigits hc)
      · have hchars : (" channels (".toList.all fun c => !isSeparator c) = true := by decide
        simpa using List.all_eq_true.1 hchars c hc
    · exact not_isSeparator_of_mem_name hc
  have hall : (Nat.toDigits 10 count ++ " channels (".toList ++ channelList mask ++
      [')']).map Char.toLower ≠ "speaker_all".toList :=
    ne_speakerAll_of_mem (c := ' ') (by simp) (by decide)
  rw [channelList, hbits, List.map_cons] at hall ⊢
  cases rest with
  | nil =>
      obtain ⟨hname, hcount, hnumber⟩ := not_accepted_of_channels (Nat.toDigits 10 count)
        ((channelNames[first]?.getD "").toList ++ [')'])
      rw [← List.append_assoc] at hname hcount hnumber
      refine avGetChannelLayout_eq_zero long (.last (by simp) fun c hc => ?_)
        hname hcount hnumber hall
      obtain hc | hc := List.mem_append.1 hc
      · exact hstart c hc
      · rw [List.mem_singleton.1 hc]
        rfl
  | cons next rest =>
      obtain ⟨hname, hcount, hnumber⟩ := not_accepted_of_channels (Nat.toDigits 10 count)
        (channelNames[first]?.getD "").toList
      have hsegment : IsSegment (Nat.toDigits 10 count ++ " channels (".toList ++
          (channelNames[first]?.getD "").toList ++ '+' :: (plusJoined ((next :: rest).map fun i =>
            (channelNames[i]?.getD "").toList) ++ [')']))
          (Nat.toDigits 10 count ++ " channels (".toList ++
            (channelNames[first]?.getD "").toList) := .first hstart rfl
      refine avGetChannelLayout_eq_zero long ?_ hname hcount hnumber hall
      convert hsegment using 1
      simp [plusJoined, joined]

theorem nbChannels_eq : ∀ layout ∈ channelLayoutMap,
    layout.nbChannels = (setBits layout.mask).length := by
  decide

theorem layout_mask_ne_all : ∀ layout ∈ channelLayoutMap, layout.mask ≠ Speaker.all := by
  decide

/-- The mask of a layout is shown by a name of that mask, which reads as the mask. -/
theorem avGetChannelLayout_channelLayoutToStr (long : LongWidth) {layout : ChannelLayout}
    (h : layout ∈ channelLayoutMap) :
    avGetChannelLayout long (channelLayoutToStr layout.mask) = layout.mask := by
  obtain ⟨shown, hshown⟩ : ∃ shown, channelLayoutMap.find? (layout.mask == ·.mask) = some shown :=
    Option.isSome_iff_exists.1 (List.find?_isSome.2 ⟨layout, h, beq_self_eq_true _⟩)
  have hmask : layout.mask = shown.mask := by simpa using List.find?_some hshown
  have hmem : shown ∈ channelLayoutMap := List.mem_of_find?_eq_some hshown
  have hparse := avGetChannelLayout_textOf long ⟨_, _, .layout hmem⟩ [] (by simp)
  rw [channelLayoutToStr, if_neg (layout_mask_ne_all _ h), hshown, hmask]
  exact hparse.trans BitVec.zero_or

theorem avGetChannelLayout_speakerAll (long : LongWidth) :
    avGetChannelLayout long (channelLayoutToStr Speaker.all) = Speaker.all := by
  cases long <;> decide

/-- Joined names read as the union of their masks, and a text with anything that
is no name and no number is rejected. The mask of a layout and its text are
inverse. Any other mask is shown with the number of its channels and their names;
the names read as the mask, the whole text is not read. -/
theorem channelLayouts_read_and_shown (long : LongWidth) :
    avGetChannelLayout long [] = 0 ∧
    (∀ (first : LayoutPart) (rest : List (Char × LayoutPart)),
      (∀ part ∈ rest, isSeparator part.1) →
        avGetChannelLayout long (textOf first rest) = unionOf (first :: rest.map Prod.snd)) ∧
    (∀ text segment, IsSegment text segment → ¬IsKnownName segment → ¬IsChannelCount segment →
      ¬IsMaskNumber segment → text.map Char.toLower ≠ "speaker_all".toList →
        avGetChannelLayout long text = 0) ∧
    (∀ layout ∈ channelLayoutMap,
      avGetChannelLayout long (channelLayoutToStr layout.mask) = layout.mask ∧
        layout.nbChannels = (setBits layout.mask).length) ∧
    avGetChannelLayout long (channelLayoutToStr Speaker.all) = Speaker.all ∧
    (∀ mask : ChannelMask, mask ≠ 0 → mask.toNat < 2 ^ 18 →
      (∀ layout ∈ channelLayoutMap, layout.mask ≠ mask) →
      channelcountFromMask mask = (setBits mask).length →
        channelLayoutToStr mask = Nat.toDigits 10 (setBits mask).length ++
          " channels (".toList ++ channelList mask ++ [')'] ∧
        avGetChannelLayout long (channelList mask) = mask ∧
        avGetChannelLayout long (channelLayoutToStr mask) = 0) ∧
    (∀ mask : ChannelMask, mask.toNat < 2 ^ 15 →
      channelcountFromMask mask = (setBits mask).length) := by
  refine ⟨rfl, fun first rest h => avGetChannelLayout_textOf long first rest h,
    fun text segment h hname hcount hnumber hall =>
      avGetChannelLayout_eq_zero long h hname hcount hnumber hall,
    fun layout h => ⟨avGetChannelLayout_channelLayoutToStr long h, nbChannels_eq layout h⟩,
    avGetChannelLayout_speakerAll long, fun mask hne hmask hlayout hcount => ?_,
    fun mask h => channelcountFromMask_of_lt h⟩
  have hall : mask ≠ Speaker.all := by
    rintro rfl
    exact absurd hmask (by decide)
  have htext := channelLayoutToStr_eq hne hall hlayout hcount
  refine ⟨htext, avGetChannelLayout_channelList long hne hmask, ?_⟩
  rw [htext]
  exact avGetChannelLayout_shown long hne _

/-- The center and the low frequency channel. -/
theorem channelLayouts_read_and_shown_two :
    avGetChannelLayout .bits64 "FC|LFE".toList = 0xC ∧
      channelLayoutToStr 0xC = "2 channels (FC+LFE)".toList ∧
      avGetChannelLayout .bits64 "FC+LFE".toList = 0xC := by
  obtain ⟨-, hread, -, -, -, hshow, -⟩ := channelLayouts_read_and_shown .bits64
  have hunion := hread (channelPart 2) [('|', channelPart 3)] (by simp [isSeparator])
  obtain ⟨hshown, hlist, -⟩ := hshow 0xC (by decide) (by decide) (by decide) (by decide)
  exact ⟨hunion.trans (by decide), hshown.trans (by decide), hlist⟩

/-- The text of a mask is not read back, and a name that is in no table is
accepted. -/
theorem shown_layout_not_read :
    avGetChannelLayout .bits64 (channelLayoutToStr 0xC) ≠ 0xC ∧
      (∀ entry ∈ knownNames, entry.toList ≠ "6c".toList) ∧
      avGetChannelLayout .bits64 "6c".toList = Layout.fivePoint1Back := by
  decide

end AviSynth
