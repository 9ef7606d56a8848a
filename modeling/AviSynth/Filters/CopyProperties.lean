import AviSynth.Filters.PropertyNames

/-!
# `propCopy`

`propCopy` copies properties from the frame of another clip, all of them or those that a list
selects or leaves. Arrays of numbers are set as a whole; other values are added one by one,
to whatever the key has already.
-/

namespace AviSynth

open MachineInt

variable {D C F : Type}

/-- A value that is read and set: data come as a pointer and a size. -/
def PropElement.readBack : PropElement D C F → PropElement D C F
  | .data typeHint bytes =>
    let size := i32 bytes.length
    .data typeHint (if 0 ≤ size then bytes.take size.toNat else cString bytes)
  | value => value

/-- `CopyOneFrameProp`. -/
def copyOneFrameProp (key : String) (mapv avsmapFrom : PropTable (PropElement D C F)) :
    PropTable (PropElement D C F) :=
  match avsmapFrom.lookup key with
  | none => mapv
  | some (propType, vals) =>
    let numElements := i32 vals.length
    if propType = .int ∨ propType = .float then
      (mapv.propSetArray key propType vals numElements).2
    else (vals.take numElements.toNat).foldl
      (fun mapv value => (mapv.propAppend key propType value.readBack).2) mapv

/-- The test of the loop that merges. -/
def needCopy (re : Regexes) (exclude : Bool) : Option (List String) → String → Bool
  | none, _ => true
  | some names, key => names.any (nameMatches re · key) != exclude

/-- `CopyProperties::GetFrame`, for the properties of both frames. -/
def copyProperties (re : Regexes) (merge exclude : Bool) (propNames : Option (List String))
    (avsmapFrom props : PropTable (PropElement D C F)) : PropTable (PropElement D C F) :=
  if avsmapFrom.propNumKeys = 0 then
    if merge then props else if props.propNumKeys = 0 then props else ∅
  else if merge = false then
    match propNames with
    | none => avsmapFrom
    | some names =>
      if exclude = false then
        names.foldl (fun mapv s =>
          if isDelimited s then
            avsmapFrom.loopKeys.foldl (fun mapv key =>
              if re.isMatch s key then copyOneFrameProp key mapv avsmapFrom else mapv) mapv
          else copyOneFrameProp s mapv avsmapFrom) ∅
      else
        avsmapFrom.loopKeys.foldl (fun mapv key =>
          if names.any (nameMatches re · key) then mapv
          else copyOneFrameProp key mapv avsmapFrom) ∅
  else
    avsmapFrom.loopKeys.foldl (fun mapv key =>
      if needCopy re exclude propNames key then copyOneFrameProp key (mapv.erase key) avsmapFrom
      else mapv) props

/-! ### What is to be copied -/

/-- The keys that the list selects, or those that it leaves. -/
def Selected (re : Regexes) (exclude : Bool) : Option (List String) → String → Bool
  | none, _ => true
  | some items, key => items.any (selects re · key) != exclude

/-- The selected properties are those of the source; the other ones are gone, or those of the
destination if the maps are merged. -/
def Copied (selected : String → Bool) (merge : Bool)
    (avsmapFrom props result : PropTable (PropElement D C F)) : Prop :=
  ∀ key, result.lookup key =
    if selected key ∧ key ∈ avsmapFrom then avsmapFrom.lookup key
    else if merge then props.lookup key else none

/-- Each selected key has an array of numbers, or other values, and then a list of what is to
be copied into an empty map selects the key once. -/
def Copyable (re : Regexes) (merge exclude : Bool) (items : Option (List String))
    (avsmapFrom : PropTable (PropElement D C F)) : Prop :=
  (items = none ∧ merge = false) ∨
  ∀ key propType vals, avsmapFrom.lookup key = some (propType, vals) →
    Selected re exclude items key → (propType = .int ∨ propType = .float) ∨
      vals ≠ [] ∧ (merge = false → exclude = false →
        (items.getD []).countP (selects re · key) = 1)

/-! ### One property -/

/-- What becomes of a key's entry when another one is copied to it. -/
def copyInto {V : Type} (entry : AVSPropertyType × List V) :
    Option (AVSPropertyType × List V) → Option (AVSPropertyType × List V)
  | old =>
    if entry.1 = .int ∨ entry.1 = .float then some entry
    else if entry.2 = [] then old
    else match old with
      | none => some entry
      | some (propType, vals) =>
        if propType = entry.1 then some (propType, vals ++ entry.2) else old

theorem lookup_propAppend {V : Type} {key : String} (hvalid : isValidVSMapKey key)
    (propType : AVSPropertyType) (vals : List V) (t : PropTable V) :
    (vals.foldl (fun t value => (t.propAppend key propType value).2) t).lookup key =
      if vals = [] then t.lookup key
      else match t.lookup key with
        | none => some (propType, vals)
        | some (ftype, old) =>
          if ftype = propType then some (ftype, old ++ vals) else some (ftype, old) := by
  induction vals generalizing t with
  | nil => rfl
  | cons value vals ih =>
    rw [List.foldl_cons, ih]
    cases hlookup : t.lookup key with
    | none => by_cases hvals : vals = [] <;> simp [PropTable.propAppend, hvalid, hlookup, hvals]
    | some old =>
      by_cases htype : old.1 = propType
      · by_cases hvals : vals = [] <;>
          simp [PropTable.propAppend, hvalid, hlookup, htype, hvals]
      · simp [PropTable.propAppend, hvalid, hlookup, htype]

theorem lookup_propAppend_ne {V : Type} {key key' : String} (hkey : key' ≠ key)
    (propType : AVSPropertyType) (vals : List V) (t : PropTable V) :
    (vals.foldl (fun t value => (t.propAppend key propType value).2) t).lookup key' =
      t.lookup key' := by
  induction vals generalizing t with
  | nil => rfl
  | cons value vals ih =>
    rw [List.foldl_cons, ih, PropTable.propAppend]
    split_ifs
    · cases t.lookup key with
      | none => simp [AList.lookup_insert_ne hkey]
      | some old =>
        by_cases htype : old.1 = propType <;> simp [htype, AList.lookup_insert_ne hkey]
    · rfl

/-- Data of a size that is an int are read back as they are. -/
theorem map_readBack {vals : List (PropElement D C F)}
    (hvals : ∀ typeHint bytes, .data typeHint bytes ∈ vals → bytes.length < 2 ^ 31) :
    vals.map PropElement.readBack = vals := by
  refine (List.map_congr_left fun value hvalue => ?_).trans (List.map_id vals)
  cases value with
  | data typeHint bytes =>
    have hlength := hvals typeHint bytes hvalue
    simp only [PropElement.readBack]
    rw [i32_of_range (by omega) (by omega), if_pos (by omega), Int.toNat_natCast, List.take_length]
    rfl
  | int i => rfl
  | float d => rfl
  | clip clip => rfl
  | frame frame => rfl

theorem copyOneFrameProp_eq (source : FrameProps D C F) {key : String} {propType : AVSPropertyType}
    {vals : List (PropElement D C F)} (hlookup : source.table.lookup key = some (propType, vals))
    (mapv : PropTable (PropElement D C F)) :
    copyOneFrameProp key mapv source.table =
      if propType = .int ∨ propType = .float then mapv.insert key (propType, vals)
      else vals.foldl (fun t value => (PropTable.propAppend t key propType value).2) mapv := by
  have hvalid : isValidVSMapKey key :=
    source.keys_valid key (AList.lookup_isSome.mp (by rw [hlookup]; rfl))
  have hlength := source.values_length key propType vals hlookup
  have hread : (vals.map PropElement.readBack).foldl
      (fun t value => (PropTable.propAppend t key propType value).2) mapv =
        vals.foldl (fun mapv value => (mapv.propAppend key propType value.readBack).2) mapv :=
    List.foldl_map
  rw [map_readBack (source.bytes_length key propType vals hlookup)] at hread
  rw [copyOneFrameProp, hlookup]
  dsimp only
  rw [i32_of_range (by omega) (by omega), Int.toNat_natCast, List.take_length, ← hread,
    PropTable.propSetArray, if_neg (by omega : ¬(vals.length : ℤ) < 0), if_pos hvalid,
    Int.toNat_natCast, List.take_length]

/-- Copying a key does to its entry what `copyInto` does, and to the others nothing. -/
theorem lookup_copyOneFrameProp (source : FrameProps D C F) (key key' : String)
    (mapv : PropTable (PropElement D C F)) :
    (copyOneFrameProp key mapv source.table).lookup key' =
      if key = key' then
        match source.table.lookup key' with
        | none => mapv.lookup key'
        | some entry => copyInto entry (mapv.lookup key')
      else mapv.lookup key' := by
  cases hlookup : source.table.lookup key with
  | none =>
    rw [copyOneFrameProp, hlookup]
    by_cases hkey : key = key'
    · subst hkey
      simp [hlookup]
    · simp [hkey]
  | some entry =>
    obtain ⟨propType, vals⟩ := entry
    have hvalid : isValidVSMapKey key :=
      source.keys_valid key (AList.lookup_isSome.mp (by rw [hlookup]; rfl))
    rw [copyOneFrameProp_eq source hlookup]
    by_cases hkey : key = key'
    · subst hkey
      rw [if_pos rfl, hlookup]
      dsimp only [copyInto]
      split_ifs with hnumbers hempty
      · rw [AList.lookup_insert]
      · rw [hempty]
        rfl
      · rw [lookup_propAppend hvalid, if_neg hempty]
        cases hold : mapv.lookup key with
        | none => rfl
        | some old => rfl
    · rw [if_neg hkey]
      split_ifs with hnumbers
      · rw [AList.lookup_insert_ne (Ne.symm hkey)]
      · exact lookup_propAppend_ne (Ne.symm hkey) propType vals mapv

/-- Keys are copied one after the other, each as often as it is there. -/
theorem lookup_copyKeys (source : FrameProps D C F) (keys : List String) (key : String)
    (mapv : PropTable (PropElement D C F)) :
    (keys.foldl (fun mapv k => copyOneFrameProp k mapv source.table) mapv).lookup key =
      match source.table.lookup key with
      | none => mapv.lookup key
      | some entry => (copyInto entry)^[keys.count key] (mapv.lookup key) := by
  induction keys generalizing mapv with
  | nil => cases source.table.lookup key <;> rfl
  | cons k keys ih =>
    rw [List.foldl_cons, ih, lookup_copyOneFrameProp]
    cases hlookup : source.table.lookup key with
    | none => simp
    | some entry =>
      by_cases hkey : k = key
      · subst hkey
        simp only [if_true, List.count_cons_self, Function.iterate_succ_apply]
      · simp only [if_neg hkey, List.count_cons_of_ne hkey]

/-- Copied to nothing some times, an entry is there if it was copied, and is as it was if it is
set as a whole, or has values and was copied once. -/
theorem iterate_copyInto_eq_some_iff {V : Type} (entry : AVSPropertyType × List V) (n : ℕ) :
    (copyInto entry)^[n + 1] none = some entry ↔
      (entry.1 = .int ∨ entry.1 = .float) ∨ entry.2 ≠ [] ∧ n + 1 = 1 := by
  obtain ⟨propType, vals⟩ := entry
  by_cases hnumbers : propType = .int ∨ propType = .float
  · rw [Function.iterate_succ_apply']
    simp [copyInto, hnumbers]
  by_cases hempty : vals = []
  · have hid : copyInto (propType, vals) = id := by
      funext old
      simp [copyInto, hnumbers, hempty]
    rw [hid, Function.iterate_id]
    simp [hnumbers, hempty]
  -- the values are there once more with each copy
  have hvalues : (copyInto (propType, vals))^[n + 1] none =
      some (propType, (List.replicate (n + 1) vals).flatten) := by
    induction n with
    | zero => simp [copyInto, hnumbers, hempty]
    | succ n ih =>
      rw [Function.iterate_succ_apply', ih, List.replicate_succ' (n := n + 1),
        List.flatten_append]
      simp [copyInto, hnumbers, hempty]
  have hpos := List.length_pos_iff.mpr hempty
  rw [hvalues, Option.some.injEq, Prod.mk.injEq]
  constructor
  · rintro ⟨-, hsame⟩
    have hlength := congrArg List.length hsame
    rw [List.length_flatten, List.map_replicate, List.sum_replicate_nat] at hlength
    refine .inr ⟨hempty, ?_⟩
    by_contra hmore
    have htwo : 2 * vals.length ≤ (n + 1) * vals.length := Nat.mul_le_mul_right _ (by omega)
    omega
  · rintro (habsurd | ⟨-, hone⟩)
    · exact absurd habsurd hnumbers
    · obtain rfl : n = 0 := by omega
      simp

/-! ### The modes -/

variable {source : FrameProps D C F} {filtername : String} {re : Regexes}
  {items names : Option (List String)}

theorem loopKeys_eq (props : FrameProps D C F) : props.table.loopKeys = props.table.keys := by
  have hlength := props.keys_length
  rw [PropTable.loopKeys, PropTable.propNumKeys, i32_of_range (by omega) (by omega),
    Int.toNat_natCast, List.take_length]

/-- The keys that a name of the list makes the filter copy into an empty map. -/
def picks (re : Regexes) (keys : List String) (s : String) : List String :=
  if isDelimited s then keys.filter (re.isMatch s) else [s]

theorem foldl_picks (re : Regexes) (keys names : List String)
    (mapv : PropTable (PropElement D C F)) :
    names.foldl (fun mapv s =>
        if isDelimited s then
          keys.foldl (fun mapv key =>
            if re.isMatch s key then copyOneFrameProp key mapv source.table else mapv) mapv
        else copyOneFrameProp s mapv source.table) mapv =
      (names.flatMap (picks re keys)).foldl
        (fun mapv key => copyOneFrameProp key mapv source.table) mapv := by
  induction names generalizing mapv with
  | nil => rfl
  | cons s names ih =>
    rw [List.foldl_cons, ih, List.flatMap_cons, List.foldl_append, picks]
    split_ifs
    · rw [List.foldl_filter]
    · rfl

/-- A key is copied once for each name that matches it. -/
theorem count_picks (re : Regexes) {keys : List String} (hnodup : keys.Nodup) (names : List String)
    {key : String} (hkey : key ∈ keys) :
    (names.flatMap (picks re keys)).count key = names.countP (nameMatches re · key) := by
  induction names with
  | nil => rfl
  | cons s names ih =>
    rw [List.flatMap_cons, List.count_append, ih, List.countP_cons, Nat.add_comm, picks,
      nameMatches]
    congr 1
    by_cases hdelimited : isDelimited s
    · rw [if_pos hdelimited, if_pos hdelimited]
      by_cases hmatch : re.isMatch s key
      · rw [if_pos hmatch, List.count_filter hmatch, List.count_eq_one_of_mem hnodup hkey]
      · rw [if_neg hmatch]
        exact List.count_eq_zero.mpr fun hmem => hmatch (List.mem_filter.mp hmem).2
    · rw [if_neg hdelimited, if_neg hdelimited, List.count_singleton]

/-- Each key that is needed is copied to where it was deleted. -/
theorem lookup_replaceKeys (need : String → Bool) (keys : List String) (key : String)
    (mapv : PropTable (PropElement D C F)) :
    (keys.foldl (fun mapv k =>
        if need k then copyOneFrameProp k (mapv.erase k) source.table else mapv) mapv).lookup key =
      if key ∈ keys ∧ need key then
        (source.table.lookup key).bind fun entry => copyInto entry none
      else mapv.lookup key := by
  induction keys generalizing mapv with
  | nil => simp
  | cons k keys ih =>
    rw [List.foldl_cons, ih]
    by_cases hlater : key ∈ keys ∧ need key
    · rw [if_pos hlater, if_pos ⟨List.mem_cons_of_mem _ hlater.1, hlater.2⟩]
    · rw [if_neg hlater]
      by_cases hkey : k = key
      · subst hkey
        by_cases hneed : need k
        · rw [if_pos hneed, if_pos ⟨List.mem_cons_self, hneed⟩, lookup_copyOneFrameProp,
            if_pos rfl, AList.lookup_erase]
          cases source.table.lookup k <;> rfl
        · rw [if_neg hneed, if_neg fun h => hneed h.2]
      · have hnow : ¬(key ∈ k :: keys ∧ need key) := fun h =>
          hlater ⟨(List.mem_cons.mp h.1).resolve_left (Ne.symm hkey), h.2⟩
        simp only [if_neg hnow]
        split_ifs
        · rw [lookup_copyOneFrameProp, if_neg hkey, AList.lookup_erase_ne (Ne.symm hkey)]
        · rfl

/-- Where each selected key is copied some times to nothing, what is copied is right just if
each key has numbers, or has values and is copied once. -/
theorem copied_iff {selected : String → Bool} {merge : Bool}
    {props result : PropTable (PropElement D C F)} (times : String → ℕ)
    (hresult : ∀ key, result.lookup key =
      if selected key ∧ key ∈ source.table then
        (source.table.lookup key).bind fun entry => (copyInto entry)^[times key] none
      else if merge then props.lookup key else none)
    (htimes : ∀ key, selected key → key ∈ source.table → 0 < times key) :
    Copied selected merge source.table props result ↔
      ∀ key propType vals, source.table.lookup key = some (propType, vals) → selected key →
        (propType = .int ∨ propType = .float) ∨ vals ≠ [] ∧ times key = 1 := by
  have hselected {key : String} {entry : AVSPropertyType × List (PropElement D C F)}
      (hlookup : source.table.lookup key = some entry) (hkey : selected key) :
      result.lookup key = some entry ↔
        (entry.1 = .int ∨ entry.1 = .float) ∨ entry.2 ≠ [] ∧ times key = 1 := by
    have hmem : key ∈ source.table := AList.lookup_isSome.mp (by rw [hlookup]; rfl)
    obtain ⟨n, hn⟩ := Nat.exists_eq_add_one_of_ne_zero (htimes key hkey hmem).ne'
    rw [hresult, if_pos ⟨hkey, hmem⟩, hlookup, Option.bind_some, hn]
    exact iterate_copyInto_eq_some_iff entry n
  constructor
  · intro h key propType vals hlookup hkey
    have hmem : key ∈ source.table := AList.lookup_isSome.mp (by rw [hlookup]; rfl)
    have hcopied := h key
    rw [if_pos ⟨hkey, hmem⟩, hlookup] at hcopied
    exact (hselected hlookup hkey).mp hcopied
  · intro h key
    by_cases hboth : selected key ∧ key ∈ source.table
    · rw [if_pos hboth]
      obtain ⟨⟨propType, vals⟩, hlookup⟩ := Option.isSome_iff_exists.mp
        (AList.lookup_isSome.mpr hboth.2)
      rw [hlookup]
      exact (hselected hlookup hboth.1).mpr (h key propType vals hlookup hboth.1)
    · rw [hresult, if_neg hboth, if_neg hboth]

theorem keys_eq_nil {props : FrameProps D C F} (hzero : props.table.propNumKeys = 0) :
    props.table.keys = [] := by
  have hlength := props.keys_length
  rw [PropTable.propNumKeys, i32_of_range (by omega) (by omega)] at hzero
  exact List.eq_nil_of_length_eq_zero (by omega)

theorem notMem_of_keys_eq_nil {V : Type} {t : PropTable V} (hkeys : t.keys = []) (key : String) :
    key ∉ t := by
  rw [AList.mem_keys, hkeys]
  exact List.not_mem_nil

/-- Without keys in the source there is nothing to copy. -/
theorem copied_of_no_keys (re : Regexes) (merge exclude : Bool) (names : Option (List String))
    (selected : String → Bool) (props : FrameProps D C F) (hzero : source.table.propNumKeys = 0) :
    Copied selected merge source.table props.table
      (copyProperties re merge exclude names source.table props.table) := by
  intro key
  have hnone : ¬(selected key ∧ key ∈ source.table) := fun h =>
    notMem_of_keys_eq_nil (keys_eq_nil hzero) key h.2
  rw [copyProperties.eq_def, if_pos hzero]
  simp only [if_neg hnone]
  cases merge with
  | true => rfl
  | false =>
    simp only [Bool.false_eq_true, if_false]
    split_ifs with hempty
    · exact AList.lookup_eq_none.mpr (notMem_of_keys_eq_nil (keys_eq_nil hempty) key)
    · exact AList.lookup_empty key

/-- A list picks keys for an empty map. -/
theorem lookup_exact {items names : List String}
    (hnames : propNamesToArray filtername re (some items) = .ok (some names))
    (props : FrameProps D C F) (hkeys : source.table.propNumKeys ≠ 0) (key : String) :
    (copyProperties re false false (some names) source.table props.table).lookup key =
      if Selected re false (some items) key ∧ key ∈ source.table then
        (source.table.lookup key).bind fun entry =>
          (copyInto entry)^[items.countP (selects re · key)] none
      else none := by
  rw [copyProperties, if_neg hkeys, if_pos rfl]
  simp only [if_true]
  rw [loopKeys_eq, foldl_picks, lookup_copyKeys, AList.lookup_empty]
  have hcount : names.countP (nameMatches re · key) = items.countP (selects re · key) := by
    have hmap := congrArg (List.countP id) (propNamesToArray_matches hnames key)
    simpa [List.countP_map, Function.comp_def] using hmap
  by_cases hmem : key ∈ source.table
  · obtain ⟨entry, hlookup⟩ := Option.isSome_iff_exists.mp (AList.lookup_isSome.mpr hmem)
    rw [hlookup, count_picks re source.table.keys_nodup names (AList.mem_keys.mp hmem), hcount]
    by_cases hselected : items.any (selects re · key)
    · rw [if_pos ⟨by simpa [Selected] using hselected, hmem⟩, Option.bind_some]
    · have hzero : items.countP (selects re · key) = 0 :=
        List.countP_eq_zero.mpr fun item hitem hmatch =>
          hselected (List.any_eq_true.mpr ⟨item, hitem, hmatch⟩)
      rw [if_neg fun h => hselected (by simpa [Selected] using h.1), hzero]
      rfl
  · rw [AList.lookup_eq_none.mpr hmem, if_neg fun h => hmem h.2]

/-- The keys that a list leaves go into an empty map. -/
theorem lookup_excluded {items names : List String}
    (hnames : propNamesToArray filtername re (some items) = .ok (some names))
    (props : FrameProps D C F) (hkeys : source.table.propNumKeys ≠ 0) (key : String) :
    (copyProperties re false true (some names) source.table props.table).lookup key =
      if Selected re true (some items) key ∧ key ∈ source.table then
        (source.table.lookup key).bind fun entry => (copyInto entry)^[1] none
      else none := by
  have hfilter : source.table.keys.foldl (fun mapv key =>
        if names.any (nameMatches re · key) then mapv
        else copyOneFrameProp key mapv source.table) ∅ =
      (source.table.keys.filter fun key => !names.any (nameMatches re · key)).foldl
        (fun mapv key => copyOneFrameProp key mapv source.table) ∅ := by
    rw [List.foldl_filter]
    congr 1
    funext mapv key
    cases names.any (nameMatches re · key) <;> rfl
  rw [copyProperties, if_neg hkeys, if_pos rfl]
  simp only [Bool.true_eq_false, if_false]
  rw [loopKeys_eq, hfilter, lookup_copyKeys, AList.lookup_empty]
  by_cases hmem : key ∈ source.table
  · obtain ⟨entry, hlookup⟩ := Option.isSome_iff_exists.mp (AList.lookup_isSome.mpr hmem)
    rw [hlookup, Selected, ← any_nameMatches hnames]
    dsimp only
    by_cases hany : names.any (nameMatches re · key)
    · have hzero : (source.table.keys.filter fun key =>
          !names.any (nameMatches re · key)).count key = 0 :=
        List.count_eq_zero.mpr fun hin => by simp [hany] at hin
      rw [hzero, hany]
      simp
    · have hone : (source.table.keys.filter fun key =>
          !names.any (nameMatches re · key)).count key = 1 := by
        rw [List.count_filter (by simpa using hany),
          List.count_eq_one_of_mem source.table.keys_nodup (AList.mem_keys.mp hmem)]
      rw [hone, if_pos ⟨by simpa using hany, hmem⟩, Option.bind_some]
  · rw [AList.lookup_eq_none.mpr hmem, if_neg fun h => hmem h.2]

/-- What is needed is copied over the entries of the destination. -/
theorem lookup_merged (hnames : propNamesToArray filtername re items = .ok names) (exclude : Bool)
    (props : FrameProps D C F) (hkeys : source.table.propNumKeys ≠ 0) (key : String) :
    (copyProperties re true exclude names source.table props.table).lookup key =
      if Selected re exclude items key ∧ key ∈ source.table then
        (source.table.lookup key).bind fun entry => (copyInto entry)^[1] none
      else props.table.lookup key := by
  have hselected (k : String) : needCopy re exclude names k = Selected re exclude items k := by
    cases items with
    | none =>
      cases hnames
      rfl
    | some items =>
      cases names with
      | none =>
        rw [propNamesToArray] at hnames
        cases hmap : items.mapM (convertName filtername re) <;> simp [hmap, Except.map] at hnames
      | some names => rw [Selected, needCopy, ← any_nameMatches hnames]
  rw [copyProperties.eq_def, if_neg hkeys, if_neg (by decide), loopKeys_eq, lookup_replaceKeys,
    hselected]
  simp only [AList.mem_keys, and_comm, Function.iterate_one]

theorem copied_iff_copyable (hnames : propNamesToArray filtername re items = .ok names)
    (merge exclude : Bool) (source props : FrameProps D C F) :
    Copied (Selected re exclude items) merge source.table props.table
        (copyProperties re merge exclude names source.table props.table) ↔
      Copyable re merge exclude items source.table := by
  by_cases hzero : source.table.propNumKeys = 0
  · refine iff_of_true (copied_of_no_keys re merge exclude names _ props hzero)
      (.inr fun key propType vals hlookup => ?_)
    rw [AList.lookup_eq_none.mpr (notMem_of_keys_eq_nil (keys_eq_nil hzero) key)] at hlookup
    cases hlookup
  cases merge with
  | true =>
    rw [copied_iff (fun _ => 1) (lookup_merged hnames exclude props hzero)
      fun _ _ _ => Nat.one_pos]
    simp [Copyable]
  | false =>
    cases items with
    | none =>
      cases hnames
      refine iff_of_true (fun key => ?_) (.inl ⟨rfl, rfl⟩)
      rw [copyProperties, if_neg hzero, if_pos rfl]
      by_cases hmem : key ∈ source.table
      · simp [Selected, hmem]
      · simp [Selected, hmem, AList.lookup_eq_none.mpr hmem]
    | some items =>
      obtain ⟨list, rfl⟩ : ∃ list, names = some list := by
        rw [propNamesToArray] at hnames
        cases hmap : items.mapM (convertName filtername re) with
        | error message => simp [hmap, Except.map] at hnames
        | ok list => exact ⟨list, by simpa [hmap, Except.map] using hnames.symm⟩
      cases exclude with
      | true =>
        rw [copied_iff (fun _ => 1) (fun key => by
          simpa using lookup_excluded hnames props hzero key) fun _ _ _ => Nat.one_pos]
        simp [Copyable]
      | false =>
        have htimes (key : String) (hselected : Selected re false (some items) key) :
            0 < items.countP (selects re · key) := by
          rw [Selected, Bool.bne_false, List.any_eq_true] at hselected
          exact List.countP_pos_iff.mpr hselected
        rw [copied_iff (fun key => items.countP (selects re · key)) (fun key => by
          simpa using lookup_exact hnames props hzero key) fun key hselected _ =>
            htimes key hselected]
        simp [Copyable]

/-- For every source and destination, every accepted list and both modes: the selected
properties are copied as they are, and the other ones are treated as the mode says, just if
everything selected can be copied; and `propDelete` deletes just what its list selects. -/
theorem properties_selected {filtername : String} {re : Regexes}
    {items names : Option (List String)}
    (hnames : propNamesToArray filtername re items = .ok names) (merge exclude : Bool)
    (source props : FrameProps D C F) :
    (Copied (Selected re exclude items) merge source.table props.table
        (copyProperties re merge exclude names source.table props.table) ↔
      Copyable re merge exclude items source.table) ∧
    ∀ listed list, items = some listed → names = some list →
      ∃ left, deleteProperties re list props.table = some left ∧ ∀ key, left.lookup key =
        if listed.any (selects re · key) then none else props.table.lookup key := by
  refine ⟨copied_iff_copyable hnames merge exclude source props, ?_⟩
  intro listed list hlisted hlist
  rw [hlisted, hlist] at hnames
  exact deleteProperties_selected hnames props

/-- A frame with one property, which is a text. -/
def oneText (key : String) (hkey : isValidVSMapKey key) (bytes : Bytes)
    (hbytes : bytes.length < 2 ^ 31) : FrameProps ℕ ℕ ℕ where
  table := AList.singleton key (.data, [.data 1 bytes])
  keys_valid k hk := by
    rw [AList.mem_keys, AList.keys_singleton, List.mem_singleton] at hk
    rwa [hk]
  keys_length := by simp
  values_length k type vals h := by
    have hmem := List.mem_singleton.mp (AList.mem_lookup_iff.mp h)
    obtain ⟨rfl, hentry⟩ := Sigma.mk.inj_iff.mp hmem
    cases hentry
    simp
  bytes_length k type vals h typeHint bytes' hbytes' := by
    have hmem := List.mem_singleton.mp (AList.mem_lookup_iff.mp h)
    obtain ⟨rfl, hentry⟩ := Sigma.mk.inj_iff.mp hmem
    cases hentry
    obtain ⟨rfl, rfl⟩ := PropElement.data.inj (List.mem_singleton.mp hbytes')
    exact hbytes

/-- A matcher for `^a.*$`. -/
def startsWithA : Regexes := ⟨fun _ => true, fun _ key => key.toList.head? == some 'a'⟩

/-- `propCopy` with the list `["a*"]` copies a text. -/
theorem properties_selected_pattern :
    Copied (Selected startsWithA false (some ["a*"])) false
      (oneText "ab" rfl [120] (by decide)).table (oneText "cd" rfl [121] (by decide)).table
      (copyProperties startsWithA false false (some ["^a.*$"])
        (oneText "ab" rfl [120] (by decide)).table (oneText "cd" rfl [121] (by decide)).table) := by
  have hnames : propNamesToArray "propCopy" startsWithA (some ["a*"]) = .ok (some ["^a.*$"]) := rfl
  refine (properties_selected hnames false false _ _).1.mpr (.inr ?_)
  intro key propType vals hlookup _
  obtain ⟨rfl, hentry⟩ := Sigma.mk.inj_iff.mp
    (List.mem_singleton.mp (AList.mem_lookup_iff.mp hlookup))
  cases hentry
  exact .inr ⟨List.cons_ne_nil _ _, fun _ _ => rfl⟩

/-- A text that the list names twice is there twice. -/
theorem propCopy_doubles :
    ¬Copied (Selected startsWithA false (some ["ab", "ab"])) false
      (oneText "ab" rfl [120] (by decide)).table (oneText "cd" rfl [121] (by decide)).table
      (copyProperties startsWithA false false (some ["ab", "ab"])
        (oneText "ab" rfl [120] (by decide)).table (oneText "cd" rfl [121] (by decide)).table) := by
  have hnames : propNamesToArray "propCopy" startsWithA (some ["ab", "ab"]) =
    .ok (some ["ab", "ab"]) := rfl
  intro h
  obtain ⟨hnone, -⟩ | hall := (copied_iff_copyable hnames false false _ _).mp h
  · cases hnone
  · obtain hnumbers | ⟨-, honce⟩ := hall "ab" .data [.data 1 [120]] rfl rfl
    · simp at hnumbers
    · exact absurd (honce rfl rfl) (by decide)

end AviSynth
