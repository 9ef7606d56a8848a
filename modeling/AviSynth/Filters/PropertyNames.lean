import AviSynth.Frames.PropTable

/-!
# Lists of property names

`propCopy` and `propDelete` take a list of names, of patterns with asterisks and of regular
expressions between `^` and `$`. A pattern becomes a regular expression when the filter is
made; after that a name is told from an expression by its delimiters.
-/

namespace AviSynth

open MachineInt

/-- The regular expressions of the standard library. -/
structure Regexes where
  valid : String → Bool
  isMatch : String → String → Bool

/-- The name stands between the delimiters of an expression. -/
def isDelimited (name : String) : Bool :=
  name.toList.head? == some '^' && name.toList.getLast? == some '$'

/-- The name holds a `*`. -/
def hasWildcard (name : String) : Bool := name.toList.contains '*'

/-- The regular expression of a pattern. -/
def wildcardRegex (name : String) : String :=
  "^" ++ String.ofList (name.toList.flatMap fun c => if c = '*' then ['.', '*'] else [c]) ++ "$"

/-- A round of the loop of `PropNamesToArray`. -/
def convertName (filtername : String) (re : Regexes) (name : String) : Except String String :=
  if name = "" then .error (filtername ++ " error: list contains empty name.")
  else if isDelimited name then
    if re.valid name then .ok name else .error (filtername ++ " error: invalid regex string.")
  else
    let nameStr := if hasWildcard name then wildcardRegex name else name
    if re.valid nameStr then .ok nameStr
    else .error (filtername ++ " error: invalid regex string while converting * wildcard.")

/-- `PropNamesToArray`. -/
def propNamesToArray (filtername : String) (re : Regexes) :
    Option (List String) → Except String (Option (List String))
  | none => .ok none
  | some names => (names.mapM (convertName filtername re)).map some

/-- How a key is held against a name in the array. -/
def nameMatches (re : Regexes) (name key : String) : Bool :=
  if isDelimited name then re.isMatch name key else name == key

/-! ### What a list selects -/

/-- A key is selected by its name, by a pattern or by a regular expression. -/
def selects (re : Regexes) (item key : String) : Bool :=
  if isDelimited item then re.isMatch item key
  else if hasWildcard item then re.isMatch (wildcardRegex item) key
  else item == key

theorem isDelimited_wildcardRegex (name : String) : isDelimited (wildcardRegex name) = true := by
  have hlast (chars : List Char) : ('^' :: (chars ++ ['$'])).getLast? = some '$' := by
    rw [← List.cons_append, List.getLast?_concat]
  simp [isDelimited, wildcardRegex, hlast]

variable {filtername : String} {items names : List String} {re : Regexes}

theorem nameMatches_convertName {item name : String}
    (h : convertName filtername re item = .ok name) (key : String) :
    nameMatches re name key = selects re item key := by
  simp only [convertName] at h
  split_ifs at h with hempty hdelimited _ hwildcard
  · cases h
    rw [nameMatches, selects, if_pos hdelimited, if_pos hdelimited]
  · cases h
    rw [nameMatches, selects, if_pos (isDelimited_wildcardRegex item), if_neg hdelimited,
      if_pos hwildcard]
  · cases h
    rw [nameMatches, selects, if_neg hdelimited, if_neg hdelimited, if_neg hwildcard]

/-- Each name in the array matches what its item selects. -/
theorem map_nameMatches (h : items.mapM (convertName filtername re) = .ok names) (key : String) :
    names.map (nameMatches re · key) = items.map (selects re · key) := by
  induction items generalizing names with
  | nil =>
    cases h
    rfl
  | cons item items ih =>
    rw [List.mapM_cons] at h
    cases hname : convertName filtername re item with
    | error message => simp [hname, bind, Except.bind] at h
    | ok name =>
      cases hrest : items.mapM (convertName filtername re) with
      | error message => simp [hname, hrest, bind, Except.bind] at h
      | ok rest =>
        simp only [hname, hrest, bind, Except.bind, pure, Except.pure, Except.ok.injEq] at h
        rw [← h, List.map_cons, List.map_cons, nameMatches_convertName hname, ih hrest]

/-- So do the names of an accepted list. -/
theorem propNamesToArray_matches
    (h : propNamesToArray filtername re (some items) = .ok (some names)) (key : String) :
    names.map (nameMatches re · key) = items.map (selects re · key) := by
  rw [propNamesToArray] at h
  cases hmap : items.mapM (convertName filtername re) with
  | error message => simp [hmap, Except.map] at h
  | ok converted =>
    simp only [hmap, Except.map, Except.ok.injEq, Option.some.injEq] at h
    rw [← h]
    exact map_nameMatches hmap key

theorem any_nameMatches (h : propNamesToArray filtername re (some items) = .ok (some names))
    (key : String) :
    names.any (nameMatches re · key) = items.any (selects re · key) := by
  have hmap := congrArg (List.any · id) (propNamesToArray_matches h key)
  simpa [List.any_map, Function.comp_def] using hmap

/-! ### `propDelete` -/

variable {V : Type}

/-- The loop over the keys of the map that shrinks; `none` stands for the error of
`propGetKey` for an index out of bounds. -/
def deleteMatches (isMatch : String → Bool) : ℕ → ℕ → PropTable V → Option (PropTable V)
  | 0, _, avsmap => some avsmap
  | rounds + 1, index, avsmap =>
    avsmap.keys[index]?.bind fun key =>
      if isMatch key then deleteMatches isMatch rounds index (avsmap.erase key)
      else deleteMatches isMatch rounds (index + 1) avsmap

/-- `DeleteProperty::GetFrame`, for the properties of the frame. -/
def deleteProperties (re : Regexes) (propNames : List String) (props : PropTable V) :
    Option (PropTable V) :=
  if props.propNumKeys = 0 then some props
  else propNames.foldlM (fun avsmap s =>
    if isDelimited s then deleteMatches (re.isMatch s) avsmap.propNumKeys.toNat 0 avsmap
    else some (avsmap.erase s)) props

/-- From an index on, the loop deletes the keys that match. -/
theorem deleteMatches_eq (isMatch : String → Bool) {rest : List String} (done : List String)
    {t : PropTable V} (hkeys : t.keys = done ++ rest) :
    ∃ t', deleteMatches isMatch rest.length done.length t = some t' ∧
      t'.keys = done ++ rest.filter (!isMatch ·) ∧
      ∀ key, t'.lookup key = if key ∈ rest ∧ isMatch key then none else t.lookup key := by
  induction rest generalizing done t with
  | nil => exact ⟨t, rfl, hkeys, fun key => by simp⟩
  | cons k rest ih =>
    have hnodup := hkeys ▸ t.keys_nodup
    have hdone : k ∉ done := fun h =>
      List.disjoint_of_nodup_append hnodup h List.mem_cons_self
    have hrest : k ∉ rest :=
      (List.nodup_cons.mp (List.nodup_append.mp hnodup).2.1).1
    have hget : t.keys[done.length]? = some k := by simp [hkeys]
    rw [List.length_cons, deleteMatches, hget, Option.bind_some]
    by_cases hmatch : isMatch k
    · have hkeys' : (t.erase k).keys = done ++ rest := by
        rw [AList.keys_erase, hkeys, List.erase_append_right _ hdone, List.erase_cons_head]
      obtain ⟨t', hdelete, hleft, hlookup⟩ := ih done hkeys'
      rw [if_pos hmatch]
      refine ⟨t', hdelete, by rw [hleft, List.filter_cons_of_neg (by simp [hmatch])],
        fun key => ?_⟩
      rw [hlookup]
      by_cases hk : key = k
      · subst hk
        simp [hmatch]
      · simp [hk, AList.lookup_erase_ne hk]
    · have hkeys' : t.keys = (done ++ [k]) ++ rest := by simp [hkeys]
      obtain ⟨t', hdelete, hleft, hlookup⟩ := ih (done ++ [k]) hkeys'
      rw [if_neg hmatch]
      rw [List.length_append, List.length_singleton] at hdelete
      refine ⟨t', hdelete, by rw [hleft, List.filter_cons_of_pos (by simp [hmatch])]; simp,
        fun key => ?_⟩
      rw [hlookup]
      by_cases hk : key = k
      · subst hk
        simp [hmatch]
      · simp [hk]

/-- The loop over the names deletes what a name matches. -/
theorem foldlM_delete (re : Regexes) (names : List String) {t : PropTable V}
    (hlength : t.keys.length < 2 ^ 31) :
    ∃ t', names.foldlM (fun avsmap s =>
        if isDelimited s then deleteMatches (re.isMatch s) avsmap.propNumKeys.toNat 0 avsmap
        else some (avsmap.erase s)) t = some t' ∧
      ∀ key, t'.lookup key = if names.any (nameMatches re · key) then none else t.lookup key := by
  induction names generalizing t with
  | nil => exact ⟨t, rfl, fun key => by simp⟩
  | cons s names ih =>
    -- a name or an expression deletes the keys that it matches
    have hone : ∃ t₁ : PropTable V,
        (if isDelimited s then deleteMatches (re.isMatch s) t.propNumKeys.toNat 0 t
          else some (t.erase s)) = some t₁ ∧ t₁.keys.length ≤ t.keys.length ∧
        ∀ key, t₁.lookup key = if nameMatches re s key then none else t.lookup key := by
      by_cases hdelimited : isDelimited s
      · have hnum : t.propNumKeys.toNat = t.keys.length := by
          rw [PropTable.propNumKeys, i32_of_range (by omega) (by omega), Int.toNat_natCast]
        obtain ⟨t₁, hdelete, hleft, hlookup⟩ :=
          deleteMatches_eq (re.isMatch s) [] (List.nil_append t.keys).symm
        refine ⟨t₁, by rw [if_pos hdelimited, hnum]; exact hdelete, ?_, fun key => ?_⟩
        · rw [hleft, List.nil_append]
          exact List.length_filter_le _ _
        · rw [hlookup, nameMatches, if_pos hdelimited]
          by_cases hmem : key ∈ t.keys
          · simp [hmem]
          · have hnone : t.lookup key = none := AList.lookup_eq_none.mpr hmem
            simp [hmem, hnone]
      · refine ⟨t.erase s, if_neg hdelimited, ?_, fun key => ?_⟩
        · rw [AList.keys_erase]
          exact List.length_erase_le
        · rw [nameMatches, if_neg hdelimited]
          by_cases hkey : key = s
          · subst hkey
            simp
          · rw [AList.lookup_erase_ne hkey, if_neg (by simpa using Ne.symm hkey)]
    obtain ⟨t₁, hone, hshorter, hlookup₁⟩ := hone
    obtain ⟨t', hrest, hlookup⟩ := ih (by omega : t₁.keys.length < 2 ^ 31)
    refine ⟨t', by rw [List.foldlM_cons, hone]; exact hrest, fun key => ?_⟩
    rw [hlookup, hlookup₁, List.any_cons]
    by_cases hs : nameMatches re s key <;> simp [hs]

/-- `propDelete` deletes the keys that its list selects, and no other one. -/
theorem deleteProperties_selected {D C F : Type}
    (hnames : propNamesToArray filtername re (some items) = .ok (some names))
    (props : FrameProps D C F) :
    ∃ t', deleteProperties re names props.table = some t' ∧
      ∀ key, t'.lookup key =
        if items.any (selects re · key) then none else props.table.lookup key := by
  rw [deleteProperties]
  split_ifs with hzero
  · have hkeys : props.table.keys.length = 0 := by
      have hlength := props.keys_length
      rw [PropTable.propNumKeys, i32_of_range (by omega) (by omega)] at hzero
      omega
    refine ⟨props.table, rfl, fun key => ?_⟩
    have hnone : props.table.lookup key = none :=
      AList.lookup_eq_none.mpr fun hmem => by
        rw [AList.mem_keys, List.eq_nil_of_length_eq_zero hkeys] at hmem
        simp at hmem
    simp [hnone]
  · obtain ⟨t', hdelete, hlookup⟩ := foldlM_delete re names props.keys_length
    exact ⟨t', hdelete, fun key => by rw [hlookup, any_nameMatches hnames]⟩

end AviSynth
