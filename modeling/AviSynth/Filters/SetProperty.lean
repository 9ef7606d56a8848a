import AviSynth.Frames.PropTable
import AviSynth.Library.Doubles
import Mathlib.Data.Finmap

/-!
# `propSet`

`propSet` and its relatives set a property of a frame to a value of the script. A frame that
has the value already is returned as it is, which spares a copy of its map.
-/

namespace AviSynth

open MachineInt

variable {C F : Type}

/-- A value of the script. A `float` is given as the double that it is converted to; `C` stands
for the clips. -/
inductive PropInput (C : Type)
  | undefined
  | bool (b : Bool)
  | int (i : ℤ)
  | long (l : ℤ)
  | float (f : Double)
  | double (d : Double)
  | string (s : Bytes)
  | array (elements : List (PropInput C))
  | clip (clip : C)
  | function

namespace PropInput

/-- `GetAVSTypeName`. -/
def typeName : PropInput C → String
  | undefined => "undefined value"
  | bool _ => "bool"
  | int _ => "int"
  | long _ => "long"
  | float _ => "float"
  | double _ => "double"
  | string _ => "string"
  | array _ => "array"
  | clip _ => "clip"
  | function => "function"

/-- `AsLong` of a value that `IsInt`. -/
def asLong : PropInput C → Option ℤ
  | int i | long i => some i
  | _ => none

/-- `AsFloat` of a value that `IsFloat`; `ofInt` converts integers. -/
def asFloat (ofInt : ℤ → Double) : PropInput C → Option Double
  | int i | long i => some (ofInt i)
  | float d | double d => some d
  | _ => none

/-- `AsString` of a value that `IsString`, as a C string. -/
def asString : PropInput C → Option Bytes
  | string s => some (cString s)
  | _ => none

/-- `AsClip` of a value that `IsClip`. -/
def asClip : PropInput C → Option C
  | clip c => some c
  | _ => none

/-- `operator[]` and `ArraySize`, which take another value for an array of its own. -/
def elements : PropInput C → List (PropInput C)
  | array elements => elements
  | value => [value]

end PropInput

/-- The type to set: 0 is for the type of the value, the other ones for those of the
functions. -/
inductive PropKind where
  | auto
  | int
  | float
  | string
  | array
  | clip
  deriving DecidableEq

/-- What is to be set. A value is given directly, or is the result of a function, which may end
with an error. -/
inductive SetValue (C : Type)
  | direct (value : PropInput C)
  | function (result : Except String (PropInput C))

/-- `PROPDATATYPEHINT_UTF8`. -/
def propDataTypeHintUtf8 : ℤ := 1

namespace PropTable

variable {V : Type}

/-- `propNumElements`. -/
def propNumElements (t : PropTable V) (key : String) : ℤ :=
  match t.lookup key with
  | none => -1
  | some entry => i32 entry.2.length

/-- `propGetType`. -/
def propGetType (t : PropTable V) (key : String) : Option AVSPropertyType :=
  (t.lookup key).map (·.1)

/-- The first value of a property. -/
def propGet (t : PropTable V) (key : String) : Option V :=
  (t.lookup key).bind fun entry => entry.2.head?

/-- `propSetShared`. -/
def propSet (t : PropTable V) (key : String) (propType : AVSPropertyType) (val : V) :
    AVSPropAppendMode → Bool × PropTable V
  | .replace =>
    if isValidVSMapKey key then (true, t.insert key (propType, [val])) else (false, t)
  | .append => t.propAppend key propType val
  | .touch =>
    if isValidVSMapKey key then
      if (t.lookup key).isSome then (false, t) else (true, t.insert key (propType, []))
    else (false, t)

/-- A table of one key. -/
theorem of_lookup_singleton {k key : String} {entry v : AVSPropertyType × List V}
    (h : (AList.singleton key v : PropTable V).lookup k = some entry) : k = key ∧ v = entry := by
  have hmem : (⟨k, entry⟩ : Sigma fun _ : String => AVSPropertyType × List V) ∈ [⟨key, v⟩] :=
    List.of_mem_dlookup h
  simpa [eq_comm] using hmem

end PropTable

/-- The message for a result that is not zero. -/
def settingFailed (name : String) (res : ℕ) : String :=
  s!"error setting property '{name}', error = {res}"

/-- The error of a property that is set, if there is one, and the properties after. -/
abbrev SetResult (C F : Type) := Option String × PropTable (PropElement Double C F)

/-- What becomes of the result of `propSetInt` and its relatives. -/
def setOutcome (name : String) (set : Bool × PropTable (PropElement Double C F)) :
    SetResult C F :=
  (if set.1 then none else some (settingFailed name 1), set.2)

/-- The loops that append the elements of an array, which have to be of one type. -/
def appendElements (name typeText : String) (propType : AVSPropertyType)
    (convert : PropInput C → Option (PropElement Double C F)) :
    List (PropInput C) → PropTable (PropElement Double C F) → SetResult C F
  | [], avsmap => (none, avsmap)
  | value :: values, avsmap =>
    match convert value with
    | none => (some (s!"Wrong data type in property '{name}': all array elements should be " ++
        s!"the same ({typeText}) type"), avsmap)
    | some val =>
      match avsmap.propAppend name propType val with
      | (true, avsmap) => appendElements name typeText propType convert values avsmap
      | (false, avsmap) => (some (settingFailed name 1), avsmap)

/-- An array of numbers, which is set as a whole. -/
def setNumbers (name typeText : String) (propType : AVSPropertyType)
    (convert : PropInput C → Option (PropElement Double C F)) (values : List (PropInput C))
    (avsmap : PropTable (PropElement Double C F)) : SetResult C F :=
  match values.mapM convert with
  | none => (some (s!"Wrong data type in property '{name}': all array elements should be " ++
      s!"the same ({typeText}) type"), avsmap)
  | some vals => setOutcome name (avsmap.propSetArray name propType vals values.length)

section SetProperty

variable (ofInt : ℤ → Double)

/-- The value as an int. -/
def intElement (value : PropInput C) : Option (PropElement Double C F) := value.asLong.map .int

/-- The value as a float. -/
def floatElement (value : PropInput C) : Option (PropElement Double C F) :=
  (value.asFloat ofInt).map .float

/-- The value as a string. -/
def stringElement (value : PropInput C) : Option (PropElement Double C F) :=
  value.asString.map (.data propDataTypeHintUtf8)

/-- The value as a clip. -/
def clipElement (value : PropInput C) : Option (PropElement Double C F) := value.asClip.map .clip

/-- The message for a value that the type does not allow. -/
def wrongType (name : String) (result : PropInput C) : String :=
  s!"Wrong data type, property '{name}' type is not {result.typeName}"

/-- An array: its first element decides on the type. -/
def setElements (name : String) (result : PropInput C)
    (avsmap : PropTable (PropElement Double C F)) : SetResult C F :=
  match result.elements with
  | [] => (some (wrongType name result), avsmap)
  | first :: rest =>
    if first.asLong.isSome then
      setNumbers name "integer" .int intElement (first :: rest) avsmap
    else if (first.asFloat ofInt).isSome then
      setNumbers name "float" .float (floatElement ofInt) (first :: rest) avsmap
    else if first.asString.isSome then
      appendElements name "string" .data stringElement (first :: rest) (avsmap.erase name)
    else if first.asClip.isSome then
      appendElements name "Clip" .clip clipElement (first :: rest) (avsmap.erase name)
    else (some (wrongType name result), avsmap)

/-- A single value. -/
def setSingle (name : String) (result : PropInput C) (propType : AVSPropertyType)
    (value : Option (PropElement Double C F)) (appendMode : AVSPropAppendMode)
    (avsmap : PropTable (PropElement Double C F)) : SetResult C F :=
  match value with
  | some val => setOutcome name (avsmap.propSet name propType val appendMode)
  | none => (some (wrongType name result), avsmap)

/-- The set of `SetProperty::GetFrame`. `propDeleteKey` tells that it has found the key, which
is taken for an error. -/
def performSet (name : String) (propType : PropKind) (appendMode : AVSPropAppendMode)
    (result : PropInput C) (avsmap : PropTable (PropElement Double C F)) : SetResult C F :=
  match result with
  | .array [] =>
    (if (avsmap.lookup name).isSome then some (settingFailed name 1) else none,
      avsmap.erase name)
  | result =>
    match propType with
    | .int => setSingle name result .int (intElement result) appendMode avsmap
    | .float => setSingle name result .float (floatElement ofInt result) appendMode avsmap
    | .string => setSingle name result .data (stringElement result) appendMode avsmap
    | .array => setElements ofInt name result avsmap
    | .clip => setSingle name result .clip (clipElement result) appendMode avsmap
    | .auto => (some (wrongType name result), avsmap)

/-- The test by which a frame is returned unaltered. -/
def unaltered (name : String) (propType : PropKind) (appendMode : AVSPropAppendMode)
    (result : PropInput C) (avsmap : PropTable (PropElement Double C F)) : Bool :=
  if appendMode ≠ .replace then false
  else if avsmap.propNumElements name ≠ 1 then false
  else
    match propType, avsmap.propGetType name, avsmap.propGet name with
    | .int, some .int, some (.int val) => result.asLong.any (val == ·)
    | .float, some .float, some (.float val) => (result.asFloat ofInt).any (val.eq ·)
    | .string, some .data, some (.data _ val) =>
      result.asString.any fun valToSet => i32 val.length == valToSet.length && valToSet == val
    | _, _, _ => false

/-- The type of a value. -/
def autoKind (result : PropInput C) : Except String PropKind :=
  match result with
  | .int _ | .long _ => .ok .int
  | .float _ | .double _ => .ok .float
  | .string _ => .ok .string
  | .array _ => .ok .array
  | .clip _ => .ok .clip
  | result => .error s!"Invalid return type (Was a {result.typeName})"

/-- The type that a value asks for by itself. -/
def resolveKind (propType : PropKind) (result : PropInput C) : Except String PropKind :=
  if propType = .auto then autoKind result else .ok propType

/-- What a frame gets, where the test for an unaltered frame is as given. -/
def setWith (test : PropKind → PropInput C → Bool) (name : String) (propType : PropKind)
    (appendMode : AVSPropAppendMode) (result : PropInput C)
    (avsmap : PropTable (PropElement Double C F)) : SetResult C F :=
  match resolveKind propType result with
  | .error msg => (some ("propAdd: " ++ msg), avsmap)
  | .ok propType =>
    if test propType result then (none, avsmap)
    else
      let set := performSet ofInt name propType appendMode result avsmap
      (set.1.map ("propAdd: " ++ ·), set.2)

/-- `SetProperty::GetFrame`, for the properties of the frame. A value that is given directly
has its own type. -/
def setPropertyWith (test : PropKind → PropInput C → Bool) (name : String) (kind : PropKind)
    (appendMode : AVSPropAppendMode) (value : SetValue C)
    (avsmap : PropTable (PropElement Double C F)) : SetResult C F :=
  match value with
  | .direct result => setWith ofInt test name .auto appendMode result avsmap
  | .function (.ok result) => setWith ofInt test name kind appendMode result avsmap
  | .function (.error msg) => (some msg, avsmap)

/-- `SetProperty`, with its test for an unaltered value. -/
def setProperty (name : String) (kind : PropKind) (appendMode : AVSPropAppendMode)
    (value : SetValue C) (avsmap : PropTable (PropElement Double C F)) : SetResult C F :=
  setPropertyWith ofInt
    (fun propType result => unaltered ofInt name propType appendMode result avsmap)
    name kind appendMode value avsmap

/-- The same without the test. -/
def setAlways (name : String) (kind : PropKind) (appendMode : AVSPropAppendMode)
    (value : SetValue C) (avsmap : PropTable (PropElement Double C F)) : SetResult C F :=
  setPropertyWith ofInt (fun _ _ => false) name kind appendMode value avsmap

end SetProperty

/-- The type of arrays of a value. -/
def PropElement.type {D C F : Type} : PropElement D C F → AVSPropertyType
  | .int _ => .int
  | .float _ => .float
  | .data _ _ => .data
  | .clip _ => .clip
  | .frame _ => .frame

/-- Properties whose arrays have values of their type. -/
structure TypedProps (C F : Type) extends FrameProps Double C F where
  typed : ∀ key type vals, table.lookup key = some (type, vals) → ∀ val ∈ vals, val.type = type

/-- The same error, and the same types and values for all keys. -/
def SetResult.Same (r s : SetResult C F) : Prop :=
  r.1 = s.1 ∧ ∀ key, r.2.lookup key = s.2.lookup key

/-- A value that a property has and one that it is set to are written alike: a zero has the same
sign, and a string that has the same bytes is marked as UTF-8 already. -/
def WrittenAlike (ofInt : ℤ → Double) (propType : PropKind) (result : PropInput C) :
    PropElement Double C F → Prop
  | .float val => propType = .float →
    ∀ d, result.asFloat ofInt = some d → val.isZero → d.isZero → val = d
  | .data typeHint val => propType = .string →
    result.asString = some val → typeHint = propDataTypeHintUtf8
  | _ => True

/-- If a value replaces a single one, they are written alike. -/
def ReplacesAlike (ofInt : ℤ → Double) (name : String) (propType : PropKind)
    (appendMode : AVSPropAppendMode) (result : PropInput C)
    (avsmap : PropTable (PropElement Double C F)) : Prop :=
  ∀ type val kind, appendMode = .replace → avsmap.lookup name = some (type, [val]) →
    resolveKind propType result = .ok kind → WrittenAlike ofInt kind result val

/-- The same for a value as it is given. -/
def SetsAlike (ofInt : ℤ → Double) (name : String) (kind : PropKind)
    (appendMode : AVSPropAppendMode) (value : SetValue C)
    (avsmap : PropTable (PropElement Double C F)) : Prop :=
  match value with
  | .direct result => ReplacesAlike ofInt name .auto appendMode result avsmap
  | .function (.ok result) => ReplacesAlike ofInt name kind appendMode result avsmap
  | .function (.error _) => True

namespace TypedProps

variable {ofInt : ℤ → Double} {name : String} {propType kind : PropKind}
  {appendMode : AVSPropAppendMode} {result : PropInput C} (p : TypedProps C F)
  {type : AVSPropertyType}

/-- A property that counts as one value has one. -/
theorem single_of_propNumElements (h : p.table.propNumElements name = 1) :
    ∃ type val, p.table.lookup name = some (type, [val]) ∧ val.type = type := by
  cases hlookup : p.table.lookup name with
  | none =>
    simp [PropTable.propNumElements, hlookup] at h
  | some entry =>
    obtain ⟨type, vals⟩ := entry
    have hlength := p.values_length name type vals hlookup
    rw [PropTable.propNumElements, hlookup] at h
    dsimp only at h
    rw [i32_of_range (by omega) (by omega)] at h
    obtain ⟨val, rfl⟩ := List.length_eq_one_iff.mp (by omega : vals.length = 1)
    exact ⟨type, val, rfl, p.typed name type [val] hlookup val List.mem_cons_self⟩

/-- The value is the same for the test, where a property has one. -/
def Matches (ofInt : ℤ → Double) (propType : PropKind) (result : PropInput C) :
    PropElement Double C F → Prop
  | .int val => propType = .int ∧ result.asLong = some val
  | .float val => propType = .float ∧ ∃ d, result.asFloat ofInt = some d ∧ val.eq d = true
  | .data _ val => propType = .string ∧ result.asString = some val
  | _ => False

theorem unaltered_single {val : PropElement Double C F}
    (hlookup : p.table.lookup name = some (type, [val])) :
    unaltered ofInt name propType .replace result p.table = true ↔
      Matches ofInt propType result val := by
  have htype : val.type = type := p.typed name type [val] hlookup val List.mem_cons_self
  have hone : p.table.propNumElements name = 1 := by
    rw [PropTable.propNumElements, hlookup]
    exact i32_of_range (x := 1) (by decide) (by decide)
  subst htype
  simp only [unaltered, hone, PropTable.propGetType, PropTable.propGet, hlookup, ne_eq,
    not_true_eq_false, if_false, Option.map_some, Option.bind_some, List.head?_cons]
  cases val with
  | int val =>
    cases propType with
    | int =>
      cases hlong : result.asLong with
      | none => simp [PropElement.type, Matches, hlong]
      | some i =>
        have hcomm : val = i ↔ i = val := eq_comm
        simpa [PropElement.type, Matches, hlong] using hcomm
    | _ => simp [PropElement.type, Matches]
  | float val =>
    cases propType with
    | float =>
      cases hfloat : result.asFloat ofInt with
      | none | some => simp [PropElement.type, Matches, hfloat]
    | _ => simp [PropElement.type, Matches]
  | data typeHint val =>
    cases propType with
    | string =>
      have hlength := p.bytes_length name _ _ hlookup typeHint val List.mem_cons_self
      have hi32 : i32 val.length = val.length := i32_of_range (by omega) (by omega)
      cases hstring : result.asString with
      | none => simp [PropElement.type, Matches, hstring]
      | some s =>
        have hequal : val.length = s.length ∧ s = val ↔ s = val :=
          ⟨fun h => h.2, fun h => ⟨by rw [h], h⟩⟩
        simpa [PropElement.type, Matches, hstring, hi32] using hequal
    | _ => simp [PropElement.type, Matches]
  | clip | frame => cases propType <;> simp [PropElement.type, Matches]

/-- A frame that is returned unaltered has one value of the key. -/
theorem single_of_unaltered (h : unaltered ofInt name propType appendMode result p.table = true) :
    appendMode = .replace ∧ ∃ type val, p.table.lookup name = some (type, [val]) ∧
      val.type = type ∧ Matches ofInt propType result val := by
  have hreplace : appendMode = .replace := by
    by_contra hother
    simp [unaltered, hother] at h
  subst hreplace
  have hone : p.table.propNumElements name = 1 := by
    by_contra hother
    simp [unaltered, hother] at h
  obtain ⟨type, val, hlookup, htype⟩ := p.single_of_propNumElements hone
  exact ⟨rfl, type, val, hlookup, htype, (p.unaltered_single hlookup).mp h⟩

/-- Replacing a value by itself changes nothing, and only that. -/
theorem same_insert_iff {V : Type} {t : PropTable V} {old new : V}
    (hlookup : t.lookup name = some (type, [old])) :
    (∀ key, t.lookup key = (t.insert name (type, [new])).lookup key) ↔ old = new := by
  constructor
  · intro h
    have hname := h name
    rw [hlookup, AList.lookup_insert] at hname
    simpa using hname
  · rintro rfl key
    by_cases hkey : key = name
    · subst hkey
      rw [hlookup, AList.lookup_insert]
    · rw [AList.lookup_insert_ne hkey]

/-- What is set where the test finds the value. -/
theorem same_performSet_iff {val : PropElement Double C F}
    (hlookup : p.table.lookup name = some (type, [val])) (htype : val.type = type)
    (hmatches : Matches ofInt propType result val) :
    SetResult.Same (none, p.table) (performSet ofInt name propType .replace result p.table) ↔
      WrittenAlike ofInt propType result val := by
  have hvalid : isValidVSMapKey name :=
    p.keys_valid name (AList.lookup_isSome.mp (by rw [hlookup]; rfl))
  subst htype
  have hsame (new : PropElement Double C F) :
      SetResult.Same (none, p.table)
        (setSingle name result val.type (some new) .replace p.table) ↔ val = new := by
    rw [← same_insert_iff hlookup]
    simp [SetResult.Same, setSingle, setOutcome, PropTable.propSet, hvalid]
  cases val with
  | int val =>
    obtain ⟨rfl, hlong⟩ := hmatches
    have harray : performSet ofInt name .int .replace result p.table =
        setSingle name result .int (some (.int val)) .replace p.table := by
      cases result <;> simp_all [performSet, intElement, PropInput.asLong]
    rw [harray]
    simpa [WrittenAlike, PropElement.type] using hsame (.int val)
  | float val =>
    obtain ⟨rfl, d, hfloat, heq⟩ := hmatches
    have harray : performSet ofInt name .float .replace result p.table =
        setSingle name result .float (some (.float d)) .replace p.table := by
      cases result <;> simp_all [performSet, floatElement, PropInput.asFloat]
    rw [harray]
    refine (hsame (.float d)).trans ?_
    constructor
    · intro hval
      have hval : val = d := by simpa using hval
      intro _ d' hd' _ _
      rw [hval]
      exact Option.some.inj (hfloat.symm.trans hd')
    · intro halike
      obtain rfl | ⟨hzero, hzero'⟩ := Double.same_of_eq heq
      · rfl
      · rw [halike rfl d hfloat hzero hzero']
  | data typeHint val =>
    obtain ⟨rfl, hstring⟩ := hmatches
    have harray : performSet ofInt name .string .replace result p.table =
        setSingle name result .data (some (.data propDataTypeHintUtf8 val)) .replace p.table := by
      cases result <;> simp_all [performSet, stringElement, PropInput.asString]
    rw [harray]
    refine (hsame (.data propDataTypeHintUtf8 val)).trans ?_
    simp [WrittenAlike, hstring]
  | clip val => exact hmatches.elim
  | frame val => exact hmatches.elim

/-- Where the test does not find the value, it is not one that would be written in another
way. -/
theorem replacesAlike_of_not_unaltered {kind : PropKind}
    (hkind : resolveKind propType result = .ok kind)
    (h : ¬unaltered ofInt name kind appendMode result p.table = true) :
    ReplacesAlike ofInt name propType appendMode result p.table := by
  intro type val kind' hreplace hlookup hkind'
  obtain rfl : kind = kind' := Except.ok.inj (hkind.symm.trans hkind')
  subst hreplace
  rw [p.unaltered_single hlookup] at h
  cases val with
  | int val => trivial
  | float val =>
    intro hfloat d hd hzero hzero'
    exact absurd ⟨hfloat, d, hd, Double.eq_of_isZero hzero hzero'⟩ h
  | data typeHint val =>
    intro hstring hval
    exact absurd ⟨hstring, hval⟩ h
  | clip val => trivial
  | frame val => trivial

/-- The test and the set agree on one result. -/
theorem same_setWith_iff (name : String) (propType : PropKind) (appendMode : AVSPropAppendMode)
    (result : PropInput C) :
    SetResult.Same
        (setWith ofInt (fun kind result => unaltered ofInt name kind appendMode result p.table) name
          propType appendMode result p.table)
        (setWith ofInt (fun _ _ => false) name propType appendMode result p.table) ↔
      ReplacesAlike ofInt name propType appendMode result p.table := by
  unfold setWith
  cases hkind : resolveKind propType result with
  | error msg =>
    have halike : ReplacesAlike ofInt name propType appendMode result p.table := by
      intro type val kind _ _ hok
      rw [hkind] at hok
      cases hok
    exact ⟨fun _ => halike, fun _ => ⟨rfl, fun _ => rfl⟩⟩
  | ok kind =>
    dsimp only
    by_cases htest : unaltered ofInt name kind appendMode result p.table = true
    · obtain ⟨rfl, type, val, hlookup, htype, hmatches⟩ := p.single_of_unaltered htest
      have hperform := p.same_performSet_iff hlookup htype hmatches
      rw [if_pos htest, if_neg Bool.false_ne_true]
      have halike : ReplacesAlike ofInt name propType .replace result p.table ↔
          WrittenAlike ofInt kind result val := by
        constructor
        · exact fun h => h type val kind rfl hlookup hkind
        · intro h type' val' kind' _ hlookup' hkind'
          obtain rfl : kind = kind' := Except.ok.inj (hkind.symm.trans hkind')
          have hval : val = val' := by simpa using (Prod.mk.inj (Option.some.inj
            (hlookup.symm.trans hlookup'))).2
          rwa [← hval]
      rw [halike, ← hperform]
      simp [SetResult.Same, eq_comm]
    · rw [if_neg htest, if_neg Bool.false_ne_true]
      exact ⟨fun _ => p.replacesAlike_of_not_unaltered hkind htest,
        fun _ => ⟨rfl, fun _ => rfl⟩⟩

end TypedProps

/-- The test by which a frame is returned unaltered changes nothing, unless the value is a zero
of the other sign, or a string whose bytes are there with another type hint. -/
theorem setProperty_same_iff (ofInt : ℤ → Double) (name : String) (kind : PropKind)
    (appendMode : AVSPropAppendMode) (value : SetValue C) (p : TypedProps C F) :
    SetResult.Same (setProperty ofInt name kind appendMode value p.table)
        (setAlways ofInt name kind appendMode value p.table) ↔
      SetsAlike ofInt name kind appendMode value p.table := by
  cases value with
  | direct result => exact p.same_setWith_iff name .auto appendMode result
  | function result =>
    cases result with
    | ok result => exact p.same_setWith_iff name kind appendMode result
    | error msg => exact ⟨fun _ => trivial, fun _ => ⟨rfl, fun _ => rfl⟩⟩

/-- A frame that has one property of one value. -/
def TypedProps.single (key : String) (val : PropElement Double C F)
    (hkey : isValidVSMapKey key) (hbytes : ∀ typeHint bytes, val = .data typeHint bytes →
      bytes.length < 2 ^ 31) : TypedProps C F where
  table := AList.singleton key (val.type, [val])
  keys_valid := by
    intro k hk
    obtain rfl : k = key := by simpa [← AList.mem_keys, AList.singleton, AList.keys] using hk
    exact hkey
  keys_length := by simp [AList.singleton, AList.keys]
  values_length := by
    intro k type vals hlookup
    obtain ⟨-, rfl⟩ := Prod.mk.inj (PropTable.of_lookup_singleton hlookup).2
    simp
  bytes_length := by
    intro k type vals hlookup typeHint bytes hbytes'
    obtain ⟨-, rfl⟩ := Prod.mk.inj (PropTable.of_lookup_singleton hlookup).2
    exact hbytes typeHint bytes (List.mem_singleton.mp hbytes').symm
  typed := by
    intro k type vals hlookup val' hval'
    obtain ⟨rfl, rfl⟩ := Prod.mk.inj (PropTable.of_lookup_singleton hlookup).2
    rw [List.mem_singleton.mp hval']

/-- The byte of a string that is there already keeps its mark as binary data, and a zero that is
there keeps its sign. -/
theorem not_setProperty_same :
    (∃ p : TypedProps Unit Unit, ¬SetResult.Same
      (setProperty (fun _ => 0) "a" .string .replace (.direct (.string [120])) p.table)
      (setAlways (fun _ => 0) "a" .string .replace (.direct (.string [120])) p.table)) ∧
    ∃ p : TypedProps Unit Unit, ¬SetResult.Same
      (setProperty (fun _ => 0) "a" .float .replace (.direct (.double 0)) p.table)
      (setAlways (fun _ => 0) "a" .float .replace (.direct (.double 0)) p.table) := by
  refine ⟨⟨.single "a" (.data 0 [120]) (by decide) ?_, ?_⟩,
    ⟨.single "a" (.float .negativeZero) (by decide) ?_, ?_⟩⟩
  · rintro _ bytes ⟨⟩
    decide
  · intro hsame
    have hvalue : some (AVSPropertyType.data, [(.data 0 [120] : PropElement Double Unit Unit)]) =
        some (.data, [.data propDataTypeHintUtf8 [120]]) := hsame.2 "a"
    simp [propDataTypeHintUtf8] at hvalue
  · rintro _ bytes ⟨⟩
  · intro hsame
    have hvalue :
        some (AVSPropertyType.float, [(.float .negativeZero : PropElement Double Unit Unit)]) =
          some (.float, [.float 0]) := hsame.2 "a"
    simp [Double.negativeZero] at hvalue

end AviSynth
