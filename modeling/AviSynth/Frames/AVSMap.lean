import AviSynth.Library.RefHeap
import AviSynth.Library.Runs

/-!
# Frame property maps

An `AVSMap` points to a storage, which maps keys to arrays of values. Copying a
map shares its storage, and a storage that is copied shares its arrays. Both are
counted, and each operation copies what is shared before it writes to it.
-/

namespace AviSynth

/-- `AVSPropertyType`. -/
inductive AVSPropertyType where
  | int
  | float
  | data
  | clip
  | frame
  deriving DecidableEq

/-- `AVSPropAppendMode`. -/
inductive AVSPropAppendMode where
  | replace
  | append
  | touch
  deriving DecidableEq

/-- `VSArray`: a single value is kept beside the vector (`V` is the type of all
property values). -/
structure VSArray (V : Type) where
  ftype : AVSPropertyType
  fsize : ℕ
  singleData : V
  data : List V
  data_eq_nil : fsize ≤ 1 → data = []
  data_length : 1 < fsize → data.length = fsize

namespace VSArray

variable {V : Type}

/-- The values, wherever they are kept. -/
def values (a : VSArray V) : List V := if a.fsize = 1 then [a.singleData] else a.data

/-- `push_back`. The first value goes beside the vector, the second takes it into
the vector. -/
def pushBack (a : VSArray V) (val : V) : VSArray V :=
  if h0 : a.fsize = 0 then
    { a with
      fsize := 1
      singleData := val
      data_eq_nil := fun _ => a.data_eq_nil (by omega)
      data_length := fun h => by omega }
  else if h1 : a.fsize = 1 then
    { a with
      fsize := 2
      data := a.data ++ [a.singleData, val]
      data_eq_nil := fun h => by omega
      data_length := fun _ => by rw [a.data_eq_nil (by omega)]; rfl }
  else
    { a with
      fsize := a.fsize + 1
      data := a.data ++ [val]
      data_eq_nil := fun h => by omega
      data_length := fun _ => by rw [List.length_append, a.data_length (by omega)]; rfl }

variable [Inhabited V]

/-- `VSArray()`. -/
def empty (ftype : AVSPropertyType) : VSArray V where
  ftype := ftype
  fsize := 0
  singleData := default
  data := []
  data_eq_nil _ := rfl
  data_length h := by omega

/-- `VSArray(const T*, size_t)`. -/
def ofList (ftype : AVSPropertyType) (vals : List V) : VSArray V where
  ftype := ftype
  fsize := vals.length
  singleData := if vals.length = 1 then vals.headD default else default
  data := if vals.length = 1 then [] else vals
  data_eq_nil h := by
    split_ifs
    · rfl
    · exact List.eq_nil_of_length_eq_zero (by omega)
  data_length h := by rw [if_neg (by omega)]

/-- `VSArray(const VSArray&)`. -/
def copy (a : VSArray V) : VSArray V where
  ftype := a.ftype
  fsize := a.fsize
  singleData := if a.fsize = 1 then a.singleData else default
  data := if 1 < a.fsize then a.data else []
  data_eq_nil h := if_neg (by omega)
  data_length h := by rw [if_pos h, a.data_length h]

omit [Inhabited V] in
/-- `push_back` adds the value at the end. -/
@[simp]
theorem values_pushBack (a : VSArray V) (val : V) :
    (a.pushBack val).values = a.values ++ [val] := by
  simp only [pushBack]
  split_ifs with h0 h1
  · simp [values, h0, a.data_eq_nil (by omega)]
  · simp [values, h1, a.data_eq_nil (by omega)]
  · simp [values, h0, h1]

omit [Inhabited V] in
@[simp]
theorem ftype_pushBack (a : VSArray V) (val : V) : (a.pushBack val).ftype = a.ftype := by
  simp only [pushBack]
  split_ifs <;> rfl

@[simp]
theorem ftype_copy (a : VSArray V) : a.copy.ftype = a.ftype := rfl

@[simp]
theorem values_empty (ftype : AVSPropertyType) : (empty ftype : VSArray V).values = [] := rfl

@[simp]
theorem values_ofList (ftype : AVSPropertyType) (vals : List V) :
    (ofList ftype vals).values = vals := by
  match vals with
  | [] => rfl
  | [_] => rfl
  | _ :: _ :: _ => rfl

/-- A copy has the same values. -/
@[simp]
theorem values_copy (a : VSArray V) : a.copy.values = a.values := by
  by_cases h1 : a.fsize = 1
  · simp [values, copy, h1]
  · by_cases h : 1 < a.fsize
    · simp [values, copy, h1, h]
    · simp [values, copy, h1, h, a.data_eq_nil (by omega)]

end VSArray

/-- `VSMapStorage`, with the addresses of its arrays. -/
structure VSMapStorage where
  data : AList fun _ : String => ℕ
  error : Bool

/-- The storages and the arrays. -/
structure MapHeap (V : Type) where
  storages : RefHeap VSMapStorage
  arrays : RefHeap (VSArray V)

namespace MapHeap

variable {V : Type}

/-- The addresses of the arrays of a storage. -/
def arraysOf (st : VSMapStorage) : List ℕ := st.data.entries.map (·.2)

/-- A reference to each of these arrays. -/
def addArrayRefs (h : MapHeap V) (ps : List ℕ) : MapHeap V :=
  { h with arrays := ps.foldl RefHeap.addRef h.arrays }

/-- `PVSArrayBase` goes away. -/
def releaseArray (h : MapHeap V) (a : ℕ) : MapHeap V :=
  { h with arrays := (h.arrays.release a).2 }

/-- `PVSMapStorage` goes away. The last one takes the references to the arrays with it. -/
def releaseStorage (h : MapHeap V) (p : ℕ) : MapHeap V :=
  match (h.storages.release p).1 with
  | none => { h with storages := (h.storages.release p).2 }
  | some st =>
    (arraysOf st).foldl releaseArray { h with storages := (h.storages.release p).2 }

/-- `new VSMapStorage()`. -/
def newStorage (h : MapHeap V) : ℕ × MapHeap V :=
  (h.storages.fresh, { h with storages := h.storages.alloc ⟨∅, false⟩ })

/-- `AVSMap::detach`, for a map that points to `p`: the address it points to after. -/
def detach (h : MapHeap V) (p : ℕ) : ℕ × MapHeap V :=
  match h.storages.get p with
  | none => (p, h)
  | some st =>
    if h.storages.Unique p then (p, h)
    else
      let h' := { h with storages := h.storages.alloc st }
      (h.storages.fresh, (h'.addArrayRefs (arraysOf st)).releaseStorage p)

/-- `AVSMap::find`. -/
def find (h : MapHeap V) (p : ℕ) (key : String) : Option ℕ :=
  (h.storages.get p).bind fun st => st.data.lookup key

/-- Let `key` point to the array `a`, in a storage that is not shared. -/
def setKey (h : MapHeap V) (p : ℕ) (key : String) (a : ℕ) : MapHeap V :=
  match h.storages.get p with
  | none => h
  | some st =>
    let h' := { h with storages := h.storages.put p { st with data := st.data.insert key a } }
    match st.data.lookup key with
    | none => h'
    | some old => h'.releaseArray old

/-- `AVSMap::insert`, of a new array. -/
def insert (h : MapHeap V) (p : ℕ) (key : String) (a : VSArray V) : ℕ × MapHeap V :=
  let h' := { h with arrays := h.arrays.alloc a }
  ((h'.detach p).1, (h'.detach p).2.setKey (h'.detach p).1 key h.arrays.fresh)

/-- `AVSMap::erase`. -/
def erase (h : MapHeap V) (p : ℕ) (key : String) : Bool × ℕ × MapHeap V :=
  match h.find p key with
  | none => (false, p, h)
  | some a =>
    let (p', h') := h.detach p
    match h'.storages.get p' with
    | none => (true, p', h')
    | some st =>
      (true, p', releaseArray { h' with
        storages := h'.storages.put p' { st with data := st.data.erase key } } a)

/-- `AVSMap::clear`. -/
def clear (h : MapHeap V) (p : ℕ) : ℕ × MapHeap V :=
  match h.storages.get p with
  | none => (p, h)
  | some st =>
    if h.storages.Unique p then
      (p, (arraysOf st).foldl releaseArray { h with storages := h.storages.put p ⟨∅, false⟩ })
    else ((h.newStorage).1, (h.newStorage).2.releaseStorage p)

/-- The loop of `AVSMap::copy`: each entry of the source is shared. -/
def shareEntries (h : MapHeap V) (p : ℕ) (entries : List (Sigma fun _ : String => ℕ)) :
    MapHeap V :=
  entries.foldl (fun h e => (h.addArrayRefs [e.2]).setKey p e.1 e.2) h

/-- `AVSMap::copy`, from a map that points to `src`. -/
def copy (h : MapHeap V) (p src : ℕ) : ℕ × MapHeap V :=
  let (p', h') := h.detach p
  match h'.storages.get src with
  | none => (p', h')
  | some st => (p', h'.shareEntries p' st.data.entries)

variable [Inhabited V]

/-- `AVSMap::detach(key)` on a storage that is not shared: the array of the key is
not shared after. -/
def detachArray (h : MapHeap V) (p : ℕ) (key : String) : MapHeap V :=
  match h.find p key with
  | none => h
  | some a =>
    match h.arrays.get a with
    | none => h
    | some arr =>
      if h.arrays.Unique a then h
      else setKey { h with arrays := h.arrays.alloc arr.copy } p key h.arrays.fresh

/-- `push_back` on the array of a key. -/
def pushBack (h : MapHeap V) (p : ℕ) (key : String) (val : V) : MapHeap V :=
  match h.find p key with
  | none => h
  | some a =>
    match h.arrays.get a with
    | none => h
    | some arr => { h with arrays := h.arrays.put a (arr.pushBack val) }

end MapHeap

/-- `isAlphaUnderscore`. -/
def isAlphaUnderscore (c : Char) : Bool :=
  ('a' ≤ c ∧ c ≤ 'z') || ('A' ≤ c ∧ c ≤ 'Z') || c = '_'

/-- `isAlphaNumUnderscore`. -/
def isAlphaNumUnderscore (c : Char) : Bool :=
  ('a' ≤ c ∧ c ≤ 'z') || ('A' ≤ c ∧ c ≤ 'Z') || ('0' ≤ c ∧ c ≤ '9') || c = '_'

/-- `isValidVSMapKey`. -/
def isValidVSMapKey (s : String) : Bool :=
  match s.toList with
  | [] => false
  | c :: cs => isAlphaUnderscore c && cs.all isAlphaNumUnderscore

namespace MapHeap

variable {V : Type} [Inhabited V]

/-- `mapSetEmpty`. The result is true if the key was set. -/
def mapSetEmpty (h : MapHeap V) (p : ℕ) (key : String) (type : AVSPropertyType) :
    Bool × ℕ × MapHeap V :=
  if isValidVSMapKey key then
    if (h.find p key).isSome then (false, p, h)
    else (true, h.insert p key (VSArray.empty type))
  else (false, p, h)

/-- `propSetShared`. -/
def propSetShared (h : MapHeap V) (p : ℕ) (key : String) (propType : AVSPropertyType) (val : V)
    (mode : AVSPropAppendMode) : Bool × ℕ × MapHeap V :=
  if isValidVSMapKey key then
    match mode with
    | .replace => (true, h.insert p key ((VSArray.empty propType).pushBack val))
    | .append =>
      match (h.find p key).bind h.arrays.get with
      | none => (true, h.insert p key ((VSArray.empty propType).pushBack val))
      | some arr =>
        if arr.ftype = propType then
          let (p', h') := h.detach p
          (true, p', (h'.detachArray p' key).pushBack p' key val)
        else (false, p, h)
    | .touch => h.mapSetEmpty p key propType
  else (false, p, h)

/-- `propSetInt`, with the value's own type. -/
def propSetInt (h : MapHeap V) (p : ℕ) (key : String) (i : V) := h.propSetShared p key .int i

/-- `propSetFloat`. -/
def propSetFloat (h : MapHeap V) (p : ℕ) (key : String) (d : V) := h.propSetShared p key .float d

/-- `propSetDataH`. -/
def propSetDataH (h : MapHeap V) (p : ℕ) (key : String) (d : V) := h.propSetShared p key .data d

/-- `propSetClip`. -/
def propSetClip (h : MapHeap V) (p : ℕ) (key : String) (clip : V) :=
  h.propSetShared p key .clip clip

/-- `propSetFrame`. -/
def propSetFrame (h : MapHeap V) (p : ℕ) (key : String) (frame : V) :=
  h.propSetShared p key .frame frame

/-- `propSetIntArray` and `propSetFloatArray`, which take a pointer and a size. -/
def propSetArray (h : MapHeap V) (p : ℕ) (key : String) (propType : AVSPropertyType)
    (vals : List V) (size : ℤ) : Bool × ℕ × MapHeap V :=
  if size < 0 then (false, p, h)
  else if isValidVSMapKey key then
    (true, h.insert p key (VSArray.ofList propType (vals.take size.toNat)))
  else (false, p, h)

end MapHeap

end AviSynth
