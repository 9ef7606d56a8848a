import AviSynth.Frames.AVSMap
import AviSynth.Library.OwnedHeap

/-!
# Clips in the C interface

A C client handles clips through pointers to `AVS_Clip` records, through values
and through property maps. Most functions that hand out an `AVS_Clip *` allocate
a record; `avs_prop_get_clip` puts a `PClip` into the pointer itself, so that it
points to the `IClip` object.
-/

namespace AviSynth

namespace CInterface

/-- The record that an `AVS_Clip *` should point to. `clip` is the address that the
`PClip` holds. -/
structure AVSClip where
  clip : Option ℕ
  env : ℕ
  error : Option String
  deriving DecidableEq

/-- An `IClip` object. -/
inductive ClipObject where
  /-- A `C_VideoFilter` with its member `child`; `d.child` points to it if `storeChild`. -/
  | cVideoFilter (child : AVSClip) (storeChild : Bool)
  /-- A filter of the host and the clips that it refers to. -/
  | hostFilter (children : List ℕ)

/-- The references to clips that an object holds. -/
def ClipObject.children : ClipObject → List ℕ
  | .cVideoFilter child _ => child.clip.toList
  | .hostFilter children => children

/-- An `AVS_Value`. The values of other types do not refer to clips. -/
inductive AVSValue where
  | clip (p : Option ℕ)
  | other
  | array (elements : List AVSValue)

namespace AVSValue

mutual

/-- The references to clips in a value. -/
def clips : AVSValue → List ℕ
  | .clip p => p.toList
  | .other => []
  | .array elements => clipsOfList elements

/-- The references to clips in the elements of an array. -/
def clipsOfList : List AVSValue → List ℕ
  | [] => []
  | v :: vs => v.clips ++ clipsOfList vs

end

/-- The element of a value that a path of indices leads to. -/
def part : AVSValue → List ℕ → Option AVSValue
  | v, [] => some v
  | .array elements, i :: path => elements[i]?.bind (part · path)
  | _, _ :: _ => none

end AVSValue

/-- What an `AVS_Clip *` points to. -/
inductive Pointer where
  | null
  /-- A record of its own. -/
  | record (a : ℕ)
  /-- The member `child` of a `C_VideoFilter`. -/
  | child (f : ℕ)
  /-- The beginning of an `IClip` object. -/
  | object (f : ℕ)
  deriving DecidableEq

/-- A value that the client has: one that it was given, or an argument of the call
that it is in, and the path to one of its elements. -/
structure ValueRef where
  given : Bool
  index : ℕ
  path : List ℕ

/-- Clips, records and properties, with what the client was given and has not released. -/
structure ClipState where
  clips : RefHeap ClipObject
  records : AList fun _ : ℕ => AVSClip
  /-- Handles that the client was given. -/
  handles : List Pointer
  /-- Values that the client was given. -/
  values : List AVSValue
  /-- The arrays of the property maps, by map and key. -/
  maps : AList fun _ : ℕ × String => VSArray (Option ℕ)
  /-- The maps with an error set. -/
  errorMaps : List ℕ
  /-- Arguments of the calls that the client is in, which are the host's. -/
  args : List AVSValue
  /-- All other references to clips, of variables and caches for instance. -/
  host : List ℕ

namespace ClipState

variable (s : ClipState)

/-- The record that a pointer denotes. Any other use of a pointer is undefined. -/
def deref : Pointer → Option AVSClip
  | .record a => s.records.lookup a
  | .child f =>
    match s.clips.get f with
    | some (.cVideoFilter child true) => some child
    | _ => none
  | _ => none

/-- The value that the client means. -/
def value (ref : ValueRef) : Option AVSValue :=
  ((if ref.given then s.values else s.args)[ref.index]?).bind (·.part ref.path)

/-- `new AVS_Clip`, with the members of `r`, at an address `a` that is not in use. -/
def newRecord (a : ℕ) (r : AVSClip) : Option (ClipState × Pointer) :=
  if (s.records.lookup a).isSome then none
  else
    some ({ s with
      clips := s.clips.addRefs r.clip.toList
      records := s.records.insert a r
      handles := .record a :: s.handles }, .record a)

/-- The references `ps` go away. -/
def release (ps : List ℕ) : ClipState :=
  { s with clips := s.clips.releaseChain ClipObject.children ps }

/-- `avs_take_clip` -/
def avsTakeClip (v : AVSValue) (env a : ℕ) : Option (ClipState × Pointer) :=
  match v with
  | .clip p => s.newRecord a ⟨p, env, none⟩
  | _ => none

/-- `avs_get_as_clip`, "like the existing avs_take_clip". -/
def avsGetAsClip (v : AVSValue) (env a : ℕ) : Option (ClipState × Pointer) :=
  s.avsTakeClip v env a

/-- `avs_copy_clip` -/
def avsCopyClip (p : Pointer) (a : ℕ) : Option (ClipState × Pointer) :=
  (s.deref p).bind (s.newRecord a)

/-- `avs_new_c_filter`. The result also gives `(*fi)->child`. -/
def avsNewCFilter (env : ℕ) (child : AVSValue) (storeChild : Bool) (a : ℕ) :
    Option (ClipState × Pointer × Pointer) :=
  let filter (stored : Option ℕ) : Option (ClipState × Pointer × Pointer) :=
    if (s.records.lookup a).isSome then none
    else
      let member : AVSClip := ⟨stored, if storeChild then env else 0, none⟩
      let clips := s.clips.addRefs stored.toList
      some ({ s with
        clips := clips.alloc (.cVideoFilter member storeChild)
        records := s.records.insert a ⟨some clips.fresh, env, none⟩
        handles := .record a :: s.handles }, .record a,
        if storeChild then .child clips.fresh else .null)
  match child, storeChild with
  | .clip none, _ => none
  | .clip (some p), true => filter (some p)
  | .clip (some _), false => filter none
  | _, true => none
  | _, false => filter none

/-- Let a key of a map have a new array of clips. The new references are made
before the old ones go away. -/
def insertArray (map : ℕ) (key : String) (arr : VSArray (Option ℕ)) : ClipState :=
  let old := ((s.maps.lookup (map, key)).map VSArray.values).getD []
  { s with
    clips := s.clips.addRefs arr.values.reduceOption
    maps := s.maps.insert (map, key) arr }.release old.reduceOption

/-- `propSetShared` for clips. -/
def propSetClip (map : ℕ) (key : String) (clip : Option ℕ) (mode : AVSPropAppendMode) :
    Bool × ClipState :=
  if isValidVSMapKey key then
    match mode, s.maps.lookup (map, key) with
    | .replace, _ | .append, none =>
      (true, s.insertArray map key ((VSArray.empty .clip).pushBack clip))
    | .append, some arr =>
      if arr.ftype = .clip then
        (true, { s with
          clips := s.clips.addRefs clip.toList
          maps := s.maps.insert (map, key) (arr.pushBack clip) })
      else (false, s)
    | .touch, some _ => (false, s)
    | .touch, none => (true, s.insertArray map key (VSArray.empty .clip))
  else (false, s)

/-- `avs_prop_set_clip`. A mode that does not exist is an error. -/
def avsPropSetClip (map : ℕ) (key : String) (p : Pointer) (mode : Option AVSPropAppendMode) :
    Option (ClipState × Bool) :=
  (s.deref p).map fun r =>
    match mode with
    | none => (s, false)
    | some mode => ((s.propSetClip map key r.clip mode).2, (s.propSetClip map key r.clip mode).1)

/-- `propGetClip`, which gives a null pointer on errors. -/
def propGetClip (map : ℕ) (key : String) (index : ℤ) : Option ℕ :=
  if map ∈ s.errorMaps then none
  else
    match s.maps.lookup (map, key) with
    | none => none
    | some arr =>
      if index < 0 ∨ index ≥ arr.fsize then none
      else if arr.ftype ≠ .clip then none
      else (arr.values[index.toNat]?).join

/-- `avs_prop_get_clip` -/
def avsPropGetClip (map : ℕ) (key : String) (index : ℤ) : ClipState × Pointer :=
  match s.propGetClip map key index with
  | none => (s, .null)
  | some f =>
    ({ s with
      clips := s.clips.addRefs [f]
      handles := .object f :: s.handles }, .object f)

/-- `avs_set_to_clip` -/
def avsSetToClip (p : Pointer) : Option ClipState :=
  (s.deref p).map fun r =>
    { s with
      clips := s.clips.addRefs r.clip.toList
      values := .clip r.clip :: s.values }

/-- `avs_copy_value`, which copies arrays with their elements. -/
def avsCopyValue (v : AVSValue) : ClipState :=
  { s with
    clips := s.clips.addRefs v.clips
    values := v :: s.values }

/-- `avs_release_clip`. Only a record can be deleted. -/
def avsReleaseClip : Pointer → Option ClipState
  | .null => some s
  | .record a =>
    (s.records.lookup a).map fun r =>
      { s with
        records := s.records.erase a
        handles := s.handles.erase (.record a) }.release r.clip.toList
  | _ => none

/-- `avs_release_value`, for one of the values that the client was given. -/
def avsReleaseValue (index : ℕ) : Option ClipState :=
  (s.values[index]?).map fun v =>
    { s with values := s.values.eraseIdx index }.release v.clips

end ClipState

/-- A call of the C interface; `a` is the address that the allocator gives. -/
inductive ClipCall where
  | takeClip (v : ValueRef) (env a : ℕ)
  | getAsClip (v : ValueRef) (env a : ℕ)
  | copyClip (p : Pointer) (a : ℕ)
  | newCFilter (env : ℕ) (child : ValueRef) (storeChild : Bool) (a : ℕ)
  | propSetClip (map : ℕ) (key : String) (p : Pointer) (mode : Option AVSPropAppendMode)
  | propGetClip (map : ℕ) (key : String) (index : ℤ)
  | setToClip (p : Pointer)
  | copyValue (v : ValueRef)
  | releaseClip (p : Pointer)
  | releaseValue (index : ℕ)

/-- What a call gives back. -/
inductive ClipEvent where
  | returned (ps : List Pointer)
  /-- A property was read; `stored` is the clip that it has. -/
  | read (p : Pointer) (stored : Option ℕ)
  | set (done : Bool)
  | finished

/-- One call. It is undefined to use what the client was not given. -/
def ClipState.step (s : ClipState) : ClipCall → Option (ClipState × ClipEvent)
  | .takeClip v env a =>
    (s.value v).bind fun v => (s.avsTakeClip v env a).map fun r => (r.1, .returned [r.2])
  | .getAsClip v env a =>
    (s.value v).bind fun v => (s.avsGetAsClip v env a).map fun r => (r.1, .returned [r.2])
  | .copyClip p a => (s.avsCopyClip p a).map fun r => (r.1, .returned [r.2])
  | .newCFilter env child storeChild a =>
    (s.value child).bind fun v =>
      (s.avsNewCFilter env v storeChild a).map fun r => (r.1, .returned [r.2.1, r.2.2])
  | .propSetClip map key p mode =>
    (s.avsPropSetClip map key p mode).map fun r => (r.1, .set r.2)
  | .propGetClip map key index =>
    let r := s.avsPropGetClip map key index
    some (r.1, .read r.2 (s.propGetClip map key index))
  | .setToClip p => (s.avsSetToClip p).map fun t => (t, .finished)
  | .copyValue v => (s.value v).map fun v => (s.avsCopyValue v, .finished)
  | .releaseClip p => (s.avsReleaseClip p).map fun t => (t, .finished)
  | .releaseValue index => (s.avsReleaseValue index).map fun t => (t, .finished)

end CInterface

end AviSynth
