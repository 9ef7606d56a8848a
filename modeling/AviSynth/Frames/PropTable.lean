import AviSynth.Frames.MapSharing
import AviSynth.Script.NestedComments

/-!
# The properties of a frame

A map of properties, which behaves as a map of its own, is a table of keys with typed lists
of values. Filters read one table and write another one, key by key.
-/

namespace AviSynth

open MachineInt

/-- A value of a property. `D`, `C` and `F` stand for the doubles, the clips and the frames. -/
inductive PropElement (D C F : Type)
  | int (i : ℤ)
  | float (d : D)
  | data (typeHint : ℤ) (bytes : Bytes)
  | clip (clip : C)
  | frame (frame : F)

/-- The keys with their types and values. -/
abbrev PropTable (V : Type) := AList fun _ : String => AVSPropertyType × List V

namespace PropTable

variable {V : Type}

/-- `propNumKeys`. -/
def propNumKeys (t : PropTable V) : ℤ := i32 t.keys.length

/-- The keys that a loop with `propNumKeys` and `propGetKey` goes through. -/
def loopKeys (t : PropTable V) : List String := t.keys.take t.propNumKeys.toNat

/-- `propSetShared` in the mode that appends. -/
def propAppend (t : PropTable V) (key : String) (propType : AVSPropertyType) (val : V) :
    Bool × PropTable V :=
  if isValidVSMapKey key then
    match t.lookup key with
    | some (ftype, vals) =>
      if ftype = propType then (true, t.insert key (propType, vals ++ [val])) else (false, t)
    | none => (true, t.insert key (propType, [val]))
  else (false, t)

/-- `propSetIntArray` and `propSetFloatArray`. -/
def propSetArray (t : PropTable V) (key : String) (propType : AVSPropertyType) (vals : List V)
    (size : ℤ) : Bool × PropTable V :=
  if size < 0 then (false, t)
  else if isValidVSMapKey key then (true, t.insert key (propType, vals.take size.toNat))
  else (false, t)

end PropTable

/-- The properties that a frame can have: the keys are valid, and the interface counts keys,
values and bytes by ints. -/
structure FrameProps (D C F : Type) where
  table : PropTable (PropElement D C F)
  keys_valid : ∀ key ∈ table, isValidVSMapKey key
  keys_length : table.keys.length < 2 ^ 31
  values_length : ∀ key type vals, table.lookup key = some (type, vals) → vals.length < 2 ^ 31
  bytes_length : ∀ key type vals, table.lookup key = some (type, vals) →
    ∀ typeHint bytes, .data typeHint bytes ∈ vals → bytes.length < 2 ^ 31

end AviSynth
