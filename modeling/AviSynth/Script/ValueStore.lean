import AviSynth.Library.OwnedLists
import Mathlib.Data.Int.Notation

/-!
# Values in memory

An `AVSValue` has a type, an array size and a word, which is a pointer for clips, functions and
arrays. Arrays are blocks of values that one value owns. Where a pointer has fewer than 64 bits,
64-bit numbers are in blocks of their own. Clips and functions count the values that refer to
them. An assignment copies the contents of its source before it gives up those of its target,
since the source may be a part of the target.
-/

namespace AviSynth

/-! ### Memory -/

/-- The types of a value. -/
inductive AvsValueType where
  | void | clip | bool | int | long | float | double | string | array | function
  deriving DecidableEq

/-- An `AVSValue`. The word is the largest member of the union, and the size, a `short`, has no
bound. -/
structure ValueCell where
  type : AvsValueType
  arraySize : ℤ
  word : ℕ

/-- A value as the constructor without arguments leaves it. -/
def ValueCell.undefined : ValueCell := ⟨.void, 0, 0⟩

/-- An object that counts its references, at its address. -/
inductive ValueObject where
  | clip (p : ℕ)
  | function (p : ℕ)
  deriving DecidableEq

/-- The object that a value of this type with this word refers to. -/
def ValueObject.of (type : AvsValueType) (word : ℕ) : Option ValueObject :=
  if word = 0 then none
  else if type = .clip then some (.clip word)
  else if type = .function then some (.function word)
  else none

/-- The object that a value refers to. -/
def ValueCell.object (c : ValueCell) : Option ValueObject := ValueObject.of c.type c.word

/-- What `new` returns a pointer to. -/
inductive ValueBlock where
  | array (cells : List ValueCell)
  | number (bits : ℕ)

/-- Where a value is: a variable or an element of an array. -/
inductive ValueLoc where
  | var (x : ℕ)
  | elem (p i : ℕ)

/-- All values, with the references that the clips and functions count. -/
structure ValueStore where
  vars : List ValueCell
  blocks : ℕ → Option ValueBlock
  /-- The next address that `new` returns. -/
  next : ℕ
  refs : ValueObject → ℕ

namespace ValueStore

/-- The value at a place. -/
def read (s : ValueStore) : ValueLoc → Option ValueCell
  | .var x => s.vars[x]?
  | .elem p i =>
    match s.blocks p with
    | some (.array cells) => cells[i]?
    | _ => none

/-- A value is put at a place. -/
def write (s : ValueStore) (c : ValueCell) : ValueLoc → ValueStore
  | .var x => { s with vars := s.vars.set x c }
  | .elem p i =>
    match s.blocks p with
    | some (.array cells) =>
      { s with blocks := Function.update s.blocks p (some (.array (cells.set i c))) }
    | _ => s

/-- `new`, with contents. -/
def newBlock (s : ValueStore) (b : ValueBlock) : ValueStore :=
  { s with blocks := Function.update s.blocks s.next (some b), next := s.next + 1 }

/-- A block is given back. -/
def free (s : ValueStore) (p : ℕ) : ValueStore :=
  { s with blocks := Function.update s.blocks p none }

/-- `AddRef`, which an object that is gone does not have. -/
def addRef (s : ValueStore) : Option ValueObject → Option ValueStore
  | none => some s
  | some o =>
    if s.refs o = 0 then none else some { s with refs := Function.update s.refs o (s.refs o + 1) }

/-- `Release`, with which an object is gone when it was the last reference. What the
destructors of filters and functions release in turn is not part of the store. -/
def release (s : ValueStore) : Option ValueObject → Option ValueStore
  | none => some s
  | some o =>
    if s.refs o = 0 then none else some { s with refs := Function.update s.refs o (s.refs o - 1) }

/-- The values of this type have their word in a block, if a pointer has fewer than 64 bits. -/
def boxed (wide : Bool) (type : AvsValueType) : Prop :=
  wide = false ∧ (type = .long ∨ type = .double)
  deriving Decidable

/-! ### Destruction -/

/-- The elements of an array are destroyed from the last one on. -/
def destroyAll (destroy : ValueCell → ValueStore → Option ValueStore) :
    List ValueCell → ValueStore → Option ValueStore
  | [], s => some s
  | c :: cells, s => (destroyAll destroy cells s).bind (destroy c)

/-- What a value with the contents `c` gives up: its reference, its array with the elements if
`arrays` is set, and its number. -/
def giveUp (wide : Bool) (destroy : ValueCell → ValueStore → Option ValueStore) (c : ValueCell)
    (arrays : Bool) (s : ValueStore) : Option ValueStore :=
  (s.release c.object).bind fun s =>
    if c.type = .array ∧ c.word ≠ 0 ∧ arrays = true then
      match s.blocks c.word with
      | some (.array cells) => (destroyAll destroy cells s).map (·.free c.word)
      | _ => none
    else if boxed wide c.type ∧ c.word ≠ 0 then
      match s.blocks c.word with
      | some (.number _) => some (s.free c.word)
      | _ => none
    else some s

/-- `AVSValue::DESTRUCTOR`, for values whose arrays are nested less deeply than the given
number. -/
def destroy (wide : Bool) : ℕ → ValueCell → ValueStore → Option ValueStore
  | 0, _, _ => none
  | depth + 1, c, s => s.giveUp wide (destroy wide depth) c true

/-! ### Assignment -/

def setWord (s : ValueStore) (this : ValueLoc) (word : ℕ) : Option ValueStore :=
  (s.read this).map fun c => s.write { c with word := word } this

/-- `tmp[i].Assign(&src->array[i], true)` for `n` elements from `i` on. -/
def copyElements (assign : ValueStore → ValueLoc → ValueLoc → Option ValueStore) (tmp : ℕ)
    (src : ValueLoc) : ℕ → ℕ → ValueStore → Option ValueStore
  | 0, _, s => some s
  | n + 1, i, s =>
    (s.read src).bind fun v =>
      (assign s (.elem tmp i) (.elem v.word i)).bind (copyElements assign tmp src n (i + 1))

/-- The part of `Assign2` that copies the contents, when type and array size are copied. -/
def takeContents (wide : Bool) (assign : ValueStore → ValueLoc → ValueLoc → Option ValueStore)
    (s : ValueStore) (this src : ValueLoc) (noDeepArrays : Bool) : Option ValueStore :=
  (s.read src).bind fun v =>
    (s.read this).bind fun target =>
      if v.type = .array ∧ noDeepArrays = false then
        if target.arraySize < 0 then none
        else
          let size := target.arraySize.toNat
          let tmp := s.next
          (copyElements assign tmp src size 0
            (s.newBlock (.array (List.replicate size .undefined)))).bind (·.setWord this tmp)
      else if boxed wide target.type then
        match s.blocks v.word with
        | some (.number bits) => (s.newBlock (.number bits)).setWord this s.next
        | _ => none
      else s.setWord this v.word

/-- `AVSValue::Assign2`, for values whose arrays are nested less deeply
than the given number. A use of memory
that is not there, a reference to an object that is gone and an array of a negative size are
`none`. -/
def assign2 (wide : Bool) : ℕ → ValueStore → ValueLoc → ValueLoc → Bool → Bool →
    Option ValueStore
  | 0, _, _, _, _, _ => none
  | depth + 1, s, this, src, init, noDeepArrays =>
    (s.read src).bind fun v =>
      (s.addRef v.object).bind fun s =>
        (s.read this).bind fun old =>
          -- common fields
          let s := s.write { old with type := v.type, arraySize := v.arraySize } this
          (s.takeContents wide (fun s this src => assign2 wide depth s this src true false)
            this src noDeepArrays).bind fun s =>
              if init then some s else s.giveUp wide (destroy wide depth) old (!noDeepArrays)

/-- `AVSValue::operator=`. -/
def assign (wide : Bool) (depth : ℕ) (s : ValueStore) (this src : ValueLoc) : Option ValueStore :=
  assign2 wide depth s this src false false

end ValueStore

/-! ### What a value stands for -/

/-- A value with all that it consists of. -/
inductive ValueTree where
  | leaf (type : AvsValueType) (arraySize : ℤ) (bits : ℕ)
  | array (elements : List ValueTree)

namespace ValueTree

mutual

/-- How many values of the tree refer to the object. -/
def refs (o : ValueObject) : ValueTree → ℕ
  | .leaf type _ bits => if ValueObject.of type bits = some o then 1 else 0
  | .array elements => refsOfList o elements

/-- How many values of the trees refer to the object. -/
def refsOfList (o : ValueObject) : List ValueTree → ℕ
  | [] => 0
  | t :: ts => t.refs o + refsOfList o ts

end

theorem refsOfList_set (o : ValueObject) {ts : List ValueTree} {x : ℕ} {t : ValueTree}
    (hx : ts[x]? = some t) (t' : ValueTree) :
    refsOfList o (ts.set x t') + t.refs o = refsOfList o ts + t'.refs o := by
  induction ts generalizing x with
  | nil => simp at hx
  | cons t₀ ts ih =>
    cases x with
    | zero =>
      obtain rfl : t₀ = t := by simpa using hx
      rw [List.set_cons_zero, refsOfList, refsOfList]
      omega
    | succ x =>
      have hrest := ih (by simpa using hx)
      rw [List.set_cons_succ, refsOfList, refsOfList]
      omega

theorem refs_le_refsOfList (o : ValueObject) {ts : List ValueTree} {x : ℕ} {t : ValueTree}
    (hx : ts[x]? = some t) : t.refs o ≤ refsOfList o ts := by
  have hset := refsOfList_set o hx (.array [])
  rw [refs, refsOfList] at hset
  omega

end ValueTree

namespace ValueStore

open OwnedLists

/-- The value has the type, array size and bits, the latter in a block of its own or not. -/
def HoldsLeaf (wide : Bool) (blocks : ℕ → Option ValueBlock) (c : ValueCell)
    (type : AvsValueType) (arraySize : ℤ) (bits : ℕ) (owned : List ℕ) : Prop :=
  c.type = type ∧ c.type ≠ .array ∧ c.arraySize = arraySize ∧
    if boxed wide c.type then
      c.word ≠ 0 ∧ blocks c.word = some (.number bits) ∧ owned = [c.word]
    else c.word = bits ∧ owned = []

/-- The value is the tree, with arrays nested as deeply as the given number at most, and owns
the blocks. -/
def Holds (wide : Bool) (blocks : ℕ → Option ValueBlock) :
    ℕ → ValueCell → ValueTree → List ℕ → Prop
  | _, c, .leaf type arraySize bits, owned => HoldsLeaf wide blocks c type arraySize bits owned
  | 0, _, .array _, _ => False
  | depth + 1, c, .array ts, owned =>
    c.type = .array ∧ c.word ≠ 0 ∧ ∃ cells ps, blocks c.word = some (.array cells) ∧
      c.arraySize = cells.length ∧ Together (Holds wide blocks depth) cells ts ps ∧
      owned = c.word :: ps

/-- The store consists of the trees in its variables, whose values have blocks of their own, and
every object counts the values that refer to it besides the references that others hold. -/
structure Represents (wide : Bool) (held : ValueObject → ℕ) (depth : ℕ) (s : ValueStore)
    (ts : List ValueTree) (owned : List ℕ) : Prop where
  holds : Together (Holds wide s.blocks depth) s.vars ts owned
  nodup : owned.Nodup
  /-- No block is lost. -/
  owned_of_live : ∀ p, s.blocks p ≠ none → p ∈ owned
  fresh : ∀ p, s.next ≤ p → s.blocks p = none
  next_pos : 0 < s.next
  refs : ∀ o, s.refs o = held o + ValueTree.refsOfList o ts

theorem holds_leaf {wide : Bool} {blocks : ℕ → Option ValueBlock} {depth : ℕ} {c : ValueCell}
    {type : AvsValueType} {arraySize : ℤ} {bits : ℕ} {owned : List ℕ} :
    Holds wide blocks depth c (.leaf type arraySize bits) owned ↔
      HoldsLeaf wide blocks c type arraySize bits owned := by
  cases depth <;> exact Iff.rfl

end ValueStore

end AviSynth
