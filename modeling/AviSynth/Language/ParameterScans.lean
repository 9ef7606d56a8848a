import AviSynth.Language.Signatures

/-!
# Scanning parameter strings

The functions that match and pack arguments walk over a parameter string with a pointer of their
own. Here the pointer is a cursor, and a step or a look past the terminating zero is a fault, as
is a scan that does not come to its end in the rounds given.
-/

namespace AviSynth

namespace Language

variable {F D : Type}

/-- What stops a scan: a read outside of the string, rounds that do not suffice, a parameter that
has no value, a parameter string that is taken for a bug of the filter, and other errors. -/
inductive ScanFault (F D : Type) where
  | pastEnd
  | beforeStart
  | unfinished
  | noSlot
  | bugInFilter (msg : String)
  | raised (e : ScriptError F D)

/-- Scans, which fail where they leave the string. -/
abbrev Scan (F D α : Type) := Except (ScanFault F D) α

/-- A value or an error of code that does not scan. -/
def Scan.ofResult {α : Type} : Result F D α → Scan F D α
  | .ok x => .ok x
  | .error e => .error (.raised e)

/-- A pointer into a string, between the characters read and those that are left. -/
structure Cursor where
  previous : Option Char
  rest : List Char

namespace Cursor

/-- The cursor at the start of a string. -/
def start (params : String) : Cursor := ⟨none, params.toList⟩

/-- `*p`, where `none` is the terminating zero. -/
def read (p : Cursor) : Option Char := p.rest.head?

/-- `p + 1`. -/
def next (p : Cursor) : Scan F D Cursor :=
  match p.rest with
  | [] => throw .pastEnd
  | c :: rest => return ⟨some c, rest⟩

/-- `p[1]`. -/
def peek (p : Cursor) : Scan F D (Option Char) := do return (← p.next).read

/-- `p[-1]`. -/
def back (p : Cursor) : Scan F D Char :=
  match p.previous with
  | none => throw .beforeStart
  | some c => return c

/-- The characters before the next closing bracket, and the cursor at it. -/
def bracketFrom : Option Char → List Char → Option (List Char × Cursor)
  | _, [] => none
  | previous, c :: rest =>
    if c = ']' then some ([], ⟨previous, c :: rest⟩)
    else (bracketFrom (some c) rest).map fun (name, q) => (c :: name, q)

/-- `strchr(p, ']')`. -/
def findBracket (p : Cursor) : Option (List Char × Cursor) := bracketFrom p.previous p.rest

end Cursor

open Cursor

/-- The place holds a modifier. -/
def isModifierAt (c : Option Char) : Bool := c == some '*' || c == some '+'

/-- The loop over the parameters that are left when the arguments are used up. -/
def allOptionalScan : ℕ → Cursor → Scan F D Bool
  | 0, _ => throw .unfinished
  | rounds + 1, p => do
    if (← p.peek) == some '*' then
      let p ← (← p.next).next
      if p.read == none || p.read == some '[' then return true
      else allOptionalScan rounds p
    else return false

/-- What follows the loop of `TypeMatch`. -/
def typeMatchEndScan (p : Cursor) : Scan F D Bool := do
  let p ← if isModifierAt p.read then p.next else pure p
  if p.read == none || p.read == some '[' then return true
  else allOptionalScan (p.rest.length + 1) p

/-- A parameter name is skipped, and makes the parameters from there on optional. -/
def skipNameScan (p : Cursor) (optional : Bool) : Scan F D (Cursor × Bool) := do
  if p.read == some '[' then
    match (← p.next).findBracket with
    | none => throw (.bugInFilter "TypeMatch: unterminated parameter name (bug in filter)")
    | some (_, q) =>
      let p ← q.next
      if p.read == none then
        throw (.bugInFilter "TypeMatch: no type specified for optional parameter (bug in filter)")
      else return (p, true)
  else return (p, optional)

/-- The loop of `TypeMatch`. Each round takes a character or an argument. -/
def typeMatchScan (strict : Bool) :
    ℕ → Cursor → List (AVSValue F D) → Bool → Scan F D Bool
  | _, p, [], _ => typeMatchEndScan p
  | 0, _, _ :: _, _ => throw .unfinished
  | rounds + 1, p, arg :: args, optional => do
    if p.read == none then return false
    else
      let (p, optional) ← skipNameScan p optional
      let p ← if (← p.peek) == some '*' then p.next else pure p
      match p.read with
      | none =>
        throw (.bugInFilter "TypeMatch: invalid character in parameter list (bug in filter)")
      | some c =>
        if c == '+' || c == '*' then
          let type ← p.back
          if arg.isArray && type != '.' then
            if singleTypeMatchArray type arg strict then
              typeMatchScan strict rounds (← p.next) args optional
            else return false
          else if singleTypeMatch type arg strict then
            typeMatchScan strict rounds p args optional
          else typeMatchScan strict rounds (← p.next) (arg :: args) optional
        else if c == '.' then typeMatchScan strict rounds (← p.next) args optional
        else if isTypeLetter c then
          if (← p.peek) == some '+' && arg.isArray && c != 'a' then
            typeMatchScan strict rounds (← p.next) (arg :: args) optional
          else if (!optional || arg.defined) && !singleTypeMatch c arg strict then return false
          else typeMatchScan strict rounds (← p.next) args optional
        else
          throw (.bugInFilter "TypeMatch: invalid character in parameter list (bug in filter)")

/-- `TypeMatch`. -/
def typeMatchOf (params : String) (args : List (AVSValue F D)) (strict : Bool) : Scan F D Bool :=
  typeMatchScan strict (params.length + args.length + 1) (start params) args false

/-- The search of `ArgNameMatch` for one name. -/
def hasParameterScan (name : String) : ℕ → Cursor → Scan F D Bool
  | 0, _ => throw .unfinished
  | rounds + 1, p => do
    match p.read with
    | none => return false
    | some '[' =>
      match (← p.next).findBracket with
      | none => return false
      | some (found, q) =>
        if sameName name found then return true
        else hasParameterScan name rounds (← (← q.next).next)
    | some _ => hasParameterScan name rounds (← p.next)

/-- `ArgNameMatch`. -/
def argNameMatchOf (params : String) : List (Option String) → Scan F D Bool
  | [] => return true
  | none :: argNames => argNameMatchOf params argNames
  | some name :: argNames => do
    if ← hasParameterScan name (params.length + 1) (start params) then
      argNameMatchOf params argNames
    else return false

/-- The third step of `Invoke_`: each parameter takes its value from the unnamed arguments. -/
def packUnnamedScan (name : String) (strict : Bool) :
    ℕ → Cursor → List (AVSValue F D) → Bool → Scan F D (List (Slot F D))
  | 0, _, _, _ => throw .unfinished
  | rounds + 1, p, args, lastWasNamed => do
    match p.read with
    | none => finish args
    | some '[' =>
      match (← p.next).findBracket with
      | none => finish args
      | some (_, q) => packUnnamedScan name strict rounds (← q.next) args true
    | some type =>
      let kind ← p.peek
      if isModifierAt kind then
        let (slot, args) ← .ofResult
          (packArray name strict type (kind == some '+') args lastWasNamed)
        let slots ← packUnnamedScan name strict rounds (← (← p.next).next) args false
        return slot :: slots
      else
        let slot : Slot F D := match args with
          | [] => (.undefined, false)
          | arg :: _ => (arg, true)
        let p ← p.next
        let p ← if isModifierAt p.read then p.next else pure p
        return slot :: (← packUnnamedScan name strict rounds p args.tail false)
where
  finish (args : List (AVSValue F D)) : Scan F D (List (Slot F D)) :=
    if args.isEmpty then return []
    else throw (.raised (.avisynthError ("Too many arguments to function " ++ name)))

/-- Where a name is in the parameters: the number of the parameter, and `q[1]` and `q[2]` for the
bracket `q` behind the name. -/
def findParameterScan (name : String) :
    ℕ → ℕ → Cursor → Scan F D (Option (ℕ × Option Char × Option Char))
  | 0, _, _ => throw .unfinished
  | rounds + 1, index, p => do
    match p.read with
    | none => return none
    | some '[' =>
      match (← p.next).findBracket with
      | none => return none
      | some (found, q) =>
        let q ← q.next
        if sameName name found then return some (index, q.read, ← q.peek)
        else findParameterScan name rounds (index + 1) (← q.next)
    | some c =>
      findParameterScan name rounds (if c == '*' || c == '+' then index else index + 1) (← p.next)

/-- The fourth step of `Invoke_` for one argument with a name. -/
def packNamedScan (name params : String) (slots : List (Slot F D)) (argName : String)
    (arg : AVSValue F D) : Scan F D (List (Slot F D)) := do
  match ← findParameterScan argName (params.length + 1) 0 (start params) with
  | none => throw (.raised (.avisynthError ("Script error: " ++ name ++
      " does not have a named argument \"" ++ argName ++ "\"")))
  | some (index, type, kind) =>
    match slots[index]? with
    | none => throw .noSlot
    | some slot =>
      if slot.1.defined && slot.2 then
        throw (.raised (.avisynthError ("Script error: the named argument \"" ++ argName ++
          "\" was passed more than once (twice as named or first unnamed then named) to " ++ name)))
      else
        let value ← .ofResult (namedValue name argName (type.getD '\x00')
          (kind.filter fun c => c == '*' || c == '+') arg)
        return slots.set index (value, true)

/-- The fourth step of `Invoke_`. -/
def packAllNamedScan (name params : String) (slots : List (Slot F D)) :
    List (Option String × AVSValue F D) → Scan F D (List (Slot F D))
  | [] => return slots
  | (none, _) :: args => packAllNamedScan name params slots args
  | (some argName, arg) :: args => do
    packAllNamedScan name params (← packNamedScan name params slots argName arg) args

/-- The third and the fourth step of `Invoke_`. -/
def packArgsOf (name params : String) (strict : Bool) (args : List (AVSValue F D))
    (named : List (Option String × AVSValue F D)) : Scan F D (List (AVSValue F D)) := do
  let slots ← packUnnamedScan name strict (params.length + 1) (start params) args false
  return (← packAllNamedScan name params slots named).map Prod.fst

end Language

end AviSynth
