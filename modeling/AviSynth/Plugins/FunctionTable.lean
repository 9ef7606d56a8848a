import Mathlib.Data.List.Basic

/-!
# Function tables

A table has the functions of a name in the order of their registration, and a lookup
takes the last one that fits. Every function is registered under its name and under
the name with its plugin's name before it. A CX session takes its functions out
again, one at a time.
-/

namespace AviSynth

/-- Whether `c` names a parameter type. -/
def isParameterTypeSpecifier (c : Char) : Bool := "bifsc.na".toList.contains c

def isParameterTypeModifier (c : Char) : Bool := c == '+' || c == '*'

/-- The states of `IsValidParameterString`: before a parameter, after a type, in a
parameter's name, after it, and failed. -/
inductive ParameterState
  | start
  | typed
  | name
  | named
  | invalid
  deriving DecidableEq, Repr

/-- One step over the parameter string. -/
def ParameterState.next : ParameterState → Char → ParameterState
  | start, c =>
    if isParameterTypeSpecifier c then typed else if c == '[' then name else invalid
  | typed, c =>
    if isParameterTypeSpecifier c then typed
    else if c == '[' then name
    else if isParameterTypeModifier c then start
    else invalid
  | name, c => if c == ']' then named else name
  | named, c => if isParameterTypeSpecifier c then typed else invalid
  | invalid, _ => invalid

/-- The whole string is read. -/
def isValidParameterString (params : String) : Bool :=
  match params.toList.foldl ParameterState.next .start with
  | .start | .typed => true
  | _ => false

/-- Where the code of a function lies: in a script or the host, in a plugin's library,
or in a library that a CX session calls through one of its bindings. -/
inductive FunctionCode
  | script (apply : ℕ)
  | library (path : String) (apply : ℕ)
  | cx (session binding : ℕ)
  deriving DecidableEq, Repr

/-- A registered function. The last two fields are not in the source: the attempt to
load a plugin in which it was registered, 0 outside of all, and whether an autoload
run was in progress. -/
structure AVSFunction where
  address : ℕ
  name : String
  canonName : String
  paramTypes : String
  dllPath : Option String
  code : FunctionCode
  attempt : ℕ
  duringAutoload : Bool
  deriving DecidableEq, Repr

/-- A function in the table. -/
structure FunctionEntry where
  key : String
  function : AVSFunction
  deriving DecidableEq, Repr

/-- The functions by name. The functions of one name are the entries with this key, in
the order of registration; how the names are ordered among each other has no
influence. Upper and lower case letters are the same. -/
abbrev FunctionMap := List FunctionEntry

namespace FunctionMap

/-- `functions[name].push_back(f)`. -/
def add (map : FunctionMap) (name : String) (f : AVSFunction) : FunctionMap :=
  map ++ [⟨name.toLower, f⟩]

/-- The newest function of a name that fits. -/
def lookup (map : FunctionMap) (searchName : String) (fits : AVSFunction → Bool) :
    Option AVSFunction :=
  (map.reverse.find? fun e => e.key == searchName.toLower && fits e.function).map (·.function)

/-- The name is in the table. -/
def functionExists (map : FunctionMap) (name : String) : Bool :=
  map.any (·.key == name.toLower)

/-- The loop of `RemoveFunctions` in one table, with at most the given number of
rounds: a function that belongs to the session is searched for, and erased from all
lists. -/
def removeLoop (belongs : AVSFunction → Bool) : ℕ → FunctionMap → FunctionMap
  | 0, map => map
  | rounds + 1, map =>
    match map.find? (fun e => belongs e.function) with
    | none => map
    | some found => removeLoop belongs rounds (map.filter (·.function ≠ found.function))

/-- Each round erases at least one entry. -/
def removeFunctions (belongs : AVSFunction → Bool) (map : FunctionMap) : FunctionMap :=
  removeLoop belongs map.length map

/-- The entries of the other functions, in their order. -/
def without (belongs : AVSFunction → Bool) (map : FunctionMap) : FunctionMap :=
  map.filter fun e => !belongs e.function

/-- Erasing one function that belongs changes nothing about the others. -/
theorem without_filter_ne {belongs : AVSFunction → Bool} {f : AVSFunction} (h : belongs f = true)
    (map : FunctionMap) :
    without belongs (map.filter (·.function ≠ f)) = without belongs map := by
  unfold without
  rw [List.filter_filter]
  apply List.filter_congr
  intro e _
  by_cases heq : e.function = f
  · simp [heq, h]
  · simp [heq]

theorem removeLoop_eq_without (belongs : AVSFunction → Bool) (rounds : ℕ) (map : FunctionMap)
    (hrounds : map.length ≤ rounds) : removeLoop belongs rounds map = without belongs map := by
  induction rounds generalizing map with
  | zero =>
    obtain rfl : map = [] := List.length_eq_zero_iff.mp (Nat.le_zero.mp hrounds)
    rfl
  | succ rounds ih =>
    unfold removeLoop
    cases hfind : map.find? (fun e => belongs e.function) with
    | none =>
      have hnone : ∀ e ∈ map, ¬ belongs e.function = true := List.find?_eq_none.mp hfind
      exact (List.filter_eq_self.mpr (by simpa using hnone)).symm
    | some found =>
      have hbelongs : belongs found.function = true := by
        have h := List.find?_some hfind
        exact h
      have hshorter : (map.filter (·.function ≠ found.function)).length < map.length := by
        apply List.length_filter_lt_length_iff_exists.mpr
        exact ⟨found, List.mem_of_find?_eq_some hfind, by simp⟩
      dsimp only
      rw [ih _ (by omega), without_filter_ne hbelongs]

/-- The loop leaves exactly the entries that do not belong to the session. -/
theorem removeFunctions_eq_without (belongs : AVSFunction → Bool) (map : FunctionMap) :
    removeFunctions belongs map = without belongs map :=
  removeLoop_eq_without belongs map.length map (Nat.le_refl _)

theorem mem_without {belongs : AVSFunction → Bool} {map : FunctionMap} {e : FunctionEntry} :
    e ∈ without belongs map ↔ e ∈ map ∧ belongs e.function = false := by
  simp [without]

@[simp] theorem mem_add {map : FunctionMap} {name : String} {f : AVSFunction}
    {e : FunctionEntry} : e ∈ map.add name f ↔ e ∈ map ∨ e = ⟨name.toLower, f⟩ := by
  simp [add]

/-- The functions that a lookup chooses from. -/
def candidates (map : FunctionMap) (searchName : String) (fits : AVSFunction → Bool) :
    List AVSFunction :=
  (map.filter fun e => e.key == searchName.toLower && fits e.function).map (·.function)

/-- A lookup finds the last candidate. -/
theorem lookup_eq_getLast? (map : FunctionMap) (searchName : String) (fits : AVSFunction → Bool) :
    map.lookup searchName fits = (map.candidates searchName fits).getLast? := by
  unfold lookup candidates
  rw [← List.head?_filter, List.filter_reverse, List.head?_reverse, List.getLast?_map]

end FunctionMap

end AviSynth
