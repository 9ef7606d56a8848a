import AviSynth.Library.MachineInt
import AviSynth.Library.Programs
import Mathlib.Data.List.Forall2

/-!
# Calls of old plugins

Plugins for the interfaces 2.5 and for C interfaces before version 11 do not know
the 64-bit types of values. Where a function of such a plugin is constructed, and
where its own calls return, values of these types are converted to 32 bits. The
functions are programs that call other functions, to any depth.
-/

namespace AviSynth

namespace LegacyInvoke

open MachineInt

/-- An `AVSValue`. `F` is the type `float` and `D` the type `double`; clips, strings and
functions do not matter beyond their types. -/
inductive AVSValue (F D : Type) where
  | void
  | clip (c : ℕ)
  | bool (b : Bool)
  | int (i : ℤ)
  | long (l : ℤ)
  | float (x : F)
  | double (x : D)
  | string (s : String)
  | function (n : ℕ)
  | array (elements : List (AVSValue F D))

/-- The interfaces that `Invoke` is called through. -/
inductive Interface where
  | current
  | avs25
  | preV11C
  deriving DecidableEq

/-- A call of `Invoke`. `runtime` is what `IsRuntime` gives when it is made. -/
structure Call (F D : Type) where
  runtime : Bool
  name : String
  args : AVSValue F D

/-- What a call comes to; an exception is `none`. -/
abbrev Result (F D : Type) := Option (AVSValue F D)

/-- A registered function. -/
structure Function (F D : Type) where
  isPluginAvs25 : Bool
  isPluginPreV11C : Bool
  apply : AVSValue F D → Program (Call F D) (Result F D) (Result F D)

/-- The interface that a function is called with. -/
def Function.interface {F D : Type} (f : Function F D) : Interface :=
  if f.isPluginAvs25 then .avs25 else if f.isPluginPreV11C then .preV11C else .current

/-- What crosses the boundary to a plugin. -/
inductive Event (F D : Type) where
  /-- The function `f` is applied to `funcArgs`, for the arguments `args`. -/
  | applied (f : Function F D) (runtime : Bool) (args : List (AVSValue F D))
      (funcArgs : AVSValue F D)
  /-- A call through `interface` came to `value`, and `given` is returned to the caller. -/
  | returned (interface : Interface) (value given : AVSValue F D)

variable {F D : Type} (narrow : D → F)

/-- A value with a 64-bit type goes to 32 bits; `narrow` converts `double` to `float`. -/
def to32 : AVSValue F D → AVSValue F D
  | .long l => .int (i32 l)
  | .double x => .float (narrow x)
  | v => v

/-- The arguments that `FilterConstructor::InstantiateFilter` passes on. -/
def instantiateArgs (f : Function F D) (ctorArgs : List (AVSValue F D)) : AVSValue F D :=
  if f.isPluginAvs25 ∨ f.isPluginPreV11C then .array (ctorArgs.map (to32 narrow))
  else .array ctorArgs

/-- The end of `Invoke`, `Invoke25` and `InvokePreV11C`. -/
def returnThrough (interface : Interface) (result : AVSValue F D) : AVSValue F D :=
  match interface with
  | .current => result
  | .avs25 | .preV11C => to32 narrow result

/-- What a caller gets through its interface, and the event. -/
def giveBack (interface : Interface) (r : Result F D × List (Event F D)) :
    Result F D × List (Event F D) :=
  match r.1 with
  | none => (none, r.2)
  | some result =>
    (some (returnThrough narrow interface result),
      .returned interface result (returnThrough narrow interface result) :: r.2)

-- `resolve` finds the function and matches the arguments with its signature.
variable (resolve : String → AVSValue F D → Option (Function F D × List (AVSValue F D)))

/-- `ScriptEnvironment::Invoke_`: the result and the events so far, newest first;
`none` if the call has not ended at a depth of `fuel`. -/
def invoke_ : ℕ → Call F D → List (Event F D) → Option (Result F D × List (Event F D))
  | 0, _, _ => none
  | fuel + 1, call, events =>
    match resolve call.name call.args with
    | none => some (none, events)
    | some (f, args) =>
      let funcArgs := if call.runtime then .array args else instantiateArgs narrow f args
      (f.apply funcArgs).eval
        (fun call events => (invoke_ fuel call events).map (giveBack narrow f.interface))
        (.applied f call.runtime args funcArgs :: events)

mutual

/-- The value with every 64-bit value in it converted. -/
def deep32 : AVSValue F D → AVSValue F D
  | .long l => .int (i32 l)
  | .double x => .float (narrow x)
  | .array elements => .array (deep32List elements)
  | v => v

/-- The elements with every 64-bit value in them converted. -/
def deep32List : List (AVSValue F D) → List (AVSValue F D)
  | [] => []
  | v :: vs => deep32 v :: deep32List vs

end

/-- Nothing that an old plugin gets has a 64-bit type at any depth. -/
def AllNarrow : Event F D → Prop
  | .applied f _ args funcArgs =>
    f.interface ≠ .current → funcArgs = .array (deep32List narrow args)
  | .returned interface value given => interface ≠ .current → given = deep32 narrow value

/-- `w` is what an old plugin gets for the argument `v`, as far as `v` is not an array. -/
def NarrowArgument (v w : AVSValue F D) : Prop :=
  match v with
  | .long l => w = .int (i32 l)
  | .double x => w = .float (narrow x)
  | .array _ => ∃ elements, w = .array elements
  | v => w = v

/-- `given` is what an old plugin gets for the result `value`; arrays are left alone. -/
def NarrowResult (value given : AVSValue F D) : Prop :=
  match value with
  | .long l => given = .int (i32 l)
  | .double x => given = .float (narrow x)
  | v => given = v

/-- Each argument that an old plugin gets when it is constructed, and each result
that is not an array, has a 32-bit type. -/
def ValuesNarrow : Event F D → Prop
  | .applied f runtime args funcArgs =>
    f.interface ≠ .current → runtime = false →
      ∃ given, funcArgs = .array given ∧ List.Forall₂ (NarrowArgument narrow) args given
  | .returned interface value given => interface ≠ .current → NarrowResult narrow value given

variable {narrow resolve} {r : Result F D × List (Event F D)}

theorem narrowArgument_to32 (v : AVSValue F D) : NarrowArgument narrow v (to32 narrow v) := by
  cases v with
  | array elements => exact ⟨elements, rfl⟩
  | _ => rfl

theorem narrowResult_to32 (v : AVSValue F D) : NarrowResult narrow v (to32 narrow v) := by
  cases v <;> rfl

/-- A function of an old plugin has one of the flags. -/
theorem old_of_interface {f : Function F D} (h : f.interface ≠ .current) :
    f.isPluginAvs25 ∨ f.isPluginPreV11C := by
  by_contra hnew
  rw [not_or, Bool.not_eq_true, Bool.not_eq_true] at hnew
  exact h (by simp [Function.interface, hnew.1, hnew.2])

/-- What a construction passes on is narrow. -/
theorem valuesNarrow_applied (f : Function F D) (runtime : Bool) (args : List (AVSValue F D)) :
    ValuesNarrow narrow (.applied f runtime args
      (if runtime then .array args else instantiateArgs narrow f args)) := by
  intro hold hruntime
  refine ⟨args.map (to32 narrow), ?_, ?_⟩
  · simp only [hruntime, Bool.false_eq_true, if_false, instantiateArgs,
      if_pos (old_of_interface hold)]
  · exact List.forall₂_map_right_iff.mpr
      (List.forall₂_same.mpr fun v _ => narrowArgument_to32 v)

/-- What a call returns to an old plugin is narrow. -/
theorem valuesNarrow_returned (interface : Interface) (value : AVSValue F D) :
    ValuesNarrow narrow (.returned interface value (returnThrough narrow interface value)) := by
  intro hold
  cases interface with
  | current => exact absurd rfl hold
  | avs25 => exact narrowResult_to32 value
  | preV11C => exact narrowResult_to32 value

/-- What is handed over at the end of a call is narrow. -/
theorem valuesNarrow_giveBack {interface : Interface} (h : ∀ e ∈ r.2, ValuesNarrow narrow e) :
    ∀ e ∈ (giveBack narrow interface r).2, ValuesNarrow narrow e := by
  rcases r with ⟨_ | result, events⟩
  · exact h
  · intro e he
    rcases List.mem_cons.mp he with rfl | he
    · exact valuesNarrow_returned interface result
    · exact h e he

/-- Through all calls that functions make of each other, the arguments of old plugins
in constructions and the results of their calls are narrow, arrays apart. -/
theorem invoke_valuesNarrow {fuel : ℕ} {call : Call F D} {events : List (Event F D)}
    (hrun : invoke_ narrow resolve fuel call events = some r)
    (hevents : ∀ e ∈ events, ValuesNarrow narrow e) : ∀ e ∈ r.2, ValuesNarrow narrow e := by
  induction fuel generalizing call events r with
  | zero => cases hrun
  | succ fuel ih =>
    simp only [invoke_] at hrun
    cases hresolve : resolve call.name call.args with
    | none =>
      rw [hresolve] at hrun
      cases hrun
      exact hevents
    | some found =>
      obtain ⟨f, args⟩ := found
      rw [hresolve] at hrun
      have hkeeps := Program.eval_respects
        (R := fun before after => (∀ e ∈ before, ValuesNarrow narrow e) →
          ∀ e ∈ after, ValuesNarrow narrow e)
        (fun _ h => h) (fun _ _ _ hfirst hsecond h => hsecond (hfirst h))
        (fun call events answer hanswer hnarrow => by
          obtain ⟨r', hcall, rfl⟩ := Option.map_eq_some_iff.mp hanswer
          exact valuesNarrow_giveBack (ih hcall hnarrow)) hrun
      apply hkeeps
      intro e he
      rcases List.mem_cons.mp he with rfl | he
      · exact valuesNarrow_applied f call.runtime args
      · exact hevents e he

/-- In every evaluation of a call: an old plugin that is constructed gets each argument
that is not an array with a 32-bit type and unchanged otherwise, and so does the
result of each of its calls come back, while arrays come back as they are. -/
theorem legacy_valuesNarrow (narrow : D → F)
    (resolve : String → AVSValue F D → Option (Function F D × List (AVSValue F D))) {fuel : ℕ}
    {call : Call F D} {r : Result F D × List (Event F D)}
    (hrun : invoke_ narrow resolve fuel call [] = some r) :
    ∀ e ∈ r.2, ValuesNarrow narrow e :=
  invoke_valuesNarrow hrun fun _ he => nomatch he

/-- A function of an old C plugin that calls `Values`, which returns an array with a `long`. -/
def oldCaller : String → AVSValue ℤ ℤ → Option (Function ℤ ℤ × List (AVSValue ℤ ℤ))
  | "Old", args => some (⟨false, true, fun _ => .ask ⟨false, "Values", .void⟩⟩, [args])
  | "Values", _ => some (⟨false, false, fun _ => .finish (some (.array [.long 5]))⟩, [])
  | _, _ => none

/-- The events of the call `Old(7)`, where 7 is a `long`. -/
theorem legacy_valuesNarrow_caller :
    ∃ r, invoke_ id oldCaller 3 ⟨false, "Old", .long 7⟩ [] = some r ∧
      ∀ e ∈ r.2, ValuesNarrow id e := by
  have hends : (invoke_ id oldCaller 3 ⟨false, "Old", .long 7⟩ []).isSome = true := rfl
  obtain ⟨r, hrun⟩ := Option.isSome_iff_exists.mp hends
  exact ⟨r, hrun, legacy_valuesNarrow id oldCaller hrun⟩

/-- The array comes back to the old plugin with the `long` in it. -/
theorem legacy_arrayReturned :
    ¬∀ (narrow : ℤ → ℤ)
      (resolve : String → AVSValue ℤ ℤ → Option (Function ℤ ℤ × List (AVSValue ℤ ℤ)))
      (fuel : ℕ) (call : Call ℤ ℤ) (r : Result ℤ ℤ × List (Event ℤ ℤ)),
      invoke_ narrow resolve fuel call [] = some r → ∀ e ∈ r.2, AllNarrow narrow e := by
  intro h
  have hreturned := h id oldCaller 3 ⟨false, "Old", .long 7⟩ _ rfl
    (.returned .preV11C (.array [.long 5]) (.array [.long 5])) List.mem_cons_self
  have heq := hreturned (by decide)
  simp [deep32, deep32List] at heq

end LegacyInvoke

end AviSynth
