import AviSynth.Language.Parser
import AviSynth.Language.Signatures

/-!
# Calls of functions

`Invoke_` looks a function up by its name and its arguments: a variable that holds a function
comes first, then the functions of plugins and scripts, the last one registered before the
others, and then the built-in ones. If there is none, the plugins are loaded and the search
is done again. The body of a script function is evaluated in a context of its own. A built-in
function and one of a plugin is a program that makes requests to the environment; what
`Invoke_` puts around a clip that it returns is left to the program.
-/

namespace AviSynth

namespace Language

/-- What a function outside of the script asks of the environment. Pushing and popping contexts,
as the constructor of `Write` does, is not among it. -/
inductive Request (F D W : Type) where
  | getVarTry (name : String)
  | setVar (name : String) (value : AVSValue F D)
  | setGlobalVar (name : String) (value : AVSValue F D)
  | invokeTry (invocation : Invocation F D)
  | addFunction (f : Function F D)
  /-- The evaluation of a script, by `Eval` and `Import`. -/
  | evaluate (exp : Exp F D)
  | world (act : W → AVSValue F D × W)

/-- A program outside of the script. -/
abbrev Native (F D W α : Type) :=
  Program (Request F D W) (Except (ScriptError F D) (Option (AVSValue F D)))
    (Except (ScriptError F D) α)

/-- The functions that are no part of the script, with their programs by number, and the
loading of the plugins. -/
structure Natives (F D W : Type) where
  builtinFunctions : List (Function F D)
  apply : ℕ → List (AVSValue F D) → Native F D W (AVSValue F D)
  autoload : Native F D W Unit

variable {F D W : Type}

namespace Environment

/-- A context is pushed. -/
def push (env : Environment F D W) : Environment F D W := { env with vars := env.vars.push }

/-- The innermost context is popped. -/
def pop (env : Environment F D W) : Environment F D W := { env with vars := env.vars.pop }

/-- `PluginManager::AddFunction`. -/
def addFunction (env : Environment F D W) (f : Function F D) : Environment F D W :=
  if env.autoloading then { env with autoloadedFunctions := env.autoloadedFunctions ++ [f] }
  else { env with externalFunctions := env.externalFunctions ++ [f] }

/-- The frames of the variables below the innermost ones are the same, no variable of the
innermost local one is gone, and function objects have only been added. -/
structure Extends (env env' : Environment F D W) : Prop where
  below : VarTable.SameBelow env.vars env'.vars
  objects : env.objects <+: env'.objects
  locals : ∀ name, (env.vars.stackFrame.get name).isSome → (env'.vars.stackFrame.get name).isSome

namespace Extends

theorem of_vars_eq {env env' : Environment F D W} (h : env'.vars = env.vars)
    (hobjects : env.objects <+: env'.objects) : env.Extends env' where
  below := by
    rw [h]
    exact VarTable.SameBelow.refl _
  objects := hobjects
  locals name hname := by rwa [h]

theorem refl (env : Environment F D W) : env.Extends env := of_vars_eq rfl (List.prefix_refl _)

theorem trans (env env' env'' : Environment F D W) (h : env.Extends env')
    (h' : env'.Extends env'') : env.Extends env'' where
  below := h.below.trans h'.below
  objects := h.objects.trans h'.objects
  locals name hname := h'.locals name (h.locals name hname)

end Extends

theorem extends_setVar (env : Environment F D W) (name : String) (value : AVSValue F D) :
    env.Extends (env.setVar name value) where
  below := VarTable.SameBelow.set _ _ _
  objects := List.prefix_refl _
  locals other hother := by
    change ((env.vars.stackFrame.set name value).get other).isSome
    by_cases hname : other.toLower = name.toLower
    · simp [VarFrame.get, VarFrame.set, hname]
    · rwa [VarFrame.get_set_ne _ _ hname]

theorem extends_setGlobalVar (env : Environment F D W) (name : String) (value : AVSValue F D) :
    env.Extends (env.setGlobalVar name value) where
  below := VarTable.SameBelow.setGlobal _ _ _
  objects := List.prefix_refl _
  locals other hother := by
    change ((env.vars.setGlobal name value).stackFrame.get other).isSome
    rwa [VarTable.setGlobal_stackFrame]

theorem extends_setLast (env : Environment F D W) (value : AVSValue F D) :
    env.Extends (env.setLast value) := by
  unfold setLast
  split
  · exact extends_setVar _ _ _
  · exact Extends.refl env

theorem extends_addFunction (env : Environment F D W) (f : Function F D) :
    env.Extends (env.addFunction f) := by
  unfold addFunction
  split
  · exact Extends.of_vars_eq rfl (List.prefix_refl _)
  · exact Extends.of_vars_eq rfl (List.prefix_refl _)

end Environment

namespace Function

/-- The name that a function is looked up by, or the one with its plugin in front. -/
def hasName (f : Function F D) (name : String) : Bool :=
  f.name.any (fun own => own.toLower == name.toLower) ||
    f.canonName.any (fun own => own.toLower == name.toLower)

/-- `TypeMatch` and `ArgNameMatch`. -/
def accepts (f : Function F D) (args : List (AVSValue F D)) (argNames : List (Option String))
    (strict : Bool) : Result F D Bool := do
  return (← typeMatch f.paramTypes args strict) && argNameMatch f.paramTypes argNames

/-- `CheckArguments`: whether the types match strictly, if the function takes the arguments. -/
def checkArguments (f : Function F D) (args : List (AVSValue F D))
    (argNames : List (Option String)) : Result F D (Option Bool) := do
  if ← f.accepts args argNames false then return some (← typeMatch f.paramTypes args true)
  else return none

end Function

/-- The first of some functions that takes the arguments. -/
def firstMatch (args : List (AVSValue F D)) (argNames : List (Option String)) (strict : Bool) :
    List (Function F D) → Result F D (Option (Function F D))
  | [] => .ok none
  | f :: fs => do
    if ← f.accepts args argNames strict then return some f
    else firstMatch args argNames strict fs

/-- The passes of the search: whether the types have to match strictly, and the names of
arguments that have to be there. -/
def lookupPasses (argNames : List (Option String)) : List (Bool × List (Option String)) :=
  if argNames.isEmpty then [(true, []), (false, [])]
  else [(true, argNames), (false, argNames), (true, []), (false, [])]

/-- The function that the first successful pass finds, and whether that pass was strict. -/
def lookupInPasses (functions : List (Function F D)) (args : List (AVSValue F D)) :
    List (Bool × List (Option String)) → Result F D (Option (Function F D × Bool))
  | [] => .ok none
  | (strict, argNames) :: passes => do
    match ← firstMatch args argNames strict functions with
    | some f => return some (f, strict)
    | none => lookupInPasses functions args passes

/-- A test of the range in which every integer is a `float`. -/
def isWithinIntInFloat32Range (value : Int64) : Bool := -16777216 ≤ value && value ≤ 16777216

/-- The value that the variable of a parameter gets. Both branches of the conversion of an
integer have the type `double`. -/
def parameterValue [Floating F D] (isFloat : Bool) (arg : AVSValue F D) : AVSValue F D :=
  match isFloat, arg.asLong with
  | true, some value =>
    if isWithinIntInFloat32Range value then .double (Floating.widen (Floating.ofIntf D value : F))
    else .double (Floating.ofInt F value)
  | _, _ => arg

namespace Eval

open Exceptional

/-- `SetVar` for each of some names. -/
def setVars : List (String × AVSValue F D) → Eval F D W Unit
  | [] => pure ()
  | (name, value) :: vars => do
    setVar name value
    setVars vars

/-- `SetVar` for each argument. There is no result if there are more arguments than names. -/
def setParameters [Floating F D] :
    List String → List Bool → List (AVSValue F D) → Eval F D W Unit
  | _, _, [] => pure ()
  | name :: paramNames, isFloat :: paramFloats, arg :: args => do
    setVar name (parameterValue isFloat arg)
    setParameters paramNames paramFloats args
  | _, _, _ :: _ => diverge

/-- A context of its own for a body, with captured values and arguments. -/
def enterContext [Floating F D] (captured : List (String × AVSValue F D))
    (paramNames : List String) (paramFloats : List Bool) (args : List (AVSValue F D)) :
    Eval F D W Unit := do
  update Environment.push
  setVars captured
  setParameters paramNames paramFloats args

/-- The execution of a body with captured values and arguments. -/
def execute [Floating F D] (captured : List (String × AVSValue F D)) (paramNames : List String)
    (paramFloats : List Bool) (body : Eval F D W (AVSValue F D)) (args : List (AVSValue F D)) :
    Eval F D W (AVSValue F D) := do
  enterContext captured paramNames paramFloats args
  body.ensuring Environment.pop

section Natives

variable (natives : Natives F D W) (calls : Calls F D W) (rounds : ℕ)

/-- The functions of a name that are registered, in the order of the search. -/
def candidates (env : Environment F D W) (name : String) : List (Function F D) :=
  (env.externalFunctions.reverse ++ env.autoloadedFunctions.reverse).filter
      (fun f => f.hasName name) ++
    natives.builtinFunctions.filter fun f => f.name.any fun own => own.toLower == name.toLower

/-- What a variable says of a function's name: the function in it if that takes the
arguments, else the name to go on with. -/
def lookupVariable (name : String) (args : List (AVSValue F D))
    (argNames : List (Option String)) : Eval F D W (String × Option (Function F D × Bool)) := do
  match ← getVarTry name with
  | some (.function ptr) =>
    let env ← current
    match ptr.getLegacyName, ptr.getDefinition env.objects with
    | some legacyName, _ => pure (legacyName, none)
    | none, some f =>
      match ← ofResult (f.checkArguments args argNames) with
      | some strict => pure (name, some (f, strict))
      | none => pure (name, none)
    | none, none => diverge
  | _ => pure (name, none)

/-- `Lookup`, with the plugins as they are. -/
def lookupLoaded (name : String) (args : List (AVSValue F D)) (argNames : List (Option String)) :
    Eval F D W (String × Option (Function F D × Bool)) := do
  match ← lookupVariable name args argNames with
  | (name, some found) => pure (name, some found)
  | (name, none) =>
    let env ← current
    return (name, ← ofResult
      (lookupInPasses (candidates natives env name) args (lookupPasses argNames)))

variable [Floating F D]

/-- The answer to a request. -/
def handle : Request F D W → Eval F D W (Option (AVSValue F D))
  | .getVarTry name => getVarTry name
  | .setVar name value => do
    setVar name value
    pure none
  | .setGlobalVar name value => do
    setGlobalVar name value
    pure none
  | .invokeTry invocation => calls.invoke invocation
  | .addFunction f => do
    if isValidParameterString f.paramTypes then
      update fun env => env.addFunction f
      pure none
    else raiseError (f.name.getD "" ++ " has an invalid parameter string (bug in filter)")
  | .evaluate exp => do return some (← evaluate calls rounds exp)
  | .world act => fun env =>
    some (.ok (some (act env.world).1), { env with world := (act env.world).2 })

/-- `AutoloadPlugins`. An exception leaves the manager loading. -/
def autoloadPlugins : Eval F D W Unit := do
  update fun env => { env with autoloadExecuted := true, autoloading := true }
  ofProgram (handle calls rounds) natives.autoload
  update fun env => { env with autoloading := false }

/-- `Lookup`. -/
def lookup (name : String) (args : List (AVSValue F D)) (argNames : List (Option String)) :
    Eval F D W (Option (Function F D × Bool)) := do
  match ← lookupLoaded natives name args argNames with
  | (_, some found) => pure (some found)
  | (name, none) =>
    if (← current).autoloadExecuted then pure none
    else
      autoloadPlugins natives calls rounds
      return (← lookupLoaded natives name args argNames).2

/-- `FunctionExists`, with the plugins as they are. -/
def functionExistsLoaded (name : String) : Eval F D W Bool := do
  let env ← current
  return (env.vars.get name).any AVSValue.isFunction || !(candidates natives env name).isEmpty

/-- `FunctionExists`. -/
def functionExists (name : String) : Eval F D W Bool := do
  if ← functionExistsLoaded natives name then pure true
  else if (← current).autoloadExecuted then pure false
  else
    autoloadPlugins natives calls rounds
    functionExistsLoaded natives name

/-- The application of a function to the values of its parameters. -/
def applyFunction (f : Function F D) (args : List (AVSValue F D)) :
    Eval F D W (AVSValue F D) :=
  match f.code with
  | .script body paramFloats paramNames =>
    execute [] paramNames paramFloats (evaluate calls rounds body) args
  | .object p => do
    match (← current).objects[p]? with
    | some f =>
      execute (f.varNames.zip f.varData) f.paramNames f.paramFloats
        (evaluate calls rounds f.body) args
    | none => diverge
  | .native k => ofProgram (handle calls rounds) (natives.apply k args)

/-- The function for some arguments: the given one if it takes them, or one of the name. -/
def selectFunction (i : Invocation F D) (name : String) (args : List (AVSValue F D)) :
    Eval F D W (Option (Function F D × Bool)) :=
  match i.function with
  | some f => do
    return (← ofResult (f.checkArguments args i.argNames)).map fun strict => (f, strict)
  | none => lookup natives calls rounds name args i.argNames

/-- The second step of `Invoke_`: the function, whether its types match strictly, and the
arguments, with the implicit `last` in front if they do not match without. -/
def detectFunction (i : Invocation F D) (name : String) (args : List (AVSValue F D)) :
    Eval F D W (Option (Function F D × Bool × List (AVSValue F D))) := do
  match ← selectFunction natives calls rounds i name args with
  | some (f, strict) => pure (some (f, strict, args))
  | none =>
    if i.implicitLast.defined then
      let args := i.implicitLast :: args
      return (← selectFunction natives calls rounds i name args).map fun (f, strict) =>
        (f, strict, args)
    else pure none

/-- `Invoke_`. -/
def invokeFunction (i : Invocation F D) : Eval F D W (Option (AVSValue F D)) :=
  let name := i.name.getD "<anonymous function>"
  let args := flatten i.args i.argNames
  if args.length > maxArgs then
    raiseError s!"Too many arguments passed to function (max. is {maxArgs})"
  else do
    match ← detectFunction natives calls rounds i name args with
    | none => pure none
    | some (f, strict, args) =>
      let values ← ofResult
        (packArgs name f.paramTypes strict args (namedArgs i.args i.argNames))
      return some (← applyFunction natives calls rounds f values)

end Natives

end Eval

/-- The calls that an evaluation makes, with a bound on the depth of calls and on the rounds
of loops. -/
def callsAt [Floating F D] (natives : Natives F D W) : ℕ → Calls F D W
  | 0 => ⟨fun _ => Exceptional.diverge, fun _ => Exceptional.diverge⟩
  | n + 1 => ⟨Eval.invokeFunction natives (callsAt natives n) n,
      Eval.functionExists natives (callsAt natives n) n⟩

end Language

end AviSynth
