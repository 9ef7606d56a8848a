import AviSynth.Plugins.PluginManager

/-!
# Loading plugins and calling functions

The operations of the plugin manager as computations. A request of a program is
answered by them, and they run further programs: entry points, autoloaded scripts
and functions.
-/

namespace AviSynth

open Exceptional PluginState

namespace PluginWorld

variable (world : PluginWorld)

/-- The next operation of the surroundings that may fail. -/
def outside : Plugins Unit := fun s =>
  some (world.operation s.operations, { s with operations := s.operations + 1 })

/-- `AddFunction` up to the tables: the check of the parameter string, the new function,
and the warning about functions of other plugins. -/
def createFunction (name params : String) (code : FunctionCode) : Plugins AVSFunction := do
  if !isValidParameterString params then
    raise (.avisynthError (name ++ " has an invalid parameter string (bug in filter)"))
  else
    world.outside
    fun s => some (.ok (s.newFunction name params code), { s with fresh := s.fresh + 1 })

/-- `AddFunction` from the tables on: both names are entered and exported. -/
def enterFunction (f : AVSFunction) : Plugins Unit := do
  update (pushFunction f.name f)
  world.outside
  update (pushFunction f.canonName f)
  world.outside

/-- `AddFunction` for scripts and for plugins other than CX plugins. -/
def addFunction (name params : String) (code : FunctionCode) : Plugins Unit := do
  let f ← world.createFunction name params code
  update (log (.registered f))
  world.enterFunction f

/-- `RegisterFunction` of a CX session. An exception erases the binding after the
function's entries. -/
def registerFunction (session : ℕ) (name params : String) (apply : ℕ) : Plugins Unit :=
  if name.isEmpty || name.toList.contains '\x00' || params.toList.contains '\x00' ||
      !isValidParameterString params then
    raise (.avisynthError "invalid CX function name or parameter string")
  else do
    world.outside
    fun s =>
      let binding := s.fresh
      let add : Plugins Unit := do
        let f ← world.createFunction name params (.cx session binding)
        world.enterFunction f
        update (log (.registered f))
      let rollback (e : PluginError) : Plugins Unit := do
        update (withdraw session (some binding) s.toPluginTables)
        update (eraseBinding session binding)
        raise e
      add.catching rollback ({ s with fresh := s.fresh + 1 }.addBinding session binding apply)

section Programs

variable (handle : Caller → PluginRequest → Plugins PluginAnswer)

/-- Runs an entry point with `PluginInLoad` set. -/
def runInit (caller : Caller) (plugin : PluginFile) (init : PluginProgram) :
    Plugins (Except PluginError PluginAnswer) := do
  update (setPluginInLoad (some plugin))
  (ofProgram (handle caller) init).attempt

/-- `TryAsCx1` of a plugin with the CX entry point. It returns the exception that the
caller raises; `Commit` fails where `AtExit` does. -/
def tryAsCx1 (plugin : PluginFile) (session : ℕ) (init : PluginProgram) :
    Plugins (Except PluginError PluginAnswer) := fun s =>
  let previous := s.pluginInLoad
  let initialized : Plugins (Except PluginError PluginAnswer) := do
    update (setSession session (some ⟨plugin.filePath, [], [], false⟩))
    match ← runInit handle (.cx session) plugin init with
    | .error e => return .error e
    | .ok _ =>
      update (setPluginInLoad (some plugin))
      (do
        world.outside
        update (commit session)
        return PluginAnswer.done : Plugins PluginAnswer).attempt
  initialized.ensuring (setPluginInLoad previous) s

/-- The other entry points: they clear `PluginInLoad` at their end. -/
def tryAsLegacy (plugin : PluginFile) (init : PluginProgram) :
    Plugins (Except PluginError PluginAnswer) := do
  let result ← runInit handle (.library plugin.filePath) plugin init
  update (setPluginInLoad none)
  return result

/-- The message of an exception. -/
def messageOf : PluginError → String
  | .avisynthError msg => msg
  | .other => "Unknown exception"

/-- A library without a usable entry point is unloaded. -/
def reject (plugin : PluginFile) (throwOnError : Bool) : Plugins Bool := do
  update (freeLibrary plugin.filePath)
  if throwOnError then
    raise (.avisynthError ("'" ++ plugin.filePath ++
      "' cannot be used as a plugin for AviSynth."))
  else return false

/-- `LoadPlugin` from the loaded library on. Of the entry points other than the CX one,
only that of version 2.5 plugins has its library unloaded after an exception. -/
def initPlugin (plugin : PluginFile) (session : ℕ) (start : PluginTables) (throwOnError : Bool)
    (entries : EntryPoints) : Plugins Bool :=
  match entries.initCx1, entries.init3, entries.cInit2.or entries.cInit, entries.init2 with
  | some init, _, _, _ => do
    match ← world.tryAsCx1 handle plugin session init with
    | .ok _ => return true
    | .error e =>
      update (destroySession session start)
      update (freeLibrary plugin.filePath)
      raise (.avisynthError ("'" ++ plugin.filePath ++ "' CX plugin loading error:\n" ++
        messageOf e))
  | none, some init, _, _ => do
    match ← tryAsLegacy handle plugin init with
    | .ok _ => return true
    | .error e =>
      raise (.avisynthError ("'" ++ plugin.filePath ++ "' plugin loading error:\n" ++
        messageOf e))
  | none, none, some init, _ => do
    match ← tryAsLegacy handle plugin init with
    | .ok _ => return true
    -- an exception of a C plugin is not caught
    | .error e => raise e
  | none, none, none, some init => do
    match ← tryAsLegacy handle plugin init with
    | .ok _ => return true
    | .error _ => reject plugin throwOnError
  | none, none, none, none => reject plugin throwOnError

/-- `LoadPlugin` without the restoring of `PluginInLoad`. -/
def loadFile (path : String) (throwOnError : Bool) (number : ℕ) : Plugins Bool := fun s =>
  let autoloading := s.autoloading
  let plugin : PluginFile := ⟨path, baseName path, none, number⟩
  if (s.pluginList autoloading).any (·.filePath.toLower == path.toLower) then some (.ok true, s)
  else
    match world.libraries path with
    | .unloadable mismatch =>
      if mismatch || throwOnError then
        raise (.avisynthError ("Cannot load file '" ++ path ++ "'.")) s
      else some (.ok false, s)
    | .library entries =>
      let loading : Plugins Bool := do
        if ← world.initPlugin handle plugin number s.toPluginTables throwOnError entries then
          update (pushPlugin autoloading
            { plugin with cxSession := entries.initCx1.map fun _ => number })
          return true
        else return false
      loading (s.openLibrary path)

/-- Whether an attempt has failed. -/
def loadFailed : Except PluginError Bool → Bool
  | .ok loaded => !loaded
  | .error _ => true

/-- `PluginManager::LoadPlugin`: an attempt with a number of its own. -/
def loadPlugin (path : String) (throwOnError : Bool) : Plugins Bool := fun s =>
  (world.loadFile handle path throwOnError s.fresh s.beginAttempt).map fun (result, t) =>
    (result, s.endAttempt (loadFailed result) t)

/-- A library of an autoload directory is loaded unless one with its base name is. -/
def autoloadLibrary (path : String) : Plugins Unit := fun s =>
  if s.autoLoadedPlugins.any (·.baseName.toLower == (baseName path).toLower) then
    some (.ok (), s)
  else
    let load : Plugins Unit := do
      let _ ← world.loadPlugin handle path false
    load s

def autoloadScript (path : String) : Plugins Unit := fun s =>
  if s.autoLoadedImports.any (·.baseName.toLower == (baseName path).toLower) then
    some (.ok (), s)
  else
    let load : Plugins Unit := do
      let _ ← ofProgram (handle .script) (world.scripts path)
      update fun t =>
        { t with autoLoadedImports := t.autoLoadedImports ++ [⟨path, baseName path, none, 0⟩] }
    load s

/-- `AutoloadPlugins`, which is done once. -/
def autoloadPlugins : Plugins Unit := fun s =>
  if s.autoloadExecuted then some (.ok (), s)
  else
    (forEach (fun dir => do
        forEach (world.autoloadLibrary handle) dir.plugins
        forEach (world.autoloadScript handle) dir.scripts) world.dirs s.beginAutoload).map fun
      | (.ok (), t) => (.ok (), t.endAutoload false)
      | (.error e, t) => (.error e, t.endAutoload true)

/-- `PluginManager::Lookup`: the functions that were not autoloaded take priority. -/
def pluginLookup (s : PluginState) (name : String) (fits : AVSFunction → Bool) :
    Option AVSFunction :=
  (s.externalFunctions.lookup name fits).or (s.autoloadedFunctions.lookup name fits)

/-- The functions that `PluginManager::Lookup` chooses from. -/
def candidates (s : PluginState) (name : String) (fits : AVSFunction → Bool) :
    List AVSFunction :=
  s.externalFunctions.candidates name fits ++ s.autoloadedFunctions.candidates name fits

/-- How a name is looked up: with strict types before others, and with the names of the
arguments before without. -/
def lookupLevels (call : FunctionCall) : List (Bool × Bool) :=
  if call.named then [(true, true), (false, true), (true, false), (false, false)]
  else [(true, false), (false, false)]

/-- What a lookup finds: a function of the tables with its candidates, or a built-in
function. -/
def lookupAt (s : PluginState) (call : FunctionCall) (strict names : Bool) :
    Option (Option FoundFunction) :=
  let fits (params : String) := world.signatureMatches strict names params call.args
  match pluginLookup s call.name fun f => fits f.paramTypes with
  | some f => some (some ⟨f, candidates s call.name fun f => fits f.paramTypes⟩)
  | none =>
    if world.builtins.any fun (name, params) =>
        name.toLower == call.name.toLower && fits params then some none
    else none

/-- `ScriptEnvironment::Lookup` without the autoload run. -/
def scriptLookup (s : PluginState) (call : FunctionCall) : Option (Option FoundFunction) :=
  (lookupLevels call).findSome? fun (strict, names) => world.lookupAt s call strict names

/-- The code of a function runs. A function whose library or binding is gone brings the
process down. -/
def apply : FunctionCode → Plugins PluginAnswer
  | .script body => ofProgram (handle .script) (world.bodies body)
  | .library path body => fun s =>
    if s.libraries path = 0 then none
    else ofProgram (handle (.library path)) (world.bodies body) s
  | .cx session binding => fun s =>
    ((s.sessions session).bind fun cx => cx.bindings.lookup binding).bind fun body =>
      ofProgram (handle (.cx session)) (world.bodies body) s

/-- A function is called, or a built-in one. -/
def applyFound : Option FoundFunction → Plugins PluginAnswer
  | none => pure .done
  | some found => do
    update (log (.found found))
    world.apply handle found.function.code

/-- `Invoke` after the autoload run. -/
def invokeLoaded (call : FunctionCall) : Plugins PluginAnswer := fun s =>
  match world.scriptLookup s call with
  | some found => world.applyFound handle found s
  | none => raise .other s

/-- `Invoke`: where nothing is found, the lookup is made again after the autoload run. -/
def invoke (call : FunctionCall) : Plugins PluginAnswer := fun s =>
  if (world.scriptLookup s call).isSome || s.autoloadExecuted then
    world.invokeLoaded handle call s
  else
    let again : Plugins PluginAnswer := do
      world.autoloadPlugins handle
      world.invokeLoaded handle call
    again s

/-- Whether a table has a function of the name, or there is a built-in one. -/
def knows (s : PluginState) (name : String) : Bool :=
  world.builtins.any (·.1.toLower == name.toLower) ||
    s.autoloadedFunctions.functionExists name || s.externalFunctions.functionExists name

/-- `FunctionExists`, which also makes the autoload run. -/
def functionExists (name : String) : Plugins PluginAnswer := fun s =>
  if world.knows s name then some (.ok (.bool true), s)
  else if s.autoloadExecuted then some (.ok (.bool false), s)
  else
    let again : Plugins PluginAnswer := do
      world.autoloadPlugins handle
      fun t => some (.ok (.bool (world.knows t name)), t)
    again s

/-- A function given to `AtExit` is called. An exception brings the process down. -/
def callExit : ExitFunction → Plugins Unit
  | .bridge session => update (shutdownBridge session)
  | .other code => fun s =>
    match world.apply handle code s with
    | some (.ok _, t) => some (.ok (), t)
    | _ => none

/-- `AtExiter::Execute`: the functions are called, the newest one first. The next one is
taken from the list before a call, so that functions added by it are dropped. -/
def executeExits : List ExitFunction → Plugins Unit
  | [] => pure ()
  | f :: rest => do
    world.callExit handle f
    update fun s => { s with atExit := rest }
    executeExits rest

/-- The destructor of the environment. -/
def destroyEnvironment : Plugins Unit := fun s =>
  let destroy : Plugins Unit := do
    world.executeExits handle s.atExit
    update destroyManager
  destroy { s with exiting := true }

end Programs

/-- The flags at a request. -/
def observe (s : PluginState) : PluginState := s.log (.observed s.autoloading s.inAutoload)

/-- The answer to a request of the given code, with requests at most `fuel` deep. -/
def perform (world : PluginWorld) : ℕ → Caller → PluginRequest → Plugins PluginAnswer
  | 0, _, _ => fun _ => none
  | fuel + 1, caller, request => do
    update observe
    match request, caller with
    | .addFunction name params apply, .script => do
      world.addFunction name params (.script apply)
      return .done
    | .addFunction name params apply, .library path => do
      world.addFunction name params (.library path apply)
      return .done
    | .addFunction name params apply, .cx session => do
      world.registerFunction session name params apply
      return .done
    | .registerShutdown callback, .cx session => do
      world.outside
      update (addShutdown session callback)
      return .done
    -- only CX plugins have the registry
    | .registerShutdown _, _ => raise .other
    | .loadPlugin path throwOnError, _ => do
      world.autoloadPlugins (perform world fuel)
      return .bool (← world.loadPlugin (perform world fuel) path throwOnError)
    | .autoloadPlugins, _ => do
      world.autoloadPlugins (perform world fuel)
      return .done
    | .functionExists name, _ => world.functionExists (perform world fuel) name
    | .invoke call, _ => world.invoke (perform world fuel) call
    | .atExit callback, .script => do
      world.outside
      update (addExit (.other (.script callback)))
      return .done
    | .atExit callback, .library path => do
      world.outside
      update (addExit (.other (.library path callback)))
      return .done
    -- CX plugins have `RegisterShutdown` instead
    | .atExit _, .cx _ => raise .other

end PluginWorld

end AviSynth
