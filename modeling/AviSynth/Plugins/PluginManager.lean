import AviSynth.Library.Programs
import AviSynth.Plugins.FunctionTable

/-!
# The plugin manager

Plugins are loaded by hand or by the autoload run, which is made before the first
manual load and when a function is not found. A plugin's entry point is a program
that registers functions and may load other plugins, call functions and look for
them. Plugins with the CX entry point register through a session, which takes
everything back if the entry point fails.
-/

namespace AviSynth

open Exceptional

/-- How a call of the manager throws. -/
inductive PluginError
  | avisynthError (msg : String)
  | other
  deriving DecidableEq, Repr

/-- A call of a function by its name. `named` says whether arguments have names. -/
structure FunctionCall where
  name : String
  args : ℕ
  named : Bool
  deriving DecidableEq, Repr

/-- What scripts and plugins ask of the environment. -/
inductive PluginRequest
  | addFunction (name params : String) (apply : ℕ)
  | registerShutdown (callback : ℕ)
  | loadPlugin (path : String) (throwOnError : Bool)
  | autoloadPlugins
  | functionExists (name : String)
  | invoke (call : FunctionCall)
  | atExit (callback : ℕ)

/-- What a request is answered with. -/
inductive PluginAnswer
  | done
  | bool (b : Bool)
  | value (n : ℕ)
  deriving DecidableEq, Repr

/-- What foreign code does: requests, and an end. -/
abbrev PluginProgram := Program PluginRequest (Except PluginError PluginAnswer)
  (Except PluginError PluginAnswer)

/-- The entry points of a library, in the order in which they are tried. -/
structure EntryPoints where
  initCx1 : Option PluginProgram
  init3 : Option PluginProgram
  cInit2 : Option PluginProgram
  cInit : Option PluginProgram
  init2 : Option PluginProgram

/-- A file that can be loaded as a library, or not. Files for another kind of machine raise
an error whatever `throwOnError` says. -/
inductive LibraryFile
  | unloadable (mismatch : Bool)
  | library (entries : EntryPoints)

/-- The plugins and scripts of an autoload directory. -/
structure AutoloadDir where
  plugins : List String
  scripts : List String

/-- What is around the plugin manager: the files, the code of functions and scripts, how
signatures match, and how the operations that may fail end: allocations, writing the
log, updating the lists of exported functions, `AtExit`. -/
structure PluginWorld where
  libraries : String → LibraryFile
  dirs : List AutoloadDir
  scripts : String → PluginProgram
  bodies : ℕ → PluginProgram
  builtins : List (String × String)
  signatureMatches : (strict names : Bool) → String → ℕ → Bool
  operation : ℕ → Except PluginError Unit

/-- Whose code is running. -/
inductive Caller
  | script
  | library (path : String)
  | cx (session : ℕ)
  deriving DecidableEq, Repr

/-- A plugin in a list. `cxSession` is also the number of the attempt that loaded it. -/
structure PluginFile where
  filePath : String
  baseName : String
  cxSession : Option ℕ
  attempt : ℕ
  deriving DecidableEq, Repr

/-- A CX session that has not been destroyed. The library of a binding is that of the
session. -/
structure CxHostSession where
  library : String
  bindings : List (ℕ × ℕ)
  pendingShutdowns : List ℕ
  committed : Bool
  deriving DecidableEq, Repr

/-- The functions and plugins, the loaded libraries and the sessions. -/
structure PluginTables where
  externalFunctions : FunctionMap
  autoloadedFunctions : FunctionMap
  loadedPlugins : List PluginFile
  autoLoadedPlugins : List PluginFile
  /-- How often each library is loaded. -/
  libraries : String → ℕ
  sessions : ℕ → Option CxHostSession

/-- An attempt to load a plugin that has ended: the tables before and after it, and the
functions that were registered in it outside of the attempts inside of it. -/
structure LoadAttempt where
  number : ℕ
  failed : Bool
  before : PluginTables
  after : PluginTables
  registered : List AVSFunction

/-- What a session has taken back, all of its functions or those of one binding: the
tables when the session or the registration began, and right before and after. -/
structure Withdrawal where
  session : ℕ
  binding : Option ℕ
  start : PluginTables
  before : PluginTables
  after : PluginTables

/-- A lookup that has found a function, and all functions in both tables that it could
have found. -/
structure FoundFunction where
  function : AVSFunction
  candidates : List AVSFunction
  deriving DecidableEq, Repr

/-- What can be observed. -/
inductive PluginEvent
  | registered (f : AVSFunction)
  | loadEnded (attempt : LoadAttempt)
  | withdrawn (withdrawal : Withdrawal)
  | accepted (session callback : ℕ) (late : Bool)
  | committed (session : ℕ) (exiting : Bool)
  | shutDown (session callback : ℕ)
  | bindingDestroyed (session binding : ℕ) (listed : Bool)
  | found (lookup : FoundFunction)
  | autoloadEnded (failed : Bool)
  | observed (autoloading inProgress : Bool)

/-- A function given to `AtExit`: the bridge of a CX session, or other code. -/
inductive ExitFunction
  | bridge (session : ℕ)
  | other (code : FunctionCode)
  deriving DecidableEq, Repr

/-- The state of the plugin manager and of its sessions. The last seven fields are not in
the source: the number of operations of the surroundings so far; a counter for
addresses, sessions and attempts; the innermost attempt in progress; whether an
autoload run is in progress; whether the environment has begun to end, and the sessions
whose bridges have been called; and what has happened. -/
structure PluginState extends PluginTables where
  autoLoadedImports : List PluginFile
  autoloadExecuted : Bool
  autoloading : Bool
  pluginInLoad : Option PluginFile
  atExit : List ExitFunction
  operations : ℕ
  fresh : ℕ
  attempt : ℕ
  inAutoload : Bool
  exiting : Bool
  bridged : List ℕ
  history : List PluginEvent

/-- Functions of the manager. -/
abbrev Plugins := Exceptional PluginState PluginError

/-- The file's name without directories and extension. -/
def baseName (filePath : String) : String :=
  let name := (filePath.toList.reverse.takeWhile (· ≠ '/')).reverse
  if !filePath.toList.contains '/' then filePath
  else if name.contains '.' then
    String.ofList (name.reverse.dropWhile (· ≠ '.')).tail.reverse
  else String.ofList name

namespace PluginState

/-- A manager before any request. -/
def initial : PluginState where
  externalFunctions := []
  autoloadedFunctions := []
  loadedPlugins := []
  autoLoadedPlugins := []
  libraries := fun _ => 0
  autoLoadedImports := []
  autoloadExecuted := false
  autoloading := false
  pluginInLoad := none
  sessions := fun _ => none
  atExit := []
  operations := 0
  fresh := 1
  attempt := 0
  inAutoload := false
  exiting := false
  bridged := []
  history := []

/-- An event is noted. -/
def log (event : PluginEvent) (s : PluginState) : PluginState :=
  { s with history := s.history ++ [event] }

/-- The functions registered in an attempt, outside of the attempts inside of it. -/
def registeredIn (number : ℕ) (s : PluginState) : List AVSFunction :=
  s.history.filterMap fun
    | .registered f => if f.attempt = number then some f else none
    | _ => none

/-- `new AVSFunction`. -/
def newFunction (name params : String) (code : FunctionCode) (s : PluginState) :
    AVSFunction where
  address := s.fresh
  name := name
  canonName := (s.pluginInLoad.elim "" (·.baseName)) ++ "_" ++ name
  paramTypes := params
  dllPath := s.pluginInLoad.map (·.filePath)
  code := code
  attempt := s.attempt
  duringAutoload := s.inAutoload

/-- An entry in the table for functions that are registered now. -/
def pushFunction (name : String) (f : AVSFunction) (s : PluginState) : PluginState :=
  if s.autoloading then
    { s with autoloadedFunctions := s.autoloadedFunctions.add name f }
  else
    { s with externalFunctions := s.externalFunctions.add name f }

/-- Whether a function is called through the session, and through the given binding if
there is one. -/
def belongsTo (session : ℕ) (binding : Option ℕ) (f : AVSFunction) : Bool :=
  match f.code with
  | .cx session' binding' => session' == session && binding.all (· == binding')
  | _ => false

/-- `RemoveFunctions` of a session. -/
def removeFunctions (session : ℕ) (binding : Option ℕ) (s : PluginState) : PluginState :=
  { s with
    externalFunctions := s.externalFunctions.removeFunctions (belongsTo session binding)
    autoloadedFunctions := s.autoloadedFunctions.removeFunctions (belongsTo session binding) }

/-- Removes functions and says so. -/
def withdraw (session : ℕ) (binding : Option ℕ) (start : PluginTables) (s : PluginState) :
    PluginState :=
  let t := s.removeFunctions session binding
  t.log (.withdrawn ⟨session, binding, start, s.toPluginTables, t.toPluginTables⟩)

/-- The session of a handle is made, changed or deleted. -/
def setSession (session : ℕ) (value : Option CxHostSession) (s : PluginState) : PluginState :=
  { s with sessions := Function.update s.sessions session value }

/-- Whether a table has a function that is called through the binding. -/
def listed (session binding : ℕ) (s : PluginState) : Bool :=
  (s.externalFunctions ++ s.autoloadedFunctions).any
    fun e => belongsTo session (some binding) e.function

/-- A session binds a function. -/
def addBinding (session binding apply : ℕ) (s : PluginState) : PluginState :=
  match s.sessions session with
  | none => s
  | some cx =>
    s.setSession session (some { cx with bindings := cx.bindings ++ [(binding, apply)] })

/-- A binding of a session is undone. -/
def eraseBinding (session binding : ℕ) (s : PluginState) : PluginState :=
  match s.sessions session with
  | none => s
  | some cx =>
    (s.setSession session (some { cx with bindings := cx.bindings.filter (·.1 ≠ binding) })).log
      (.bindingDestroyed session binding (s.listed session binding))

/-- The shutdown callbacks run, the newest one first. An exception of a callback is
dropped. -/
def runShutdowns (session : ℕ) (callbacks : List ℕ) (s : PluginState) : PluginState :=
  { s with history := s.history ++ callbacks.reverse.map (.shutDown session) }

/-- The members of a session are destroyed. -/
def destroyBindings (session : ℕ) (bindings : List (ℕ × ℕ)) (s : PluginState) : PluginState :=
  { s with
    history := s.history ++ bindings.map fun (binding, _) =>
      .bindingDestroyed session binding (s.listed session binding) }

/-- The destructor of a session. -/
def destroySession (session : ℕ) (start : PluginTables) (s : PluginState) : PluginState :=
  match s.sessions session with
  | none => s
  | some cx =>
    let rolledBack :=
      if cx.committed then s
      else (s.withdraw session none start).runShutdowns session cx.pendingShutdowns
    (rolledBack.destroyBindings session cx.bindings).setSession session none

/-- `ShutdownBridge`. -/
def shutdownBridge (session : ℕ) (s : PluginState) : PluginState :=
  match s.sessions session with
  | none => s
  | some cx =>
    { (s.runShutdowns session cx.pendingShutdowns).setSession session
        (some { cx with pendingShutdowns := [] }) with
      bridged := session :: s.bridged }

/-- A session registers a shutdown callback. -/
def addShutdown (session callback : ℕ) (s : PluginState) : PluginState :=
  match s.sessions session with
  | none => s
  | some cx =>
    (s.setSession session
      (some { cx with pendingShutdowns := cx.pendingShutdowns ++ [callback] })).log
        (.accepted session callback (s.bridged.contains session))

/-- `AtExit`. -/
def addExit (f : ExitFunction) (s : PluginState) : PluginState :=
  { s with atExit := f :: s.atExit }

/-- `Commit`, where `AtExit` takes the session. -/
def commit (session : ℕ) (s : PluginState) : PluginState :=
  match s.sessions session with
  | none => s
  | some cx =>
    ((s.setSession session (some { cx with committed := true })).addExit (.bridge session)).log
      (.committed session s.exiting)

/-- A library is opened. -/
def openLibrary (path : String) (s : PluginState) : PluginState :=
  { s with libraries := Function.update s.libraries path (s.libraries path + 1) }

/-- A library is freed. -/
def freeLibrary (path : String) (s : PluginState) : PluginState :=
  { s with libraries := Function.update s.libraries path (s.libraries path - 1) }

/-- The list that a loaded plugin goes into. -/
def pluginList (autoloading : Bool) (s : PluginState) : List PluginFile :=
  if autoloading then s.autoLoadedPlugins else s.loadedPlugins

/-- A plugin goes into its list. -/
def pushPlugin (autoloading : Bool) (plugin : PluginFile) (s : PluginState) : PluginState :=
  if autoloading then { s with autoLoadedPlugins := s.autoLoadedPlugins ++ [plugin] }
  else { s with loadedPlugins := s.loadedPlugins ++ [plugin] }

/-- `PluginInLoad` is assigned. -/
def setPluginInLoad (plugin : Option PluginFile) (s : PluginState) : PluginState :=
  { s with pluginInLoad := plugin }

/-- An attempt to load a plugin begins. -/
def beginAttempt (s : PluginState) : PluginState :=
  { s with fresh := s.fresh + 1, attempt := s.fresh }

/-- It ends, and `PluginInLoad` is restored. -/
def endAttempt (start : PluginState) (failed : Bool) (t : PluginState) : PluginState :=
  { t with attempt := start.attempt, pluginInLoad := start.pluginInLoad }.log
    (.loadEnded ⟨start.fresh, failed, start.toPluginTables, t.toPluginTables,
      t.registeredIn start.fresh⟩)

/-- `Autoloaded` is set. -/
def beginAutoload (s : PluginState) : PluginState :=
  { s with autoloadExecuted := true, autoloading := true, inAutoload := true }

/-- The end of the autoload run: an exception leaves `Autoloading` set. -/
def endAutoload (failed : Bool) (t : PluginState) : PluginState :=
  { t with autoloading := failed && t.autoloading, inAutoload := false }.log
    (.autoloadEnded failed)

/-- The destructor of the plugin manager: the functions are deleted, the libraries are
unloaded, and the plugins' sessions are destroyed. -/
def destroyManager (s : PluginState) : PluginState :=
  let plugins := s.loadedPlugins ++ s.autoLoadedPlugins
  let deleted := { s with externalFunctions := [], autoloadedFunctions := [] }
  let unloaded := plugins.foldl (fun s plugin => s.freeLibrary plugin.filePath) deleted
  (plugins.filterMap (·.cxSession)).foldl
    (fun s session => s.destroySession session s.toPluginTables) unloaded

end PluginState

end AviSynth
