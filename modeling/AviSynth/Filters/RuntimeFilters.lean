import AviSynth.Library.Programs
import AviSynth.Script.VarTable
import Mathlib.Data.Nat.Notation
import Mathlib.Data.Int.Notation

/-!
# Runtime filters

`ConditionalSelect`, `ConditionalFilter`, `ScriptClip` and `Write` evaluate scripts
for each frame. A script finds the filter's child in `last` and the number of the
frame in `current_frame`. Without the option `local` both are set in the local
frame of the caller and set back by hand; with it they live in frames of their own.

A script, or the code of another filter, is a program. It may request frames,
which leads to further runtime filters, call script functions, and catch
exceptions.
-/

namespace AviSynth

open Exceptional

/-- The values that the filters tell apart. A clip is given by its number. -/
inductive ScriptValue
  | undefined
  | bool (b : Bool)
  | int (n : ℤ)
  | clip (clip : ℕ)
  | other (n : ℕ)
  deriving DecidableEq, Repr

/-- How an evaluation throws. -/
inductive ScriptError
  | avisynthError (msg : String)
  | notFound
  | other
  deriving DecidableEq, Repr

/-- What a filter can ask for while it makes a frame. -/
inductive FilterRequest
  | frame (clip : ℕ) (n : ℤ)
  | call (function : ℕ) (args : List (String × ScriptValue))
  | setGlobalVar (name : String) (value : ScriptValue)

/-- What a script can ask for. -/
inductive RuntimeRequest
  | filter (request : FilterRequest)
  | getVar (name : String)
  | setVar (name : String) (value : ScriptValue)
  | construct (clip : ℕ)

/-- The code of a filter other than the runtime filters: it does not assign variables
of the frame it is called in. -/
abbrev FilterProgram := Program FilterRequest (Except ScriptError ScriptValue)
  (Except ScriptError ScriptValue)

/-- What a script does: requests, and an end. -/
abbrev RuntimeProgram := Program RuntimeRequest (Except ScriptError ScriptValue)
  (Except ScriptError ScriptValue)

/-- The script of a runtime filter: a text, which may not parse, or a function, which
may not take the filter's arguments. -/
inductive RuntimeScript
  | text (parsed : Except ScriptError RuntimeProgram)
  | function (accepted : Bool) (function : ℕ) (args : List (String × ScriptValue))

/-- The filters. The results of the two expressions of `ConditionalFilter` are compared
by `compare`, which is `none` where their types do not fit. -/
inductive RuntimeFilter
  | conditionalSelect (child : ℕ) (script : RuntimeScript) (sources : List ℕ) (show_ isLocal : Bool)
  | conditionalFilter (child source1 source2 : ℕ) (eval1 eval2 : RuntimeScript)
      (compare : ScriptValue → ScriptValue → Option Bool) (show_ isLocal : Bool)
  | scriptClip (child : ℕ) (script : RuntimeScript) (show_ onlyEval evalAfter isLocal : Bool)
  | write (child : ℕ) (exprs : List RuntimeScript) (linecheck : ℤ) (isLocal : Bool)
  | other (code : ℤ → FilterProgram)

/-- A call of a runtime filter that has ended: `last` and `current_frame` before and
after it, and whether an exception left it between setting and restoring them. -/
structure RuntimeRecord where
  before : ScriptValue × ScriptValue
  escaped : Bool
  after : ScriptValue × ScriptValue
  deriving DecidableEq, Repr

/-- A thread: its variables, the number of operations outside of scripts so far, and
the calls of runtime filters that have ended. -/
structure RuntimeState where
  vars : VarTable ScriptValue
  operations : ℕ
  history : List RuntimeRecord

/-- Functions of the filters. -/
abbrev Runtime := Exceptional RuntimeState ScriptError

namespace RuntimeState

/-- A variable of the innermost frame is set. -/
def setVar (name : String) (value : ScriptValue) (s : RuntimeState) : RuntimeState :=
  { s with vars := s.vars.set name value }

/-- A global variable is set. -/
def setGlobalVar (name : String) (value : ScriptValue) (s : RuntimeState) : RuntimeState :=
  { s with vars := s.vars.setGlobal name value }

/-- The value of a variable, or undefined. -/
def getVarDef (s : RuntimeState) (name : String) : ScriptValue :=
  (s.vars.get name).getD .undefined

/-- The values of `last` and `current_frame`. -/
def watched (s : RuntimeState) : ScriptValue × ScriptValue :=
  (s.getVarDef "last", s.getVarDef "current_frame")

def setWatched (values : ScriptValue × ScriptValue) (s : RuntimeState) : RuntimeState :=
  (s.setVar "last" values.1).setVar "current_frame" values.2

def setWatchedGlobal (values : ScriptValue × ScriptValue) (s : RuntimeState) : RuntimeState :=
  (s.setGlobalVar "last" values.1).setGlobalVar "current_frame" values.2

/-- A call of a filter is recorded. -/
def record (before : ScriptValue × ScriptValue) (escaped : Bool) (s : RuntimeState) :
    RuntimeState :=
  { s with history := s.history ++ [⟨before, escaped, s.watched⟩] }

end RuntimeState

/-- What is around the thread: the filters and script functions by their numbers, the
number of frames of a clip, whether a clip fits another one's format, and how the
operations outside of scripts end: drawing a message, opening the output file. -/
structure RuntimeWorld where
  filters : ℕ → RuntimeFilter
  functions : ℕ → RuntimeProgram
  numFrames : ℕ → ℤ
  sameFormat : ℕ → ℕ → Bool
  operation : ℕ → Except ScriptError Unit

namespace RuntimeWorld

variable {α β : Type}

/-- An `AvisynthError` becomes a result; other exceptions are passed on. -/
def catchingError (p : Runtime α) : Runtime (Except String α) :=
  Exceptional.catching (do return .ok (← p)) fun
    | .avisynthError msg => pure (.error msg)
    | e => raise e

/-- The work of a runtime filter: `evaluate` runs with `last` and `current_frame` set
to `values`, and `deliver` after they are restored. With `local`, both run in
frames of their own, which a destructor removes. -/
def withVariables (isLocal : Bool) (values : ScriptValue × ScriptValue) (evaluate : Runtime α)
    (deliver : α → Runtime β) : Runtime β := fun s =>
  let before := s.watched
  if isLocal then
    let inner := { s with vars := s.vars.pushGlobal }.setWatchedGlobal values
    ((evaluate >>= deliver) inner).map fun (result, t) =>
      (result, { t with vars := t.vars.popGlobal }.record before false)
  else
    (evaluate (s.setWatched values)).bind fun
      | (.error e, t) => some (.error e, t.record before true)
      | (.ok a, t) => (deliver a (t.setWatched before)).map fun (result, u) =>
        (result, u.record before false)

/-- The next operation outside of scripts. -/
def outside (world : RuntimeWorld) : Runtime Unit := fun s =>
  some (world.operation s.operations, { s with operations := s.operations + 1 })

/-- A script function runs in a local frame of its own. -/
def execute (world : RuntimeWorld) (handle : RuntimeRequest → Runtime ScriptValue) (function : ℕ)
    (args : List (String × ScriptValue)) : Runtime ScriptValue := fun s =>
  let vars := args.foldl (fun vars (name, value) => vars.set name value) s.vars.push
  (ofProgram handle (world.functions function)).ensuring (fun t => { t with vars := t.vars.pop })
    { s with vars }

/-- The evaluation of a filter's script. `mismatch` is the exception for a function
that does not take the arguments. -/
def evaluate (world : RuntimeWorld) (handle : RuntimeRequest → Runtime ScriptValue)
    (mismatch : ScriptError) :
    RuntimeScript → Runtime ScriptValue
  | .text (.ok program) => ofProgram handle program
  | .text (.error e) => raise e
  | .function true function args => world.execute handle function args
  | .function false _ _ => raise mismatch

variable (world : RuntimeWorld) (handle : RuntimeRequest → Runtime ScriptValue)

/-- A frame of a child, the last one beyond its end. -/
def childFrame (clip : ℕ) (n : ℤ) : Runtime ScriptValue :=
  handle (.filter (.frame clip (min (world.numFrames clip - 1) n)))

/-- A frame with a message drawn on it. -/
def drawn (frame : Runtime ScriptValue) : Runtime ScriptValue := do
  let dst ← frame
  world.outside
  return dst

/-- A child's frame with a message drawn on it. -/
def messageFrame (clip : ℕ) (n : ℤ) : Runtime ScriptValue :=
  world.drawn (world.childFrame handle clip n)

/-- `GetFrame` of `ConditionalSelect`. -/
def conditionalSelect (child : ℕ) (script : RuntimeScript) (sources : List ℕ)
    (show_ isLocal : Bool) (n : ℤ) : Runtime ScriptValue :=
  withVariables isLocal (.clip child, .int n)
    (catchingError do
      match ← world.evaluate handle (.avisynthError
        "ConditionalSelect: Invalid function parameter type") script with
      | .int i => return i
      | _ => raise (.avisynthError
          "Conditional Select: Expression must return an integer!"))
    fun
      | .error _ => world.messageFrame handle child n
      | .ok i => do
        let source := if i < 0 then child else sources.getD i.toNat child
        if show_ then world.messageFrame handle source n
        else world.childFrame handle source n

/-- `GetFrame` of `ConditionalFilter`. The frame with an error message is made
before the variables are restored. -/
def conditionalFilter (child source1 source2 : ℕ) (eval1 eval2 : RuntimeScript)
    (compare : ScriptValue → ScriptValue → Option Bool) (show_ isLocal : Bool) (n : ℤ) :
    Runtime ScriptValue :=
  withVariables isLocal (.clip child, .int n)
    (do
      let results ← catchingError do
        let e1 ← world.evaluate handle (.avisynthError
          "ConditionalFilter: Invalid function parameter type") eval1
        match eval1 with
        | .text _ => return (e1, ← world.evaluate handle (.avisynthError "Not a string") eval2)
        | .function _ _ _ => return (e1, .bool true)
      match results with
      | .error _ => return Sum.inl (← world.messageFrame handle source1 n)
      | .ok results => return Sum.inr results)
    fun
      | Sum.inl dst => pure dst
      | Sum.inr (e1, e2) =>
        match compare e1 e2 with
        | none => world.messageFrame handle source1 n
        | some state =>
          let source := if state then source1 else source2
          if show_ then world.messageFrame handle source n
          else world.childFrame handle source n

/-- `GetFrame` of `ScriptClip`. Also here, frames are requested before the variables
are restored: with `show`, with `eval_after`, and for an error message. -/
def scriptClip (child : ℕ) (script : RuntimeScript) (show_ onlyEval evalAfter isLocal : Bool)
    (n : ℤ) : Runtime ScriptValue :=
  let frame := handle (.filter (.frame child n))
  let message := world.drawn frame
  withVariables isLocal (.clip child, .int n)
    (if show_ then do return Sum.inl (← message)
    else do
      let evalReturn ← if evalAfter then frame else pure .undefined
      let result ← catchingError
        (world.evaluate handle (.avisynthError "ScriptClip: Invalid function parameter type")
          script)
      match result with
      | .error _ => return Sum.inl (← message)
      | .ok result => return Sum.inr (evalReturn, result))
    fun
      | Sum.inl dst => pure dst
      | Sum.inr (evalReturn, result) =>
        if evalAfter && onlyEval then pure evalReturn
        else if onlyEval then frame
        else
          match result with
          | .clip clip =>
            if world.sameFormat child clip then
              handle (.filter (.frame clip (min n (world.numFrames clip - 1))))
            else message
          | _ => message

/-- `Write::DoEval`: whether the line is kept. The first expression is the line check
if there is one. -/
def doEval (linecheck : Bool) : List RuntimeScript → Runtime Bool
  | [] => pure true
  | expr :: exprs =>
    if linecheck then do
      let keep ← catchingError do
        match ← world.evaluate handle .notFound expr with
        | .bool b => return b
        | .undefined => return true
        | _ => raise (.avisynthError "Evaluate: Operand of a conditional must be boolean")
      match keep with
      | .ok false => return false
      | _ => doEval false exprs
    else do
      let _ ← catchingError do
        let _ ← world.evaluate handle .notFound expr
        -- the conversion to a string
        world.outside
      doEval false exprs

/-- `Write::FileOut`. -/
def fileOut : Runtime Unit := world.outside

/-- `GetFrame` of `Write`. -/
def writeFrame (child : ℕ) (exprs : List RuntimeScript) (linecheck : ℤ) (isLocal : Bool) (n : ℤ) :
    Runtime ScriptValue := do
  let tmpframe ← handle (.filter (.frame child n))
  if linecheck < 0 then return tmpframe
  else
    withVariables isLocal (.clip child, .int n)
      (do
        if ← world.doEval handle (linecheck == 1) exprs then world.fileOut)
      fun _ => pure tmpframe

/-- The constructor of `Write`, which evaluates the expressions when it writes at the
start or at the end. -/
def writeConstructor (child : ℕ) (exprs : List RuntimeScript) (linecheck : ℤ) (isLocal : Bool) :
    Runtime Unit := do
  -- the file is opened
  world.outside
  if linecheck ≠ -1 ∧ linecheck ≠ -2 then return ()
  else
    withVariables isLocal (.clip child, .int linecheck)
      (do
        let _ ← world.doEval handle false exprs
        if linecheck = -1 then world.fileOut)
      fun _ => pure ()

/-- `GetFrame` of any filter. -/
def getFrame : RuntimeFilter → ℤ → Runtime ScriptValue
  | .conditionalSelect child script sources show_ isLocal, n =>
    world.conditionalSelect handle child script sources show_ isLocal n
  | .conditionalFilter child source1 source2 eval1 eval2 compare show_ isLocal, n =>
    world.conditionalFilter handle child source1 source2 eval1 eval2 compare show_ isLocal n
  | .scriptClip child script show_ onlyEval evalAfter isLocal, n =>
    world.scriptClip handle child script show_ onlyEval evalAfter isLocal n
  | .write child exprs linecheck isLocal, n =>
    world.writeFrame handle child exprs linecheck isLocal n
  | .other code, n => ofProgram (fun request => handle (.filter request)) (code n)

/-- The construction of a filter. Only the one of `Write` evaluates scripts. -/
def construct : RuntimeFilter → Runtime Unit
  | .write child exprs linecheck isLocal =>
    world.writeConstructor handle child exprs linecheck isLocal
  | _ => pure ()

/-- The answer to a request, with requests at most `fuel` deep. -/
def perform (world : RuntimeWorld) : ℕ → RuntimeRequest → Runtime ScriptValue
  | 0, _ => fun _ => none
  | fuel + 1, request =>
    match request with
    | .filter (.frame clip n) => world.getFrame (perform world fuel) (world.filters clip) n
    | .filter (.call function args) => world.execute (perform world fuel) function args
    | .filter (.setGlobalVar name value) => do
      update (RuntimeState.setGlobalVar name value)
      return .undefined
    | .getVar name => fun s =>
      some (match s.vars.get name with
        | some value => .ok value
        | none => .error .notFound, s)
    | .setVar name value => do
      update (RuntimeState.setVar name value)
      return .undefined
    | .construct clip => do
      world.construct (perform world fuel) (world.filters clip)
      return .clip clip

end RuntimeWorld

end AviSynth
