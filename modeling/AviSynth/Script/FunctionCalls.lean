import AviSynth.Library.OwnedHeap
import AviSynth.Library.Programs

/-!
# Calls of script functions

A script function is an object with a reference count, and so is its definition in
an expression tree. It is called through a value, or by the name of a variable that
holds it; the lookup of a name gives a plain pointer. The body is an arbitrary
program: it evaluates expressions, assigns variables, parses text, makes functions
and calls others, and it may catch exceptions. The values that a program has in hand
are the temporaries of its activation.
-/

namespace AviSynth

namespace FunctionCalls

/-- An `AVSValue`; the values of other types do not refer to functions. -/
inductive AVSValue where
  | other (text : String)
  | function (p : ℕ)
  | array (elements : List AVSValue)

mutual

/-- The references to functions in a value. -/
def AVSValue.functions : AVSValue → List ℕ
  | .other _ => []
  | .function p => [p]
  | .array elements => functionsOf elements

/-- The references to functions in several values. -/
def functionsOf : List AVSValue → List ℕ
  | [] => []
  | v :: vs => v.functions ++ functionsOf vs

end

/-- Variables by their names in lower case. -/
abbrev Frame := AList fun _ : String => AVSValue

/-- The references to functions in variables. -/
def frameFunctions (frame : Frame) : List ℕ := frame.entries.flatMap fun e => e.2.functions

/-- What a `PFunction` or a `PExpression` refers to. -/
inductive FunctionObject where
  /-- An `ExpFunctionDefinition`, with the definitions in the tree of its body. -/
  | definition (index : ℕ) (inner : List ℕ)
  /-- A `FunctionInstance` of a definition, with its captured values. -/
  | script (pdef : ℕ) (varData : List AVSValue)
  /-- A function that is registered under a name, by `GetLegacyName`. -/
  | wrapper (name : String)

/-- The references that an object holds. -/
def FunctionObject.children : FunctionObject → List ℕ
  | .definition _ inner => inner
  | .script pdef varData => pdef :: functionsOf varData
  | .wrapper _ => []

/-- What a program asks for. Its temporaries are meant by their positions. -/
inductive Request where
  | literal (text : String)
  | makeArray (is : List ℕ)
  | element (i j : ℕ)
  /-- A temporary goes away. -/
  | drop (i : ℕ)
  | getVar (name : String)
  | setVar (name : String) (i : ℕ)
  | setGlobalVar (name : String) (i : ℕ)
  /-- The parser makes a definition, and puts definitions that it has made into its body. -/
  | parse (index : ℕ) (is : List ℕ)
  /-- `new FunctionInstance` for a definition in the tree that is being evaluated. -/
  | newFunction (i : ℕ)
  | wrapFunction (name : String)
  /-- `Invoke_` with a name. -/
  | call (name : String) (is : List ℕ)
  /-- `Invoke_` with a function that a temporary holds. -/
  | callValue (f : ℕ) (is : List ℕ)

/-- What a program is told. A value becomes the first of its temporaries. -/
inductive Answer where
  | value (v : AVSValue)
  | missing
  | done
  | thrown

/-- How a program ends: with one of its temporaries as the result, or by an exception. -/
inductive Finish where
  | value (i : ℕ)
  | thrown

abbrev Script := Program Request Answer Finish

/-- An `ExpFunctionDefinition`; `accepts` matches arguments with its parameters. -/
structure Definition where
  varNames : List String
  paramNames : List String
  accepts : List AVSValue → Bool
  body : Script

/-- How a call got hold of the function object that it executes. -/
inductive Way where
  | value
  | localVariable
  | globalVariable (name : String)
  deriving DecidableEq

/-- A call of a script's function: the object, how it was found, and its parts. -/
structure Call where
  p : ℕ
  way : Way
  pdef : ℕ
  varData : List AVSValue

/-- A program that is being run: the main script, a function of a script, or a
built-in function, which evaluates in the context of its caller. -/
structure Activation where
  program : Script
  temps : List AVSValue
  /-- The definitions in the tree that the activation has parsed. -/
  tree : List ℕ
  /-- The local variables, if the activation pushed a context. -/
  frame : Option Frame
  /-- The call whose body this is. -/
  executing : Option Call

/-- Functions, variables and the programs being run, the innermost one first. -/
structure Interpreter where
  heap : RefHeap FunctionObject
  globals : Frame
  stack : List Activation
  /-- References of constructors that threw. -/
  leaked : List ℕ

/-- The innermost context. -/
def topFrame : List Activation → Option Frame
  | [] => none
  | a :: rest =>
    match a.frame with
    | some frame => some frame
    | none => topFrame rest

/-- Replace the innermost context. -/
def setTopFrame (frame : Frame) : List Activation → List Activation
  | [] => []
  | a :: rest =>
    match a.frame with
    | some _ => { a with frame := some frame } :: rest
    | none => a :: setTopFrame frame rest

/-- Release references, and those of the objects that this frees. -/
def releaseFunctions (heap : RefHeap FunctionObject) (ps : List ℕ) : RefHeap FunctionObject :=
  heap.releaseChain FunctionObject.children ps

/-- A variable gets a copy of a value. The old value goes away after that. -/
def assign (heap : RefHeap FunctionObject) (frame : Frame) (name : String) (v : AVSValue) :
    RefHeap FunctionObject × Frame :=
  (releaseFunctions (heap.addRefs v.functions)
      (((frame.lookup name.toLower).map AVSValue.functions).getD []),
    frame.insert name.toLower v)

/-- Several variables get copies of values. -/
def assignAll (heap : RefHeap FunctionObject) (frame : Frame) :
    List (String × AVSValue) → RefHeap FunctionObject × Frame
  | [] => (heap, frame)
  | (name, v) :: rest =>
    assignAll (assign heap frame name v).1 (assign heap frame name v).2 rest

namespace Interpreter

variable (s : Interpreter)

/-- `GetVarTry`, and where the variable was found. -/
def lookupVar (name : String) : Option (AVSValue × Way) :=
  match (topFrame s.stack).bind fun frame => frame.lookup name.toLower with
  | some v => some (v, .localVariable)
  | none => (s.globals.lookup name.toLower).map fun v => (v, .globalVariable name.toLower)

/-- The values of the captured variables, up to the first that does not exist, and
whether all exist. -/
def capture : List String → List AVSValue × Bool
  | [] => ([], true)
  | name :: names =>
    match s.lookupVar name with
    | none => ([], false)
    | some (v, _) => (v :: (capture names).1, (capture names).2)

/-- The definitions in the tree that an activation evaluates: its own one, and that of
the function's body. -/
def nodes (a : Activation) : List ℕ :=
  match a.executing.bind fun call => s.heap.get call.pdef with
  | some (.definition _ inner) => a.tree ++ inner
  | _ => a.tree

/-- What a definition in the heap defines. -/
def definitionOf (definitions : ℕ → Definition) (pdef : ℕ) : Option Definition :=
  match s.heap.get pdef with
  | some (.definition index _) => some (definitions index)
  | _ => none

-- The innermost activation, those below, and how the program goes on.
variable (a : Activation) (rest : List Activation) (next : Answer → Script)

/-- The program goes on without a value. -/
def goOn (answer : Answer) : Interpreter :=
  { s with stack := { a with program := next answer } :: rest }

/-- The program goes on with a copy of a value. -/
def give (v : AVSValue) : Interpreter :=
  { s with
    heap := s.heap.addRefs v.functions
    stack := { a with program := next (.value v), temps := v :: a.temps } :: rest }

/-- The program goes on with a new definition in its tree. -/
def giveNode (obj : FunctionObject) : Interpreter :=
  { s with
    heap := (s.heap.addRefs obj.children).alloc obj
    stack :=
      { a with
        program := next .done
        tree := (s.heap.addRefs obj.children).fresh :: a.tree } :: rest }

/-- The program goes on with a new function. -/
def giveNew (obj : FunctionObject) : Interpreter :=
  { s with
    heap := (s.heap.addRefs obj.children).alloc obj
    stack :=
      { a with
        program := next (.value (.function (s.heap.addRefs obj.children).fresh))
        temps := .function (s.heap.addRefs obj.children).fresh :: a.temps } :: rest }

/-- `FunctionInstance::Execute`, called by the innermost activation. The arguments are
copied for the call. -/
def execute (d : Definition) (call : Call) (args : List AVSValue) : Interpreter :=
  let vars := assignAll (s.heap.addRefs (functionsOf args)) ∅
    (d.varNames.zip call.varData ++ d.paramNames.zip args)
  { s with
    heap := vars.1
    stack := ⟨d.body, args, [], some vars.2, some call⟩ :: s.stack }

/-- The call of a built-in function, or `NotFound`. -/
def callBuiltin (builtins : String → List AVSValue → Option Script) (name : String)
    (args : List AVSValue) : Interpreter :=
  match builtins name args with
  | none => s.goOn a rest next .thrown
  | some body =>
    { s with
      heap := s.heap.addRefs (functionsOf args)
      stack := ⟨body, args, [], none, none⟩ :: s.stack }

variable (definitions : ℕ → Definition) (builtins : String → List AVSValue → Option Script)

/-- `Invoke_` with a name: `ScriptEnvironment::Lookup`, and the call. The copy of the
variable's value is gone when the call is made. -/
def callName (name : String) (args : List AVSValue) : Option Interpreter :=
  match s.lookupVar name with
  | some (.function p, way) =>
    match s.heap.get p with
    | some (.wrapper name) => some (s.callBuiltin a rest next builtins name args)
    | some (.script pdef varData) =>
      (s.definitionOf definitions pdef).map fun d =>
        if d.accepts args then s.execute d ⟨p, way, pdef, varData⟩ args
        else s.callBuiltin a rest next builtins name args
    | _ => none
  | _ => some (s.callBuiltin a rest next builtins name args)

/-- `Invoke_` with a function that the caller holds. -/
def callFunction (f : AVSValue) (args : List AVSValue) : Option Interpreter :=
  match f with
  | .function p =>
    match s.heap.get p with
    | some (.wrapper name) => s.callName a rest next definitions builtins name args
    | some (.script pdef varData) =>
      (s.definitionOf definitions pdef).map fun d =>
        if d.accepts args then s.execute d ⟨p, .value, pdef, varData⟩ args
        else s.goOn a rest next .thrown
    | _ => none
  | _ => some (s.goOn a rest next .thrown)

/-- A request of the innermost activation. It is undefined to name a temporary that
is not there. -/
def handle : Request → Option Interpreter
  | .literal text => some (s.give a rest next (.other text))
  | .makeArray is =>
    (is.mapM fun i => a.temps[i]?).map fun vs => s.give a rest next (.array vs)
  | .element i j =>
    match a.temps[i]? with
    | some (.array elements) => (elements[j]?).map (s.give a rest next)
    | _ => none
  | .drop i =>
    (a.temps[i]?).map fun v =>
      { s with
        heap := releaseFunctions s.heap v.functions
        stack := { a with program := next .done, temps := a.temps.eraseIdx i } :: rest }
  | .getVar name =>
    match s.lookupVar name with
    | none => some (s.goOn a rest next .missing)
    | some (v, _) => some (s.give a rest next v)
  | .setVar name i =>
    (a.temps[i]?).bind fun v =>
      (topFrame s.stack).map fun frame =>
        { s with
          heap := (assign s.heap frame name v).1
          stack := setTopFrame (assign s.heap frame name v).2
            ({ a with program := next .done } :: rest) }
  | .setGlobalVar name i =>
    (a.temps[i]?).map fun v =>
      { s with
        heap := (assign s.heap s.globals name v).1
        globals := (assign s.heap s.globals name v).2
        stack := { a with program := next .done } :: rest }
  | .parse index is =>
    (is.mapM fun i => a.tree[i]?).map fun inner => s.giveNode a rest next (.definition index inner)
  | .newFunction i =>
    ((s.nodes a)[i]?).bind fun pdef =>
      (s.definitionOf definitions pdef).map fun d =>
        match s.capture d.varNames with
        | (varData, true) => s.giveNew a rest next (.script pdef varData)
        | (varData, false) =>
          { s.goOn a rest next .thrown with
            heap := s.heap.addRefs (functionsOf varData)
            leaked := functionsOf varData ++ s.leaked }
  | .wrapFunction name => some (s.giveNew a rest next (.wrapper name))
  | .call name is =>
    (is.mapM fun i => a.temps[i]?).bind
      (s.callName a rest next definitions builtins name)
  | .callValue f is =>
    (a.temps[f]?).bind fun v =>
      (is.mapM fun i => a.temps[i]?).bind (s.callFunction a rest next definitions builtins v)

/-- The innermost activation has ended: its result is copied for the caller, then its
variables and temporaries go away. -/
def finish (out : Finish) : Option Interpreter :=
  let held := functionsOf a.temps ++ a.tree ++ (a.frame.map frameFunctions).getD []
  match rest with
  | ⟨.request _ next, temps, tree, frame, executing⟩ :: below =>
    match out with
    | .thrown =>
      some { s with
        heap := releaseFunctions s.heap held
        stack := ⟨next .thrown, temps, tree, frame, executing⟩ :: below }
    | .value i =>
      (a.temps[i]?).map fun v =>
        { s with
          heap := releaseFunctions (s.heap.addRefs v.functions) held
          stack := ⟨next (.value v), v :: temps, tree, frame, executing⟩ :: below }
  | _ => none

/-- One step of the innermost activation. -/
def step (s : Interpreter) : Option Interpreter :=
  match s.stack with
  | [] => none
  | a :: rest =>
    match a.program with
    | .finish out => s.finish a rest out
    | .request req next => s.handle a rest next definitions builtins req

end Interpreter

end FunctionCalls

end AviSynth
