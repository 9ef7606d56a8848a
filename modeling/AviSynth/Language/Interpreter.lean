import AviSynth.Library.Programs
import AviSynth.Script.VarTable
import AviSynth.Language.Values

/-!
# Evaluation of expressions

An expression is evaluated in an environment of variables, function objects and
registered functions. What it asks of the environment beyond its variables, the call of
a function in the first place, is a parameter. Loops have a number of rounds after which
the evaluation gives up; only a loop that goes on longer has no result.
-/

namespace AviSynth

namespace Language

/-- Where the body of a registered function is: in a `ScriptFunction`, in an object made by
a function definition, or outside of the script. -/
inductive FunctionCode (F D : Type) where
  | script (body : Exp F D) (paramFloats : List Bool) (paramNames : List String)
  | object (p : ℕ)
  | native (apply : ℕ)

/-- A function that can be called. An anonymous one has no name. -/
structure Function (F D : Type) where
  name : Option String
  canonName : Option String
  paramTypes : String
  code : FunctionCode F D

/-- A `FunctionInstance`: the definition, and the captured values. -/
structure FunctionInstance (F D : Type) where
  body : Exp F D
  paramTypes : String
  paramFloats : List Bool
  paramNames : List String
  varNames : List String
  varData : List (AVSValue F D)
  filename : Option String
  line : ℕ

/-- What a script runs in. The registered functions are in the order of registration.
The functions that are no part of the script have a world of their own, `W`. -/
structure Environment (F D W : Type) where
  vars : VarTable (AVSValue F D)
  objects : List (FunctionInstance F D)
  externalFunctions : List (Function F D)
  autoloadedFunctions : List (Function F D)
  autoloadExecuted : Bool
  autoloading : Bool
  world : W

/-- A computation of the interpreter. -/
abbrev Eval (F D W α : Type) := Exceptional (Environment F D W) (ScriptError F D) α

/-- A call of `Invoke_`: the implicit `last`, the name or the function itself, the
arguments, and the names of the arguments. -/
structure Invocation (F D : Type) where
  implicitLast : AVSValue F D
  name : Option String
  function : Option (Function F D)
  args : AVSValue F D
  argNames : List (Option String)

/-- What an evaluation asks of the environment. -/
structure Calls (F D W : Type) where
  /-- `Invoke_`, without a result if there is no function. -/
  invoke : Invocation F D → Eval F D W (Option (AVSValue F D))
  functionExists : String → Eval F D W Bool

variable {F D W : Type}

/-- An environment in which there is nothing to call. -/
def Calls.none : Calls F D W := ⟨fun _ => pure Option.none, fun _ => pure false⟩

namespace Environment

def setVar (env : Environment F D W) (name : String) (value : AVSValue F D) :
    Environment F D W :=
  { env with vars := env.vars.set name value }

def setGlobalVar (env : Environment F D W) (name : String) (value : AVSValue F D) :
    Environment F D W :=
  { env with vars := env.vars.setGlobal name value }

/-- The variable `last` after a value of the script. -/
def setLast (env : Environment F D W) (value : AVSValue F D) : Environment F D W :=
  if value.isClip then env.setVar "last" value else env

/-- An environment without variables and functions. -/
def initial (world : W) : Environment F D W where
  vars := ⟨VarFrame.empty, VarFrame.empty, [], []⟩
  objects := []
  externalFunctions := []
  autoloadedFunctions := []
  autoloadExecuted := true
  autoloading := false
  world := world

end Environment

/-- The initial environment with the types of numbers of the program, and without a world. -/
def emptyEnvironment : Environment Float32 Float Unit := Environment.initial ()

namespace FunctionPtr

/-- `GetLegacyName`. -/
def getLegacyName : FunctionPtr → Option String
  | wrapper _ name => some name
  | object _ => none

/-- `GetDefinition`. -/
def getDefinition (objects : List (FunctionInstance F D)) : FunctionPtr → Option (Function F D)
  | wrapper _ _ => none
  | object p => objects[p]?.map fun f => ⟨none, none, f.paramTypes, .object p⟩

/-- `ToString`. -/
def toString (objects : List (FunctionInstance F D)) : FunctionPtr → String
  | wrapper _ name => "Wrapped Function: " ++ name
  | object p =>
    match objects[p]? with
    | none => ""
    | some f =>
      let filename := f.filename.getD "(null)"
      s!"Function: defined at {filename}, line {f.line}"

end FunctionPtr

/-- `GetAVSTypeName`. -/
def getAVSTypeName : AVSValue F D → String
  | .undefined => "undefined value"
  | .clip _ => "clip"
  | .bool _ => "bool"
  | .int _ => "int"
  | .long _ => "long"
  | .float _ => "float"
  | .double _ => "double"
  | .string _ => "string"
  | .array _ => "array"
  | .function _ => "function"

namespace Eval

open Exceptional

/-- `ThrowError`. -/
def raiseError {α : Type} (msg : String) : Eval F D W α := raise (.avisynthError msg)

/-- The value of a variable, if it is set. -/
def getVarTry (name : String) : Eval F D W (Option (AVSValue F D)) :=
  fun env => some (.ok (env.vars.get name), env)

/-- `GetVarDef`, with an undefined value as the default. -/
def getVarDef (name : String) : Eval F D W (AVSValue F D) :=
  fun env => some (.ok ((env.vars.get name).getD .undefined), env)

/-- `GetVar`. -/
def getVar (name : String) : Eval F D W (AVSValue F D) := do
  match ← getVarTry name with
  | some value => pure value
  | none => raise .notFound

def setVar (name : String) (value : AVSValue F D) : Eval F D W Unit :=
  update fun env => env.setVar name value

def setGlobalVar (name : String) (value : AVSValue F D) : Eval F D W Unit :=
  update fun env => env.setGlobalVar name value

def setLast (value : AVSValue F D) : Eval F D W Unit := update fun env => env.setLast value

/-- `InvokeTry`. -/
def invokeTry (calls : Calls F D W) (name : String) (args : AVSValue F D) :
    Eval F D W (Option (AVSValue F D)) :=
  calls.invoke ⟨.undefined, some name, none, args, []⟩

/-- `Invoke`. -/
def invoke (calls : Calls F D W) (name : String) (args : AVSValue F D) :
    Eval F D W (AVSValue F D) := do
  match ← invokeTry calls name args with
  | some value => pure value
  | none => raise .notFound

/-- `InvokeTry` with `last` as the only argument, if there is such a variable. -/
def invokeTryLast (calls : Calls F D W) (name : String) :
    Eval F D W (Option (AVSValue F D)) := do
  match ← getVarTry "last" with
  | some last => invokeTry calls name last
  | none => pure none

/-- The exceptions that `ExpExceptionTranslator` translates. -/
def translated (p : Eval F D W (AVSValue F D)) : Eval F D W (AVSValue F D) :=
  p.catching fun
    | .system msg => raiseError msg
    | .unknown => raiseError "Evaluate: Unhandled C++ exception!"
    | e => raise e

/-- A condition, which has to be a bool. -/
def condition (p : Eval F D W (AVSValue F D)) (msg : String) : Eval F D W Bool := do
  match ← p with
  | .bool b => pure b
  | _ => raiseError msg

/-- The result of a loop that a `break` or `continue` interrupts. -/
def resultAfterJump (result : AVSValue F D) : Eval F D W (AVSValue F D) := do
  let result2 ← getVarDef "last"
  pure (if result2.isClip then result2 else result)

/-- One evaluation of the body of a loop, with the result so far: whether the loop is left,
and the new result. -/
def loopBody (body : Option (Eval F D W (AVSValue F D))) (result : AVSValue F D) :
    Eval F D W (Bool × AVSValue F D) :=
  match body with
  | none => pure (false, result)
  | some p => do
    match ← p.attempt with
    | .ok value =>
      setLast value
      pure (false, value)
    | .error .breakStmt => return (true, ← resultAfterJump result)
    | .error .continueStmt => return (false, ← resultAfterJump result)
    | .error e => raise e

/-- The rounds of `ExpWhileLoop`. -/
def whileRounds (cond : Eval F D W (AVSValue F D)) (body : Option (Eval F D W (AVSValue F D))) :
    ℕ → AVSValue F D → Eval F D W (AVSValue F D)
  | 0, _ => diverge
  | rounds + 1, result => do
    if ← condition cond "while: condition must be boolean (true/false)" then
      let (left, result) ← loopBody body result
      if left then pure result else whileRounds cond body rounds result
    else pure result

/-- Whether a for loop has another round. -/
def forGoesOn (step limit i : Int64) : Bool := if 0 < step then i ≤ limit else limit ≤ i

/-- One round of `ExpForLoop`: the body, and the step of the loop variable. It gives the
new value of the variable, unless the loop is left, and the new result. -/
def forRound (id : String) (step : Int64) (body : Option (Eval F D W (AVSValue F D)))
    (result : AVSValue F D) : Eval F D W (Option Int64 × AVSValue F D) := do
  let (left, result) ← loopBody body result
  if left then return (none, result)
  match (← getVar id).asLong with
  | none => raiseError s!"for: loop variable '{id}' has been assigned a non-int value"
  | some value =>
    let i := value + step
    setVar id (keepSmaller i)
    return (some i, result)

/-- The rounds of `ExpForLoop`. -/
def forRounds (id : String) (limit step : Int64) (body : Option (Eval F D W (AVSValue F D))) :
    ℕ → Int64 → AVSValue F D → Eval F D W (AVSValue F D)
  | 0, _, _ => diverge
  | rounds + 1, i, result =>
    if forGoesOn step limit i then do
      match ← forRound id step body result with
      | (none, result) => pure result
      | (some i, result) => forRounds id limit step body rounds i result
    else pure result

/-- `ExpForLoop`. -/
def forLoop (id : String) (init limit step : Eval F D W (AVSValue F D))
    (body : Option (Eval F D W (AVSValue F D))) (rounds : ℕ) : Eval F D W (AVSValue F D) := do
  let initVal ← init
  let limitVal ← limit
  let stepVal ← step
  match initVal.asLong, limitVal.asLong, stepVal.asLong with
  | none, _, _ => raiseError "for: initial value must be int"
  | some _, none, _ => raiseError "for: final value must be int"
  | some _, some _, none => raiseError "for: step value must be int"
  | some i, some iLimit, some iStep =>
    if iStep = 0 then raiseError "for: step value must be non-zero"
    let result ← getVarDef "last"
    setVar id initVal
    forRounds id iLimit iStep body rounds i result

/-- A loop over integers evaluates its three expressions once, and goes on to its rounds. -/
theorem forLoop_ints {id : String} {init limit step : Eval F D W (AVSValue F D)}
    (body : Option (Eval F D W (AVSValue F D))) (rounds : ℕ)
    {initVal limitVal stepVal : AVSValue F D} {i iLimit iStep : Int64}
    {env env1 env2 env3 : Environment F D W} (hinit : init env = some (.ok initVal, env1))
    (hlimit : limit env1 = some (.ok limitVal, env2))
    (hstep : step env2 = some (.ok stepVal, env3)) (hi : initVal.asLong = some i)
    (hl : limitVal.asLong = some iLimit) (hs : stepVal.asLong = some iStep) (hne : iStep ≠ 0) :
    forLoop id init limit step body rounds env =
      forRounds id iLimit iStep body rounds i ((env3.vars.get "last").getD .undefined)
        (env3.setVar id initVal) := by
  unfold forLoop
  rw [bind_of_ok hinit, bind_of_ok hlimit, bind_of_ok hstep, hi, hl, hs]
  simp only [hne, if_false]
  rfl

/-- The values that a function definition captures. -/
def captures : List String → Eval F D W (List (AVSValue F D))
  | [] => pure []
  | name :: names => do
    match ← getVarTry name with
    | some value => return value :: (← captures names)
    | none => raiseError s!"No variable named '{name}'"

/-- What `ExpFunctionCall` reports when there was no function for the arguments. Only a
function that was computed can be without a name. -/
def callFailed (calls : Calls F D W) (f : FunctionPtr) (realName : Option String) :
    Eval F D W (AVSValue F D) := do
  match realName with
  | none =>
    let env ← current
    raiseError ("Script error: Invalid arguments to " ++ f.toString env.objects ++ ".")
  | some name =>
    let realName := match ← getVarTry name with
      | some (.function ptr) => ptr.getLegacyName.getD name
      | _ => name
    if ← calls.functionExists realName then
      raiseError ("Script error: Invalid arguments to function '" ++ realName ++ "'.")
    else raiseError ("Script error: There is no function named '" ++ realName ++ "'.")

/-- The implicit `last` of a call, which has none where it is written behind a dot. -/
def implicitLastOf (oopNotation : Bool) : Eval F D W (AVSValue F D) :=
  if oopNotation then pure .undefined else getVarDef "last"

/-- The two attempts of `ExpFunctionCall`: with the implicit `last` beside the arguments, and,
if something inside that call was not found, with `last` as the first argument. -/
def call (calls : Calls F D W) (f : FunctionPtr) (realName : Option String)
    (realFunc : Option (Function F D)) (args : List (AVSValue F D))
    (argNames : List (Option String)) (oopNotation : Bool) : Eval F D W (AVSValue F D) := do
  let implicitLast ← implicitLastOf oopNotation
  match ← (calls.invoke ⟨implicitLast, realName, realFunc, .array args, argNames⟩).attempt with
  | .ok (some value) => pure value
  | .ok none => callFailed calls f realName
  | .error .notFound =>
    if implicitLast.isClip then
      match ← (calls.invoke ⟨.undefined, realName, realFunc, .array (implicitLast :: args),
          none :: argNames⟩).attempt with
      | .ok (some value) => pure value
      | .ok none | .error .notFound => callFailed calls f realName
      | .error e => raise e
    else callFailed calls f realName
  | .error e => raise e

/-- What an assignment with a value returns when it is done. A function of `last` is called
before the variable is looked for, and its result is dropped. -/
def readBack (calls : Calls F D W) (lhs : String) : Eval F D W (AVSValue F D) := do
  match ← invokeTryLast calls lhs with
  | some _ => pure .undefined
  | none =>
    match ← getVarTry lhs with
    | some result => pure result
    | none => raiseError ("I don't know what '" ++ lhs ++ "' means.")

end Eval

open Exceptional Eval

variable [Floating F D]

/-- The operator `+`, which joins two clips. -/
def evaluateArithmetic (calls : Calls F D W) (op : Arithmetic) (x y : AVSValue F D) :
    Eval F D W (AVSValue F D) :=
  if op = .plus ∧ x.isClip ∧ y.isClip then
    Eval.invoke calls "UnalignedSplice" (.array [x, y, .int 0])
  else ofResult (op.apply x y)

mutual

/-- `Evaluate`. -/
def evaluate (calls : Calls F D W) (rounds : ℕ) : Exp F D → Eval F D W (AVSValue F D)
  | .constant value => pure value
  | .rootBlock exp => (evaluate calls rounds exp).catching fun
      | .returnExpr value => pure value
      | e => raise e
  | .sequence a b => do
    setLast (← evaluate calls rounds a)
    evaluate calls rounds b
  | .line exp filename line => (translated (evaluate calls rounds exp)).catching fun
      | .avisynthError msg => raiseError s!"{msg}\n({filename}, line {line})"
      | e => raise e
  | .tryCatch tryBlock id catchBlock => (translated (evaluate calls rounds tryBlock)).catching fun
      | .avisynthError msg => do
        setVar id (.string msg)
        evaluate calls rounds catchBlock
      | e => raise e
  | .blockConditional cond thenBlock elseBlock => do
    let last ← getVarDef "last"
    let result ←
      if ← condition (evaluate calls rounds cond) "if: condition must be boolean (true/false)" then
        match thenBlock with
        | some block => evaluate calls rounds block
        | none => pure last
      else
        match elseBlock with
        | some block => evaluate calls rounds block
        | none => pure last
    setLast result
    pure result
  | .whileLoop cond body => do
    let result ← getVarDef "last"
    whileRounds (evaluate calls rounds cond)
      (match body with
        | some block => some (evaluate calls rounds block)
        | none => none) rounds result
  | .forLoop id init limit step body =>
    forLoop id (evaluate calls rounds init) (evaluate calls rounds limit)
      (evaluate calls rounds step)
      (match body with
        | some block => some (evaluate calls rounds block)
        | none => none) rounds
  | .breakStmt => raise .breakStmt
  | .continueStmt => raise .continueStmt
  | .conditional cond thenExp elseExp => do
    if ← condition (evaluate calls rounds cond)
        "Evaluate: left of `?' must be boolean (true/false)" then
      evaluate calls rounds thenExp
    else evaluate calls rounds elseExp
  | .returnStmt value => do raise (.returnExpr (← evaluate calls rounds value))
  | .or a b => do
    if ← condition (evaluate calls rounds a)
        "Evaluate: left operand of || must be boolean (true/false)" then
      pure (.bool true)
    else return .bool (← condition (evaluate calls rounds b)
      "Evaluate: right operand of || must be boolean (true/false)")
  | .and a b => do
    if ← condition (evaluate calls rounds a)
        "Evaluate: left operand of && must be boolean (true/false)" then
      return .bool (← condition (evaluate calls rounds b)
        "Evaluate: right operand of && must be boolean (true/false)")
    else pure (.bool false)
  | .equal a b => do
    let x ← evaluate calls rounds a
    let y ← evaluate calls rounds b
    ofResult (expEqual x y)
  | .less a b => do
    let x ← evaluate calls rounds a
    let y ← evaluate calls rounds b
    ofResult (expLess x y)
  | .arithmetic op a b => do
    let x ← evaluate calls rounds a
    let y ← evaluate calls rounds b
    evaluateArithmetic calls op x y
  | .doublePlus a b => do
    let x ← evaluate calls rounds a
    let y ← evaluate calls rounds b
    if x.isClip ∧ y.isClip then Eval.invoke calls "AlignedSplice" (.array [x, y, .int 0])
    else raiseError "Evaluate: operands of `++' must be clips"
  | .negate e => do ofResult (expNegate (← evaluate calls rounds e))
  | .not e => do
    return .bool !(← condition (evaluate calls rounds e)
      "Evaluate: operand of `!' must be boolean (true/false)")
  | .variableReference name => do
    -- a genuine variable first, then a function without arguments, then one of `last`
    match ← getVarTry name with
    | some result => pure result
    | none =>
      match ← invokeTry calls name (.array []) with
      | some result => pure result
      | none =>
        match ← invokeTryLast calls name with
        | some result => pure result
        | none =>
          -- the variable may exist after the plugins have been loaded
          match ← getVarTry name with
          | some result => pure result
          | none => raiseError ("I don't know what '" ++ name ++ "' means.")
  | .assignment lhs rhs withret => do
    setVar lhs (← evaluate calls rounds rhs)
    if withret then readBack calls lhs else pure .undefined
  | .globalAssignment lhs rhs => do
    setGlobalVar lhs (← evaluate calls rounds rhs)
    pure .undefined
  | .functionCall name func argNames args oopNotation =>
    match name with
    | some name => do
      let values ← evaluateAll calls rounds args
      call calls (.wrapper 0 name) (some name) none values argNames oopNotation
    | none => do
      match ← evaluate calls rounds func with
      | .function ptr =>
        let env ← current
        let values ← evaluateAll calls rounds args
        call calls ptr ptr.getLegacyName (ptr.getDefinition env.objects) values argNames
          oopNotation
      | value => raiseError ("Script error: '" ++ getAVSTypeName value ++
          "' cannot be called. Give me a function!")
  | .functionWrapper node name => do
    match ← getVarTry name with
    | some (.function f) => pure (.function f)
    | _ => pure (.function (.wrapper node name))
  | .legacyFunctionDefinition => pure .undefined
  | .functionDefinition body paramTypes paramFloats paramNames varNames filename line => do
    let varData ← captures varNames
    fun env => some (.ok (.function (.object env.objects.length)),
      { env with objects := env.objects ++
          [⟨body, paramTypes, paramFloats, paramNames, varNames, varData, filename, line⟩] })

/-- The values of the arguments of a call, from left to right. -/
def evaluateAll (calls : Calls F D W) (rounds : ℕ) :
    List (Exp F D) → Eval F D W (List (AVSValue F D))
  | [] => pure []
  | e :: es => do
    let value ← evaluate calls rounds e
    return value :: (← evaluateAll calls rounds es)

end

section Equations

variable (calls : Calls F D W) (rounds : ℕ)

theorem evaluate_constant (value : AVSValue F D) :
    evaluate calls rounds (.constant value) = pure value := rfl

theorem evaluate_sequence (a b : Exp F D) :
    evaluate calls rounds (.sequence a b) =
      evaluate calls rounds a >>= fun v => setLast v >>= fun _ => evaluate calls rounds b := rfl

theorem evaluate_line (exp : Exp F D) (filename : String) (line : ℕ) :
    evaluate calls rounds (.line exp filename line) =
      (translated (evaluate calls rounds exp)).catching fun
        | .avisynthError msg => raiseError s!"{msg}\n({filename}, line {line})"
        | e => raise e := rfl

theorem evaluate_blockConditional (cond : Exp F D) (thenBlock elseBlock : Option (Exp F D)) :
    evaluate calls rounds (.blockConditional cond thenBlock elseBlock) =
      getVarDef "last" >>= fun last =>
        condition (evaluate calls rounds cond) "if: condition must be boolean (true/false)" >>=
          fun holds =>
            (if holds then thenBlock else elseBlock).elim (pure last) (evaluate calls rounds) >>=
              fun result => setLast result >>= fun _ => pure result := by
  have hnext (last : AVSValue F D) :
      (fun holds : Bool =>
        (if holds then thenBlock else elseBlock).elim (pure last) (evaluate calls rounds) >>=
          fun result => (setLast result : Eval F D W Unit) >>= fun _ => pure result) =
      fun holds =>
        if holds then
          thenBlock.elim (pure last) (evaluate calls rounds) >>=
            fun result => (setLast result : Eval F D W Unit) >>= fun _ => pure result
        else
          elseBlock.elim (pure last) (evaluate calls rounds) >>=
            fun result => (setLast result : Eval F D W Unit) >>= fun _ => pure result := by
    funext holds
    cases holds with
    | true => rfl
    | false => rfl
  simp only [hnext]
  cases thenBlock <;> cases elseBlock <;> rfl

theorem evaluate_whileLoop (cond : Exp F D) (body : Option (Exp F D)) :
    evaluate calls rounds (.whileLoop cond body) =
      getVarDef "last" >>= fun result =>
        whileRounds (evaluate calls rounds cond) (body.map (evaluate calls rounds)) rounds
          result := by
  cases body <;> rfl

theorem evaluate_forLoop (id : String) (init limit step : Exp F D) (body : Option (Exp F D)) :
    evaluate calls rounds (.forLoop id init limit step body) =
      forLoop id (evaluate calls rounds init) (evaluate calls rounds limit)
        (evaluate calls rounds step) (body.map (evaluate calls rounds)) rounds := by
  cases body <;> rfl

theorem evaluate_returnStmt (value : Exp F D) :
    evaluate calls rounds (.returnStmt value) =
      evaluate calls rounds value >>= fun v => raise (.returnExpr v) := rfl

theorem evaluate_arithmetic (op : Arithmetic) (a b : Exp F D) :
    evaluate calls rounds (.arithmetic op a b) =
      evaluate calls rounds a >>= fun x => evaluate calls rounds b >>= fun y =>
        evaluateArithmetic calls op x y := rfl

theorem evaluate_negate (e : Exp F D) :
    evaluate calls rounds (.negate e) =
      evaluate calls rounds e >>= fun x => ofResult (expNegate x) := rfl

/-- A variable that exists is read, whatever functions there are. -/
theorem evaluate_variableReference_of_get {name : String} {value : AVSValue F D}
    {env : Environment F D W} (h : env.vars.get name = some value) :
    evaluate calls rounds (.variableReference name) env = some (.ok value, env) := by
  have hget : (getVarTry name : Eval F D W _) env = some (.ok (some value), env) := by
    simp [getVarTry, h]
  exact bind_of_ok hget

end Equations

end Language

end AviSynth
