import AviSynth.Library.CarryTrees
import AviSynth.Plugins.FunctionTable
import AviSynth.Language.Interpreter

/-!
# The script parser

The parser reads the tokens of a script by recursive descent. The recursion from a
bracket back to a whole expression or block is tied at the end: level `n + 1` of the
parser uses level `n` inside brackets, and has `n` rounds for its loops. Each round and
each level takes a token, so that a level beyond the number of tokens suffices.
-/

namespace AviSynth

namespace Language

/-- An operator is a character or two of them. -/
inductive Operator where
  | single (c : Char)
  | pair (a b : Char)
  deriving DecidableEq

/-- What the tokenizer gives to the parser. -/
inductive Token (D : Type) where
  | identifier (name : String)
  | int (integer : Int32)
  | long (longlong : Int64)
  | float (doublePt : D)
  | string (s : String)
  | operator (op : Operator)
  | newline
  | eof

namespace Token

variable {D : Type}

def isOperator : Token D → Operator → Bool
  | operator op, op' => op == op'
  | _, _ => false

def isAnyIdentifier : Token D → Bool
  | identifier _ => true
  | _ => false

/-- Upper and lower case letters are the same. -/
def isIdentifier : Token D → String → Bool
  | identifier name, id => name.toLower == id
  | _, _ => false

def isString : Token D → Bool
  | string _ => true
  | _ => false

def isNewline : Token D → Bool
  | newline => true
  | _ => false

def isEOF : Token D → Bool
  | eof => true
  | _ => false

end Token

/-- What the parser knows about the text: its name, and the line and the column of the
tokenizer when a number of tokens is left. -/
structure Source where
  filename : Option String
  lineOf : ℕ → ℕ
  columnOf : ℕ → ℕ

/-- The tokens that are left, the loops around them, the number of function wrappers made so
far, and the functions registered so far. -/
structure ParserState (F D : Type) where
  tokens : List (Token D)
  loopDepth : ℤ
  nodes : ℕ
  functions : List (Function F D)

/-- Functions of the parser. -/
abbrev Parser (F D α : Type) := Exceptional (ParserState F D) (ScriptError F D) α

/-- `max_args`. -/
def maxArgs : ℕ := 1024

variable {F D : Type}

namespace ScriptParser

open Exceptional

/-- The parser throws. -/
def raiseError {α : Type} (msg : String) : Parser F D α := raise (.avisynthError msg)

/-- The current token. -/
def token : Parser F D (Token D) := fun s => some (.ok (s.tokens.head?.getD .eof), s)

/-- The token after the current one. -/
def lookahead : Parser F D (Token D) := fun s => some (.ok (s.tokens.tail.head?.getD .eof), s)

/-- `NextToken`. -/
def nextToken : Parser F D Unit := update fun s => { s with tokens := s.tokens.tail }

/-- `GetLine`. -/
def getLine (source : Source) : Parser F D ℕ :=
  fun s => some (.ok (source.lineOf s.tokens.length), s)

def isOperator (op : Operator) : Parser F D Bool := do return (← token).isOperator op

def isIdentifier (id : String) : Parser F D Bool := do return (← token).isIdentifier id

/-- `Expect`, with the message for another token. -/
def expectOr (op : Operator) (msg : String) : Parser F D Unit := do
  if ← isOperator op then nextToken else raiseError msg

/-- `Expect` of a single character. -/
def expect (c : Char) : Parser F D Unit :=
  expectOr (.single c) ("Script error: expected `" ++ c.toString ++ "'")

/-- An identifier, and the tokenizer behind it. -/
def takeIdentifier (msg : String) : Parser F D String := do
  match ← token with
  | .identifier name =>
    nextToken
    pure name
  | _ => raiseError msg

/-- The loop that skips newlines. -/
def skipNewlines : ℕ → Parser F D Unit
  | 0 => diverge
  | rounds + 1 => do
    if (← token).isNewline then
      nextToken
      skipNewlines rounds

/-- A body of a loop begins. -/
def enterLoop : Parser F D Unit := update fun s => { s with loopDepth := s.loopDepth + 1 }

/-- A body of a loop ends. -/
def leaveLoop : Parser F D Unit := update fun s => { s with loopDepth := s.loopDepth - 1 }

/-- A function wrapper is an object of its own. -/
def newWrapper (name : String) : Parser F D (Exp F D) := fun s =>
  some (.ok (.functionWrapper s.nodes name), { s with nodes := s.nodes + 1 })

/-- `AddFunction` of a `ScriptFunction`. -/
def addFunction (name paramTypes : String) (body : Exp F D) (paramFloats : List Bool)
    (paramNames : List String) : Parser F D Unit := do
  if isValidParameterString paramTypes then
    update fun s => { s with functions := s.functions ++
      [⟨some name, some ("_" ++ name), paramTypes, .script body paramFloats paramNames⟩] }
  else raiseError (name ++ " has an invalid parameter string (bug in filter)")

end ScriptParser

/-- The parser of an expression and that of a block between braces, as they are used
inside of brackets. A block is `none` where it has no statements. -/
structure Knot (F D : Type) where
  assignmentWithRet : Parser F D (Exp F D)
  block : Parser F D (Option (Exp F D))

/-- The words for the types of parameters, with the letter of the type and that of an array. -/
def parameterTypes : List (String × Char × Option Char) :=
  [("val", '.', none), ("bool", 'b', none), ("int", 'i', none), ("float", 'f', none),
    ("string", 's', none), ("clip", 'c', none), ("func", 'n', none),
    ("array", '.', some '*'), ("val_array", '.', some '*'), ("array_nz", '.', some '+'),
    ("val_array_nz", '.', some '+'), ("bool_array", 'b', some '*'),
    ("bool_array_nz", 'b', some '+'), ("int_array", 'i', some '*'),
    ("int_array_nz", 'i', some '+'), ("float_array", 'f', some '*'),
    ("float_array_nz", 'f', some '+'), ("string_array", 's', some '*'),
    ("string_array_nz", 's', some '+'), ("clip_array", 'c', some '*'),
    ("clip_array_nz", 'c', some '+'), ("func_array", 'n', some '*'),
    ("func_array_nz", 'n', some '+')]

/-- The letters that the name of a type stands for. -/
def parameterType (id : String) : Option (Char × Option Char) := parameterTypes.lookup id.toLower

/-- A declared parameter: the word for its type, its name, and whether the name is quoted. -/
structure Declaration where
  typeWord : Option String
  name : String
  quoted : Bool

namespace Declaration

/-- The letter for the type, and the letter for an array. -/
def type (d : Declaration) : Char × Option Char :=
  (d.typeWord.bind parameterType).getD ('.', none)

/-- The parameter is converted to `float`. -/
def isFloat (d : Declaration) : Bool := d.typeWord.any fun id => id.toLower == "float"

/-- What the parameter adds to the signature. -/
def text (d : Declaration) : List Char :=
  (if d.quoted then '[' :: d.name.toList ++ [']'] else []) ++ d.type.1 :: d.type.2.toList

end Declaration

/-- The parameters read so far: the characters of `param_types`, what `param_floats` and
`param_names` hold, and whether a quoted name was among them. -/
structure Parameters where
  paramTypes : List Char
  paramFloats : List Bool
  paramNames : List String
  namedArgFound : Bool

namespace Parameters

/-- No parameters yet. -/
def empty : Parameters := ⟨[], [], [], false⟩

/-- The parameters with a further one. -/
def add (params : Parameters) (d : Declaration) : Parameters where
  paramTypes := params.paramTypes ++ d.text
  paramFloats := params.paramFloats ++ [d.isFloat]
  paramNames := params.paramNames ++ [d.name]
  namedArgFound := d.quoted

end Parameters

/-- The statements of a block so far: the array `trees`, and whether a `return` ends the
block. -/
structure BlockState (F D : Type) where
  trees : List (Option (Exp F D))
  ignoreRemainder : Bool

/-- The number of slots of `trees`. -/
def treesSize : ℕ := 20

namespace ScriptParser

open Exceptional

section Expressions

variable (knot : Knot F D) (source : Source)

/-- The comma before an element of a list, unless it is the first one. -/
def separator (needComma : Bool) (msg : String) : Parser F D Unit :=
  if needComma then expectOr (.single ',') msg else pure ()

/-- The variables that a function definition captures, behind the opening bracket. -/
def parseCaptures : ℕ → List String → Parser F D (List String)
  | 0, _ => diverge
  | rounds + 1, varNames => do
    if ← isOperator (.single ']') then
      nextToken
      pure varNames
    else
      separator (!varNames.isEmpty) "Script error: expected a , or ]"
      if (← token).isAnyIdentifier ∧ varNames.length = maxArgs then
        raiseError "Script error: variable capture list too long"
      else
        let name ← takeIdentifier "Script error: expected a parameter name"
        parseCaptures rounds (varNames ++ [name])

/-- The message for an unknown type of a parameter. -/
def typeExpected : String :=
  "Script error: expected \"val\", \"bool\", \"int\", \"float\", \"string\", \"array\", " ++
    "or \"clip\" (or their \"_array\" or \"_array_nz\" versions"

/-- The word for a type before the name of a parameter, if there is one. -/
def parseParameterType : Parser F D (Option String) := do
  let next ← lookahead
  if next.isAnyIdentifier || next.isString then
    match ← token with
    | .identifier id =>
      if (parameterType id).isSome then
        nextToken
        pure (some id)
      else raiseError typeExpected
    | _ => raiseError typeExpected
  else pure none

/-- The name of a parameter, behind its type. -/
def parseParameterName (params : Parameters) (typeWord : Option String) :
    Parser F D Declaration := do
  match ← token with
  | .identifier name =>
    if params.namedArgFound then
      raiseError ("Script error: can't have a named (quoted) parameter followed by " ++
        "an ordinary parameter")
    else
      nextToken
      pure ⟨typeWord, name, false⟩
  | .string name =>
    if params.paramTypes.length + name.length ≥ 4000 then
      raiseError "Script error: parameter list too long"
    else
      nextToken
      pure ⟨typeWord, name, true⟩
  | _ => raiseError "Script error: expected a parameter name"

/-- One parameter of a function definition. -/
def parseParameter (params : Parameters) : Parser F D Parameters := do
  if params.paramNames.length = maxArgs then
    raiseError "Script error: parameter list too long"
  else
    let typeWord ← parseParameterType
    return params.add (← parseParameterName params typeWord)

/-- The parameters of a function definition, behind the opening parenthesis. -/
def parseParameters : ℕ → Parameters → Parser F D Parameters
  | 0, _ => diverge
  | rounds + 1, params => do
    if ← isOperator (.single ')') then
      nextToken
      pure params
    else
      separator (!params.paramNames.isEmpty) "Script error: expected a , or )"
      parseParameters rounds (← parseParameter params)

/-- The name of a function, if it has one. -/
def parseFunctionName : Parser F D (Option String) := do
  match ← token with
  | .identifier name =>
    nextToken
    pure (some name)
  | _ => pure none

/-- The captured variables, if there are any. -/
def parseCaptureList (rounds : ℕ) (name : Option String) : Parser F D (List String) := do
  if ← isOperator (.single '[') then
    if name.isSome then
      raiseError ("Script error: variable capture is not supported on legacy function " ++
        "definition.")
    else
      nextToken
      parseCaptures rounds []
  else pure []

/-- The list of parameters, which may be left out. -/
def parseParameterList (rounds : ℕ) : Parser F D Parameters := do
  if ← isOperator (.single '\x7b') then pure Parameters.empty
  else
    expectOr (.single '(') "Script error: expected ( or \x7b after function name"
    parseParameters rounds Parameters.empty

/-- `ParseFunctionDefinition`, behind the keyword. -/
def parseFunctionDefinition (rounds : ℕ) : Parser F D (Exp F D) := do
  let name ← parseFunctionName
  let varNames ← parseCaptureList rounds name
  let params ← parseParameterList rounds
  let line ← getLine source
  let body := Exp.rootBlock ((← knot.block).getD (.constant .undefined))
  let paramTypes := String.ofList params.paramTypes
  match name with
  | some name =>
    addFunction name paramTypes body params.paramFloats params.paramNames
    pure .legacyFunctionDefinition
  | none =>
    pure (.functionDefinition body paramTypes params.paramFloats params.paramNames varNames
      source.filename line)

/-- `ParseAtom`. -/
def parseAtom (rounds : ℕ) : Parser F D (Exp F D) := do
  if ← isIdentifier "function" then
    nextToken
    parseFunctionDefinition knot source rounds
  else
    match ← token with
    | .identifier name =>
      nextToken
      pure (.variableReference name)
    | .int integer =>
      nextToken
      pure (.constant (.int integer))
    | .long longlong =>
      nextToken
      pure (.constant (.long longlong))
    | .float doublePt =>
      nextToken
      pure (.constant (.double doublePt))
    | .string s =>
      nextToken
      pure (.constant (.string s))
    | .operator (.single '(') =>
      nextToken
      let result ← knot.assignmentWithRet
      expect ')'
      pure result
    | .operator (.single '[') =>
      raiseError "Script error: array is not supported on this version of avisynth"
    | _ => raiseError "Script error: syntax error"

/-- The arguments of a call, behind the opening bracket, after the ones already there. -/
def parseArguments (isArraySpecifier : Bool) :
    ℕ → Bool → List (Option String × Exp F D) → Parser F D (List (Option String × Exp F D))
  | 0, _, _ => diverge
  | rounds + 1, needComma, args => do
    if ← isOperator (.single (if isArraySpecifier then ']' else ')')) then
      nextToken
      pure args
    else
      if needComma then
        expectOr (.single ',') (if isArraySpecifier then "Script error: expected a , or ]"
          else "Script error: expected a , or )")
      if args.length = maxArgs then raiseError "Script error: argument list too long"
      let name ← do
        match ← token, ← lookahead with
        | .identifier name, .operator (.single '=') =>
          if isArraySpecifier then pure none
          else
            nextToken
            nextToken
            pure (some name)
        | _, _ => pure none
      let value ← knot.assignmentWithRet
      parseArguments isArraySpecifier rounds true (args ++ [(name, value)])

/-- The expression that `ParseCall` makes of the name or function and its arguments. -/
def makeCall (left : Exp F D) (hasContext isArraySpecifier : Bool)
    (args : List (Option String × Exp F D)) : Parser F D (Exp F D) :=
  match left.getLvalue, args with
  | some name, [(_, .variableReference arg)] =>
    if name.toLower == "func" then newWrapper arg
    else pure (.functionCall (some name) left (args.map (·.1)) (args.map (·.2))
      (hasContext || isArraySpecifier))
  | name, args => pure (.functionCall name left (args.map (·.1)) (args.map (·.2))
      (hasContext || isArraySpecifier))

/-- `ParseCall`. -/
def parseCall : ℕ → Exp F D → Option (Exp F D) → Bool → Parser F D (Exp F D)
  | 0, _, _, _ => diverge
  | rounds + 1, left, context, isArraySpecifier => do
    let contextArgs := context.toList.map fun e => (none, e)
    let args ← do
      if isArraySpecifier || (← isOperator (.single '(')) then
        if !(context.isSome && isArraySpecifier) then nextToken
        parseArguments knot isArraySpecifier rounds false contextArgs
      else pure contextArgs
    if isArraySpecifier ∧ context.isSome ∧ args.length = contextArgs.length then
      raiseError "Script error: array indexing must have at least one index"
    let result ← makeCall left context.isSome isArraySpecifier args
    if ← isOperator (.single '(') then parseCall rounds result none false
    else pure result

/-- `ParseFunction`. -/
def parseFunction (rounds : ℕ) (context : Option (Exp F D)) : Parser F D (Exp F D) := do
  let left ← parseAtom knot source rounds
  if context.isSome || (← isOperator (.single '(')) then
    parseCall knot rounds left context false
  else pure left

/-- `ParseArray`. -/
def parseArray (rounds : ℕ) (context : Option (Exp F D)) : Parser F D (Exp F D) :=
  parseCall knot rounds (.variableReference (if context.isSome then "ArrayGet" else "Array"))
    context true

/-- The loop of `ParseOOP`. -/
def parseOOPRest : ℕ → Exp F D → Parser F D (Exp F D)
  | 0, _ => diverge
  | rounds + 1, left => do
    if ← isOperator (.single '[') then
      nextToken
      parseOOPRest rounds (← parseArray knot rounds (some left))
    else if ← isOperator (.single '.') then
      nextToken
      parseOOPRest rounds (← parseFunction knot source rounds (some left))
    else pure left

/-- `ParseOOP`. -/
def parseOOP (rounds : ℕ) : Parser F D (Exp F D) := do
  let left ←
    if ← isOperator (.single '[') then parseArray knot rounds none
    else parseFunction knot source rounds none
  parseOOPRest knot source rounds left

/-- `ParseUnary`. A `+` is skipped. -/
def parseUnary : ℕ → Parser F D (Exp F D)
  | 0 => diverge
  | rounds + 1 => do
    if ← isOperator (.single '+') then
      nextToken
      parseUnary rounds
    else if ← isOperator (.single '-') then
      nextToken
      return .negate (← parseUnary rounds)
    else if ← isOperator (.single '!') then
      nextToken
      return .not (← parseUnary rounds)
    else parseOOP knot source rounds

/-- The operator of a multiplication that a token is. -/
def multiplicationOperator : Token D → Option Arithmetic
  | .operator (.single '*') => some .mult
  | .operator (.single '/') => some .div
  | .operator (.single '%') => some .mod
  | _ => none

/-- The loop of `ParseMultiplication`. -/
def parseMultiplicationRest : ℕ → Exp F D → Parser F D (Exp F D)
  | 0, _ => diverge
  | rounds + 1, left => do
    match multiplicationOperator (← token) with
    | some op =>
      nextToken
      let right ← parseUnary knot source rounds
      parseMultiplicationRest rounds (.arithmetic op left right)
    | none => pure left

/-- `ParseMultiplication`. -/
def parseMultiplication (rounds : ℕ) (negationOnHold : Bool) : Parser F D (Exp F D) := do
  let left ← parseUnary knot source rounds
  let left ← parseMultiplicationRest knot source rounds left
  if negationOnHold then pure (.negate left) else pure left

/-- `ParseAddition`. The right operand of a `-` is negated where it is parsed. -/
def parseAddition : ℕ → Bool → Parser F D (Exp F D)
  | 0, _ => diverge
  | rounds + 1, negationOnHold => do
    let left ← parseMultiplication knot source rounds negationOnHold
    let plus ← isOperator (.single '+')
    let minus ← isOperator (.single '-')
    let doubleplus ← isOperator (.pair '+' '+')
    if plus || minus || doubleplus then
      nextToken
      let right ← parseAddition rounds minus
      if doubleplus then pure (.doublePlus left right)
      else pure (.arithmetic .plus left right)
    else pure left

/-- `GetTokenAsComparisonOperator`, with the comparison that the operator stands for. -/
def comparisonOperator : Token D → Option (Exp F D → Exp F D → Exp F D)
  | .operator (.pair '=' '=') => some fun left right => .equal left right
  | .operator (.pair '!' '=') => some fun left right => .not (.equal left right)
  | .operator (.pair '<' '>') => some fun left right => .not (.equal left right)
  | .operator (.single '<') => some fun left right => .less left right
  | .operator (.pair '>' '=') => some fun left right => .not (.less left right)
  | .operator (.single '>') => some fun left right => .less right left
  | .operator (.pair '<' '=') => some fun left right => .not (.less right left)
  | _ => none

/-- The loop of `ParseComparison`. -/
def parseComparisonRest : ℕ → Exp F D → Option (Exp F D) → Parser F D (Exp F D)
  | 0, _, _ => diverge
  | rounds + 1, left, result => do
    match comparisonOperator (← token) with
    | some compare =>
      nextToken
      let right ← parseAddition knot source rounds false
      let term := compare left right
      parseComparisonRest rounds right
        (some (match result with
          | some result => .and result term
          | none => term))
    | none => pure (result.getD left)

/-- `ParseComparison`. -/
def parseComparison (rounds : ℕ) : Parser F D (Exp F D) := do
  let left ← parseAddition knot source rounds false
  parseComparisonRest knot source rounds left none

/-- `ParseAnd`. -/
def parseAnd : ℕ → Parser F D (Exp F D)
  | 0 => diverge
  | rounds + 1 => do
    let left ← parseComparison knot source rounds
    if ← isOperator (.pair '&' '&') then
      nextToken
      return .and left (← parseAnd rounds)
    else pure left

/-- `ParseOr`. -/
def parseOr : ℕ → Parser F D (Exp F D)
  | 0 => diverge
  | rounds + 1 => do
    let left ← parseAnd knot source rounds
    if ← isOperator (.pair '|' '|') then
      nextToken
      return .or left (← parseOr rounds)
    else pure left

/-- `ParseConditional`. -/
def parseConditional (rounds : ℕ) : Parser F D (Exp F D) := do
  let a ← parseOr knot source rounds
  if ← isOperator (.single '?') then
    nextToken
    let b ← knot.assignmentWithRet
    expect ':'
    let c ← knot.assignmentWithRet
    pure (.conditional a b c)
  else pure a

/-- `ParseAssignmentWithRet`. -/
def parseAssignmentWithRet (rounds : ℕ) : Parser F D (Exp F D) := do
  let exp ← parseConditional knot source rounds
  if ← isOperator (.pair ':' '=') then
    match exp.getLvalue with
    | none => raiseError "Script error: left operand of `:=' must be a variable name"
    | some name =>
      nextToken
      return .assignment name (← knot.assignmentWithRet) true
  else pure exp

/-- `ParseAssignment`. -/
def parseAssignment (rounds : ℕ) : Parser F D (Exp F D) := do
  if ← isIdentifier "global" then
    nextToken
    let name ← takeIdentifier "Script error: `global' must be followed by a variable name"
    expect '='
    return .globalAssignment name (← parseConditional knot source rounds)
  else
    let exp ← parseAssignmentWithRet knot source rounds
    if ← isOperator (.single '=') then
      match exp.getLvalue with
      | none => raiseError "Script error: left operand of `=' must be a variable name"
      | some name =>
        nextToken
        return .assignment name (← parseAssignmentWithRet knot source rounds) false
    else pure exp

/-- `ParseIf`, at the keyword. -/
def parseIf : ℕ → Parser F D (Exp F D)
  | 0 => diverge
  | rounds + 1 => do
    nextToken
    expect '('
    let cond ← knot.assignmentWithRet
    expect ')'
    let thenBlock ← knot.block
    skipNewlines rounds
    if ← isIdentifier "else" then
      nextToken
      if ← isIdentifier "if" then
        return .blockConditional cond thenBlock (some (← parseIf rounds))
      else return .blockConditional cond thenBlock (← knot.block)
    else pure (.blockConditional cond thenBlock none)

/-- The body of a loop. -/
def parseLoopBody : Parser F D (Option (Exp F D)) := do
  enterLoop
  let body ← knot.block
  leaveLoop
  pure body

/-- `ParseWhile`, at the keyword. -/
def parseWhile : Parser F D (Exp F D) := do
  nextToken
  expect '('
  let cond ← knot.assignmentWithRet
  expect ')'
  return .whileLoop cond (← parseLoopBody knot)

/-- `ParseFor`, at the keyword. -/
def parseFor : Parser F D (Exp F D) := do
  nextToken
  expect '('
  let id ← takeIdentifier "Script error: expected a variable name"
  expect '='
  let init ← knot.assignmentWithRet
  expect ','
  let limit ← knot.assignmentWithRet
  let step ←
    if ← isOperator (.single ',') then do
      nextToken
      knot.assignmentWithRet
    else pure (.constant (.int 1))
  expect ')'
  return .forLoop id init limit step (← parseLoopBody knot)

/-- The `try` statement, at the keyword. -/
def parseTry (rounds : ℕ) : Parser F D (Exp F D) := do
  nextToken
  let tryBlock ← knot.block
  skipNewlines rounds
  if !(← isIdentifier "catch") then raiseError "Script error: expected `catch'"
  nextToken
  expect '('
  let id ← takeIdentifier "Script error: expected identifier"
  expect ')'
  let catchBlock ← knot.block
  pure (.tryCatch (tryBlock.getD (.constant .undefined)) id
    (catchBlock.getD (.constant .undefined)))

/-- A `break` or a `continue`, at the keyword. -/
def parseJump (jump : Exp F D) (name : String) : Parser F D (Exp F D) := fun s =>
  if s.loopDepth ≤ 0 then raiseError ("'" ++ name ++ "' statement outside of loop.") s
  else (do nextToken; pure jump : Parser F D (Exp F D)) s

/-- `ParseStatement`: the expression, and whether the rest of the block is ignored. A null
statement has no expression. -/
def parseStatement (rounds : ℕ) : Parser F D (Option (Exp F D) × Bool) := do
  if (← token).isNewline || (← token).isEOF then pure (none, false)
  else if ← isIdentifier "try" then return (some (← parseTry knot rounds), false)
  else if ← isIdentifier "if" then return (some (← parseIf knot rounds), false)
  else if ← isIdentifier "while" then return (some (← parseWhile knot), false)
  else if ← isIdentifier "for" then return (some (← parseFor knot), false)
  else if ← isIdentifier "return" then
    nextToken
    return (some (.returnStmt (← parseAssignmentWithRet knot source rounds)), true)
  else if ← isIdentifier "break" then
    return (some (← parseJump .breakStmt "Break"), false)
  else if ← isIdentifier "continue" then
    return (some (← parseJump .continueStmt "Continue"), false)
  else return (some (← parseAssignment knot source rounds), false)

/-- The expression of a statement that goes into the tree of its block: not that of a legacy
function definition at the top of the script. -/
def kept (braced : Bool) : Option (Exp F D) → Option (Exp F D)
  | some .legacyFunctionDefinition => if braced then some .legacyFunctionDefinition else none
  | exp => exp

/-- The end of the block, if it is reached. -/
def atBlockEnd (braced : Bool) : Parser F D Bool := do
  if ← isOperator (.single '\x7d') then
    if braced then
      nextToken
      pure true
    else raiseError "Script error: found \x7d without a matching \x7b"
  else if (← token).isEOF then
    if braced then raiseError "Script error: end of file reached without matching \x7d"
    else pure true
  else pure false

/-- An expression with its place in the script. -/
def located (exp : Exp F D) : Parser F D (Exp F D) := do
  let line ← getLine source
  pure (match source.filename with
    | some filename => .line exp filename line
    | none => exp)

/-- The loop of `ParseBlock`, and the merge behind it. The trees of the statements so far are
joined by a carry, so that the depth of the whole is logarithmic. -/
def parseStatements (braced : Bool) : ℕ → BlockState F D → Parser F D (Option (Exp F D))
  | 0, _ => diverge
  | rounds + 1, block => do
    if (← token).isNewline then
      nextToken
      parseStatements braced rounds block
    else if ← atBlockEnd braced then pure (CarryTrees.merge .sequence block.trees)
    else
      let (exp, stop) ← parseStatement knot source rounds
      match kept braced exp, block.ignoreRemainder with
      | some exp, false =>
        let exp ← located source exp
        parseStatements braced rounds ⟨CarryTrees.carry .sequence exp block.trees, stop⟩
      | _, _ => parseStatements braced rounds ⟨block.trees, block.ignoreRemainder || stop⟩

/-- `ParseBlock`. -/
def parseBlock (braced : Bool) (rounds : ℕ) : Parser F D (Option (Exp F D)) := do
  if braced then
    skipNewlines rounds
    expect '\x7b'
  parseStatements knot source braced rounds ⟨List.replicate treesSize none, false⟩

end Expressions

/-- The levels of the parser. -/
def level (source : Source) : ℕ → Knot F D
  | 0 => ⟨diverge, diverge⟩
  | n + 1 => ⟨parseAssignmentWithRet (level source n) source n,
      parseBlock (level source n) source true n⟩

/-- `Parse`. -/
def parse (source : Source) (n : ℕ) : Parser F D (Exp F D) :=
  (do return .rootBlock ((← parseBlock (level source n) source false n).getD
      (.constant .undefined)) : Parser F D (Exp F D)).catching fun
    | .avisynthError msg => fun s =>
      let filename := source.filename.getD "(null)"
      let line := source.lineOf s.tokens.length
      let column := source.columnOf s.tokens.length
      raiseError s!"{msg}\n({filename}, line {line}, column {column})" s
    | _ => raiseError "Parse: Unrecognized exception!"

end ScriptParser

end Language

end AviSynth
