import AviSynth.Language.Interpreter

/-!
# Signatures and arguments

The parameters of a function are a text: a letter for the type of each parameter, `*` or `+`
behind it for an array, and the name of an optional parameter in brackets before it. A call
matches its arguments against the text, and then packs them into one value for each
parameter.
-/

namespace AviSynth

namespace Language

variable {F D : Type}

/-- `SingleTypeMatch`. -/
def singleTypeMatch (type : Char) (arg : AVSValue F D) (strict : Bool) : Bool :=
  match type with
  | '.' => true
  | 'b' => arg.isBool
  | 'i' => arg.isInt
  | 'f' => arg.isFloat && (!strict || !arg.isInt)
  | 's' => arg.isString
  | 'c' => arg.isClip
  | 'n' => arg.isFunction
  | 'a' => arg.isArray
  | _ => false

/-- `SingleTypeMatchArray`. -/
def singleTypeMatchArray (type : Char) (arg : AVSValue F D) (strict : Bool) : Bool :=
  match arg with
  | .array elements => elements.all fun element => singleTypeMatch type element strict
  | _ => false

/-- The characters before the next closing bracket, and those behind it. -/
def splitName : List Char → Option (List Char × List Char)
  | [] => none
  | ']' :: rest => some ([], rest)
  | c :: rest => (splitName rest).map fun (name, rest) => (c :: name, rest)

/-- Parameters that may all be left out. -/
def allOptional : List Char → Bool
  | [] => true
  | '[' :: _ => true
  | _ :: '*' :: params => allOptional params
  | _ => false

/-- What is left of the parameters when the arguments are used up. -/
def typeMatchEnd : List Char → Bool
  | '+' :: params | '*' :: params => allOptional params
  | params => allOptional params

/-- The letters of parameter types that `TypeMatch` knows. -/
def isTypeLetter (c : Char) : Bool := "bifscna".toList.contains c

/-- A parameter name is skipped, and makes the parameters from there on optional. -/
def skipName : List Char → Bool → Result F D (List Char × Bool)
  | '[' :: params, _ =>
    match splitName params with
    | none => .error (.avisynthError "TypeMatch: unterminated parameter name (bug in filter)")
    | some (_, []) => .error (.avisynthError
        "TypeMatch: no type specified for optional parameter (bug in filter)")
    | some (_, params) => .ok (params, true)
  | params, optional => .ok (params, optional)

/-- The loop of `TypeMatch`. `previous` is the character before the parameters. Each round
takes a character or an argument. -/
def typeMatchLoop (strict : Bool) :
    ℕ → Char → List Char → List (AVSValue F D) → Bool → Result F D Bool
  | 0, _, params, _, _ | _ + 1, _, params, [], _ => .ok (typeMatchEnd params)
  | rounds + 1, previous, params, arg :: args, optional => do
    let (params, optional) ← skipName params optional
    match params with
    | [] => .ok false
    | c :: params =>
      -- the first test of the type is skipped for `*`, since no value at all is enough
      let (previous, c, params) := match params with
        | '*' :: rest => (c, '*', rest)
        | _ => (previous, c, params)
      if c == '+' || c == '*' then
        if arg.isArray && previous != '.' then
          if singleTypeMatchArray previous arg strict then
            typeMatchLoop strict rounds c params args optional
          else .ok false
        else if singleTypeMatch previous arg strict then
          typeMatchLoop strict rounds previous (c :: params) args optional
        else typeMatchLoop strict rounds c params (arg :: args) optional
      else if c == '.' then typeMatchLoop strict rounds c params args optional
      else if isTypeLetter c then
        if params.head? == some '+' && arg.isArray && c != 'a' then
          typeMatchLoop strict rounds c params (arg :: args) optional
        else if (!optional || arg.defined) && !singleTypeMatch c arg strict then .ok false
        else typeMatchLoop strict rounds c params args optional
      else .error (.avisynthError "TypeMatch: invalid character in parameter list (bug in filter)")

/-- `TypeMatch`. -/
def typeMatch (params : String) (args : List (AVSValue F D)) (strict : Bool) :
    Result F D Bool :=
  typeMatchLoop strict (params.length + args.length + 1) '\x00' params.toList args false

/-- Names are compared without regard to case. -/
def sameName (name : String) (chars : List Char) : Bool :=
  name.toLower == (String.ofList chars).toLower

/-- The search of `ArgNameMatch` for one name. The type behind another name is skipped. -/
def hasParameter (name : String) : ℕ → List Char → Bool
  | 0, _ | _, [] => false
  | rounds + 1, '[' :: params =>
    match splitName params with
    | none => false
    | some (found, params) => sameName name found || hasParameter name rounds params.tail
  | rounds + 1, _ :: params => hasParameter name rounds params

/-- `ArgNameMatch`. -/
def argNameMatch (params : String) (argNames : List (Option String)) : Bool :=
  argNames.all fun
    | none => true
    | some name => hasParameter name (params.length + 1) params.toList

/-- `Flatten`: the unnamed arguments, with the arrays among them taken as they are. -/
def flatten (args : AVSValue F D) (argNames : List (Option String)) : List (AVSValue F D) :=
  match args with
  | .array elements => ((elements.zip (argNames ++ List.replicate elements.length none)).filter
      fun arg => arg.2.isNone).map Prod.fst
  | value => [value]

/-- What stands for a parameter, and whether it counts as given already. -/
abbrev Slot (F D : Type) := AVSValue F D × Bool

/-- The value of an array parameter, and the arguments that are left. An array is taken as it
is; otherwise the values in front that have the type are put together. -/
def packArray (name : String) (strict : Bool) (type : Char) (nonEmpty : Bool)
    (args : List (AVSValue F D)) (lastWasNamed : Bool) :
    Result F D (Slot F D × List (AVSValue F D)) :=
  match args with
  | .array elements :: rest =>
    if type != '.' then
      if !singleTypeMatchArray type (.array elements : AVSValue F D) strict then
        .error (.avisynthError
          ("Array elements do not match with the specified type in function " ++ name))
      else if nonEmpty && elements.isEmpty then
        .error (.avisynthError ("An array with zero element size was given to function " ++ name ++
          " which expects a 'one-or-more' style array argument"))
      else .ok ((.array elements, true), rest)
    else collect args
  | _ => collect args
where
  collect (args : List (AVSValue F D)) : Result F D (Slot F D × List (AVSValue F D)) :=
    let values := args.takeWhile fun arg => singleTypeMatch type arg strict
    let rest := args.dropWhile fun arg => singleTypeMatch type arg strict
    if values.isEmpty then
      if nonEmpty && !lastWasNamed then
        .error (.avisynthError ("A zero-sized array (or empty parameter list) appeared in the place of an unnamed parameter to function "
          ++ name ++ " which expects a 'one-or-more' style array argument"))
      else if nonEmpty || lastWasNamed then .ok ((.undefined, false), rest)
      else .ok ((.array [], false), rest)
    else .ok ((.array values, lastWasNamed), rest)

/-- The value of a parameter, and the parameters and the arguments that are left. -/
def packParameter (name : String) (strict : Bool) (type : Char) (params : List Char)
    (args : List (AVSValue F D)) (lastWasNamed : Bool) :
    Result F D (Slot F D × List Char × List (AVSValue F D)) :=
  match params with
  | '*' :: params => do
    let (slot, args) ← packArray name strict type false args lastWasNamed
    return (slot, params, args)
  | '+' :: params => do
    let (slot, args) ← packArray name strict type true args lastWasNamed
    return (slot, params, args)
  | params =>
    match args with
    | arg :: args => .ok ((arg, true), params, args)
    | [] => .ok ((.undefined, false), params, [])

/-- The third step of `Invoke_`: each parameter takes its value from the unnamed arguments. -/
def packUnnamed (name : String) (strict : Bool) :
    ℕ → List Char → List (AVSValue F D) → Bool → Result F D (List (Slot F D))
  | 0, _, args, _ | _ + 1, [], args, _ =>
    if args.isEmpty then .ok []
    else .error (.avisynthError ("Too many arguments to function " ++ name))
  | rounds + 1, '[' :: params, args, _ =>
    match splitName params with
    | none =>
      if args.isEmpty then .ok []
      else .error (.avisynthError ("Too many arguments to function " ++ name))
    | some (_, params) => packUnnamed name strict rounds params args true
  | rounds + 1, type :: params, args, lastWasNamed => do
    let (slot, params, args) ← packParameter name strict type params args lastWasNamed
    return slot :: (← packUnnamed name strict rounds params args false)

/-- Where a name is in the parameters: the number of the parameter, its type and whether it is
an array, with one or more elements if the letter is `+`. -/
def findParameter (name : String) : ℕ → ℕ → List Char → Option (ℕ × Char × Option Char)
  | 0, _, _ | _, _, [] => none
  | rounds + 1, index, '[' :: params =>
    match splitName params with
    | none => none
    | some (found, params) =>
      if sameName name found then
        some (index, params.headD '\x00',
          params.tail.head?.filter fun c => c == '*' || c == '+')
      else findParameter name rounds (index + 1) params.tail
  | rounds + 1, index, c :: params =>
    findParameter name rounds (if c == '*' || c == '+' then index else index + 1) params

/-- `GetType`: the letter that stands for the type of a value. -/
def getType : AVSValue F D → Char
  | .undefined => 'v'
  | .clip _ => 'c'
  | .bool _ => 'b'
  | .int _ => 'i'
  | .long _ => 'l'
  | .float _ => 'f'
  | .double _ => 'd'
  | .string _ => 's'
  | .array _ => 'a'
  | .function _ => 'n'

/-- The value of a named argument for its parameter. -/
def namedValue (name argName : String) (type : Char) (arrayKind : Option Char)
    (arg : AVSValue F D) : Result F D (AVSValue F D) :=
  if arg.defined && arg.isArray && arrayKind.isSome && !singleTypeMatchArray type arg false then
    .error (.avisynthError ("Script error: the named array argument \"" ++ argName ++ "\" to "
      ++ name ++ " had a wrong element type"))
  else if arg.defined && !arg.isArray && !singleTypeMatch type arg false then
    .error (.avisynthError ("Script error: the named argument \"" ++ argName ++ "\" to "
      ++ name ++ " had the wrong type (passed '" ++ (getType arg).toString ++ "')"))
  else if arg.isArray && arrayKind.isNone && type != '.' && type != 'a' then
    .error (.avisynthError ("Script error: the named argument \"" ++ argName ++ "\" to " ++ name ++
      " had the wrong type (passed an array to a non-array and not-any parameter)"))
  else
    match arg with
    | .array [] =>
      if arrayKind == some '+' then
        .error (.avisynthError ("Script error: the named argument \"" ++ argName ++ "\" to " ++ name
          ++ " is a 'one-or-more' element style array but had zero element count."))
      else .ok arg
    | .array _ | .undefined => .ok arg
    | _ => .ok (if arrayKind.isSome || type == 'a' then .array [arg] else arg)

/-- The fourth step of `Invoke_` for one argument with a name. -/
def packNamed (name params : String) (slots : List (Slot F D)) (argName : String)
    (arg : AVSValue F D) : Result F D (List (Slot F D)) :=
  match findParameter argName (params.length + 1) 0 params.toList with
  | none => .error (.avisynthError ("Script error: " ++ name ++
      " does not have a named argument \"" ++ argName ++ "\""))
  | some (index, type, arrayKind) => do
    let slot := slots.getD index (.undefined, false)
    if slot.1.defined && slot.2 then
      .error (.avisynthError ("Script error: the named argument \"" ++ argName ++
        "\" was passed more than once (twice as named or first unnamed then named) to " ++ name))
    else
      let value ← namedValue name argName type arrayKind arg
      return slots.set index (value, true)

/-- The fourth step of `Invoke_`: the named arguments, one after the other. -/
def packAllNamed (name params : String) (slots : List (Slot F D)) :
    List (Option String × AVSValue F D) → Result F D (List (Slot F D))
  | [] => .ok slots
  | (none, _) :: args => packAllNamed name params slots args
  | (some argName, arg) :: args => do
    packAllNamed name params (← packNamed name params slots argName arg) args

/-- The arguments of a call that have a name. -/
def namedArgs (args : AVSValue F D) (argNames : List (Option String)) :
    List (Option String × AVSValue F D) :=
  match args with
  | .array elements => argNames.zip elements
  | _ => []

/-- The values of the parameters of a function with the signature `params`: the unnamed
arguments are `args`, the named ones are among `named`. -/
def packArgs (name params : String) (strict : Bool) (args : List (AVSValue F D))
    (named : List (Option String × AVSValue F D)) : Result F D (List (AVSValue F D)) := do
  let slots ← packUnnamed name strict (params.length + 1) params.toList args false
  return (← packAllNamed name params slots named).map Prod.fst

end Language

end AviSynth
