import Mathlib.Data.List.Basic

/-!
# Values of the script language

A value of a script is a number of one of four types, a string, a clip, an array, a
function or nothing. Integers of 32 and of 64 bits stand for each other: an operator
computes with 64 bits and keeps its result in the smaller type where that fits.
-/

namespace AviSynth

namespace Language

/-- What a `PFunction` points to: the wrapper of a name, which belongs to the place of the
script where it is written, or an object made by a function definition. -/
inductive FunctionPtr where
  | wrapper (node : ℕ) (name : String)
  | object (p : ℕ)
  deriving DecidableEq

/-- An `AVSValue`. The numbers in floating point are of the types `F` and `D`. -/
inductive AVSValue (F D : Type) where
  | undefined
  | clip (c : ℕ)
  | bool (b : Bool)
  | int (integer : Int32)
  | long (longlong : Int64)
  | float (floatingPt : F)
  | double (doublePt : D)
  | string (s : String)
  | array (elements : List (AVSValue F D))
  | function (f : FunctionPtr)

/-- What an evaluation can be ended by. A `system` exception is raised by the processor. -/
inductive ScriptError (F D : Type) where
  | avisynthError (msg : String)
  | notFound
  | breakStmt
  | continueStmt
  | returnExpr (value : AVSValue F D)
  | system (msg : String)
  | unknown

/-- Arithmetic in floating point, of `float` and of `double`. -/
class Floating (F D : Type) where
  addf : F → F → F
  subf : F → F → F
  mulf : F → F → F
  divf : F → F → F
  negf : F → F
  eqf : F → F → Bool
  ltf : F → F → Bool
  add : D → D → D
  sub : D → D → D
  mul : D → D → D
  div : D → D → D
  neg : D → D
  eq : D → D → Bool
  lt : D → D → Bool
  /-- The conversion of a `float`. -/
  widen : F → D
  /-- The conversion of an integer. -/
  ofInt : Int64 → D
  /-- The conversion of an integer to a `float`. -/
  ofIntf : Int64 → F
  /-- The conversion of a `double`. -/
  narrow : D → F

instance : Floating Float32 Float where
  addf x y := x + y
  subf x y := x - y
  mulf x y := x * y
  divf x y := x / y
  negf x := -x
  eqf x y := x == y
  ltf x y := decide (x < y)
  add x y := x + y
  sub x y := x - y
  mul x y := x * y
  div x y := x / y
  neg x := -x
  eq x y := x == y
  lt x y := decide (x < y)
  widen x := x.toFloat
  ofInt x := x.toFloat
  ofIntf x := x.toFloat32
  narrow x := x.toFloat32

variable {F D : Type}

namespace AVSValue

def defined : AVSValue F D → Bool
  | undefined => false
  | _ => true

def isClip : AVSValue F D → Bool
  | clip _ => true
  | _ => false

def isBool : AVSValue F D → Bool
  | bool _ => true
  | _ => false

def isInt : AVSValue F D → Bool
  | int _ | long _ => true
  | _ => false

def isFloat : AVSValue F D → Bool
  | int _ | long _ | float _ | double _ => true
  | _ => false

def isString : AVSValue F D → Bool
  | string _ => true
  | _ => false

def isArray : AVSValue F D → Bool
  | array _ => true
  | _ => false

def isFunction : AVSValue F D → Bool
  | function _ => true
  | _ => false

/-- `AsLong` of a value that `IsInt`. -/
def asLong : AVSValue F D → Option Int64
  | int i => some i.toInt64
  | long l => some l
  | _ => none

/-- `AsFloatf` of a value that `IsFloatfStrict`. -/
def asFloatfStrict : AVSValue F D → Option F
  | float f => some f
  | _ => none

/-- `AsFloat` of a value that `IsFloat`. -/
def asFloat [Floating F D] : AVSValue F D → Option D
  | int i => some (Floating.ofInt F i.toInt64)
  | long l => some (Floating.ofInt F l)
  | float f => some (Floating.widen f)
  | double d => some d
  | _ => none

/-- `AsString` of a value that `IsString`. -/
def asString : AVSValue F D → Option String
  | string s => some s
  | _ => none

end AVSValue

/-- What the evaluation of an operator gives. -/
abbrev Result (F D α : Type) := Except (ScriptError F D) α

/-- The result of an integer operator, in the smaller type where it fits. -/
def keepSmaller (result : Int64) : AVSValue F D :=
  if -2147483648 ≤ result ∧ result ≤ 2147483647 then .int result.toInt32 else .long result

/-- The processor raises an exception for the quotient that does not fit. -/
def DivisionTraps (x y : Int64) : Prop := x = Int64.minValue ∧ y = -1
  deriving Decidable

/-- A division of integers, which checks for zero only. -/
def divideInts (divide : Int64 → Int64 → Int64) (x y : Int64) : Result F D (AVSValue F D) :=
  if y = 0 then .error (.avisynthError "Evaluate: division by zero")
  else if DivisionTraps x y then .error (.system "System exception - Integer Overflow")
  else .ok (keepSmaller (divide x y))

section Operators

variable [Floating F D]

/-- An operator on two numbers. Both are taken as integers, as `float`, or as `double`,
the first of these that is possible for both. -/
def onNumbers (ints : Int64 → Int64 → Result F D (AVSValue F D)) (floats : F → F → F)
    (doubles : D → D → D) (otherwise : Result F D (AVSValue F D)) (x y : AVSValue F D) :
    Result F D (AVSValue F D) :=
  match x.asLong, y.asLong with
  | some m, some n => ints m n
  | _, _ =>
    match x.asFloatfStrict, y.asFloatfStrict with
    | some f, some g => .ok (.float (floats f g))
    | _, _ =>
      match x.asFloat, y.asFloat with
      | some d, some e => .ok (.double (doubles d e))
      | _, _ => otherwise

/-- `ExpPlus`, of operands that are not both clips. -/
def expPlus (x y : AVSValue F D) : Result F D (AVSValue F D) :=
  onNumbers (fun m n => .ok (keepSmaller (m + n))) (Floating.addf D) (Floating.add F)
    (match x.asString, y.asString with
      | some s, some t => .ok (.string (s ++ t))
      | _, _ => .error (.avisynthError
          "Evaluate: operands of `+' must both be numbers, strings, or clips")) x y

/-- `ExpMinus`. -/
def expMinus (x y : AVSValue F D) : Result F D (AVSValue F D) :=
  onNumbers (fun m n => .ok (keepSmaller (m - n))) (Floating.subf D) (Floating.sub F)
    (.error (.avisynthError "Evaluate: operands of `-' must be numeric")) x y

/-- `ExpMult`. -/
def expMult (x y : AVSValue F D) : Result F D (AVSValue F D) :=
  onNumbers (fun m n => .ok (keepSmaller (m * n))) (Floating.mulf D) (Floating.mul F)
    (.error (.avisynthError "Evaluate: operands of `*' must be numeric")) x y

/-- `ExpDiv`. -/
def expDiv (x y : AVSValue F D) : Result F D (AVSValue F D) :=
  onNumbers (divideInts (· / ·)) (Floating.divf D) (Floating.div F)
    (.error (.avisynthError "Evaluate: operands of `/' must be numeric")) x y

omit [Floating F D] in
/-- `ExpMod`. -/
def expMod (x y : AVSValue F D) : Result F D (AVSValue F D) :=
  match x.asLong, y.asLong with
  | some m, some n => divideInts (· % ·) m n
  | _, _ => .error (.avisynthError "Evaluate: operands of `%' must be integers")

/-- `ExpNegate`. -/
def expNegate (x : AVSValue F D) : Result F D (AVSValue F D) :=
  match x.asLong with
  | some m => .ok (keepSmaller (-m))
  | none =>
    match x.asFloatfStrict with
    | some f => .ok (.float (Floating.negf D f))
    | none =>
      match x.asFloat with
      | some d => .ok (.double (Floating.neg F d))
      | none => .error (.avisynthError "Evaluate: unary minus can only by used with numbers")

/-- The operators between two values that compute a number. -/
inductive Arithmetic where
  | plus
  | minus
  | mult
  | div
  | mod
  deriving DecidableEq

/-- The value of an operator, of operands that are not both clips. -/
def Arithmetic.apply : Arithmetic → AVSValue F D → AVSValue F D → Result F D (AVSValue F D)
  | plus => expPlus
  | minus => expMinus
  | mult => expMult
  | div => expDiv
  | mod => expMod

/-- `ExpEqual`. Functions are equal if they are the same object. -/
def expEqual (x y : AVSValue F D) : Result F D (AVSValue F D) :=
  match x, y with
  | .bool b, .bool c => .ok (.bool (b == c))
  | .clip c, .clip d => .ok (.bool (c == d))
  | .string s, .string t => .ok (.bool (s.toLower == t.toLower))
  | .function f, .function g => .ok (.bool (f == g))
  | x, y =>
    match x.asLong, y.asLong with
    | some m, some n => .ok (.bool (m == n))
    | _, _ =>
      match x.asFloatfStrict, y.asFloatfStrict with
      | some f, some g => .ok (.bool (Floating.eqf D f g))
      | _, _ =>
        match x.asFloat, y.asFloat with
        | some d, some e => .ok (.bool (Floating.eq F d e))
        | _, _ => .error (.avisynthError
            "Evaluate: operands of `==' and `!=' must be comparable")

/-- `ExpLess`. -/
def expLess (x y : AVSValue F D) : Result F D (AVSValue F D) :=
  match x.asLong, y.asLong with
  | some m, some n => .ok (.bool (m < n))
  | _, _ =>
    match x.asFloatfStrict, y.asFloatfStrict with
    | some f, some g => .ok (.bool (Floating.ltf D f g))
    | _, _ =>
      match x.asFloat, y.asFloat with
      | some d, some e => .ok (.bool (Floating.lt F d e))
      | _, _ =>
        match x.asString, y.asString with
        | some s, some t => .ok (.bool (decide (s.toLower < t.toLower)))
        | _, _ => .error (.avisynthError
            "Evaluate: operands of `<' and friends must be string or numeric")

end Operators

end Language

/-!
## Expression trees

The parser turns a script into a tree of expressions, and its functions into the trees
of their bodies together with what a call needs of the declaration.
-/

namespace Language

/-- An `Expression`. Names of variables and functions are strings. -/
inductive Exp (F D : Type) where
  | constant (value : AVSValue F D)
  | rootBlock (exp : Exp F D)
  | sequence (a b : Exp F D)
  | line (exp : Exp F D) (filename : String) (line : ℕ)
  | tryCatch (tryBlock : Exp F D) (id : String) (catchBlock : Exp F D)
  | blockConditional (cond : Exp F D) (thenBlock elseBlock : Option (Exp F D))
  | whileLoop (condition : Exp F D) (body : Option (Exp F D))
  | forLoop (id : String) (init limit step : Exp F D) (body : Option (Exp F D))
  | breakStmt
  | continueStmt
  | conditional (cond thenExp elseExp : Exp F D)
  | returnStmt (value : Exp F D)
  | or (a b : Exp F D)
  | and (a b : Exp F D)
  | equal (a b : Exp F D)
  | less (a b : Exp F D)
  | arithmetic (op : Arithmetic) (a b : Exp F D)
  | doublePlus (a b : Exp F D)
  | negate (e : Exp F D)
  | not (e : Exp F D)
  | variableReference (name : String)
  | assignment (lhs : String) (rhs : Exp F D) (withret : Bool)
  | globalAssignment (lhs : String) (rhs : Exp F D)
  | functionCall (name : Option String) (func : Exp F D) (argNames : List (Option String))
      (args : List (Exp F D)) (oopNotation : Bool)
  | functionWrapper (node : ℕ) (name : String)
  | legacyFunctionDefinition
  | functionDefinition (body : Exp F D) (paramTypes : String) (paramFloats : List Bool)
      (paramNames varNames : List String) (filename : Option String) (line : ℕ)

namespace Exp

variable {F D : Type}

/-- `GetLvalue`: the name of an expression that can be assigned to. -/
def getLvalue : Exp F D → Option String
  | variableReference name => some name
  | _ => none

/-- The expressions that a tree of `ExpSequence`s is made of, from left to right. -/
def leaves : Exp F D → List (Exp F D)
  | sequence a b => a.leaves ++ b.leaves
  | e => [e]

theorem leaves_ne_nil (e : Exp F D) : e.leaves ≠ [] := by
  fun_induction leaves e with
  | case1 a b ha hb => simp [ha]
  | case2 e => simp

end Exp

end Language

end AviSynth
