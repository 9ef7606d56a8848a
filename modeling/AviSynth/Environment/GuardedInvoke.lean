import AviSynth.Environment.MtModes

/-!
# Calls of filters and their guards

`Invoke` collects the modes of the clips that it is given, calls the function, and puts
an `MTGuard` around the filter that comes back. Inside the constructor of another filter
no guard is made: the modes are handed on to the call that is open there, which is found
on a stack. A table says of addresses of clips whether a guard has been put around them.

The ledger is not in the source. It says which filters have been built in the
constructor of the outermost filter, and for which calls their modes are counted.
-/

namespace AviSynth

namespace GuardedInvoke

/-- The values that are passed to a function, with clips for their addresses. -/
inductive AVSValue where
  | clip (a : ℕ)
  | array (elements : List AVSValue)
  | other

namespace AVSValue

/-- `IsClip`. -/
def isClip : AVSValue → Bool
  | .clip _ => true
  | _ => false

mutual

/-- The clips that a value holds. -/
def clips : AVSValue → List ℕ
  | .clip a => [a]
  | .array elements => clipsOfList elements
  | .other => []

/-- The clips that the values of a list hold. -/
def clipsOfList : List AVSValue → List ℕ
  | [] => []
  | v :: vs => v.clips ++ clipsOfList vs

end

end AVSValue

/-- `ClipDataStore`. -/
structure ClipDataStore where
  clip : ℕ
  createdByInvoke : Bool

/-- The table of clips, `clip_data`. -/
abbrev ClipTable := ℕ → Option ClipDataStore

/-- The entry that `ClipData` returns. -/
def ClipTable.data (table : ClipTable) (a : ℕ) : ClipDataStore := (table a).getD ⟨a, false⟩

/-- The table after `ClipData` has been called. -/
def ClipTable.emplace (table : ClipTable) (a : ℕ) : ClipTable :=
  Function.update table a (some (table.data a))

/-- The table with the mark of a guarded clip. -/
def ClipTable.mark (table : ClipTable) (a : ℕ) : ClipTable :=
  Function.update table a (some { table.data a with createdByInvoke := true })

/-- A call of `Invoke` whose function has not returned. -/
inductive PendingCall where
  /-- The mode of the function is the special one. -/
  | special (f : InvokedFunction)
  /-- `Eval`, `Import` and the functions of scripts. -/
  | script (f : InvokedFunction)
  | filter (f : InvokedFunction) (chainedCtor isSourceFilter : Bool)

/-- The filters built in the constructor of the outermost filter, each with its mode. -/
structure Ledger where
  uncounted : List (ℕ × MtMode)
  /-- Those whose modes the evaluators on the stack have counted. -/
  counted : List (List (ℕ × MtMode))

namespace Ledger

variable (l : Ledger)

/-- There is no open constructor. -/
def empty : Ledger := ⟨[], []⟩

/-- Whether a filter is among the clips whose modes have been taken from arguments. -/
def isTaken (taken : List (ℕ × MtMode)) (b : ℕ × MtMode) : Bool :=
  taken.any fun t => t.1 == b.1 && b.2.restriction ≤ t.2.restriction

/-- A call begins, and its evaluator counts some clips. -/
def openCall (taken : List (ℕ × MtMode)) : Ledger where
  uncounted := l.uncounted.filter fun b => !isTaken taken b
  counted := l.uncounted.filter (isTaken taken) :: l.counted

/-- A filter is built. -/
def build (n : ℕ) (mode : MtMode) : Ledger := { l with uncounted := (n, mode) :: l.uncounted }

/-- The function by which a filter was built decides its mode. -/
def assess (n : ℕ) (mode : MtMode) : Ledger :=
  { l with uncounted := l.uncounted.map fun b => if b.1 = n then (n, mode) else b }

/-- The call returns a filter, and what it has counted is handed on with its mode. -/
def handOn (n : ℕ) (mode : MtMode) : Ledger :=
  match l.counted with
  | own :: caller :: rest =>
    ⟨l.uncounted.filter (·.1 ≠ n), ((n, mode) :: (own ++ caller)) :: rest⟩
  | _ => empty

/-- The call ends, and what it has counted is lost. -/
def drop : Ledger :=
  match l.counted with
  | own :: caller :: rest => ⟨own ++ l.uncounted, caller :: rest⟩
  | _ => empty

/-- All the filters but one. -/
def others (n : ℕ) : List (ℕ × MtMode) := (l.counted.flatten ++ l.uncounted).filter (·.1 ≠ n)

end Ledger

/-- What is known when a guard is put around an outermost filter. -/
structure GuardEvent where
  /-- Whether the user forces the mode. -/
  forced : Bool
  mode : MtMode
  /-- The filters built inside the constructor, with their modes. -/
  built : List (ℕ × MtMode)
  deriving DecidableEq

/-- The guard is at least as restrictive as every filter built inside, unless its
mode is forced. -/
def GuardEvent.Covers (g : GuardEvent) : Prop :=
  g.forced = false → ∀ b ∈ g.built, b.2.restriction ≤ g.mode.restriction

/-- What `Invoke` reads and changes of the environment, and the ledger. -/
structure InvokeState where
  settings : MtSettings
  clipData : ClipTable
  invokeStack : List MtModeEvaluator
  /-- The open calls, the innermost one first. -/
  calls : List PendingCall
  /-- The clips that exist, by their addresses. -/
  clips : ℕ → Option IClip
  /-- How many clips have been created. -/
  created : ℕ
  ledger : Ledger

namespace InvokeState

/-- The environment before any filter has been built. -/
def start (settings : MtSettings) : InvokeState :=
  ⟨settings, fun _ => none, [], [], fun _ => none, 0, .empty⟩

variable (s : InvokeState)

/-- A clip is created at an unused address. -/
def place (a : ℕ) (version mtMode : ℤ) : Option InvokeState :=
  if (s.clips a).isSome then none
  else some { s with
    clips := Function.update s.clips a (some ⟨version, mtMode, s.created⟩)
    created := s.created + 1 }

/-- The version of the interface that guards and caches have. -/
def interfaceVersion : ℤ := 12

/-- An `MTGuard` or a `CacheGuard`. Both say that they are nice filters. -/
def placeGuard (a : ℕ) : Option InvokeState := s.place a interfaceVersion 1

/-- The clip that has just been created belongs to the open constructor, if there is one. -/
def build (clip : IClip) : InvokeState :=
  if s.invokeStack = [] then s
  else
    { s with
      ledger := s.ledger.build clip.number (clip.getInstanceMode s.settings.defaultMtMode) }

/-- A filter is constructed without `Invoke`, by the function of the innermost call or,
if not `inside`, by other code that runs at the same time. -/
def create (a : ℕ) (version mtMode : ℤ) (inside : Bool) : Option InvokeState :=
  (s.place a version mtMode).map fun t =>
    if inside then t.build ⟨version, mtMode, s.created⟩ else t

/-- The last reference to a clip is given up. The table keeps its entry. -/
def destroy (a : ℕ) : Option InvokeState :=
  if (s.clips a).isSome then some { s with clips := Function.update s.clips a none } else none

/-- The arguments that `Flatten` leaves, after `last` where the call needs it. Named
arguments are left out. -/
def args2 (last : Option AVSValue) (args : List (Option String × AVSValue)) : List AVSValue :=
  last.toList ++ (args.filter (·.1.isNone)).map Prod.snd

/-- The loop over the arguments. -/
def inspect (table : ClipTable) (mthelper : MtModeEvaluator) :
    List AVSValue → ClipTable × MtModeEvaluator
  | [] => (table, mthelper)
  | .clip a :: args =>
    match s.clips a with
    | none => inspect (table.emplace a) mthelper args
    | some clip =>
      if (table.data a).createdByInvoke then inspect (table.emplace a) mthelper args
      else inspect (table.emplace a)
        (mthelper.addChainedFilter clip s.settings.defaultMtMode) args
  -- The elements of arrays are not looked at.
  | .array _ :: args => inspect table mthelper args
  | .other :: args => inspect table mthelper args

/-- The clips whose modes that loop takes. -/
def taken : List AVSValue → List (ℕ × MtMode)
  | [] => []
  | .clip a :: args =>
    match s.clips a with
    | none => taken args
    | some clip =>
      if (s.clipData.data a).createdByInvoke then taken args
      else (clip.number, clip.getInstanceMode s.settings.defaultMtMode) :: taken args
  | .array _ :: args => taken args
  | .other :: args => taken args

/-- `Invoke_` up to the call of the function, with the arguments that `Flatten` leaves. -/
def invoke (f : InvokedFunction) (args : List AVSValue) : InvokeState :=
  let inspected := s.inspect s.clipData .zero args
  if (s.settings.getFilterMTMode f).1 = .specialMt then
    { s with clipData := inspected.1, calls := .special f :: s.calls }
  else if f.isScriptFunction then
    { s with clipData := inspected.1, calls := .script f :: s.calls }
  else
    { s with
      clipData := inspected.1
      calls := .filter f (!s.invokeStack.isEmpty) (!args.any AVSValue.isClip) :: s.calls
      invokeStack := inspected.2 :: s.invokeStack
      ledger := s.ledger.openCall (s.taken args) }

/-- The clip that a function returned, if `Invoke_` treats it as a filter. -/
def filterClip (f : InvokedFunction) : AVSValue → Option ℕ
  | .clip a => if f.name = some "Prefetch" then none else some a
  | _ => none

/-- The mode of a returned clip is decided, though nothing counts it. -/
def assess (f : InvokedFunction) : AVSValue → InvokeState
  | .clip a =>
    match s.clips a with
    | some clip => { s with ledger := s.ledger.assess clip.number (s.settings.getMtMode f clip) }
    | none => s
  | _ => s

/-- The evaluator of the innermost call is popped and forgotten. -/
def popCall (calls : List PendingCall) (stack : List MtModeEvaluator) : InvokeState :=
  { s with calls, invokeStack := stack, ledger := s.ledger.drop }

/-- The mode of the guard around an outermost filter. -/
def guardMode (f : InvokedFunction) (clip : IClip) (mthelper : MtModeEvaluator)
    (isSourceFilter : Bool) : MtMode :=
  let own := s.settings.getMtMode f clip
  let mtmode := if (s.settings.getFilterMTMode f).2 then own else mthelper.getFinalMode own
  let mtmode :=
    if isSourceFilter && s.settings.usesDefaultMtMode f clip then .serialized else mtmode
  mtmode.guard

/-- A chained constructor returns a filter. A cache is put around it. -/
def returnChained (f : InvokedFunction) (clip : IClip) (calls : List PendingCall)
    (mthelper top : MtModeEvaluator) (stack : List MtModeEvaluator) (cache : ℕ) :
    Option InvokeState :=
  { s with
    calls
    invokeStack := ((top.accumulate mthelper).accumulateMode (s.settings.getMtMode f clip)) :: stack
    ledger := s.ledger.handOn clip.number (s.settings.getMtMode f clip) }.placeGuard cache

/-- An outermost constructor returns the filter at `a`. A guard and a cache are put
around it. -/
def returnGuarded (a : ℕ) (calls : List PendingCall) (stack : List MtModeEvaluator)
    (guard cache : ℕ) : Option InvokeState :=
  ({ s with
    calls
    invokeStack := stack
    clipData := s.clipData.mark a
    ledger := .empty }.placeGuard guard).bind fun t => t.placeGuard cache

/-- `Invoke_` from the return of the function on. -/
def finish (fret : AVSValue) (guard cache : ℕ) : Option (InvokeState × Option GuardEvent) :=
  match s.calls with
  | [] => none
  | .script _ :: calls => some ({ s with calls }, none)
  | .special f :: calls => some ({ s.assess f fret with calls }, none)
  | .filter f chainedCtor isSourceFilter :: calls =>
    match s.invokeStack with
    | [] => none
    | mthelper :: stack =>
      match filterClip f fret with
      | none => some ((s.assess f fret).popCall calls stack, none)
      | some a =>
        match s.clips a with
        | none => none
        | some clip =>
          if chainedCtor then
            match stack with
            | [] => none
            | top :: stack =>
              (s.returnChained f clip calls mthelper top stack cache).map (·, none)
          else
            (s.returnGuarded a calls stack guard cache).map
              (·, some ⟨(s.settings.getFilterMTMode f).2,
                s.guardMode f clip mthelper isSourceFilter, s.ledger.others clip.number⟩)

/-- The function of the innermost call throws. -/
def fail : Option InvokeState :=
  match s.calls with
  | [] => none
  | .script _ :: calls => some { s with calls }
  | .special _ :: calls => some { s with calls }
  | .filter _ _ _ :: calls =>
    match s.invokeStack with
    | [] => none
    | _ :: stack => some (s.popCall calls stack)

/-- What the program does next. -/
inductive Action where
  | setFilterMTMode (filter : String) (mode : ℤ) (weight : MtWeight) (loading : Option String)
  | create (a : ℕ) (version mtMode : ℤ) (inside : Bool)
  | destroy (a : ℕ)
  | invoke (f : InvokedFunction) (last : Option AVSValue) (args : List (Option String × AVSValue))
  | finish (fret : AVSValue) (guard cache : ℕ)
  | fail

/-- The clips in some values exist. -/
def holds (vs : List AVSValue) : Bool :=
  (AVSValue.clipsOfList vs).all fun a => (s.clips a).isSome

/-- One step, with the guard that it puts around an outermost filter. -/
def step : Action → Option (InvokeState × Option GuardEvent)
  | .setFilterMTMode filter mode weight loading =>
    some ({ s with
      settings := (s.settings.setFilterMTMode filter mode weight loading).getD s.settings }, none)
  | .create a version mtMode inside => (s.create a version mtMode inside).map (·, none)
  | .destroy a => (s.destroy a).map (·, none)
  | .invoke f last args =>
    if s.holds (last.toList ++ args.map Prod.snd) then
      some (s.invoke f (args2 last args), none)
    else none
  | .finish fret guard cache => if s.holds [fret] then s.finish fret guard cache else none
  | .fail => s.fail.map (·, none)

end InvokeState

end GuardedInvoke

end AviSynth
