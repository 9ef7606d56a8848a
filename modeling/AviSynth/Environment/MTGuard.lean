import AviSynth.Environment.MtModes
import AviSynth.Library.Counting
import AviSynth.Library.Runs

/-!
# The guard of a filter

An `MTGuard` stands before the instances of a filter. A `GetFrame` or `GetAudio`
call takes the instance of its thread, and in two of the modes it holds the mutex
of the instance while it runs. `EnableMT` makes the instances for more threads. It
takes no lock, so its steps and the steps of other calls come in any order.
-/

namespace AviSynth

/-- The members of an `MTGuard`. The array of children has an address, because
`EnableMT` puts another array in its place. -/
structure Guard where
  mode : MtMode
  array : ℕ
  childFilters : List ℕ
  nThreads : ℕ
  mtEnabled : Bool
  deriving DecidableEq

/-- How far an `EnableMT` call is. -/
inductive EnableProgress
  /-- `newchilds` is being filled. -/
  | building (newchilds : List ℕ)
  /-- Only the counts at the end are left. -/
  | counting (replaced : Bool)
  deriving DecidableEq

/-- An `EnableMT` call under way. -/
structure EnableCall where
  id : ℕ
  nThreads : ℕ
  progress : EnableProgress
  deriving DecidableEq

/-- The calls that go to an instance. -/
inductive GuardRequest
  | getFrame
  | getAudio
  deriving DecidableEq

/-- How far a `GetFrame` or `GetAudio` call is. -/
inductive CallProgress
  /-- `clipIndex` is known. -/
  | indexed
  /-- `child` refers to an element of this array, the mutex is still to be locked. -/
  | waiting (array : ℕ)
  /-- In the function of an instance, or of none where the array is freed memory. -/
  | inside (array : ℕ) (child : Option ℕ)
  deriving DecidableEq

/-- A `GetFrame` or `GetAudio` call under way. Both functions choose their child
alike. -/
structure ChildCall where
  request : GuardRequest
  threadId : ℤ
  index : ℕ
  progress : CallProgress
  deriving DecidableEq

/-- A guard with the calls that are under way. -/
structure MTGuard where
  guard : Guard
  enabling : List EnableCall
  calls : List ChildCall
  nextArray : ℕ
  nextFilter : ℕ
  nextEnable : ℕ

/-- One step of a call. -/
inductive GuardAction
  | enableMT (nThreads : ℕ)
  | instantiateFilter (call : EnableCall)
  | fail (call : EnableCall)
  | replace (call : EnableCall)
  | setCounts (call : EnableCall)
  | request (request : GuardRequest) (threadId : ℤ)
  | refer (call : ChildCall)
  | enter (call : ChildCall)
  | leave (call : ChildCall)
  deriving DecidableEq

/-- What is seen of a step: the `EnableMT` call it belongs to, whether that call
ends with an exception, and the members of the guard. -/
structure GuardStep where
  enable : Option ℕ
  threw : Bool
  before : Guard
  after : Guard

namespace Guard

/-- The condition under which `EnableMT` makes an array. -/
def Builds (g : Guard) (nThreads : ℕ) : Prop :=
  1 < nThreads ∧ g.mode = .multiInstance ∧ g.mtEnabled = false
  deriving Decidable

/-- The child of a call. The thread's number is an `int`, the remainder is taken
of a `size_t`. No guard has the last mode. -/
def clipIndex (g : Guard) (threadId : ℤ) : Option ℕ :=
  match g.mode with
  | .niceFilter => some 0
  | .multiInstance => some ((threadId % 2 ^ 64).toNat % g.nThreads)
  | .serialized => some 0
  | .specialMt => none

/-- The modes in which a call locks the mutex of its child. -/
def Locks (g : Guard) : Prop := g.mode = .multiInstance ∨ g.mode = .serialized
  deriving Decidable

/-- The end of `EnableMT`. -/
def setCounts (g : Guard) (nThreads : ℕ) : Guard :=
  if g.mtEnabled then g
  else { g with nThreads := max g.nThreads nThreads, mtEnabled := true }

end Guard

/-- A call in the function of a child of an array. -/
def ChildCall.isInsideAt (array index : ℕ) (call : ChildCall) : Bool :=
  match call.progress with
  | .inside array' _ => array' == array && call.index == index
  | _ => false

/-- A call in the function of an instance. -/
def ChildCall.isInside (filter : ℕ) (call : ChildCall) : Bool :=
  match call.progress with
  | .inside _ child => child == some filter
  | _ => false

/-- A call that refers to an array. -/
def ChildCall.holdsArray (call : ChildCall) : Bool :=
  match call.progress with
  | .indexed => false
  | _ => true

/-- An `EnableMT` call that makes an array, or has made it. -/
def EnableCall.isBuilder (call : EnableCall) : Bool :=
  match call.progress with
  | .building _ => true
  | .counting replaced => replaced

namespace MTGuard

open Counting

/-- The guard that `MTGuard::Create` makes around the first instance. -/
def start (mode : MtMode) (first : ℕ) : MTGuard where
  guard := ⟨mode.guard, 0, [first], 1, false⟩
  enabling := []
  calls := []
  nextArray := 1
  nextFilter := first + 1
  nextEnable := 0

variable (s : MTGuard)

/-- `EnableMT` up to the first instance it makes. `SetCacheHints` tells the
instances the count of threads and changes nothing in the guard. -/
def enableMT (nThreads : ℕ) : MTGuard :=
  { s with
    enabling := ⟨s.nextEnable, nThreads,
      if s.guard.Builds nThreads then .building (s.guard.childFilters.take s.guard.nThreads)
      else .counting false⟩ :: s.enabling
    nextEnable := s.nextEnable + 1 }

/-- The steps of an `EnableMT` call after the first. Instances can fail to be made
and to be told the count, but nothing after the array is in place can fail. -/
def instantiateFilter (call : EnableCall) : Option MTGuard :=
  match call.progress with
  | .building newchilds =>
      if newchilds.length < call.nThreads then
        some { s with
          enabling := goesOn s.enabling call
            (some { call with progress := .building (newchilds ++ [s.nextFilter]) })
          nextFilter := s.nextFilter + 1 }
      else none
  | .counting _ => none

/-- A call of `EnableMT` throws. -/
def fail (call : EnableCall) : Option MTGuard :=
  if call.progress = .counting true then none
  else some { s with enabling := goesOn s.enabling call none }

/-- It replaces the array. -/
def replace (call : EnableCall) : Option MTGuard :=
  match call.progress with
  | .building newchilds =>
      if newchilds.length < call.nThreads then none
      else
        some { s with
          guard := { s.guard with array := s.nextArray, childFilters := newchilds }
          enabling := goesOn s.enabling call (some { call with progress := .counting true })
          nextArray := s.nextArray + 1 }
  | .counting _ => none

/-- It sets the counts. -/
def setCounts (call : EnableCall) : Option MTGuard :=
  match call.progress with
  | .building _ => none
  | .counting _ =>
      some { s with
        guard := s.guard.setCounts call.nThreads
        enabling := goesOn s.enabling call none }

/-- A thread asks for a frame or for audio. -/
def request (request : GuardRequest) (threadId : ℤ) : Option MTGuard :=
  (s.guard.clipIndex threadId).map fun index =>
    { s with calls := ⟨request, threadId, index, .indexed⟩ :: s.calls }

/-- `auto& child = ChildFilters[clipIndex]` -/
def refer (call : ChildCall) : Option MTGuard :=
  if call.progress = .indexed then
    some { s with
      calls := goesOn s.calls call (some { call with progress := .waiting s.guard.array }) }
  else none

/-- The mutex is locked where the mode asks for it, then the child is called. -/
def enter (call : ChildCall) : Option MTGuard :=
  match call.progress with
  | .waiting array =>
      if s.guard.Locks ∧ s.calls.any (ChildCall.isInsideAt array call.index) then none
      else
        some { s with
          calls := goesOn s.calls call (some { call with
            progress := .inside array
              (if array = s.guard.array then s.guard.childFilters[call.index]? else none) }) }
  | _ => none

/-- The child returns or throws. -/
def leave (call : ChildCall) : Option MTGuard :=
  match call.progress with
  | .inside _ _ => some { s with calls := goesOn s.calls call none }
  | _ => none

/-- The state after a step. `EnableMT` asserts that it is given a thread. -/
def next : GuardAction → Option MTGuard
  | .enableMT nThreads => if 1 ≤ nThreads then some (s.enableMT nThreads) else none
  | .instantiateFilter call => if call ∈ s.enabling then s.instantiateFilter call else none
  | .fail call => if call ∈ s.enabling then s.fail call else none
  | .replace call => if call ∈ s.enabling then s.replace call else none
  | .setCounts call => if call ∈ s.enabling then s.setCounts call else none
  | .request request threadId => s.request request threadId
  | .refer call => if call ∈ s.calls then s.refer call else none
  | .enter call => if call ∈ s.calls then s.enter call else none
  | .leave call => if call ∈ s.calls then s.leave call else none

/-- The `EnableMT` call that a step belongs to. -/
def enableOf : GuardAction → Option ℕ
  | .enableMT _ => some s.nextEnable
  | .instantiateFilter call | .fail call | .replace call | .setCounts call => some call.id
  | .request _ _ | .refer _ | .enter _ | .leave _ => none

/-- The step that ends an `EnableMT` call with an exception. -/
def isFail : GuardAction → Bool
  | .fail _ => true
  | _ => false

/-- One step of a thread. -/
def step (s : MTGuard) (action : GuardAction) : Option (MTGuard × GuardStep) :=
  (s.next action).map fun t =>
    (t, ⟨s.enableOf action, isFail action, s.guard, t.guard⟩)

/-- The condition on the steps: no second array is made beside another, and an
array is replaced only while no call refers to it. -/
def Permitted (s : MTGuard) : GuardAction → Prop
  | .enableMT nThreads => s.guard.Builds nThreads → s.enabling.all (!·.isBuilder)
  | .replace _ => s.calls.all (!·.holdsArray)
  | _ => True

instance (s : MTGuard) (action : GuardAction) : Decidable (s.Permitted action) := by
  unfold Permitted
  split <;> infer_instance

end MTGuard

end AviSynth
