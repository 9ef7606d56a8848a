import AviSynth.Library.RefHeap
import AviSynth.Library.Runs

/-!
# The frames a plugin sees

A plugin built with the legacy SDK works on `VideoFrame`s of its own, each of
which owns one reference to a frame of the host. `Wrap` turns a host reference
into such a wrapper: it shares the wrapper that the index has under the host
object's key, or constructs one. The index does not keep its wrappers alive, so
a lookup has to be safe against a thread that drops the last reference. A call is
cut into the steps that other threads can get in between: the critical sections
of `Wrap` and `ReleaseFrame`, and what each of them does after unlocking.
-/

namespace AviSynth.Cx

/-- The address of a `Frame`. -/
abbrev FramePtr := ℕ

/-- `avs_cx_frame_ref_v1`: the addresses of a host frame and of its operations. -/
structure FrameRef where
  object : ℕ
  operations : ℕ
  deriving DecidableEq

/-- `avs::cx::frame`: a host reference that is released when its owner goes away.
The number tells it apart from other references to the same host frame. -/
structure HostFrame where
  ref : FrameRef
  number : ℕ
  deriving DecidableEq

/-- What a wrapper stands for. -/
structure FrameKey where
  object : ℕ
  operations : ℕ
  sdk : ℕ
  deriving DecidableEq

/-- `Key`. -/
def key (r : FrameRef) (sdk : ℕ) : FrameKey := ⟨r.object, r.operations, sdk⟩

/-- `Index`: which of the sixteen shards a key belongs to. -/
def index (k : FrameKey) : ℕ := ((k.object >>> 4) ^^^ (k.object >>> 12)) % 16

/-- `Frame`: a wrapper. Its count is a `std::atomic<unsigned>`, here without a largest value. -/
structure Frame where
  references : ℕ
  ref : HostFrame
  sdk : ℕ
  deriving DecidableEq

/-- The key of a wrapper. -/
def Frame.key (f : Frame) : FrameKey := Cx.key f.ref.ref f.sdk

/-- A call that a thread is in. -/
inductive Call where
  /-- `Wrap` has adopted the host reference and is about to lock the shard. -/
  | wrap (owned : HostFrame) (sdk : ℕ)
  /-- `Wrap` has unlocked the shard without giving `owned` to a new wrapper. It
  destroys `owned`, and returns the wrapper or passes on the exception. -/
  | unwind (owned : HostFrame) (result : Option FramePtr)
  /-- `ReleaseFrame` is about to lock the shard. -/
  | releaseFrame (f : FramePtr)
  /-- A shard has been unlocked, and the frame is about to be deleted. -/
  | delete (f : FramePtr)
  deriving DecidableEq

/-- What `Wrap` gets from the allocator. -/
structure Memory where
  /-- The address of a new `Frame`, unless the system is out of memory. -/
  frame : Option FramePtr
  /-- There is memory for an entry of the index. -/
  entry : Bool

/-- The wrappers by their addresses. -/
abbrev Heap := AList fun _ : FramePtr => Frame

/-- The wrappers, their index, and what the threads hold of them. -/
structure Wrappers where
  frames : Heap
  frameIndices : ℕ → FrameKey → Option FramePtr
  /-- The frames that `PVideoFrame`s point to, once for each of them. -/
  handles : List FramePtr
  calls : List Call
  /-- How many host references have been handed to `Wrap`; the number of the next. -/
  handed : ℕ

/-- What a thread does next. -/
inductive Action where
  /-- It calls `Wrap` with a reference of its own to a host frame. -/
  | callWrap (r : FrameRef) (sdk : ℕ)
  /-- It copies a `PVideoFrame`. -/
  | copy (f : FramePtr)
  /-- It destroys or overwrites a `PVideoFrame`. -/
  | drop (f : FramePtr)
  /-- It takes the next step of a call it is in. -/
  | advance (call : Call) (memory : Memory)

/-- What a step does to the host. -/
inductive Event where
  | quiet
  /-- The host reference with this number is released. -/
  | released (number : ℕ)
  deriving DecidableEq

namespace Wrappers

/-- A plugin that has been loaded and not yet called. -/
def initial : Wrappers := ⟨∅, fun _ _ => none, [], [], 0⟩

@[simps]
def put (s : Wrappers) (p : FramePtr) (f : Frame) : Wrappers :=
  { s with frames := s.frames.insert p f }

/-- The entry of a key in the shard that it belongs to. -/
@[simps]
def setEntry (s : Wrappers) (k : FrameKey) (entry : Option FramePtr) : Wrappers :=
  { s with
    frameIndices := Function.update s.frameIndices (index k)
      (Function.update (s.frameIndices (index k)) k entry) }

/-- A call goes on as the calls `next`, or is over. -/
@[simps]
def goOn (s : Wrappers) (call : Call) (next : List Call) : Wrappers :=
  { s with calls := next ++ s.calls.erase call }

@[simps]
def hold (s : Wrappers) (p : FramePtr) : Wrappers := { s with handles := p :: s.handles }

/-- `RetainFrame`. -/
def retainFrame (s : Wrappers) (p : FramePtr) : Option Wrappers :=
  (s.frames.lookup p).map fun f => s.put p { f with references := f.references + 1 }

/-- The critical section of `Wrap`. -/
def wrap (s : Wrappers) (owned : HostFrame) (sdk : ℕ) (memory : Memory) : Option Wrappers :=
  let k := key owned.ref sdk
  match s.frameIndices (index k) k with
  | some p =>
    (s.retainFrame p).map fun t => t.goOn (.wrap owned sdk) [.unwind owned (some p)]
  | none =>
    match memory.frame with
    | none => some (s.goOn (.wrap owned sdk) [.unwind owned none])
    | some p =>
      -- The allocator hands out no address that is in use.
      if p ∈ s.frames then none
      else if memory.entry then
        some ((((s.put p ⟨1, owned, sdk⟩).setEntry k (some p)).goOn (.wrap owned sdk) []).hold p)
      else
        -- `candidate` is destroyed after the shard has been unlocked.
        some ((s.put p ⟨0, owned, sdk⟩).goOn (.wrap owned sdk) [.delete p])

/-- The critical section of `ReleaseFrame`. -/
def releaseFrame (s : Wrappers) (p : FramePtr) : Option Wrappers :=
  (s.frames.lookup p).map fun f =>
    let t := s.put p { f with references := f.references - 1 }
    if f.references = 1 then (t.setEntry f.key none).goOn (.releaseFrame p) [.delete p]
    else t.goOn (.releaseFrame p) []

/-- The next step of a call. -/
def advance (s : Wrappers) (memory : Memory) : Call → Option (Wrappers × Event)
  | .wrap owned sdk => (s.wrap owned sdk memory).map (·, .quiet)
  | .unwind owned none => some (s.goOn (.unwind owned none) [], .released owned.number)
  | .unwind owned (some p) =>
    some ((s.goOn (.unwind owned (some p)) []).hold p, .released owned.number)
  | .releaseFrame p => (s.releaseFrame p).map (·, .quiet)
  | .delete p =>
    (s.frames.lookup p).map fun f =>
      ({ s with frames := s.frames.erase p }.goOn (.delete p) [], .released f.ref.number)

/-- One step of a thread. -/
def step (s : Wrappers) : Action → Option (Wrappers × Event)
  | .callWrap r sdk =>
    some ({ s with calls := .wrap ⟨r, s.handed⟩ sdk :: s.calls, handed := s.handed + 1 }, .quiet)
  | .copy p =>
    if p ∈ s.handles then (s.retainFrame p).map fun t => (t.hold p, .quiet) else none
  | .drop p =>
    if p ∈ s.handles then
      some ({ s with handles := s.handles.erase p, calls := .releaseFrame p :: s.calls }, .quiet)
    else none
  | .advance call memory => if call ∈ s.calls then s.advance memory call else none

end Wrappers

/-!
### What the wrappers' reference counts count

The count of a wrapper is the number of pointers to it that threads hold,
unfinished releases included. The index has exactly the wrappers whose count is
not zero, and a wrapper whose count is zero is about to be deleted by exactly one
thread. Every host reference is in one place: with a call in progress, in a
wrapper, or back with the host.
-/

/-- The call holds a reference to a wrapper. -/
def Call.holds (p : FramePtr) : Call → Bool
  | .wrap _ _ => false
  | .unwind _ result => result == some p
  | .releaseFrame q => q == p
  | .delete _ => false

/-- The call owns a host reference. -/
def Call.carries (n : ℕ) : Call → Bool
  | .wrap owned _ => owned.number == n
  | .unwind owned _ => owned.number == n
  | .releaseFrame _ => false
  | .delete _ => false

/-- The count of a wrapper, zero if there is none at the address. -/
def references (frames : Heap) (p : FramePtr) : ℕ := (frames.lookup p).elim 0 Frame.references

/-- There is a wrapper to which nobody holds a reference. -/
def unheld (frames : Heap) (p : FramePtr) : Bool :=
  (frames.lookup p).any fun f => f.references = 0

/-- The key of a wrapper that is alive: one to which somebody holds a reference. -/
def liveKey (frames : Heap) (p : FramePtr) : Option FrameKey :=
  (frames.lookup p).bind fun f => if 0 < f.references then some f.key else none

/-- How many wrappers own a host reference. -/
def owners (frames : Heap) (n : ℕ) : ℕ := frames.values.countP fun f => f.ref.number = n

/-- How many references to a wrapper the threads hold. -/
def Wrappers.held (s : Wrappers) (p : FramePtr) : ℕ :=
  s.handles.count p + s.calls.countP (Call.holds p)

/-- The invariant of the wrappers. -/
structure Consistent (history : List Event) (s : Wrappers) : Prop where
  counted : ∀ p, s.held p = references s.frames p
  deletions : ∀ p, s.calls.count (.delete p) = if unheld s.frames p then 1 else 0
  indexed : ∀ i k p, s.frameIndices i k = some p ↔ i = index k ∧ liveKey s.frames p = some k
  settled : ∀ n, s.calls.countP (Call.carries n) + owners s.frames n +
    history.count (.released n) = if n < s.handed then 1 else 0

section Heap

variable {frames : Heap} {p : FramePtr} {f : Frame}

theorem lookup_insert_eq (frames : Heap) (p : FramePtr) (f : Frame) (q : FramePtr) :
    (frames.insert p f).lookup q = if q = p then some f else frames.lookup q := by
  by_cases h : q = p
  · rw [if_pos h, h]
    exact AList.lookup_insert _
  · rw [if_neg h]
    exact AList.lookup_insert_ne h

theorem references_insert (frames : Heap) (p : FramePtr) (f : Frame) (q : FramePtr) :
    references (frames.insert p f) q = if q = p then f.references else references frames q := by
  rw [references, lookup_insert_eq]
  split <;> rfl

theorem unheld_insert (frames : Heap) (p : FramePtr) (f : Frame) (q : FramePtr) :
    unheld (frames.insert p f) q =
      if q = p then decide (f.references = 0) else unheld frames q := by
  rw [unheld, lookup_insert_eq]
  split <;> rfl

theorem liveKey_insert (frames : Heap) (p : FramePtr) (f : Frame) (q : FramePtr) :
    liveKey (frames.insert p f) q =
      if q = p then if 0 < f.references then some f.key else none else liveKey frames q := by
  rw [liveKey, lookup_insert_eq]
  split <;> rfl

theorem lookup_erase_eq (frames : Heap) (p q : FramePtr) :
    (frames.erase p).lookup q = if q = p then none else frames.lookup q := by
  by_cases h : q = p
  · rw [if_pos h, h]
    exact AList.lookup_erase _ _
  · rw [if_neg h]
    exact AList.lookup_erase_ne h

theorem owners_of_lookup (h : frames.lookup p = some f) (n : ℕ) :
    owners frames n = owners (frames.erase p) n + if f.ref.number = n then 1 else 0 := by
  rw [owners, AList.values_of_lookup h, Multiset.countP_cons, owners]

theorem owners_insert (frames : Heap) (p : FramePtr) (f : Frame) (n : ℕ) :
    owners (frames.insert p f) n =
      owners (frames.erase p) n + if f.ref.number = n then 1 else 0 := by
  rw [owners, AList.values_insert, Multiset.countP_cons, owners]

theorem owners_insert_new (h : frames.lookup p = none) (f : Frame) (n : ℕ) :
    owners (frames.insert p f) n = owners frames n + if f.ref.number = n then 1 else 0 := by
  rw [owners_insert, AList.erase_of_lookup_none h]

theorem owners_insert_old (h : frames.lookup p = some f) (f' : Frame) (href : f'.ref = f.ref)
    (n : ℕ) :
    owners (frames.insert p f') n = owners frames n := by
  rw [owners_insert, owners_of_lookup h, href]

end Heap

/-- What a call counted for is counted for what it goes on as. -/
theorem countP_goOn {calls : List Call} {call : Call} (h : call ∈ calls) (next : List Call)
    (P : Call → Bool) :
    (next ++ calls.erase call).countP P + (if P call then 1 else 0) =
      calls.countP P + next.countP P := by
  have hsplit := (List.perm_cons_erase h).countP_eq P
  rw [List.countP_cons] at hsplit
  rw [List.countP_append]
  omega

theorem count_goOn {calls : List Call} {call : Call} (h : call ∈ calls) (next : List Call)
    (c : Call) :
    (next ++ calls.erase call).count c + (if call = c then 1 else 0) =
      calls.count c + next.count c := by
  have hcalls := countP_goOn h next (· == c)
  simpa only [List.count, beq_iff_eq] using hcalls

end AviSynth.Cx
