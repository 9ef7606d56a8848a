import AviSynth.Frames.AVSMap
import AviSynth.Frames.FrameRegistry
import AviSynth.Library.OwnedHeap

/-!
# Draining frame properties at shutdown

The properties of a frame may hold clips and frames, and the destructor of a clip may
call back into the environment. At shutdown the registered frames are searched for one
that still has properties, one property is taken out of its storage and destroyed, and
the search starts again. A step destroys one reference or runs one call of a destructor,
with everything else that is to be done kept on a stack.
-/

namespace AviSynth

/-- A `vs_intrusive_ptr`. Its assignment releases the old object first: until the new
pointer is stored, the old one is still there and its reference is gone. -/
structure IntrusivePtr where
  obj : ℕ
  held : Bool
  deriving DecidableEq

/-- A reference to a counted object: an array, a storage or a clip, or a frame. -/
inductive ObjectRef where
  | object (p : ℕ)
  | frame (f : FramePtr)
  deriving DecidableEq

namespace ObjectRef

/-- The object that is referred to. -/
def object? : ObjectRef → Option ℕ
  | .object p => some p
  | .frame _ => none

/-- The frame that is referred to. -/
def frame? : ObjectRef → Option FramePtr
  | .object _ => none
  | .frame f => some f

end ObjectRef

/-- The reference that a pointer holds. -/
def IntrusivePtr.refs (ptr : IntrusivePtr) : List ObjectRef :=
  if ptr.held then [.object ptr.obj] else []

/-- A value of a property. Numbers and data refer to nothing. -/
inductive PropValue where
  | plain
  | clip (c : ℕ)
  | frame (f : FramePtr)
  deriving DecidableEq

instance : Inhabited PropValue := ⟨.plain⟩

/-- The reference that a value holds. -/
def PropValue.refs : PropValue → List ObjectRef
  | .plain => []
  | .clip c => [.object c]
  | .frame f => [.frame f]

/-- A call that the destructor of a clip makes. A clip and a frame are named by their
addresses, however the destructor came to know them. -/
inductive ClipOp where
  | newVideoFrame (vfbSize : ℕ)
  | subframe (src : FramePtr)
  | propSet (f : FramePtr) (key : String) (type : AVSPropertyType) (val : PropValue)
      (mode : AVSPropAppendMode)
  /-- `propSetClip` with a new clip, which holds references and has a destructor. -/
  | propSetNewClip (f : FramePtr) (key : String) (holds : List ObjectRef)
      (destructor : List ClipOp) (mode : AVSPropAppendMode)
  | propDeleteKey (f : FramePtr) (key : String)
  | copyFrameProps (src dst : FramePtr)
  /-- Something outside the environment takes a reference. -/
  | keep (r : ObjectRef)
  /-- Something outside the environment gives a reference up. -/
  | forget (r : ObjectRef)

namespace ClipOp

mutual

/-- The number of calls, with those of the destructors that are passed on. -/
def size : ClipOp → ℕ
  | .propSetNewClip _ _ _ destructor _ => sizeOfList destructor + 1
  | _ => 1

/-- The number of calls of a list. -/
def sizeOfList : List ClipOp → ℕ
  | [] => 0
  | op :: ops => op.size + sizeOfList ops

end

end ClipOp

/-- The counted objects. -/
inductive PropObject where
  | storage (data : AList fun _ : String => IntrusivePtr)
  | array (a : VSArray PropValue)
  /-- A clip with the references that its members hold. -/
  | clip (holds : List ObjectRef) (destructor : List ClipOp)

/-- The values of an array, and the first one once more if it has been moved. -/
def VSArray.kept (a : VSArray PropValue) : List PropValue :=
  if a.fsize = 0 then [] else a.singleData :: a.data

/-- The references that a storage holds. -/
def entryRefs (data : AList fun _ : String => IntrusivePtr) : List ObjectRef :=
  data.entries.flatMap fun e => e.2.refs

/-- The references that an object holds. -/
def PropObject.refs : PropObject → List ObjectRef
  | .storage data => entryRefs data
  | .array a => a.kept.flatMap PropValue.refs
  | .clip holds _ => holds

/-- A frame with its buffer and its `AVSMap`, if it has one. -/
structure PropFrame where
  vfbSize : ℕ
  vfb : VfbPtr
  properties : Option IntrusivePtr

/-- What remains to be done. -/
inductive ShutdownTask where
  | release (r : ObjectRef)
  | run (op : ClipOp)
  /-- The end of an assignment to the entry of a key. -/
  | assign (storage : ℕ) (key : String) (array : ℕ)
  /-- The end of an assignment to the map of a frame. -/
  | assignMap (f : FramePtr) (storage : ℕ)

/-- The frames and their properties, and what remains to be done. -/
structure Shutdown where
  framePropertiesClosing : Bool
  frameRegistry : List RegistryEntry
  frames : RefHeap PropFrame
  objects : RefHeap PropObject
  /-- No address from here on has been used. -/
  next : ℕ
  /-- The references that are held outside the environment. -/
  outside : List ObjectRef
  work : List ShutdownTask
  /-- The objects that have been destroyed, the last one first. -/
  destroyed : List ℕ

namespace Shutdown

variable (s : Shutdown)

/-- The map of a frame. -/
def mapOf (f : FramePtr) : Option IntrusivePtr := (s.frames.get f).bind PropFrame.properties

/-- The entries of a storage. -/
def entriesAt (p : ℕ) : Option (AList fun _ : String => IntrusivePtr) :=
  match s.objects.get p with
  | some (.storage data) => some data
  | _ => none

/-- An array. -/
def arrayAt (p : ℕ) : Option (VSArray PropValue) :=
  match s.objects.get p with
  | some (.array a) => some a
  | _ => none

/-- Whether a reference can be taken: there is such a clip or frame. -/
def available : ObjectRef → Bool
  | .object p =>
    match s.objects.get p with
    | some (.clip _ _) => true
    | _ => false
  | .frame f => (s.frames.get f).isSome

/-- Take a reference. -/
def addRef : ObjectRef → Shutdown
  | .object p => { s with objects := s.objects.addRef p }
  | .frame f => { s with frames := s.frames.addRef f }

/-- Take several. -/
def addRefs (rs : List ObjectRef) : Shutdown := rs.foldl addRef s

/-- `new`, of an object whose references have been taken. -/
def alloc (v : PropObject) : Shutdown :=
  { s with objects := s.objects.insert s.next ⟨1, v⟩, next := s.next + 1 }

/-- What the destructor of an object does. -/
def destructorTasks : PropObject → List ShutdownTask
  | .clip holds destructor => destructor.map .run ++ holds.map .release
  | v => v.refs.map .release

/-- `release` of an array, a storage or a clip, and of a frame. A frame stays where
it is when nothing refers to it. -/
def release : ObjectRef → Shutdown
  | .object p =>
    match s.objects.release p with
    | (none, objects) => { s with objects }
    | (some v, objects) =>
      { s with objects, destroyed := p :: s.destroyed, work := destructorTasks v ++ s.work }
  | .frame f => { s with frames := s.frames.unref f }

/-- Let a frame's map point to a storage. -/
def setMap (f : FramePtr) (ptr : IntrusivePtr) : Shutdown :=
  match s.frames.get f with
  | none => s
  | some frame => { s with frames := s.frames.put f { frame with properties := some ptr } }

/-- Write to the entries of a storage. -/
def setEntries (p : ℕ) (data : AList fun _ : String => IntrusivePtr) : Shutdown :=
  { s with objects := s.objects.put p (.storage data) }

/-- Write to an array. -/
def setArray (p : ℕ) (a : VSArray PropValue) : Shutdown :=
  { s with objects := s.objects.put p (.array a) }

/-- Put tasks before the others. -/
def push (tasks : List ShutdownTask) : Shutdown := { s with work := tasks ++ s.work }

/-- `AVSMap::detach` on the map of a frame, which points to the storage `p`. -/
def detach (f : FramePtr) (p : ℕ) : ℕ × Shutdown :=
  if s.objects.Unique p then (p, s)
  else
    match s.entriesAt p with
    | none => (p, s)
    | some data =>
      let t := ((s.addRefs (entryRefs data)).alloc (.storage data)).setMap f ⟨s.next, true⟩
      (s.next, t.release (.object p))

/-- `AVSMap::insert` of an array, on a storage that is not shared. An array that is
replaced is released before its entry is written. -/
def insertEntry (p : ℕ) (key : String) (array : ℕ) : Shutdown :=
  match s.entriesAt p with
  | none => s
  | some data =>
    match data.lookup key with
    | none => s.setEntries p (data.insert key ⟨array, true⟩)
    | some old =>
      (s.setEntries p (data.insert key ⟨old.obj, false⟩)).push
        [.release (.object old.obj), .assign p key array]

/-- `AVSMap::insert` of a new array. -/
def insertArray (f : FramePtr) (p : ℕ) (key : String) (a : VSArray PropValue) : Shutdown :=
  let t := (s.addRefs (PropObject.array a).refs).alloc (.array a)
  (t.detach f p).2.insertEntry (t.detach f p).1 key s.next

/-- `AVSMap::detach` of a key, on a storage that is not shared. -/
def detachArray (p : ℕ) (key : String) : Option (ℕ × Shutdown) :=
  (s.entriesAt p).bind fun data =>
    (data.lookup key).bind fun e =>
      if s.objects.Unique e.obj then some (e.obj, s)
      else
        (s.arrayAt e.obj).map fun a =>
          let t := ((s.addRefs (PropObject.array a.copy).refs).alloc
            (.array a.copy)).setEntries p (data.insert key ⟨s.next, true⟩)
          (s.next, t.release (.object e.obj))

/-- `push_back` on an array that is not shared. The first value stays where it was. -/
def pushBack (q : ℕ) (val : PropValue) : Shutdown :=
  match s.arrayAt q with
  | none => s
  | some a =>
    let moved := if a.fsize = 1 then a.singleData.refs else []
    (s.addRefs (moved ++ val.refs)).setArray q (a.pushBack val)

/-- `propSetShared`, on the map of a frame, which points to the storage `p` with the
entries `data`. -/
def propSetShared (f : FramePtr) (p : ℕ) (data : AList fun _ : String => IntrusivePtr)
    (key : String) (type : AVSPropertyType) (val : PropValue) (mode : AVSPropAppendMode) :
    Shutdown :=
  match mode with
  | .replace => s.insertArray f p key ((VSArray.empty type).pushBack val)
  | .append =>
    match (data.lookup key).bind fun e => s.arrayAt e.obj with
    | none => s.insertArray f p key ((VSArray.empty type).pushBack val)
    | some a =>
      if a.ftype = type then
        match (s.detach f p).2.detachArray (s.detach f p).1 key with
        | none => s
        | some (q, t) => t.pushBack q val
      else s
  | .touch =>
    match data.lookup key with
    | none => s.insertArray f p key (VSArray.empty type)
    | some _ => s

/-- `propSetInt` and the others, with the arguments that they accept. The caller holds the
value until the call returns. -/
def propSet (f : FramePtr) (key : String) (type : AVSPropertyType) (val : PropValue)
    (mode : AVSPropAppendMode) : Shutdown :=
  match s.mapOf f with
  | none => s
  | some ptr =>
    match s.entriesAt ptr.obj with
    | none => s
    | some data =>
      if isValidVSMapKey key ∧ val.refs.all s.available then
        ((s.addRefs val.refs).push (val.refs.map .release)).propSetShared f ptr.obj data key
          type val mode
      else s

/-- A new clip is made, put into a property, and the destructor's own reference to it
is given up. -/
def propSetNewClip (f : FramePtr) (key : String) (holds : List ObjectRef)
    (destructor : List ClipOp) (mode : AVSPropAppendMode) : Shutdown :=
  let holds := holds.filter s.available
  (((s.addRefs holds).alloc (.clip holds destructor)).push
    [.release (.object s.next)]).propSet f key .clip (.clip s.next) mode

/-- `AVSMap::erase`. The entry is taken out of the storage before it is destroyed. -/
def propDeleteKey (f : FramePtr) (key : String) : Shutdown :=
  match s.mapOf f with
  | none => s
  | some ptr =>
    match s.entriesAt ptr.obj with
    | none => s
    | some data =>
      match data.lookup key with
      | none => s
      | some e =>
        ((s.detach f ptr.obj).2.setEntries (s.detach f ptr.obj).1 (data.erase key)).push
          [.release (.object e.obj)]

/-- `copyFrameProps`, where both frames have a map. -/
def copyFrameProps (src dst : FramePtr) : Shutdown :=
  match s.mapOf src, s.mapOf dst with
  | some shared, some old =>
    ((s.addRef (.object shared.obj)).setMap dst ⟨old.obj, false⟩).push
      [.release (.object old.obj), .assignMap dst shared.obj]
  | _, _ => s

/-- `AllocateFrame`: a buffer with a frame, whose map is empty. -/
def allocateFrame (vfbSize : ℕ) : Shutdown :=
  let t := s.alloc (.storage ∅)
  { t with
    frames := t.frames.insert t.next ⟨0, ⟨vfbSize, t.next + 1, some ⟨s.next, true⟩⟩⟩
    frameRegistry := RegistryEntry.modify (RegistryEntry.touch t.frameRegistry vfbSize (t.next + 1))
      vfbSize (t.next + 1) (· ++ [t.next])
    next := t.next + 2 }

/-- `delete` of frames that nothing refers to, with their maps. -/
def deleteFrames (fs : List FramePtr) : Shutdown :=
  { s with
    frames := fs.foldl (fun frames f => frames.erase f) s.frames
    work := (fs.filterMap s.mapOf).map (fun ptr => .release (.object ptr.obj)) ++ s.work }

/-- Nothing refers to the frame. -/
def unreferenced (f : FramePtr) : Bool := (s.frames.lookup f).any fun c => c.refcount = 0

/-- `AVSMap::clear` on the map of a frame. -/
def clearProperties (f : FramePtr) : Shutdown :=
  match s.mapOf f with
  | none => s
  | some ptr =>
    match s.entriesAt ptr.obj with
    | none => s
    | some data =>
      if s.objects.Unique ptr.obj then
        (s.setEntries ptr.obj ∅).push ((entryRefs data).map .release)
      else
        ((s.alloc (.storage ∅)).setMap f ⟨s.next, true⟩).push [.release (.object ptr.obj)]

/-- `GetFrameFromRegistry`. A buffer is unused when none of its frames is referred to.
Its first frame is taken and the others are deleted. -/
def getFrameFromRegistry (vfbSize : ℕ) : Option Shutdown :=
  if s.framePropertiesClosing then none
  else
    (s.frameRegistry.find? fun e =>
      vfbSize ≤ e.vfbSize ∧ e.vfbSize ≤ vfbSize * 3 / 2 ∧ e.frames ≠ [] ∧
        e.frames.all s.unreferenced).map fun e =>
      let t := (e.frames.foldl clearProperties s).deleteFrames e.frames.tail
      { t with
        frameRegistry := RegistryEntry.modify t.frameRegistry e.vfbSize e.vfb fun fs => fs.take 1 }

/-- `GetNewFrame`, when there is memory. -/
def getNewFrame (vfbSize : ℕ) : Shutdown :=
  if s.framePropertiesClosing then s.allocateFrame vfbSize
  else (s.getFrameFromRegistry vfbSize).getD (s.allocateFrame vfbSize)

/-- `RegisterSubFrameInRegistry`. -/
def registerSubFrame (vfbSize : ℕ) (vfb : VfbPtr) (f : FramePtr) : Shutdown :=
  let t := { s with frameRegistry := RegistryEntry.touch s.frameRegistry vfbSize vfb }
  if t.framePropertiesClosing then
    { t with frameRegistry := RegistryEntry.modify t.frameRegistry vfbSize vfb (· ++ [f]) }
  else
    let unused := (RegistryEntry.framesAt t.frameRegistry vfbSize vfb).filter t.unreferenced
    { t.deleteFrames unused with
      frameRegistry := RegistryEntry.modify t.frameRegistry vfbSize vfb fun fs =>
        fs.filter (fun g => !t.unreferenced g) ++ [f] }

/-- `VideoFrame(vfb, …)` with a map, and its registration. -/
def addSubFrame (frame : PropFrame) : Shutdown :=
  { s with
    frames := s.frames.insert s.next ⟨0, frame⟩
    next := s.next + 1 }.registerSubFrame frame.vfbSize frame.vfb s.next

/-- Whether a storage has entries. -/
def hasEntries (p : ℕ) : Bool := (s.entriesAt p).any fun data => !data.entries.isEmpty

/-- `Subframe`: a frame on the same buffer. It shares the properties, if there are any. -/
def subframe (src : FramePtr) : Shutdown :=
  match s.frames.get src with
  | none => s
  | some frame =>
    match frame.properties.filter fun ptr => s.hasEntries ptr.obj with
    | some ptr => (s.addRef (.object ptr.obj)).addSubFrame { frame with properties := some ptr }
    | none =>
      (s.alloc (.storage ∅)).addSubFrame { frame with properties := some ⟨s.next, true⟩ }

/-- A call of a destructor. -/
def runOp : ClipOp → Shutdown
  | .newVideoFrame vfbSize => s.getNewFrame vfbSize
  | .subframe src => s.subframe src
  | .propSet f key type val mode => s.propSet f key type val mode
  | .propSetNewClip f key holds destructor mode => s.propSetNewClip f key holds destructor mode
  | .propDeleteKey f key => s.propDeleteKey f key
  | .copyFrameProps src dst => s.copyFrameProps src dst
  | .keep r =>
    if s.available r then { s.addRef r with outside := r :: s.outside } else s
  | .forget r =>
    if r ∈ s.outside then { s with outside := s.outside.erase r }.push [.release r] else s

/-- The next task is done. -/
def perform : ShutdownTask → Shutdown
  | .release r => s.release r
  | .run op => s.runOp op
  | .assign p key array =>
    match s.entriesAt p with
    | none => s
    | some data => s.setEntries p (data.insert key ⟨array, true⟩)
  | .assignMap f p => s.setMap f ⟨p, true⟩

/-- The frames in the order of the registry. -/
def registered : List FramePtr := s.frameRegistry.flatMap RegistryEntry.frames

/-- The storage of a frame that has properties. -/
def storageOf (f : FramePtr) : Option ℕ :=
  (s.mapOf f).bind fun ptr => if s.hasEntries ptr.obj then some ptr.obj else none

/-- `FindFramePropertiesForShutdown`. -/
def findFrameProperties : Option ℕ := s.registered.findSome? s.storageOf

/-- The least key of a storage. -/
def firstKey : List String → Option String
  | [] => none
  | key :: keys =>
    match firstKey keys with
    | none => some key
    | some key' => if key < key' then some key else some key'

/-- An iteration of the drain. The property is destroyed, then the reference that kept
its storage is released. -/
def extract (p : ℕ) : Shutdown :=
  match s.entriesAt p with
  | none => s
  | some data =>
    match firstKey data.keys with
    | none => s
    | some key =>
      ((s.addRef (.object p)).setEntries p (data.erase key)).push
        (((data.lookup key).toList.map fun e => .release (.object e.obj)) ++
          [.release (.object p)])

/-- One step, unless the drain has ended. -/
def step : Option Shutdown :=
  match s.work with
  | [] => s.findFrameProperties.map s.extract
  | task :: work => some ({ s with work }.perform task)

/-- The map of a frame is in the middle of an assignment. -/
def mapReleased (f : FramePtr) : Bool := (s.mapOf f).any fun ptr => !ptr.held

/-- The entry of a key is. -/
def entryReleased (p : ℕ) (key : String) : Bool :=
  ((s.entriesAt p).bind fun data => data.lookup key).any fun e => !e.held

/-- Some entry of a storage is. -/
def someReleased (p : ℕ) : Bool :=
  (s.entriesAt p).any fun data => data.entries.any fun e => !e.2.held

/-- A call that writes a key of a frame's map uses a pointer in the middle of its
assignment: the map, the entry, or one that is copied because the storage is shared. -/
def mapUsed (f : FramePtr) (key : String) : Bool :=
  s.mapReleased f || (s.mapOf f).any fun ptr =>
    s.entryReleased ptr.obj key || (!decide (s.objects.Unique ptr.obj) && s.someReleased ptr.obj)

/-- A call uses a pointer in the middle of its assignment. -/
def opUses : ClipOp → Bool
  | .propSet f key _ _ _ => s.mapUsed f key
  | .propSetNewClip f key _ _ _ => s.mapUsed f key
  | .propDeleteKey f key => s.mapUsed f key
  | .copyFrameProps src dst => s.mapReleased src || s.mapReleased dst
  | .subframe src => s.mapReleased src
  | _ => false

/-- The next step uses a pointer whose reference has been released, or ends an assignment
whose pointer is not there any more. -/
def usesReleased : Bool :=
  match s.work with
  | [] => s.findFrameProperties.any s.someReleased
  | .release (.object p) :: _ => decide (s.objects.Unique p) && s.someReleased p
  | .release (.frame _) :: _ => false
  | .run op :: _ => s.opUses op
  | .assign p key _ :: _ => !s.entryReleased p key
  | .assignMap f _ :: _ => !s.mapReleased f

/-- `DrainFramePropertiesForShutdown` sets the flag, and its loop begins. -/
def close : Shutdown := { s with framePropertiesClosing := true }

/-- A number of steps, or fewer if the drain ends before. -/
def steps : ℕ → Shutdown → Shutdown
  | 0, s => s
  | n + 1, s => steps n (s.step.getD s)

end Shutdown

end AviSynth
