import AviSynth.Frames.LayoutSound
import AviSynth.Frames.MapSharing
import AviSynth.Library.ByteRows
import AviSynth.Library.OwnedHeap

/-!
# Frames that share buffers

A frame object describes planes in a buffer and owns a property map. Pointers to
frames are held in variables; a frame object counts the pointers to it, a buffer
counts the frames made on it. Pixels are written through a frame that is the only
one on its buffer and has one pointer, properties are changed through a frame that
has one pointer, and a frame that is shared is copied before that. A frame without
pointers is gone here; the registry that keeps it for later use is `FrameSystem`.
-/

namespace AviSynth

open MachineInt PixelType ByteRows RefHeap

/-- The planes by which the accessors of a frame are called. -/
inductive Channel where
  | y
  | u
  | v
  | a
  deriving DecidableEq

namespace FrameLayout

variable (l : FrameLayout)

def getPitch : Channel → ℤ
  | .y => l.pitch
  | .u | .v => l.pitchUV
  | .a => l.pitchA

def getRowSize : Channel → ℤ
  | .y => l.rowSize
  | .u | .v => if l.pitchUV = 0 then 0 else l.rowSizeUV
  | .a => if l.pitchA = 0 then 0 else l.rowSizeA

def getHeight : Channel → ℤ
  | .y => l.height
  | .u | .v => if l.pitchUV = 0 then 0 else l.heightUV
  | .a => if l.pitchA = 0 then 0 else l.height

def getOffset : Channel → ℤ
  | .y => l.offset
  | .u => l.offsetU
  | .v => l.offsetV
  | .a => l.offsetA

end FrameLayout

/-- `MulDiv`, computed in 64 bits. -/
def mulDiv (number numerator denominator : ℤ) : ℤ :=
  i32 ((number * numerator + denominator.tdiv 2).tdiv denominator)

/-- `BitBlt`. -/
def bitBlt (memory : ℤ → UInt8) (dstp dstPitch : ℤ) (origin : ℤ → UInt8)
    (srcp srcPitch rowSize height : ℤ) : ℤ → UInt8 :=
  if height = 0 ∨ rowSize = 0 then memory
  else if height = 1 ∨ (dstPitch = srcPitch ∧ srcPitch = rowSize) then
    copyBytes memory dstp origin srcp (sizeT (i32 (rowSize * height)))
  else copyRows origin dstPitch srcPitch (sizeT rowSize) height.toNat memory dstp srcp

/-- A `VideoFrame`. -/
structure FrameObject where
  vfb : ℕ
  layout : FrameLayout
  pixelType : PixelType

/-- The arguments that all forms of `Subframe` have. -/
structure SubframeArea where
  relOffset : ℤ
  newPitch : ℤ
  newRowSize : ℤ
  newHeight : ℤ

/-- A call of `Subframe` or `SubframePlanar`. -/
inductive SubframeRequest where
  | packed (area : SubframeArea)
  | planar (area : SubframeArea) (relOffsetU relOffsetV newPitchUV : ℤ)
  | alpha (area : SubframeArea) (relOffsetU relOffsetV newPitchUV relOffsetA : ℤ)

/-- The test of the offsets and pitches, which must be multiples of the alignment. -/
def SubframeRequest.Aligned (frameAlign : ℤ) : SubframeRequest → Prop
  | packed area => frameAlign ∣ area.newPitch ∧ frameAlign ∣ area.relOffset
  | planar area relOffsetU relOffsetV newPitchUV =>
    frameAlign ∣ area.relOffset ∧ frameAlign ∣ area.newPitch ∧ frameAlign ∣ relOffsetU ∧
      frameAlign ∣ relOffsetV ∧ frameAlign ∣ newPitchUV
  | alpha area relOffsetU relOffsetV newPitchUV relOffsetA =>
    frameAlign ∣ area.relOffset ∧ frameAlign ∣ area.newPitch ∧ frameAlign ∣ relOffsetU ∧
      frameAlign ∣ relOffsetV ∧ frameAlign ∣ newPitchUV ∧ frameAlign ∣ relOffsetA

instance (frameAlign : ℤ) (request : SubframeRequest) : Decidable (request.Aligned frameAlign) := by
  cases request <;> unfold SubframeRequest.Aligned <;> infer_instance

namespace FrameObject

variable (x : FrameObject) (area : SubframeArea)

/-- The pixel type of a frame with the first plane only. -/
def firstPlaneType : PixelType :=
  if IsPlanar x.pixelType then csGenericY ||| (x.pixelType &&& csSampleBitsMask) else x.pixelType

/-- The pixel type of a frame without the alpha plane. -/
def opaqueType : PixelType :=
  if IsYUVA x.pixelType then (x.pixelType &&& ~~~csYUVA) ||| csYUV
  else if HasFlag x.pixelType csRGBAType then (x.pixelType &&& ~~~csRGBAType) ||| csRGBType
  else x.pixelType

/-- The chroma planes keep their size relative to the first plane. -/
def scaledUV (rowSizeUV rowSize newRowSize : ℤ) : ℤ :=
  if rowSize = 0 then 0 else mulDiv newRowSize rowSizeUV rowSize

/-- `VideoFrame::Subframe`. -/
def subframe : SubframeRequest → FrameObject
  | .packed area =>
    { vfb := x.vfb
      pixelType := x.firstPlaneType
      layout :=
        { offset := i32 (x.layout.offset + area.relOffset)
          pitch := area.newPitch
          rowSize := area.newRowSize
          height := area.newHeight
          offsetU := i32 (x.layout.offset + area.relOffset)
          offsetV := i32 (x.layout.offset + area.relOffset)
          pitchUV := 0
          rowSizeUV := 0
          heightUV := 0
          offsetA := 0
          rowSizeA := 0
          pitchA := 0 } }
  | .planar area relOffsetU relOffsetV newPitchUV =>
    { vfb := x.vfb
      pixelType := x.opaqueType
      layout :=
        { offset := i32 (x.layout.offset + area.relOffset)
          pitch := area.newPitch
          rowSize := area.newRowSize
          height := area.newHeight
          offsetU := i32 (relOffsetU + x.layout.offsetU)
          offsetV := i32 (relOffsetV + x.layout.offsetV)
          pitchUV := newPitchUV
          rowSizeUV := scaledUV x.layout.rowSizeUV x.layout.rowSize area.newRowSize
          heightUV := scaledUV x.layout.heightUV x.layout.height area.newHeight
          offsetA := 0
          rowSizeA := 0
          pitchA := 0 } }
  | .alpha area relOffsetU relOffsetV newPitchUV relOffsetA =>
    { vfb := x.vfb
      pixelType := x.pixelType
      layout :=
        { offset := i32 (x.layout.offset + area.relOffset)
          pitch := area.newPitch
          rowSize := area.newRowSize
          height := area.newHeight
          offsetU := i32 (x.layout.offsetU + relOffsetU)
          offsetV := i32 (x.layout.offsetV + relOffsetV)
          pitchUV := newPitchUV
          rowSizeUV := scaledUV x.layout.rowSizeUV x.layout.rowSize area.newRowSize
          heightUV := scaledUV x.layout.heightUV x.layout.height area.newHeight
          offsetA := i32 (x.layout.offsetA + relOffsetA)
          rowSizeA := area.newRowSize
          pitchA := area.newPitch } }

/-- The `Subframe` by which `MakePropertyWritable` makes another frame of the whole. -/
def whole : SubframeRequest :=
  let area : SubframeArea :=
    ⟨0, x.layout.getPitch .y, x.layout.getRowSize .y, x.layout.getHeight .y⟩
  if x.layout.getPitch .a ≠ 0 then .alpha area 0 0 (x.layout.getPitch .u) 0
  else if x.layout.getPitch .u ≠ 0 then .planar area 0 0 (x.layout.getPitch .u)
  else .packed area

/-- The frame that `MakeWritable` asks for: one with planes if there is a U plane. -/
def copyShape : FrameShape :=
  if x.layout.getPitch .u ≠ 0 then
    .planar (x.layout.getRowSize .y) (x.layout.getHeight .y) (x.layout.getRowSize .u)
      (x.layout.getHeight .u) false (x.layout.getPitch .a ≠ 0)
  else .packed (x.layout.getRowSize .y) (x.layout.getHeight .y)

/-- The contents of one plane are copied into another buffer. -/
def copyPlane (dst : FrameLayout) (origin : ℤ → UInt8) (c : Channel) (memory : ℤ → UInt8) :
    ℤ → UInt8 :=
  bitBlt memory (dst.getOffset c) (dst.getPitch c) origin (x.layout.getOffset c)
    (x.layout.getPitch c) (x.layout.getRowSize c) (x.layout.getHeight c)

/-- The contents of all planes are copied. -/
def copyPlanes (dst : FrameLayout) (origin memory : ℤ → UInt8) : ℤ → UInt8 :=
  let memory := x.copyPlane dst origin .y memory
  let memory := x.copyPlane dst origin .v memory
  let memory := x.copyPlane dst origin .u memory
  if x.layout.getPitch .a ≠ 0 then x.copyPlane dst origin .a memory else memory

end FrameObject

/-- A picture: its pixel type, the sizes of its planes and their bytes. -/
@[ext]
structure Picture where
  pixelType : PixelType
  rowSize : Channel → ℤ
  height : Channel → ℤ
  sample : Channel → ℤ → ℤ → Option UInt8

/-- The picture that a frame shows of a buffer. -/
def FrameObject.picture (x : FrameObject) (memory : ℤ → UInt8) : Picture where
  pixelType := x.pixelType
  rowSize := x.layout.getRowSize
  height := x.layout.getHeight
  sample c row column :=
    if 0 ≤ row ∧ row < x.layout.getHeight c ∧ 0 ≤ column ∧ column < x.layout.getRowSize c then
      some (memory (x.layout.getOffset c + x.layout.getPitch c * row + column))
    else none

/-- Frames, buffers, property maps, and the variables that hold pointers to frames. -/
structure SharedFrames (V : Type) where
  frames : RefHeap FrameObject
  vfbs : RefHeap (ℤ → UInt8)
  properties : MapSystem ℕ V
  handles : AList fun _ : ℕ => ℕ

/-- How properties are changed. -/
inductive PropChange (V : Type) where
  | set (key : String) (propType : AVSPropertyType) (val : V) (mode : AVSPropAppendMode)
  | setArray (key : String) (propType : AVSPropertyType) (vals : List V) (size : ℤ)
  | deleteKey (key : String)
  | clear
  /-- The properties of another frame are added. -/
  | copy (src : ℕ)
  /-- `copyFrameProps`. -/
  | assign (src : ℕ)

/-- What is done with a variable that holds a pointer to a frame. -/
inductive HandleAction (V : Type) where
  /-- `NewVideoFrame`, with the address and the contents of the buffer that it gets. -/
  | newFrame (dst : ℕ) (shape : {shape : FrameShape // shape.Positive}) (pixelType : PixelType)
      (buffer : ℕ × (ℤ → UInt8))
  | copy (dst src : ℕ)
  | release (dst : ℕ)
  | subframe (dst src : ℕ) (request : SubframeRequest)
  /-- `MakeWritable`, with the buffer that it gets, if any. -/
  | makeWritable (dst : ℕ) (buffer : Option (ℕ × (ℤ → UInt8)))
  | makePropertyWritable (dst : ℕ)
  /-- The pixels of a frame that is found writable are changed. -/
  | write (dst : ℕ) (memory : ℤ → UInt8)
  /-- The properties of a frame that is found property-writable are changed. -/
  | change (dst : ℕ) (change : PropChange V)

/-- The variable that an action sets or works through. -/
def HandleAction.target {V : Type} : HandleAction V → ℕ
  | newFrame dst _ _ _ | copy dst _ | release dst | subframe dst _ _ | makeWritable dst _
  | makePropertyWritable dst | write dst _ | change dst _ => dst

/-- What an action reports. -/
inductive HandleEvent where
  /-- The result of `MakeWritable` or `MakePropertyWritable`. -/
  | made (copied : Bool)
  | thrown
  | quiet
  deriving DecidableEq

namespace SharedFrames

section Counts

variable {V : Type} (s : SharedFrames V)

/-- `IsPropertyWritable`. -/
def IsPropertyWritable (p : ℕ) : Prop := s.frames.Unique p
  deriving Decidable

/-- `IsWritable`. -/
def IsWritable (p : ℕ) : Prop :=
  s.frames.Unique p ∧ ((s.frames.get p).any fun x => s.vfbs.Unique x.vfb) = true
  deriving Decidable

/-- `propNumKeys`. -/
def propNumKeys (p : ℕ) : ℕ :=
  match (s.properties.maps.lookup p).bind s.properties.heap.storages.get with
  | none => 0
  | some st => st.data.entries.length

end Counts

variable {V : Type} [Inhabited V] (settings : AlignmentSettings) (chromaAlignment : Bool)
  (s : SharedFrames V)

/-- An operation on property maps. -/
def onProperties (a : MapAction ℕ V) : Option (SharedFrames V) :=
  (s.properties.step a).map fun r => { s with properties := r.1 }

/-- `Release`. With its last pointer, a frame lets go of its buffer and of its map. -/
def releaseFrame (p : ℕ) : Option (SharedFrames V) :=
  match s.frames.release p with
  | (none, frames) => some { s with frames := frames }
  | (some x, frames) =>
    onProperties { s with frames := frames, vfbs := (s.vfbs.release x.vfb).2 } (.destroy p)

/-- A frame object is constructed on a buffer that counts it already, with a map of
its own, and a first pointer to it is made. It gets the properties of `src`. -/
def addFrame (x : FrameObject) (src : Option ℕ) : Option (SharedFrames V) :=
  (s.onProperties (.create s.frames.fresh)).bind fun t =>
    let t : SharedFrames V := { t with frames := s.frames.alloc x }
    match src with
    | none => some t
    | some q => t.onProperties (.assign s.frames.fresh q)

/-- Another frame on the buffer of `x`, with the properties of `p` if it has any. -/
def derive (p : ℕ) (x : FrameObject) : Option (SharedFrames V) :=
  addFrame { s with vfbs := s.vfbs.addRef x.vfb } x (if 0 < s.propNumKeys p then some p else none)

/-- The variable points to another frame from now on. -/
def assignHandle (dst p old : ℕ) : Option (SharedFrames V) :=
  releaseFrame { s with handles := s.handles.insert dst p } old

/-- `MakeWritable` of a frame that is not writable. A buffer of a size that does not
fit an `int` is refused. -/
def copyFrame (dst p : ℕ) (x : FrameObject) (data : ℕ) (contents : ℤ → UInt8) :
    Option (SharedFrames V × HandleEvent) :=
  let plan := x.copyShape.plan settings chromaAlignment settings.frameAlign
  let layout := x.copyShape.layout plan data
  if 2 ^ 31 - 1 < plan.size then some (s, .thrown)
  else
    (s.vfbs.get x.vfb).bind fun origin =>
      (addFrame { s with vfbs := s.vfbs.alloc (x.copyPlanes layout origin contents) }
        ⟨s.vfbs.fresh, layout, x.pixelType⟩ (some p)).bind fun t =>
          (t.assignHandle dst s.frames.fresh p).map (·, .made true)

/-- The operation on the frame's map by which properties are changed. -/
def PropChange.action (p : ℕ) : PropChange V → Option (MapAction ℕ V)
  | .set key propType val mode => some (.propSet p key propType val mode)
  | .setArray key propType vals size => some (.propSetArray p key propType vals size)
  | .deleteKey key => some (.deleteKey p key)
  | .clear => some (.clear p)
  | .copy src => (s.handles.lookup src).map (.copy p)
  | .assign src => (s.handles.lookup src).map (.assign p)

/-- One action. A variable is not set while it holds a pointer, except by the calls
that replace it. -/
def step (a : HandleAction V) : Option (SharedFrames V × HandleEvent) :=
  match a with
  | .newFrame dst shape pixelType (data, contents) =>
    let plan := shape.1.plan settings chromaAlignment settings.frameAlign
    if (s.handles.lookup dst).isSome then none
    else if 2 ^ 31 - 1 < plan.size then some (s, .thrown)
    else
      (addFrame { s with vfbs := s.vfbs.alloc contents }
        ⟨s.vfbs.fresh, shape.1.layout plan data, pixelType⟩ none).map fun t =>
          ({ t with handles := t.handles.insert dst s.frames.fresh }, .quiet)
  | .copy dst src =>
    if (s.handles.lookup dst).isSome then none
    else (s.handles.lookup src).map fun p =>
      ({ s with frames := s.frames.addRef p, handles := s.handles.insert dst p }, .quiet)
  | .release dst =>
    (s.handles.lookup dst).bind fun p =>
      (releaseFrame { s with handles := s.handles.erase dst } p).map (·, .quiet)
  | .subframe dst src request =>
    if (s.handles.lookup dst).isSome then none
    else if ¬request.Aligned settings.frameAlign then
      (s.handles.lookup src).map fun _ => (s, .thrown)
    else
      (s.handles.lookup src).bind fun p =>
        (s.frames.get p).bind fun x =>
          (s.derive p (x.subframe request)).map fun t =>
            ({ t with handles := t.handles.insert dst s.frames.fresh }, .quiet)
  | .makeWritable dst buffer =>
    (s.handles.lookup dst).bind fun p =>
      if s.IsWritable p then some (s, .made false)
      else
        match buffer with
        | none => some (s, .thrown)
        | some (data, contents) =>
          (s.frames.get p).bind fun x =>
            s.copyFrame settings chromaAlignment dst p x data contents
  | .makePropertyWritable dst =>
    (s.handles.lookup dst).bind fun p =>
      if s.IsPropertyWritable p then some (s, .made false)
      else
        (s.frames.get p).bind fun x =>
          (s.derive p (x.subframe x.whole)).bind fun t =>
            (t.assignHandle dst s.frames.fresh p).map (·, .made true)
  | .write dst memory =>
    (s.handles.lookup dst).bind fun p =>
      if s.IsWritable p then
        (s.frames.get p).map fun x =>
          ({ s with vfbs := s.vfbs.put x.vfb memory }, .quiet)
      else none
  | .change dst change =>
    (s.handles.lookup dst).bind fun p =>
      if s.IsPropertyWritable p then
        (PropChange.action s p change).bind fun a => (s.onProperties a).map (·, .quiet)
      else none

/-- No frames. -/
def start : SharedFrames V := ⟨∅, ∅, MapSystem.start, ∅⟩

end SharedFrames

end AviSynth
