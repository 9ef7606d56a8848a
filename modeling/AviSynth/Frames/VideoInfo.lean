import AviSynth.Library.Alignment
import AviSynth.Library.MachineInt

/-!
# Pixel types and the sizes of planes

A pixel type is a bit field: a family of formats, the chroma subsampling, the
order of the chroma planes and the size of a sample. `VideoInfo` computes the
size of a row and the subsampling of a plane from it, in 32 bits.
-/

namespace AviSynth

open MachineInt

/-- The pixel types of `VideoInfo`, with the bits of the source. -/
abbrev PixelType := BitVec 32

instance : LawfulBEq PixelType := inferInstance

namespace PixelType

/-! The bits of the color spaces, and the color spaces. -/

def csYUVA : PixelType := 1 <<< 27
def csBGR : PixelType := 1 <<< 28
def csYUV : PixelType := 1 <<< 29
def csInterleaved : PixelType := 1 <<< 30
def csPlanar : PixelType := 1 <<< 31

/-- The positions of the subsampling and of the sample size. -/
def csShiftSubWidth : ℕ := 0
def csShiftSubHeight : ℕ := 8
def csShiftSampleBits : ℕ := 16

def csSubWidth1 : PixelType := 3 <<< csShiftSubWidth
def csSubWidth2 : PixelType := 0 <<< csShiftSubWidth
def csSubWidth4 : PixelType := 1 <<< csShiftSubWidth
def csVPlaneFirst : PixelType := 1 <<< 3
def csUPlaneFirst : PixelType := 1 <<< 4
def csSubHeight1 : PixelType := 3 <<< csShiftSubHeight
def csSubHeight2 : PixelType := 0 <<< csShiftSubHeight

def csSampleBits8 : PixelType := 0 <<< csShiftSampleBits
def csSampleBits10 : PixelType := 5 <<< csShiftSampleBits
def csSampleBits12 : PixelType := 6 <<< csShiftSampleBits
def csSampleBits14 : PixelType := 7 <<< csShiftSampleBits
def csSampleBits16 : PixelType := 1 <<< csShiftSampleBits
def csSampleBits32 : PixelType := 2 <<< csShiftSampleBits

/-- `CS_Sample_Bits_Mask`. -/
def csSampleBitsMask : PixelType := 7 <<< csShiftSampleBits

def csRGBType : PixelType := 1 <<< 0
def csRGBAType : PixelType := 1 <<< 1

def csUnknown : PixelType := 0
def csBGR24 : PixelType := csRGBType ||| csBGR ||| csInterleaved
def csBGR32 : PixelType := csRGBAType ||| csBGR ||| csInterleaved
def csYUY2 : PixelType := 1 <<< 2 ||| csYUV ||| csInterleaved
def csRaw32 : PixelType := 1 <<< 5 ||| csInterleaved
def csBGR48 : PixelType := csBGR24 ||| csSampleBits16
def csBGR64 : PixelType := csBGR32 ||| csSampleBits16

def csGenericYUV444 : PixelType :=
  csPlanar ||| csYUV ||| csVPlaneFirst ||| csSubWidth1 ||| csSubHeight1
def csGenericYUV422 : PixelType :=
  csPlanar ||| csYUV ||| csVPlaneFirst ||| csSubWidth2 ||| csSubHeight1
def csGenericYUV420 : PixelType :=
  csPlanar ||| csYUV ||| csVPlaneFirst ||| csSubWidth2 ||| csSubHeight2
def csGenericY : PixelType := csPlanar ||| csInterleaved ||| csYUV
def csGenericRGBP : PixelType := csPlanar ||| csBGR ||| csRGBType
def csGenericRGBAP : PixelType := csPlanar ||| csBGR ||| csRGBAType
def csGenericYUVA444 : PixelType :=
  csPlanar ||| csYUVA ||| csVPlaneFirst ||| csSubWidth1 ||| csSubHeight1
def csGenericYUVA422 : PixelType :=
  csPlanar ||| csYUVA ||| csVPlaneFirst ||| csSubWidth2 ||| csSubHeight1
def csGenericYUVA420 : PixelType :=
  csPlanar ||| csYUVA ||| csVPlaneFirst ||| csSubWidth2 ||| csSubHeight2

def csI420 : PixelType :=
  csPlanar ||| csYUV ||| csSampleBits8 ||| csUPlaneFirst ||| csSubWidth2 ||| csSubHeight2
def csYV411 : PixelType :=
  csPlanar ||| csYUV ||| csSampleBits8 ||| csVPlaneFirst ||| csSubWidth4 ||| csSubHeight1
def csY8 : PixelType := csGenericY ||| csSampleBits8
def csYV12 : PixelType := csGenericYUV420 ||| csSampleBits8

/-- The sample sizes of a family: 8 to 16 bits, and 32 bits float. -/
def sampleBits : List PixelType :=
  [csSampleBits8, csSampleBits10, csSampleBits12, csSampleBits14, csSampleBits16, csSampleBits32]

/-- The greyscale types, `CS_Y8` to `CS_Y32`. -/
def greyscale : List PixelType := sampleBits.map (csGenericY ||| ·)

/-- The types that `NewVideoFrameOnDevice` makes frames of: some of their own, and
every sample size of the families. -/
def supported : List PixelType :=
  [csBGR24, csBGR32, csYUY2, csYV411, csI420, csBGR48, csBGR64] ++
    [csGenericYUV420, csGenericYUV422, csGenericYUV444, csGenericY, csGenericRGBP, csGenericRGBAP,
      csGenericYUVA420, csGenericYUVA422, csGenericYUVA444].flatMap
      fun family => sampleBits.map (family ||| ·)

/-- The type has a bit in common with the flag. -/
def HasFlag (t flag : PixelType) : Prop := t &&& flag ≠ 0
  deriving Decidable

def IsPlanar (t : PixelType) : Prop := HasFlag t csPlanar
  deriving Decidable
def IsYUV (t : PixelType) : Prop := HasFlag t csYUV
  deriving Decidable
def IsYUVA (t : PixelType) : Prop := HasFlag t csYUVA
  deriving Decidable
def IsYUY2 (t : PixelType) : Prop := t &&& csYUY2 = csYUY2
  deriving Decidable
def IsPlanarRGB (t : PixelType) : Prop := HasFlag t csPlanar ∧ HasFlag t csBGR ∧ HasFlag t csRGBType
  deriving Decidable
def IsPlanarRGBA (t : PixelType) : Prop :=
  HasFlag t csPlanar ∧ HasFlag t csBGR ∧ HasFlag t csRGBAType
  deriving Decidable

/-- `NumComponents`. -/
def numComponents (t : PixelType) : ℕ :=
  if t = csUnknown then 0
  else if t = csRaw32 ∨ t ∈ greyscale then 1
  else if t = csBGR32 ∨ t = csBGR64 then 4
  else if IsYUVA t ∨ IsPlanarRGBA t then 4 else 3

/-- There are several planes, so that the first one has a row size of its own. -/
def HasPlanes (t : PixelType) : Prop := 1 < numComponents t ∧ IsPlanar t
  deriving Decidable

/-- `IsVPlaneFirst`. -/
def IsVPlaneFirst (t : PixelType) : Prop :=
  HasPlanes t ∧ t &&& (csVPlaneFirst ||| csUPlaneFirst) = csVPlaneFirst
  deriving Decidable

/-- The table `componentSizes` at the sample size of the type. -/
def componentSize (t : PixelType) : ℤ :=
  [1, 2, 4, 0, 0, 2, 2, 2].getD (t >>> csShiftSampleBits &&& 7).toNat 0

/-- `GetPlaneWidthSubsampling` and `GetPlaneHeightSubsampling` of a chroma plane,
as a shift. -/
def getPlaneSubsampling (t : PixelType) (shift yuy2 : ℕ) (name : String) : Except String ℕ :=
  if numComponents t = 1 then
    throw s!"Filter error: {name} not available on greyscale pixel type."
  else if IsYUY2 t then pure yuy2
  else if IsPlanar t then pure ((t >>> shift) + 1 &&& 3).toNat
  else throw s!"Filter error: {name} called with unsupported pixel type."

def getPlaneWidthSubsampling (t : PixelType) : Except String ℕ :=
  getPlaneSubsampling t csShiftSubWidth 1 "GetPlaneWidthSubsampling"

def getPlaneHeightSubsampling (t : PixelType) : Except String ℕ :=
  getPlaneSubsampling t csShiftSubHeight 0 "GetPlaneHeightSubsampling"

/-- `BitsPerPixel`. -/
def bitsPerPixel (t : PixelType) : Except String ℤ :=
  if t = csBGR24 then pure 24
  else if t = csBGR32 then pure 32
  else if t = csYUY2 then pure 16
  else if t ∈ greyscale then pure (componentSize t * 8)
  else if t = csBGR48 then pure 48
  else if t = csBGR64 then pure 64
  else if IsPlanar t then do
    let subsampling ←
      if IsYUV t ∨ IsYUVA t then do
        pure ((← getPlaneWidthSubsampling t) + (← getPlaneHeightSubsampling t))
      else pure 0
    let fullSizePlaneCount : ℤ := if IsYUVA t ∨ IsPlanarRGBA t then 2 else 1
    pure (((fullSizePlaneCount * 2 ^ subsampling + 2) * componentSize t * 8) / 2 ^ subsampling)
  else pure 0

/-- The size of a pixel of the first plane, or of the only one. -/
def bytesPerPixel (t : PixelType) : Except String ℤ :=
  if HasPlanes t then pure (componentSize t) else do pure ((← bitsPerPixel t) / 2 ^ 3)

end PixelType

/-- The size and the format of a frame. -/
structure VideoInfo where
  width : ℤ
  height : ℤ
  pixelType : PixelType

namespace VideoInfo

open PixelType

/-- `BytesFromPixels`. -/
def bytesFromPixels (vi : VideoInfo) (pixels : ℤ) : Except String ℤ := do
  pure (i32 (pixels * (← bytesPerPixel vi.pixelType)))

/-- `RowSize` of the first plane. -/
def rowSize (vi : VideoInfo) : Except String ℤ := vi.bytesFromPixels vi.width

/-- `RowSize` of `PLANAR_U`. -/
def rowSizeU (vi : VideoInfo) : Except String ℤ := do
  let rowsize ← vi.rowSize
  if HasPlanes vi.pixelType ∧ ¬IsPlanarRGB vi.pixelType ∧ ¬IsPlanarRGBA vi.pixelType then
    pure (rowsize / 2 ^ (← getPlaneWidthSubsampling vi.pixelType))
  else pure 0

/-- `RowSize` of `PLANAR_G`. -/
def rowSizeG (vi : VideoInfo) : Except String ℤ := do
  let rowsize ← vi.rowSize
  if 1 < numComponents vi.pixelType ∧
      (IsPlanarRGB vi.pixelType ∨ IsPlanarRGBA vi.pixelType) then pure rowsize
  else pure 0

end VideoInfo

/-!
## Where the planes of a new frame lie in its buffer

`NewPlanarVideoFrame` computes pitches and sizes before it asks for a buffer, and
the offsets of the planes when it has one. Products and sums are computed in 32
bits, the total size in 64.
-/

open Alignment PixelType

/-- The alignments of an environment: of rows, and of the sizes of planes. -/
structure AlignmentSettings where
  frameAlign : ℤ
  planeAlign : ℤ
  frameAlign_pow2 : IsPow2 frameAlign
  planeAlign_pow2 : IsPow2 planeAlign
  frameAlign_ge : 64 ≤ frameAlign
  frameAlign_le : frameAlign ≤ 2 ^ 30
  planeAlign_le : planeAlign ≤ 2 ^ 30

/-- `AlignNumber` on `int`, for a power of two. -/
def alignNumber (n align : ℤ) : ℤ := i32 (n + align - 1) - i32 (n + align - 1) % align

/-- The value converted to `size_t`. -/
def sizeT (x : ℤ) : ℕ := (x % 2 ^ 64).toNat

/-- The arguments of `NewPlanarVideoFrame`, and of `NewVideoFrameOnDevice` without
a `VideoInfo`. -/
inductive FrameShape where
  | planar (rowSize height rowSizeUV heightUV : ℤ) (uFirst alpha : Bool)
  | packed (rowSize height : ℤ)
  deriving DecidableEq

/-- What is computed before a buffer is there. -/
structure FramePlan where
  align : ℤ
  pitch : ℤ
  pitchUV : ℤ
  sizeY : ℤ
  sizeUV : ℤ
  size : ℕ

/-- The fields of the frame that say where its planes are. -/
structure FrameLayout where
  offset : ℤ
  pitch : ℤ
  rowSize : ℤ
  height : ℤ
  offsetU : ℤ
  offsetV : ℤ
  pitchUV : ℤ
  rowSizeUV : ℤ
  heightUV : ℤ
  offsetA : ℤ
  rowSizeA : ℤ
  pitchA : ℤ

/-- One plane of a frame. -/
structure Plane where
  offset : ℤ
  pitch : ℤ
  rowSize : ℤ
  height : ℤ

/-- The alignment that is used for a requested one. -/
def AlignmentSettings.effective (settings : AlignmentSettings) (align : ℤ) : ℤ :=
  max (if align < 0 then -align else align) settings.frameAlign

namespace FrameShape

variable (settings : AlignmentSettings) (chromaAlignment : Bool) (align : ℤ)

/-- Chroma rows are packed as in the 2.5 series: they get half the pitch of the
luma rows. -/
def PacksChroma (rowSize height rowSizeUV heightUV : ℤ) : Prop :=
  chromaAlignment = false ∧ rowSize = i32 (rowSizeUV * 2) ∧ height = i32 (heightUV * 2)
  deriving Decidable

/-- `NewPlanarVideoFrame` and `NewVideoFrameOnDevice` up to the call of `GetNewFrame`. -/
def plan : FrameShape → FramePlan
  | planar rowSize height rowSizeUV heightUV _ alpha =>
    let align := settings.effective align
    let pitchY := alignNumber rowSize align
    let pitchUV :=
      if PacksChroma chromaAlignment rowSize height rowSizeUV heightUV then i32 (pitchY + 1) / 2
      else alignNumber rowSizeUV align
    let sizeY := alignNumber (i32 (pitchY * height)) settings.planeAlign
    let sizeUV := alignNumber (i32 (pitchUV * heightUV)) settings.planeAlign
    ⟨align, pitchY, pitchUV, sizeY, sizeUV,
      sizeT (sizeY + 2 * sizeUV + if alpha then sizeY else 0)⟩
  | packed rowSize height =>
    let align := settings.effective align
    let pitch := alignNumber rowSize align
    ⟨align, pitch, 0, i32 (pitch * height), 0, sizeT (i32 (pitch * height))⟩

/-- What they do with the buffer that `GetNewFrame` has found at `data`. -/
def layout (p : FramePlan) (data : ℕ) : FrameShape → FrameLayout
  | planar rowSize height rowSizeUV heightUV uFirst alpha =>
    let offsetY := i32 (roundUp data p.align - data)
    let second := i32 (offsetY + p.sizeY)
    let third := i32 (i32 (offsetY + p.sizeY) + p.sizeUV)
    { offset := offsetY
      pitch := p.pitch
      rowSize := rowSize
      height := height
      offsetU := if uFirst then second else third
      offsetV := if uFirst then third else second
      pitchUV := p.pitchUV
      rowSizeUV := rowSizeUV
      heightUV := heightUV
      offsetA := if alpha then i32 (third + p.sizeUV) else 0
      rowSizeA := if alpha then rowSize else 0
      pitchA := if alpha then p.pitch else 0 }
  | packed rowSize height =>
    let offset := i32 (roundUp data p.align - data)
    { offset := offset
      pitch := p.pitch
      rowSize := rowSize
      height := height
      offsetU := offset
      offsetV := offset
      pitchUV := 0
      rowSizeUV := 0
      heightUV := 0
      offsetA := 0
      rowSizeA := 0
      pitchA := 0 }

end FrameShape

/-- The planes that a frame has: the chroma planes and the alpha plane if they have
a pitch. -/
def FrameLayout.planes (l : FrameLayout) : List Plane :=
  ⟨l.offset, l.pitch, l.rowSize, l.height⟩ ::
    (if l.pitchUV = 0 then [] else
      [⟨l.offsetU, l.pitchUV, l.rowSizeUV, l.heightUV⟩,
        ⟨l.offsetV, l.pitchUV, l.rowSizeUV, l.heightUV⟩]) ++
    if l.pitchA = 0 then [] else [⟨l.offsetA, l.pitchA, l.rowSizeA, l.height⟩]

/-- `NewVideoFrameOnDevice` with a `VideoInfo`, up to the call of the functions
that lay the frame out. -/
def VideoInfo.newVideoFrameOnDevice (vi : VideoInfo) : Except String FrameShape :=
  let t := vi.pixelType
  if t ∉ supported then
    throw "Filter Error: Filter attempted to create VideoFrame with invalid pixel_type."
  else if IsPlanar t ∧ 1 < numComponents t then
    if IsYUV t ∨ IsYUVA t then do
      let width ← getPlaneWidthSubsampling t
      let xmod : ℤ := 2 ^ width
      if vi.width % xmod ≠ 0 then
        throw s!"Filter Error: Attempted to request a planar frame that wasn't mod{xmod} in width!"
      else do
        let height ← getPlaneHeightSubsampling t
        let ymod : ℤ := 2 ^ height
        if vi.height % ymod ≠ 0 then
          throw
            s!"Filter Error: Attempted to request a planar frame that wasn't mod{ymod} in height!"
        else do
          pure (.planar (← vi.rowSize) vi.height (← vi.rowSizeU) (vi.height / 2 ^ height)
            (!IsVPlaneFirst t) (IsYUVA t))
    else do
      -- plane order: G, B, R
      pure (.planar (← vi.rowSizeG) vi.height (← vi.rowSizeG) vi.height (!IsVPlaneFirst t)
        (IsPlanarRGBA t))
  else if vi.width % 2 ≠ 0 ∧ IsYUY2 t then
    throw "Filter Error: Attempted to request an YUY2 frame that wasn't mod2 in width."
  else do
    pure (.packed (← vi.rowSize) vi.height)

/-- What a frame is requested by: a `VideoInfo`, or the sizes of its rows. -/
inductive NewFrameRequest where
  | video (vi : VideoInfo) (align : ℤ)
  | sizes (shape : FrameShape) (align : ℤ)

namespace NewFrameRequest

/-- The requested alignment; a negative one asks for forced alignment. -/
def align : NewFrameRequest → ℤ
  | video _ align | sizes _ align => align

/-- The arguments that the frame is laid out by. -/
def resolve : NewFrameRequest → Except String FrameShape
  | video vi _ => vi.newVideoFrameOnDevice
  | sizes shape _ => pure shape

end NewFrameRequest

end AviSynth
