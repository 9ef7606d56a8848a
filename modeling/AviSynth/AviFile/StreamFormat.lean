import AviSynth.Frames.VideoInfo

/-!
# The format of an exported stream

A clip is served to the video functions of the system as a stream of bitmaps.
`Info`, `ReadFormat` and `Read2` compute from the clip and from options of the
script what format the bitmaps have and how many bytes one takes.
-/

namespace AviSynth

open MachineInt

namespace PixelType

/-! Further color spaces. -/

def csYV24 : PixelType := csGenericYUV444 ||| csSampleBits8
def csYV16 : PixelType := csGenericYUV422 ||| csSampleBits8
def csYUV420P10 : PixelType := csGenericYUV420 ||| csSampleBits10
def csYUV420P12 : PixelType := csGenericYUV420 ||| csSampleBits12
def csYUV420P14 : PixelType := csGenericYUV420 ||| csSampleBits14
def csYUV420P16 : PixelType := csGenericYUV420 ||| csSampleBits16
def csYUV420PS : PixelType := csGenericYUV420 ||| csSampleBits32
def csYUV422P10 : PixelType := csGenericYUV422 ||| csSampleBits10
def csYUV422P12 : PixelType := csGenericYUV422 ||| csSampleBits12
def csYUV422P14 : PixelType := csGenericYUV422 ||| csSampleBits14
def csYUV422P16 : PixelType := csGenericYUV422 ||| csSampleBits16
def csYUV422PS : PixelType := csGenericYUV422 ||| csSampleBits32
def csYUV444P10 : PixelType := csGenericYUV444 ||| csSampleBits10
def csYUV444P12 : PixelType := csGenericYUV444 ||| csSampleBits12
def csYUV444P14 : PixelType := csGenericYUV444 ||| csSampleBits14
def csYUV444P16 : PixelType := csGenericYUV444 ||| csSampleBits16
def csYUV444PS : PixelType := csGenericYUV444 ||| csSampleBits32
def csYUVA444 : PixelType := csGenericYUVA444 ||| csSampleBits8
def csYUVA444P10 : PixelType := csGenericYUVA444 ||| csSampleBits10
def csYUVA444P12 : PixelType := csGenericYUVA444 ||| csSampleBits12
def csYUVA444P14 : PixelType := csGenericYUVA444 ||| csSampleBits14
def csYUVA444P16 : PixelType := csGenericYUVA444 ||| csSampleBits16
def csYUVA444PS : PixelType := csGenericYUVA444 ||| csSampleBits32
def csRGBP : PixelType := csGenericRGBP ||| csSampleBits8
def csRGBP10 : PixelType := csGenericRGBP ||| csSampleBits10
def csRGBP12 : PixelType := csGenericRGBP ||| csSampleBits12
def csRGBP14 : PixelType := csGenericRGBP ||| csSampleBits14
def csRGBP16 : PixelType := csGenericRGBP ||| csSampleBits16
def csRGBAP : PixelType := csGenericRGBAP ||| csSampleBits8
def csRGBAP10 : PixelType := csGenericRGBAP ||| csSampleBits10
def csRGBAP12 : PixelType := csGenericRGBAP ||| csSampleBits12
def csRGBAP14 : PixelType := csGenericRGBAP ||| csSampleBits14
def csRGBAP16 : PixelType := csGenericRGBAP ||| csSampleBits16

def csSubWidthMask : PixelType := 7 <<< csShiftSubWidth
def csSubHeightMask : PixelType := 7 <<< csShiftSubHeight

/-- The bits that tell planar formats apart, and those that do not: the order of
the chroma planes. -/
def csPlanarMask : PixelType :=
  csPlanar ||| csInterleaved ||| csYUV ||| csBGR ||| csYUVA ||| csSampleBitsMask |||
    csSubWidthMask ||| csSubHeightMask
def csPlanarFilter : PixelType := ~~~(csVPlaneFirst ||| csUPlaneFirst)

/-- The type is the planar format, whatever the order of its chroma planes. -/
def IsFormat (t format : PixelType) : Prop := t &&& csPlanarMask = format &&& csPlanarFilter
  deriving Decidable

/-- The type is of the family, whatever its sample size. -/
def IsFamily (t family : PixelType) : Prop :=
  t &&& csPlanarMask &&& ~~~csSampleBitsMask = family &&& csPlanarFilter
  deriving Decidable

/-- The type is the packed format with the given sample size. -/
def IsPacked (t format bits : PixelType) : Prop :=
  t &&& format = format ∧ t &&& csSampleBitsMask = bits
  deriving Decidable

def IsRGB (t : PixelType) : Prop := HasFlag t csBGR
  deriving Decidable
def IsYV24 (t : PixelType) : Prop := IsFormat t csYV24
  deriving Decidable
def IsYV16 (t : PixelType) : Prop := IsFormat t csYV16
  deriving Decidable
def IsYV12 (t : PixelType) : Prop := IsFormat t csYV12
  deriving Decidable
def IsY8 (t : PixelType) : Prop := IsFormat t csY8
  deriving Decidable
def IsYV411 (t : PixelType) : Prop := IsFormat t csYV411
  deriving Decidable
def Is444 (t : PixelType) : Prop := IsFamily t csGenericYUV444 ∨ IsFamily t csGenericYUVA444
  deriving Decidable
def Is422 (t : PixelType) : Prop := IsFamily t csGenericYUV422 ∨ IsFamily t csGenericYUVA422
  deriving Decidable
def Is420 (t : PixelType) : Prop := IsFamily t csGenericYUV420 ∨ IsFamily t csGenericYUVA420
  deriving Decidable
def IsY (t : PixelType) : Prop := IsFamily t csGenericY
  deriving Decidable
def IsRGB24 (t : PixelType) : Prop := IsPacked t csBGR24 csSampleBits8
  deriving Decidable
def IsRGB32 (t : PixelType) : Prop := IsPacked t csBGR32 csSampleBits8
  deriving Decidable
def IsRGB48 (t : PixelType) : Prop := IsPacked t csBGR24 csSampleBits16
  deriving Decidable
def IsRGB64 (t : PixelType) : Prop := IsPacked t csBGR32 csSampleBits16
  deriving Decidable

/-- `BitsPerComponent`. -/
def bitsPerComponent (t : PixelType) : ℕ :=
  if t = csYUY2 then 8
  else if t = csRaw32 then 32
  else [8, 16, 32, 0, 0, 10, 12, 14].getD (t >>> csShiftSampleBits &&& 7).toNat 0

/-- Packed RGB, and the other formats whose scanlines are always padded as those of
bitmaps are. -/
def HasBitmapRows (t : PixelType) : Prop := (IsRGB t ∧ ¬IsPlanar t) ∨ IsYUY2 t ∨ IsY t
  deriving Decidable

end PixelType

open PixelType

/-- The planes of a frame. -/
inductive FramePlane where
  | y | u | v | g | b | r | a
  deriving DecidableEq

/-- The variables of a script that `CAVIFileSynth` reads. -/
structure AviOptions where
  vdubPlanarHack : Bool
  aviPadScanlines : Bool
  enableV210 : Bool
  enableB64a : Bool
  enableY3_10_10 : Bool
  enableY3_10_16 : Bool
  enablePlanarToPackedRGB : Bool
  deriving DecidableEq

/-- The packings that `AviHelper_ImageSize` is told about. -/
structure PackingFlags where
  v210 : Bool := false
  v410 : Bool := false
  r210 : Bool := false
  r10k : Bool := false
  v308 : Bool := false
  v408 : Bool := false
  y410 : Bool := false

section Sizes

/-!
The sizes are computed by an arithmetic that is a parameter: `i32` in the program,
the identity for the exact sizes.
-/

variable (wrap : ℤ → ℤ)

/-- `(x + 3) & ~3`. -/
def padTo4 (x : ℤ) : ℤ := wrap (x + 3) - wrap (x + 3) % 4

namespace VideoInfo

/-- `RowSize` of a plane. -/
def planeRowSize (vi : VideoInfo) (plane : FramePlane) : Except String ℤ := do
  let t := vi.pixelType
  let rowsize := wrap (vi.width * (← bytesPerPixel t))
  match plane with
  | .u | .v =>
    if HasPlanes t ∧ ¬IsPlanarRGB t ∧ ¬IsPlanarRGBA t then
      pure (rowsize / 2 ^ (← getPlaneWidthSubsampling t))
    else pure 0
  | .r | .g | .b =>
    pure (if 1 < numComponents t ∧ (IsPlanarRGB t ∨ IsPlanarRGBA t) then rowsize else 0)
  | .a => pure (if numComponents t = 4 ∧ IsPlanar t then rowsize else 0)
  | .y => pure rowsize

/-- `BMPSize`. -/
def bmpSize (vi : VideoInfo) : Except String ℤ := do
  let t := vi.pixelType
  if HasPlanes t then
    if IsPlanarRGB t ∨ IsPlanarRGBA t then
      let rowsize := padTo4 wrap (← vi.planeRowSize wrap .g)
      pure (wrap (wrap (rowsize * vi.height) * numComponents t))
    else
      let yBytes := wrap (padTo4 wrap (← vi.planeRowSize wrap .y) * vi.height)
      let shift := (← getPlaneWidthSubsampling t) + (← getPlaneHeightSubsampling t)
      let uvBytes := yBytes / 2 ^ shift
      pure (wrap (yBytes + wrap (uvBytes * 2)))
  else
    pure (wrap (vi.height * padTo4 wrap (← vi.planeRowSize wrap .y)))

end VideoInfo

/-- `AviHelper_ImageSize`. -/
def aviHelperImageSize (vi : VideoInfo) (aviPadScanlines : Bool) (flags : PackingFlags) :
    Except String ℤ := do
  let t := vi.pixelType
  if t = csYUV444P16 ∨ t = csYUVA444P16 then
    pure (wrap (vi.width * vi.height * 4 * 2))
  else if t = csRGBP10 ∧ flags.r210 then
    pure (wrap ((vi.width + 63) / 64 * 256 * vi.height))
  else if t = csRGBP10 ∧ flags.r10k then
    pure (wrap (vi.width * 4 * vi.height))
  else if t = csYV24 ∧ flags.v308 then
    pure (wrap (vi.width * vi.height * 3))
  else if t = csYUVA444 ∧ flags.v408 then
    pure (wrap (vi.width * vi.height * 4))
  else if t = csYUV444P10 ∧ flags.v410 then
    pure (wrap (vi.width * vi.height * 4))
  else if (t = csYUV444P10 ∨ t = csYUVA444P10) ∧ flags.y410 then
    pure (wrap (vi.width * vi.height * 4))
  else if t = csYUV422P10 ∧ flags.v210 then
    let row := wrap (wrap (16 * ((vi.width + 5) / 6)) + 127)
    pure (wrap ((row - row % 128) * vi.height))
  else if HasBitmapRows t ∨ aviPadScanlines then
    vi.bmpSize wrap
  else if IsPlanar t ∧ IsRGB t then do
    let plane := wrap ((← vi.planeRowSize wrap .g) * vi.height)
    pure (wrap (plane * if IsPlanarRGBA t then 4 else 3))
  else do
    let rowSizeU ← vi.planeRowSize wrap .u
    let chroma ←
      if rowSizeU ≠ 0 then do
        let shift ← getPlaneHeightSubsampling t
        pure (wrap (wrap (rowSizeU * vi.height) / 2 ^ shift * 2))
      else pure 0
    pure (wrap (chroma + wrap ((← vi.planeRowSize wrap .y) * vi.height)))

end Sizes

namespace AviOptions

/-- The type of the exported bitmaps, `vi_final` of `Info`, `ReadFormat` and `Read2`. -/
def finalType (o : AviOptions) (t : PixelType) : PixelType :=
  let converted :=
    if o.enablePlanarToPackedRGB ∧ (IsPlanarRGB t ∨ IsPlanarRGBA t) then
      if bitsPerComponent t = 8 then if IsPlanarRGB t then csBGR24 else csBGR32
      else csBGR64
    else t
  -- silent mapping of 12 and 14 bit YUV formats to 16 bit
  if t = csYUV420P12 ∨ t = csYUV420P14 ∨ t = csYUV420PS then csYUV420P16
  else if t = csYUV422P12 ∨ t = csYUV422P14 ∨ t = csYUV422PS then csYUV422P16
  else if t = csYUV444P10 ∨ t = csYUV444P12 ∨ t = csYUV444P14 ∨ t = csYUV444PS then csYUV444P16
  else if t = csYUVA444P10 ∨ t = csYUVA444P12 ∨ t = csYUVA444P14 ∨ t = csYUVA444PS then
    csYUVA444P16
  else converted

/-- `CAVIFileSynth::ImageSize`. -/
def imageSize (wrap : ℤ → ℤ) (o : AviOptions) (vi : VideoInfo) : Except String ℤ :=
  aviHelperImageSize wrap vi o.aviPadScanlines { v210 := o.enableV210 }

end AviOptions

/-- The clip with the type of the exported bitmaps. -/
def VideoInfo.final (vi : VideoInfo) (o : AviOptions) : VideoInfo :=
  { vi with pixelType := o.finalType vi.pixelType }

/-- `MAKEFOURCC`. -/
def makeFourCC (a b c d : Char) : ℕ :=
  a.toNat + b.toNat * 2 ^ 8 + c.toNat * 2 ^ 16 + d.toNat * 2 ^ 24

namespace FourCC

/-- What `Info` leaves in place for a type that it does not know, `'UNKN'`. -/
def unknown : ℕ := makeFourCC 'N' 'K' 'N' 'U'

/-- The handler of bitmaps with packed 8-bit RGB. -/
def dib : ℕ := makeFourCC 'D' 'I' 'B' ' '

/-- The compression in the header of such bitmaps. -/
def biRGB : ℕ := 0

def v210 : ℕ := makeFourCC 'v' '2' '1' '0'
def y3_10_10 : ℕ := makeFourCC 'Y' '3' (.ofNat 10) (.ofNat 10)
def p210 : ℕ := makeFourCC 'P' '2' '1' '0'

end FourCC

namespace AviOptions

/-- The chain of tests of `Info` and `ReadFormat`. They differ in the code for packed
8-bit RGB and in that of `CS_YUV422P10`, and in what is left for other types. -/
def fourCC (o : AviOptions) (rgb yuv422P10 other : ℕ) (t : PixelType) : ℕ :=
  if IsRGB t ∧ ¬IsPlanar t ∧ bitsPerComponent t = 8 then rgb
  else if IsYUY2 t then makeFourCC 'Y' 'U' 'Y' '2'
  else if IsYV12 t then makeFourCC 'Y' 'V' '1' '2'
  else if IsY8 t then makeFourCC 'Y' '8' '0' '0'
  else if IsYV24 t then makeFourCC 'Y' 'V' '2' '4'
  else if IsYV16 t then makeFourCC 'Y' 'V' '1' '6'
  else if IsYV411 t then makeFourCC 'Y' '4' '1' 'B'
  else if IsRGB64 t ∧ o.enableB64a then makeFourCC 'b' '6' '4' 'a'
  else if IsRGB64 t then makeFourCC 'B' 'R' 'A' (.ofNat 64)
  else if IsRGB48 t then makeFourCC 'B' 'G' 'R' (.ofNat 48)
  else if t = csYUV420P10 then makeFourCC 'P' '0' '1' '0'
  else if t = csYUV420P16 then makeFourCC 'P' '0' '1' '6'
  else if t = csYUV422P10 then yuv422P10
  else if t = csYUV422P16 ∧ o.enableY3_10_16 then makeFourCC 'Y' '3' (.ofNat 10) (.ofNat 16)
  else if t = csYUV422P16 then makeFourCC 'P' '2' '1' '6'
  else if t = csYUV444P16 ∨ t = csYUVA444P16 then makeFourCC 'Y' '4' '1' '6'
  else if t = csRGBP then makeFourCC 'G' '3' (.ofNat 0) (.ofNat 8)
  else if t = csRGBP10 then makeFourCC 'G' '3' (.ofNat 0) (.ofNat 10)
  else if t = csRGBP12 then makeFourCC 'G' '3' (.ofNat 0) (.ofNat 12)
  else if t = csRGBP14 then makeFourCC 'G' '3' (.ofNat 0) (.ofNat 14)
  else if t = csRGBP16 then makeFourCC 'G' '3' (.ofNat 0) (.ofNat 16)
  else if t = csRGBAP then makeFourCC 'G' '4' (.ofNat 0) (.ofNat 8)
  else if t = csRGBAP10 then makeFourCC 'G' '4' (.ofNat 0) (.ofNat 10)
  else if t = csRGBAP12 then makeFourCC 'G' '4' (.ofNat 0) (.ofNat 12)
  else if t = csRGBAP14 then makeFourCC 'G' '4' (.ofNat 0) (.ofNat 14)
  else if t = csRGBAP16 then makeFourCC 'G' '4' (.ofNat 0) (.ofNat 16)
  else other

/-- The code that `Info` gives to a type. -/
def fccHandler (o : AviOptions) : PixelType → ℕ :=
  o.fourCC FourCC.dib
    (if o.enableV210 then FourCC.v210 else if o.enableY3_10_10 then FourCC.y3_10_10
      else FourCC.p210)
    FourCC.unknown

/-- The code that `ReadFormat` gives to a type. -/
def biCompression (o : AviOptions) : PixelType → ℕ :=
  o.fourCC FourCC.biRGB
    (if o.enableY3_10_10 then FourCC.y3_10_10 else if o.enableV210 then FourCC.v210
      else FourCC.p210)
    0

end AviOptions

/-- What `Info` says about the bitmaps. -/
structure AviStreamInfo where
  fccHandler : ℕ
  rcFrameRight : ℤ
  rcFrameBottom : ℤ
  dwSampleSize : ℤ
  dwSuggestedBufferSize : ℤ

/-- What `ReadFormat` says about them. -/
structure BitmapInfoHeader where
  biWidth : ℤ
  biHeight : ℤ
  biBitCount : ℤ
  biCompression : ℕ
  biSizeImage : ℤ

/-- `CAVIStreamSynth::Info` of the video stream. -/
def info (o : AviOptions) (vi : VideoInfo) : Except String AviStreamInfo := do
  let viFinal := vi.final o
  let imageSize ← o.imageSize i32 viFinal
  pure ⟨o.fccHandler viFinal.pixelType, viFinal.width, viFinal.height, imageSize, imageSize⟩

/-- `CAVIStreamSynth::ReadFormat` of the video stream. -/
def readFormat (o : AviOptions) (vi : VideoInfo) : Except String BitmapInfoHeader := do
  let viFinal := vi.final o
  let bitCount ←
    if viFinal.pixelType = csYUV422P10 ∧ o.enableV210 then pure 20
    else bitsPerPixel viFinal.pixelType
  pure ⟨viFinal.width, viFinal.height, bitCount, o.biCompression viFinal.pixelType,
    ← o.imageSize i32 viFinal⟩

end AviSynth
