import AviSynth.AviFile.StreamFormat
import AviSynth.Frames.LayoutSound
import AviSynth.Library.RowBlocks

/-!
# What is written for an exported frame

`ReadFrame` gets a frame of the clip, or of a clip that it converts on the fly,
and copies it into the buffer of the caller: in one of the packings of the system
or plane after plane. `Read2` calls it when the buffer has the size of a bitmap.
-/

namespace AviSynth

open MachineInt PixelType VideoInfo

namespace FrameShape

/-- `GetRowSize` of a plane. The chroma planes have a pitch in planar frames only. -/
def getRowSize (plane : FramePlane) : FrameShape → ℤ
  | planar rowSize _ rowSizeUV _ _ alpha =>
    match plane with
    | .u | .v => rowSizeUV
    | .a => if alpha then rowSize else 0
    | _ => rowSize
  | packed rowSize _ =>
    match plane with
    | .u | .v | .a => 0
    | _ => rowSize

/-- `GetHeight` of a plane. -/
def getHeight (plane : FramePlane) : FrameShape → ℤ
  | planar _ height _ heightUV _ alpha =>
    match plane with
    | .u | .v => heightUV
    | .a => if alpha then height else 0
    | _ => height
  | packed _ height =>
    match plane with
    | .u | .v | .a => 0
    | _ => height

end FrameShape

namespace PixelType

/-- The type that `ConvertBits` converts to for 16 bits. -/
def convertBitsTo16 (t : PixelType) : PixelType :=
  if IsRGB24 t ∨ IsRGB48 t then csBGR48
  else if IsRGB32 t ∨ IsRGB64 t then csBGR64
  else (if IsYV12 t then csYV12 else t) &&& ~~~csSampleBitsMask ||| csSampleBits16

/-- The type of `PlanarRGBtoPackedRGB`, which `ConvertToRGB24`, `ConvertToRGB32` and
`ConvertToRGB64` use for planar RGB. -/
def planarRGBtoPackedRGB (targetHasAlpha : Bool) (t : PixelType) : PixelType :=
  if componentSize t = 1 then if targetHasAlpha then csBGR32 else csBGR24
  else if targetHasAlpha then csBGR64 else csBGR48

end PixelType

/-- The type of the frames that `ReadFrame` gets. -/
def AviOptions.frameType (o : AviOptions) (t : PixelType) : PixelType :=
  let bits := bitsPerComponent t
  if (Is420 t ∨ Is422 t) ∧ (bits = 12 ∨ bits = 14 ∨ bits = 32) ∨
      Is444 t ∧ 8 < bits ∧ bits ≠ 16 then convertBitsTo16 t
  else if o.enablePlanarToPackedRGB ∧ (IsPlanarRGB t ∨ IsPlanarRGBA t) then
    if bits = 8 then planarRGBtoPackedRGB (!IsPlanarRGB t) t
    else planarRGBtoPackedRGB true (if bits ≠ 16 then convertBitsTo16 t else t)
  else t

/-- What is written into the buffer: by the encoder of `v210`, or blocks of rows. -/
inductive FrameOutput where
  | v210 (width height : ℤ)
  | blocks (rows : List RowBlock)
  deriving DecidableEq

/-- All blocks of rows stay in a buffer of the given size. Nothing is said about the
encoder of `v210`. -/
def FrameOutput.Within (size : ℤ) : FrameOutput → Prop
  | v210 _ _ => True
  | blocks rows => ∀ b ∈ rows, b.Within size

theorem FrameOutput.Within.mono {size size' : ℤ} {output : FrameOutput}
    (h : output.Within size) (hle : size ≤ size') : output.Within size' := by
  cases output with
  | v210 width height => trivial
  | blocks rows =>
    intro b hb x hx
    obtain ⟨hlow, hhigh⟩ := h b hb x hx
    exact ⟨hlow, by omega⟩

/-- `ToY416`: four components of 16 bits for each pixel. -/
def toY416 (width height : ℤ) : RowBlock := ⟨0, i32 (width * 4 * 2), width * 8, height⟩

/-- `yuv42xp10_16_to_Px10_16`: the luma rows, and rows with the samples of both chroma
planes in turn, at one pitch. -/
def yuv42xp10_16_to_Px10_16 (dstPitch width height cheight : ℤ) : List RowBlock :=
  [⟨0, dstPitch, width * 2, height⟩,
    ⟨i32 (dstPitch * height), dstPitch, width / 2 * 4, cheight⟩]

section ReadFrame

variable (o : AviOptions) (t : PixelType) (frame : FrameShape)

/-- BMP scanlines are aligned, planar ones are packed. -/
def outPitch : ℤ :=
  let rowSize := frame.getRowSize .y
  if HasBitmapRows t ∨ o.aviPadScanlines then padTo4 i32 rowSize else rowSize

/-- The pitch of the chroma planes. -/
def outPitchUV : ℤ :=
  if HasBitmapRows t ∨ o.aviPadScanlines then padTo4 i32 (frame.getRowSize .u)
  else if IsRGB t then frame.getRowSize .b
  else frame.getRowSize .u

/-- The planes that are written after the first one. -/
def outPlanes : FramePlane × FramePlane :=
  if o.vdubPlanarHack ∧ ¬IsYV12 t ∧ ¬IsRGB t ∧ bitsPerComponent t = 8 then (.u, .v)
  else if IsRGB t ∧ IsPlanar t then (.b, .r)
  else if bitsPerComponent t = 8 then (.v, .u)
  else (.u, .v)

/-- The first plane, or the only one. RGB of 16 bits is turned upside down. -/
def firstPlane (width : ℤ) : RowBlock :=
  let pitch := outPitch o t frame
  let rowSize := frame.getRowSize .y
  let height := frame.getHeight .y
  if IsRGB64 t ∧ o.enableB64a then ⟨i32 (pitch * i32 (height - 1)), -pitch, width * 8, height⟩
  else if IsRGB48 t ∨ IsRGB64 t then
    ⟨i32 (pitch * i32 (height - 1)), -pitch, rowSize, height⟩
  else ⟨0, pitch, rowSize, height⟩

/-- The other planes; they are empty for packed formats. -/
def otherPlanes : List RowBlock :=
  let pitch := outPitch o t frame
  let pitchUV := outPitchUV o t frame
  let height := frame.getHeight .y
  let (plane1, plane2) := outPlanes o t
  let height1 := frame.getHeight plane1
  [⟨i32 (pitch * height), pitchUV, frame.getRowSize plane1, height1⟩,
    ⟨i32 (i32 (pitch * height) + i32 (height1 * pitchUV)), pitchUV, frame.getRowSize plane2,
      frame.getHeight plane2⟩] ++
  if IsPlanarRGBA t then
    [⟨i32 (i32 (pitch * height) + i32 (i32 (2 * height1) * pitchUV)), pitchUV,
      frame.getRowSize .a, frame.getHeight .a⟩]
  else []

/-- `ReadFrame` with the frame that it has got. -/
def writeFrame (width height : ℤ) : FrameOutput :=
  if t = csYUV444P16 ∨ t = csYUVA444P16 then .blocks [toY416 width height]
  else if t = csYUV420P10 ∨ t = csYUV420P16 ∨
      t = csYUV422P10 ∧ ¬o.enableY3_10_10 ∧ ¬o.enableV210 ∨
      t = csYUV422P16 ∧ ¬o.enableY3_10_16 then
    .blocks (yuv42xp10_16_to_Px10_16 (outPitch o t frame) width height (frame.getHeight .u))
  else if t = csYUV422P10 ∧ o.enableV210 then
    .v210 (frame.getRowSize .y / componentSize t) (frame.getHeight .y)
  -- the tests of the source for the semi-packed formats do not hold any more here
  else .blocks (firstPlane o t frame width :: otherPlanes o t frame)

end ReadFrame

/-- `CAVIStreamSynth::ReadFrame`. -/
def readFrame (o : AviOptions) (clip : VideoInfo) : Except String FrameOutput := do
  let vi := { clip with pixelType := o.frameType clip.pixelType }
  pure (writeFrame o vi.pixelType (← vi.newVideoFrameOnDevice) vi.width vi.height)

/-- What `Read2` returns, and what it has written. -/
structure ReadResult where
  bufferTooSmall : Bool
  plBytes : ℤ
  plSamples : ℤ
  output : Option FrameOutput

/-- `CAVIStreamSynth::Read2` of the video stream. There may be no buffer: only the
size is asked for then. -/
def read2 (o : AviOptions) (vi : VideoInfo) (numFrames lStart : ℤ) (cbBuffer : Option ℤ) :
    Except String ReadResult :=
  if numFrames ≤ lStart then pure ⟨false, 0, 0, none⟩
  else do
    let imageSize ← o.imageSize i32 (vi.final o)
    match cbBuffer with
    | none => pure ⟨false, imageSize, 1, none⟩
    | some cbBuffer =>
      if cbBuffer < imageSize then pure ⟨true, imageSize, 1, none⟩
      else do pure ⟨false, imageSize, 1, some (← readFrame o vi)⟩

/-!
## The types of exported bitmaps

A type that has a code is packed, or planar RGB, or planar YUV, or is written as
packed 4:4:4. What the functions of a stream test is settled for each of them here.
-/

/-- How the samples of a type lie in its frames. -/
inductive SampleStorage where
  | packed (bytes : ℤ)
  | rgb (bytes : ℤ) (alpha : Bool)
  | yuv (bytes : ℤ) (subWidth subHeight : ℕ)
  | y416
  deriving DecidableEq

/-- The types of bitmaps that have a code, with the way in which they are stored. -/
def exported : List (PixelType × SampleStorage) :=
  [(csBGR24, .packed 3), (csBGR32, .packed 4), (csBGR48, .packed 6), (csBGR64, .packed 8),
    (csYUY2, .packed 2), (csY8, .packed 1), (csYV12, .yuv 1 1 1), (csI420, .yuv 1 1 1),
    (csYV16, .yuv 1 1 0), (csYV24, .yuv 1 0 0), (csYV411, .yuv 1 2 0),
    (csYUV420P10, .yuv 2 1 1), (csYUV420P16, .yuv 2 1 1), (csYUV422P10, .yuv 2 1 0),
    (csYUV422P16, .yuv 2 1 0), (csYUV444P16, .y416), (csYUVA444P16, .y416),
    (csRGBP, .rgb 1 false), (csRGBP10, .rgb 2 false), (csRGBP12, .rgb 2 false),
    (csRGBP14, .rgb 2 false), (csRGBP16, .rgb 2 false), (csRGBAP, .rgb 1 true),
    (csRGBAP10, .rgb 2 true), (csRGBAP12, .rgb 2 true), (csRGBAP14, .rgb 2 true),
    (csRGBAP16, .rgb 2 true)]

/-- The types that are written as packed 4:4:4, or with interleaved chroma, or by an
encoder. -/
def IsRepacked (t : PixelType) : Prop :=
  t ∈ [csYUV444P16, csYUVA444P16, csYUV420P10, csYUV420P16, csYUV422P10, csYUV422P16]
  deriving Decidable

/-- What the tests of the program say about a type, given how it is stored. -/
def Stored (t : PixelType) : SampleStorage → Prop
  | .packed b =>
    bytesPerPixel t = .ok b ∧ 0 < b ∧ ¬HasPlanes t ∧ HasBitmapRows t ∧ ¬IsRepacked t ∧
      ¬(IsRGB t ∧ IsPlanar t) ∧ ¬IsPlanarRGBA t ∧ (IsRGB64 t → b = 8)
  | .rgb b alpha =>
    bytesPerPixel t = .ok b ∧ 0 < b ∧ HasPlanes t ∧ ¬IsYUV t ∧ ¬IsYUVA t ∧
      (IsPlanarRGB t ↔ alpha = false) ∧ (IsPlanarRGBA t ↔ alpha = true) ∧
      numComponents t = (if alpha then 4 else 3) ∧ ¬HasBitmapRows t ∧ IsRGB t ∧
      ¬IsRepacked t ∧ ¬IsRGB48 t ∧ ¬IsRGB64 t
  | .yuv b subWidth subHeight =>
    bytesPerPixel t = .ok b ∧ 0 < b ∧ HasPlanes t ∧ IsYUV t ∧ ¬IsYUVA t ∧ ¬IsPlanarRGB t ∧
      ¬IsPlanarRGBA t ∧ getPlaneWidthSubsampling t = .ok subWidth ∧
      getPlaneHeightSubsampling t = .ok subHeight ∧ ¬HasBitmapRows t ∧ ¬IsRGB t ∧
      t ≠ csYUV444P16 ∧ t ≠ csYUVA444P16 ∧ ¬IsRGB48 t ∧ ¬IsRGB64 t ∧
      (IsRepacked t → b = 2 ∧ subWidth = 1) ∧
      (IsYV12 t ∨ IsYV16 t ↔ b = 1 ∧ subWidth = 1) ∧ (IsYV411 t ↔ b = 1 ∧ subWidth = 2) ∧
      (¬IsRepacked t → b = 1 ∧ subWidth ≤ 2)
  | .y416 => t = csYUV444P16 ∨ t = csYUVA444P16

instance (t : PixelType) (s : SampleStorage) : Decidable (Stored t s) := by
  cases s <;> unfold Stored <;> infer_instance

theorem exported_stored {t : PixelType} {s : SampleStorage} (h : (t, s) ∈ exported) :
    Stored t s := by
  have hall : exported.all (fun p => decide (Stored p.1 p.2)) = true := by decide
  exact of_decide_eq_true (List.all_eq_true.mp hall (t, s) h)

/-- The widths and heights of frames are multiples of these. -/
def mods (t : PixelType) : ℤ × ℤ :=
  if HasPlanes t ∧ (IsYUV t ∨ IsYUVA t) then
    (2 ^ (getPlaneWidthSubsampling t).toOption.getD 0,
      2 ^ (getPlaneHeightSubsampling t).toOption.getD 0)
  else if IsYUY2 t then (2, 1)
  else (1, 1)

/-- Options of which only the conversion of planar RGB matters. -/
def conversionOnly (packed : Bool) : AviOptions :=
  ⟨false, false, false, false, false, false, packed⟩

/-- What is known of the type of the bitmaps for a supported type of a clip. -/
def Converted (t final frame : PixelType) : Prop :=
  final ∈ supported ∧ (mods final = mods t ∨ mods final = (1, 1)) ∧
    (final = csYUV422P10 ↔ t = csYUV422P10) ∧
    (final = csYUV422P16 ↔ t ∈ [csYUV422P12, csYUV422P14, csYUV422P16, csYUV422PS]) ∧
    (IsYV12 final ∨ IsYV16 final ↔ IsYV12 t ∨ IsYV16 t) ∧ (IsYV411 final ↔ IsYV411 t) ∧
    (final ∈ exported.map Prod.fst → final = frame)
  deriving Decidable

theorem finalType_converted (o : AviOptions) {t : PixelType} (ht : t ∈ supported) :
    Converted t (o.finalType t) (o.frameType t) := by
  have hall : supported.all (fun t => [false, true].all fun packed =>
      decide (Converted t ((conversionOnly packed).finalType t)
        ((conversionOnly packed).frameType t))) = true := by decide
  have h := List.all_eq_true.mp (List.all_eq_true.mp hall t ht) o.enablePlanarToPackedRGB
    (by cases o.enablePlanarToPackedRGB <;> simp)
  exact of_decide_eq_true h

/-- No test for a code holds. -/
def Uncoded (t : PixelType) : Prop :=
  ¬(IsRGB t ∧ ¬IsPlanar t ∧ bitsPerComponent t = 8) ∧ ¬IsYUY2 t ∧ ¬IsYV12 t ∧ ¬IsY8 t ∧
    ¬IsYV24 t ∧ ¬IsYV16 t ∧ ¬IsYV411 t ∧ ¬IsRGB64 t ∧ ¬IsRGB48 t
  deriving Decidable

/-- A supported type that gets a code is exported. -/
theorem exported_of_coded {o : AviOptions} {t : PixelType} {rgb yuv422P10 other : ℕ}
    (ht : t ∈ supported) (h : o.fourCC rgb yuv422P10 other t ≠ other) :
    ∃ s, (t, s) ∈ exported := by
  by_contra hnone
  have hall : supported.all (fun t => decide (t ∉ exported.map Prod.fst → Uncoded t)) = true := by
    decide
  have hnot : t ∉ exported.map Prod.fst := by
    intro hmem
    obtain ⟨⟨_, s⟩, hs, rfl⟩ := List.mem_map.mp hmem
    exact hnone ⟨s, hs⟩
  obtain ⟨hrgb, hyuy2, hyv12, hy8, hyv24, hyv16, hyv411, hrgb64, hrgb48⟩ :=
    of_decide_eq_true (List.all_eq_true.mp hall t ht) hnot
  apply h
  simp only [exported, List.map_cons, List.map_nil, List.mem_cons, List.not_mem_nil, or_false,
    not_or] at hnot
  simp only [AviOptions.fourCC, hrgb, hyuy2, hyv12, hy8, hyv24, hyv16, hyv411, hrgb64, hrgb48,
    hnot, false_and, or_self, if_false]

/-!
## The sizes of exported bitmaps

For each way in which the samples are stored, the frame that is made, the size that
is announced and the blocks that are written are given by the size of a row. A size
that fits 31 bits is computed without overflow.
-/

open Alignment

variable {o : AviOptions} {t : PixelType} {w h b : ℤ}

section Frames

/-- Frames are made exactly of the sizes that are multiples of `mods`. -/
theorem newVideoFrameOnDevice_ok (ht : t ∈ supported) :
    (∃ shape, newVideoFrameOnDevice ⟨w, h, t⟩ = .ok shape) ↔
      w % (mods t).1 = 0 ∧ h % (mods t).2 = 0 := by
  obtain ⟨⟨b, hb, -⟩, hplanes⟩ := supported_usable ht
  have hrow : rowSize ⟨w, h, t⟩ = .ok (i32 (w * b)) := by
    simp only [rowSize, bytesFromPixels, hb]
    rfl
  simp only [newVideoFrameOnDevice, ht, not_true_eq_false, if_false, hrow]
  by_cases hhas : HasPlanes t
  · have hp := hplanes hhas
    rw [if_pos (And.intro hhas.2 hhas.1)]
    by_cases hyuv : IsYUV t ∨ IsYUVA t
    · rw [if_pos hyuv] at hp ⊢
      obtain ⟨hrgb, hrgba, ⟨m, hm⟩, n, hn⟩ := hp
      have hrowU : rowSizeU ⟨w, h, t⟩ = .ok (i32 (w * b) / 2 ^ m) := by
        simp only [rowSizeU, hrow, hhas, hrgb, hrgba, hm]
        rfl
      simp only [mods, hhas, hyuv, hm, hn, hrowU, bind, Except.bind, pure, Except.pure,
        Except.toOption, Option.getD_some, and_self, if_true]
      split_ifs with hx hy <;> simp_all
    · rw [if_neg hyuv] at hp ⊢
      have hrowG : rowSizeG ⟨w, h, t⟩ = .ok (i32 (w * b)) := by
        simp only [rowSizeG, hrow, hhas.1, hp]
        rfl
      have hyuy2 : ¬IsYUY2 t := by
        intro h2
        have hall : supported.all (fun t => decide (IsYUY2 t → ¬HasPlanes t)) = true := by
          decide
        exact of_decide_eq_true (List.all_eq_true.mp hall t ht) h2 hhas
      simp only [mods, hyuv, hyuy2, hrowG, and_false, if_false, bind, Except.bind, pure,
        Except.pure, Except.ok.injEq, exists_eq', true_iff]
      omega
  · have hnot : ¬(IsPlanar t ∧ 1 < numComponents t) := fun hh => hhas hh.symm
    rw [if_neg hnot]
    simp only [mods, hhas, false_and, if_false]
    by_cases hyuy2 : IsYUY2 t
    · by_cases hw : w % 2 = 0 <;> simp [hyuy2, hw, bind, Except.bind, pure, Except.pure, throw,
        throwThe, MonadExceptOf.throw]
    · simp only [hyuy2, and_false, if_false, bind, Except.bind, pure, Except.pure,
        Except.ok.injEq, exists_eq', true_iff]
      omega

/-- The row size of a frame of a type whose pixels have `b` bytes. -/
theorem rowSize_of_bytes (hb : bytesPerPixel t = .ok b) :
    rowSize ⟨w, h, t⟩ = .ok (i32 (w * b)) := by
  simp only [rowSize, bytesFromPixels, hb]
  rfl

variable {shape : FrameShape}

theorem shape_packed (ht : t ∈ supported) (hs : Stored t (.packed b))
    (hframe : newVideoFrameOnDevice ⟨w, h, t⟩ = .ok shape) :
    shape = .packed (i32 (w * b)) h := by
  obtain ⟨hb, -, hplanes, -⟩ := hs
  have hnot : ¬(IsPlanar t ∧ 1 < numComponents t) := fun hh => hplanes hh.symm
  simp only [newVideoFrameOnDevice, ht, not_true_eq_false, if_false, hnot,
    rowSize_of_bytes hb] at hframe
  split_ifs at hframe
  exact (Except.ok.inj hframe).symm

theorem shape_rgb {alpha : Bool} (ht : t ∈ supported) (hs : Stored t (.rgb b alpha))
    (hframe : newVideoFrameOnDevice ⟨w, h, t⟩ = .ok shape) :
    shape = .planar (i32 (w * b)) h (i32 (w * b)) h (!IsVPlaneFirst t) alpha := by
  obtain ⟨hb, -, hplanes, hyuv, hyuva, hrgb, hrgba, -⟩ := hs
  have hrow : rowSizeG ⟨w, h, t⟩ = .ok (i32 (w * b)) := by
    have hone : IsPlanarRGB t ∨ IsPlanarRGBA t := by
      rw [hrgb, hrgba]
      cases alpha <;> simp
    simp only [rowSizeG, rowSize_of_bytes hb, hplanes.1, hone]
    rfl
  simp only [newVideoFrameOnDevice, ht, not_true_eq_false, if_false, hplanes.1,
    hplanes.2, and_self, if_true, hyuv, hyuva, or_self, hrow, hrgba] at hframe
  rw [← Except.ok.inj hframe]
  cases alpha <;> rfl

theorem shape_yuv {m n : ℕ} (ht : t ∈ supported) (hs : Stored t (.yuv b m n))
    (hframe : newVideoFrameOnDevice ⟨w, h, t⟩ = .ok shape) :
    shape = .planar (i32 (w * b)) h (i32 (w * b) / 2 ^ m) (h / 2 ^ n) (!IsVPlaneFirst t) false ∧
      2 ^ m ∣ w ∧ 2 ^ n ∣ h := by
  obtain ⟨hb, -, hplanes, hyuv, hyuva, hrgb, hrgba, hm, hn, -⟩ := hs
  have hrow : rowSizeU ⟨w, h, t⟩ = .ok (i32 (w * b) / 2 ^ m) := by
    simp only [rowSizeU, rowSize_of_bytes hb, hplanes, hrgb, hrgba, hm]
    rfl
  simp only [newVideoFrameOnDevice, ht, not_true_eq_false, if_false, hplanes.1,
    hplanes.2, and_self, if_true, hyuv, true_or, hm, hn, hrow, rowSize_of_bytes hb, bind,
    Except.bind, pure, Except.pure] at hframe
  split_ifs at hframe with hwidth hheight
  refine ⟨?_, Int.dvd_of_emod_eq_zero (not_not.mp hwidth),
    Int.dvd_of_emod_eq_zero (not_not.mp hheight)⟩
  rw [← Except.ok.inj hframe]
  simp [hyuva]

end Frames

section Sizes

variable (wrap : ℤ → ℤ)

theorem imageSize_packed (hs : Stored t (.packed b)) :
    o.imageSize wrap ⟨w, h, t⟩ = .ok (wrap (h * padTo4 wrap (wrap (w * b)))) := by
  obtain ⟨hb, -, hplanes, hrows, hrepacked, -⟩ := hs
  simp only [IsRepacked, List.mem_cons, List.not_mem_nil, or_false, not_or] at hrepacked
  simp only [AviOptions.imageSize, aviHelperImageSize, hrepacked, or_self, false_and, and_false,
    if_false, Bool.false_eq_true, hrows, true_or, if_true, bmpSize,
    planeRowSize, hplanes, hb]
  rfl

theorem imageSize_y416 (hs : Stored t .y416) :
    o.imageSize wrap ⟨w, h, t⟩ = .ok (wrap (w * h * 4 * 2)) := by
  have htype : t = csYUV444P16 ∨ t = csYUVA444P16 := hs
  simp only [AviOptions.imageSize, aviHelperImageSize]
  rw [if_pos htype]
  rfl

theorem imageSize_rgb {alpha : Bool} (hs : Stored t (.rgb b alpha)) :
    o.imageSize wrap ⟨w, h, t⟩ = .ok
      (let row := wrap (w * b)
      let pitch := if o.aviPadScanlines then padTo4 wrap row else row
      wrap (wrap (pitch * h) * if alpha then 4 else 3)) := by
  obtain ⟨hb, -, hplanes, -, -, hrgb, hrgba, hnum, hrows, hcs, hrepacked, -⟩ := hs
  simp only [IsRepacked, List.mem_cons, List.not_mem_nil, or_false, not_or] at hrepacked
  simp only [AviOptions.imageSize, aviHelperImageSize, hrepacked, or_self, false_and, and_false,
    if_false, Bool.false_eq_true, hrows, false_or, bmpSize, planeRowSize,
    hplanes, hplanes.2, hcs, hrgba, hnum, hb, if_true, and_self, bind,
    Except.bind, pure, Except.pure]
  cases alpha <;> split_ifs <;> simp_all

theorem imageSize_yuv {m n : ℕ} (hs : Stored t (.yuv b m n))
    (hv210 : ¬(t = csYUV422P10 ∧ o.enableV210)) :
    o.imageSize wrap ⟨w, h, t⟩ = .ok
      (let row := wrap (w * b)
      if o.aviPadScanlines then
        let yBytes := wrap (padTo4 wrap row * h)
        wrap (yBytes + wrap (yBytes / 2 ^ (m + n) * 2))
      else
        wrap ((if row / 2 ^ m ≠ 0 then wrap (wrap (row / 2 ^ m * h) / 2 ^ n * 2) else 0) +
          wrap (row * h))) := by
  obtain ⟨hb, -, hplanes, -, -, hrgb, hrgba, hm, hn, hrows, hcs, h444, ha444, -⟩ := hs
  simp only [AviOptions.imageSize, aviHelperImageSize, h444, ha444, hv210, or_self, and_false,
    if_false, Bool.false_eq_true, hrows, false_or, bmpSize, planeRowSize,
    hplanes, hrgb, hrgba, hcs, hm, hn, hb, if_true, and_self, not_false_eq_true, bind,
    Except.bind, pure, Except.pure]
  split_ifs <;> rfl

end Sizes

end AviSynth
