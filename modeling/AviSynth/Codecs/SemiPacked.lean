import AviSynth.Frames.SharedFrames
import AviSynth.Library.Loops
import AviSynth.Library.Samples

/-!
# Semi-packed formats

`P010`, `P016`, `P210` and `P216` have a plane of luma and a plane of chroma in which the samples
of U and V alternate. Samples of ten bits are shifted to the upper bits. Each function has a
version in C, and others that take eight samples at a time in registers.
-/

namespace AviSynth

open MachineInt Samples CountedLoop

/-- A pointer into memory that is read. -/
structure ReadPtr where
  memory : ℤ → UInt8
  pos : ℤ

/-- `_MM_PACKUS_EPI32`, which does `_mm_packus_epi32` by instructions of SSE2. -/
def mmPackusEpi32Sse2 (a b : M128i) : M128i :=
  let val32 := mmSet1Epi32 0x8000
  let val16 := mmSet1Epi16 0x8000
  mmAddEpi16 (mmPacksEpi32 (mmSubEpi32 a val32) (mmSubEpi32 b val32)) val16

section Functions

/-- The shift of `prepare_luma_shift6`. -/
def lumaShift6 (before : Bool) (x : BitVec 16) : BitVec 16 := if before then x <<< 6 else x >>> 6

/-- The loop body of `prepare_luma_shift6_c`, and of the rest in the other version. -/
def lumaSample (before : Bool) (dstp : ℤ) (src : ReadPtr) (x : ℤ) (dst : ℤ → UInt8) : ℤ → UInt8 :=
  store16 dst (dstp + 2 * x) (lumaShift6 before (load16 src.memory (src.pos + 2 * x)))

/-- Shifted luma, a sample at a time. -/
def prepareLumaShift6C (before : Bool) (dst : ℤ → UInt8) (dstp dstpitch : ℤ) (src : ReadPtr)
    (srcpitch width height : ℤ) : ℤ → UInt8 :=
  forLoop 0 height 1 (fun y dst =>
    forLoop 0 width 1
      (lumaSample before (dstp + dstpitch * y) ⟨src.memory, src.pos + srcpitch * y⟩) dst) dst

/-- Eight samples of luma. -/
def lumaBlock (before : Bool) (dstp : ℤ) (src : ReadPtr) (x : ℤ) (dst : ℤ → UInt8) : ℤ → UInt8 :=
  let y := mmLoad src.memory (src.pos + 2 * x)
  mmStore dst (dstp + 2 * x) (if before then mmSlliEpi16 y 6 else mmSrliEpi16 y 6)

/-- Shifted luma, eight samples at a time. -/
def prepareLumaShift6Sse2 (before : Bool) (dst : ℤ → UInt8) (dstp dstpitch : ℤ) (src : ReadPtr)
    (srcpitch width height : ℤ) : ℤ → UInt8 :=
  let modw := width.tdiv 8 * 8
  forLoop 0 height 1 (fun y dst =>
    let src := ⟨src.memory, src.pos + srcpitch * y⟩
    forLoop modw width 1 (lumaSample before (dstp + dstpitch * y) src)
      (forLoop 0 modw 8 (lumaBlock before (dstp + dstpitch * y) src) dst)) dst

/-- The loop body of `prepare_to_interleaved_uv_c`. -/
def interleaveSample (shift6 : Bool) (dstp : ℤ) (srcu srcv : ReadPtr) (x : ℤ) (dst : ℤ → UInt8) :
    ℤ → UInt8 :=
  let u := load16 srcu.memory (srcu.pos + 2 * x)
  let v := load16 srcv.memory (srcv.pos + 2 * x)
  let u := if shift6 then u <<< 6 else u
  let v := if shift6 then v <<< 6 else v
  store32 dst (dstp + 4 * x) (joinHalves 32 v u)

/-- Interleaved chroma, a pair at a time. -/
def prepareToInterleavedUvC (shift6 : Bool) (dst : ℤ → UInt8) (dstp dstpitch : ℤ)
    (srcu srcv : ReadPtr) (pitchUV width height : ℤ) : ℤ → UInt8 :=
  forLoop 0 height 1 (fun y dst =>
    forLoop 0 width 1 (interleaveSample shift6 (dstp + dstpitch * y)
      ⟨srcu.memory, srcu.pos + pitchUV * y⟩ ⟨srcv.memory, srcv.pos + pitchUV * y⟩) dst) dst

/-- Eight samples of each plane. -/
def interleaveBlock (shift6 : Bool) (dstp : ℤ) (srcu srcv : ReadPtr) (x : ℤ) (dst : ℤ → UInt8) :
    ℤ → UInt8 :=
  let u := mmLoad srcu.memory (srcu.pos + 2 * x)
  let v := mmLoad srcv.memory (srcv.pos + 2 * x)
  let u := if shift6 then mmSlliEpi16 u 6 else u
  let v := if shift6 then mmSlliEpi16 v 6 else v
  let dst := mmStore dst (dstp + 4 * x) (mmUnpackloEpi16 u v)
  mmStore dst (dstp + 4 * (x + 4)) (mmUnpackhiEpi16 u v)

/-- Interleaved chroma, eight pairs at a time. -/
def prepareToInterleavedUvSse2 (shift6 : Bool) (dst : ℤ → UInt8) (dstp dstpitch : ℤ)
    (srcu srcv : ReadPtr) (pitchUV width height : ℤ) : ℤ → UInt8 :=
  let modw := width.tdiv 8 * 8
  forLoop 0 height 1 (fun y dst =>
    let srcu := ⟨srcu.memory, srcu.pos + pitchUV * y⟩
    let srcv := ⟨srcv.memory, srcv.pos + pitchUV * y⟩
    forLoop modw width 1 (interleaveSample shift6 (dstp + dstpitch * y) srcu srcv)
      (forLoop 0 modw 8 (interleaveBlock shift6 (dstp + dstpitch * y) srcu srcv) dst)) dst

/-- The memory of the two chroma planes. -/
@[ext]
structure ChromaMemory where
  u : ℤ → UInt8
  v : ℤ → UInt8

/-- The loop body of `prepare_from_interleaved_uv_c`. -/
def separateSample (shift6 : Bool) (dstu dstv : ℤ) (src : ReadPtr) (x : ℤ) (dst : ChromaMemory) :
    ChromaMemory :=
  let uv := load32 src.memory (src.pos + 4 * x)
  let u := (uv &&& 0xFFFF#32).setWidth 16
  let v := (uv >>> 16).setWidth 16
  let u := if shift6 then u >>> 6 else u
  let v := if shift6 then v >>> 6 else v
  ⟨store16 dst.u (dstu + 2 * x) u, store16 dst.v (dstv + 2 * x) v⟩

/-- Separated chroma, a pair at a time. -/
def prepareFromInterleavedUvC (shift6 : Bool) (dst : ChromaMemory) (dstu dstv pitchUV : ℤ)
    (src : ReadPtr) (srcpitch width height : ℤ) : ChromaMemory :=
  forLoop 0 height 1 (fun y dst =>
    forLoop 0 width 1 (separateSample shift6 (dstu + pitchUV * y) (dstv + pitchUV * y)
      ⟨src.memory, src.pos + srcpitch * y⟩) dst) dst

/-- Eight samples of each plane. The versions differ in how they pack words without a shift. -/
def separateBlock (packus : M128i → M128i → M128i) (shift6 : Bool) (dstu dstv : ℤ) (src : ReadPtr)
    (x : ℤ) (dst : ChromaMemory) : ChromaMemory :=
  let mask := mmSet1Epi32 0x0000FFFF
  let uvLo := mmLoad src.memory (src.pos + 4 * x)
  let uvHi := mmLoad src.memory (src.pos + 4 * (x + 4))
  let uvLo := if shift6 then mmSrliEpi16 uvLo 6 else uvLo
  let uvHi := if shift6 then mmSrliEpi16 uvHi 6 else uvHi
  let uLo := mmAnd uvLo mask
  let uHi := mmAnd uvHi mask
  let u := if shift6 then mmPacksEpi32 uLo uHi else packus uLo uHi
  let vLo := mmSrliEpi32 uvLo 16
  let vHi := mmSrliEpi32 uvHi 16
  let v := if shift6 then mmPacksEpi32 vLo vHi else packus vLo vHi
  ⟨mmStore dst.u (dstu + 2 * x) u, mmStore dst.v (dstv + 2 * x) v⟩

/-- The loops of the versions of `prepare_from_interleaved_uv` that use registers. -/
def separateRegisters (packus : M128i → M128i → M128i) (shift6 : Bool) (dst : ChromaMemory)
    (dstu dstv pitchUV : ℤ) (src : ReadPtr) (srcpitch width height : ℤ) : ChromaMemory :=
  let modw := width.tdiv 8 * 8
  forLoop 0 height 1 (fun y dst =>
    let src := ⟨src.memory, src.pos + srcpitch * y⟩
    forLoop modw width 1 (separateSample shift6 (dstu + pitchUV * y) (dstv + pitchUV * y) src)
      (forLoop 0 modw 8 (separateBlock packus shift6 (dstu + pitchUV * y) (dstv + pitchUV * y) src)
        dst)) dst

/-- Separated chroma, in registers of SSE2. -/
def prepareFromInterleavedUvSse2 (shift6 : Bool) (dst : ChromaMemory) (dstu dstv pitchUV : ℤ)
    (src : ReadPtr) (srcpitch width height : ℤ) : ChromaMemory :=
  separateRegisters mmPackusEpi32Sse2 shift6 dst dstu dstv pitchUV src srcpitch width height

/-- Separated chroma, packed as SSE4.1 does. -/
def prepareFromInterleavedUvSse41 (shift6 : Bool) (dst : ChromaMemory) (dstu dstv pitchUV : ℤ)
    (src : ReadPtr) (srcpitch width height : ℤ) : ChromaMemory :=
  separateRegisters mmPackusEpi32 shift6 dst dstu dstv pitchUV src srcpitch width height

/-- The flags of the processor that are asked for. -/
structure CpuFlags where
  sse2 : Bool
  sse41 : Bool

variable (cpu : CpuFlags)

/-- `yuv42xp10_16_to_Px10_16`. -/
def yuv42xp10_16ToPx10_16 (dst : ℤ → UInt8) (dstp dstpitch : ℤ) (srcY : ReadPtr) (srcpitch : ℤ)
    (srcU srcV : ReadPtr) (srcpitchUV width height cheight : ℤ) (semiPackedP16 : Bool) :
    ℤ → UInt8 :=
  let dst :=
    if semiPackedP16 then
      bitBlt dst dstp dstpitch srcY.memory srcY.pos srcpitch (i32 (width * 2)) height
    else if cpu.sse2 then prepareLumaShift6Sse2 true dst dstp dstpitch srcY srcpitch width height
    else prepareLumaShift6C true dst dstp dstpitch srcY srcpitch width height
  let dstp := dstp + i32 (dstpitch * height)
  let cwidth := width.tdiv 2
  if cpu.sse2 then
    prepareToInterleavedUvSse2 (!semiPackedP16) dst dstp dstpitch srcU srcV srcpitchUV cwidth
      cheight
  else
    prepareToInterleavedUvC (!semiPackedP16) dst dstp dstpitch srcU srcV srcpitchUV cwidth cheight

/-- `Px10_16_to_yuv42xp10_16`. The memory of luma and of the chroma planes. -/
def px10_16ToYuv42xp10_16 (dstY : ℤ → UInt8) (dstpY dstpitch : ℤ) (dst : ChromaMemory)
    (dstpU dstpV dstpitchUV : ℤ) (src : ReadPtr) (srcpitch width height cheight : ℤ)
    (semiPackedP16 : Bool) : (ℤ → UInt8) × ChromaMemory :=
  let dstY :=
    if semiPackedP16 then
      bitBlt dstY dstpY dstpitch src.memory src.pos srcpitch (i32 (width * 2)) height
    else if cpu.sse2 then prepareLumaShift6Sse2 false dstY dstpY dstpitch src srcpitch width height
    else prepareLumaShift6C false dstY dstpY dstpitch src srcpitch width height
  let src := ⟨src.memory, src.pos + i32 (srcpitch * height)⟩
  let cwidth := width.tdiv 2
  (dstY,
    if cpu.sse41 then
      prepareFromInterleavedUvSse41 (!semiPackedP16) dst dstpU dstpV dstpitchUV src srcpitch cwidth
        cheight
    else if cpu.sse2 then
      prepareFromInterleavedUvSse2 (!semiPackedP16) dst dstpU dstpV dstpitchUV src srcpitch cwidth
        cheight
    else
      prepareFromInterleavedUvC (!semiPackedP16) dst dstpU dstpV dstpitchUV src srcpitch cwidth
        cheight)

end Functions

/-!
## The rows of semi-packed formats

Whatever instructions it uses, a version of a function writes the same samples into a row: for
each row there is one sequence of samples that the loop over registers and the loop over the rest
copy together.
-/

variable {dst : ℤ → UInt8} {dstp dstpitch srcpitch pitchUV width height : ℤ}
  {src srcu srcv : ReadPtr}

/-! ### Luma -/

/-- The samples of a row of luma. -/
def lumaRow (before : Bool) (src : ReadPtr) : ℤ → BitVec 16 := fun x =>
  lumaShift6 before (load16 src.memory (src.pos + 2 * x))

/-- The C loop copies a sample of the row. -/
theorem lumaSample_eq (before : Bool) (x : ℤ) (dst : ℤ → UInt8) :
    lumaSample before dstp src x dst =
      Buffer.copy dst (dstp + 2 * x) (sampleBytes (lumaRow before src)) (2 * x) 2 :=
  store16_eq dst (dstp + 2 * x) (lumaRow before src) x

/-- The SSE2 loop copies eight. -/
theorem lumaBlock_eq (before : Bool) (x : ℤ) (dst : ℤ → UInt8) :
    lumaBlock before dstp src x dst =
      Buffer.copy dst (dstp + 2 * x) (sampleBytes (lumaRow before src)) (2 * x) (2 * 8) := by
  refine mmStore_eq dst (dstp + 2 * x) x fun a _ _ => ?_
  have hpos : src.pos + 2 * x + 2 * a = src.pos + 2 * (x + a) := by ring
  cases before <;> simp [lumaRow, lumaShift6, mmSlliEpi16, mmSrliEpi16, mmLoad, hpos]

/-- The C loop writes rows. -/
theorem prepareLumaShift6C_eq (before : Bool) (dst : ℤ → UInt8) (dstp dstpitch : ℤ)
    (src : ReadPtr) (srcpitch width height : ℤ) :
    prepareLumaShift6C before dst dstp dstpitch src srcpitch width height =
      forLoop 0 height 1 (copyRow dstp dstpitch (2 * width) fun y =>
        sampleBytes (lumaRow before ⟨src.memory, src.pos + srcpitch * y⟩)) dst := by
  unfold prepareLumaShift6C
  refine forLoop_congr fun y dst => ?_
  exact forLoop_all (by decide) (fun x dst => lumaSample_eq before x dst) dst

/-- The SSE2 loop writes the same rows. -/
theorem prepareLumaShift6Sse2_eq (before : Bool) (dst : ℤ → UInt8) (dstp dstpitch : ℤ)
    (src : ReadPtr) (srcpitch width height : ℤ) :
    prepareLumaShift6Sse2 before dst dstp dstpitch src srcpitch width height =
      prepareLumaShift6C before dst dstp dstpitch src srcpitch width height := by
  rw [prepareLumaShift6C_eq]
  unfold prepareLumaShift6Sse2
  refine forLoop_congr fun y dst => ?_
  exact forLoop_parts (by decide) (by decide) (fun x dst => lumaBlock_eq before x dst)
    (fun x dst => lumaSample_eq before x dst) dst

/-! ### Interleaved chroma -/

/-- A shift, if there is one. -/
def upShift6 (shift6 : Bool) (x : BitVec 16) : BitVec 16 := if shift6 then x <<< 6 else x

/-- A shift by six bits, where it is asked for. -/
def downShift6 (shift6 : Bool) (x : BitVec 16) : BitVec 16 := if shift6 then x >>> 6 else x

/-- The samples of a row of chroma. -/
def interleavedRow (shift6 : Bool) (srcu srcv : ReadPtr) : ℤ → BitVec 16 := fun i =>
  if i % 2 = 0 then upShift6 shift6 (load16 srcu.memory (srcu.pos + 2 * (i / 2)))
  else upShift6 shift6 (load16 srcv.memory (srcv.pos + 2 * (i / 2)))

/-- U samples stand at even places. -/
theorem interleavedRow_even (shift6 : Bool) (srcu srcv : ReadPtr) (x : ℤ) :
    interleavedRow shift6 srcu srcv (2 * x) =
      upShift6 shift6 (load16 srcu.memory (srcu.pos + 2 * x)) := by
  have hhalf : 2 * x / 2 = x := by omega
  rw [interleavedRow, if_pos (by omega), hhalf]

/-- V samples stand at odd places. -/
theorem interleavedRow_odd (shift6 : Bool) (srcu srcv : ReadPtr) (x : ℤ) :
    interleavedRow shift6 srcu srcv (2 * x + 1) =
      upShift6 shift6 (load16 srcv.memory (srcv.pos + 2 * x)) := by
  have hhalf : (2 * x + 1) / 2 = x := by omega
  rw [interleavedRow, if_neg (by omega), hhalf]

theorem interleaveSample_eq (shift6 : Bool) (x : ℤ) (dst : ℤ → UInt8) :
    interleaveSample shift6 dstp srcu srcv x dst =
      Buffer.copy dst (dstp + 4 * x) (sampleBytes (interleavedRow shift6 srcu srcv)) (4 * x) 4 := by
  rw [← store32_eq, interleavedRow_even, interleavedRow_odd]
  rfl

/-- Lanes that alternate are a row that alternates. -/
theorem interleaveBlock_eq (shift6 : Bool) (x : ℤ) (dst : ℤ → UInt8) :
    interleaveBlock shift6 dstp srcu srcv x dst =
      Buffer.copy dst (dstp + 4 * x) (sampleBytes (interleavedRow shift6 srcu srcv)) (4 * x)
        (4 * 8) := by
  have hlane (src : ReadPtr) (i : ℤ) :
      (if shift6 then mmSlliEpi16 (mmLoad src.memory (src.pos + 2 * x)) 6
        else mmLoad src.memory (src.pos + 2 * x)) i =
        upShift6 shift6 (load16 src.memory (src.pos + 2 * (x + i))) := by
    have hpos : src.pos + 2 * x + 2 * i = src.pos + 2 * (x + i) := by ring
    cases shift6 <;> simp [upShift6, mmSlliEpi16, mmLoad, hpos]
  have hlo : ∀ a, 0 ≤ a → a < 8 →
      mmUnpackloEpi16
        (if shift6 then mmSlliEpi16 (mmLoad srcu.memory (srcu.pos + 2 * x)) 6
          else mmLoad srcu.memory (srcu.pos + 2 * x))
        (if shift6 then mmSlliEpi16 (mmLoad srcv.memory (srcv.pos + 2 * x)) 6
          else mmLoad srcv.memory (srcv.pos + 2 * x)) a =
        interleavedRow shift6 srcu srcv (2 * x + a) := by
    intro a _ _
    have hhalf : (2 * x + a) / 2 = x + a / 2 := by omega
    have hparity : (2 * x + a) % 2 = a % 2 := by omega
    simp only [mmUnpackloEpi16, hlane, interleavedRow, hhalf, hparity]
  have hhi : ∀ a, 0 ≤ a → a < 8 →
      mmUnpackhiEpi16
        (if shift6 then mmSlliEpi16 (mmLoad srcu.memory (srcu.pos + 2 * x)) 6
          else mmLoad srcu.memory (srcu.pos + 2 * x))
        (if shift6 then mmSlliEpi16 (mmLoad srcv.memory (srcv.pos + 2 * x)) 6
          else mmLoad srcv.memory (srcv.pos + 2 * x)) a =
        interleavedRow shift6 srcu srcv (2 * x + 8 + a) := by
    intro a _ _
    have hhalf : (2 * x + 8 + a) / 2 = x + (4 + a / 2) := by omega
    have hparity : (2 * x + 8 + a) % 2 = a % 2 := by omega
    simp only [mmUnpackhiEpi16, hlane, interleavedRow, hhalf, hparity]
  have hjoin := Buffer.copy_append dst (dstp + 4 * x)
    (sampleBytes (interleavedRow shift6 srcu srcv)) (4 * x) (by decide : (0 : ℤ) ≤ 16)
    (by decide : (0 : ℤ) ≤ 16)
  rw [interleaveBlock, mmStore_eq dst (dstp + 4 * x) (2 * x) hlo, mmStore_eq _ _ (2 * x + 8) hhi]
  have hpos : dstp + 4 * (x + 4) = dstp + 4 * x + 16 := by ring
  have hfirst : 2 * (2 * x) = 4 * x := by ring
  have hsecond : 2 * (2 * x + 8) = 4 * x + 16 := by ring
  rw [hpos, hfirst, hsecond]
  exact hjoin

/-- The C loop writes rows of pairs. -/
theorem prepareToInterleavedUvC_eq (shift6 : Bool) (dst : ℤ → UInt8) (dstp dstpitch : ℤ)
    (srcu srcv : ReadPtr) (pitchUV width height : ℤ) :
    prepareToInterleavedUvC shift6 dst dstp dstpitch srcu srcv pitchUV width height =
      forLoop 0 height 1 (copyRow dstp dstpitch (4 * width) fun y =>
        sampleBytes (interleavedRow shift6 ⟨srcu.memory, srcu.pos + pitchUV * y⟩
          ⟨srcv.memory, srcv.pos + pitchUV * y⟩)) dst := by
  unfold prepareToInterleavedUvC
  refine forLoop_congr fun y dst => ?_
  exact forLoop_all (by decide) (fun x dst => interleaveSample_eq shift6 x dst) dst

/-- The SSE2 loop writes the same rows. -/
theorem prepareToInterleavedUvSse2_eq (shift6 : Bool) (dst : ℤ → UInt8) (dstp dstpitch : ℤ)
    (srcu srcv : ReadPtr) (pitchUV width height : ℤ) :
    prepareToInterleavedUvSse2 shift6 dst dstp dstpitch srcu srcv pitchUV width height =
      prepareToInterleavedUvC shift6 dst dstp dstpitch srcu srcv pitchUV width height := by
  rw [prepareToInterleavedUvC_eq]
  unfold prepareToInterleavedUvSse2
  refine forLoop_congr fun y dst => ?_
  exact forLoop_parts (by decide) (by decide) (fun x dst => interleaveBlock_eq shift6 x dst)
    (fun x dst => interleaveSample_eq shift6 x dst) dst

/-! ### Separate chroma -/

/-- The samples of a row of one of the chroma planes. -/
def separateRow (shift6 : Bool) (memory : ℤ → UInt8) (p : ℤ) : ℤ → BitVec 16 := fun x =>
  downShift6 shift6 (load16 memory (p + 4 * x))

/-- The packing of SSE2 keeps samples. -/
theorem packsSamples_mmPackusEpi32Sse2 {a b : ℤ → BitVec 16} :
    PacksSamples mmPackusEpi32Sse2 a b := by
  intro v w hv hw i
  have hval (i : ℤ) : lane32 (mmSet1Epi32 0x8000) i = 0x8000#32 := by
    rw [mmSet1Epi32, lane32_wordSamples]
    rfl
  simp only [mmPackusEpi32Sse2, mmAddEpi16, mmPacksEpi32, mmSubEpi32, lane32_wordSamples, hv, hw,
    hval, mmSet1Epi16]
  split_ifs
  · exact saturateSigned_offset (a i)
  · exact saturateSigned_offset (b (i - 4))

variable {dstu dstv : ℤ}

/-- What a round does to one of the chroma planes. -/
def separateCells (bytes : ℤ) (shift6 : Bool) (dstp : ℤ) (memory : ℤ → UInt8) (p x : ℤ)
    (dst : ℤ → UInt8) : ℤ → UInt8 :=
  Buffer.copy dst (dstp + 2 * x) (sampleBytes (separateRow shift6 memory p)) (2 * x) bytes

theorem separateSample_u (shift6 : Bool) (x : ℤ) (dst : ChromaMemory) :
    (separateSample shift6 dstu dstv src x dst).u =
      separateCells 2 shift6 dstu src.memory src.pos x dst.u := by
  rw [separateCells, ← store16_eq]
  have hu : (load32 src.memory (src.pos + 4 * x) &&& 0xFFFF#32).setWidth 16 =
      load16 src.memory (src.pos + 4 * x) := by
    have hlow := low_join (show 32 = 16 + 16 from rfl)
      (load16 src.memory (src.pos + 4 * x + 2)) (load16 src.memory (src.pos + 4 * x))
    have hmask : (0xFFFF#32).setWidth 16 = BitVec.allOnes 16 := rfl
    rw [BitVec.setWidth_and, hmask, BitVec.and_allOnes]
    exact hlow
  simp only [separateSample, hu, separateRow, downShift6]

theorem separateSample_v (shift6 : Bool) (x : ℤ) (dst : ChromaMemory) :
    (separateSample shift6 dstu dstv src x dst).v =
      separateCells 2 shift6 dstv src.memory (src.pos + 2) x dst.v := by
  rw [separateCells, ← store16_eq]
  have hpos : src.pos + 4 * x + 2 = src.pos + 2 + 4 * x := by ring
  have hv : (load32 src.memory (src.pos + 4 * x) >>> 16).setWidth 16 =
      load16 src.memory (src.pos + 2 + 4 * x) := by
    rw [load32, hpos]
    exact high_join (show 32 = 16 + 16 from rfl) _ _
  simp only [separateSample, hv, separateRow, downShift6]

/-- What the loop in C writes into a row of both planes. -/
theorem separateLine_eq (shift6 : Bool) (width : ℤ) (dst : ChromaMemory) :
    forLoop 0 width 1 (separateSample shift6 dstu dstv src) dst =
      ⟨Buffer.copy dst.u dstu (sampleBytes (separateRow shift6 src.memory src.pos)) 0 (2 * width),
        Buffer.copy dst.v dstv (sampleBytes (separateRow shift6 src.memory (src.pos + 2))) 0
          (2 * width)⟩ := by
  ext1
  · rw [forLoop_part ChromaMemory.u (separateSample_u shift6)]
    exact forLoop_all (by decide) (fun _ _ => rfl) dst.u
  · rw [forLoop_part ChromaMemory.v (separateSample_v shift6)]
    exact forLoop_all (by decide) (fun _ _ => rfl) dst.v

section Registers

variable {packus : M128i → M128i → M128i} (hpackus : ∀ a b, PacksSamples packus a b)

include hpackus

/-- Packed words are a row of samples. -/
theorem packed_lane (shift6 : Bool) {v w : M128i} {memory : ℤ → UInt8} {p x : ℤ}
    (hv : ∀ i, lane32 v i = (separateRow shift6 memory p (x + i)).setWidth 32)
    (hw : ∀ i, lane32 w i = (separateRow shift6 memory p (x + 4 + i)).setWidth 32) (i : ℤ) :
    (if shift6 then mmPacksEpi32 v w else packus v w) i = separateRow shift6 memory p (x + i) := by
  have hjoin : (if i < 4 then separateRow shift6 memory p (x + i)
      else separateRow shift6 memory p (x + 4 + (i - 4))) =
        separateRow shift6 memory p (x + i) := by
    have hpos : x + 4 + (i - 4) = x + i := by ring
    rw [hpos, ite_self]
  cases shift6 with
  | false =>
    rw [if_neg Bool.false_ne_true, hpackus _ _ v w hv hw]
    exact hjoin
  | true =>
    have hsmall (i : ℤ) : (separateRow true memory p i).toNat < 2 ^ 15 := by
      have hlt := (load16 memory (p + 4 * i)).isLt
      simp only [separateRow, downShift6, if_true, BitVec.toNat_ushiftRight,
        Nat.shiftRight_eq_div_pow]
      omega
    rw [if_pos rfl, packsSamples_mmPacksEpi32 (fun _ => hsmall _) (fun _ => hsmall _) v w hv hw]
    exact hjoin

/-- A block separates eight pairs. -/
theorem separateBlock_eq (shift6 : Bool) (x : ℤ) (dst : ChromaMemory) :
    separateBlock packus shift6 dstu dstv src x dst =
      ⟨separateCells (2 * 8) shift6 dstu src.memory src.pos x dst.u,
        separateCells (2 * 8) shift6 dstv src.memory (src.pos + 2) x dst.v⟩ := by
  have hlane (k i : ℤ) :
      (if shift6 then mmSrliEpi16 (mmLoad src.memory (src.pos + 4 * k)) 6
        else mmLoad src.memory (src.pos + 4 * k)) i =
        downShift6 shift6 (load16 src.memory (src.pos + 4 * k + 2 * i)) := by
    cases shift6 <;> simp [downShift6, mmSrliEpi16, mmLoad]
  have hu (k i : ℤ) : lane32 (mmAnd (if shift6 then
      mmSrliEpi16 (mmLoad src.memory (src.pos + 4 * k)) 6
        else mmLoad src.memory (src.pos + 4 * k)) (mmSet1Epi32 0x0000FFFF)) i =
        (separateRow shift6 src.memory src.pos (k + i)).setWidth 32 := by
    have hpos : src.pos + 4 * k + 2 * (2 * i) = src.pos + 4 * (k + i) := by ring
    rw [lane32_mmAnd, hlane, hpos, separateRow]
  have hv (k i : ℤ) : lane32 (mmSrliEpi32 (if shift6 then
      mmSrliEpi16 (mmLoad src.memory (src.pos + 4 * k)) 6
        else mmLoad src.memory (src.pos + 4 * k)) 16) i =
        (separateRow shift6 src.memory (src.pos + 2) (k + i)).setWidth 32 := by
    have hpos : src.pos + 4 * k + 2 * (2 * i + 1) = src.pos + 2 + 4 * (k + i) := by ring
    rw [lane32_mmSrliEpi32, hlane, hpos, separateRow]
  rw [separateBlock]
  congr 1
  · exact mmStore_eq dst.u (dstu + 2 * x) x fun a _ _ =>
      packed_lane hpackus shift6 (hu x) (hu (x + 4)) a
  · exact mmStore_eq dst.v (dstv + 2 * x) x fun a _ _ =>
      packed_lane hpackus shift6 (hv x) (hv (x + 4)) a

/-- What the loops of a version with registers write into a row. -/
theorem separateLineRegisters_eq (shift6 : Bool) (width : ℤ) (dst : ChromaMemory) :
    forLoop (width.tdiv 8 * 8) width 1 (separateSample shift6 dstu dstv src)
        (forLoop 0 (width.tdiv 8 * 8) 8 (separateBlock packus shift6 dstu dstv src) dst) =
      ⟨Buffer.copy dst.u dstu (sampleBytes (separateRow shift6 src.memory src.pos)) 0 (2 * width),
        Buffer.copy dst.v dstv (sampleBytes (separateRow shift6 src.memory (src.pos + 2))) 0
          (2 * width)⟩ := by
  have hu (x : ℤ) (dst : ChromaMemory) : (separateBlock packus shift6 dstu dstv src x dst).u =
      separateCells (2 * 8) shift6 dstu src.memory src.pos x dst.u := by
    rw [separateBlock_eq hpackus]
  have hv (x : ℤ) (dst : ChromaMemory) : (separateBlock packus shift6 dstu dstv src x dst).v =
      separateCells (2 * 8) shift6 dstv src.memory (src.pos + 2) x dst.v := by
    rw [separateBlock_eq hpackus]
  ext1
  · rw [forLoop_part ChromaMemory.u (separateSample_u shift6),
      forLoop_part ChromaMemory.u hu]
    exact forLoop_parts (by decide) (by decide) (fun _ _ => rfl) (fun _ _ => rfl) dst.u
  · rw [forLoop_part ChromaMemory.v (separateSample_v shift6),
      forLoop_part ChromaMemory.v hv]
    exact forLoop_parts (by decide) (by decide) (fun _ _ => rfl) (fun _ _ => rfl) dst.v

/-- The loop with registers separates rows. -/
theorem separateRegisters_eq (shift6 : Bool) (dst : ChromaMemory) (dstu dstv pitchUV : ℤ)
    (src : ReadPtr) (srcpitch width height : ℤ) :
    separateRegisters packus shift6 dst dstu dstv pitchUV src srcpitch width height =
      prepareFromInterleavedUvC shift6 dst dstu dstv pitchUV src srcpitch width height := by
  refine forLoop_congr fun y dst => ?_
  rw [separateLine_eq]
  exact separateLineRegisters_eq hpackus shift6 width dst

end Registers

theorem prepareFromInterleavedUvSse2_eq (shift6 : Bool) (dst : ChromaMemory)
    (dstu dstv pitchUV : ℤ) (src : ReadPtr) (srcpitch width height : ℤ) :
    prepareFromInterleavedUvSse2 shift6 dst dstu dstv pitchUV src srcpitch width height =
      prepareFromInterleavedUvC shift6 dst dstu dstv pitchUV src srcpitch width height :=
  separateRegisters_eq (fun _ _ => packsSamples_mmPackusEpi32Sse2) shift6 dst dstu dstv pitchUV src
    srcpitch width height

theorem prepareFromInterleavedUvSse41_eq (shift6 : Bool) (dst : ChromaMemory)
    (dstu dstv pitchUV : ℤ) (src : ReadPtr) (srcpitch width height : ℤ) :
    prepareFromInterleavedUvSse41 shift6 dst dstu dstv pitchUV src srcpitch width height =
      prepareFromInterleavedUvC shift6 dst dstu dstv pitchUV src srcpitch width height :=
  separateRegisters_eq (fun _ _ => packsSamples_mmPackusEpi32) shift6 dst dstu dstv pitchUV src
    srcpitch width height

/-- The planes of the version in C, row by row. -/
theorem prepareFromInterleavedUvC_eq (shift6 : Bool) (dst : ChromaMemory) (dstu dstv pitchUV : ℤ)
    (src : ReadPtr) (srcpitch width height : ℤ) :
    prepareFromInterleavedUvC shift6 dst dstu dstv pitchUV src srcpitch width height =
      ⟨forLoop 0 height 1 (copyRow dstu pitchUV (2 * width) fun y =>
          sampleBytes (separateRow shift6 src.memory (src.pos + srcpitch * y))) dst.u,
        forLoop 0 height 1 (copyRow dstv pitchUV (2 * width) fun y =>
          sampleBytes (separateRow shift6 src.memory (src.pos + srcpitch * y + 2))) dst.v⟩ := by
  unfold prepareFromInterleavedUvC
  simp only [separateLine_eq]
  ext1
  · exact forLoop_part ChromaMemory.u fun _ _ => rfl
  · exact forLoop_part ChromaMemory.v fun _ _ => rfl

end AviSynth
