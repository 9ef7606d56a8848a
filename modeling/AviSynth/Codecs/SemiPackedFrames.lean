import AviSynth.Codecs.SemiPacked
import AviSynth.Frames.FrameCopies

/-!
# Frames in semi-packed formats

A frame of 4:2:0 or 4:2:2 that is packed and unpacked again is the same frame, whatever
instructions are used for the one and for the other.
-/

namespace AviSynth

open MachineInt Samples CountedLoop

/-- A plane of samples of two bytes whose size is an int. -/
structure SamplePlane (width height : ℤ) where
  ptr : ReadPtr
  pitch : ℤ
  rowSize_le : 2 * width ≤ pitch
  size_lt : pitch * height < 2 ^ 31

namespace SamplePlane

variable {width height : ℤ} (p : SamplePlane width height)

/-- The sample that memory has in the place of one of the plane. -/
def sampleIn (memory : ℤ → UInt8) (y x : ℤ) : BitVec 16 :=
  load16 memory (p.ptr.pos + p.pitch * y + 2 * x)

/-- The sample in row `y` and column `x`. -/
def sample (y x : ℤ) : BitVec 16 := p.sampleIn p.ptr.memory y x

/-- All samples have ten bits. -/
def IsTenBit : Prop :=
  ∀ y x, 0 ≤ y → y < height → 0 ≤ x → x < width → Samples.IsTenBit (p.sample y x)

/-- A plane that is there in memory. -/
def Shows (memory : ℤ → UInt8) (origin : SamplePlane width height) : Prop :=
  ∀ y x, 0 ≤ y → y < height → 0 ≤ x → x < width → p.sampleIn memory y x = origin.sample y x

theorem pitch_lt (hwidth : 0 ≤ width) (hheight : 0 < height) : p.pitch < 2 ^ 31 := by
  have hrow := p.rowSize_le
  have hsize := p.size_lt
  have hone : p.pitch * 1 ≤ p.pitch * height := Int.mul_le_mul_of_nonneg_left (by omega) (by omega)
  omega

end SamplePlane

section Rows

variable {width height y x pos pitch srcPos srcPitch : ℤ} {memory origin : ℤ → UInt8}

/-- A sample of rows that were written. -/
theorem load16_rows {rowBytes : ℤ} {lines : ℤ → ℤ → BitVec 16} (hpitch : rowBytes ≤ pitch)
    (hy : 0 ≤ y ∧ y < height) (hx : 0 ≤ x ∧ 2 * x + 2 ≤ rowBytes) :
    load16 (forLoop 0 height 1 (copyRow pos pitch rowBytes fun y => sampleBytes (lines y)) memory)
      (pos + pitch * y + 2 * x) = lines y x := by
  rw [← load16_sampleBytes (lines y) x]
  refine load16_congr ?_ ?_
  · exact forLoop_rows_inside hpitch hy (by omega)
  · rw [add_assoc]
    exact forLoop_rows_inside hpitch hy (by omega)

/-- A sample of a plane that was copied. -/
theorem load16_bitBlt (hpitch : 2 * width ≤ pitch) (hsize : pitch * height < 2 ^ 31)
    (hy : 0 ≤ y ∧ y < height) (hx : 0 ≤ x ∧ x < width) (hrow : pitch < 2 ^ 31) :
    load16 (bitBlt memory pos pitch origin srcPos srcPitch (i32 (width * 2)) height)
      (pos + pitch * y + 2 * x) = load16 origin (srcPos + srcPitch * y + 2 * x) := by
  rw [i32_of_range (by omega) (by omega)]
  refine load16_congr ?_ ?_
  · exact bitBlt_inside (by omega) hsize (by omega) hy (by omega)
  · rw [add_assoc, add_assoc (srcPos + srcPitch * y)]
    exact bitBlt_inside (by omega) hsize (by omega) hy (by omega)

end Rows

/-- A frame of 4:2:0 or 4:2:2. -/
structure Yuv42x (width height cheight : ℤ) where
  y : SamplePlane width height
  u : SamplePlane (width / 2) cheight
  v : SamplePlane (width / 2) cheight
  pitchUV : v.pitch = u.pitch
  width_even : width % 2 = 0
  width_nonneg : 0 ≤ width
  height_nonneg : 0 ≤ height
  cheight_nonneg : 0 ≤ cheight

variable {width height cheight : ℤ}

/-- A frame is packed into a buffer, whose rows of luma and of chroma have one pitch. -/
def packPx10_16 (cpu : CpuFlags) (f : Yuv42x width height cheight)
    (buffer : SamplePlane width (height + cheight)) (semiPackedP16 : Bool) : ℤ → UInt8 :=
  yuv42xp10_16ToPx10_16 cpu buffer.ptr.memory buffer.ptr.pos buffer.pitch f.y.ptr f.y.pitch
    f.u.ptr f.v.ptr f.u.pitch width height cheight semiPackedP16

/-- The buffer is unpacked into the planes of a frame. -/
def unpackPx10_16 (cpu : CpuFlags) (packed : ℤ → UInt8)
    (buffer : SamplePlane width (height + cheight)) (g : Yuv42x width height cheight)
    (semiPackedP16 : Bool) : (ℤ → UInt8) × ChromaMemory :=
  px10_16ToYuv42xp10_16 cpu g.y.ptr.memory g.y.ptr.pos g.y.pitch
    ⟨g.u.ptr.memory, g.v.ptr.memory⟩ g.u.ptr.pos g.v.ptr.pos g.u.pitch
    ⟨packed, buffer.ptr.pos⟩ buffer.pitch width height cheight semiPackedP16

section Packing

variable (cpu : CpuFlags) (f g : Yuv42x width height cheight)
  (buffer : SamplePlane width (height + cheight)) (semiPackedP16 : Bool) {y x : ℤ}

/-- The luma of the buffer before the chroma is written. -/
def packedLuma : ℤ → UInt8 :=
  if semiPackedP16 then
    bitBlt buffer.ptr.memory buffer.ptr.pos buffer.pitch f.y.ptr.memory f.y.ptr.pos f.y.pitch
      (i32 (width * 2)) height
  else prepareLumaShift6C true buffer.ptr.memory buffer.ptr.pos buffer.pitch f.y.ptr f.y.pitch
    width height

/-- All versions pack as the one in C. -/
theorem packPx10_16_eq : packPx10_16 cpu f buffer semiPackedP16 =
    prepareToInterleavedUvC (!semiPackedP16) (packedLuma f buffer semiPackedP16)
      (buffer.ptr.pos + i32 (buffer.pitch * height)) buffer.pitch f.u.ptr f.v.ptr f.u.pitch
      (width.tdiv 2) cheight := by
  simp only [packPx10_16, yuv42xp10_16ToPx10_16, prepareLumaShift6Sse2_eq,
    prepareToInterleavedUvSse2_eq, ite_self, packedLuma]

/-- All versions unpack as the one in C. -/
theorem unpackPx10_16_eq (packed : ℤ → UInt8) : unpackPx10_16 cpu packed buffer g semiPackedP16 =
    (if semiPackedP16 then
        bitBlt g.y.ptr.memory g.y.ptr.pos g.y.pitch packed buffer.ptr.pos buffer.pitch
          (i32 (width * 2)) height
      else prepareLumaShift6C false g.y.ptr.memory g.y.ptr.pos g.y.pitch
        ⟨packed, buffer.ptr.pos⟩ buffer.pitch width height,
      prepareFromInterleavedUvC (!semiPackedP16) ⟨g.u.ptr.memory, g.v.ptr.memory⟩ g.u.ptr.pos
        g.v.ptr.pos g.u.pitch ⟨packed, buffer.ptr.pos + i32 (buffer.pitch * height)⟩ buffer.pitch
        (width.tdiv 2) cheight) := by
  simp only [unpackPx10_16, px10_16ToYuv42xp10_16, prepareLumaShift6Sse2_eq,
    prepareFromInterleavedUvSse2_eq, prepareFromInterleavedUvSse41_eq, ite_self]

/-- Where the chroma of the buffer begins. -/
theorem chroma_start (f : Yuv42x width height cheight)
    (buffer : SamplePlane width (height + cheight)) :
    i32 (buffer.pitch * height) = buffer.pitch * height := by
  have hpitch : 0 ≤ buffer.pitch := by
    have hrow := buffer.rowSize_le
    have hwidth := f.width_nonneg
    omega
  have hsize := buffer.size_lt
  have hluma : 0 ≤ buffer.pitch * height := Int.mul_nonneg hpitch f.height_nonneg
  have hchroma : 0 ≤ buffer.pitch * cheight := Int.mul_nonneg hpitch f.cheight_nonneg
  rw [Int.mul_add] at hsize
  exact i32_of_range (by omega) (by omega)

theorem chroma_width (f : Yuv42x width height cheight) : width.tdiv 2 = width / 2 :=
  Int.tdiv_eq_ediv_of_nonneg f.width_nonneg

/-- The luma of the buffer. -/
theorem packed_luma (hy : 0 ≤ y ∧ y < height) (hx : 0 ≤ x ∧ x < width) :
    load16 (packPx10_16 cpu f buffer semiPackedP16) (buffer.ptr.pos + buffer.pitch * y + 2 * x) =
      upShift6 (!semiPackedP16) (f.y.sample y x) := by
  have hrow := buffer.rowSize_le
  have heven := f.width_even
  have hcheight := f.cheight_nonneg
  have hpitch := buffer.pitch_lt f.width_nonneg (by omega)
  have hsize : buffer.pitch * height < 2 ^ 31 := by
    have hsize := buffer.size_lt
    have hchroma : 0 ≤ buffer.pitch * cheight := Int.mul_nonneg (by omega) hcheight
    rw [Int.mul_add] at hsize
    omega
  have hbefore : buffer.pitch * y + buffer.pitch ≤ buffer.pitch * height := by
    have hle : buffer.pitch * (y + 1) ≤ buffer.pitch * height :=
      Int.mul_le_mul_of_nonneg_left (by omega) (by omega)
    rwa [Int.mul_add, Int.mul_one] at hle
  -- The chroma is written behind the last row of luma.
  have hkept : load16 (packPx10_16 cpu f buffer semiPackedP16)
      (buffer.ptr.pos + buffer.pitch * y + 2 * x) =
        load16 (packedLuma f buffer semiPackedP16)
          (buffer.ptr.pos + buffer.pitch * y + 2 * x) := by
    rw [packPx10_16_eq, prepareToInterleavedUvC_eq, chroma_start f, chroma_width f]
    exact load16_congr
      (forLoop_rows_outside (by omega) (by omega) hcheight (Or.inl (by omega)))
      (forLoop_rows_outside (by omega) (by omega) hcheight (Or.inl (by omega)))
  rw [hkept, packedLuma]
  cases semiPackedP16 with
  | true => exact load16_bitBlt hrow hsize hy hx hpitch
  | false =>
    rw [if_neg Bool.false_ne_true, prepareLumaShift6C_eq]
    exact load16_rows hrow hy (by omega)

/-- The chroma of the buffer. -/
theorem packed_chroma (hy : 0 ≤ y ∧ y < cheight) (hx : 0 ≤ x ∧ x < width / 2) :
    load16 (packPx10_16 cpu f buffer semiPackedP16)
        (buffer.ptr.pos + buffer.pitch * height + buffer.pitch * y + 4 * x) =
          upShift6 (!semiPackedP16) (f.u.sample y x) ∧
      load16 (packPx10_16 cpu f buffer semiPackedP16)
        (buffer.ptr.pos + buffer.pitch * height + buffer.pitch * y + 2 + 4 * x) =
          upShift6 (!semiPackedP16) (f.v.sample y x) := by
  have hrow := buffer.rowSize_le
  have heven := f.width_even
  rw [packPx10_16_eq, prepareToInterleavedUvC_eq, chroma_start f, chroma_width f]
  constructor
  · have hpos : buffer.ptr.pos + buffer.pitch * height + buffer.pitch * y + 4 * x =
        buffer.ptr.pos + buffer.pitch * height + buffer.pitch * y + 2 * (2 * x) := by ring
    rw [hpos, load16_rows (by omega) hy (by omega), interleavedRow_even]
    rfl
  · have hpos : buffer.ptr.pos + buffer.pitch * height + buffer.pitch * y + 2 + 4 * x =
        buffer.ptr.pos + buffer.pitch * height + buffer.pitch * y + 2 * (2 * x + 1) := by ring
    rw [hpos, load16_rows (by omega) hy (by omega), interleavedRow_odd, ← f.pitchUV]
    rfl

theorem downShift6_upShift6 {shift6 : Bool} {x : BitVec 16} (h : shift6 → IsTenBit x) :
    downShift6 shift6 (upShift6 shift6 x) = x := by
  cases shift6 with
  | true => exact (h rfl).shift
  | false => rfl

variable (cpu' : CpuFlags)

/-- The luma of a frame that is packed and unpacked. -/
theorem unpacked_luma (hten : semiPackedP16 = false → f.y.IsTenBit) :
    g.y.Shows (unpackPx10_16 cpu' (packPx10_16 cpu f buffer semiPackedP16) buffer g
      semiPackedP16).1 f.y := by
  intro y x hy0 hy hx0 hx
  have hrow := g.y.rowSize_le
  have hpitch := g.y.pitch_lt g.width_nonneg (by omega)
  have hpacked := packed_luma cpu f buffer semiPackedP16 ⟨hy0, hy⟩ ⟨hx0, hx⟩
  rw [unpackPx10_16_eq, SamplePlane.sampleIn]
  cases semiPackedP16 with
  | true =>
    dsimp only
    rw [if_pos rfl, load16_bitBlt hrow g.y.size_lt ⟨hy0, hy⟩ ⟨hx0, hx⟩ hpitch, hpacked]
    rfl
  | false =>
    dsimp only
    rw [if_neg Bool.false_ne_true, prepareLumaShift6C_eq,
      load16_rows hrow ⟨hy0, hy⟩ ⟨hx0, by omega⟩, lumaRow, hpacked]
    exact (hten rfl y x hy0 hy hx0 hx).shift

/-- Its chroma. -/
theorem unpacked_chroma
    (hten : semiPackedP16 = false → f.u.IsTenBit ∧ f.v.IsTenBit) :
    g.u.Shows (unpackPx10_16 cpu' (packPx10_16 cpu f buffer semiPackedP16) buffer g
        semiPackedP16).2.u f.u ∧
      g.v.Shows (unpackPx10_16 cpu' (packPx10_16 cpu f buffer semiPackedP16) buffer g
        semiPackedP16).2.v f.v := by
  have hrowU := g.u.rowSize_le
  have hten' : ∀ shift6 : Bool, shift6 = !semiPackedP16 → shift6 → semiPackedP16 = false := by
    rintro shift6 rfl h
    simpa using h
  rw [unpackPx10_16_eq, prepareFromInterleavedUvC_eq, chroma_start f, chroma_width f]
  constructor
  · intro y x hy0 hy hx0 hx
    have hpacked := (packed_chroma cpu f buffer semiPackedP16 ⟨hy0, hy⟩ ⟨hx0, hx⟩).1
    rw [SamplePlane.sampleIn]
    dsimp only
    rw [load16_rows (by omega) ⟨hy0, hy⟩ ⟨hx0, by omega⟩, separateRow, hpacked]
    exact downShift6_upShift6 fun h => (hten (hten' _ rfl h)).1 y x hy0 hy hx0 hx
  · intro y x hy0 hy hx0 hx
    have hpacked := (packed_chroma cpu f buffer semiPackedP16 ⟨hy0, hy⟩ ⟨hx0, hx⟩).2
    rw [SamplePlane.sampleIn, g.pitchUV]
    dsimp only
    rw [load16_rows (by omega) ⟨hy0, hy⟩ ⟨hx0, by omega⟩, separateRow, hpacked]
    exact downShift6_upShift6 fun h => (hten (hten' _ rfl h)).2 y x hy0 hy hx0 hx

end Packing

end AviSynth
