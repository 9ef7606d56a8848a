import AviSynth.Codecs.PackedPixels
import AviSynth.Codecs.SemiPackedFrames

/-!
# Frames in packed pixels

A frame of 4:4:4 that is packed as `Y416` and unpacked again is the same frame. `Y410` keeps two
bits of the alpha: the frame that is unpacked has the same luma and chroma, and its words are the
words that were packed.
-/

namespace AviSynth

open MachineInt Samples CountedLoop

/-- A frame of 4:4:4. Nothing reads or writes the last plane of a frame without alpha. -/
structure Yuva444 (width height : ℤ) where
  y : SamplePlane width height
  u : SamplePlane width height
  v : SamplePlane width height
  a : SamplePlane width height
  pitchUV : v.pitch = u.pitch
  width_nonneg : 0 ≤ width
  height_nonneg : 0 ≤ height

/-- A buffer for pixels of `bytes` bytes, whose rows begin at a multiple of `unit` bytes. -/
structure PixelBuffer (bytes unit width : ℤ) where
  ptr : ReadPtr
  pitch : ℤ
  rowSize_le : bytes * width ≤ pitch
  pitch_aligned : pitch % unit = 0
  pitch_low : -2 ^ 31 ≤ pitch
  pitch_lt : pitch < 2 ^ 31

variable {width height : ℤ}

namespace Yuva444

variable (f : Yuva444 width height)

def ptrs : YuvaPtrs := ⟨f.y.ptr, f.u.ptr, f.v.ptr, f.a.ptr⟩

def pitches : YuvaPitches := ⟨f.y.pitch, f.u.pitch, f.a.pitch⟩

def memory : YuvaMemory := ⟨f.y.ptr.memory, f.u.ptr.memory, f.v.ptr.memory, f.a.ptr.memory⟩

def positions : YuvaPositions := ⟨f.y.ptr.pos, f.u.ptr.pos, f.v.ptr.pos, f.a.ptr.pos⟩

/-- The frame after something was written into its memory. -/
def withMemory (memory : YuvaMemory) : Yuva444 width height where
  y := { f.y with ptr := ⟨memory.y, f.y.ptr.pos⟩ }
  u := { f.u with ptr := ⟨memory.u, f.u.ptr.pos⟩ }
  v := { f.v with ptr := ⟨memory.v, f.v.ptr.pos⟩ }
  a := { f.a with ptr := ⟨memory.a, f.a.ptr.pos⟩ }
  pitchUV := f.pitchUV
  width_nonneg := f.width_nonneg
  height_nonneg := f.height_nonneg

/-- All samples have ten bits. -/
structure IsTenBit (hasAlpha : Bool) : Prop where
  y : f.y.IsTenBit
  u : f.u.IsTenBit
  v : f.v.IsTenBit
  a : hasAlpha → f.a.IsTenBit

/-- The samples of a row of a frame are those of the planes. -/
theorem sample_row (y x : ℤ) :
    (f.ptrs.row f.pitches y).y.sample x = f.y.sample y x ∧
      (f.ptrs.row f.pitches y).u.sample x = f.u.sample y x ∧
      (f.ptrs.row f.pitches y).v.sample x = f.v.sample y x ∧
      (f.ptrs.row f.pitches y).a.sample x = f.a.sample y x := by
  refine ⟨rfl, rfl, ?_, rfl⟩
  rw [SamplePlane.sample, SamplePlane.sampleIn, f.pitchUV]
  rfl

end Yuva444

/-! ### `Y416` -/

section Y416

variable (hasAlpha : Bool) (f g : Yuva444 width height) (buffer : PixelBuffer 8 2 width)

/-- A frame is packed into a buffer. -/
def packY416 (f : Yuva444 width height) (buffer : PixelBuffer 8 2 width) : ℤ → UInt8 :=
  toY416C hasAlpha buffer.ptr.memory buffer.ptr.pos buffer.pitch f.ptrs f.pitches width height

def packY416Sse2 (f : Yuva444 width height) (buffer : PixelBuffer 8 2 width) : ℤ → UInt8 :=
  toY416Sse2 hasAlpha buffer.ptr.memory buffer.ptr.pos buffer.pitch f.ptrs f.pitches width height

/-- The buffer is unpacked into a frame. -/
def unpackY416 (packed : ℤ → UInt8) (buffer : PixelBuffer 8 2 width) (g : Yuva444 width height) :
    YuvaMemory :=
  fromY416C hasAlpha g.memory g.positions g.pitches ⟨packed, buffer.ptr.pos⟩ buffer.pitch width
    height

theorem packY416Sse2_eq : packY416Sse2 hasAlpha f buffer = packY416 hasAlpha f buffer :=
  toY416Sse2_eq hasAlpha _ _ _ _ _ _ buffer.pitch_aligned buffer.pitch_low buffer.pitch_lt

variable {y x : ℤ}

/-- The samples of the buffer. -/
theorem packed_uyva (hy : 0 ≤ y ∧ y < height) {i : ℤ} (hi : 0 ≤ i ∧ i < 4 * width) :
    (⟨packY416 hasAlpha f buffer, buffer.ptr.pos + buffer.pitch * y⟩ : ReadPtr).sample i =
      uyvaRow hasAlpha (f.ptrs.row f.pitches y) i := by
  have hrow := buffer.rowSize_le
  have hpitch := samplePitch_even buffer.pitch_aligned buffer.pitch_low buffer.pitch_lt
  rw [ReadPtr.sample, packY416, toY416C_eq, hpitch]
  exact load16_rows (by omega) hy (by omega)

/-- A plane that `FromY416_c` writes. -/
theorem unpackedY416_plane (part : YuvaMemory → ℤ → UInt8) {p : SamplePlane width height}
    {packed : ℤ → UInt8} {i : ℤ}
    (hbody : ∀ y x memory, part (fromUyvaSample hasAlpha (g.positions.row g.pitches y)
      ⟨packed, buffer.ptr.pos + buffer.pitch * y⟩ x memory) =
        store16 (part memory) (p.ptr.pos + p.pitch * y + 2 * x)
          ((⟨packed, buffer.ptr.pos + buffer.pitch * y⟩ : ReadPtr).sample (x * 4 + i)))
    (hy : 0 ≤ y ∧ y < height) (hx : 0 ≤ x ∧ x < width) :
    p.sampleIn (part (unpackY416 hasAlpha packed buffer g)) y x =
      (⟨packed, buffer.ptr.pos + buffer.pitch * y⟩ : ReadPtr).sample (x * 4 + i) := by
  have hpitch := samplePitch_even buffer.pitch_aligned buffer.pitch_low buffer.pitch_lt
  rw [unpackY416, fromY416C, hpitch, planeRows_eq hbody width height g.memory]
  exact load16_rows p.rowSize_le hy (by omega)

/-- A frame that is packed as `Y416` and unpacked. -/
theorem unpacked_packY416 :
    g.y.Shows (unpackY416 hasAlpha (packY416 hasAlpha f buffer) buffer g).y f.y ∧
      g.u.Shows (unpackY416 hasAlpha (packY416 hasAlpha f buffer) buffer g).u f.u ∧
      g.v.Shows (unpackY416 hasAlpha (packY416 hasAlpha f buffer) buffer g).v f.v ∧
      (hasAlpha → g.a.Shows (unpackY416 hasAlpha (packY416 hasAlpha f buffer) buffer g).a f.a) := by
  refine ⟨fun y x hy0 hy hx0 hx => ?_, fun y x hy0 hy hx0 hx => ?_, fun y x hy0 hy hx0 hx => ?_,
    fun halpha y x hy0 hy hx0 hx => ?_⟩
  all_goals
    obtain ⟨hu', hy', hv', ha'⟩ := uyvaRow_eq hasAlpha (f.ptrs.row f.pitches y) x
    obtain ⟨hy'', hu'', hv'', ha''⟩ := f.sample_row y x
  · rw [unpackedY416_plane hasAlpha g buffer YuvaMemory.y (fun _ _ _ => rfl) ⟨hy0, hy⟩
      ⟨hx0, hx⟩, packed_uyva hasAlpha f buffer ⟨hy0, hy⟩ (by omega), hy', hy'']
  · rw [unpackedY416_plane hasAlpha g buffer YuvaMemory.u (fun _ _ _ => rfl) ⟨hy0, hy⟩
      ⟨hx0, hx⟩, packed_uyva hasAlpha f buffer ⟨hy0, hy⟩ (by omega), hu', hu'']
  · rw [unpackedY416_plane hasAlpha g buffer YuvaMemory.v
      (fun _ _ _ => by rw [g.pitchUV]; rfl) ⟨hy0, hy⟩ ⟨hx0, hx⟩,
      packed_uyva hasAlpha f buffer ⟨hy0, hy⟩ (by omega), hv', hv'']
  · rw [unpackedY416_plane hasAlpha g buffer YuvaMemory.a
      (fun _ _ _ => if_pos halpha) ⟨hy0, hy⟩ ⟨hx0, hx⟩,
      packed_uyva hasAlpha f buffer ⟨hy0, hy⟩ (by omega), ha', alphaSample, if_pos halpha, ha'']

end Y416

/-! ### `Y410` -/

section Y410

variable (hasAlpha : Bool) (f g : Yuva444 width height) (buffer : PixelBuffer 4 4 width)

def packY410 (f : Yuva444 width height) (buffer : PixelBuffer 4 4 width) : ℤ → UInt8 :=
  toY410C hasAlpha buffer.ptr.memory buffer.ptr.pos buffer.pitch f.ptrs f.pitches width height

def unpackY410 (packed : ℤ → UInt8) (buffer : PixelBuffer 4 4 width) (g : Yuva444 width height) :
    YuvaMemory :=
  fromY410C hasAlpha g.memory g.positions g.pitches ⟨packed, buffer.ptr.pos⟩ buffer.pitch width
    height

/-- A word of a buffer. -/
def PixelBuffer.word (packed : ℤ → UInt8) (buffer : PixelBuffer 4 4 width) (y x : ℤ) : BitVec 32 :=
  load32 packed (buffer.ptr.pos + buffer.pitch * y + 4 * x)

variable {y x : ℤ}

/-- The words of the buffer. -/
theorem packed_word (hy : 0 ≤ y ∧ y < height) (hx : 0 ≤ x ∧ x < width) :
    buffer.word (packY410 hasAlpha f buffer) y x =
      y410Word hasAlpha (f.y.sample y x) (f.u.sample y x) (f.v.sample y x) (f.a.sample y x) := by
  have hrow := buffer.rowSize_le
  have hpitch := wordPitch_aligned buffer.pitch_aligned buffer.pitch_low buffer.pitch_lt
  have hsample (i : ℤ) (hi : 0 ≤ i ∧ 2 * i + 2 ≤ 4 * width) :
      load16 (packY410 hasAlpha f buffer) (buffer.ptr.pos + buffer.pitch * y + 2 * i) =
        wordSamples (y410Row hasAlpha (f.ptrs.row f.pitches y)) i := by
    rw [packY410, toY410C_eq, hpitch]
    exact load16_rows hrow hy hi
  have hlow : buffer.ptr.pos + buffer.pitch * y + 4 * x =
      buffer.ptr.pos + buffer.pitch * y + 2 * (2 * x) := by ring
  have hhigh : buffer.ptr.pos + buffer.pitch * y + 2 * (2 * x) + 2 =
      buffer.ptr.pos + buffer.pitch * y + 2 * (2 * x + 1) := by ring
  obtain ⟨hy', hu', hv', ha'⟩ := f.sample_row y x
  rw [PixelBuffer.word, load32, hlow, hhigh, hsample _ (by omega), hsample _ (by omega), ← lane32,
    lane32_wordSamples, y410Row, hy', hu', hv', ha']

/-- A plane that `FromY410_c` writes. -/
theorem unpackedY410_plane (part : YuvaMemory → ℤ → UInt8) (sample : BitVec 32 → BitVec 16)
    {p : SamplePlane width height} {packed : ℤ → UInt8}
    (hbody : ∀ y x memory, part (fromY410Word hasAlpha (g.positions.row g.pitches y)
      ⟨packed, buffer.ptr.pos + buffer.pitch * y⟩ x memory) =
        store16 (part memory) (p.ptr.pos + p.pitch * y + 2 * x) (sample (buffer.word packed y x)))
    (hy : 0 ≤ y ∧ y < height) (hx : 0 ≤ x ∧ x < width) :
    p.sampleIn (part (unpackY410 hasAlpha packed buffer g)) y x =
      sample (buffer.word packed y x) := by
  have hpitch := wordPitch_aligned buffer.pitch_aligned buffer.pitch_low buffer.pitch_lt
  rw [unpackY410, fromY410C, hpitch, planeRows_eq hbody width height g.memory]
  exact load16_rows p.rowSize_le hy (by omega)

/-- What `FromY410_c` makes of the words. -/
theorem unpackedY410_samples (packed : ℤ → UInt8) (hy : 0 ≤ y ∧ y < height)
    (hx : 0 ≤ x ∧ x < width) :
    g.y.sampleIn (unpackY410 hasAlpha packed buffer g).y y x =
        v210Field (buffer.word packed y x) 10 ∧
      g.u.sampleIn (unpackY410 hasAlpha packed buffer g).u y x =
        v210Field (buffer.word packed y x) 0 ∧
      g.v.sampleIn (unpackY410 hasAlpha packed buffer g).v y x =
        v210Field (buffer.word packed y x) 20 ∧
      (hasAlpha → g.a.sampleIn (unpackY410 hasAlpha packed buffer g).a y x =
        y410Alpha (buffer.word packed y x)) := by
  refine ⟨?_, ?_, ?_, fun halpha => ?_⟩
  · exact unpackedY410_plane hasAlpha g buffer YuvaMemory.y
      (fun uyva => v210Field uyva 10) (fun _ _ _ => rfl) hy hx
  · exact unpackedY410_plane hasAlpha g buffer YuvaMemory.u
      (fun uyva => v210Field uyva 0) (fun _ _ _ => rfl) hy hx
  · exact unpackedY410_plane hasAlpha g buffer YuvaMemory.v
      (fun uyva => v210Field uyva 20) (fun _ _ _ => by rw [g.pitchUV]; rfl) hy hx
  · exact unpackedY410_plane hasAlpha g buffer YuvaMemory.a y410Alpha
      (fun _ _ _ => if_pos halpha) hy hx

/-- Luma and chroma of a frame that is packed as `Y410` and unpacked. -/
theorem unpacked_packY410 (hten : f.IsTenBit hasAlpha) :
    g.y.Shows (unpackY410 hasAlpha (packY410 hasAlpha f buffer) buffer g).y f.y ∧
      g.u.Shows (unpackY410 hasAlpha (packY410 hasAlpha f buffer) buffer g).u f.u ∧
      g.v.Shows (unpackY410 hasAlpha (packY410 hasAlpha f buffer) buffer g).v f.v := by
  have hfields {y x : ℤ} (hy : 0 ≤ y ∧ y < height) (hx : 0 ≤ x ∧ x < width) :=
    y410Word_fields (hten.y y x hy.1 hy.2 hx.1 hx.2) (hten.u y x hy.1 hy.2 hx.1 hx.2)
      (hten.v y x hy.1 hy.2 hx.1 hx.2) fun halpha => hten.a halpha y x hy.1 hy.2 hx.1 hx.2
  refine ⟨fun y x hy0 hy hx0 hx => ?_, fun y x hy0 hy hx0 hx => ?_, fun y x hy0 hy hx0 hx => ?_⟩
  all_goals
    obtain ⟨hfieldU, hfieldY, hfieldV⟩ := hfields ⟨hy0, hy⟩ ⟨hx0, hx⟩
    obtain ⟨hy', hu', hv', -⟩ := unpackedY410_samples hasAlpha g buffer
      (packY410 hasAlpha f buffer) ⟨hy0, hy⟩ ⟨hx0, hx⟩
    rw [packed_word hasAlpha f buffer ⟨hy0, hy⟩ ⟨hx0, hx⟩] at hy' hu' hv'
  · exact hy'.trans hfieldY
  · exact hu'.trans hfieldU
  · exact hv'.trans hfieldV

/-- The frame that is unpacked has the words that were packed, with their alpha. -/
theorem repacked_word (hten : f.IsTenBit hasAlpha) (buffer' : PixelBuffer 4 4 width)
    (hy : 0 ≤ y ∧ y < height) (hx : 0 ≤ x ∧ x < width) :
    buffer'.word (packY410 hasAlpha
        (g.withMemory (unpackY410 hasAlpha (packY410 hasAlpha f buffer) buffer g)) buffer') y x =
      buffer.word (packY410 hasAlpha f buffer) y x := by
  have hbits : (buffer.word (packY410 hasAlpha f buffer) y x).toNat / 2 ^ 30 =
      alphaBits hasAlpha (f.a.sample y x) := by
    rw [packed_word hasAlpha f buffer hy hx]
    exact y410Word_alpha (hten.y y x hy.1 hy.2 hx.1 hx.2) (hten.u y x hy.1 hy.2 hx.1 hx.2)
      (hten.v y x hy.1 hy.2 hx.1 hx.2) fun halpha => hten.a halpha y x hy.1 hy.2 hx.1 hx.2
  generalize packY410 hasAlpha f buffer = packed at hbits ⊢
  obtain ⟨hy', hu', hv', ha'⟩ := unpackedY410_samples hasAlpha g buffer packed hy hx
  have hword : buffer'.word (packY410 hasAlpha
      (g.withMemory (unpackY410 hasAlpha packed buffer g)) buffer') y x =
        y410Word hasAlpha (v210Field (buffer.word packed y x) 10)
          (v210Field (buffer.word packed y x) 0) (v210Field (buffer.word packed y x) 20)
          (g.a.sampleIn (unpackY410 hasAlpha packed buffer g).a y x) := by
    rw [← hy', ← hu', ← hv']
    exact packed_word hasAlpha (g.withMemory (unpackY410 hasAlpha packed buffer g)) buffer' hy hx
  rw [hword]
  cases hasAlpha with
  | true =>
    rw [ha' rfl]
    exact y410Word_fields_eq _ (fun _ => (y410Alpha_bits _).1) (y410Alpha_bits _).2
  | false => exact y410Word_fields_eq _ nofun hbits.symm

end Y410

/-!
## Packed formats of more than eight bits

For each format the decoder is the inverse of the encoder, and it does not matter which
instructions the processor has.
-/

variable {width height cheight : ℤ}

/-- A frame of 4:2:0 or 4:2:2 for `P010` and `P210`, which have samples of ten bits, or for `P016`
and `P216`. -/
structure SemiPackedFrame (semiPackedP16 : Bool) (width height cheight : ℤ) extends
    Yuv42x width height cheight where
  fits : semiPackedP16 = false → y.IsTenBit ∧ u.IsTenBit ∧ v.IsTenBit

/-- A frame of 4:4:4 with samples of ten bits. -/
structure TenBitFrame (hasAlpha : Bool) (width height : ℤ) extends Yuva444 width height where
  fits : toYuva444.IsTenBit hasAlpha

/-- The samples of a frame are there in what was unpacked. -/
def Yuv42x.Shows (g : Yuv42x width height cheight) (unpacked : (ℤ → UInt8) × ChromaMemory)
    (f : Yuv42x width height cheight) : Prop :=
  g.y.Shows unpacked.1 f.y ∧ g.u.Shows unpacked.2.u f.u ∧ g.v.Shows unpacked.2.v f.v

/-- Luma and chroma of a frame are there in what was unpacked. -/
def Yuva444.ShowsColor (g : Yuva444 width height) (unpacked : YuvaMemory)
    (f : Yuva444 width height) : Prop :=
  g.y.Shows unpacked.y f.y ∧ g.u.Shows unpacked.u f.u ∧ g.v.Shows unpacked.v f.v

theorem semiPackedFrame_inverse (cpu cpu' : CpuFlags) {semiPackedP16 : Bool}
    (f : SemiPackedFrame semiPackedP16 width height cheight) (g : Yuv42x width height cheight)
    (buffer : SamplePlane width (height + cheight)) :
    g.Shows (unpackPx10_16 cpu' (packPx10_16 cpu f.toYuv42x buffer semiPackedP16) buffer g
      semiPackedP16) f.toYuv42x :=
  ⟨unpacked_luma cpu f.toYuv42x g buffer semiPackedP16 cpu' fun h => (f.fits h).1,
    unpacked_chroma cpu f.toYuv42x g buffer semiPackedP16 cpu' fun h => (f.fits h).2⟩

/-- The encoders and decoders of packed formats are inverse to each other, and all versions of
one function write the same bytes. -/
theorem packedCodecs_inverse :
    (∀ (cpu cpu' : CpuFlags) (width height cheight : ℤ) (semiPackedP16 : Bool)
      (f : SemiPackedFrame semiPackedP16 width height cheight) (g : Yuv42x width height cheight)
      (buffer : SamplePlane width (height + cheight)),
      g.Shows (unpackPx10_16 cpu' (packPx10_16 cpu f.toYuv42x buffer semiPackedP16) buffer g
        semiPackedP16) f.toYuv42x) ∧
    (∀ (width height : ℤ) (hasAlpha : Bool) (f g : Yuva444 width height)
      (buffer : PixelBuffer 8 2 width),
      g.ShowsColor (unpackY416 hasAlpha (packY416 hasAlpha f buffer) buffer g) f ∧
        (hasAlpha →
          g.a.Shows (unpackY416 hasAlpha (packY416 hasAlpha f buffer) buffer g).a f.a) ∧
        packY416Sse2 hasAlpha f buffer = packY416 hasAlpha f buffer) ∧
    (∀ (width height : ℤ) (hasAlpha : Bool) (f : TenBitFrame hasAlpha width height)
      (g : Yuva444 width height) (buffer buffer' : PixelBuffer 4 4 width),
      g.ShowsColor (unpackY410 hasAlpha (packY410 hasAlpha f.toYuva444 buffer) buffer g)
          f.toYuva444 ∧
        ∀ y x, 0 ≤ y ∧ y < height → 0 ≤ x ∧ x < width →
          buffer'.word (packY410 hasAlpha (g.withMemory
            (unpackY410 hasAlpha (packY410 hasAlpha f.toYuva444 buffer) buffer g)) buffer') y x =
              buffer.word (packY410 hasAlpha f.toYuva444 buffer) y x) ∧
    (∀ before dst dstp dstpitch src srcpitch width height,
      prepareLumaShift6Sse2 before dst dstp dstpitch src srcpitch width height =
        prepareLumaShift6C before dst dstp dstpitch src srcpitch width height) ∧
    (∀ shift6 dst dstp dstpitch srcu srcv pitchUV width height,
      prepareToInterleavedUvSse2 shift6 dst dstp dstpitch srcu srcv pitchUV width height =
        prepareToInterleavedUvC shift6 dst dstp dstpitch srcu srcv pitchUV width height) ∧
    (∀ shift6 dst dstu dstv pitchUV src srcpitch width height,
      prepareFromInterleavedUvSse2 shift6 dst dstu dstv pitchUV src srcpitch width height =
          prepareFromInterleavedUvC shift6 dst dstu dstv pitchUV src srcpitch width height ∧
        prepareFromInterleavedUvSse41 shift6 dst dstu dstv pitchUV src srcpitch width height =
          prepareFromInterleavedUvC shift6 dst dstu dstv pitchUV src srcpitch width height) := by
  refine ⟨?_, ?_, ?_, ?_, ?_, ?_⟩
  · intro cpu cpu' width height cheight semiPackedP16 f g buffer
    exact semiPackedFrame_inverse cpu cpu' f g buffer
  · intro width height hasAlpha f g buffer
    obtain ⟨hy, hu, hv, ha⟩ := unpacked_packY416 hasAlpha f g buffer
    exact ⟨⟨hy, hu, hv⟩, ha, packY416Sse2_eq hasAlpha f buffer⟩
  · intro width height hasAlpha f g buffer buffer'
    exact ⟨unpacked_packY410 hasAlpha f.toYuva444 g buffer f.fits,
      fun y x hy hx => repacked_word hasAlpha f.toYuva444 g buffer f.fits buffer' hy hx⟩
  · exact prepareLumaShift6Sse2_eq
  · exact prepareToInterleavedUvSse2_eq
  · intro shift6 dst dstu dstv pitchUV src srcpitch width height
    exact ⟨prepareFromInterleavedUvSse2_eq shift6 dst dstu dstv pitchUV src srcpitch width height,
      prepareFromInterleavedUvSse41_eq shift6 dst dstu dstv pitchUV src srcpitch width height⟩

/-- Two samples that are the same. -/
def grayPlane : SamplePlane 2 1 := ⟨⟨fun _ => 1, 0⟩, 4, by decide, by decide⟩

theorem isTenBit_grayPlane : grayPlane.IsTenBit := by
  intro y x _ _ _ _
  have hsample : grayPlane.sample y x = joinHalves 16 1#8 1#8 := rfl
  rw [hsample]
  unfold Samples.IsTenBit
  decide

/-- A frame of two pixels. -/
def grayFrame (hasAlpha : Bool) : TenBitFrame hasAlpha 2 1 where
  y := grayPlane
  u := grayPlane
  v := grayPlane
  a := grayPlane
  pitchUV := rfl
  width_nonneg := by decide
  height_nonneg := Int.one_nonneg
  fits := ⟨isTenBit_grayPlane, isTenBit_grayPlane, isTenBit_grayPlane, fun _ => isTenBit_grayPlane⟩

def wordBuffer : PixelBuffer 4 4 2 where
  ptr := ⟨fun _ => 0, 0⟩
  pitch := 8
  rowSize_le := by decide
  pitch_aligned := by decide
  pitch_low := by decide
  pitch_lt := by decide

theorem packedCodecs_inverse_gray :
    (grayFrame true).ShowsColor (unpackY410 true (packY410 true (grayFrame true).toYuva444
      wordBuffer) wordBuffer (grayFrame true).toYuva444) (grayFrame true).toYuva444 :=
  (packedCodecs_inverse.2.2.1 2 1 true (grayFrame true) (grayFrame true).toYuva444 wordBuffer
    wordBuffer).1

end AviSynth
