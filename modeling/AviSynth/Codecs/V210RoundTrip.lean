import AviSynth.Codecs.V210Decoder

/-!
# Frames in `v210`

A frame that is packed and unpacked again is the same frame. Its rows are packed in order: the
group that is too many in a row is overwritten by the next row, if it is not behind the pitch.
-/

namespace AviSynth

open MachineInt BoundedCells CountedLoop Samples

/-- A frame of 4:2:2 in samples of two bytes. `AllocateFrame` throws where the size of its planes
is not an int. -/
structure Frame422 (width height : ℤ) where
  planes : SamplePlanes
  pitch : ℤ
  pitchUV : ℤ
  rowSize_le : 2 * width ≤ pitch
  rowSizeUV_le : width ≤ pitchUV
  size_lt : (pitch + 2 * pitchUV) * height < 2 ^ 31
  y_inside : (height - 1) * (pitch / 2) + width ≤ planes.y.length
  u_inside : (height - 1) * (pitchUV / 2) + width / 2 ≤ planes.u.length
  v_inside : (height - 1) * (pitchUV / 2) + width / 2 ≤ planes.v.length

namespace Frame422

variable {width height : ℤ}

/-- The beginning of a row. -/
def line (f : Frame422 width height) (row : ℕ) : PlanePositions :=
  ⟨row * (f.pitch / 2), row * (f.pitchUV / 2), row * (f.pitchUV / 2)⟩

/-- Its samples have ten bits. -/
def IsTenBit (f : Frame422 width height) : Prop :=
  ∀ row : ℕ, row < height → TenBitPixels f.planes (f.line row) width

/-- The memory has what the encoder reads and writes, the group behind each row included. -/
def EncoderInside (f : Frame422 width height) (out : BoundedCells (BitVec 32)) : Prop :=
  ∀ row : ℕ, row < height → GroupsInside f.planes out (f.line row)
    (row * (v210Pitch width / 4)) ((width + 10) / 6)

variable (f : Frame422 width height)

theorem row_eq_line (row : ℕ) :
    (⟨0, 0, 0⟩ : PlanePositions).row (f.pitch / 2) (f.pitchUV / 2) row = f.line row := by
  simp [PlanePositions.row, PlanePositions.advance, line]

theorem pitch_lt (hpos : 0 < width) (hheight : 0 < height) : f.pitch + 2 * f.pitchUV < 2 ^ 31 := by
  have hrow := f.rowSize_le
  have hrowUV := f.rowSizeUV_le
  have hsize := f.size_lt
  have hone : (f.pitch + 2 * f.pitchUV) * 1 ≤ (f.pitch + 2 * f.pitchUV) * height :=
    Int.mul_le_mul_of_nonneg_left (by omega) (by omega)
  omega

theorem pixelsInside (hpos : 0 < width) {row : ℕ} (hrow : row < height) :
    PixelsInside f.planes (f.line row) width := by
  have hrowSize := f.rowSize_le
  have hrowSizeUV := f.rowSizeUV_le
  have hle : (row : ℤ) ≤ height - 1 := by omega
  have hY : row * (f.pitch / 2) ≤ (height - 1) * (f.pitch / 2) :=
    Int.mul_le_mul_of_nonneg_right hle (by omega)
  have hUV : row * (f.pitchUV / 2) ≤ (height - 1) * (f.pitchUV / 2) :=
    Int.mul_le_mul_of_nonneg_right hle (by omega)
  have hposY : 0 ≤ row * (f.pitch / 2) := Int.mul_nonneg (by omega) (by omega)
  have hposUV : 0 ≤ row * (f.pitchUV / 2) := Int.mul_nonneg (by omega) (by omega)
  have hy := f.y_inside
  have hu := f.u_inside
  have hv := f.v_inside
  constructor <;> simp only [Has, line] <;> omega

end Frame422

variable {width height : ℤ} {out : BoundedCells (BitVec 32)}

/-- What the encoder has packed into the words of a frame. -/
theorem packedGroups_encoded (hpos : 0 < width) (heven : width % 2 = 0) (hheight : 0 < height)
    (src : Frame422 width height) (hinside : src.EncoderInside out) :
    ∃ words, yuv422p10ToV210 src.planes out src.pitch src.pitchUV width height = some words ∧
      ∀ row : ℕ, row < height → PackedGroups words (row * (v210Pitch width / 4)) src.planes
        (src.line row) ((width + 5) / 6).toNat := by
  have hpitch := src.pitch_lt hpos hheight
  have hrowSize := src.rowSize_le
  have hrowSizeUV := src.rowSizeUV_le
  have hgroups := rounds_v210 hpos (by omega) heven
  have hgroups' : (rounds 0 (i32 (width + 5)) 6 : ℤ) = (width + 10) / 6 := by omega
  have hv210 := v210Pitch_of_range hpos (by omega : width ≤ 805306320)
  have hpitchY : samplePitch src.pitch = src.pitch / 2 := samplePitch_of_range (by omega) (by omega)
  have hpitchUV : samplePitch src.pitchUV = src.pitchUV / 2 :=
    samplePitch_of_range (by omega) (by omega)
  have hrows : RowsInside src.planes out (src.pitch / 2) (src.pitchUV / 2) (v210Pitch width / 4)
      (rounds 0 (i32 (width + 5)) 6) height.toNat ⟨0, 0, 0⟩ 0 := by
    intro row hrow
    rw [src.row_eq_line, hgroups', zero_add]
    exact hinside row (by omega)
  obtain ⟨words, hwords, hpacked⟩ := packRows_of_inside (by omega) hrows
  refine ⟨words, ?_, fun row hrow k hk => ⟨?_, ?_⟩⟩
  · rw [yuv422p10ToV210, hpitchY, hpitchUV]
    exact hwords
  · have hout := (hinside row hrow).out.congr hpacked.length_eq
    unfold Has at *
    omega
  · have hlists := hpacked.words row (by omega) k (by omega) (by omega)
    rwa [src.row_eq_line, zero_add] at hlists

/-- A frame that is packed and unpacked is the same frame. -/
theorem v210_roundTrip (hpos : 0 < width) (heven : width % 2 = 0) (hheight : 0 < height)
    (src dst : Frame422 width height) (hten : src.IsTenBit) (hinside : src.EncoderInside out) :
    ∃ words, yuv422p10ToV210 src.planes out src.pitch src.pitchUV width height = some words ∧
      ∃ planes, v210ToYuv422p10 words dst.planes dst.pitch dst.pitchUV width height =
          some planes ∧
        ∀ row : ℕ, row < height →
          ShowsPixels planes (dst.line row) src.planes (src.line row) width := by
  obtain ⟨words, hwords, hpacked⟩ := packedGroups_encoded hpos heven hheight src hinside
  have hpitch := dst.pitch_lt hpos hheight
  have hrowSize := dst.rowSize_le
  have hrowSizeUV := dst.rowSizeUV_le
  have hv210 := v210Pitch_of_range hpos (by omega : width ≤ 805306320)
  have hpitchY : samplePitch dst.pitch = dst.pitch / 2 := samplePitch_of_range (by omega) (by omega)
  have hpitchUV : samplePitch dst.pitchUV = dst.pitchUV / 2 :=
    samplePitch_of_range (by omega) (by omega)
  obtain ⟨rest, hrest⟩ := Int.eq_ofNat_of_zero_le (by omega : 0 ≤ width - width / 6 * 6)
  have hgroups : (rounds 0 (width / 6 * 6) 6 : ℤ) = width / 6 := by
    unfold rounds
    omega
  have hwidth : ((6 * rounds 0 (width / 6 * 6) 6 + rest : ℕ) : ℤ) = width := by
    push_cast
    omega
  have hwords' : ∀ row < height.toNat, PackedGroups words ((0 + row * v210Pitch width) / 4)
      src.planes ((⟨0, 0, 0⟩ : PlanePositions).row (src.pitch / 2) (src.pitchUV / 2) row)
      ((width + 5) / 6).toNat := by
    intro row hrow
    have hstart : (0 + row * v210Pitch width) / 4 = row * (v210Pitch width / 4) := by
      have hwords4 : v210Pitch width = v210Pitch width / 4 * 4 := by omega
      rw [zero_add]
      nth_rewrite 1 [hwords4]
      rw [← mul_assoc]
      exact Int.mul_ediv_cancel _ (by decide)
    rw [hstart, src.row_eq_line]
    exact hpacked row (by omega)
  have hten' : ∀ row < height.toNat, TenBitPixels src.planes
      ((⟨0, 0, 0⟩ : PlanePositions).row (src.pitch / 2) (src.pitchUV / 2) row)
      (6 * rounds 0 (width / 6 * 6) 6 + rest : ℕ) := by
    intro row hrow
    rw [hwidth, src.row_eq_line]
    exact hten row (by omega)
  have hinside' : ∀ row < height.toNat, PixelsInside dst.planes
      ((⟨0, 0, 0⟩ : PlanePositions).row (dst.pitch / 2) (dst.pitchUV / 2) row)
      (6 * rounds 0 (width / 6 * 6) 6 + rest : ℕ) := by
    intro row hrow
    rw [hwidth, dst.row_eq_line]
    exact dst.pixelsInside hpos (by omega)
  obtain ⟨planes, hplanes, hrows⟩ :=
    unpackRows_spec (by omega) (by omega) (by omega) (by omega) hwords' hten' hinside'
  refine ⟨words, hwords, planes, ?_, fun row hrow => ?_⟩
  · rw [v210ToYuv422p10, hpitchY, hpitchUV]
    rw [hrest]
    exact hplanes
  · have hshows := hrows.shows row (by omega)
    rwa [hwidth, dst.row_eq_line, src.row_eq_line] at hshows

/-- A frame of eight pixels in three rows. -/
def Frame422.ofSample (sample : BitVec 16) : Frame422 8 3 where
  planes := ⟨⟨96, fun _ => sample⟩, ⟨96, fun _ => sample⟩, ⟨96, fun _ => sample⟩⟩
  pitch := 64
  pitchUV := 64
  rowSize_le := by decide
  rowSizeUV_le := by decide
  size_lt := by decide
  y_inside := by simp
  u_inside := by simp
  v_inside := by simp

theorem v210_roundTrip_eight :
    ∃ words, yuv422p10ToV210 (Frame422.ofSample 1023).planes ⟨96, fun _ => 0⟩ 64 64 8 3 =
        some words ∧
      ∃ planes, v210ToYuv422p10 words (Frame422.ofSample 0).planes 64 64 8 3 = some planes ∧
        ∀ row : ℕ, row < (3 : ℤ) → ShowsPixels planes ((Frame422.ofSample 0).line row)
          (Frame422.ofSample 1023).planes ((Frame422.ofSample 1023).line row) 8 := by
  refine v210_roundTrip (by decide) (by decide) (by decide) (.ofSample 1023) (.ofSample 0) ?_ ?_
  · intro row hrow
    have hten : IsTenBit 1023 := by
      unfold IsTenBit
      decide
    exact ⟨fun _ _ _ => hten, fun _ _ _ => hten, fun _ _ _ => hten⟩
  · intro row hrow
    have hpitch : v210Pitch 8 = 128 := by decide
    constructor <;> simp only [Has, Frame422.line, Frame422.ofSample, hpitch] <;> omega

end AviSynth
