import AviSynth.AviFile.StreamBounds

/-!
# The functions of a stream agree

`Info`, `ReadFormat` and `Read2` announce one format and one size, and `Read2`
writes within the size, but for two combinations of options: both packings of
10-bit 4:2:2, and padded scanlines with chroma rows of certain lengths.
-/

namespace AviSynth

open MachineInt PixelType Alignment

/-- The codes announce the same format. The compression of packed 8-bit RGB has no code
of four characters; its handler is `'DIB '`. -/
def SameFormat (handler compression : ℕ) : Prop :=
  handler = compression ∨ handler = FourCC.dib ∧ compression = FourCC.biRGB
  deriving Decidable

/-- A clip with frames of positive size for which `Info` has a code, and whose bitmaps
have a size, computed exactly, that fits 31 bits. -/
structure Exportable (o : AviOptions) (vi : VideoInfo) : Prop where
  width : 0 < vi.width
  height : 0 < vi.height
  legal : ∃ shape, vi.newVideoFrameOnDevice = .ok shape
  coded : o.fccHandler (vi.final o).pixelType ≠ FourCC.unknown
  fits : ∃ size, o.imageSize id (vi.final o) = .ok size ∧ size < 2 ^ 31

/-- The functions of a stream announce the same format and the same size, and a frame
that is read is written within the buffer of the caller. -/
def StreamAgrees (o : AviOptions) (vi : VideoInfo) : Prop :=
  ∃ asi bi, info o vi = .ok asi ∧ readFormat o vi = .ok bi ∧
    SameFormat asi.fccHandler bi.biCompression ∧ asi.dwSampleSize = bi.biSizeImage ∧
    asi.dwSuggestedBufferSize = bi.biSizeImage ∧
    ∀ numFrames lStart, lStart < numFrames → ∀ cbBuffer,
      ∃ result, read2 o vi numFrames lStart cbBuffer = .ok result ∧
        result.plBytes = bi.biSizeImage ∧
        ∀ bytes ∈ cbBuffer, ∀ output ∈ result.output, output.Within bytes

/-- Both packings of 10-bit 4:2:2 are asked for. -/
def AsksForBoth (o : AviOptions) (t : PixelType) : Prop :=
  t = csYUV422P10 ∧ o.enableV210 ∧ o.enableY3_10_10

/-- The 4:2:2 types whose planes are kept apart on the way out. -/
def KeepsPlanes (o : AviOptions) (t : PixelType) : Prop :=
  t = csYUV422P10 ∧ o.enableY3_10_10 ∧ ¬o.enableV210 ∨
    t ∈ [csYUV422P12, csYUV422P14, csYUV422P16, csYUV422PS] ∧ o.enableY3_10_16

/-- Scanlines are padded, and the width is one whose chroma rows are padded to more than
their part of the luma rows. -/
def PadsChroma (o : AviOptions) (t : PixelType) (width : ℤ) : Prop :=
  o.aviPadScanlines ∧
    ((IsYV12 t ∨ IsYV16 t) ∧ (width % 8 = 2 ∨ width % 8 = 4) ∨
      IsYV411 t ∧ width % 16 ≠ 0 ∨ KeepsPlanes o t ∧ width % 4 = 2)

/-- The same for the type of the bitmaps. -/
def PadsFinal (o : AviOptions) (final : PixelType) (width : ℤ) : Prop :=
  o.aviPadScanlines ∧
    ((IsYV12 final ∨ IsYV16 final) ∧ (width % 8 = 2 ∨ width % 8 = 4) ∨
      IsYV411 final ∧ width % 16 ≠ 0 ∨
      (final = csYUV422P10 ∧ o.enableY3_10_10 ∧ ¬o.enableV210 ∨
        final = csYUV422P16 ∧ o.enableY3_10_16) ∧ width % 4 = 2)

variable {o : AviOptions} {vi : VideoInfo} {t : PixelType} {w h b : ℤ} {m n : ℕ} {s : SampleStorage}

/-- The codes are the same but for 10-bit 4:2:2 with both packings. -/
theorem sameFormat_iff (ht : (t, s) ∈ exported) :
    SameFormat (o.fccHandler t) (o.biCompression t) ↔ ¬AsksForBoth o t := by
  have hall : ∀ v210 b64a y3_10_10 y3_10_16 : Bool, exported.all (fun p =>
      let o : AviOptions := ⟨false, false, v210, b64a, y3_10_10, y3_10_16, false⟩
      decide (SameFormat (o.fccHandler p.1) (o.biCompression p.1) ↔
        ¬(p.1 = csYUV422P10 ∧ v210 ∧ y3_10_10))) = true := by decide
  have h := of_decide_eq_true (List.all_eq_true.mp
    (hall o.enableV210 o.enableB64a o.enableY3_10_10 o.enableY3_10_16) (t, s) ht)
  exact h

/-- The chroma planes have rows of their own. -/
def SampleStorage.isYuv : SampleStorage → Bool
  | yuv _ _ _ => true
  | _ => false

/-- Among the exported types only planar YUV has chroma rows of its own. -/
theorem yuv_of_padsChroma (ht : (t, s) ∈ exported)
    (h : IsYV12 t ∨ IsYV16 t ∨ IsYV411 t ∨ t = csYUV422P10 ∨ t = csYUV422P16) :
    ∃ b m n, s = .yuv b m n := by
  have hall : exported.all (fun p => decide (IsYV12 p.1 ∨ IsYV16 p.1 ∨ IsYV411 p.1 ∨
      p.1 = csYUV422P10 ∨ p.1 = csYUV422P16 → p.2.isYuv)) = true := by decide
  have hs := of_decide_eq_true (List.all_eq_true.mp hall (t, s) ht) h
  cases s with
  | yuv b m n => exact ⟨b, m, n, rfl⟩
  | packed | rgb | y416 => cases hs

/-- The widths whose padded chroma rows overrun, for the type of the bitmaps. -/
theorem overruns_iff (hs : Stored t (.yuv b m n)) (hwidth : 2 ^ m ∣ w) (hout : ¬Interleaves o t)
    (hv210 : ¬(t = csYUV422P10 ∧ o.enableV210)) :
    Overruns o (w * b) m ↔ PadsFinal o t w := by
  obtain ⟨-, -, -, -, -, -, -, -, -, -, -, h444, ha444, -, -, hrepacked, hyv12, hyv411, hplain⟩ :=
    hs
  rw [Overruns, chromaPitch, rowPitch, rowPitch, PadsFinal]
  by_cases hpad : o.aviPadScanlines
  swap
  · have hrow : 2 ^ m * (w * b / 2 ^ m) = w * b := Int.mul_ediv_cancel' (hwidth.mul_right b)
    simp [hpad, hrow]
  simp only [hpad, if_true, true_and, roundUp]
  by_cases htype : IsRepacked t
  · obtain ⟨rfl, rfl⟩ := hrepacked htype
    have hkept : t = csYUV422P10 ∧ o.enableY3_10_10 ∧ ¬o.enableV210 ∨
        t = csYUV422P16 ∧ o.enableY3_10_16 := by
      simp only [IsRepacked, List.mem_cons, List.not_mem_nil, or_false] at htype
      rcases htype with ht | ht | ht | ht | ht | ht
      · exact (h444 ht).elim
      · exact (ha444 ht).elim
      · exact (hout (.inl ht)).elim
      · exact (hout (.inr (.inl ht))).elim
      · have hkept : ¬o.enableV210 := fun hoption => hv210 ⟨ht, hoption⟩
        refine .inl ⟨ht, ?_, hkept⟩
        by_contra hoption
        exact hout (.inr (.inr (.inl ⟨ht, hoption, hkept⟩)))
      · refine .inr ⟨ht, ?_⟩
        by_contra hoption
        exact hout (.inr (.inr (.inr ⟨ht, hoption⟩)))
    simp only [hyv12, hyv411, hkept, true_and]
    omega
  · obtain ⟨rfl, hm⟩ := hplain htype
    simp only [IsRepacked, List.mem_cons, List.not_mem_nil, or_false, not_or] at htype
    simp only [hyv12, hyv411, htype, false_and, or_self, or_false, true_and]
    obtain rfl | rfl | rfl : m = 0 ∨ m = 1 ∨ m = 2 := by omega
    all_goals omega

/-- The encoder of `v210` is used for none of the types with padded chroma. -/
theorem not_padsFinal_v210 (ht : (t, s) ∈ exported)
    (hv210 : t = csYUV422P10 ∧ o.enableV210) : ¬PadsFinal o t w := by
  obtain ⟨rfl, hoption⟩ := hv210
  have htests : ¬(IsYV12 csYUV422P10 ∨ IsYV16 csYUV422P10) ∧ ¬IsYV411 csYUV422P10 ∧
      csYUV422P10 ≠ csYUV422P16 := by decide
  simp [PadsFinal, htests, hoption]

/-- Interleaved chroma is written for none of them either. -/
theorem not_padsFinal_interleaves (hs : Stored t (.yuv b m n)) (hout : Interleaves o t) :
    ¬PadsFinal o t w := by
  obtain ⟨-, -, -, -, -, -, -, -, -, -, -, -, -, -, -, hrepacked, hyv12, hyv411, -⟩ := hs
  have htype : IsRepacked t := by
    rcases hout with rfl | rfl | ⟨rfl, -⟩ | ⟨rfl, -⟩ <;> simp [IsRepacked]
  obtain ⟨rfl, rfl⟩ := hrepacked htype
  have hne : csYUV420P10 ≠ csYUV422P10 ∧ csYUV420P10 ≠ csYUV422P16 ∧
      csYUV420P16 ≠ csYUV422P10 ∧ csYUV420P16 ≠ csYUV422P16 ∧ csYUV422P10 ≠ csYUV422P16 := by
    decide
  rintro ⟨-, ⟨h12, -⟩ | ⟨h411, -⟩ | ⟨hkept, -⟩⟩
  · have := hyv12.mp h12
    omega
  · have := hyv411.mp h411
    omega
  · rcases hout with rfl | rfl | ⟨rfl, h1, h2⟩ | ⟨rfl, h1⟩ <;> simp_all

/-- The size of bitmaps that the encoder of `v210` writes. -/
theorem v210_within (hv210 : t = csYUV422P10 ∧ o.enableV210) :
    o.imageSize i32 ⟨w, h, t⟩ = .ok
      (let row := i32 (i32 (16 * ((w + 5) / 6)) + 127)
      i32 ((row - row % 128) * h)) ∧
      ∀ shape size, (writeFrame o t shape w h).Within size := by
  obtain ⟨rfl, hoption⟩ := hv210
  have hne : csYUV422P10 ∉ [csYUV444P16, csYUVA444P16, csRGBP10, csYV24, csYUVA444, csYUV444P10,
      csYUVA444P10, csYUV420P10, csYUV420P16, csYUV422P16] := by decide
  simp only [List.mem_cons, List.not_mem_nil, or_false, not_or] at hne
  constructor
  · simp only [AviOptions.imageSize, aviHelperImageSize, hne, or_self, false_and, if_false,
      hoption, and_self, if_true]
    rfl
  · intro shape size
    simp [writeFrame, hne, hoption, FrameOutput.Within]

/-- The chroma of planar YUV has at least a quarter of the columns. -/
theorem subWidth_le (hs : Stored t (.yuv b m n)) : m ≤ 2 := by
  obtain ⟨-, -, -, -, -, -, -, -, -, -, -, -, -, -, -, hrepacked, -, -, hplain⟩ := hs
  by_cases htype : IsRepacked t
  · have := hrepacked htype
    omega
  · exact (hplain htype).2

/-- A bitmap of an exported type: the size that is computed, and when what is written
stays within it. -/
theorem bitmap_within_iff (ht : (t, s) ∈ exported) (hsup : t ∈ supported) (hw : 0 < w) (hh : 0 < h)
    {shape : FrameShape} (hframe : VideoInfo.newVideoFrameOnDevice ⟨w, h, t⟩ = .ok shape)
    (hfits : ∃ size, o.imageSize id ⟨w, h, t⟩ = .ok size ∧ size < 2 ^ 31) :
    ∃ size, o.imageSize i32 ⟨w, h, t⟩ = .ok size ∧
      ((writeFrame o t shape w h).Within size ↔ ¬PadsFinal o t w) := by
  have hs := exported_stored ht
  have hother : s.isYuv = false → ¬PadsFinal o t w := by
    rintro hyuv ⟨-, hpads⟩
    have htype : IsYV12 t ∨ IsYV16 t ∨ IsYV411 t ∨ t = csYUV422P10 ∨ t = csYUV422P16 := by
      rcases hpads with ⟨hyv12 | hyv16, -⟩ | ⟨hyv411, -⟩ | ⟨⟨h10, -⟩ | ⟨h16, -⟩, -⟩
      · exact .inl hyv12
      · exact .inr (.inl hyv16)
      · exact .inr (.inr (.inl hyv411))
      · exact .inr (.inr (.inr (.inl h10)))
      · exact .inr (.inr (.inr (.inr h16)))
    obtain ⟨b, m, n, rfl⟩ := yuv_of_padsChroma ht htype
    cases hyuv
  obtain ⟨size, hsize, hfits⟩ := hfits
  cases s with
  | packed b =>
    rw [imageSize_packed id hs] at hsize
    obtain rfl := Except.ok.inj hsize
    simp only [id_eq, padTo4_id] at hfits
    obtain ⟨hi32, hwithin⟩ := packed_within (o := o) hw hh hs hfits
    rw [shape_packed hsup hs hframe]
    exact ⟨_, hi32, iff_of_true hwithin (hother rfl)⟩
  | rgb b alpha =>
    rw [imageSize_rgb id hs] at hsize
    obtain rfl := Except.ok.inj hsize
    simp only [id_eq, padTo4_id] at hfits
    obtain ⟨hi32, hwithin⟩ := rgb_within (o := o) hw hh hs hfits
    rw [shape_rgb hsup hs hframe]
    exact ⟨_, hi32, iff_of_true hwithin (hother rfl)⟩
  | y416 =>
    rw [imageSize_y416 id hs] at hsize
    obtain rfl := Except.ok.inj hsize
    obtain ⟨hi32, hwithin⟩ := y416_within (o := o) hw hh hs hfits shape
    exact ⟨_, hi32, iff_of_true hwithin (hother rfl)⟩
  | yuv b m n =>
    obtain ⟨rfl, hwidth, hheight⟩ := shape_yuv hsup hs hframe
    by_cases hv210 : t = csYUV422P10 ∧ o.enableV210
    · obtain ⟨hsize', hwithin⟩ := v210_within (o := o) (w := w) (h := h) hv210
      exact ⟨_, hsize', iff_of_true (hwithin _ _) (not_padsFinal_v210 ht hv210)⟩
    rw [imageSize_yuv_exact hs hv210 hwidth hheight] at hsize
    obtain rfl := Except.ok.inj hsize
    refine ⟨_, imageSize_yuv_i32 hw hh hs hv210 hwidth hheight hfits, ?_⟩
    by_cases hout : Interleaves o t
    · exact iff_of_true (interleaved_within hw hh hs hout hwidth hheight hfits)
        (not_padsFinal_interleaves hs hout)
    have hrowPos : 0 < w * b := mul_pos hw hs.2.1
    obtain ⟨-, hpad, hrows, hluma⟩ := yuvSize_fits hrowPos hh hfits
    have hrow : i32 (w * b) = w * b := i32_of_range (by omega) (by omega)
    have hdvd : 2 ^ m ∣ w * b := hwidth.mul_right b
    have hc : 0 < h / 2 ^ n ∧ h / 2 ^ n ≤ h :=
      ⟨Int.ediv_pos_of_pos_of_dvd hh (by positivity) hheight, Int.ediv_le_self _ hh.le⟩
    rw [hrow, writeFrame_planes hs hrowPos hdvd hluma hh hc hout hv210,
      ← overruns_iff hs hwidth hout hv210]
    exact planes_within_iff hrowPos hdvd (subWidth_le hs) (fun hm => by simpa [hm] using hdvd)
      hh hc hfits

/-- The widths are those of the clip as well as those of its bitmaps. -/
theorem padsFinal_iff (ht : t ∈ supported) : PadsFinal o (o.finalType t) w ↔ PadsChroma o t w := by
  obtain ⟨-, -, h422P10, h422P16, hyv, hyv411, -⟩ := finalType_converted o ht
  rw [PadsFinal, PadsChroma, KeepsPlanes, h422P10, h422P16, hyv, hyv411]

/-- The exported types have a number of bits. -/
theorem bitsPerPixel_ok (ht : (t, s) ∈ exported) :
    ∃ bits, bitsPerPixel t = .ok bits := by
  have hall : exported.all (fun p => (bitsPerPixel p.1).toOption.isSome) = true := by
    decide
  have hsome := List.all_eq_true.mp hall (t, s) ht
  cases hbits : bitsPerPixel t with
  | error e =>
    simp only [hbits] at hsome
    cases hsome
  | ok bits => exact ⟨bits, rfl⟩

/-- A stream whose size and frame are known agrees if the codes do and the frame fits. -/
theorem streamAgrees_of_parts {size bits : ℤ} {output : FrameOutput}
    (hsize : o.imageSize i32 (vi.final o) = .ok size)
    (hbits : bitsPerPixel (vi.final o).pixelType = .ok bits)
    (hread : readFrame o vi = .ok output) :
    StreamAgrees o vi ↔ SameFormat (o.fccHandler (vi.final o).pixelType)
      (o.biCompression (vi.final o).pixelType) ∧ output.Within size := by
  have hinfo : info o vi = .ok ⟨o.fccHandler (vi.final o).pixelType, (vi.final o).width,
      (vi.final o).height, size, size⟩ := by
    rw [info, hsize]
    rfl
  obtain ⟨bitCount, hformat⟩ : ∃ bitCount, readFormat o vi = .ok ⟨(vi.final o).width,
      (vi.final o).height, bitCount, o.biCompression (vi.final o).pixelType, size⟩ := by
    rw [readFormat, hsize, hbits]
    split_ifs <;> exact ⟨_, rfl⟩
  have hread2 : ∀ numFrames lStart cbBuffer, lStart < numFrames →
      read2 o vi numFrames lStart cbBuffer = .ok ⟨cbBuffer.any (· < size), size, 1,
        cbBuffer.bind fun bytes => if bytes < size then none else some output⟩ := by
    intro numFrames lStart cbBuffer hstart
    rw [read2, if_neg (not_le.mpr hstart), hsize]
    cases cbBuffer with
    | none => rfl
    | some bytes =>
      simp only [hread, bind, Except.bind, pure, Except.pure, Option.any_some, Option.bind_some]
      split_ifs with hlt <;> simp [hlt]
  constructor
  · rintro ⟨asi, bi, hasi, hbi, hsame, -, -, hruns⟩
    obtain rfl := Except.ok.inj (hinfo.symm.trans hasi)
    obtain rfl := Except.ok.inj (hformat.symm.trans hbi)
    obtain ⟨result, hresult, -, hall⟩ := hruns 1 0 (by omega) (some size)
    obtain rfl := Except.ok.inj ((hread2 1 0 (some size) (by omega)).symm.trans hresult)
    exact ⟨hsame, hall size rfl output (by simp)⟩
  · rintro ⟨hsame, hwithin⟩
    refine ⟨_, _, hinfo, hformat, hsame, rfl, rfl, fun numFrames lStart hstart cbBuffer =>
      ⟨_, hread2 numFrames lStart cbBuffer hstart, rfl, ?_⟩⟩
    rintro bytes hbytes out hout
    obtain rfl := Option.mem_def.mp hbytes
    simp only [Option.bind_some] at hout
    split_ifs at hout with hlt
    · cases hout
    · obtain rfl := Option.some.inj hout
      exact hwithin.mono (not_lt.mp hlt)

/-- The functions of a stream agree, and frames are written within the buffer, exactly
if not both packings of 10-bit 4:2:2 are asked for and no chroma rows are padded to
more than their part of the luma rows. -/
theorem streamAgrees_iff (h : Exportable o vi) :
    StreamAgrees o vi ↔
      ¬AsksForBoth o vi.pixelType ∧ ¬PadsChroma o vi.pixelType vi.width := by
  obtain ⟨w, height, t⟩ := vi
  obtain ⟨hw, hh, ⟨shape, hshape⟩, hcoded, hfits⟩ := h
  simp only [VideoInfo.final] at hw hh hcoded hfits
  have ht : t ∈ supported := by
    by_contra hnot
    simp only [VideoInfo.newVideoFrameOnDevice, hnot, not_false_eq_true, if_true] at hshape
    cases hshape
  have hconverted := finalType_converted o ht
  obtain ⟨hsup, hmods, hp10, -, -, -, hframeType⟩ := hconverted
  obtain ⟨s, hs⟩ := exported_of_coded hsup hcoded
  have hlegal := (newVideoFrameOnDevice_ok ht).mp ⟨shape, hshape⟩
  obtain ⟨final, hfinal⟩ : ∃ final,
      VideoInfo.newVideoFrameOnDevice ⟨w, height, o.finalType t⟩ = .ok final := by
    rw [newVideoFrameOnDevice_ok hsup]
    rcases hmods with hmods | hmods <;> rw [hmods]
    · exact hlegal
    · exact ⟨Int.emod_one _, Int.emod_one _⟩
  obtain ⟨size, hsize, hwithin⟩ := bitmap_within_iff hs hsup hw hh hfinal hfits
  have hread : readFrame o ⟨w, height, t⟩ =
      .ok (writeFrame o (o.finalType t) final w height) := by
    rw [hframeType (List.mem_map.mpr ⟨_, hs, rfl⟩)] at hfinal ⊢
    simp only [readFrame, hfinal]
    rfl
  obtain ⟨bits, hbits⟩ := bitsPerPixel_ok hs
  rw [← padsFinal_iff ht, ← hwithin, AsksForBoth, ← hp10, ← AsksForBoth, ← sameFormat_iff hs]
  exact streamAgrees_of_parts hsize hbits hread

/-- Padded scanlines and a width whose chroma rows need no padding of their own. -/
theorem streamAgrees_padded :
    StreamAgrees ⟨false, true, false, false, false, false, false⟩ ⟨16, 2, csYV12⟩ := by
  have hexportable : Exportable ⟨false, true, false, false, false, false, false⟩
      ⟨16, 2, csYV12⟩ := by
    refine ⟨by decide, by decide, ⟨.planar 16 2 8 1 false false, ?_⟩, ?_, 48, ?_, by decide⟩
    all_goals decide
  refine (streamAgrees_iff hexportable).mpr ⟨?_, ?_⟩
  · rintro ⟨-, hv210, -⟩
    cases hv210
  · rintro ⟨-, ⟨-, hwidth⟩ | ⟨h411, -⟩ | ⟨⟨-, hoption, -⟩ | ⟨-, hoption⟩, -⟩⟩
    · exact absurd hwidth (by decide)
    · exact absurd h411 (by decide)
    · cases hoption
    · cases hoption

/-- The options of the failing inputs: padded scanlines, and both packings. -/
def AviOptions.padded : AviOptions := ⟨false, true, false, false, false, false, false⟩
def AviOptions.bothPackings : AviOptions := ⟨false, false, true, false, true, false, false⟩

/-- A padded bitmap of 2×2 pixels: the second chroma plane begins where the size of 12
bytes ends. And 10-bit 4:2:2 with both packings: the codes differ. -/
theorem streamAgrees_failures :
    (Exportable .padded ⟨2, 2, csYV12⟩ ∧ ¬StreamAgrees .padded ⟨2, 2, csYV12⟩) ∧
      Exportable .bothPackings ⟨2, 2, csYUV422P10⟩ ∧
        ¬StreamAgrees .bothPackings ⟨2, 2, csYUV422P10⟩ := by
  refine ⟨⟨⟨by decide, by decide, ⟨.planar 2 2 1 1 false false, by decide⟩,
    by decide, 12, by decide, by decide⟩, ?_⟩,
    ⟨by decide, by decide, ⟨.planar 4 2 2 2 false false, by decide⟩,
      by decide, 256, by decide, by decide⟩, ?_⟩
  · have hsize : AviOptions.padded.imageSize i32
        (VideoInfo.final ⟨2, 2, csYV12⟩ AviOptions.padded) = .ok 12 := by decide
    have hbits : bitsPerPixel (VideoInfo.final ⟨2, 2, csYV12⟩ AviOptions.padded).pixelType =
        .ok 12 := by decide
    have hread : readFrame .padded ⟨2, 2, csYV12⟩ =
        .ok (.blocks [⟨0, 4, 2, 2⟩, ⟨8, 4, 1, 1⟩, ⟨12, 4, 1, 1⟩]) := by decide
    rw [streamAgrees_of_parts hsize hbits hread]
    rintro ⟨-, hwithin⟩
    have hbyte := hwithin ⟨12, 4, 1, 1⟩ (by simp) 12 ⟨0, by decide⟩
    omega
  · rintro ⟨asi, bi, hasi, hbi, hsame, -⟩
    have hv210 : (info .bothPackings ⟨2, 2, csYUV422P10⟩).toOption.map
        AviStreamInfo.fccHandler = some FourCC.v210 := by decide
    have hy3 : (readFormat .bothPackings ⟨2, 2, csYUV422P10⟩).toOption.map
        BitmapInfoHeader.biCompression = some FourCC.y3_10_10 := by decide
    rw [hasi] at hv210
    rw [hbi] at hy3
    obtain hv210 : asi.fccHandler = FourCC.v210 := Option.some.inj hv210
    obtain hy3 : bi.biCompression = FourCC.y3_10_10 := Option.some.inj hy3
    rw [hv210, hy3] at hsame
    exact absurd hsame (by decide)

end AviSynth
