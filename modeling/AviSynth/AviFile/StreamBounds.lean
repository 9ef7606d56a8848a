import AviSynth.AviFile.ReadFrame

/-!
# The bounds of exported bitmaps

A size that fits 31 bits is computed exactly, and the blocks that are written stay
within it. The exception are padded scanlines of planar YUV: the rows of the chroma
planes are padded one by one, while the size has room for a part of the padded luma
rows only.
-/

namespace AviSynth

open MachineInt PixelType Alignment FrameShape

variable {o : AviOptions} {t : PixelType} {w h b : ℤ}

/-- Padding is exact if the padded row fits. -/
theorem padTo4_i32 {x : ℤ} (hx : 0 ≤ x) (hfits : roundUp x 4 < 2 ^ 31) :
    padTo4 i32 x = roundUp x 4 := by
  rw [roundUp] at hfits
  rw [padTo4, i32_of_range (by omega) (by omega), roundUp]
  omega

@[simp] theorem padTo4_id (x : ℤ) : padTo4 id x = roundUp x 4 := by
  simp only [padTo4, id, roundUp]
  omega

theorem le_pad (x : ℤ) : x ≤ roundUp x 4 := le_roundUp (by omega)

/-- A row fits when all of them do. -/
theorem le_rows {x : ℤ} (hx : 0 ≤ x) (hheight : 0 < h) : x ≤ x * h :=
  le_mul_of_one_le_right hx hheight

/-- The planes of packed and YUV formats are those of the chroma. -/
theorem outPlanes_chroma (o : AviOptions) (h : ¬(IsRGB t ∧ IsPlanar t)) :
    outPlanes o t = (.u, .v) ∨ outPlanes o t = (.v, .u) := by
  simp only [outPlanes, h, if_false]
  split_ifs <;> simp

theorem outPlanes_rgb (o : AviOptions) (h : IsRGB t ∧ IsPlanar t) : outPlanes o t = (.b, .r) := by
  simp [outPlanes, h]

/-- A bitmap in one plane, upside down or not. -/
theorem packed_within (hw : 0 < w) (hheight : 0 < h) (hs : Stored t (.packed b))
    (hfits : h * roundUp (w * b) 4 < 2 ^ 31) :
    o.imageSize i32 ⟨w, h, t⟩ = .ok (h * roundUp (w * b) 4) ∧
      (writeFrame o t (.packed (i32 (w * b)) h) w h).Within (h * roundUp (w * b) 4) := by
  have hrowPos : 0 < w * b := mul_pos hw hs.2.1
  have hpad := le_pad (w * b)
  rw [mul_comm] at hfits
  have hrows := le_rows (hrowPos.le.trans hpad) hheight
  have hrow : i32 (w * b) = w * b := i32_of_range (by omega) (by omega)
  have hpitch : padTo4 i32 (w * b) = roundUp (w * b) 4 := padTo4_i32 hrowPos.le (by omega)
  rw [imageSize_packed i32 hs, hrow, hpitch, mul_comm h, i32_of_range (by omega) hfits]
  refine ⟨rfl, ?_⟩
  obtain ⟨-, -, -, hbitmap, hrepacked, hplanar, hrgba, hrgb64⟩ := hs
  simp only [IsRepacked, List.mem_cons, List.not_mem_nil, or_false, not_or] at hrepacked
  generalize hP : roundUp (w * b) 4 = P at *
  have hlast : P * h = P * (h - 1) + P := by ring
  have hlast' : 0 ≤ P * (h - 1) := mul_nonneg (by omega) (by omega)
  have hup : i32 (P * i32 (h - 1)) = P * (h - 1) := by
    have hle : h - 1 ≤ P * (h - 1) := le_mul_of_one_le_left (by omega) (by omega)
    rw [i32_of_range (x := h - 1) (by omega) (by omega), i32_of_range (by omega) (by omega)]
  have hfirst : (firstPlane o t (.packed (w * b) h) w).Within (P * h) := by
    have hpitch' : outPitch o t (.packed (w * b) h) = P := by
      simp only [outPitch, hbitmap, true_or, if_true, getRowSize, hpitch]
    simp only [firstPlane, hpitch', getRowSize, getHeight, hup]
    split_ifs with hb64a hrgb
    · have hw8 : w * 8 = w * b := by rw [hrgb64 hb64a.1]
      rw [hw8]
      exact RowBlock.within_upwards (by omega) hheight (by omega)
    · exact RowBlock.within_upwards (by omega) hheight (by omega)
    · exact RowBlock.within_downwards le_rfl (by omega) hheight (by omega)
  have hothers : ∀ block ∈ otherPlanes o t (.packed (w * b) h), block.Within (P * h) := by
    intro block hblock
    apply RowBlock.within_of_empty
    rcases outPlanes_chroma o hplanar with hplanes | hplanes <;>
      simp only [otherPlanes, hplanes, hrgba, if_false, List.append_nil, List.mem_cons,
        List.not_mem_nil, or_false] at hblock <;>
      rcases hblock with rfl | rfl <;> exact Or.inl le_rfl
  simp only [writeFrame, hrepacked, or_self, false_and, if_false, FrameOutput.Within,
    List.mem_cons, forall_eq_or_imp]
  exact ⟨hfirst, hothers⟩

/-- The distance of rows that are padded by option only. -/
def rowPitch (o : AviOptions) (row : ℤ) : ℤ :=
  if o.aviPadScanlines then roundUp row 4 else row

theorem le_rowPitch (row : ℤ) : row ≤ rowPitch o row := by
  unfold rowPitch
  split_ifs
  · exact le_pad row
  · exact le_rfl

/-- The pitch of the rows of a type that does not ask for padding. -/
theorem rowPitch_i32 {row : ℤ} (hrow : 0 ≤ row) (hfits : rowPitch o row < 2 ^ 31) :
    (if o.aviPadScanlines then padTo4 i32 row else row) = rowPitch o row := by
  unfold rowPitch at *
  split_ifs at hfits ⊢ with hpad
  · exact padTo4_i32 hrow hfits
  · rfl

/-- A bitmap of planar RGB: three or four planes of the same size. -/
theorem rgb_within {alpha uFirst : Bool} (hw : 0 < w) (hheight : 0 < h)
    (hs : Stored t (.rgb b alpha))
    (hfits : rowPitch o (w * b) * h * (if alpha then 4 else 3) < 2 ^ 31) :
    o.imageSize i32 ⟨w, h, t⟩ = .ok (rowPitch o (w * b) * h * (if alpha then 4 else 3)) ∧
      (writeFrame o t (.planar (i32 (w * b)) h (i32 (w * b)) h uFirst alpha) w h).Within
        (rowPitch o (w * b) * h * (if alpha then 4 else 3)) := by
  have hrowPos : 0 < w * b := mul_pos hw hs.2.1
  have hpad := le_rowPitch (o := o) (w * b)
  have hrows := le_rows (hrowPos.le.trans hpad) hheight
  have hplane : rowPitch o (w * b) * h < 2 ^ 31 := by split_ifs at hfits <;> omega
  have hrow : i32 (w * b) = w * b := i32_of_range (by omega) (by omega)
  have hpitch := rowPitch_i32 (o := o) hrowPos.le (by omega)
  have hsize := imageSize_rgb (o := o) (w := w) (h := h) i32 hs
  obtain ⟨-, -, hplanes, hyuv, hyuva, hrgb, hrgba, hnum, hbitmap, hcs, hrepacked, h48, h64⟩ := hs
  simp only [IsRepacked, List.mem_cons, List.not_mem_nil, or_false, not_or] at hrepacked
  have hexact : ∀ x, 0 ≤ x → x < 2 ^ 31 → i32 x = x := fun x hlow hhigh =>
    i32_of_range (by omega) hhigh
  generalize hP : rowPitch o (w * b) = P at *
  have hlast : P * h = P * (h - 1) + P := by ring
  constructor
  · simp only [hsize, hrow, hpitch]
    rw [hexact (P * h) (by omega) hplane, hexact _ (by split_ifs <;> omega) hfits]
  have houtPitch : outPitch o t (.planar (w * b) h (w * b) h uFirst alpha) = P := by
    simpa only [outPitch, hbitmap, false_or, getRowSize] using hpitch
  have houtPitchUV : outPitchUV o t (.planar (w * b) h (w * b) h uFirst alpha) = P := by
    simpa only [outPitchUV, hbitmap, false_or, hcs, if_true, getRowSize] using hpitch
  have hfirst : firstPlane o t (.planar (w * b) h (w * b) h uFirst alpha) w =
      ⟨0, P, w * b, h⟩ := by
    simp only [firstPlane, h64, h48, false_and, or_self, if_false, houtPitch,
      getRowSize, getHeight]
  have hothers : otherPlanes o t (.planar (w * b) h (w * b) h uFirst alpha) =
      [⟨P * h, P, w * b, h⟩, ⟨i32 (P * h + P * h), P, w * b, h⟩] ++
        if alpha then [⟨i32 (P * h + i32 (i32 (2 * h) * P)), P, w * b, h⟩] else [] := by
    simp only [otherPlanes, outPlanes_rgb o ⟨hcs, hplanes.2⟩, houtPitch, houtPitchUV,
      getRowSize, getHeight, hrgba, mul_comm h P,
      hexact (P * h) (by omega) hplane]
    cases alpha <;> rfl
  simp only [writeFrame, hrepacked, or_self, false_and, if_false, hrow, hfirst, hothers,
    FrameOutput.Within]
  cases alpha with
  | false =>
    simp only [Bool.false_eq_true, if_false] at hfits ⊢
    rw [hexact (P * h + P * h) (by omega) (by omega)]
    rintro block hblock
    simp only [List.mem_cons, List.append_nil, List.not_mem_nil, or_false] at hblock
    rcases hblock with rfl | rfl | rfl <;>
      exact RowBlock.within_downwards (by omega) (by omega) hheight (by omega)
  | true =>
    simp only [if_true] at hfits ⊢
    have htwo : i32 (2 * h) = 2 * h := by
      have hle : h ≤ P * h := le_mul_of_one_le_left (by omega) (by omega)
      exact hexact _ (by omega) (by omega)
    have hthird : 2 * h * P = P * h + P * h := by ring
    rw [hexact (P * h + P * h) (by omega) (by omega), htwo, hthird,
      hexact (P * h + P * h) (by omega) (by omega), hexact _ (by omega) (by omega)]
    rintro block hblock
    simp only [List.mem_cons, List.cons_append, List.nil_append, List.not_mem_nil,
      or_false] at hblock
    rcases hblock with rfl | rfl | rfl | rfl <;>
      exact RowBlock.within_downwards (by omega) (by omega) hheight (by omega)

/-- A bitmap of packed 4:4:4. -/
theorem y416_within (hw : 0 < w) (hheight : 0 < h) (hs : Stored t .y416)
    (hfits : w * h * 4 * 2 < 2 ^ 31) (shape : FrameShape) :
    o.imageSize i32 ⟨w, h, t⟩ = .ok (w * h * 4 * 2) ∧
      (writeFrame o t shape w h).Within (w * h * 4 * 2) := by
  have hpos : 0 < w * h := mul_pos hw hheight
  have hrow : w ≤ w * h := le_rows hw.le hheight
  have hpitch : i32 (w * 4 * 2) = w * 8 := by
    rw [i32_of_range (by omega) (by omega)]
    ring
  constructor
  · rw [imageSize_y416 i32 hs, i32_of_range (by omega) hfits]
  have htype : t = csYUV444P16 ∨ t = csYUVA444P16 := hs
  simp only [writeFrame, htype, if_true, FrameOutput.Within, List.mem_singleton, forall_eq,
    toY416, hpitch]
  have hlast : w * h * 4 * 2 = w * 8 * (h - 1) + w * 8 := by ring
  exact RowBlock.within_downwards le_rfl (by omega) hheight (by omega)

section Yuv

variable {m n : ℕ}

/-- The size of a bitmap of planar YUV. The chroma has its part of the luma rows. -/
def yuvSize (o : AviOptions) (row h : ℤ) (m n : ℕ) : ℤ :=
  rowPitch o row * h + 2 * (rowPitch o row * (h / 2 ^ n) / 2 ^ m)

/-- A part of the luma rows has all bytes of the chroma rows if none are padded. -/
theorem chroma_part {x c : ℤ} (hrow : 2 ^ m ∣ x) (hheight : 2 ^ n ∣ h) :
    x / 2 ^ m * h / 2 ^ n = x * (h / 2 ^ n) / 2 ^ m ∧
      c * h / 2 ^ (m + n) = c * (h / 2 ^ n) / 2 ^ m := by
  obtain ⟨x, rfl⟩ := hrow
  obtain ⟨h, rfl⟩ := hheight
  have hm : (2 : ℤ) ^ m ≠ 0 := by positivity
  have hn : (2 : ℤ) ^ n ≠ 0 := by positivity
  rw [Int.mul_ediv_cancel_left _ hm, Int.mul_ediv_cancel_left _ hn]
  constructor
  · rw [mul_left_comm, Int.mul_ediv_cancel_left _ hn, mul_assoc, Int.mul_ediv_cancel_left _ hm]
  · rw [pow_add, mul_left_comm, mul_comm ((2 : ℤ) ^ m), Int.mul_ediv_mul_of_pos _ _ (by positivity)]

theorem imageSize_yuv_exact (hs : Stored t (.yuv b m n))
    (hv210 : ¬(t = csYUV422P10 ∧ o.enableV210)) (hwidth : 2 ^ m ∣ w) (hheight : 2 ^ n ∣ h) :
    o.imageSize id ⟨w, h, t⟩ = .ok (yuvSize o (w * b) h m n) := by
  rw [imageSize_yuv id hs hv210]
  obtain ⟨hpart, hpadded⟩ := chroma_part (c := roundUp (w * b) 4) (hwidth.mul_right b) hheight
  congr 1
  by_cases hpad : o.aviPadScanlines
  · simp only [hpad, if_true, id_eq, padTo4_id, yuvSize, rowPitch, hpadded]
    ring
  · simp only [hpad, if_false, Bool.false_eq_true, id_eq, yuvSize, rowPitch, hpart]
    split_ifs with hzero
    · ring
    · have hrow : w * b = 0 := Int.eq_zero_of_ediv_eq_zero (hwidth.mul_right b) (not_not.mp hzero)
      simp [hrow]

/-- What the size of a bitmap of planar YUV that fits says about its rows. -/
theorem yuvSize_fits {row : ℤ} (hrow : 0 < row) (hheight : 0 < h)
    (hfits : yuvSize o row h m n < 2 ^ 31) :
    0 ≤ rowPitch o row * (h / 2 ^ n) / 2 ^ m ∧ row ≤ rowPitch o row ∧
      rowPitch o row ≤ rowPitch o row * h ∧ rowPitch o row * h < 2 ^ 31 := by
  have hpad := le_rowPitch (o := o) row
  have hchroma : 0 ≤ rowPitch o row * (h / 2 ^ n) / 2 ^ m := by
    have hrows : 0 ≤ h / 2 ^ n := Int.ediv_nonneg hheight.le (by positivity)
    exact Int.ediv_nonneg (mul_nonneg (by omega) hrows) (by positivity)
  rw [yuvSize] at hfits
  exact ⟨hchroma, hpad, le_rows (by omega) hheight, by omega⟩

theorem imageSize_yuv_i32 (hw : 0 < w) (hh : 0 < h) (hs : Stored t (.yuv b m n))
    (hv210 : ¬(t = csYUV422P10 ∧ o.enableV210)) (hwidth : 2 ^ m ∣ w) (hheight : 2 ^ n ∣ h)
    (hfits : yuvSize o (w * b) h m n < 2 ^ 31) :
    o.imageSize i32 ⟨w, h, t⟩ = .ok (yuvSize o (w * b) h m n) := by
  rw [imageSize_yuv i32 hs hv210]
  have hrowPos : 0 < w * b := mul_pos hw hs.2.1
  obtain ⟨hchroma, hpad, hrows, hluma⟩ := yuvSize_fits hrowPos hh hfits
  have hrow : i32 (w * b) = w * b := i32_of_range (by omega) (by omega)
  have hpitch := rowPitch_i32 (o := o) hrowPos.le (by omega)
  obtain ⟨hpart, hpadded⟩ := chroma_part (c := roundUp (w * b) 4) (hwidth.mul_right b) hheight
  have hexact : ∀ x, 0 ≤ x → x < 2 ^ 31 → i32 x = x := fun x hlow hhigh =>
    i32_of_range (by omega) hhigh
  congr 1
  by_cases hoption : o.aviPadScanlines
  · simp only [hoption, if_true] at hpitch ⊢
    simp only [rowPitch, hoption, if_true, yuvSize] at *
    rw [hrow, hpitch, hexact _ (by omega) hluma, hpadded]
    generalize roundUp (w * b) 4 * (h / 2 ^ n) / 2 ^ m = chroma at *
    rw [hexact (chroma * 2) (by omega) (by omega), hexact _ (by omega) (by omega)]
    ring
  · simp only [rowPitch, hoption, if_false, Bool.false_eq_true, yuvSize] at *
    have hpart' : w * b / 2 ^ m * h < 2 ^ 31 := by
      refine lt_of_le_of_lt (mul_le_mul_of_nonneg_right ?_ hh.le) hluma
      exact Int.ediv_le_self _ hrowPos.le
    have hpos : 0 ≤ w * b / 2 ^ m * h :=
      mul_nonneg (Int.ediv_nonneg hrowPos.le (by positivity)) hh.le
    have hne : w * b / 2 ^ m ≠ 0 := by
      intro hzero
      have := Int.eq_zero_of_ediv_eq_zero (hwidth.mul_right b) hzero
      omega
    rw [hrow, if_pos hne, hexact _ hpos hpart', hpart, hexact (w * b * h) (by omega) hluma]
    generalize w * b * (h / 2 ^ n) / 2 ^ m = chroma at *
    rw [hexact (chroma * 2) (by omega) (by omega), hexact _ (by omega) (by omega)]
    ring

/-- The chroma rows that `ReadFrame` writes one by one. -/
def chromaPitch (o : AviOptions) (row : ℤ) (m : ℕ) : ℤ := rowPitch o (row / 2 ^ m)

/-- The types whose chroma is interleaved on the way out. -/
def Interleaves (o : AviOptions) (t : PixelType) : Prop :=
  t = csYUV420P10 ∨ t = csYUV420P16 ∨ t = csYUV422P10 ∧ ¬o.enableY3_10_10 ∧ ¬o.enableV210 ∨
    t = csYUV422P16 ∧ ¬o.enableY3_10_16
  deriving Decidable

/-- Interleaved chroma rows are as long as the luma rows, which need no padding. -/
theorem interleaved_within {uFirst : Bool} (hw : 0 < w) (hh : 0 < h)
    (hs : Stored t (.yuv b m n)) (hout : Interleaves o t) (hwidth : 2 ^ m ∣ w)
    (hheight : 2 ^ n ∣ h) (hfits : yuvSize o (w * b) h m n < 2 ^ 31) :
    (writeFrame o t (.planar (i32 (w * b)) h (i32 (w * b) / 2 ^ m) (h / 2 ^ n) uFirst false)
      w h).Within (yuvSize o (w * b) h m n) := by
  have hrowPos : 0 < w * b := mul_pos hw hs.2.1
  obtain ⟨hchroma, hpad, hrows, hluma⟩ := yuvSize_fits hrowPos hh hfits
  have hrow : i32 (w * b) = w * b := i32_of_range (by omega) (by omega)
  have hpitch := rowPitch_i32 (o := o) hrowPos.le (by omega)
  obtain ⟨-, -, -, -, -, -, -, -, -, hbitmap, -, h444, ha444, -, -, hrepacked, -⟩ := hs
  have htype : IsRepacked t := by
    rcases hout with rfl | rfl | ⟨rfl, -⟩ | ⟨rfl, -⟩ <;> simp [IsRepacked]
  obtain ⟨rfl, rfl⟩ := hrepacked htype
  obtain ⟨c, rfl⟩ : (2 : ℤ) ∣ w := by simpa using hwidth
  have hplain : rowPitch o (2 * c * 2) = 2 * c * 2 := by
    rw [rowPitch, roundUp]
    split_ifs <;> omega
  have hhalf : 2 * c / 2 * 4 = 2 * c * 2 := by omega
  have houtPitch : outPitch o t (.planar (2 * c * 2) h (2 * c * 2 / 2 ^ 1) (h / 2 ^ n) uFirst
      false) = 2 * c * 2 := by
    rw [hplain] at hpitch
    simpa only [outPitch, hbitmap, false_or, getRowSize] using hpitch
  have hpart : 2 * c * 2 * (h / 2 ^ n) / 2 ^ 1 * 2 = 2 * c * 2 * (h / 2 ^ n) := by
    have htwo : 2 * c * 2 * (h / 2 ^ n) = 2 * (2 * c * (h / 2 ^ n)) := by ring
    omega
  have hrowsUV : 0 < h / 2 ^ n := Int.ediv_pos_of_pos_of_dvd hh (by positivity) hheight
  rw [hplain] at hluma hrows
  have hwrite : writeFrame o t (.planar (2 * c * 2) h (2 * c * 2 / 2 ^ 1) (h / 2 ^ n) uFirst
      false) (2 * c) h =
      .blocks [⟨0, 2 * c * 2, 2 * c * 2, h⟩,
        ⟨2 * c * 2 * h, 2 * c * 2, 2 * c * 2, h / 2 ^ n⟩] := by
    have hout' := hout
    unfold Interleaves at hout'
    simp only [writeFrame, h444, ha444, or_self, if_false, if_pos hout',
      yuv42xp10_16_to_Px10_16, houtPitch, getHeight, hhalf,
      i32_of_range (x := 2 * c * 2 * h) (by omega) hluma]
  rw [hrow, hwrite]
  rw [yuvSize, hplain, mul_comm 2 (_ / _), hpart]
  have hlast : 2 * c * 2 * h = 2 * c * 2 * (h - 1) + 2 * c * 2 := by ring
  have hlastUV : 2 * c * 2 * (h / 2 ^ n) = 2 * c * 2 * (h / 2 ^ n - 1) + 2 * c * 2 := by ring
  have hpos : 0 ≤ 2 * c * 2 * (h / 2 ^ n - 1) := mul_nonneg (by omega) (by omega)
  rintro block hblock
  simp only [List.mem_cons, List.not_mem_nil, or_false] at hblock
  rcases hblock with rfl | rfl
  · exact RowBlock.within_downwards le_rfl (by omega) hh (by omega)
  · exact RowBlock.within_downwards (by omega) (by omega) hrowsUV (by omega)

/-- The bytes of a chroma row, and the distance of the rows that are written. -/
theorem chromaPitch_spec {row : ℤ} (hrow : 0 < row) (hwidth : 2 ^ m ∣ row) :
    0 < row / 2 ^ m ∧ row / 2 ^ m ≤ chromaPitch o row m ∧
      chromaPitch o row m ≤ rowPitch o row ∧ chromaPitch o row m < row / 2 ^ m + 4 := by
  have hpos : 0 < row / 2 ^ m := Int.ediv_pos_of_pos_of_dvd hrow (by positivity) hwidth
  have hle : row / 2 ^ m ≤ row := Int.ediv_le_self _ hrow.le
  refine ⟨hpos, le_rowPitch _, ?_, ?_⟩ <;> unfold chromaPitch rowPitch <;> split_ifs
  · exact roundUp_le (by omega) (dvd_roundUp row 4) (hle.trans (le_pad row))
  · exact hle
  · exact roundUp_lt (by omega)
  · omega

/-- The padded chroma rows do not fit into their part of the luma rows. -/
def Overruns (o : AviOptions) (row : ℤ) (m : ℕ) : Prop :=
  rowPitch o row < 2 ^ m * chromaPitch o row m

/-- What is written for planes that are kept apart. -/
theorem writeFrame_planes {uFirst : Bool} {row c : ℤ} (hs : Stored t (.yuv b m n))
    (hrow : 0 < row) (hwidth : 2 ^ m ∣ row) (hluma : rowPitch o row * h < 2 ^ 31)
    (hh : 0 < h) (hc : 0 < c ∧ c ≤ h) (hout : ¬Interleaves o t)
    (hv210 : ¬(t = csYUV422P10 ∧ o.enableV210)) :
    writeFrame o t (.planar row h (row / 2 ^ m) c uFirst false) w h =
      let pitch := rowPitch o row
      let pitchUV := chromaPitch o row m
      .blocks [⟨0, pitch, row, h⟩, ⟨pitch * h, pitchUV, row / 2 ^ m, c⟩,
        ⟨i32 (pitch * h + c * pitchUV), pitchUV, row / 2 ^ m, c⟩] := by
  obtain ⟨hpos, hle, hpitchUV, -⟩ := chromaPitch_spec (o := o) hrow hwidth
  have hpad := le_rowPitch (o := o) row
  have hrows := le_rows (hrow.le.trans hpad) hh
  have hpitch := rowPitch_i32 (o := o) hrow.le (by omega)
  have hpitch' := rowPitch_i32 (o := o) hpos.le (lt_of_le_of_lt hpitchUV (by omega))
  obtain ⟨-, -, hplanes, -, -, -, hrgba, -, -, hbitmap, hcs, h444, ha444, h48, h64, -⟩ := hs
  have houtPitch : outPitch o t (.planar row h (row / 2 ^ m) c uFirst false) = rowPitch o row := by
    simpa only [outPitch, hbitmap, false_or, getRowSize] using hpitch
  have houtPitchUV : outPitchUV o t (.planar row h (row / 2 ^ m) c uFirst false) =
      chromaPitch o row m := by
    simpa only [outPitchUV, hbitmap, hcs, if_false, false_or, getRowSize,
      chromaPitch] using hpitch'
  have hchroma : c * chromaPitch o row m ≤ rowPitch o row * h := by
    rw [mul_comm c]
    exact mul_le_mul hpitchUV hc.2 hc.1.le (by omega)
  have hchroma' : 0 ≤ c * chromaPitch o row m := mul_nonneg hc.1.le (by omega)
  unfold Interleaves at hout
  have hrgb : ¬(IsRGB t ∧ IsPlanar t) := fun hh => hcs hh.1
  rcases outPlanes_chroma o hrgb with hplane | hplane <;>
    simp only [writeFrame, h444, ha444, or_self, if_false, if_neg hout, if_neg hv210,
      firstPlane, h48, h64, false_and, otherPlanes, hplane, hrgba, List.append_nil, houtPitch,
      houtPitchUV, getRowSize, getHeight,
      i32_of_range (x := rowPitch o row * h) (by omega) hluma,
      i32_of_range (x := c * chromaPitch o row m) (by omega) (by omega)]

/-- Chroma rows that are too long need more bytes than the size has for them. -/
theorem overrun_bytes {row c : ℤ} (hrow : 0 < row) (hwidth : 2 ^ m ∣ row) (hm : m ≤ 2)
    (hbytes : m = 2 → 4 ∣ row) (hc : 0 < c) (hover : Overruns o row m) :
    2 * (rowPitch o row * c / 2 ^ m) <
      c * chromaPitch o row m + chromaPitch o row m * (c - 1) + row / 2 ^ m := by
  obtain ⟨hpos, hle, -, hlt⟩ := chromaPitch_spec (o := o) hrow hwidth
  have hpadded : o.aviPadScanlines := by
    by_contra hpad
    rw [Overruns, chromaPitch, rowPitch, rowPitch, if_neg hpad, if_neg hpad,
      Int.mul_ediv_cancel' hwidth] at hover
    exact lt_irrefl _ hover
  have hdvd : (4 : ℤ) ∣ rowPitch o row := by
    rw [rowPitch, if_pos hpadded]
    exact dvd_roundUp row 4
  have hdvdUV : (4 : ℤ) ∣ chromaPitch o row m := by
    rw [chromaPitch, rowPitch, if_pos hpadded]
    exact dvd_roundUp _ 4
  unfold Overruns at hover
  have hsum : c * chromaPitch o row m + chromaPitch o row m * (c - 1) =
      2 * chromaPitch o row m * c - chromaPitch o row m := by ring
  rw [hsum]
  obtain rfl | rfl | rfl : m = 0 ∨ m = 1 ∨ m = 2 := by omega
  · simp [chromaPitch] at hover
  · have hgap : rowPitch o row ≤ 2 * chromaPitch o row 1 - 4 := by omega
    have hpart : rowPitch o row * c ≤ (2 * chromaPitch o row 1 - 4) * c :=
      mul_le_mul_of_nonneg_right hgap hc.le
    have hexpand : (2 * chromaPitch o row 1 - 4) * c = 2 * chromaPitch o row 1 * c - 4 * c := by
      ring
    omega
  · have hplain : rowPitch o row = row := by
      rw [rowPitch, if_pos hpadded, roundUp_of_dvd (by omega) (hbytes rfl)]
    obtain ⟨r, rfl⟩ := hbytes rfl
    rw [hplain] at hover ⊢
    have hpart : 4 * r * c / 2 ^ 2 = r * c := by
      rw [mul_assoc]
      omega
    rw [hpart]
    have hr : 4 * r / 2 ^ 2 = r := by omega
    rw [hr] at hlt hle ⊢
    have hgap : 0 < (chromaPitch o (4 * r) 2 - r) * (2 * c - 1) :=
      mul_pos (by omega) (by omega)
    have hexpand : (chromaPitch o (4 * r) 2 - r) * (2 * c - 1) =
        2 * chromaPitch o (4 * r) 2 * c - chromaPitch o (4 * r) 2 + r - 2 * (r * c) := by ring
    omega

/-- Planes that are kept apart stay within the size exactly when the padded chroma
rows fit into their part of the luma rows. -/
theorem planes_within_iff {row c : ℤ} (hrow : 0 < row) (hwidth : 2 ^ m ∣ row) (hm : m ≤ 2)
    (hbytes : m = 2 → 4 ∣ row) (hh : 0 < h) (hc : 0 < c ∧ c ≤ h)
    (hfits : rowPitch o row * h + 2 * (rowPitch o row * c / 2 ^ m) < 2 ^ 31) :
    FrameOutput.Within (rowPitch o row * h + 2 * (rowPitch o row * c / 2 ^ m))
      (.blocks [⟨0, rowPitch o row, row, h⟩,
        ⟨rowPitch o row * h, chromaPitch o row m, row / 2 ^ m, c⟩,
        ⟨i32 (rowPitch o row * h + c * chromaPitch o row m), chromaPitch o row m,
          row / 2 ^ m, c⟩]) ↔
      ¬Overruns o row m := by
  obtain ⟨hpos, hle, hpitchUV, hlt⟩ := chromaPitch_spec (o := o) hrow hwidth
  have hpad := le_rowPitch (o := o) row
  have hchroma : c * chromaPitch o row m ≤ rowPitch o row * h := by
    rw [mul_comm c]
    exact mul_le_mul hpitchUV hc.2 hc.1.le (by omega)
  have hchroma' : 0 ≤ c * chromaPitch o row m := mul_nonneg hc.1.le (by omega)
  have hluma : 0 ≤ rowPitch o row * h := mul_nonneg (by omega) hh.le
  have hpart : 0 ≤ rowPitch o row * c / 2 ^ m :=
    Int.ediv_nonneg (mul_nonneg (by omega) hc.1.le) (by positivity)
  have hlast : c * chromaPitch o row m = chromaPitch o row m * (c - 1) + chromaPitch o row m := by
    ring
  constructor
  · intro hwithin hover
    have hneed := overrun_bytes hrow hwidth hm hbytes hc.1 hover
    have hthird := hwithin ⟨i32 (rowPitch o row * h + c * chromaPitch o row m),
      chromaPitch o row m, row / 2 ^ m, c⟩ (by simp)
    have hstart := (hthird.row hpos le_rfl hc.1).1
    have hlow : 0 ≤ c - 1 := by omega
    have hhigh : c - 1 < c := by omega
    have hend := (hthird.row hpos hlow hhigh).2
    simp only [zero_mul, add_zero, mul_comm (c - 1)] at hstart hend
    by_cases hexact : rowPitch o row * h + c * chromaPitch o row m < 2 ^ 31
    · rw [i32_of_range (by omega) hexact] at hend
      omega
    · rw [i32_of_overflow (not_lt.mp hexact) (by omega)] at hstart
      omega
  · intro hover
    have hroom : c * chromaPitch o row m ≤ rowPitch o row * c / 2 ^ m := by
      rw [Int.le_ediv_iff_mul_le (by positivity)]
      have hpitch := mul_le_mul_of_nonneg_left (not_lt.mp hover) hc.1.le
      calc c * chromaPitch o row m * 2 ^ m = c * (2 ^ m * chromaPitch o row m) := by ring
        _ ≤ c * rowPitch o row := hpitch
        _ = rowPitch o row * c := mul_comm _ _
    have hlastLuma : rowPitch o row * h = rowPitch o row * (h - 1) + rowPitch o row := by ring
    rw [i32_of_range (by omega) (by omega)]
    rintro block hblock
    simp only [List.mem_cons, List.not_mem_nil, or_false] at hblock
    rcases hblock with rfl | rfl | rfl
    · exact RowBlock.within_downwards le_rfl (by omega) hh (by omega)
    · exact RowBlock.within_downwards hluma (by omega) hc.1 (by omega)
    · exact RowBlock.within_downwards (by omega) (by omega) hc.1 (by omega)

end Yuv

end AviSynth
