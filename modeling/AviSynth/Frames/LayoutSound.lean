import AviSynth.Frames.VideoInfo

/-!
# Layouts that stay inside their buffers

A frame should have the planes that were asked for, each starting at an aligned
address, none of them overlapping another or leaving the memory of the buffer.
This file says when the layout of a frame is of this kind, in exact arithmetic.
-/

namespace AviSynth

open MachineInt Alignment PixelType

namespace FrameShape

/-- The row size and the height of each plane. -/
def wanted : FrameShape → List (ℤ × ℤ)
  | planar rowSize height rowSizeUV heightUV _ alpha =>
    (rowSize, height) :: (rowSizeUV, heightUV) :: (rowSizeUV, heightUV) ::
      if alpha then [(rowSize, height)] else []
  | packed rowSize height => [(rowSize, height)]

/-- The sizes are positive integers of 32 bits. -/
def Positive : FrameShape → Prop
  | planar rowSize height rowSizeUV heightUV _ _ =>
    (0 < rowSize ∧ rowSize < 2 ^ 31) ∧ (0 < height ∧ height < 2 ^ 31) ∧
      (0 < rowSizeUV ∧ rowSizeUV < 2 ^ 31) ∧ 0 < heightUV ∧ heightUV < 2 ^ 31
  | packed rowSize height => (0 < rowSize ∧ rowSize < 2 ^ 31) ∧ 0 < height ∧ height < 2 ^ 31

/-- The pitch of the chroma planes, computed exactly. -/
def exactPitchUV (chromaAlignment : Bool) (align : ℤ) : FrameShape → ℤ
  | planar rowSize height rowSizeUV heightUV _ _ =>
    if chromaAlignment = false ∧ rowSize = rowSizeUV * 2 ∧ height = heightUV * 2 then
      roundUp rowSize align / 2
    else roundUp rowSizeUV align
  | packed _ _ => 0

/-- The size set aside for a chroma plane, computed exactly. -/
def exactSizeUV (settings : AlignmentSettings) (chromaAlignment : Bool) (align : ℤ) :
    FrameShape → ℤ
  | shape@(planar _ _ _ heightUV _ _) =>
    roundUp (shape.exactPitchUV chromaAlignment align * heightUV) settings.planeAlign
  | packed _ _ => 0

/-- No pitch and no plane is larger than an `int` can say. -/
def Fits (settings : AlignmentSettings) (chromaAlignment : Bool) (align : ℤ) (shape : FrameShape) :
    Prop :=
  match shape with
  | planar rowSize height _ _ _ _ =>
    roundUp rowSize align < 2 ^ 31 ∧
      roundUp (roundUp rowSize align * height) settings.planeAlign < 2 ^ 31 ∧
      shape.exactPitchUV chromaAlignment align < 2 ^ 31 ∧
      shape.exactSizeUV settings chromaAlignment align < 2 ^ 31
  | packed rowSize height =>
    roundUp rowSize align < 2 ^ 31 ∧ roundUp rowSize align * height < 2 ^ 31

end FrameShape

namespace VideoInfo

/-- The size of a row of the first plane, computed exactly. -/
def exactRowSize (vi : VideoInfo) : ℤ := vi.width * ((bytesPerPixel vi.pixelType).toOption.getD 0)

/-- The row size and the height of each plane of a video frame, computed exactly. -/
def wanted (vi : VideoInfo) : List (ℤ × ℤ) :=
  let t := vi.pixelType
  let chroma :=
    if IsYUV t ∨ IsYUVA t then
      (vi.exactRowSize / 2 ^ (getPlaneWidthSubsampling t).toOption.getD 0,
        vi.height / 2 ^ (getPlaneHeightSubsampling t).toOption.getD 0)
    else (vi.exactRowSize, vi.height)
  (vi.exactRowSize, vi.height) ::
    if HasPlanes t then chroma :: chroma ::
      if IsYUVA t ∨ IsPlanarRGBA t then [(vi.exactRowSize, vi.height)] else []
    else []

end VideoInfo

namespace NewFrameRequest

/-- The planes that are asked for. -/
def wanted : NewFrameRequest → List (ℤ × ℤ)
  | video vi _ => vi.wanted
  | sizes shape _ => shape.wanted

/-- A positive size and a power of two, or the negative of one, as alignment. -/
def Valid (request : NewFrameRequest) : Prop :=
  (IsPow2 |request.align| ∧ |request.align| ≤ 2 ^ 30) ∧
    match request with
    | video vi _ => (0 < vi.width ∧ vi.width < 2 ^ 31) ∧ 0 < vi.height ∧ vi.height < 2 ^ 31
    | sizes shape _ => shape.Positive

end NewFrameRequest

namespace Plane

/-- The first address after the plane. -/
def finish (p : Plane) : ℤ := p.offset + p.pitch * p.height

/-- Two planes have no byte in common. -/
def Disjoint (p q : Plane) : Prop := p.finish ≤ q.offset ∨ q.finish ≤ p.offset

instance : DecidableRel Disjoint := fun _ _ => inferInstanceAs (Decidable (_ ∨ _))

end Plane

/-- A frame with the planes `wanted` in the `bytes` bytes from `data` on. -/
def FrameLayout.Sound (l : FrameLayout) (align : ℤ) (wanted : List (ℤ × ℤ)) (data bytes : ℕ) :
    Prop :=
  l.planes.map (fun p => (p.rowSize, p.height)) = wanted ∧
    (∀ p ∈ l.planes, p.rowSize ≤ p.pitch ∧ align ∣ data + p.offset ∧ 0 ≤ p.offset ∧
      p.finish ≤ bytes) ∧
    l.planes.Pairwise Plane.Disjoint

instance (l : FrameLayout) (align : ℤ) (wanted : List (ℤ × ℤ)) (data bytes : ℕ) :
    Decidable (l.Sound align wanted data bytes) := inferInstanceAs (Decidable (_ ∧ _ ∧ _))

variable {settings : AlignmentSettings} {chromaAlignment : Bool} {align : ℤ}

/-- The alignment that is used is a multiple of the requested one. -/
theorem AlignmentSettings.effective_spec (settings : AlignmentSettings) (halign : IsPow2 |align|)
    (hle : |align| ≤ 2 ^ 30) :
    IsPow2 (settings.effective align) ∧ |align| ∣ settings.effective align ∧
      64 ≤ settings.effective align ∧ settings.effective align ≤ 2 ^ 30 := by
  have habs : (if align < 0 then -align else align) = |align| := by
    split_ifs with hneg
    · exact (abs_of_neg hneg).symm
    · exact (abs_of_nonneg (by omega)).symm
  obtain ⟨hpow, hdvd, -⟩ := halign.max settings.frameAlign_pow2
  have hge := settings.frameAlign_ge
  have hframe := settings.frameAlign_le
  rw [effective, habs]
  exact ⟨hpow, hdvd, by omega, by omega⟩

/-- An alignment that is used divides the range of an `int`. -/
theorem dvd_range {a : ℤ} (ha : IsPow2 a) (hle : a ≤ 2 ^ 30) : a ∣ 2 ^ 31 :=
  ha.dvd_of_le ⟨31, rfl⟩ (by omega)

/-- `AlignNumber` is exact if the result fits. -/
theorem alignNumber_eq {n a : ℤ} (ha : IsPow2 a) (hle : a ≤ 2 ^ 30) (hn : 0 ≤ n)
    (hfits : roundUp n a < 2 ^ 31) : alignNumber n a = roundUp n a := by
  have hroom := add_le_of_lt (dvd_roundUp n a) (dvd_range ha hle) hfits
  have hge := le_roundUp (n := n) ha.pos
  rw [alignNumber, i32_of_range (by have := ha.pos; omega) (by omega), roundUp]

/-- A size is its own conversion to `size_t`. -/
theorem sizeT_eq {x : ℤ} (hlow : 0 ≤ x) (hhigh : x < 2 ^ 64) : (sizeT x : ℤ) = x := by
  rw [sizeT, Int.emod_eq_of_lt hlow hhigh, Int.toNat_of_nonneg hlow]

namespace FrameShape

variable {rowSize height rowSizeUV heightUV : ℤ}

/-- Whether chroma rows are packed does not depend on the wraparound of the test. -/
theorem packsChroma_iff (hrow : 0 < rowSize ∧ rowSize < 2 ^ 31)
    (hheight : 0 < height ∧ height < 2 ^ 31) (hrowUV : 0 < rowSizeUV ∧ rowSizeUV < 2 ^ 31)
    (hheightUV : 0 < heightUV ∧ heightUV < 2 ^ 31) :
    PacksChroma chromaAlignment rowSize height rowSizeUV heightUV ↔
      chromaAlignment = false ∧ rowSize = rowSizeUV * 2 ∧ height = heightUV * 2 := by
  have htwice : ∀ {x y : ℤ}, 0 < x ∧ x < 2 ^ 31 → 0 < y ∧ y < 2 ^ 31 →
      (x = i32 (y * 2) ↔ x = y * 2) := by
    intro x y hx hy
    by_cases hbig : y * 2 < 2 ^ 31
    · rw [i32_of_range (by omega) hbig]
    · rw [i32_of_overflow (by omega) (by omega)]
      omega
  rw [PacksChroma, htwice hrow hrowUV, htwice hheight hheightUV]

variable {uFirst alpha : Bool} {data bytes : ℕ}

/-- A chroma pitch is at least half aligned, and holds a row. -/
theorem exactPitchUV_spec {a rowSize height rowSizeUV heightUV : ℤ}
    (ha : IsPow2 a) (hge : 64 ≤ a) {pitchUV : ℤ}
    (hpitch : (planar rowSize height rowSizeUV heightUV uFirst alpha).exactPitchUV
      chromaAlignment a = pitchUV) : a / 2 ∣ pitchUV ∧ rowSizeUV ≤ pitchUV := by
  obtain ⟨-, hhalf⟩ := ha.half (by omega)
  simp only [exactPitchUV] at hpitch
  split_ifs at hpitch with hpacked
  · obtain ⟨c, hc⟩ := dvd_roundUp rowSize a
    have hrow := le_roundUp (n := rowSize) ha.pos
    have htwice : roundUp rowSize a = 2 * (a / 2 * c) := by
      calc roundUp rowSize a = a * c := hc
        _ = (a / 2 + a / 2) * c := by rw [← hhalf]
        _ = 2 * (a / 2 * c) := by ring
    have hpitch' : pitchUV = a / 2 * c := by omega
    exact ⟨⟨c, hpitch'⟩, by omega⟩
  · rw [← hpitch]
    exact ⟨Dvd.dvd.trans ⟨2, by omega⟩ (dvd_roundUp rowSizeUV a), le_roundUp ha.pos⟩

/-- What is computed for planes that fit is exact. -/
theorem plan_planar {a : ℤ}
    (heff : settings.effective align = a) (ha : IsPow2 a) (hge : 64 ≤ a) (hle : a ≤ 2 ^ 30)
    (hpos : (planar rowSize height rowSizeUV heightUV uFirst alpha).Positive)
    (hfits : (planar rowSize height rowSizeUV heightUV uFirst alpha).Fits settings
      chromaAlignment a) :
    (planar rowSize height rowSizeUV heightUV uFirst alpha).plan settings chromaAlignment align =
      let shape := planar rowSize height rowSizeUV heightUV uFirst alpha
      let sizeY := roundUp (roundUp rowSize a * height) settings.planeAlign
      let sizeUV := shape.exactSizeUV settings chromaAlignment a
      ⟨a, roundUp rowSize a, shape.exactPitchUV chromaAlignment a, sizeY, sizeUV,
        sizeT (sizeY + 2 * sizeUV + if alpha then sizeY else 0)⟩ := by
  obtain ⟨hrow, hheight, hrowUV, hheightUV⟩ := hpos
  obtain ⟨hpitch, hsize, hpitchUV, hsizeUV⟩ := hfits
  have hplane := settings.planeAlign_pow2
  have hpitchY : alignNumber rowSize a = roundUp rowSize a :=
    alignNumber_eq ha hle (by omega) hpitch
  have hpitchUV' : (if PacksChroma chromaAlignment rowSize height rowSizeUV heightUV then
      i32 (roundUp rowSize a + 1) / 2 else alignNumber rowSizeUV a) =
      (planar rowSize height rowSizeUV heightUV uFirst alpha).exactPitchUV chromaAlignment a := by
    simp only [exactPitchUV, packsChroma_iff hrow hheight hrowUV hheightUV] at hpitchUV ⊢
    split_ifs with hpacked
    · obtain ⟨c, hc⟩ := (Dvd.dvd.trans ⟨a / 2, by have := (ha.half (by omega)).2; omega⟩
        (dvd_roundUp rowSize a) : (2 : ℤ) ∣ roundUp rowSize a)
      have hroom := add_le_of_lt (dvd_roundUp rowSize a) (dvd_range ha hle) hpitch
      have hge' := le_roundUp (n := rowSize) ha.pos
      rw [i32_of_range (by omega) (by omega)]
      omega
    · rw [if_neg hpacked] at hpitchUV
      exact alignNumber_eq ha hle (by omega) hpitchUV
  have hplaneSize : ∀ {pitch rows : ℤ}, 0 < pitch → 0 < rows →
      roundUp (pitch * rows) settings.planeAlign < 2 ^ 31 →
      alignNumber (i32 (pitch * rows)) settings.planeAlign =
        roundUp (pitch * rows) settings.planeAlign := by
    intro pitch rows hp hr hlt
    have hmul := mul_pos hp hr
    have hle' := le_roundUp (n := pitch * rows) hplane.pos
    rw [i32_of_range (by omega) (by omega)]
    exact alignNumber_eq hplane settings.planeAlign_le (by omega) hlt
  have hpitchPos := le_roundUp (n := rowSize) ha.pos
  have hpitchUVPos : rowSizeUV ≤ (planar rowSize height rowSizeUV heightUV uFirst
      alpha).exactPitchUV chromaAlignment a := (exactPitchUV_spec ha hge rfl).2
  simp only [plan, heff, hpitchY, hpitchUV']
  rw [hplaneSize (by omega) hheight.1 hsize, hplaneSize (by omega) hheightUV.1 hsizeUV]
  rfl

/-- The first aligned address of a buffer is near its start. -/
theorem alignPointer_spec {a : ℤ} (ha : IsPow2 a) (data : ℕ) :
    0 ≤ roundUp data a - data ∧ roundUp data a - data < a ∧ a ∣ data + (roundUp data a - data) := by
  have hle := le_roundUp (n := (data : ℤ)) ha.pos
  have hlt := roundUp_lt (n := (data : ℤ)) ha.pos
  refine ⟨by omega, by omega, ?_⟩
  rw [add_sub_cancel]
  exact dvd_roundUp _ a

/-- The layout of planes that fit, in a buffer with room for them. -/
theorem layout_planar_sound {rowSize height rowSizeUV heightUV a r : ℤ}
    {p : FramePlan} (ha : IsPow2 a) (hle : a ≤ 2 ^ 30) (halign : p.align = a)
    (hr : r ∣ a) (hheight : 0 < height) (hheightUV : 0 < heightUV)
    (hrow : 0 < rowSize ∧ rowSize ≤ p.pitch) (hrowUV : 0 < rowSizeUV ∧ rowSizeUV ≤ p.pitchUV)
    (hsizeY : p.pitch * height ≤ p.sizeY) (hsizeUV : p.pitchUV * heightUV ≤ p.sizeUV)
    (hdvdY : a ∣ p.sizeY) (hdvdUV : r ∣ p.sizeUV) (hhalf : a ∣ 2 * p.sizeUV)
    (htotal : p.sizeY + 2 * p.sizeUV + (if alpha then p.sizeY else 0) < 2 ^ 31)
    (hroom : roundUp data a - data + (p.sizeY + 2 * p.sizeUV + if alpha then p.sizeY else 0) ≤
      bytes) :
    ((planar rowSize height rowSizeUV heightUV uFirst alpha).layout p data).Sound r
      (planar rowSize height rowSizeUV heightUV uFirst alpha).wanted data bytes := by
  obtain ⟨hoff, hoffLt, hoffDvd⟩ := alignPointer_spec ha data
  simp only [layout, halign]
  generalize roundUp data a - data = off at *
  have hY := mul_pos (hrow.1.trans_le hrow.2) hheight
  have hUV := mul_pos (hrowUV.1.trans_le hrowUV.2) hheightUV
  have hlast : off + (p.sizeY + 2 * p.sizeUV + if alpha then p.sizeY else 0) < 2 ^ 31 := by
    refine lt_of_lt_of_le ?_ (add_le_of_lt ?_ (dvd_range ha hle) htotal)
    · omega
    · refine dvd_add (dvd_add hdvdY hhalf) ?_
      split_ifs
      · exact hdvdY
      · exact dvd_zero a
  have hdvd0 : r ∣ data + off := hr.trans hoffDvd
  have hdvd1 : r ∣ data + (off + p.sizeY) := by
    rw [← add_assoc]
    exact dvd_add hdvd0 (hr.trans hdvdY)
  have hdvd2 : r ∣ data + (off + p.sizeY + p.sizeUV) := by
    rw [← add_assoc]
    exact dvd_add hdvd1 hdvdUV
  have hdvd3 : r ∣ data + (off + p.sizeY + p.sizeUV + p.sizeUV) := by
    rw [← add_assoc]
    exact dvd_add hdvd2 hdvdUV
  have hpitch : p.pitch ≠ 0 := by omega
  have hpitchUV : p.pitchUV ≠ 0 := by omega
  have hsecond : i32 (off + p.sizeY) = off + p.sizeY := by
    apply i32_of_range <;> split_ifs at hlast <;> omega
  have hthird : i32 (off + p.sizeY + p.sizeUV) = off + p.sizeY + p.sizeUV := by
    apply i32_of_range <;> split_ifs at hlast <;> omega
  rw [i32_of_range (x := off) (by omega) (by omega), hsecond, hthird]
  cases alpha with
  | false =>
    simp only [Bool.false_eq_true, if_false] at hroom
    cases uFirst <;>
      simp [FrameLayout.Sound, FrameLayout.planes, wanted, hpitchUV, Plane.Disjoint,
        Plane.finish, hdvd0, hdvd1, hdvd2] <;> omega
  | true =>
    simp only [if_true] at hroom hlast
    rw [i32_of_range (x := off + p.sizeY + p.sizeUV + p.sizeUV) (by omega) (by omega)]
    cases uFirst <;>
      simp [FrameLayout.Sound, FrameLayout.planes, wanted, hpitchUV, hpitch, Plane.Disjoint,
        Plane.finish, hdvd0, hdvd1, hdvd2, hdvd3] <;> omega

/-- The layout of a single plane that fits. -/
theorem layout_packed_sound {rowSize height a r : ℤ} {p : FramePlan} (ha : IsPow2 a)
    (hle : a ≤ 2 ^ 30) (halign : p.align = a) (hr : r ∣ a) (hrow : rowSize ≤ p.pitch)
    (hroom : roundUp data a - data + p.pitch * height ≤ bytes) :
    ((packed rowSize height).layout p data).Sound r (packed rowSize height).wanted data bytes := by
  obtain ⟨hoff, hoffLt, hoffDvd⟩ := alignPointer_spec ha data
  simp only [layout, halign]
  generalize roundUp data a - data = off at *
  have hdvd : r ∣ data + off := hr.trans hoffDvd
  rw [i32_of_range (x := off) (by omega) (by omega)]
  simp [FrameLayout.Sound, FrameLayout.planes, wanted, Plane.finish, hdvd]
  omega

/-- A frame whose planes fit is laid out soundly in every buffer that has room for
its size from the first aligned address on. -/
theorem layout_sound (shape : FrameShape) (halign : IsPow2 |align|) (hle : |align| ≤ 2 ^ 30)
    (hpos : shape.Positive) (hfits : shape.Fits settings chromaAlignment (settings.effective align))
    (hchroma : |align| ∣ shape.exactSizeUV settings chromaAlignment (settings.effective align))
    {p : FramePlan} (hplan : shape.plan settings chromaAlignment align = p)
    (htotal : p.size < 2 ^ 31) (hroom : roundUp data p.align - data + p.size ≤ bytes) :
    (shape.layout p data).Sound |align| shape.wanted data bytes := by
  obtain ⟨ha, hdvd, hge, hle'⟩ := settings.effective_spec halign hle
  generalize heff : settings.effective align = a at *
  have hplane := settings.planeAlign_pow2
  cases shape with
  | planar rowSize height rowSizeUV heightUV uFirst alpha =>
    rw [plan_planar heff ha hge hle' hpos hfits] at hplan
    obtain ⟨hrow, hheight, hrowUV, hheightUV⟩ := hpos
    obtain ⟨-, hfitsY, -, hfitsUV⟩ := hfits
    simp only [exactSizeUV] at hplan hchroma hfitsUV
    generalize hpitchUV : (planar rowSize height rowSizeUV heightUV uFirst
      alpha).exactPitchUV chromaAlignment a = pitchUV at *
    obtain ⟨hhalfDvd, hrowUVLe⟩ := exactPitchUV_spec ha hge hpitchUV
    obtain ⟨hhalfPow, htwice⟩ := ha.half (by omega)
    have hsizeY := le_roundUp (n := roundUp rowSize a * height) hplane.pos
    have hsizeUV := le_roundUp (n := pitchUV * heightUV) hplane.pos
    have hdvdY : a ∣ roundUp (roundUp rowSize a * height) settings.planeAlign :=
      dvd_roundUp_of_dvd hplane ha ((dvd_roundUp rowSize a).mul_right height)
    have hdvdUV : a / 2 ∣ roundUp (pitchUV * heightUV) settings.planeAlign :=
      dvd_roundUp_of_dvd hplane hhalfPow (hhalfDvd.mul_right heightUV)
    have hposY := mul_pos (hrow.1.trans_le (le_roundUp (n := rowSize) ha.pos)) hheight.1
    have hposUV := mul_pos (hrowUV.1.trans_le hrowUVLe) hheightUV.1
    generalize roundUp (roundUp rowSize a * height) settings.planeAlign = sizeY at *
    generalize roundUp (pitchUV * heightUV) settings.planeAlign = sizeUV at *
    have hsize : ((sizeT (sizeY + 2 * sizeUV + if alpha then sizeY else 0) : ℕ) : ℤ) =
        sizeY + 2 * sizeUV + if alpha then sizeY else 0 := by
      apply sizeT_eq <;> split_ifs <;> omega
    subst hplan
    simp only [← Int.ofNat_lt, hsize, Nat.cast_pow, Nat.cast_ofNat] at htotal
    rw [hsize] at hroom
    apply layout_planar_sound ha hle' rfl hdvd hheight.1 hheightUV.1
      ⟨hrow.1, le_roundUp ha.pos⟩ ⟨hrowUV.1, hrowUVLe⟩ hsizeY hsizeUV hdvdY hchroma ?_ htotal hroom
    obtain ⟨c, hc⟩ := hdvdUV
    refine ⟨c, ?_⟩
    calc 2 * sizeUV = (a / 2 + a / 2) * c := by rw [hc]; ring
      _ = a * c := by rw [← htwice]
  | packed rowSize height =>
    obtain ⟨hrow, hheight⟩ := hpos
    obtain ⟨hfitsPitch, hfitsSize⟩ := hfits
    have hge' := le_roundUp (n := rowSize) ha.pos
    have hmul := mul_pos (hrow.1.trans_le hge') hheight.1
    have hpitch := alignNumber_eq ha hle' hrow.1.le hfitsPitch
    have hproduct : i32 (roundUp rowSize a * height) = roundUp rowSize a * height :=
      i32_of_range (by omega) hfitsSize
    have hsize : ((sizeT (roundUp rowSize a * height) : ℕ) : ℤ) = roundUp rowSize a * height :=
      sizeT_eq hmul.le (by omega)
    simp only [plan, heff, hpitch, hproduct] at hplan
    subst hplan
    rw [hsize] at hroom
    exact layout_packed_sound ha hle' rfl hdvd hge' hroom

end FrameShape

namespace PixelType

/-- What frames of a supported type rely on: a pixel has bytes, and the planes are
either those of a subsampled format or of planar RGB. -/
def Usable (t : PixelType) : Prop :=
  (∃ b, bytesPerPixel t = .ok b ∧ 0 < b) ∧
    (HasPlanes t → if IsYUV t ∨ IsYUVA t then ¬IsPlanarRGB t ∧ ¬IsPlanarRGBA t ∧
      (∃ n, getPlaneWidthSubsampling t = .ok n) ∧ ∃ n, getPlaneHeightSubsampling t = .ok n
    else IsPlanarRGB t ∨ IsPlanarRGBA t)

/-- The supported types are usable. -/
theorem supported_usable {t : PixelType} (ht : t ∈ supported) : Usable t := by
  have hall : supported.all (fun t =>
      (bytesPerPixel t).toOption.any (fun b => 0 < b) ∧
        (HasPlanes t → if IsYUV t ∨ IsYUVA t then ¬IsPlanarRGB t ∧ ¬IsPlanarRGBA t ∧
          (getPlaneWidthSubsampling t).toOption.isSome ∧
          (getPlaneHeightSubsampling t).toOption.isSome
        else IsPlanarRGB t ∨ IsPlanarRGBA t)) = true := by decide
  have hok : ∀ {α : Type} {x : Except String α}, x.toOption.isSome → ∃ a, x = .ok a := by
    intro α x hx
    cases x with
    | error e => cases hx
    | ok a => exact ⟨a, rfl⟩
  obtain ⟨hbytes, hplanes⟩ := of_decide_eq_true (List.all_eq_true.mp hall t ht)
  refine ⟨?_, fun hhas => ?_⟩
  · cases hb : bytesPerPixel t with
    | error e =>
      rw [hb] at hbytes
      cases hbytes
    | ok b =>
      rw [hb] at hbytes
      exact ⟨b, rfl, of_decide_eq_true hbytes⟩
  · have h := hplanes hhas
    split_ifs at h ⊢
    · exact ⟨h.1, h.2.1, hok h.2.2.1, hok h.2.2.2⟩
    · exact h

end PixelType

/-- A video frame is laid out by positive sizes, those that were asked for. -/
theorem VideoInfo.newVideoFrameOnDevice_shape {vi : VideoInfo} {shape : FrameShape}
    (hwidth : 0 < vi.width ∧ vi.width < 2 ^ 31) (hheight : 0 < vi.height ∧ vi.height < 2 ^ 31)
    (hrow : vi.exactRowSize < 2 ^ 31) (h : vi.newVideoFrameOnDevice = .ok shape) :
    shape.Positive ∧ shape.wanted = vi.wanted := by
  by_cases ht : vi.pixelType ∈ supported
  swap
  · simp only [newVideoFrameOnDevice, ht, not_false_eq_true, if_true] at h
    cases h
  obtain ⟨⟨b, hb, hbpos⟩, hplanes⟩ := supported_usable ht
  have hexact : vi.exactRowSize = vi.width * b := by
    rw [exactRowSize, hb]
    rfl
  have hpos : 0 < vi.exactRowSize := hexact ▸ mul_pos hwidth.1 hbpos
  have hrowSize : vi.rowSize = .ok vi.exactRowSize := by
    simp only [rowSize, bytesFromPixels, hb]
    rw [hexact] at hrow hpos ⊢
    change Except.ok (i32 (vi.width * b)) = _
    rw [i32_of_range (by omega) hrow]
  simp only [newVideoFrameOnDevice, ht, not_true_eq_false, if_false, hrowSize] at h
  by_cases hhas : IsPlanar vi.pixelType ∧ 1 < numComponents vi.pixelType
  · have hhas' : HasPlanes vi.pixelType := hhas.symm
    have hp := hplanes hhas'
    rw [if_pos hhas] at h
    by_cases hyuv : IsYUV vi.pixelType ∨ IsYUVA vi.pixelType
    · rw [if_pos hyuv] at hp h
      obtain ⟨hrgb, hrgba, ⟨m, hm⟩, n, hn⟩ := hp
      have hrowU : vi.rowSizeU = .ok (vi.exactRowSize / 2 ^ m) := by
        simp only [rowSizeU, hrowSize, hhas', hrgb, hrgba, hm]
        rfl
      simp only [hm, hn, hrowU, bind, Except.bind, pure, Except.pure] at h
      split_ifs at h with hx hy
      obtain rfl := Except.ok.inj h
      have hchroma : ∀ {x : ℤ} {k : ℕ}, 0 < x ∧ x < 2 ^ 31 → 2 ^ k ∣ x →
          0 < x / 2 ^ k ∧ x / 2 ^ k < 2 ^ 31 := by
        intro x k hx hdvd
        exact ⟨Int.ediv_pos_of_pos_of_dvd hx.1 (by positivity) hdvd,
          (Int.ediv_le_self _ hx.1.le).trans_lt hx.2⟩
      have hdvdRow : 2 ^ m ∣ vi.exactRowSize :=
        hexact ▸ (Int.dvd_of_emod_eq_zero (not_not.mp hx)).mul_right b
      refine ⟨⟨⟨hpos, hrow⟩, hheight, hchroma ⟨hpos, hrow⟩ hdvdRow,
        hchroma hheight (Int.dvd_of_emod_eq_zero (not_not.mp hy))⟩, ?_⟩
      simp [FrameShape.wanted, wanted, hhas', hyuv, hm, hn, hrgba, Except.toOption]
    · rw [if_neg hyuv] at hp h
      have hrowG : vi.rowSizeG = .ok vi.exactRowSize := by
        simp only [rowSizeG, hrowSize, hhas.2, hp]
        rfl
      simp only [hrowG] at h
      obtain rfl := Except.ok.inj h
      refine ⟨⟨⟨hpos, hrow⟩, hheight, ⟨hpos, hrow⟩, hheight⟩, ?_⟩
      simp [FrameShape.wanted, wanted, hhas', not_or.mp hyuv]
  · rw [if_neg hhas] at h
    split_ifs at h
    obtain rfl := Except.ok.inj h
    refine ⟨⟨⟨hpos, hrow⟩, hheight⟩, ?_⟩
    have hhas' : ¬HasPlanes vi.pixelType := fun hh => hhas hh.symm
    simp [FrameShape.wanted, wanted, hhas']
end AviSynth
