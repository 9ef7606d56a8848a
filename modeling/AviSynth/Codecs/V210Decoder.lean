import AviSynth.Codecs.V210Encoder
import AviSynth.Library.Samples

/-!
# Decoding `v210`

The decoder takes whole groups of six pixels, and two or four pixels at the end of a row. What
the encoder has packed into the bits that the decoder does not use is of no importance: neither
the samples behind a row nor the words that the next row overwrites.
-/

namespace AviSynth

open MachineInt BoundedCells CountedLoop Samples PlanePositions

/-! ### Samples in words -/

/-- `(block >> shift) & 0x3FF`. -/
def v210Field (block : BitVec 32) (shift : ℕ) : BitVec 16 :=
  (block >>> shift &&& 0x3FF#32).setWidth 16

section Fields

variable {a b c : BitVec 16} {i : ℕ}

/-- The bits of a field. -/
theorem v210Field_getLsbD (block : BitVec 32) (shift : ℕ) (hi : i < 10) :
    (v210Field block shift).getLsbD i = block.getLsbD (shift + i) := by
  have hmask : (1023#16).getLsbD i = true := by
    rw [BitVec.getLsbD_ofNat, Nat.testBit_two_pow_sub_one 10 i]
    simp [hi]
    omega
  simp [v210Field, hmask]
  omega

/-- A field has ten bits. -/
theorem isTenBit_v210Field (block : BitVec 32) (shift : ℕ) : IsTenBit (v210Field block shift) := by
  unfold IsTenBit v210Field
  rw [BitVec.toNat_setWidth, BitVec.toNat_and]
  have hmask : (block >>> shift).toNat &&& (0x3FF#32).toNat < 2 ^ 10 :=
    Nat.and_lt_two_pow _ (by decide)
  omega

/-- The fields of a word are its parts. -/
theorem v210Field_first (ha : IsTenBit a) : v210Field (v210Word a b c) 0 = a := by
  refine (isTenBit_v210Field _ _).ext ha fun i hi => ?_
  have h20 : i < 20 := by omega
  have h32 : i < 32 := by omega
  rw [v210Field_getLsbD _ _ hi]
  simp [v210Word, hi, h20, h32]

theorem v210Field_second (ha : IsTenBit a) (hb : IsTenBit b) :
    v210Field (v210Word a b c) 10 = b := by
  refine (isTenBit_v210Field _ _).ext hb fun i hi => ?_
  have h20 : 10 + i < 20 := by omega
  have h32 : 10 + i < 32 := by omega
  rw [v210Field_getLsbD _ _ hi]
  simp [v210Word, h20, h32, ha.getLsbD]

theorem v210Field_third (ha : IsTenBit a) (hb : IsTenBit b) (hc : IsTenBit c) :
    v210Field (v210Word a b c) 20 = c := by
  refine (isTenBit_v210Field _ _).ext hc fun i hi => ?_
  have h32 : 20 + i < 32 := by omega
  have ha20 : a.getLsbD (20 + i) = false := ha.getLsbD (by omega)
  have hb10 : b.getLsbD (20 + i - 10) = false := hb.getLsbD (by omega)
  rw [v210Field_getLsbD _ _ hi]
  simp [v210Word, h32, ha20, hb10]

end Fields

/-! ### The decoder -/

section Decoder

variable (src : BoundedCells (BitVec 32))

/-- The body of the inner loop: six pixels. -/
def unpackGroup (srcline : ℤ) (line : PlanePositions) (dst : SamplePlanes) :
    Option SamplePlanes := do
  let block1 ← src.get? srcline
  let block2 ← src.get? (srcline + 1)
  let block3 ← src.get? (srcline + 2)
  let block4 ← src.get? (srcline + 3)
  let u ← dst.u.set? line.u (v210Field block1 0)
  let v ← dst.v.set? line.v (v210Field block1 20)
  let y ← dst.y.set? line.y (v210Field block1 10)
  let y ← y.set? (line.y + 1) (v210Field block2 0)
  let u ← u.set? (line.u + 1) (v210Field block2 10)
  let v ← v.set? (line.v + 1) (v210Field block3 0)
  let y ← y.set? (line.y + 2) (v210Field block2 20)
  let y ← y.set? (line.y + 3) (v210Field block3 10)
  let u ← u.set? (line.u + 2) (v210Field block3 20)
  let v ← v.set? (line.v + 2) (v210Field block4 10)
  let y ← y.set? (line.y + 4) (v210Field block4 0)
  let y ← y.set? (line.y + 5) (v210Field block4 20)
  some ⟨y, u, v⟩

/-- The rest of 2 or 4 pixels. -/
def unpackRest (widthRest srcline : ℤ) (line : PlanePositions) (dst : SamplePlanes) :
    Option SamplePlanes :=
  if 2 ≤ widthRest then do
    let block1 ← src.get? srcline
    let block2 ← src.get? (srcline + 1)
    let u ← dst.u.set? line.u (v210Field block1 0)
    let v ← dst.v.set? line.v (v210Field block1 20)
    let y ← dst.y.set? line.y (v210Field block1 10)
    let y ← y.set? (line.y + 1) (v210Field block2 0)
    if 4 ≤ widthRest then do
      let block3 ← src.get? (srcline + 2)
      let u ← u.set? (line.u + 1) (v210Field block2 10)
      let v ← v.set? (line.v + 1) (v210Field block3 0)
      let y ← y.set? (line.y + 2) (v210Field block2 20)
      let y ← y.set? (line.y + 3) (v210Field block3 10)
      some ⟨y, u, v⟩
    else some ⟨y, u, v⟩
  else some dst

/-- The inner loop, and the rest. -/
def unpackLine (widthRest : ℤ) : ℕ → ℤ → PlanePositions → SamplePlanes → Option SamplePlanes
  | 0, srcline, line, dst => unpackRest src widthRest srcline line dst
  | groups + 1, srcline, line, dst => do
    let dst ← unpackGroup src srcline line dst
    unpackLine widthRest groups (srcline + 4) (line.advance 6 3) dst

/-- The outer loop. `srcp` counts bytes. -/
def unpackRows (ppitchY ppitchUV srcpitch widthRest : ℤ) (groups : ℕ) :
    ℕ → ℤ → PlanePositions → SamplePlanes → Option SamplePlanes
  | 0, _, _, dst => some dst
  | rows + 1, srcp, ptr, dst => do
    let dst ← unpackLine src widthRest groups (srcp / 4) ptr dst
    unpackRows ppitchY ppitchUV srcpitch widthRest groups rows (srcp + srcpitch)
      (ptr.advance ppitchY ppitchUV) dst

/-- `v210_to_yuv422p10`. -/
def v210ToYuv422p10 (dst : SamplePlanes) (dstpitch dstpitchUV width height : ℤ) :
    Option SamplePlanes :=
  let width6 := width / 6 * 6
  unpackRows src (samplePitch dstpitch) (samplePitch dstpitchUV) (v210Pitch width)
    (width - width6) (rounds 0 width6 6) height.toNat 0 ⟨0, 0, 0⟩ dst

end Decoder

/-! ### Pixels of a group -/

/-- The samples of `pixels` pixels in four words. -/
def unpackedY (w : ℤ → BitVec 32) (pixels : ℕ) : List (BitVec 16) :=
  [v210Field (w 0) 10, v210Field (w 1) 0, v210Field (w 1) 20, v210Field (w 2) 10,
    v210Field (w 3) 0, v210Field (w 3) 20].take pixels

/-- The U samples of a block. -/
def unpackedU (w : ℤ → BitVec 32) (pixels : ℕ) : List (BitVec 16) :=
  [v210Field (w 0) 0, v210Field (w 1) 10, v210Field (w 2) 20].take (pixels / 2)

/-- The V samples of a block. -/
def unpackedV (w : ℤ → BitVec 32) (pixels : ℕ) : List (BitVec 16) :=
  [v210Field (w 0) 20, v210Field (w 2) 0, v210Field (w 3) 10].take (pixels / 2)

/-- The planes with some pixels of a group. -/
def unpackedPixels (src : BoundedCells (BitVec 32)) (srcline : ℤ) (line : PlanePositions)
    (dst : SamplePlanes) (pixels : ℕ) : SamplePlanes :=
  let w i := src.cell (srcline + i)
  ⟨dst.y.setAll line.y (unpackedY w pixels), dst.u.setAll line.u (unpackedU w pixels),
    dst.v.setAll line.v (unpackedV w pixels)⟩

/-- The ranges of `pixels` pixels are inside. -/
structure PixelsInside (dst : SamplePlanes) (line : PlanePositions) (pixels : ℤ) : Prop where
  y : dst.y.Has line.y pixels
  u : dst.u.Has line.u (pixels / 2)
  v : dst.v.Has line.v (pixels / 2)

variable {src : BoundedCells (BitVec 32)} {srcline : ℤ} {line : PlanePositions}
  {dst dst' : SamplePlanes}

/-- A group within the planes is written. -/
theorem unpackGroup_of_inside (hsrc : src.Has srcline 4) (hdst : PixelsInside dst line 6) :
    unpackGroup src srcline line dst = some (unpackedPixels src srcline line dst 6) := by
  obtain ⟨hy, hu, hv⟩ := hdst
  unfold Has at *
  rw [unpackGroup]
  iterate 4 rw [get?_bind]
  iterate 12 rw [set?_bind]
  · simp only [unpackedPixels, unpackedY, unpackedU, unpackedV, setAll, add_assoc, add_zero,
      Int.reduceAdd, Nat.reduceDiv, List.take_succ_cons, List.take_zero]
  all_goals try simp only [length_put]
  all_goals omega

/-- So is the rest of a row. -/
theorem unpackRest_of_inside {rest : ℕ} (hrest : rest = 0 ∨ rest = 2 ∨ rest = 4)
    (hsrc : rest ≠ 0 → src.Has srcline 4) (hdst : PixelsInside dst line rest) :
    unpackRest src rest srcline line dst = some (unpackedPixels src srcline line dst rest) := by
  obtain ⟨hy, hu, hv⟩ := hdst
  unfold Has at *
  obtain rfl | rfl | rfl := hrest
  · rfl
  · rw [unpackRest, if_pos (by decide)]
    iterate 2 rw [get?_bind]
    iterate 4 rw [set?_bind]
    · rw [if_neg (by decide)]
      simp only [unpackedPixels, unpackedY, unpackedU, unpackedV, setAll, add_zero,
        Nat.reduceDiv, List.take_succ_cons, List.take_zero]
    all_goals try simp only [length_put]
    all_goals omega
  · rw [unpackRest, if_pos (by decide)]
    iterate 2 rw [get?_bind]
    iterate 4 rw [set?_bind]
    · rw [if_pos (by decide), get?_bind]
      iterate 4 rw [set?_bind]
      · simp only [unpackedPixels, unpackedY, unpackedU, unpackedV, setAll, add_assoc, add_zero,
          Int.reduceAdd, Nat.reduceDiv, List.take_succ_cons, List.take_zero]
      all_goals try simp only [length_put]
      all_goals omega
    all_goals try simp only [length_put]
    all_goals omega

/-! ### What is decoded -/

/-- Pixels of ten bits. -/
structure TenBitPixels (src : SamplePlanes) (line : PlanePositions) (pixels : ℤ) : Prop where
  y : ∀ i, 0 ≤ i → i < pixels → IsTenBit (src.y.cell (line.y + i))
  u : ∀ i, 0 ≤ i → i < pixels / 2 → IsTenBit (src.u.cell (line.u + i))
  v : ∀ i, 0 ≤ i → i < pixels / 2 → IsTenBit (src.v.cell (line.v + i))

/-- Planes have the pixels of other planes. -/
structure ShowsPixels (dst : SamplePlanes) (line : PlanePositions) (src : SamplePlanes)
    (srcLine : PlanePositions) (pixels : ℤ) : Prop where
  y : Buffer.Shows dst.y.cell line.y src.y.cell srcLine.y pixels
  u : Buffer.Shows dst.u.cell line.u src.u.cell srcLine.u (pixels / 2)
  v : Buffer.Shows dst.v.cell line.v src.v.cell srcLine.v (pixels / 2)

/-- Only some pixels are written. -/
structure WritesPixels (dst dst' : SamplePlanes) (line : PlanePositions) (pixels : ℤ) : Prop where
  y : dst.y.WritesOnly dst'.y line.y pixels
  u : dst.u.WritesOnly dst'.u line.u (pixels / 2)
  v : dst.v.WritesOnly dst'.v line.v (pixels / 2)

section Pixels

variable {s : SamplePlanes} {sline : PlanePositions} {w : ℤ → BitVec 32} {pixels : ℕ}

/-- The words of a group. -/
structure IsPacked (w : ℤ → BitVec 32) (s : SamplePlanes) (sline : PlanePositions) : Prop where
  word0 : w 0 = v210Word (s.u.cell (sline.u + 0)) (s.y.cell (sline.y + 0)) (s.v.cell (sline.v + 0))
  word1 : w 1 = v210Word (s.y.cell (sline.y + 1)) (s.u.cell (sline.u + 1)) (s.y.cell (sline.y + 2))
  word2 : w 2 = v210Word (s.v.cell (sline.v + 1)) (s.y.cell (sline.y + 3)) (s.u.cell (sline.u + 2))
  word3 : w 3 = v210Word (s.y.cell (sline.y + 4)) (s.v.cell (sline.v + 2)) (s.y.cell (sline.y + 5))

/-- Words that were encoded are packed. -/
theorem isPacked_of_lists (h : src.Lists srcline (packedWords s sline)) :
    IsPacked (fun i => src.cell (srcline + i)) s sline :=
  ⟨h 0 (by simp [packedWords]), h 1 (by simp [packedWords]), h 2 (by simp [packedWords]),
    h 3 (by simp [packedWords])⟩

/-- The first two pixels. -/
theorem unpacked_two (h : IsPacked w s sline) (hten : TenBitPixels s sline pixels)
    (hpixels : 2 ≤ pixels) :
    v210Field (w 0) 10 = s.y.cell (sline.y + 0) ∧ v210Field (w 1) 0 = s.y.cell (sline.y + 1) ∧
      v210Field (w 0) 0 = s.u.cell (sline.u + 0) ∧ v210Field (w 0) 20 = s.v.cell (sline.v + 0) := by
  have hy0 := hten.y 0 (by omega) (by omega)
  have hy1 := hten.y 1 (by omega) (by omega)
  have hu0 := hten.u 0 (by omega) (by omega)
  have hv0 := hten.v 0 (by omega) (by omega)
  rw [h.word0, h.word1]
  exact ⟨v210Field_second hu0 hy0, v210Field_first hy1, v210Field_first hu0,
    v210Field_third hu0 hy0 hv0⟩

/-- The next two pixels. -/
theorem unpacked_four (h : IsPacked w s sline) (hten : TenBitPixels s sline pixels)
    (hpixels : 4 ≤ pixels) :
    v210Field (w 1) 20 = s.y.cell (sline.y + 2) ∧ v210Field (w 2) 10 = s.y.cell (sline.y + 3) ∧
      v210Field (w 1) 10 = s.u.cell (sline.u + 1) ∧ v210Field (w 2) 0 = s.v.cell (sline.v + 1) := by
  have hy1 := hten.y 1 (by omega) (by omega)
  have hy2 := hten.y 2 (by omega) (by omega)
  have hy3 := hten.y 3 (by omega) (by omega)
  have hu1 := hten.u 1 (by omega) (by omega)
  have hv1 := hten.v 1 (by omega) (by omega)
  rw [h.word1, h.word2]
  exact ⟨v210Field_third hy1 hu1 hy2, v210Field_second hv1 hy3, v210Field_second hy1 hu1,
    v210Field_first hv1⟩

/-- The last two pixels. -/
theorem unpacked_six (h : IsPacked w s sline) (hten : TenBitPixels s sline pixels)
    (hpixels : 6 ≤ pixels) :
    v210Field (w 3) 0 = s.y.cell (sline.y + 4) ∧ v210Field (w 3) 20 = s.y.cell (sline.y + 5) ∧
      v210Field (w 2) 20 = s.u.cell (sline.u + 2) ∧
      v210Field (w 3) 10 = s.v.cell (sline.v + 2) := by
  have hy3 := hten.y 3 (by omega) (by omega)
  have hy4 := hten.y 4 (by omega) (by omega)
  have hy5 := hten.y 5 (by omega) (by omega)
  have hu2 := hten.u 2 (by omega) (by omega)
  have hv1 := hten.v 1 (by omega) (by omega)
  have hv2 := hten.v 2 (by omega) (by omega)
  rw [h.word2, h.word3]
  exact ⟨v210Field_first hy4, v210Field_third hy4 hv2 hy5, v210Field_third hv1 hy3 hu2,
    v210Field_second hy4 hv2⟩

/-- The samples of a packed group. -/
theorem unpacked_eq (h : IsPacked w s sline) (hten : TenBitPixels s sline pixels)
    (hpixels : pixels = 0 ∨ pixels = 2 ∨ pixels = 4 ∨ pixels = 6) :
    unpackedY w pixels = (List.range pixels).map (fun k : ℕ => s.y.cell (sline.y + k)) ∧
      unpackedU w pixels = (List.range (pixels / 2)).map (fun k : ℕ => s.u.cell (sline.u + k)) ∧
      unpackedV w pixels = (List.range (pixels / 2)).map (fun k : ℕ => s.v.cell (sline.v + k)) := by
  have htwo := unpacked_two h hten
  have hfour := unpacked_four h hten
  have hsix := unpacked_six h hten
  obtain rfl | rfl | rfl | rfl := hpixels
  · exact ⟨rfl, rfl, rfl⟩
  · obtain ⟨hy0, hy1, hu0, hv0⟩ := htwo (by decide)
    simp only [unpackedY, unpackedU, unpackedV, hy0, hy1, hu0, hv0]
    exact ⟨rfl, rfl, rfl⟩
  · obtain ⟨hy0, hy1, hu0, hv0⟩ := htwo (by decide)
    obtain ⟨hy2, hy3, hu1, hv1⟩ := hfour (by decide)
    simp only [unpackedY, unpackedU, unpackedV, hy0, hy1, hu0, hv0, hy2, hy3, hu1, hv1]
    exact ⟨rfl, rfl, rfl⟩
  · obtain ⟨hy0, hy1, hu0, hv0⟩ := htwo (by decide)
    obtain ⟨hy2, hy3, hu1, hv1⟩ := hfour (by decide)
    obtain ⟨hy4, hy5, hu2, hv2⟩ := hsix (by decide)
    simp only [unpackedY, unpackedU, unpackedV, hy0, hy1, hu0, hv0, hy2, hy3, hu1, hv1, hy4, hy5,
      hu2, hv2]
    exact ⟨rfl, rfl, rfl⟩

/-- What is unpacked shows the samples, and nothing else is written. -/
theorem unpackedPixels_spec (hlists : src.Lists srcline (packedWords s sline))
    (hten : TenBitPixels s sline pixels)
    (hpixels : pixels = 0 ∨ pixels = 2 ∨ pixels = 4 ∨ pixels = 6) (line : PlanePositions)
    (dst : SamplePlanes) :
    WritesPixels dst (unpackedPixels src srcline line dst pixels) line pixels ∧
      ShowsPixels (unpackedPixels src srcline line dst pixels) line s sline pixels := by
  obtain ⟨hy, hu, hv⟩ := unpacked_eq (isPacked_of_lists hlists) hten hpixels
  have hchroma : ((pixels : ℤ) / 2) = (pixels / 2 : ℕ) := by omega
  unfold unpackedPixels
  dsimp only
  rw [hy, hu, hv]
  refine ⟨⟨?_, ?_, ?_⟩, ⟨?_, ?_, ?_⟩⟩
  · simpa using writesOnly_setAll dst.y line.y
      ((List.range pixels).map fun k : ℕ => s.y.cell (sline.y + k))
  · rw [hchroma]
    simpa using writesOnly_setAll dst.u line.u
      ((List.range (pixels / 2)).map fun k : ℕ => s.u.cell (sline.u + k))
  · rw [hchroma]
    simpa using writesOnly_setAll dst.v line.v
      ((List.range (pixels / 2)).map fun k : ℕ => s.v.cell (sline.v + k))
  · exact (lists_setAll dst.y line.y _).shows
  · rw [hchroma]
    exact (lists_setAll dst.u line.u _).shows
  · rw [hchroma]
    exact (lists_setAll dst.v line.v _).shows

/-- Packed groups from a position on. -/
def PackedGroups (src : BoundedCells (BitVec 32)) (srcline : ℤ) (s : SamplePlanes)
    (sline : PlanePositions) (groups : ℕ) : Prop :=
  ∀ k < groups, src.Has (srcline + 4 * k) 4 ∧
    src.Lists (srcline + 4 * k) (packedWords s (sline.advance (6 * k) (3 * k)))

/-- The groups behind the first one. -/
theorem PackedGroups.tail {groups : ℕ} (h : PackedGroups src srcline s sline (groups + 1)) :
    PackedGroups src (srcline + 4) s (sline.advance 6 3) groups := by
  intro k hk
  have hnext := h (k + 1) (by omega)
  have hpos : srcline + 4 * (k + 1 : ℕ) = srcline + 4 + 4 * (k : ℤ) := by omega
  have hadvance : sline.advance (6 * (k + 1 : ℕ)) (3 * (k + 1 : ℕ)) =
      (sline.advance 6 3).advance (6 * k) (3 * k) := by
    simp only [PlanePositions.advance, PlanePositions.mk.injEq]
    omega
  rwa [hpos, hadvance] at hnext

/-- The first group. -/
theorem PackedGroups.head {groups : ℕ} (h : PackedGroups src srcline s sline groups)
    (hgroups : 0 < groups) : src.Has srcline 4 ∧ src.Lists srcline (packedWords s sline) := by
  have hfirst := h 0 hgroups
  simpa [PlanePositions.advance] using hfirst

/-- Parts of a row of pixels. -/
theorem TenBitPixels.split {pixels : ℤ} (h : TenBitPixels s sline (6 + pixels))
    (hpixels : 0 ≤ pixels) :
    TenBitPixels s sline (6 : ℕ) ∧ TenBitPixels s (sline.advance 6 3) pixels := by
  have hchroma : (6 + pixels) / 2 = 3 + pixels / 2 := by omega
  obtain ⟨hy, hu, hv⟩ := h
  rw [hchroma] at hu hv
  refine ⟨⟨fun i hi hn => hy i hi (by omega), fun i hi hn => hu i hi (by omega),
    fun i hi hn => hv i hi (by omega)⟩, ⟨fun i hi hn => ?_, fun i hi hn => ?_, fun i hi hn => ?_⟩⟩
  · have hcell := hy (6 + i) (by omega) (by omega)
    rwa [← add_assoc] at hcell
  · have hcell := hu (3 + i) (by omega) (by omega)
    rwa [← add_assoc] at hcell
  · have hcell := hv (3 + i) (by omega) (by omega)
    rwa [← add_assoc] at hcell

/-- The pixels of a group, and those behind. -/
theorem PixelsInside.split {pixels : ℤ} (h : PixelsInside dst line (6 + pixels))
    (hpixels : 0 ≤ pixels) :
    PixelsInside dst line 6 ∧ PixelsInside dst (line.advance 6 3) pixels := by
  obtain ⟨hy, hu, hv⟩ := h
  unfold Has at hy hu hv
  constructor
  · constructor <;> unfold Has <;> omega
  · constructor <;> simp only [Has, PlanePositions.advance] <;> omega

/-- A write does not move the ends of a plane. -/
theorem PixelsInside.congr {pixels pixels' : ℤ} {line' : PlanePositions}
    (h : PixelsInside dst line pixels) (hwrites : WritesPixels dst dst' line' pixels') :
    PixelsInside dst' line pixels :=
  ⟨h.y.congr hwrites.y.length_eq, h.u.congr hwrites.u.length_eq, h.v.congr hwrites.v.length_eq⟩

/-- A group, and the pixels behind it. -/
theorem WritesPixels.join {dst'' : SamplePlanes} {pixels : ℤ} (h : WritesPixels dst dst' line 6)
    (h' : WritesPixels dst' dst'' (line.advance 6 3) pixels) (hpixels : 0 ≤ pixels) :
    WritesPixels dst dst'' line (6 + pixels) := by
  constructor
  · exact h.y.trans h'.y (by omega) (by simp only [PlanePositions.advance]; omega)
  · exact h.u.trans h'.u (by omega) (by simp only [PlanePositions.advance]; omega)
  · exact h.v.trans h'.v (by omega) (by simp only [PlanePositions.advance]; omega)

/-- A group and what is behind it. -/
theorem ShowsPixels.join {pixels pixels' : ℤ} (h : ShowsPixels dst line s sline 6)
    (hwrites : WritesPixels dst dst' (line.advance 6 3) pixels')
    (h' : ShowsPixels dst' (line.advance 6 3) s (sline.advance 6 3) pixels) :
    ShowsPixels dst' line s sline (6 + pixels) := by
  have hchroma : (6 + pixels) / 2 = 3 + pixels / 2 := by omega
  refine ⟨?_, ?_, ?_⟩
  · exact (hwrites.y.shows (Or.inl le_rfl) h.y).join h'.y
  · rw [hchroma]
    exact (hwrites.u.shows (Or.inl le_rfl) h.u).join h'.u
  · rw [hchroma]
    exact (hwrites.v.shows (Or.inl le_rfl) h.v).join h'.v

/-- A row of packed pixels is decoded. -/
theorem unpackLine_spec {rest groups all : ℕ} (hrest : rest = 0 ∨ rest = 2 ∨ rest = 4)
    (hall : 6 * groups + rest ≤ 6 * all) (hpacked : PackedGroups src srcline s sline all)
    (hten : TenBitPixels s sline (6 * groups + rest : ℕ))
    (hinside : PixelsInside dst line (6 * groups + rest : ℕ)) :
    ∃ dst', unpackLine src rest groups srcline line dst = some dst' ∧
      WritesPixels dst dst' line (6 * groups + rest : ℕ) ∧
      ShowsPixels dst' line s sline (6 * groups + rest : ℕ) := by
  induction groups generalizing all srcline sline line dst with
  | zero =>
    rw [Nat.mul_zero, Nat.zero_add] at *
    by_cases hzero : rest = 0
    · subst hzero
      exact ⟨dst, rfl, ⟨.refl _ _ _, .refl _ _ _, .refl _ _ _⟩,
        ⟨.empty (by decide), .empty (by decide), .empty (by decide)⟩⟩
    · obtain ⟨hhas, hlists⟩ := hpacked.head (by omega)
      have hpixels := unpackedPixels_spec hlists hten (by omega) line dst
      exact ⟨_, unpackRest_of_inside hrest (fun _ => hhas) hinside, hpixels⟩
  | succ groups ih =>
    obtain ⟨all, rfl⟩ : ∃ k, all = k + 1 := ⟨all - 1, by omega⟩
    have hcount : ((6 * (groups + 1) + rest : ℕ) : ℤ) = 6 + (6 * groups + rest : ℕ) := by
      push_cast
      ring
    rw [hcount] at hten hinside ⊢
    obtain ⟨hhas, hlists⟩ := hpacked.head (by omega)
    obtain ⟨hten6, htenRest⟩ := hten.split (by omega)
    obtain ⟨hinside6, hinsideRest⟩ := hinside.split (by omega)
    obtain ⟨hwrites, hshows⟩ := unpackedPixels_spec hlists hten6 (by decide) line dst
    obtain ⟨dst', hdst', hwrites', hshows'⟩ :=
      ih (by omega) hpacked.tail htenRest (hinsideRest.congr hwrites)
    refine ⟨dst', ?_, hwrites.join hwrites' (by omega), hshows.join hwrites' hshows'⟩
    rw [unpackLine, unpackGroup_of_inside hhas hinside6]
    exact hdst'

variable {ppitchY ppitchUV sppitchY sppitchUV srcpitch srcp : ℤ} {ptr sptr : PlanePositions}

/-- What the outer loop has decoded. -/
structure UnpackedRows (dst dst' : SamplePlanes) (ppitchY ppitchUV : ℤ) (ptr : PlanePositions)
    (s : SamplePlanes) (sppitchY sppitchUV : ℤ) (sptr : PlanePositions) (pixels : ℤ)
    (rows : ℕ) : Prop where
  shows : ∀ row < rows, ShowsPixels dst' (ptr.row ppitchY ppitchUV row) s
    (sptr.row sppitchY sppitchUV row) pixels
  y_before : ∀ i < ptr.y, dst'.y.cell i = dst.y.cell i
  u_before : ∀ i < ptr.u, dst'.u.cell i = dst.u.cell i
  v_before : ∀ i < ptr.v, dst'.v.cell i = dst.v.cell i

/-- Rows of packed pixels are decoded, into planes whose rows do not overlap. -/
theorem unpackRows_spec {rest groups all rows : ℕ} (hrest : rest = 0 ∨ rest = 2 ∨ rest = 4)
    (hall : 6 * groups + rest ≤ 6 * all) (hpitchY : (6 * groups + rest : ℕ) ≤ ppitchY)
    (hpitchUV : (6 * groups + rest : ℕ) / 2 ≤ ppitchUV)
    (hpacked : ∀ row < rows, PackedGroups src ((srcp + row * srcpitch) / 4) s
      (sptr.row sppitchY sppitchUV row) all)
    (hten : ∀ row < rows,
      TenBitPixels s (sptr.row sppitchY sppitchUV row) (6 * groups + rest : ℕ))
    (hinside : ∀ row < rows,
      PixelsInside dst (ptr.row ppitchY ppitchUV row) (6 * groups + rest : ℕ)) :
    ∃ dst', unpackRows src ppitchY ppitchUV srcpitch rest groups rows srcp ptr dst = some dst' ∧
      UnpackedRows dst dst' ppitchY ppitchUV ptr s sppitchY sppitchUV sptr
        (6 * groups + rest : ℕ) rows := by
  induction rows generalizing srcp ptr sptr dst with
  | zero =>
    exact ⟨dst, rfl, fun row hrow => absurd hrow (Nat.not_lt_zero row), fun _ _ => rfl,
      fun _ _ => rfl, fun _ _ => rfl⟩
  | succ rows ih =>
    have hsucc (row : ℕ) : srcp + srcpitch + row * srcpitch = srcp + (row + 1 : ℕ) * srcpitch := by
      push_cast
      ring
    have hpacked0 : PackedGroups src (srcp / 4) s sptr all := by simpa using hpacked 0 (by omega)
    have hten0 : TenBitPixels s sptr (6 * groups + rest : ℕ) := by simpa using hten 0 (by omega)
    have hinside0 : PixelsInside dst ptr (6 * groups + rest : ℕ) := by
      simpa using hinside 0 (by omega)
    obtain ⟨mid, hmid, hwrites, hshows⟩ := unpackLine_spec hrest hall hpacked0 hten0 hinside0
    have hpacked' : ∀ row < rows, PackedGroups src ((srcp + srcpitch + row * srcpitch) / 4) s
        ((sptr.advance sppitchY sppitchUV).row sppitchY sppitchUV row) all := by
      intro row hrow
      rw [hsucc, ← row_succ]
      exact hpacked (row + 1) (by omega)
    have hten' : ∀ row < rows, TenBitPixels s
        ((sptr.advance sppitchY sppitchUV).row sppitchY sppitchUV row)
        (6 * groups + rest : ℕ) := by
      intro row hrow
      rw [← row_succ]
      exact hten (row + 1) (by omega)
    have hinside' : ∀ row < rows, PixelsInside mid
        ((ptr.advance ppitchY ppitchUV).row ppitchY ppitchUV row) (6 * groups + rest : ℕ) := by
      intro row hrow
      rw [← row_succ]
      exact (hinside (row + 1) (by omega)).congr hwrites
    obtain ⟨dst', hdst', hrows⟩ := ih hpacked' hten' hinside'
    refine ⟨dst', ?_, fun row hrow => ?_, fun i hi => ?_, fun i hi => ?_, fun i hi => ?_⟩
    · rw [unpackRows, hmid]
      exact hdst'
    · cases row with
      | zero =>
        simp only [Int.natCast_zero, row_zero]
        have hy := hrows.y_before
        have hu := hrows.u_before
        have hv := hrows.v_before
        simp only [PlanePositions.advance] at hy hu hv
        exact ⟨hshows.y.congr fun i _ hi => hy _ (by omega),
          hshows.u.congr fun i _ hi => hu _ (by omega),
          hshows.v.congr fun i _ hi => hv _ (by omega)⟩
      | succ row =>
        rw [row_succ, row_succ]
        exact hrows.shows row (by omega)
    · rw [hrows.y_before i (by simp only [PlanePositions.advance]; omega),
        hwrites.y.cell_eq i (by omega)]
    · rw [hrows.u_before i (by simp only [PlanePositions.advance]; omega),
        hwrites.u.cell_eq i (by omega)]
    · rw [hrows.v_before i (by simp only [PlanePositions.advance]; omega),
        hwrites.v.cell_eq i (by omega)]

end Pixels

end AviSynth
