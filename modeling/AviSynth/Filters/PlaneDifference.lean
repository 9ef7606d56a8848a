import AviSynth.Library.ByteLanes
import AviSynth.Library.Loops
import AviSynth.Library.MachineInt

/-!
# Differences and sums of planes

The functions of the run-time filters that add up the differences of two planes, or the samples
of one, each with a loop in C and a kernel for registers. Their results are whole numbers far
below `2 ^ 53`, so the conversion to `double` keeps them.
-/

namespace AviSynth

open Samples CountedLoop Finset

/-- `pixel_t` -/
inductive PixelT
  | uint8 | uint16
  deriving DecidableEq

namespace PixelT

/-- `sizeof(pixel_t)` -/
def size : PixelT → ℕ
  | uint8 => 1
  | uint16 => 2

/-- The sample at an index from the start of a row. -/
def read (pixel : PixelT) (memory : ℤ → UInt8) (p x : ℤ) : ℕ :=
  match pixel with
  | uint8 => (memory (p + x)).toNat
  | uint16 => (load16 memory (p + 2 * x)).toNat

end PixelT

/-- Where the rows of a plane are. -/
structure PlaneData where
  memory : ℤ → UInt8
  pos : ℤ
  pitch : ℤ
  pos_aligned : 16 ∣ pos
  pitch_aligned : 16 ∣ pitch

/-- The pixels of packed RGB have four samples. No frame buffer has more bytes than an `int`
counts. -/
structure PlaneShape (pixel : PixelT) (packedRGB3264 : Bool) where
  rowsize : ℕ
  height : ℕ
  whole_pixels : (if packedRGB3264 then 4 * pixel.size else pixel.size) ∣ rowsize
  min_rowsize : 16 ≤ rowsize
  bytes_lt : rowsize * height < 2 ^ 31

/-! ## The loops in C -/

section Functions

variable (pixel : PixelT) (packedRGB3264 : Bool)

/-- `std::abs(a[x] - b[x])` -/
def sampleDifference (a : ℤ → UInt8) (p : ℤ) (b : ℤ → UInt8) (q x : ℤ) : ℕ :=
  distance (pixel.read a p x) (pixel.read b q x)

/-- The sum of the absolute differences, in C. -/
def getSadC (c t : PlaneData) (height width : ℕ) : BitVec 64 :=
  let cPitch := c.pitch / pixel.size
  let tPitch := t.pitch / pixel.size
  forLoop 0 height 1 (fun y accum =>
    forLoop 0 width 1 (fun x accum => accum + .ofNat 64 (sampleDifference pixel t.memory
      (t.pos + pixel.size * (tPitch * y)) c.memory (c.pos + pixel.size * (cPitch * y)) x)) accum) 0

/-- The same without the alpha of each pixel. -/
def getSadRgbC (c t : PlaneData) (height width : ℕ) : BitVec 64 :=
  let cPitch := c.pitch / pixel.size
  let tPitch := t.pitch / pixel.size
  forLoop 0 height 1 (fun y accum =>
    let difference := sampleDifference pixel t.memory (t.pos + pixel.size * (tPitch * y))
      c.memory (c.pos + pixel.size * (cPitch * y))
    forLoop 0 width 4 (fun x accum =>
      accum + .ofNat 64 (difference x) + .ofNat 64 (difference (x + 1)) +
        .ofNat 64 (difference (x + 2))) accum) 0

/-- The sum of the samples, in C. -/
def getSumOfPixelsC (src : PlaneData) (height width : ℕ) : BitVec 64 :=
  let pitch := src.pitch / pixel.size
  forLoop 0 height 1 (fun y accum =>
    forLoop 0 width 1 (fun x accum =>
      accum + .ofNat 64 (pixel.read src.memory (src.pos + pixel.size * (pitch * y)) x)) accum) 0

/-! ## The kernels -/

/-- The mask that clears the alpha lanes. -/
def rgbMask : M128i :=
  match pixel with
  | .uint8 => mmSet1Epi32 0x00FFFFFF
  | .uint16 => alphaMask16

/-- A block of 16 bytes. -/
def sadBlock (src1 src2 sum : M128i) : M128i :=
  let src1 := if packedRGB3264 then mmAnd src1 (rgbMask pixel) else src1
  let src2 := if packedRGB3264 then mmAnd src2 (rgbMask pixel) else src2
  match pixel with
  | .uint8 => mmAddEpi32 sum (mmSadEpu8 src1 src2)
  | .uint16 =>
      let absdiff := mmOr (mmSubsEpu16 src1 src2) (mmSubsEpu16 src2 src1)
      mmAddEpi32 (mmAddEpi32 sum (mmUnpackloEpi16 absdiff mmSetzero))
        (mmUnpackhiEpi16 absdiff mmSetzero)

/-- Summing up partial sums. -/
def foldSums (sum : M128i) : M128i :=
  match pixel with
  | .uint8 => sum
  | .uint16 => mmAddEpi32 (mmUnpackloEpi32 sum mmSetzero) (mmUnpackhiEpi32 sum mmSetzero)

/-- A row: the blocks, and the samples or pixels behind the last one. -/
def sadRow (cur : ℤ → UInt8) (curPtr : ℤ) (other : ℤ → UInt8) (otherPtr : ℤ) (rowsize : ℕ) :
    BitVec 32 :=
  let mod16Width := rowsize / 16 * 16
  let sum := foldSums pixel (forLoop 0 mod16Width 16 (fun x sum =>
    sadBlock pixel packedRGB3264 (mmLoad cur (curPtr + x)) (mmLoad other (otherPtr + x)) sum)
      mmSetzero)
  let rowsum := mmCvtsi128Si32 (mmAddEpi32 sum (mmUnpackhiEpi64 sum mmSetzero))
  let difference := sampleDifference pixel cur curPtr other otherPtr
  if mod16Width ≠ rowsize then
    if packedRGB3264 then
      forLoop (mod16Width / pixel.size / 4 : ℕ) (rowsize / pixel.size / 4 : ℕ) 1 (fun x rowsum =>
        rowsum + .ofNat 32 (difference (x * 4 + 0) + difference (x * 4 + 1) +
          difference (x * 4 + 2))) rowsum
    else
      forLoop (mod16Width / pixel.size : ℕ) (rowsize / pixel.size : ℕ) 1 (fun x rowsum =>
        rowsum + .ofNat 32 (difference x)) rowsum
  else rowsum

/-- The sum of the absolute differences in lanes. -/
def calculateSad8Or16Sse2 (cur other : PlaneData) (rowsize height : ℕ) : BitVec 64 :=
  forLoop 0 height 1 (fun y totalsum =>
    totalsum + (sadRow pixel packedRGB3264 cur.memory (cur.pos + cur.pitch * y) other.memory
      (other.pos + other.pitch * y) rowsize).signExtend 64) 0

end Functions

/-- The state of `get_sum_of_pixels_sse2`. -/
structure PixelSums where
  result : BitVec 64
  sum : M128i

/-- A row of the plane. -/
def sumRow (memory : ℤ → UInt8) (srcp : ℤ) (width : ℕ) (s : PixelSums) : PixelSums :=
  let mod16Width := width / 16 * 16
  ⟨forLoop mod16Width width 1 (fun x result =>
      result + .ofNat 64 (memory (srcp + x)).toNat) s.result,
    forLoop 0 mod16Width 16 (fun x sum =>
      mmAddEpi32 sum (mmSadEpu8 (mmLoad memory (srcp + x)) mmSetzero)) s.sum⟩

/-- The sum of the samples in lanes. -/
def getSumOfPixelsSse2 (src : PlaneData) (height width : ℕ) : BitVec 64 :=
  let s := forLoop 0 height 1 (fun y s => sumRow src.memory (src.pos + src.pitch * y) width s)
    ⟨0, mmSetzero⟩
  s.result + (mmCvtsi128Si32 (mmAddEpi32 s.sum (mmUnpackhiEpi64 s.sum mmSetzero))).signExtend 64

/-- Whether `AvgPlane` takes the kernel for a processor with SSE2. -/
def usesSumKernel (pixel : PixelT) (height width : ℕ) : Prop :=
  let totalPixels := MachineInt.i32 (width * height)
  let sumIn32bits := totalPixels * (if pixel.size = 1 then 255 else 65535) ≤ 2 ^ 31 - 1
  pixel.size = 1 ∧ sumIn32bits ∧ width ≥ 16

/-! ## Rows -/

section Rows

variable (pixel : PixelT) (packedRGB3264 : Bool) (cur : ℤ → UInt8) (p : ℤ) (other : ℤ → UInt8)
  (q : ℤ)

/-- The difference that a sample adds; the alpha of packed RGB adds none. -/
def difference (x : ℕ) : ℕ :=
  if packedRGB3264 ∧ x % 4 = 3 then 0 else sampleDifference pixel cur p other q x

/-- The sum of the differences of a row. -/
def rowDifference (width : ℕ) : ℕ :=
  ∑ x ∈ range width, difference pixel packedRGB3264 cur p other q x

/-- The lanes that count. -/
def laneSum (sum : M128i) : BitVec 32 :=
  match pixel with
  | .uint8 => lowSum sum
  | .uint16 => allSum sum

theorem mmCvtsi128Si32_foldSums (sum : M128i) :
    mmCvtsi128Si32 (mmAddEpi32 (foldSums pixel sum)
      (mmUnpackhiEpi64 (foldSums pixel sum) mmSetzero)) = laneSum pixel sum := by
  rw [mmCvtsi128Si32_fold]
  cases pixel with
  | uint8 => rfl
  | uint16 => exact lowSum_unpack sum

/-- Bytes of a block, with the mask where the format has alpha. -/
theorem sampleBytes_block (memory : ℤ → UInt8) (p k : ℤ) :
    sampleBytes (if packedRGB3264 then mmAnd (mmLoad memory p) (rgbMask .uint8)
      else mmLoad memory p) k =
    if packedRGB3264 ∧ k % 4 = 3 then 0 else memory (p + k) := by
  cases packedRGB3264 with
  | true =>
    rw [if_pos rfl, rgbMask, sampleBytes_mmAnd, sampleBytes_mmLoad]
    simp only [true_and]
  | false =>
    rw [if_neg (by decide), if_neg (by simp), sampleBytes_mmLoad]

/-- Samples of a block. -/
theorem sample_block (memory : ℤ → UInt8) (p k : ℤ) :
    (if packedRGB3264 then mmAnd (mmLoad memory p) (rgbMask .uint16)
      else mmLoad memory p) k =
    if packedRGB3264 ∧ k % 4 = 3 then 0 else load16 memory (p + 2 * k) := by
  cases packedRGB3264 with
  | true => simp [rgbMask, mmAnd_alphaMask16, mmLoad]
  | false => simp [mmLoad]

/-- A block adds the differences of its samples. -/
theorem laneSum_sadBlock (sum : M128i) :
    laneSum pixel (sadBlock pixel packedRGB3264 (mmLoad cur p) (mmLoad other q) sum) =
      laneSum pixel sum +
        .ofNat 32 (∑ k ∈ range (16 / pixel.size),
          difference pixel packedRGB3264 cur p other q k) := by
  have hmod (k : ℕ) : (k : ℤ) % 4 = 3 ↔ k % 4 = 3 := by omega
  cases pixel with
  | uint8 =>
    have hsum : ∑ k ∈ range 16, byteDistance
          (if packedRGB3264 then mmAnd (mmLoad cur p) (rgbMask .uint8) else mmLoad cur p)
          (if packedRGB3264 then mmAnd (mmLoad other q) (rgbMask .uint8) else mmLoad other q) k =
        ∑ k ∈ range 16, difference .uint8 packedRGB3264 cur p other q k := by
      refine sum_congr rfl fun k _ => ?_
      rw [byteDistance, sampleBytes_block, sampleBytes_block, difference]
      simp only [hmod]
      split
      · exact distance_self _
      · rfl
    rw [sadBlock, laneSum, lowSum_add, hsum, laneSum]
    rfl
  | uint16 =>
    have hsum (v w : M128i)
        (hv : ∀ k : ℤ, v k = if packedRGB3264 ∧ k % 4 = 3 then 0 else load16 cur (p + 2 * k))
        (hw : ∀ k : ℤ, w k = if packedRGB3264 ∧ k % 4 = 3 then 0 else load16 other (q + 2 * k)) :
        ∑ k ∈ range 8, (mmOr (mmSubsEpu16 v w) (mmSubsEpu16 w v) k).toNat =
          ∑ k ∈ range 8, difference .uint16 packedRGB3264 cur p other q k := by
      refine sum_congr rfl fun k _ => ?_
      rw [mmOr_mmSubsEpu16, hv, hw, difference]
      simp only [hmod]
      split
      · exact distance_self _
      · rfl
    rw [sadBlock, laneSum, allSum_add, hsum _ _ (sample_block packedRGB3264 cur p)
      (sample_block packedRGB3264 other q), laneSum]
    rfl

/-- The samples of a block in the row. -/
theorem difference_block (block k : ℕ) :
    difference pixel packedRGB3264 cur (p + 16 * block) other (q + 16 * block) k =
      difference pixel packedRGB3264 cur p other q (16 / pixel.size * block + k) := by
  have hread (memory : ℤ → UInt8) (a : ℤ) : pixel.read memory (a + 16 * block) k =
      pixel.read memory a (16 / pixel.size * block + k : ℕ) := by
    cases pixel with
    | uint8 =>
      have hpos : a + 16 * block + k = a + (16 * block + k : ℕ) := by
        push_cast
        ring
      rw [PixelT.read, hpos]
      rfl
    | uint16 =>
      have hpos : a + 16 * block + 2 * k = a + 2 * (8 * block + k : ℕ) := by
        push_cast
        ring
      rw [PixelT.read, hpos]
      rfl
  have hmod : (16 / pixel.size * block + k) % 4 = k % 4 := by
    cases pixel with
    | uint8 => exact (by omega : (16 * block + k) % 4 = k % 4)
    | uint16 => exact (by omega : (8 * block + k) % 4 = k % 4)
  rw [difference, difference, sampleDifference, sampleDifference, hread, hread, hmod]

/-- The blocks of a row. -/
theorem laneSum_blocks (blocks : ℕ) :
    laneSum pixel (forLoop 0 (blocks * 16 : ℕ) 16 (fun x sum =>
      sadBlock pixel packedRGB3264 (mmLoad cur (p + x)) (mmLoad other (q + x)) sum) mmSetzero) =
    .ofNat 32 (rowDifference pixel packedRGB3264 cur p other q (16 / pixel.size * blocks)) := by
  have hstop : ((blocks * 16 : ℕ) : ℤ) = 0 + 16 * blocks := by
    push_cast
    ring
  have hzero : laneSum pixel mmSetzero = 0 := by
    cases pixel <;> simp [laneSum, lowSum, allSum]
  have hsums (block : ℕ) : ∑ k ∈ range (16 / pixel.size),
      difference pixel packedRGB3264 cur (p + (0 + 16 * block)) other (q + (0 + 16 * block)) k =
        ∑ k ∈ range (16 / pixel.size),
          difference pixel packedRGB3264 cur p other q (16 / pixel.size * block + k) := by
    simp only [zero_add, difference_block]
  calc _ = forLoop 0 (blocks * 16 : ℕ) 16 (fun x acc => acc + .ofNat 32
          (∑ k ∈ range (16 / pixel.size),
            difference pixel packedRGB3264 cur (p + x) other (q + x) k))
          (laneSum pixel mmSetzero) :=
        forLoop_part (laneSum pixel) fun x sum =>
          laneSum_sadBlock pixel packedRGB3264 cur (p + x) other (q + x) sum
    _ = _ := by
      rw [hstop, forLoop_eq (by decide), forStep_add, hzero, zero_add, rowDifference, sum_blocks,
        ofNat_sum]
      simp only [hsums]

/-- The samples behind the last block. -/
theorem forLoop_rest {w start stop : ℕ} (h : start ≤ stop) (sum : BitVec w) (f : ℕ → ℕ)
    (g : ℤ → BitVec w) (hg : ∀ k, start ≤ k → g k = .ofNat w (f k)) :
    forLoop start stop 1 (fun x acc => acc + g x) sum =
      sum + .ofNat w (∑ k ∈ range (stop - start), f (start + k)) := by
  have hstop : (stop : ℤ) = start + 1 * (stop - start : ℕ) := by omega
  rw [hstop, forLoop_eq (by decide), forStep_add, ofNat_sum]
  congr 1
  refine sum_congr rfl fun k _ => ?_
  have hpos : (start + 1 * k : ℤ) = (start + k : ℕ) := by omega
  rw [hpos, hg _ (by omega)]

/-- The three samples of a pixel that count. -/
theorem pixel_difference (k : ℕ) :
    ∑ j ∈ range 4, difference pixel true cur p other q (4 * k + j) =
      sampleDifference pixel cur p other q (k * 4 + 0) +
        sampleDifference pixel cur p other q (k * 4 + 1) +
        sampleDifference pixel cur p other q (k * 4 + 2) := by
  have hcounts (j : ℕ) (hj : j < 3) : difference pixel true cur p other q (4 * k + j) =
      sampleDifference pixel cur p other q (k * 4 + j) := by
    have hpos : ((4 * k + j : ℕ) : ℤ) = k * 4 + j := by omega
    rw [difference, if_neg (by omega), hpos]
  have halpha : difference pixel true cur p other q (4 * k + 3) = 0 := by
    rw [difference, if_pos ⟨rfl, by omega⟩]
  have h0 := hcounts 0 (by decide)
  have h1 := hcounts 1 (by decide)
  have h2 := hcounts 2 (by decide)
  simp only [Nat.cast_zero, Nat.cast_one, Nat.cast_ofNat] at h0 h1 h2
  rw [sum_range_succ, sum_range_succ, sum_range_succ, sum_range_one, h0, h1, h2, halpha]
  rfl

theorem rowDifference_pixels (n : ℕ) : rowDifference pixel true cur p other q (4 * n) =
    ∑ k ∈ range n, ∑ j ∈ range 4, difference pixel true cur p other q (4 * k + j) := by
  rw [rowDifference, sum_blocks]

/-- The kernel of a row adds up its differences modulo `2 ^ 32`. -/
theorem sadRow_eq {rowsize : ℕ}
    (hwhole : (if packedRGB3264 then 4 * pixel.size else pixel.size) ∣ rowsize) :
    sadRow pixel packedRGB3264 cur p other q rowsize =
      .ofNat 32 (rowDifference pixel packedRGB3264 cur p other q (rowsize / pixel.size)) := by
  have hmod16 : rowsize / 16 * 16 / pixel.size = 16 / pixel.size * (rowsize / 16) := by
    cases pixel with
    | uint8 => exact (by omega : rowsize / 16 * 16 / 1 = 16 * (rowsize / 16))
    | uint16 => exact (by omega : rowsize / 16 * 16 / 2 = 8 * (rowsize / 16))
  have hle : 16 / pixel.size * (rowsize / 16) ≤ rowsize / pixel.size := by
    rw [← hmod16]
    exact Nat.div_le_div_right (Nat.div_mul_le_self rowsize 16)
  have hsplit : rowDifference pixel packedRGB3264 cur p other q (rowsize / pixel.size) =
      rowDifference pixel packedRGB3264 cur p other q (16 / pixel.size * (rowsize / 16)) +
        ∑ k ∈ range (rowsize / pixel.size - 16 / pixel.size * (rowsize / 16)),
          difference pixel packedRGB3264 cur p other q (16 / pixel.size * (rowsize / 16) + k) := by
    rw [rowDifference, rowDifference, ← sum_range_add]
    congr 2
    omega
  rw [sadRow]
  simp only [mmCvtsi128Si32_foldSums, laneSum_blocks]
  split_ifs with hrest hpacked
  · subst hpacked
    rw [if_pos rfl] at hwhole
    obtain ⟨blocks, hblocks⟩ : 4 ∣ 16 / pixel.size * (rowsize / 16) := by
      cases pixel with
      | uint8 => exact (by omega : 4 ∣ 16 * (rowsize / 16))
      | uint16 => exact (by omega : 4 ∣ 8 * (rowsize / 16))
    obtain ⟨pixels, hpixels⟩ : 4 ∣ rowsize / pixel.size :=
      Nat.dvd_div_of_mul_dvd (by rwa [mul_comm])
    have hcount : pixels = blocks + (pixels - blocks) := by omega
    rw [hmod16, hblocks, hpixels, Nat.mul_div_cancel_left _ (by decide),
      Nat.mul_div_cancel_left _ (by decide), forLoop_rest (by omega) _ (fun k => ∑ j ∈ range 4,
        difference pixel true cur p other q (4 * k + j)), ← BitVec.ofNat_add,
      rowDifference_pixels, rowDifference_pixels, ← sum_range_add, ← hcount]
    intro k _
    rw [pixel_difference]
  · rw [hmod16, forLoop_rest hle _ (difference pixel packedRGB3264 cur p other q), hsplit,
      BitVec.ofNat_add]
    intro k _
    rw [difference, if_neg (by simp [hpacked])]
  · have hnone : rowsize / pixel.size = 16 / pixel.size * (rowsize / 16) := by
      rw [← hmod16, not_not.mp hrest]
    rw [hnone]

end Rows

/-! ## Planes -/

theorem sampleDifference_comm (pixel : PixelT) (a : ℤ → UInt8) (p : ℤ) (b : ℤ → UInt8)
    (q x : ℤ) :
    sampleDifference pixel a p b q x = sampleDifference pixel b q a p x := distance_comm _ _

theorem PixelT.read_le (pixel : PixelT) (memory : ℤ → UInt8) (p x : ℤ) :
    pixel.read memory p x ≤ 65535 := by
  cases pixel with
  | uint8 =>
    have hlt := (memory (p + x)).toNat_lt
    exact Nat.le_of_lt_succ (hlt.trans (by decide))
  | uint16 => exact Nat.le_of_lt_succ (load16 memory (p + 2 * x)).isLt

/-- The rows of a plane with an aligned pitch. -/
theorem PlaneData.row_eq (plane : PlaneData) (pixel : PixelT) (y : ℤ) :
    plane.pos + pixel.size * (plane.pitch / pixel.size * y) = plane.pos + plane.pitch * y := by
  obtain ⟨k, hk⟩ := plane.pitch_aligned
  have hpitch : (pixel.size : ℤ) * (plane.pitch / pixel.size) = plane.pitch := by
    cases pixel with
    | uint8 => exact (by omega : (1 : ℤ) * (plane.pitch / 1) = plane.pitch)
    | uint16 => exact (by omega : (2 : ℤ) * (plane.pitch / 2) = plane.pitch)
  rw [← Int.mul_assoc, hpitch]

section Planes

variable (pixel : PixelT) (packedRGB3264 : Bool) (cur other : PlaneData) (width height : ℕ)

/-- The sum of the differences of the row at `y`. -/
def planeDifference (y : ℤ) : ℕ :=
  rowDifference pixel packedRGB3264 cur.memory (cur.pos + cur.pitch * y) other.memory
    (other.pos + other.pitch * y) width

/-- Rows that are added one after the other. -/
theorem forLoop_rows {w : ℕ} (g : ℤ → BitVec w) :
    forLoop 0 height 1 (fun y acc => acc + g y) 0 = ∑ y ∈ range height, g y := by
  have hstop : (height : ℤ) = 0 + 1 * height := by omega
  rw [hstop, forLoop_eq (by decide), forStep_add, zero_add]
  simp only [zero_add, one_mul]

/-- The C loop sums the rows. -/
theorem getSadC_eq : getSadC pixel cur other height width =
    ∑ y ∈ range height, .ofNat 64 (planeDifference pixel false cur other width y) := by
  have hrow (y : ℤ) (accum : BitVec 64) : forLoop 0 width 1 (fun x accum =>
      accum + .ofNat 64 (sampleDifference pixel other.memory
        (other.pos + pixel.size * (other.pitch / pixel.size * y)) cur.memory
        (cur.pos + pixel.size * (cur.pitch / pixel.size * y)) x)) accum =
      accum + .ofNat 64 (planeDifference pixel false cur other width y) := by
    have hloop := forLoop_rest (Nat.zero_le width) accum
      (difference pixel false cur.memory (cur.pos + cur.pitch * y) other.memory
        (other.pos + other.pitch * y))
      (fun x => .ofNat 64 (sampleDifference pixel other.memory (other.pos + other.pitch * y)
        cur.memory (cur.pos + cur.pitch * y) x)) (fun k _ => by
          rw [difference, if_neg (by simp), sampleDifference_comm])
    simpa only [Nat.cast_zero, Nat.sub_zero, zero_add, PlaneData.row_eq, planeDifference,
      rowDifference] using hloop
  rw [getSadC]
  simp only [hrow]
  exact forLoop_rows height _

/-- So does the loop over RGB. -/
theorem getSadRgbC_eq (hwidth : 4 ∣ width) : getSadRgbC pixel cur other height width =
    ∑ y ∈ range height, .ofNat 64 (planeDifference pixel true cur other width y) := by
  obtain ⟨pixels, rfl⟩ := hwidth
  have hstop : ((4 * pixels : ℕ) : ℤ) = 0 + 4 * pixels := by omega
  have hrow (y : ℤ) (accum : BitVec 64) : forLoop 0 (4 * pixels : ℕ) 4 (fun x accum =>
      accum + .ofNat 64 (sampleDifference pixel other.memory
          (other.pos + pixel.size * (other.pitch / pixel.size * y)) cur.memory
          (cur.pos + pixel.size * (cur.pitch / pixel.size * y)) x) +
        .ofNat 64 (sampleDifference pixel other.memory
          (other.pos + pixel.size * (other.pitch / pixel.size * y)) cur.memory
          (cur.pos + pixel.size * (cur.pitch / pixel.size * y)) (x + 1)) +
        .ofNat 64 (sampleDifference pixel other.memory
          (other.pos + pixel.size * (other.pitch / pixel.size * y)) cur.memory
          (cur.pos + pixel.size * (cur.pitch / pixel.size * y)) (x + 2))) accum =
      accum + .ofNat 64 (planeDifference pixel true cur other (4 * pixels) y) := by
    rw [hstop, forLoop_eq (by decide), planeDifference, rowDifference_pixels, ofNat_sum]
    simp only [PlaneData.row_eq, add_assoc]
    rw [forStep_add]
    congr 1
    refine sum_congr rfl fun k _ => ?_
    have hpos : (0 + 4 * k : ℤ) = k * 4 + 0 := by ring
    rw [pixel_difference, BitVec.ofNat_add, BitVec.ofNat_add, hpos, add_zero, ← add_assoc,
      sampleDifference_comm, sampleDifference_comm _ other.memory,
      sampleDifference_comm _ other.memory]
  rw [getSadRgbC]
  simp only [hrow]
  exact forLoop_rows height _

/-- The kernel sums its rows, each as an `int`. -/
theorem calculateSad_eq {rowsize : ℕ}
    (hwhole : (if packedRGB3264 then 4 * pixel.size else pixel.size) ∣ rowsize) :
    calculateSad8Or16Sse2 pixel packedRGB3264 cur other rowsize height =
      ∑ y ∈ range height, (BitVec.ofNat 32 (planeDifference pixel packedRGB3264 cur other
        (rowsize / pixel.size) y)).signExtend 64 := by
  rw [calculateSad8Or16Sse2]
  simp only [sadRow_eq _ _ _ _ _ _ hwhole]
  exact forLoop_rows height _

theorem sampleDifference_le (a : ℤ → UInt8) (p : ℤ) (b : ℤ → UInt8) (q x : ℤ) :
    sampleDifference pixel a p b q x ≤ 65535 :=
  distance_le (pixel.read_le a p x) (pixel.read_le b q x)

/-- The sum of a row of differences. -/
theorem planeDifference_le (y : ℤ) :
    planeDifference pixel packedRGB3264 cur other width y ≤ width * 65535 := by
  have hle := sum_le_card_nsmul (range width) (difference pixel packedRGB3264 cur.memory
    (cur.pos + cur.pitch * y) other.memory (other.pos + other.pitch * y)) 65535 fun x _ => by
      unfold difference
      split
      · exact Nat.zero_le _
      · exact sampleDifference_le pixel _ _ _ _ _
  simpa [planeDifference, rowDifference] using hle

/-- The loop in C for a format. -/
def sadLoop : BitVec 64 :=
  if packedRGB3264 then getSadRgbC pixel cur other height width
  else getSadC pixel cur other height width

/-- The kernel and the loop agree when no row overflows its sum. -/
theorem calculateSad_eq_iff (shape : PlaneShape pixel packedRGB3264) :
    calculateSad8Or16Sse2 pixel packedRGB3264 cur other shape.rowsize shape.height =
        sadLoop pixel packedRGB3264 cur other (shape.rowsize / pixel.size) shape.height ↔
      ∀ y < shape.height,
        planeDifference pixel packedRGB3264 cur other (shape.rowsize / pixel.size) y < 2 ^ 31 := by
  have hloop : sadLoop pixel packedRGB3264 cur other (shape.rowsize / pixel.size) shape.height =
      ∑ y ∈ range shape.height, .ofNat 64
        (planeDifference pixel packedRGB3264 cur other (shape.rowsize / pixel.size) y) := by
    unfold sadLoop
    split_ifs with hpacked
    · subst hpacked
      have hwhole := shape.whole_pixels
      rw [if_pos rfl, mul_comm] at hwhole
      exact getSadRgbC_eq pixel cur other _ _ (Nat.dvd_div_of_mul_dvd hwhole)
    · obtain rfl : packedRGB3264 = false := by simpa using hpacked
      exact getSadC_eq pixel cur other _ _
  have hbytes := shape.bytes_lt
  have hrowsize := shape.min_rowsize
  have hheight : shape.height < 2 ^ 31 :=
    (Nat.le_mul_of_pos_left _ (by omega)).trans_lt hbytes
  have hsum : ∑ y ∈ range shape.height,
      planeDifference pixel packedRGB3264 cur other (shape.rowsize / pixel.size) y < 2 ^ 62 := by
    have hle := sum_le_card_nsmul (range shape.height) (fun y => planeDifference pixel packedRGB3264
      cur other (shape.rowsize / pixel.size) y) (shape.rowsize * 65535) fun y _ =>
        (planeDifference_le pixel packedRGB3264 cur other _ y).trans
          (Nat.mul_le_mul_right _ (Nat.div_le_self _ _))
    have hcomm : shape.height * (shape.rowsize * 65535) =
        shape.rowsize * shape.height * 65535 := by ring
    rw [card_range, nsmul_eq_mul, Nat.cast_id, hcomm] at hle
    omega
  rw [calculateSad_eq pixel packedRGB3264 cur other _ shape.whole_pixels, hloop]
  exact sum_signExtend_eq_iff _ hheight hsum

end Planes

/-! ## Sums of samples -/

section Sums

variable (memory : ℤ → UInt8) (p : ℤ)

theorem byteDistance_mmSetzero (k : ℕ) :
    byteDistance (mmLoad memory p) mmSetzero k = (memory (p + k)).toNat := by
  have hzero : sampleBytes mmSetzero k = 0 := by
    simp only [sampleBytes, mmSetzero]
    split <;> rfl
  rw [byteDistance, sampleBytes_mmLoad, hzero, distance]
  exact Int.natAbs_natCast _

theorem lowSum_blocks (blocks : ℕ) (sum : M128i) :
    lowSum (forLoop 0 (blocks * 16 : ℕ) 16 (fun x sum =>
      mmAddEpi32 sum (mmSadEpu8 (mmLoad memory (p + x)) mmSetzero)) sum) =
    lowSum sum + .ofNat 32 (∑ x ∈ range (16 * blocks), (memory (p + x)).toNat) := by
  have hstop : ((blocks * 16 : ℕ) : ℤ) = 0 + 16 * blocks := by
    push_cast
    ring
  have hpos (block k : ℕ) : p + (0 + 16 * block) + k = p + (16 * block + k : ℕ) := by
    push_cast
    ring
  calc _ = forLoop 0 (blocks * 16 : ℕ) 16 (fun x acc => acc + .ofNat 32
          (∑ k ∈ range 16, (memory (p + x + k)).toNat)) (lowSum sum) := by
        refine forLoop_part lowSum fun x sum => ?_
        simp only [lowSum_add, byteDistance_mmSetzero]
    _ = _ := by
      rw [hstop, forLoop_eq (by decide), forStep_add, sum_blocks, ofNat_sum]
      simp only [hpos]

end Sums

section SumKernel

variable (src : PlaneData) (width height : ℕ)

/-- A byte of a plane. -/
def byteAt (y x : ℤ) : ℕ := (src.memory (src.pos + src.pitch * y + x)).toNat

/-- The blocks of a row go into the lanes. -/
theorem sumRow_sum (y : ℤ) (s : PixelSums) :
    lowSum (sumRow src.memory (src.pos + src.pitch * y) width s).sum =
      lowSum s.sum + .ofNat 32 (∑ x ∈ range (16 * (width / 16)), byteAt src y x) :=
  lowSum_blocks src.memory (src.pos + src.pitch * y) (width / 16) s.sum

/-- The tail of a row is added apart. -/
theorem sumRow_result (y : ℤ) (s : PixelSums) :
    (sumRow src.memory (src.pos + src.pitch * y) width s).result =
      s.result + .ofNat 64 (∑ x ∈ range (width - width / 16 * 16),
        byteAt src y (width / 16 * 16 + x : ℕ)) :=
  forLoop_rest (Nat.div_mul_le_self width 16) s.result (fun x => byteAt src y x) _ fun _ _ => rfl

/-- The blocks of the rows. -/
theorem lowSum_rows (s : PixelSums) : lowSum (forLoop 0 height 1 (fun y s =>
      sumRow src.memory (src.pos + src.pitch * y) width s) s).sum =
    lowSum s.sum +
      .ofNat 32 (∑ y ∈ range height, ∑ x ∈ range (16 * (width / 16)), byteAt src y x) := by
  have hstop : (height : ℤ) = 0 + 1 * height := by omega
  calc _ = forLoop 0 height 1 (fun (y : ℤ) (acc : BitVec 32) => acc + .ofNat 32
          (∑ x ∈ range (16 * (width / 16)), byteAt src y x)) (lowSum s.sum) :=
        forLoop_part (fun s : PixelSums => lowSum s.sum) fun y s => sumRow_sum src width y s
    _ = _ := by
      rw [hstop, forLoop_eq (by decide), forStep_add, ofNat_sum]
      simp only [zero_add, one_mul]

/-- What is left of the rows. -/
theorem result_rows (s : PixelSums) : (forLoop 0 height 1 (fun y s =>
      sumRow src.memory (src.pos + src.pitch * y) width s) s).result =
    s.result + .ofNat 64 (∑ y ∈ range height, ∑ x ∈ range (width - width / 16 * 16),
      byteAt src y (width / 16 * 16 + x : ℕ)) := by
  have hstop : (height : ℤ) = 0 + 1 * height := by omega
  calc _ = forLoop 0 height 1 (fun (y : ℤ) (acc : BitVec 64) => acc + .ofNat 64
          (∑ x ∈ range (width - width / 16 * 16), byteAt src y (width / 16 * 16 + x : ℕ)))
            s.result :=
        forLoop_part PixelSums.result fun y s => sumRow_result src width y s
    _ = _ := by
      rw [hstop, forLoop_eq (by decide), forStep_add, ofNat_sum]
      simp only [zero_add, one_mul]

/-- The sum of the samples of a plane. -/
def planeSum : ℕ := ∑ y ∈ range height, ∑ x ∈ range width, byteAt src y x

/-- The sum of a plane of bytes. -/
theorem planeSum_le : planeSum src width height ≤ width * height * 255 := by
  have hrow (y : ℕ) : ∑ x ∈ range width, byteAt src y x ≤ width * 255 := by
    have hle := sum_le_card_nsmul (range width) (fun x : ℕ => byteAt src y x) 255 fun x _ =>
      Nat.le_of_lt_succ (UInt8.toNat_lt _)
    rwa [card_range, nsmul_eq_mul, Nat.cast_id] at hle
  have hle := sum_le_card_nsmul (range height) _ (width * 255) fun y _ => hrow y
  have hcomm : height * (width * 255) = width * height * 255 := by ring
  rwa [card_range, nsmul_eq_mul, Nat.cast_id, hcomm] at hle

/-- The blocks and what is left make up the plane. -/
theorem planeSum_split : planeSum src width height =
    ∑ y ∈ range height, ∑ x ∈ range (width - width / 16 * 16),
        byteAt src y (width / 16 * 16 + x : ℕ) +
      ∑ y ∈ range height, ∑ x ∈ range (16 * (width / 16)), byteAt src y x := by
  have hwidth : width = width / 16 * 16 + (width - width / 16 * 16) := by omega
  have hrow (y : ℕ) : ∑ x ∈ range width, byteAt src y x =
      ∑ x ∈ range (width - width / 16 * 16), byteAt src y (width / 16 * 16 + x : ℕ) +
        ∑ x ∈ range (16 * (width / 16)), byteAt src y x := by
    conv_lhs => rw [hwidth, sum_range_add, add_comm]
    rw [mul_comm 16]
  rw [planeSum, ← sum_add_distrib]
  exact sum_congr rfl fun y _ => hrow y

/-- The lanes do not overflow below `2 ^ 31`. -/
theorem getSumOfPixelsSse2_eq (h : planeSum src width height < 2 ^ 31) :
    (getSumOfPixelsSse2 src height width).toInt = planeSum src width height := by
  have hsplit := planeSum_split src width height
  have hzero : lowSum mmSetzero = 0 := by simp [lowSum]
  rw [getSumOfPixelsSse2, mmCvtsi128Si32_fold, lowSum_rows, result_rows, hzero, hsplit]
  generalize ∑ y ∈ range height, ∑ x ∈ range (16 * (width / 16)), byteAt src y x = blocks at *
  generalize ∑ y ∈ range height, ∑ x ∈ range (width - width / 16 * 16),
    byteAt src y (width / 16 * 16 + x : ℕ) = rest at *
  have hword : (BitVec.ofNat 32 blocks).signExtend 64 = .ofNat 64 blocks := by
    rw [BitVec.signExtend, (toInt_ofNat_eq_iff blocks).mpr (by omega), BitVec.ofInt_natCast]
  rw [zero_add, zero_add, hword, ← BitVec.ofNat_add, BitVec.toInt_ofNat']
  exact Int.bmod_eq_of_le (by omega) (by omega)

/-- The test of `AvgPlane` keeps the sum in 32 bits. -/
theorem planeSum_lt (hbytes : width * height < 2 ^ 31) (h : usesSumKernel .uint8 height width) :
    planeSum src width height < 2 ^ 31 := by
  obtain ⟨-, hfits, -⟩ := h
  have htotal : MachineInt.i32 (width * height) = (width * height : ℕ) := by
    rw [← Nat.cast_mul]
    exact MachineInt.i32_of_range (by omega) (by omega)
  have hsize : PixelT.uint8.size = 1 := rfl
  rw [htotal, if_pos hsize] at hfits
  have hle := planeSum_le src width height
  omega

end SumKernel

/-! ## Kernels and loops -/

/-- The kernel for differences gives what the loop gives exactly when no row of the planes has a
sum of differences that leaves an `int`; the kernel for sums, where it is taken, gives the sum of
the samples. -/
theorem plane_kernels_exact_iff (pixel : PixelT) (packedRGB3264 : Bool)
    (shape : PlaneShape pixel packedRGB3264) (cur other : PlaneData) :
    (calculateSad8Or16Sse2 pixel packedRGB3264 cur other shape.rowsize shape.height =
        sadLoop pixel packedRGB3264 cur other (shape.rowsize / pixel.size) shape.height ↔
      ∀ y < shape.height,
        planeDifference pixel packedRGB3264 cur other (shape.rowsize / pixel.size) y < 2 ^ 31) ∧
    ∀ (shape : PlaneShape .uint8 false) (src : PlaneData),
      usesSumKernel .uint8 shape.height shape.rowsize →
      (getSumOfPixelsSse2 src shape.height shape.rowsize).toInt =
        planeSum src shape.rowsize shape.height :=
  ⟨calculateSad_eq_iff pixel packedRGB3264 cur other shape, fun shape src h =>
    getSumOfPixelsSse2_eq src _ _ (planeSum_lt src _ _ shape.bytes_lt h)⟩

/-- A plane of one byte value. -/
def constantPlane (byte : UInt8) : PlaneData where
  memory _ := byte
  pos := 0
  pitch := 65552
  pos_aligned := by decide
  pitch_aligned := by decide

/-- Two rows of a block and four more bytes. -/
def smallPlane : PlaneShape .uint8 false where
  rowsize := 20
  height := 2
  whole_pixels := by decide
  min_rowsize := by decide
  bytes_lt := by decide

/-- Rows of 20 bytes, a block and a tail. -/
theorem plane_kernels_exact_iff_small :
    calculateSad8Or16Sse2 .uint8 false (constantPlane 3) (constantPlane 5) smallPlane.rowsize
        smallPlane.height =
      sadLoop .uint8 false (constantPlane 3) (constantPlane 5)
        (smallPlane.rowsize / PixelT.uint8.size) smallPlane.height ∧
    (getSumOfPixelsSse2 (constantPlane 3) smallPlane.height smallPlane.rowsize).toInt =
      planeSum (constantPlane 3) smallPlane.rowsize smallPlane.height := by
  obtain ⟨hsad, hsum⟩ :=
    plane_kernels_exact_iff .uint8 false smallPlane (constantPlane 3) (constantPlane 5)
  refine ⟨hsad.mpr fun y _ => ?_, hsum smallPlane _ ⟨rfl, by decide, by decide⟩⟩
  exact (planeDifference_le .uint8 false _ _ _ _).trans_lt (by decide)

/-- One row of 32776 samples of 16 bits. -/
def wideRow : PlaneShape .uint16 false where
  rowsize := 65552
  height := 1
  whole_pixels := by decide
  min_rowsize := by decide
  bytes_lt := by decide

/-- The differences of a black and a white row add up to 2147975160, which no `int` holds. -/
theorem plane_kernels_wide_row :
    calculateSad8Or16Sse2 .uint16 false (constantPlane 0) (constantPlane 255) wideRow.rowsize
        wideRow.height ≠
      sadLoop .uint16 false (constantPlane 0) (constantPlane 255)
        (wideRow.rowsize / PixelT.uint16.size) wideRow.height := by
  rw [ne_eq, calculateSad_eq_iff]
  intro h
  have hrow := h 0 (by decide)
  have hdifference (p q : ℤ) (x : ℕ) :
      difference .uint16 false (constantPlane 0).memory p (constantPlane 255).memory q x =
        65535 := by
    have hblack : PixelT.uint16.read (constantPlane 0).memory p x = 0 := by
      simp [PixelT.read, load16, constantPlane, joinHalves]
    have hwhite : PixelT.uint16.read (constantPlane 255).memory q x = 65535 := by
      simp [PixelT.read, load16, constantPlane, joinHalves]
    rw [difference, if_neg (by simp), sampleDifference, hblack, hwhite]
    rfl
  have hsum : planeDifference .uint16 false (constantPlane 0) (constantPlane 255)
      (wideRow.rowsize / PixelT.uint16.size) 0 = 32776 * 65535 := by
    simp only [planeDifference, rowDifference, hdifference, sum_const, card_range]
    rfl
  rw [Nat.cast_zero, hsum] at hrow
  exact absurd hrow (by decide)

end AviSynth
