import AviSynth.Filters.PlaneDifference
import AviSynth.Library.FloatRounding
import AviSynth.Library.Histograms
import Mathlib.Algebra.Order.Floor.Semifield

/-!
# Order statistics of planes

`PlaneMin`, `PlaneMax`, `PlaneMedian`, `PlaneMinMaxDifference` and `PlaneStats` are modes of one
function. It scans the samples for the smallest and the largest, or counts them in a histogram and
searches that from its ends. The planes here have whole numbers as samples.
-/

namespace AviSynth

open CountedLoop Histogram FloatRounding

/-- A plane of a frame whose samples fit the bit depth. No frame buffer has more bytes than an
`int` counts. -/
structure IntegerPlane where
  pixel : PixelT
  bitsPerPixel : ℕ
  memory : ℤ → UInt8
  srcp : ℤ
  pitch : ℤ
  w : ℕ
  h : ℕ
  w_pos : 0 < w
  h_pos : 0 < h
  depth : if pixel.size = 1 then bitsPerPixel = 8 else 8 < bitsPerPixel ∧ bitsPerPixel ≤ 16
  fits : ∀ y < h, ∀ x < w, pixel.read memory (srcp + pitch * y) x < 2 ^ bitsPerPixel
  bytes_lt : w * h * pixel.size < 2 ^ 31

/-- The smallest and the largest sample and the sum of all. -/
structure SampleRange where
  min : ℤ
  max : ℤ
  sum : ℤ

/-- What is asked of a plane. -/
inductive MinMaxMode
  | min | max | minmaxDifference | stats
  deriving DecidableEq

/-- The six values of `PlaneStats`, which are numbers of single precision. -/
structure PlaneStats where
  min : ℚ
  max : ℚ
  thresholdedMin : ℚ
  thresholdedMax : ℚ
  median : ℚ
  average : ℚ

/-- The `AVSValue` that is returned. -/
inductive MinMaxResult
  | int (value : ℤ)
  | stats (values : PlaneStats)

/-- The conversion to `float`. -/
def toFloat (x : ℚ) : ℚ := roundTo 24 x

/-- `(unsigned int)(pixels * 0.5f)` -/
def halfCount (pixels : ℤ) : ℕ := (truncate (toFloat (toFloat pixels * (1 / 2)))).toNat

namespace IntegerPlane

variable (plane : IntegerPlane)

/-- The sample in row `y` and column `x`. -/
def sample (y x : ℤ) : ℕ := plane.pixel.read plane.memory (plane.srcp + plane.pitch * y) x

/-- The loops over the rows and the samples of a row. -/
def forSamples {σ : Type} (body : ℕ → σ → σ) (s : σ) : σ :=
  forLoop 0 plane.h 1 (fun y s => forLoop 0 plane.w 1 (fun x s => body (plane.sample y x) s) s) s

/-- `get_minmax_int_c`. What it adds up for a row stays zero. -/
def getMinmaxIntC (average : Bool) : SampleRange :=
  plane.forSamples (fun pix s =>
    { sum := if average then s.sum + pix else s.sum
      min := if (pix : ℤ) < s.min then pix else s.min
      max := if (pix : ℤ) > s.max then pix else s.max })
    ⟨plane.sample 0 0, plane.sample 0 0, 0⟩

/-- The counts of the values. -/
def accumBuf : ℕ → ℕ :=
  let maxPixelValue := 2 ^ plane.bitsPerPixel - 1
  plane.forSamples (fun pix accum =>
    tally accum (if plane.pixel.size = 1 then pix else min pix maxPixelValue)) fun _ => 0

/-- The number of samples, as an `int`. -/
def pixels : ℤ := MachineInt.i32 (plane.w * plane.h)

/-- The number of samples that a threshold in percent stands for. -/
def tpixels (threshold : ℚ) : ℕ := ⌊plane.pixels * max 0 (min 1 (threshold / 100))⌋.toNat

/-- The values of the mode `STATS`. -/
def planeStats (threshold : ℚ) : PlaneStats :=
  let range := plane.getMinmaxIntC true
  let buffersize := 2 ^ plane.bitsPerPixel
  let tpixels := plane.tpixels threshold
  let clamped := max 0 (min 1 (threshold / 100))
  let tMin := searchUp plane.accumBuf tpixels 0 buffersize 0 0
  let tMax := searchDown plane.accumBuf tpixels (buffersize - 1) buffersize 0
  let median := searchUp plane.accumBuf (halfCount plane.pixels) (buffersize - 1) buffersize 0 0
  { min := toFloat range.min
    max := toFloat range.max
    thresholdedMin := toFloat (if clamped = 0 then range.min else tMin)
    thresholdedMax := toFloat (if clamped = 0 then range.max else tMax)
    median := toFloat median
    average := toFloat (roundTo 53 (range.sum / plane.pixels)) }

/-- What `mode` asks for, by a histogram where the threshold counts. -/
def minMax (threshold : ℚ) (mode : MinMaxMode) : MinMaxResult :=
  let range := plane.getMinmaxIntC false
  let buffersize := 2 ^ plane.bitsPerPixel
  let tpixels := plane.tpixels threshold
  if threshold = 0 then
    -- special case, no histogram needed
    match mode with
    | .min => .int range.min
    | .max => .int range.max
    | .minmaxDifference => .int (range.max - range.min)
    | .stats => .stats (plane.planeStats threshold)
  else
    match mode with
    | .min => .int (searchUp plane.accumBuf tpixels (buffersize - 1) buffersize 0 0)
    | .max => .int (searchDown plane.accumBuf tpixels 0 buffersize 0)
    | .minmaxDifference =>
        let tMin := searchUp plane.accumBuf tpixels 0 buffersize 0 0
        let tMax := searchDown plane.accumBuf tpixels (buffersize - 1) buffersize 0
        .int (tMax - tMin)
    | .stats => .stats (plane.planeStats threshold)

def createMin (threshold : ℚ) : MinMaxResult := plane.minMax threshold .min

def createMax (threshold : ℚ) : MinMaxResult := plane.minMax threshold .max

/-- The median is the minimum at 50 percent. -/
def createMedian : MinMaxResult := plane.minMax 50 .min

def createMinmax (threshold : ℚ) : MinMaxResult := plane.minMax threshold .minmaxDifference

def createStats (threshold : ℚ) : MinMaxResult := plane.minMax threshold .stats

/-! ## Samples in their order -/

/-- The samples, row by row. -/
def samples : List ℕ :=
  (List.range plane.h).flatMap fun y : ℕ => (List.range plane.w).map fun x : ℕ => plane.sample y x

/-- The loops visit the samples in order. -/
theorem forSamples_eq {σ : Type} (body : ℕ → σ → σ) (s : σ) :
    plane.forSamples body s = plane.samples.foldl (fun s pix => body pix s) s := by
  rw [forSamples, samples, List.foldl_flatMap, forLoop_foldl]
  simp only [forLoop_foldl, List.foldl_map]

/-- A plane has `w * h` samples. -/
theorem length_samples : plane.samples.length = plane.w * plane.h := by
  simp [samples, List.length_flatMap, mul_comm]

end IntegerPlane

/-!
## What the order statistics are

The modes of `MinMax` agree with the ranks of the samples and with each other, apart from the
difference at 100 percent and from medians of large planes, whose count is a number of single
precision.
-/

namespace IntegerPlane

variable (plane : IntegerPlane) {threshold : ℚ}

/-! ## Samples -/

theorem samples_lt {x : ℕ} (hx : x ∈ plane.samples) : x < 2 ^ plane.bitsPerPixel := by
  obtain ⟨y, hy, hrow⟩ := List.mem_flatMap.mp hx
  obtain ⟨i, hi, rfl⟩ := List.mem_map.mp hrow
  exact plane.fits y (List.mem_range.mp hy) i (List.mem_range.mp hi)

theorem length_pos : 0 < plane.samples.length := by
  rw [length_samples]
  exact Nat.mul_pos plane.w_pos plane.h_pos

theorem length_lt : plane.samples.length < 2 ^ 31 := by
  have hbytes := plane.bytes_lt
  have hsize : 0 < plane.pixel.size := by cases plane.pixel <;> decide
  rw [length_samples]
  exact (Nat.le_mul_of_pos_right _ hsize).trans_lt hbytes

theorem pixels_eq : plane.pixels = plane.samples.length := by
  have hlt := plane.length_lt
  rw [length_samples] at *
  rw [pixels, ← Nat.cast_mul]
  exact MachineInt.i32_of_range (by omega) (by omega)

/-- The samples fit the depth, so the counts are those of the samples. -/
theorem accumBuf_eq : plane.accumBuf = plane.samples.count := by
  have hclamp : ∀ pix ∈ plane.samples, (if plane.pixel.size = 1 then pix
      else min pix (2 ^ plane.bitsPerPixel - 1)) = pix := fun pix hpix => by
    have hlt := plane.samples_lt hpix
    split
    · rfl
    · omega
  have hfold : plane.accumBuf = plane.samples.foldl tally fun _ => 0 := by
    rw [accumBuf, forSamples_eq]
    exact List.foldl_ext _ _ _ fun accum pix hpix => by rw [hclamp pix hpix]
  funext x
  rw [hfold, foldl_tally, Nat.zero_add]

/-- What a scan has found after some samples. -/
theorem foldl_range (average : Bool) (l : List ℕ) (least greatest : ℕ) (sum : ℤ) :
    ∃ lo hi : ℕ, ∃ sum', l.foldl (fun (s : SampleRange) (pix : ℕ) =>
        { sum := if average then s.sum + pix else s.sum
          min := if (pix : ℤ) < s.min then pix else s.min
          max := if (pix : ℤ) > s.max then pix else s.max }) ⟨least, greatest, sum⟩ =
        ⟨lo, hi, sum'⟩ ∧
      lo ∈ least :: l ∧ (∀ x ∈ least :: l, lo ≤ x) ∧
      hi ∈ greatest :: l ∧ ∀ x ∈ greatest :: l, x ≤ hi := by
  induction l generalizing least greatest sum with
  | nil => exact ⟨least, greatest, sum, rfl, by simp⟩
  | cons pix l ih =>
    have hleast : (if (pix : ℤ) < least then (pix : ℤ) else least) = (min pix least : ℕ) := by
      split <;> omega
    have hgreatest : (if (pix : ℤ) > greatest then (pix : ℤ) else greatest) =
        (max pix greatest : ℕ) := by
      split <;> omega
    rw [List.foldl_cons]
    simp only [hleast, hgreatest]
    obtain ⟨lo, hi, sum', hfold, hlo, hlo', hhi, hhi'⟩ := ih (min pix least) (max pix greatest)
      (if average then sum + pix else sum)
    have hlo_le := hlo' _ List.mem_cons_self
    have hhi_ge := hhi' _ List.mem_cons_self
    refine ⟨lo, hi, sum', hfold, ?_, fun x hx => ?_, ?_, fun x hx => ?_⟩
    · obtain rfl | hmem := List.mem_cons.mp hlo
      · obtain h | h := min_choice pix least <;> simp [h]
      · simp [hmem]
    · simp only [List.mem_cons] at hx
      obtain rfl | rfl | hx := hx
      · omega
      · omega
      · exact hlo' x (List.mem_cons_of_mem _ hx)
    · obtain rfl | hmem := List.mem_cons.mp hhi
      · obtain h | h := max_choice pix greatest <;> simp [h]
      · simp [hmem]
    · simp only [List.mem_cons] at hx
      obtain rfl | rfl | hx := hx
      · omega
      · omega
      · exact hhi' x (List.mem_cons_of_mem _ hx)

theorem sample_zero_mem : plane.sample 0 0 ∈ plane.samples :=
  List.mem_flatMap.mpr ⟨0, List.mem_range.mpr plane.h_pos,
    List.mem_map.mpr ⟨0, List.mem_range.mpr plane.w_pos, rfl⟩⟩

/-- The scan finds the smallest and the largest sample. -/
theorem getMinmaxIntC_spec (average : Bool) :
    ∃ lo hi : ℕ, (plane.getMinmaxIntC average).min = lo ∧ (plane.getMinmaxIntC average).max = hi ∧
      IsLeastAbove plane.samples 0 lo ∧ IsGreatestAbove plane.samples 0 hi := by
  obtain ⟨lo, hi, sum, hfold, hlo, hlo', hhi, hhi'⟩ :=
    foldl_range average plane.samples (plane.sample 0 0) (plane.sample 0 0) 0
  have hmem {x : ℕ} (hx : x ∈ plane.sample 0 0 :: plane.samples) : x ∈ plane.samples := by
    obtain rfl | hx := List.mem_cons.mp hx
    · exact plane.sample_zero_mem
    · exact hx
  have hrange : plane.getMinmaxIntC average = ⟨lo, hi, sum⟩ := by
    rw [getMinmaxIntC, forSamples_eq, ← hfold]
  refine ⟨lo, hi, by rw [hrange], by rw [hrange], ?_, ?_⟩
  · exact isLeastAbove_zero (hmem hlo) fun x hx => hlo' x (List.mem_cons_of_mem _ hx)
  · exact isGreatestAbove_zero (hmem hhi) fun x hx => hhi' x (List.mem_cons_of_mem _ hx)

/-! ## Counts -/

/-- The exact count of a threshold in percent. -/
def thresholdCount (threshold : ℚ) : ℕ := ⌊(plane.w * plane.h : ℚ) * (threshold / 100)⌋₊

/-- The count in `float` is the exact one. -/
theorem tpixels_eq (hlow : 0 ≤ threshold) (hhigh : threshold ≤ 100) :
    plane.tpixels threshold = plane.thresholdCount threshold := by
  have hclamp : max 0 (min 1 (threshold / 100)) = threshold / 100 := by
    rw [min_eq_right (by linarith), max_eq_right (by linarith)]
  rw [tpixels, hclamp, pixels_eq, length_samples, thresholdCount]
  push_cast
  rfl

theorem thresholdCount_zero : plane.thresholdCount 0 = 0 := by
  simp [thresholdCount]

theorem thresholdCount_hundred : plane.thresholdCount 100 = plane.samples.length := by
  rw [thresholdCount, length_samples, div_self (by norm_num), mul_one, ← Nat.cast_mul,
    Nat.floor_natCast]

theorem thresholdCount_fifty : plane.thresholdCount 50 = plane.samples.length / 2 := by
  have hhalf : (plane.w * plane.h : ℚ) * (50 / 100) = (plane.w * plane.h : ℕ) / (2 : ℕ) := by
    push_cast
    ring
  rw [thresholdCount, length_samples, hhalf, Nat.floor_div_eq_div]

/-- Below 100 some samples are kept. -/
theorem thresholdCount_lt (hlow : 0 ≤ threshold) (hlt : threshold < 100) :
    plane.thresholdCount threshold < plane.samples.length := by
  have hpos : (0 : ℚ) < (plane.w * plane.h : ℕ) := by
    have := plane.length_pos
    rw [length_samples] at this
    exact_mod_cast this
  rw [thresholdCount, length_samples, ← Nat.cast_mul, Nat.floor_lt (by positivity)]
  calc ((plane.w * plane.h : ℕ) : ℚ) * (threshold / 100)
      < (plane.w * plane.h : ℕ) * 1 := by
        refine mul_lt_mul_of_pos_left ?_ hpos
        linarith
    _ = (plane.w * plane.h : ℕ) := mul_one _

/-- Rounding adds little. -/
theorem toFloat_le {x : ℚ} (hx : 0 ≤ x) : toFloat x ≤ x * (1 + 1 / 2 ^ 24) := by
  have herror := (abs_le.mp (abs_roundTo_sub_le 24 x)).2
  rw [abs_of_nonneg hx] at herror
  unfold toFloat
  linarith

theorem toFloat_nonneg {x : ℚ} (hx : 0 ≤ x) : 0 ≤ toFloat x := by
  have herror := (abs_le.mp (abs_roundTo_sub_le 24 x)).1
  rw [abs_of_nonneg hx] at herror
  have hsmall : x / 2 ^ 24 ≤ x := div_le_self hx (by norm_num)
  unfold toFloat
  linarith

/-- Whole numbers with few digits are kept. -/
theorem toFloat_natCast {n : ℕ} (h : n < 2 ^ 24) : toFloat n = n := by
  have hround := roundTo_eq_self (p := 24) (m := n) (e := 0)
    (by rw [Nat.abs_cast]; exact_mod_cast h)
  simpa [toFloat] using hround

theorem truncate_le {x y : ℚ} (hy : 0 ≤ y) (h : x ≤ y) : (truncate x : ℚ) ≤ y := by
  unfold truncate
  split
  · exact (Int.floor_le x).trans h
  · have hceil : ⌈x⌉ ≤ 0 := Int.ceil_le.mpr (by push_cast; linarith)
    have hcast : (⌈x⌉ : ℚ) ≤ 0 := by exact_mod_cast hceil
    linarith

/-- The count of the median stays below the number of samples. -/
theorem halfCount_lt : halfCount plane.pixels < plane.samples.length := by
  have hpos : (0 : ℚ) < plane.samples.length := by exact_mod_cast plane.length_pos
  have hfirst := toFloat_le hpos.le
  have hsecond : toFloat (toFloat plane.samples.length * (1 / 2)) ≤
      (plane.samples.length : ℚ) * (3 / 4) := by
    have hround := toFloat_le
      (mul_nonneg (toFloat_nonneg hpos.le) (by norm_num : (0 : ℚ) ≤ 1 / 2))
    norm_num at hround hfirst ⊢
    linarith
  have htruncate := truncate_le (mul_nonneg hpos.le (by norm_num : (0 : ℚ) ≤ 3 / 4)) hsecond
  have hlt : (truncate (toFloat (toFloat plane.samples.length * (1 / 2))) : ℚ) <
      plane.samples.length := by linarith
  have hint : truncate (toFloat (toFloat plane.samples.length * (1 / 2))) <
      plane.samples.length := by exact_mod_cast hlt
  have hlength := plane.length_pos
  rw [pixels_eq, halfCount]
  push_cast
  omega

/-- Below `2 ^ 24` samples nothing is rounded. -/
theorem halfCount_eq (h : plane.samples.length < 2 ^ 24) :
    halfCount plane.pixels = plane.samples.length / 2 := by
  have hone : toFloat (plane.samples.length : ℚ) = plane.samples.length := toFloat_natCast h
  have hhalf : toFloat (plane.samples.length * (1 / 2) : ℚ) = plane.samples.length * (1 / 2) := by
    have hround := roundTo_eq_self (p := 24) (m := plane.samples.length) (e := -1)
      (by rw [Nat.abs_cast]; exact_mod_cast h)
    simpa [toFloat] using hround
  have hfloor : ⌊(plane.samples.length * (1 / 2) : ℚ)⌋ = (plane.samples.length / 2 : ℕ) := by
    have hdiv : (plane.samples.length * (1 / 2) : ℚ) = plane.samples.length / (2 : ℕ) := by
      push_cast
      ring
    rw [hdiv, ← Nat.floor_div_eq_div (K := ℚ), Int.natCast_floor_eq_floor (by positivity)]
  rw [pixels_eq, halfCount, Int.cast_natCast, hone, hhalf, truncate, if_pos (by positivity), hfloor,
    Int.toNat_natCast]

/-! ## Modes -/

theorem one_lt_two_pow : 1 < 2 ^ plane.bitsPerPixel := by
  refine Nat.one_lt_two_pow ?_
  have hdepth := plane.depth
  split at hdepth <;> omega

/-- The scan finds what the histogram gives at 0 percent. -/
theorem scan_eq : (plane.getMinmaxIntC false).min =
      searchUp plane.accumBuf 0 (2 ^ plane.bitsPerPixel - 1) (2 ^ plane.bitsPerPixel) 0 0 ∧
    (plane.getMinmaxIntC false).max = searchDown plane.accumBuf 0 0 (2 ^ plane.bitsPerPixel) 0 := by
  obtain ⟨lo, hi, hmin, hmax, hleast, hgreatest⟩ := plane.getMinmaxIntC_spec false
  have hbound : ∀ x ∈ plane.samples, x < 2 ^ plane.bitsPerPixel := fun x => plane.samples_lt
  rw [hmin, hmax, accumBuf_eq,
    hleast.unique (isLeastAbove_searchUp _ plane.length_pos hbound),
    hgreatest.unique (isGreatestAbove_searchDown _ plane.length_pos hbound)]
  exact ⟨rfl, rfl⟩

/-- Where the count is below the number of samples, all searches find their values. -/
theorem modes_found (hlow : 0 ≤ threshold) (hlt : threshold < 100) :
    ∃ lo hi : ℕ, plane.createMin threshold = .int lo ∧ plane.createMax threshold = .int hi ∧
      plane.createMinmax threshold = .int (hi - lo) ∧
      IsLeastAbove plane.samples (plane.thresholdCount threshold) lo ∧
      IsGreatestAbove plane.samples (plane.thresholdCount threshold) hi := by
  by_cases hzero : threshold = 0
  · subst hzero
    obtain ⟨lo, hi, hmin, hmax, hleast, hgreatest⟩ := plane.getMinmaxIntC_spec false
    rw [← plane.thresholdCount_zero] at hleast hgreatest
    refine ⟨lo, hi, ?_, ?_, ?_, hleast, hgreatest⟩
    · simp [createMin, minMax, hmin]
    · simp [createMax, minMax, hmax]
    · simp [createMinmax, minMax, hmin, hmax]
  · have hcount := plane.thresholdCount_lt hlow hlt
    have hbound : ∀ x ∈ plane.samples, x < 2 ^ plane.bitsPerPixel := fun x => plane.samples_lt
    have hleast (default : ℕ) := isLeastAbove_searchUp default hcount hbound
    have hgreatest (default : ℕ) := isGreatestAbove_searchDown default hcount hbound
    refine ⟨_, _, ?_, ?_, ?_, hleast (2 ^ plane.bitsPerPixel - 1), hgreatest 0⟩
    · simp [createMin, minMax, hzero, accumBuf_eq, tpixels_eq _ hlow hlt.le]
    · simp [createMax, minMax, hzero, accumBuf_eq, tpixels_eq _ hlow hlt.le]
    · simp only [createMinmax, minMax, hzero, accumBuf_eq, tpixels_eq _ hlow hlt.le, if_false]
      rw [(hleast 0).unique (hleast (2 ^ plane.bitsPerPixel - 1)),
        (hgreatest (2 ^ plane.bitsPerPixel - 1)).unique (hgreatest 0)]

/-- At 100 percent nothing is found, and each mode has its own values for that. -/
theorem modes_hundred :
    plane.createMin 100 = .int (2 ^ plane.bitsPerPixel - 1 : ℕ) ∧ plane.createMax 100 = .int 0 ∧
      plane.createMinmax 100 = .int (2 ^ plane.bitsPerPixel - 1 : ℕ) := by
  have hlimit : plane.samples.length ≤ plane.thresholdCount 100 := plane.thresholdCount_hundred.ge
  have hbound : ∀ x ∈ plane.samples, x < 2 ^ plane.bitsPerPixel := fun x => plane.samples_lt
  have hcount : plane.tpixels 100 = plane.thresholdCount 100 :=
    plane.tpixels_eq (by norm_num) le_rfl
  refine ⟨?_, ?_, ?_⟩
  · simp [createMin, minMax, accumBuf_eq, hcount, searchUp_eq_default _ hlimit]
  · simp [createMax, minMax, accumBuf_eq, hcount, searchDown_eq_default _ hlimit hbound]
  · simp [createMinmax, minMax, accumBuf_eq, hcount, searchUp_eq_default _ hlimit,
      searchDown_eq_default _ hlimit hbound]

/-- The median exists. -/
theorem median_found : ∃ m : ℕ, plane.createMedian = .int m ∧
    IsLeastAbove plane.samples (plane.samples.length / 2) m := by
  obtain ⟨lo, -, hmin, -, -, hleast, -⟩ :=
    plane.modes_found (by norm_num : (0 : ℚ) ≤ 50) (by norm_num)
  rw [thresholdCount_fifty] at hleast
  exact ⟨lo, hmin, hleast⟩

/-- So does the one of the statistics. -/
theorem stats_median_found (threshold : ℚ) : ∃ (m : ℕ) (stats : PlaneStats),
    plane.createStats threshold = .stats stats ∧ stats.median = m ∧
      IsLeastAbove plane.samples (halfCount plane.pixels) m := by
  have hbound : ∀ x ∈ plane.samples, x < 2 ^ plane.bitsPerPixel := fun x => plane.samples_lt
  have hleast := isLeastAbove_searchUp (2 ^ plane.bitsPerPixel - 1)
    plane.halfCount_lt hbound
  have hle := hleast.le (w := 2 ^ plane.bitsPerPixel - 1)
    (by rw [countP_eq_length hbound]; exact plane.halfCount_lt)
  have hbits : 2 ^ plane.bitsPerPixel ≤ 2 ^ 16 := by
    refine Nat.pow_le_pow_right (by decide) ?_
    have hdepth := plane.depth
    split at hdepth <;> omega
  refine ⟨_, plane.planeStats threshold, ?_, ?_, hleast⟩
  · simp [createStats, minMax]
  · rw [planeStats, accumBuf_eq]
    exact toFloat_natCast (by omega)

/-! ## The statistics -/

/-- The smallest value that more than `limit` samples do not exceed, or the largest possible one. -/
def IsPlaneMin (limit : ℕ) (v : ℤ) : Prop :=
  (∃ n : ℕ, v = n ∧ IsLeastAbove plane.samples limit n) ∨
    (∀ w, plane.samples.countP (· ≤ w) ≤ limit) ∧ v = 2 ^ plane.bitsPerPixel - 1

/-- The largest value that more than `limit` samples reach, or the smallest possible one. -/
def IsPlaneMax (limit : ℕ) (v : ℤ) : Prop :=
  (∃ n : ℕ, v = n ∧ IsGreatestAbove plane.samples limit n) ∨
    (∀ w, plane.samples.countP (w ≤ ·) ≤ limit) ∧ v = 0

/-- How the modes agree with the samples and with each other. -/
structure MeetsStatistics (threshold : ℚ) : Prop where
  min : ∃ v, plane.createMin threshold = .int v ∧
    plane.IsPlaneMin (plane.thresholdCount threshold) v
  max : ∃ v, plane.createMax threshold = .int v ∧
    plane.IsPlaneMax (plane.thresholdCount threshold) v
  scan : (plane.getMinmaxIntC false).min =
      searchUp plane.accumBuf 0 (2 ^ plane.bitsPerPixel - 1) (2 ^ plane.bitsPerPixel) 0 0 ∧
    (plane.getMinmaxIntC false).max = searchDown plane.accumBuf 0 0 (2 ^ plane.bitsPerPixel) 0
  difference : ∃ lo hi, plane.createMin threshold = .int lo ∧ plane.createMax threshold = .int hi ∧
    plane.createMinmax threshold = .int (hi - lo)
  median : ∃ (m : ℤ) (stats : PlaneStats), plane.createMedian = .int m ∧
    plane.createStats threshold = .stats stats ∧ stats.median = m

end IntegerPlane

/-- The modes agree with the samples and with each other exactly below 100 percent, where no count
of samples up to a value lies between half of all samples and that half in single precision. There
is none in a plane of fewer than `2 ^ 24` samples, where the two halves are the same. -/
theorem planeStatistics_iff (plane : IntegerPlane) (threshold : ℚ) (hlow : 0 ≤ threshold)
    (hhigh : threshold ≤ 100) :
    (plane.MeetsStatistics threshold ↔ threshold < 100 ∧
      ∀ v, plane.samples.length / 2 < plane.samples.countP (· ≤ v) ↔
        halfCount plane.pixels < plane.samples.countP (· ≤ v)) ∧
    (plane.samples.length < 2 ^ 24 → halfCount plane.pixels = plane.samples.length / 2) := by
  obtain ⟨m, hmedian, hm⟩ := plane.median_found
  obtain ⟨m', stats, hstats, hstatsMedian, hm'⟩ := plane.stats_median_found threshold
  refine ⟨⟨fun h => ⟨?_, ?_⟩, fun ⟨hlt, hcounts⟩ => ?_⟩, plane.halfCount_eq⟩
  · by_contra hnot
    obtain rfl : threshold = 100 := le_antisymm hhigh (not_lt.mp hnot)
    obtain ⟨hmin, hmax, hminmax⟩ := plane.modes_hundred
    obtain ⟨lo, hi, hlo, hhi, hdifference⟩ := h.difference
    have htwo := plane.one_lt_two_pow
    rw [hmin, MinMaxResult.int.injEq] at hlo
    rw [hmax, MinMaxResult.int.injEq] at hhi
    rw [hminmax, MinMaxResult.int.injEq] at hdifference
    omega
  · obtain ⟨v, stats', hv, hstats', hequal⟩ := h.median
    rw [hmedian, MinMaxResult.int.injEq] at hv
    rw [hstats, MinMaxResult.stats.injEq] at hstats'
    subst hv hstats'
    have hsame : m = m' := by
      rw [hstatsMedian] at hequal
      exact_mod_cast hequal.symm
    exact (hm.eq_iff hm').mp hsame
  · obtain ⟨lo, hi, hmin, hmax, hminmax, hleast, hgreatest⟩ := plane.modes_found hlow hlt
    exact
      { min := ⟨lo, hmin, .inl ⟨lo, rfl, hleast⟩⟩
        max := ⟨hi, hmax, .inl ⟨hi, rfl, hgreatest⟩⟩
        scan := plane.scan_eq
        difference := ⟨lo, hi, hmin, hmax, hminmax⟩
        median := ⟨m, stats, hmedian, hstats, by
          rw [hstatsMedian, (hm.eq_iff hm').mpr hcounts, Int.cast_natCast]⟩ }

/-- One sample of 8 bits. -/
def onePixel : IntegerPlane where
  pixel := .uint8
  bitsPerPixel := 8
  memory _ := 5
  srcp := 0
  pitch := 64
  w := 1
  h := 1
  w_pos := by decide
  h_pos := by decide
  depth := by decide
  fits := by
    intro y _ x _
    exact (by decide : (5 : UInt8).toNat < 2 ^ 8)
  bytes_lt := by decide

/-- Two rows of four samples. -/
def eightPixels : IntegerPlane where
  pixel := .uint8
  bitsPerPixel := 8
  memory a := .ofNat (7 * a.toNat)
  srcp := 0
  pitch := 64
  w := 4
  h := 2
  w_pos := by decide
  h_pos := by decide
  depth := by decide
  fits := by decide
  bytes_lt := by decide

/-- A threshold of 40 percent leaves three of the eight samples out. -/
theorem planeStatistics_iff_eightPixels :
    eightPixels.samples = [0, 7, 14, 21, 192, 199, 206, 213] ∧
      eightPixels.thresholdCount 40 = 3 ∧ eightPixels.MeetsStatistics 40 := by
  obtain ⟨hmeets, hhalf⟩ := planeStatistics_iff eightPixels 40 (by norm_num) (by norm_num)
  have hlength : eightPixels.samples.length = 8 := by decide
  refine ⟨by decide, ?_, hmeets.mpr ⟨by norm_num, fun v => ?_⟩⟩
  · rw [IntegerPlane.thresholdCount, Nat.floor_eq_iff (by norm_num [eightPixels])]
    norm_num [eightPixels]
  · rw [hhalf (by rw [hlength]; norm_num)]

/-- At 100 percent the minimum of the sample is 255 and the maximum 0, and the difference 255. -/
theorem planeStatistics_hundred :
    onePixel.createMin 100 = .int 255 ∧ onePixel.createMax 100 = .int 0 ∧
      onePixel.createMinmax 100 = .int 255 ∧ ¬onePixel.MeetsStatistics 100 := by
  obtain ⟨hmin, hmax, hminmax⟩ := onePixel.modes_hundred
  refine ⟨hmin, hmax, hminmax, fun h => ?_⟩
  obtain ⟨lo, hi, hlo, hhi, hdifference⟩ := h.difference
  have hpow : (2 ^ onePixel.bitsPerPixel - 1 : ℕ) = 255 := by decide
  rw [hmin, hpow, MinMaxResult.int.injEq] at hlo
  rw [hmax, MinMaxResult.int.injEq] at hhi
  rw [hminmax, hpow, MinMaxResult.int.injEq] at hdifference
  omega

end AviSynth
