import AviSynth.Cache.AudioCache
import AviSynth.Library.Runs

/-!
# The resampler and its source buffer

`ResampleAudio` reads more source samples than it needs and keeps them: the next
request moves the samples that both requests share to the front of the buffer
and reads the others. The constants of the constructor are computed in floating
point and are parameters here, and so is the arithmetic on samples, which is that
of 16-bit integers or that of `float`.
-/

namespace AviSynth

open MachineInt Transition

/-- How `FilterUD` adds up samples and how the result is stored. -/
structure SampleArithmetic (α β : Type) where
  zero : β
  /-- `v + coefficient * sample`; the coefficient is interpolated at `Ho` in the table. -/
  tap : β → ℕ → α → β
  /-- The output sample made of the left and the right wing. -/
  deposit : β → β → α

/-- `IntToShort` -/
def intToShort (v : ℤ) (scl : ℕ) : ℤ :=
  let v := i32 (v + 2 ^ (scl - 1)) / 2 ^ scl
  if v > 32767 then 32767 else if v < -32768 then -32768 else v

/-- The arithmetic of 16-bit samples, with the coefficients `Imp` and the scale `LpScl`. -/
def shortArithmetic (Imp : ℕ → ℤ) (LpScl : ℤ) : SampleArithmetic ℤ ℤ where
  zero := 0
  tap v Ho sample :=
    let t := Imp (Ho / 2 ^ 7)
    let a := (Ho % 2 ^ 7 : ℕ)
    let t := t + ((Imp (Ho / 2 ^ 7 + 1) - t) * a + 2 ^ 6) / 2 ^ 7
    v + i32 (t * sample)
  deposit left right := intToShort (i32 (i32 ((left + right + 2 ^ 15) / 2 ^ 16) * LpScl)) 13

/-- What the constructor of `ResampleAudio` computes. -/
structure Resampling (α β : Type) where
  skipConversion : Bool
  /-- `int64_t((long double)x / factor * (1 << Np) + 0.5)` -/
  position : ℤ → ℤ
  /-- Reach of the low-pass filter and creeping room. -/
  Xoff : ℤ
  dtb : ℤ
  dtbe : ℤ
  dhb : ℕ
  /-- With a filter period of zero, `FilterUD` does not end. -/
  dhb_pos : 0 < dhb
  bytesPerAudioSample : ℤ
  bytes_pos : 0 < bytesPerAudioSample
  arithmetic : SampleArithmetic α β

namespace Resampling

variable {α β : Type} (r : Resampling α β)

/-- The first source sample that a request needs. -/
def firstSample (start : ℤ) : ℤ := r.position start / 2 ^ 15 - r.Xoff

/-- `source_samples` -/
def sourceSamples (start count : ℤ) : ℤ :=
  i64 (r.position (i64 (start + count)) - r.position start) / 2 ^ 15 + 2 * r.Xoff + 1

/-- `pos` and `dtberror` after `n` output samples. -/
def cursor (start : ℤ) : ℕ → ℤ × ℤ
  | 0 => (i32 (r.position start % 2 ^ 15 + r.Xoff * 2 ^ 15), 0)
  | n + 1 =>
    let (pos, dtberror) := cursor start n
    if dtberror + r.dtbe ≥ 2 ^ 31 then (pos + r.dtb + 1, dtberror + r.dtbe - 2 ^ 31)
    else (pos + r.dtb, dtberror + r.dtbe)

/-- `Nwing` -/
def nwing : ℕ := 8192

/-- `Ho` at the first tap of the left wing. -/
def leftPhase (pos : ℤ) : ℕ := (pos % 2 ^ 15).toNat * r.dhb / 2 ^ 15

/-- `Ho` at the first tap of the right wing, which skips the sample in the middle. -/
def rightPhase (pos : ℤ) : ℕ :=
  ((-pos) % 2 ^ 15).toNat * r.dhb / 2 ^ 15 + if (-pos) % 2 ^ 15 = 0 then r.dhb else 0

/-- How many steps of `dhb` from `Ho` on stay below `End`. -/
def taps (Ho End : ℕ) : ℕ := (End * 2 ^ 7 - Ho + r.dhb - 1) / r.dhb

/-- The first `n` rounds of the loop of `FilterUD`. -/
def filterUD (Xp : ℤ → α) (Ho : ℕ) (Inc : ℤ) : ℕ → β
  | 0 => r.arithmetic.zero
  | n + 1 => r.arithmetic.tap (filterUD Xp Ho Inc n) (Ho + n * r.dhb) (Xp (Inc * n))

/-- The output sample at `pos`, from the source samples in `Xp`. -/
def outputSample (Xp : ℤ → α) (pos : ℤ) : α :=
  r.arithmetic.deposit
    (r.filterUD (fun i => Xp (pos / 2 ^ 15 + i)) (r.leftPhase pos) (-1)
      (r.taps (r.leftPhase pos) nwing))
    (r.filterUD (fun i => Xp (pos / 2 ^ 15 + 1 + i)) (r.rightPhase pos) 1
      (r.taps (r.rightPhase pos) (nwing - 1)))

/-- The loop that fills `buf` from the source samples in `srcbuffer`. -/
def output (srcbuffer : ℤ → α) (buf : ℤ → α) (start count : ℤ) : ℤ → α := fun i =>
  if 0 ≤ i ∧ i < count then r.outputSample srcbuffer (r.cursor start i.toNat).1 else buf i

/-- `FilterUD` does not check bounds: at `pos`, both wings are within the first
`sourceSamples` samples of the buffer. -/
def Reaches (pos sourceSamples : ℤ) : Prop :=
  0 ≤ pos / 2 ^ 15 ∧ (r.taps (r.leftPhase pos) nwing : ℤ) ≤ pos / 2 ^ 15 + 1 ∧
    pos / 2 ^ 15 + 1 + r.taps (r.rightPhase pos) (nwing - 1) ≤ sourceSamples
  deriving Decidable

/-- Every output sample of the request only needs source samples of the request. -/
def WithinReach (start count : ℤ) : Prop :=
  ∀ n < count.toNat, r.Reaches (r.cursor start n).1 (r.sourceSamples start count)

instance (start count : ℤ) : Decidable (r.WithinReach start count) :=
  inferInstanceAs (Decidable (∀ n < count.toNat, _))

/-- What a filter delivers that reads all source samples of every request. -/
def reread (child : ℤ → α) (buf : ℤ → α) (start count : ℤ) : ℤ → α :=
  if r.skipConversion then Buffer.copy buf 0 child start count
  else r.output (fun i => child (r.firstSample start + i)) buf start count

end Resampling

/-- The fields of `ResampleAudio` that change. -/
structure ResampleAudio (α : Type) where
  /-- Whether `srcbuffer` is not null. -/
  allocated : Bool
  srcbuffer : ℤ → α
  srcbufferSize : ℤ
  lastStart : ℤ
  lastSamples : ℤ

namespace ResampleAudio

variable {α β : Type}

/-- The resampler after its construction. The record is set with the first buffer. -/
def new (undef : ℤ → α) : ResampleAudio α where
  allocated := false
  srcbuffer := undef
  srcbufferSize := 0
  lastStart := 0
  lastSamples := 0

-- `undef` is what memory contains that the filter has not written.
variable (r : Resampling α β) (undef child : ℤ → α) (fault : Option (ℤ → α))

/-- The block of `size` bytes with the samples of `mem`. -/
def block (size : ℤ) (mem : ℤ → α) : ℤ → α := fun i =>
  if 0 ≤ i ∧ (i + 1) * r.bytesPerAudioSample ≤ size then mem i else undef i

/-- A buffer has to be allocated for a request of that many bytes. -/
def NeedsBuffer (c : ResampleAudio α) (sourceBytes : ℤ) : Prop :=
  c.allocated = false ∨ sourceBytes > c.srcbufferSize
  deriving Decidable

/-- Replacing a buffer that is missing or too small. -/
def ensureBuffer (c : ResampleAudio α) (sourceBytes : ℤ) : ResampleAudio α :=
  if c.NeedsBuffer sourceBytes then
    { allocated := true
      srcbuffer := undef
      srcbufferSize := sourceBytes
      lastStart := 0
      lastSamples := 0 }
  else c

/-- How many samples of the buffer a request from source sample `first` on keeps. -/
def overlap (c : ResampleAudio α) (first : ℤ) : ℤ :=
  let offset := i32 (first - c.lastStart)
  let kept := i32 (c.lastSamples - offset)
  if offset < 0 ∨ kept ≤ 0 then 0 else kept

/-- Moving the overlap to the front, and the record for the next call. -/
def keep (c : ResampleAudio α) (first sourceSamples : ℤ) : ResampleAudio α :=
  let offset := i32 (first - c.lastStart)
  { c with
    srcbuffer :=
      block r undef c.srcbufferSize
        (Buffer.copy c.srcbuffer 0 c.srcbuffer offset (c.overlap first))
    lastStart := first
    lastSamples := max (c.overlap first) sourceSamples }

/-- Reading the samples behind the overlap. -/
def readRest (c : ResampleAudio α) (overlap sourceSamples : ℤ) : Bool × ResampleAudio α :=
  if sourceSamples - overlap > 0 then
    let (thrown, mem) := childGetAudio child fault c.srcbuffer overlap (c.lastStart + overlap)
      (sourceSamples - overlap)
    (thrown, { c with srcbuffer := block r undef c.srcbufferSize mem })
  else (false, c)

/-- `ResampleAudio::GetAudio`. The result says whether the call threw. An array
of negative size cannot be allocated. -/
def getAudio (c : ResampleAudio α) (buf : ℤ → α) (start count : ℤ) :
    Bool × (ℤ → α) × ResampleAudio α :=
  if r.skipConversion then
    let (thrown, buf) := childGetAudio child fault buf 0 start count
    (thrown, buf, c)
  else
    let sourceSamples := r.sourceSamples start count
    let sourceBytes := i32 (i64 (sourceSamples * r.bytesPerAudioSample))
    if c.NeedsBuffer sourceBytes ∧ sourceBytes < 0 then (true, buf, c)
    else
      let c := c.ensureBuffer undef sourceBytes
      let first := r.firstSample start
      let (thrown, d) :=
        (c.keep r undef first sourceSamples).readRest r undef child fault (c.overlap first)
          sourceSamples
      if thrown then (true, buf, d)
      else (false, r.output d.srcbuffer buf start count, d)

end ResampleAudio

/-!
## The resampler delivers what it would re-read

The record of the source buffer is right as long as the child does not throw and
no number is cut to 32 bits. A call of the child that throws leaves a record of
samples that were never read; a jump over a multiple of 2^32 samples can pass
for a short one.
-/

namespace Resampling

variable {α β : Type} {r : Resampling α β} {Xp Xp' : ℤ → α}

/-- A wing only depends on the samples at its taps. -/
theorem filterUD_congr {Ho n : ℕ} {Inc : ℤ} (h : ∀ k < n, Xp (Inc * k) = Xp' (Inc * k)) :
    r.filterUD Xp Ho Inc n = r.filterUD Xp' Ho Inc n := by
  induction n with
  | zero => rfl
  | succ n ih =>
    have hlast := h n (Nat.lt_succ_self n)
    have hearlier := ih fun k hk => h k (Nat.lt_succ_of_lt hk)
    simp only [filterUD, hearlier, hlast]

/-- Within reach, an output sample only depends on the source samples of the request. -/
theorem outputSample_congr {pos sourceSamples : ℤ} (hreach : r.Reaches pos sourceSamples)
    (h : ∀ i, 0 ≤ i → i < sourceSamples → Xp i = Xp' i) :
    r.outputSample Xp pos = r.outputSample Xp' pos := by
  obtain ⟨hpos, hleft, hright⟩ := hreach
  unfold outputSample
  congr 1
  · apply filterUD_congr
    intro k hk
    apply h
    · omega
    · omega
  · apply filterUD_congr
    intro k hk
    apply h
    · omega
    · omega

/-- Within reach, the output only depends on the source samples of the request. -/
theorem output_congr {start count : ℤ} (hreach : r.WithinReach start count)
    (h : ∀ i, 0 ≤ i → i < r.sourceSamples start count → Xp i = Xp' i) (buf : ℤ → α) :
    r.output Xp buf start count = r.output Xp' buf start count := by
  funext i
  simp only [output]
  split
  · exact outputSample_congr (hreach i.toNat (by omega)) h
  · rfl

/-- The source samples of the request take less than 2 GiB. -/
def Fits (r : Resampling α β) (start count : ℤ) : Prop :=
  0 ≤ r.sourceSamples start count ∧
    r.sourceSamples start count * r.bytesPerAudioSample < 2 ^ 31
  deriving Decidable

/-- The bytes of a request that fits are not cut. -/
theorem Fits.bytes_eq {start count : ℤ} (h : r.Fits start count) :
    i32 (i64 (r.sourceSamples start count * r.bytesPerAudioSample)) =
      r.sourceSamples start count * r.bytesPerAudioSample := by
  have hnonneg := Int.mul_nonneg h.1 (Int.le_of_lt r.bytes_pos)
  have hlt := h.2
  rw [i64_of_range (by omega) (by omega), i32_of_range (by omega) hlt]

end Resampling

namespace ResampleAudio

variable {α β : Type} {r : Resampling α β} {undef child : ℤ → α} {c d : ResampleAudio α}

/-- The record is right: the buffer holds the child's samples for the range recorded. -/
def Recorded (child : ℤ → α) (c : ResampleAudio α) : Prop :=
  Buffer.Shows c.srcbuffer 0 child c.lastStart c.lastSamples

/-- The first source sample of the request is outside the recorded range, but the
distance reduced to 32 bits is inside. -/
def Wraps (r : Resampling α β) (c : ResampleAudio α) (start count : ℤ) : Prop :=
  ¬c.NeedsBuffer (r.sourceSamples start count * r.bytesPerAudioSample) ∧
    (r.firstSample start - c.lastStart) % 2 ^ 32 < c.lastSamples ∧
    ¬(c.lastStart ≤ r.firstSample start ∧ r.firstSample start < c.lastStart + c.lastSamples)
  deriving Decidable

/-- What holds between two calls. -/
structure Coherent (r : Resampling α β) (child : ℤ → α) (c : ResampleAudio α) : Prop where
  recorded : Recorded child c
  samples_nonneg : 0 ≤ c.lastSamples
  inBlock : c.lastSamples * r.bytesPerAudioSample ≤ c.srcbufferSize
  size_lt : c.srcbufferSize < 2 ^ 31

/-- A new resampler has recorded nothing. -/
theorem Coherent.new (r : Resampling α β) (undef child : ℤ → α) :
    Coherent r child (ResampleAudio.new undef) where
  recorded := Buffer.Shows.empty (Int.le_refl 0)
  samples_nonneg := Int.le_refl 0
  inBlock := by simp [ResampleAudio.new]
  size_lt := by simp [ResampleAudio.new]

section

variable (h : Coherent r child c)
include h

/-- As many samples as fit into a block take less than 2^31 samples. -/
theorem Coherent.samples_lt : c.lastSamples < 2 ^ 31 := by
  have hle := Int.mul_le_mul_of_nonneg_left (show 1 ≤ r.bytesPerAudioSample from r.bytes_pos)
    h.samples_nonneg
  have hblock := h.inBlock
  have hsize := h.size_lt
  omega

omit h in
/-- The samples of a block that fit into it are kept. -/
theorem shows_block {mem : ℤ → α} {first n size : ℤ} (h : Buffer.Shows mem 0 child first n)
    (hfits : n * r.bytesPerAudioSample ≤ size) :
    Buffer.Shows (block r undef size mem) 0 child first n := by
  apply h.congr
  intro i hi hin
  have hend := Int.mul_le_mul_of_nonneg_right (show 0 + i + 1 ≤ n by omega)
    (Int.le_of_lt r.bytes_pos)
  simp only [block]
  rw [if_pos ⟨by omega, by omega⟩]

/-- After allocation, the buffer is big enough, and nothing wraps. -/
theorem Coherent.ensureBuffer {start count : ℤ} (undef : ℤ → α) (hfits : r.Fits start count)
    (hwraps : ¬Wraps r c start count) :
    let d := c.ensureBuffer undef (r.sourceSamples start count * r.bytesPerAudioSample)
    Coherent r child d ∧ r.sourceSamples start count * r.bytesPerAudioSample ≤ d.srcbufferSize ∧
      ((r.firstSample start - d.lastStart) % 2 ^ 32 < d.lastSamples →
        d.lastStart ≤ r.firstSample start ∧
          r.firstSample start < d.lastStart + d.lastSamples) := by
  intro d
  have hnonneg := Int.mul_nonneg hfits.1 (Int.le_of_lt r.bytes_pos)
  by_cases hneeds : c.NeedsBuffer (r.sourceSamples start count * r.bytesPerAudioSample)
  · have hd : d = _ := if_pos hneeds
    rw [hd]
    refine ⟨⟨Buffer.Shows.empty (Int.le_refl 0), Int.le_refl 0, ?_, hfits.2⟩, Int.le_refl _, ?_⟩
    · simpa only [Int.zero_mul] using hnonneg
    · intro hinside
      have hrem := Int.emod_nonneg (r.firstSample start - 0) (show (2 : ℤ) ^ 32 ≠ 0 by decide)
      exact absurd hinside (Int.not_lt.mpr hrem)
  · have hd : d = c := if_neg hneeds
    rw [hd]
    simp only [NeedsBuffer, not_or, Int.not_lt] at hneeds
    refine ⟨h, hneeds.2, fun hinside => ?_⟩
    by_contra houtside
    exact hwraps ⟨not_or.mpr ⟨hneeds.1, Int.not_lt.mpr hneeds.2⟩, hinside, houtside⟩

/-- Without a wrap, what a request keeps is what it shares with the recorded range. -/
theorem Coherent.overlap_spec {first : ℤ} (hwraps : (first - c.lastStart) % 2 ^ 32 < c.lastSamples →
      c.lastStart ≤ first ∧ first < c.lastStart + c.lastSamples) :
    c.overlap first = 0 ∨ (c.lastStart ≤ first ∧ i32 (first - c.lastStart) = first - c.lastStart ∧
      c.overlap first = c.lastSamples - (first - c.lastStart) ∧ 0 < c.overlap first) := by
  have hlt := h.samples_lt
  have hnonneg := h.samples_nonneg
  by_cases hnone : i32 (first - c.lastStart) < 0 ∨
      i32 (c.lastSamples - i32 (first - c.lastStart)) ≤ 0
  · exact Or.inl (if_pos hnone)
  · right
    have hoverlap : c.overlap first = i32 (c.lastSamples - i32 (first - c.lastStart)) :=
      if_neg hnone
    rw [not_or, Int.not_lt, Int.not_le] at hnone
    obtain ⟨hoffset, hkept⟩ := hnone
    have hsmall := i32_lt (first - c.lastStart)
    rw [i32_of_range (by omega) (by omega)] at hkept hoverlap
    have hrem := i32_eq_emod hoffset
    obtain ⟨hafter, hbefore⟩ := hwraps (by omega)
    have hexact : i32 (first - c.lastStart) = first - c.lastStart :=
      i32_of_range (by omega) (by omega)
    rw [hexact] at hkept hoverlap
    exact ⟨hafter, hexact, hoverlap, by omega⟩

/-- The overlap is part of what was recorded. -/
theorem Coherent.overlap_bounds {first : ℤ}
    (hwraps : (first - c.lastStart) % 2 ^ 32 < c.lastSamples →
      c.lastStart ≤ first ∧ first < c.lastStart + c.lastSamples) :
    0 ≤ c.overlap first ∧ c.overlap first ≤ c.lastSamples := by
  have hnonneg := h.samples_nonneg
  rcases h.overlap_spec hwraps with hnone | ⟨hafter, -, hoverlap, hpos⟩
  · omega
  · omega

/-- Moving the overlap leaves the child's samples at the front of the buffer. -/
theorem Coherent.shows_keep {first : ℤ} (undef : ℤ → α)
    (sourceSamples : ℤ)
    (hwraps : (first - c.lastStart) % 2 ^ 32 < c.lastSamples →
      c.lastStart ≤ first ∧ first < c.lastStart + c.lastSamples) :
    Buffer.Shows (c.keep r undef first sourceSamples).srcbuffer 0 child first
      (c.overlap first) := by
  have hbounds := h.overlap_bounds hwraps
  have hroom := Int.mul_le_mul_of_nonneg_right hbounds.2 (Int.le_of_lt r.bytes_pos)
  rcases h.overlap_spec hwraps with hnone | ⟨hafter, hexact, hoverlap, hpos⟩
  · exact Buffer.Shows.empty (by omega)
  · simp only [keep, hexact]
    apply shows_block _ (Int.le_trans hroom h.inBlock)
    have hshared := h.recorded.block (k := first - c.lastStart) (m := c.overlap first)
      (by omega) (by omega)
    rw [Int.zero_add, show c.lastStart + (first - c.lastStart) = first by omega] at hshared
    exact hshared.copy

/-- A request that neither throws nor wraps leaves the record right, with all
source samples of the request in the buffer. -/
theorem Coherent.fetch {first sourceSamples : ℤ} (undef : ℤ → α)
    (hnonneg : 0 ≤ sourceSamples)
    (hroom : sourceSamples * r.bytesPerAudioSample ≤ c.srcbufferSize)
    (hwraps : (first - c.lastStart) % 2 ^ 32 < c.lastSamples →
      c.lastStart ≤ first ∧ first < c.lastStart + c.lastSamples) :
    ∃ d, (c.keep r undef first sourceSamples).readRest r undef child none (c.overlap first)
        sourceSamples = (false, d) ∧
      Coherent r child d ∧ Buffer.Shows d.srcbuffer 0 child first sourceSamples := by
  have hkept := h.shows_keep undef sourceSamples hwraps
  have hbounds := h.overlap_bounds hwraps
  have hblock := h.inBlock
  have hshared := Int.mul_le_mul_of_nonneg_right hbounds.2 (Int.le_of_lt r.bytes_pos)
  by_cases hrest : sourceSamples - c.overlap first > 0
  · have hmax : max (c.overlap first) sourceSamples = sourceSamples := by omega
    have hall := hkept.append (n := sourceSamples - c.overlap first)
    rw [Int.zero_add,
      show c.overlap first + (sourceSamples - c.overlap first) = sourceSamples by omega] at hall
    have hshows : Buffer.Shows (block r undef c.srcbufferSize _) 0 child first sourceSamples :=
      shows_block hall hroom
    refine ⟨_, if_pos hrest, ⟨?_, ?_, ?_, h.size_lt⟩, hshows⟩
    · simpa only [Recorded, keep, childGetAudio, hmax] using hshows
    · simpa only [keep, hmax] using hnonneg
    · simpa only [keep, hmax] using hroom
  · have hmax : max (c.overlap first) sourceSamples = c.overlap first := by omega
    refine ⟨_, if_neg hrest, ⟨?_, ?_, ?_, h.size_lt⟩, ?_⟩
    · simpa only [Recorded, keep, hmax] using hkept
    · simpa only [keep, hmax] using hbounds.1
    · simp only [keep, hmax]
      omega
    · intro i hi hin
      exact hkept i hi (by omega)

end

/-- A request to `ResampleAudio`; with `fault`, the child's call throws. -/
structure Request (α : Type) where
  fault : Option (ℤ → α)
  buf : ℤ → α
  start : ℤ
  count : ℤ

/-- A request and what it came to. -/
structure Answer (α : Type) where
  request : Request α
  thrown : Bool
  buf : ℤ → α

/-- One call of `GetAudio` with 64-bit arguments. -/
def step (r : Resampling α β) (undef child : ℤ → α) (c : ResampleAudio α) (a : Request α) :
    Option (ResampleAudio α × Answer α) :=
  if IsInt64 a.start ∧ IsInt64 a.count then
    let (thrown, buf, d) := c.getAudio r undef child a.fault a.buf a.start a.count
    some (d, ⟨a, thrown, buf⟩)
  else none

/-- The child does not throw, and a request that resamples takes less than 2 GiB
of source samples, which are all that its output needs, and does not wrap. -/
def Regular (r : Resampling α β) (c : ResampleAudio α) (a : Request α) : Prop :=
  a.fault.isNone = true ∧ (r.skipConversion = true ∨
    (r.Fits a.start a.count ∧ r.WithinReach a.start a.count ∧ ¬Wraps r c a.start a.count))
  deriving Decidable

/-- The request delivers the samples of a filter that reads its source every time. -/
def Delivered (r : Resampling α β) (child : ℤ → α) (e : Answer α) : Prop :=
  e.thrown = false ∧ e.buf = r.reread child e.request.buf e.request.start e.request.count

/-- A regular request keeps the record right and delivers what it would re-read. -/
theorem Coherent.step {a : Request α} {e : Answer α} (h : Coherent r child c)
    (hregular : Regular r c a) (hstep : ResampleAudio.step r undef child c a = some (d, e)) :
    Coherent r child d ∧ Delivered r child e := by
  simp only [ResampleAudio.step, Option.ite_none_right_eq_some, Option.some.injEq,
    Prod.mk.injEq] at hstep
  obtain ⟨-, rfl, rfl⟩ := hstep
  have hcalm : a.fault = none := Option.isNone_iff_eq_none.mp hregular.1
  rcases hregular.2 with hskip | ⟨hfits, hreach, hwraps⟩
  · simp only [getAudio, hskip, if_true, hcalm, childGetAudio, Delivered, Resampling.reread]
    exact ⟨h, trivial, trivial⟩
  by_cases hskip : r.skipConversion = true
  · simp only [getAudio, hskip, if_true, hcalm, childGetAudio, Delivered, Resampling.reread]
    exact ⟨h, trivial, trivial⟩
  · have hnonneg := Int.mul_nonneg hfits.1 (Int.le_of_lt r.bytes_pos)
    obtain ⟨hready, hroom, hinside⟩ := h.ensureBuffer undef hfits hwraps
    obtain ⟨d, hfetch, hcoherent, hshows⟩ := hready.fetch undef hfits.1 hroom hinside
    have hsource : ∀ i, 0 ≤ i → i < r.sourceSamples a.start a.count →
        d.srcbuffer i = child (r.firstSample a.start + i) := by
      intro i hi hin
      simpa only [Int.zero_add] using hshows i hi hin
    have houtput := Resampling.output_congr hreach hsource a.buf
    have hsize : ¬(c.NeedsBuffer (r.sourceSamples a.start a.count * r.bytesPerAudioSample) ∧
        r.sourceSamples a.start a.count * r.bytesPerAudioSample < 0) :=
      fun hnegative => absurd hnegative.2 (Int.not_lt.mpr hnonneg)
    simp only [getAudio, hskip, hfits.bytes_eq, hcalm, if_neg hsize, hfetch, Delivered,
      Resampling.reread, Bool.false_eq_true, if_false]
    exact ⟨hcoherent, trivial, houtput⟩

/-- In every run of regular requests, the buffer holds the child's samples for
the range it records after every call, and every request delivers the samples of
a filter that reads its source every time. -/
theorem resampleAudio_rereads (r : Resampling α β) (undef child : ℤ → α)
    {history : List (Answer α)}
    (hrun : Run (step r undef child) (Regular r) (new undef) history c) :
    Recorded child c ∧ AllEvents (fun _ e => Delivered r child e) history := by
  constructor
  · have hcoherent := hrun.invariant (fun _ => Coherent r child) (.new r undef child)
      fun h hregular hstep => (h.step hregular hstep).1
    exact hcoherent.recorded
  · exact hrun.allEvents (fun _ => Coherent r child) (.new r undef child)
      fun h hregular hstep => h.step hregular hstep

/-- Resampling 16-bit mono samples from 22050 Hz to 44100 Hz, with the
coefficients of a triangle. -/
def doubling : Resampling ℤ ℤ where
  skipConversion := false
  position x := x * 2 ^ 14
  Xoff := 43
  dtb := 2 ^ 14
  dtbe := 0
  dhb := 2 ^ 15
  dhb_pos := by decide
  bytesPerAudioSample := 2
  bytes_pos := by decide
  arithmetic := shortArithmetic (fun i => if i < 256 then 256 - i else 0) (2 ^ 20)

/-- The samples 0, 100, 200 and so on. -/
def ramp : ℤ → ℤ := fun i => 100 * i

/-- A request of two samples from `start` on. -/
def plain (start : ℤ) : Request ℤ := ⟨none, fun _ => 0, start, 2⟩

/-- A forward request that keeps most samples, and a backward request. -/
theorem resampleAudio_rereads_overlapping : ∃ (history : List (Answer ℤ)) (c : ResampleAudio ℤ),
    history.length = 3 ∧ Recorded ramp c ∧
      AllEvents (fun _ e => Delivered doubling ramp e) history := by
  obtain ⟨history, c, hrun, hlength⟩ := exists_run (step doubling (fun _ => 9) ramp)
    (Regular doubling) (new fun _ => 9) [plain 0, plain 20, plain 4]
    (fun history _ => history.length = 3) (by decide)
  have hrereads := resampleAudio_rereads doubling _ _ hrun
  exact ⟨history, c, of_decide_eq_true hlength, hrereads⟩

/-- The child throws once. The buffer then records samples that were not read, and
the same request again delivers them. -/
theorem resampleAudio_recordsUnread :
    ¬∀ (r : Resampling ℤ ℤ) (undef child : ℤ → ℤ) (history : List (Answer ℤ))
      (c : ResampleAudio ℤ), Run (step r undef child) always (new undef) history c →
        Recorded child c ∧
          AllEvents (fun _ e => e.request.fault = none → Delivered r child e) history := by
  intro h
  obtain ⟨history, c, hrun, hstate⟩ := exists_run (step doubling (fun _ => 9) ramp) always
    (new fun _ => 9) [⟨some fun _ => 7, fun _ => 0, 0, 2⟩, plain 0]
    (fun _ c => c.lastStart = -43 ∧ c.lastSamples = 88 ∧ c.srcbuffer 0 = 7) (by decide)
  obtain ⟨hstart, hsamples, hcell⟩ : c.lastStart = -43 ∧ c.lastSamples = 88 ∧
      c.srcbuffer 0 = 7 := of_decide_eq_true hstate
  have hshows := (h doubling _ _ _ _ hrun).1 0 (Int.le_refl 0) (by omega)
  simp only [Int.add_zero, hcell, hstart, ramp] at hshows
  omega

end ResampleAudio

end AviSynth
