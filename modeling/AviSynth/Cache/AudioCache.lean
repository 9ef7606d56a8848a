import AviSynth.Library.Buffer
import AviSynth.Library.MachineInt

/-!
# The audio cache

The cache of a clip keeps one window of the child's samples. A request is
cut to the samples the clip has, may switch the caching policy, and is then
served from the child, or from the window after moving and extending it. Buffers
are counted in samples of all channels. A call of the child can throw; it may
have written anything into the block it was given.
-/

namespace AviSynth

open MachineInt

/-- What the audio cache reads of the clip's `VideoInfo`. The clips with a negative number
of samples, which `DelayAudio` and `Trim` can make, are left out. -/
structure AudioInfo where
  audioSamplesPerSecond : ℤ
  numAudioSamples : ℤ
  bytesPerAudioSample : ℤ
  num_nonneg : 0 ≤ numAudioSamples
  num_int64 : IsInt64 numAudioSamples
  bytes_pos : audioSamplesPerSecond ≠ 0 → 0 < bytesPerAudioSample

namespace AudioInfo

/-- `VideoInfo::HasAudio`. -/
def HasAudio (vi : AudioInfo) : Prop := vi.audioSamplesPerSecond ≠ 0
  deriving Decidable

/-- `VideoInfo::AudioSamplesFromBytes`. -/
def audioSamplesFromBytes (vi : AudioInfo) (bytes : ℤ) : ℤ :=
  if vi.HasAudio then bytes.tdiv vi.bytesPerAudioSample else 0

/-- `VideoInfo::BytesFromAudioSamples`. -/
def bytesFromAudioSamples (vi : AudioInfo) (samples : ℤ) : ℤ :=
  i64 (samples * vi.bytesPerAudioSample)

end AudioInfo

/-- The values of `CachePolicyHint` that set the audio policy. -/
inductive AudioPolicy where
  | audio
  | audioNothing
  | audioAutoStartOff
  | audioAutoStartOn
  deriving DecidableEq

/-- The audio fields of `CachePimpl`. -/
structure AudioCache (α : Type) where
  audioPolicy : AudioPolicy
  /-- Whether `AudioCache` is not `NULL`. -/
  allocated : Bool
  audioCache : ℤ → α
  maxSampleCount : ℤ
  audioCacheStart : ℤ
  cacheCount : ℤ
  expectedNext : ℤ
  tooSmallCount : ℤ
  currentScore : ℤ

/-- `x & -8192` -/
def alignTo8192 (x : ℤ) : ℤ := x / 8192 * 8192

/-- A call of `child->GetAudio(dst + dstPos, start, count)`. With `fault`, the call
throws and leaves the samples of `fault` in the block. -/
def childGetAudio {α : Type} (child : ℤ → α) (fault : Option (ℤ → α)) (dst : ℤ → α)
    (dstPos start count : ℤ) : Bool × (ℤ → α) :=
  match fault with
  | none => (false, Buffer.copy dst dstPos child start count)
  | some garbage => (true, Buffer.copy dst dstPos garbage start count)

/-- `Cache::FillAudioZeros`. -/
def fillAudioZeros {α : Type} [Zero α] (buf : ℤ → α) (startOffset count : ℤ) : ℤ → α :=
  Buffer.copy buf startOffset (fun _ => 0) 0 count

namespace AudioCache

variable {α : Type}

/-- The constructor of `CachePimpl`. -/
def new (vi : AudioInfo) (undef : ℤ → α) : AudioCache α where
  audioPolicy := if vi.HasAudio then .audioAutoStartOff else .audioNothing
  allocated := false
  audioCache := undef
  maxSampleCount := 0
  audioCacheStart := 0
  cacheCount := 0
  expectedNext := 0
  tooSmallCount := 0
  currentScore := 20

-- `undef` is what memory contains that nobody has written.
variable (vi : AudioInfo) (undef : ℤ → α)

/-- The reallocation in `SetCacheHints`, which only makes the buffer bigger. -/
def enlarge (c : AudioCache α) (frameRange : ℤ) : AudioCache α :=
  let maxSampleCount := frameRange.tdiv vi.bytesPerAudioSample
  if maxSampleCount > c.maxSampleCount then
    { c with
      audioCache := fun i =>
        if c.allocated ∧ 0 ≤ i ∧ i < c.maxSampleCount then c.audioCache i else undef i
      allocated := true
      maxSampleCount := maxSampleCount
      audioCacheStart := if c.allocated then c.audioCacheStart else 0
      cacheCount := if c.allocated then min c.cacheCount maxSampleCount else 0 }
  else c

/-- The case of `SetCacheHints` that starts caching. -/
def startCaching (c : AudioCache α) (cachehints : AudioPolicy) (frameRange : ℤ) : AudioCache α :=
  if ¬vi.HasAudio then c
  else if frameRange = 0 ∧ c.audioPolicy ≠ .audioAutoStartOff then c
  else
    let frameRange := if frameRange = 0 then 256 * 1024 else frameRange
    { c.enlarge vi undef frameRange with audioPolicy := cachehints }

/-- The case of `SetCacheHints` that stops caching. -/
def stopCaching (c : AudioCache α) (cachehints : AudioPolicy) : AudioCache α :=
  { c with
    allocated := false
    maxSampleCount := 0
    audioCacheStart := 0
    cacheCount := 0
    audioPolicy := cachehints }

/-- `Cache::SetCacheHints` for the hints that set the audio policy. The other
hints leave the audio fields alone. -/
def setCacheHints (c : AudioCache α) (cachehints : AudioPolicy) (frameRange : ℤ) : AudioCache α :=
  match cachehints with
  | .audio | .audioAutoStartOn => c.startCaching vi undef cachehints frameRange
  | .audioAutoStartOff | .audioNothing => c.stopCaching cachehints

/-- The update of `ac_currentscore`. -/
def score (c : AudioCache α) (start : ℤ) : AudioCache α :=
  let cs :=
    if start < c.expectedNext then c.currentScore - 5
    else if start > c.expectedNext then c.currentScore - 1
    else c.currentScore + 1
  { c with currentScore := if cs < -2000000 then -2000000 else if cs > 90 then 90 else cs }

/-- The automatic change from `AUTO_START_OFF` to `AUTO_START_ON`. -/
def autoStart (c : AudioCache α) (count : ℤ) : AudioCache α :=
  if c.audioPolicy = .audioAutoStartOff ∧ c.currentScore ≤ 0 then
    let newSize := alignTo8192 (i64 (vi.bytesFromAudioSamples count + 8191))
    c.setCacheHints vi undef .audioAutoStartOn (i32 (min (4096 * 1024) newSize))
  else c

/-- The automatic change from `AUTO_START_ON` to `AUTO_START_OFF`. -/
def autoStop (c : AudioCache α) : AudioCache α :=
  if c.audioPolicy = .audioAutoStartOn ∧ c.currentScore > 80 then
    c.setCacheHints vi undef .audioAutoStartOff 0
  else c

/-- The automatic enlargement of a cache that was too small repeatedly. -/
def upsize (c : AudioCache α) (start count : ℤ) : AudioCache α :=
  let wanted := max count (i64 (c.audioCacheStart + c.cacheCount) - start)
  let newSize := alignTo8192 (i64 (vi.bytesFromAudioSamples wanted + 8192))
  { c.setCacheHints vi undef c.audioPolicy (i32 (min (8192 * 1024) newSize)) with
    tooSmallCount := 0 }

/-- The loop that makes the cache big enough for `count` samples. It ends with
`true` when the cache is big enough and with `false` when the request has to pass
by the cache; `none` when it has not ended after `fuel` rounds. -/
def makeRoom (start count : ℤ) : ℕ → AudioCache α → Option (Bool × AudioCache α)
  | 0, _ => none
  | fuel + 1, c =>
    if count > c.maxSampleCount then
      let c := { c with tooSmallCount := i32 (c.tooSmallCount + 1) }
      if c.tooSmallCount > 2 ∧ c.maxSampleCount < vi.audioSamplesFromBytes (8192 * 1024) then
        makeRoom start count fuel (c.upsize vi undef start count)
      else some (false, c)
    else some (true, c)

variable (child : ℤ → α) (fault : Option (ℤ → α))

/-- The request is larger than the cache: read into the buffer and keep the last
samples of it. -/
def passBy (c : AudioCache α) (buf : ℤ → α) (pos start count : ℤ) :
    Bool × (ℤ → α) × AudioCache α :=
  let (thrown, buf) := childGetAudio child fault buf pos start count
  if thrown then (true, buf, c)
  else
    let cacheCount := min count c.maxSampleCount
    let audioCacheStart := start + count - cacheCount
    (false, buf, { c with
      cacheCount := cacheCount
      audioCacheStart := audioCacheStart
      audioCache :=
        Buffer.copy c.audioCache 0 buf (pos + (audioCacheStart - start)) cacheCount })

/-- The first sample is before the window or beyond linear reach. -/
def Restarts (c : AudioCache α) (start : ℤ) : Prop :=
  start < c.audioCacheStart ∨ start > i64 (c.audioCacheStart + c.maxSampleCount)
  deriving Decidable

/-- Shifting the window when the end of the request is out of its reach. -/
def shift (c : AudioCache α) (start count : ℤ) : AudioCache α :=
  let reach := i64 (c.audioCacheStart + c.maxSampleCount)
  if i64 (start + count) > reach then
    let shiftsamples := i32 (i64 (start + count) - reach)
    let half := (start - c.audioCacheStart).tdiv 2
    let shiftsamples := if half > shiftsamples then i32 half else shiftsamples
    if shiftsamples ≥ i32 c.cacheCount then
      { c with audioCacheStart := i64 (start + count) - c.maxSampleCount, cacheCount := 0 }
    else
      { c with
        audioCache :=
          Buffer.copy c.audioCache 0 c.audioCache shiftsamples (c.cacheCount - shiftsamples)
        audioCacheStart := c.audioCacheStart + shiftsamples
        cacheCount := c.cacheCount - shiftsamples }
  else c

/-- Making the window cover the request: restart it, or shift it and append the
missing samples. The restart sets the bounds before it reads. -/
def fillWindow (c : AudioCache α) (start count : ℤ) : Bool × AudioCache α :=
  if c.Restarts start then
    let c := { c with cacheCount := min count c.maxSampleCount, audioCacheStart := start }
    let (thrown, mem) := childGetAudio child fault c.audioCache 0 c.audioCacheStart c.cacheCount
    (thrown, { c with audioCache := mem })
  else if i64 (start + count) > i64 (c.audioCacheStart + c.cacheCount) then
    let c := c.shift start count
    let missing := i64 (start + count) - i64 (c.audioCacheStart + c.cacheCount)
    let (thrown, mem) := childGetAudio child fault c.audioCache c.cacheCount
      (i64 (c.audioCacheStart + c.cacheCount)) missing
    if thrown then (true, { c with audioCache := mem })
    else (false, { c with audioCache := mem, cacheCount := c.cacheCount + missing })
  else (false, c)

/-- The part of `GetAudio` that decides the policy. -/
def prepare (c : AudioCache α) (start count : ℤ) : AudioCache α :=
  { ((c.score start).autoStart vi undef count).autoStop vi undef with
    expectedNext := i64 (start + count) }

/-- `Cache::GetAudio` on a request that has been cut to the clip. The result says
whether the child threw, and gives the buffer and the cache. -/
def serve (c : AudioCache α) (buf : ℤ → α) (pos start count : ℤ) :
    Option (Bool × (ℤ → α) × AudioCache α) :=
  let c := c.prepare vi undef start count
  if c.audioPolicy = .audioAutoStartOff ∨ c.audioPolicy = .audioNothing then
    let (thrown, buf) := childGetAudio child fault buf pos start count
    some (thrown, buf, c)
  else
    (makeRoom vi undef start count 2 c).map fun (room, c) =>
      if room then
        let (thrown, c) := c.fillWindow child fault start count
        if thrown then (true, buf, c)
        else (false, Buffer.copy buf pos c.audioCache (start - c.audioCacheStart) count, c)
      else c.passBy child fault buf pos start count

/-- The request cut to the samples of the clip: the buffer with zeros where the
clip has no samples, the position in it, and the remaining `start` and `count`. -/
def cut [Zero α] (buf : ℤ → α) (start count : ℤ) : (ℤ → α) × ℤ × ℤ × ℤ :=
  let (buf, pos, start, count) :=
    if start < 0 then (fillAudioZeros buf 0 (-start), -start, 0, count + start)
    else (buf, 0, start, count)
  if i64 (start + count) > vi.numAudioSamples then
    (fillAudioZeros buf (pos + (vi.numAudioSamples - start))
      (count - (vi.numAudioSamples - start)), pos, start, vi.numAudioSamples - start)
  else (buf, pos, start, count)

/-- `Cache::GetAudio`. -/
def getAudio [Zero α] (c : AudioCache α) (buf : ℤ → α) (start count : ℤ) :
    Option (Bool × (ℤ → α) × AudioCache α) :=
  if count ≤ 0 then some (false, buf, c)
  else if ¬vi.HasAudio ∨ i64 (start + count) ≤ 0 ∨ start ≥ vi.numAudioSamples then
    some (false, fillAudioZeros buf 0 count, c)
  else
    let (buf, pos, start, count) := cut vi buf start count
    c.serve vi undef child fault buf pos start count

end AudioCache

end AviSynth
