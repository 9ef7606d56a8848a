import AviSynth.Library.Loops
import AviSynth.Library.MachineInt
import Mathlib.Algebra.Order.Ring.Int

/-!
# `MergeChannels` and `GetChannel`

Samples of all channels stand side by side in the audio of a clip. `MergeChannels` reads all clips
into one buffer that it keeps between calls, one clip behind the other, and then copies them
channel by channel. `GetChannel` reads its child into such a buffer and picks channels.
-/

namespace AviSynth

open MachineInt CountedLoop

/-- `AvsSampleType`. -/
inductive SampleType where
  | int8
  | int16
  | int24
  | int32
  | float
  deriving DecidableEq

/-- `BytesPerChannelSample`. -/
def SampleType.bytesPerChannelSample : SampleType → ℤ
  | int8 => 1
  | int16 => 2
  | int24 => 3
  | int32 => 4
  | float => 4

/-- A call of `GetAudio`. -/
structure AudioCall where
  buf : ℤ → UInt8
  start : ℤ
  count : ℤ

/-- A clip whose calls may change its state. -/
structure AudioSource (σ : Type) where
  channels : ℤ
  getAudio : σ → AudioCall → Option (σ × (ℤ → UInt8))

/-- A clip that always has the same audio. -/
structure AudioTrack where
  channels : ℤ
  channels_nonneg : 0 ≤ channels
  bytes : ℤ → UInt8

/-- `BytesPerAudioSample` of a clip with so many channels. -/
def SampleType.bytesPerAudioSample (type : SampleType) (channels : ℤ) : ℤ :=
  channels * type.bytesPerChannelSample

/-- `tempbuffer` with `tempbuffer_size`, and the bytes that are allocated for it. -/
structure TempBuffer where
  cells : ℤ → UInt8
  allocated : ℤ
  size : ℤ

namespace TempBuffer

/-- The buffer before its first use. -/
def init : TempBuffer := ⟨fun _ => 0, 0, 0⟩

/-- A larger buffer is allocated for more samples. What it holds at first is of no importance. -/
def reserve (t : TempBuffer) (bytesPerSample count : ℤ) : TempBuffer :=
  if t.size < count then ⟨t.cells, i64 (count * bytesPerSample) % 2 ^ 32, i32 count⟩ else t

/-- There is room for bytes that are written. -/
def HasRoom (t : TempBuffer) (pos n : ℤ) : Prop := 0 < n → 0 ≤ pos ∧ pos + n ≤ t.allocated
  deriving Decidable

/-- `n` bytes are written, if they are in the buffer. -/
def write (t : TempBuffer) (pos : ℤ) (src : ℤ → UInt8) (srcPos n : ℤ) : Option TempBuffer :=
  if t.HasRoom pos n then some { t with cells := Buffer.copy t.cells pos src srcPos n } else none

end TempBuffer

variable (type : SampleType)

/-- `GetAudio` of a track. -/
def AudioTrack.source (track : AudioTrack) : AudioSource Unit where
  channels := track.channels
  getAudio := fun _ call => some ((), Buffer.copy call.buf 0 track.bytes
    (call.start * type.bytesPerAudioSample track.channels)
    (call.count * type.bytesPerAudioSample track.channels))

/-! ### `MergeChannels` -/

section Merge

variable (start count channelOffset : ℤ)

/-- The clips are read, one behind the other: the buffer, and `clip_offset`. -/
def readClips : List AudioTrack → ℤ → TempBuffer → Option (TempBuffer × List ℤ)
  | [], _, t => some (t, [])
  | clip :: clips, cChannel, t => do
    let pos := i32 (cChannel * channelOffset)
    let t ← t.write pos clip.bytes (start * type.bytesPerAudioSample clip.channels)
      (count * type.bytesPerAudioSample clip.channels)
    let (t, clipOffset) ← readClips clips (cChannel + clip.channels) t
    some (t, pos :: clipOffset)

/-- A loop that copies words of `width` bytes. -/
def copyWords (width bps dstOffset : ℤ) (src : ℤ → UInt8) (srcPos : ℤ) (samples : ℤ → UInt8) :
    ℤ → UInt8 :=
  forLoop 0 count 1 (fun l samples =>
    Buffer.copy samples (i32 (dstOffset + l * bps)) src (srcPos + width * l) width) samples

/-- The channels of one clip, by the number of their bytes. -/
def interleaveClip (bps dstOffset bpcc : ℤ) (src : ℤ → UInt8) (srcPos : ℤ) (samples : ℤ → UInt8) :
    ℤ → UInt8 :=
  if bpcc = 2 then copyWords count 2 bps dstOffset src srcPos samples
  else if bpcc = 4 then copyWords count 4 bps dstOffset src srcPos samples
  else if bpcc = 8 then copyWords count 8 bps dstOffset src srcPos samples
  else
    forLoop 0 count 1 (fun l samples =>
      forLoop 0 bpcc 1 (fun k samples =>
        Buffer.copy samples (i32 (dstOffset + l * bps + k)) src (srcPos + i32 (l * bpcc + k)) 1)
        samples) samples

/-- `Interleave channels`. -/
def interleave (bps : ℤ) (src : ℤ → UInt8) : List (AudioTrack × ℤ) → ℤ → (ℤ → UInt8) → ℤ → UInt8
  | [], _, samples => samples
  | (clip, srcPos) :: clips, dstOffset, samples =>
    let bpcc := type.bytesPerChannelSample * clip.channels
    interleave bps src clips (dstOffset + bpcc)
      (interleaveClip count bps dstOffset bpcc src srcPos samples)

end Merge

/-- The channels of the merged clip. -/
def mergedChannels (clips : List AudioTrack) : ℤ := (clips.map AudioTrack.channels).sum

/-- `MergeChannels`. Its state is the buffer. -/
def mergeChannels (clips : List AudioTrack) : AudioSource TempBuffer where
  channels := mergedChannels clips
  getAudio := fun t call => do
    let bps := type.bytesPerAudioSample (mergedChannels clips)
    let t := t.reserve bps call.count
    let channelOffset := i32 (i32 call.count * type.bytesPerChannelSample)
    let (t, clipOffset) ← readClips type call.start call.count channelOffset clips 0 t
    some (t, interleave type call.count bps t.cells (clips.zip clipOffset) 0 call.buf)

/-! ### `GetChannel` -/

/-- `channel` and `numchannels`: channels of a clip, which may be repeated. -/
structure ChannelList (channels : ℤ) where
  channel : ℤ → ℤ
  numchannels : ℤ
  num_nonneg : 0 ≤ numchannels
  valid : ∀ k, 0 ≤ k → k < numchannels → 0 ≤ channel k ∧ channel k < channels

section GetChannel

variable {σ : Type} {channels : ℤ} (list : ChannelList channels) (tempbuffer : ℤ → UInt8)

/-- The inner loop for samples of `cbps` bytes, which are copied as one number. -/
def pickSamples (cbps tbuff : ℤ) (w : Writer UInt8) : Writer UInt8 :=
  forLoop 0 list.numchannels 1 (fun k w => w.append tempbuffer (tbuff + cbps * list.channel k) cbps)
    w

/-- The inner loop that copies one byte at a time. -/
def pickBytes (cbps tbuff : ℤ) (w : Writer UInt8) : Writer UInt8 :=
  forLoop 0 list.numchannels 1 (fun k w =>
    let srcO := list.channel k * cbps
    forLoop srcO (srcO + cbps) 1 (fun j w => w.append tempbuffer (tbuff + j) 1) w) w

/-- `switch (cbps)`. The pointer to numbers is moved by `src_bps` bytes, rounded down to numbers. -/
def pickChannels (cbps srcBps count : ℤ) (w : Writer UInt8) : Writer UInt8 :=
  if cbps = 1 ∨ cbps = 2 ∨ cbps = 4 then
    forLoop 0 count 1 (fun i => pickSamples list tempbuffer cbps (i * (srcBps / cbps * cbps))) w
  else forLoop 0 count 1 (fun i => pickBytes list tempbuffer cbps (i * srcBps)) w

/-- `GetChannel` of a clip. Its state is that of the clip, and the buffer. -/
def getChannel (child : AudioSource σ) (list : ChannelList child.channels) :
    AudioSource (σ × TempBuffer) where
  channels := list.numchannels
  getAudio := fun (s, t) call => do
    let srcBps := type.bytesPerAudioSample child.channels
    let t := t.reserve srcBps call.count
    guard (t.HasRoom 0 (call.count * srcBps))
    let (s, tempbuffer) ← child.getAudio s ⟨t.cells, call.start, call.count⟩
    some ((s, { t with cells := tempbuffer }),
      (pickChannels list tempbuffer type.bytesPerChannelSample srcBps call.count
        ⟨call.buf, 0⟩).buf)

end GetChannel

/-!
## The merged clip

The merged clip is a table with a column for each clip. All loops that copy channels copy a column.
-/

open Columns

/-- A number of 32 bits. -/
def IsInt32 (x : ℤ) : Prop := -2 ^ 31 ≤ x ∧ x < 2 ^ 31

variable {type : SampleType} {clips : List AudioTrack} {clip : AudioTrack} {t : TempBuffer}
  {start count bps m x : ℤ}

theorem SampleType.bytesPerChannelSample_pos : ∀ type : SampleType, 0 < type.bytesPerChannelSample
  | int8 | int16 | int24 | int32 | float => by decide

/-- The columns of a clip, from a row on. -/
def AudioTrack.column (type : SampleType) (start : ℤ) (clip : AudioTrack) : Column UInt8 where
  width := type.bytesPerAudioSample clip.channels
  width_nonneg := Int.mul_nonneg clip.channels_nonneg type.bytesPerChannelSample_pos.le
  cell := fun p r => clip.bytes ((start + p) * type.bytesPerAudioSample clip.channels + r)

/-- The columns of all clips. -/
def clipColumns (type : SampleType) (start : ℤ) (clips : List AudioTrack) : List (Column UInt8) :=
  clips.map (AudioTrack.column type start)

theorem mergedChannels_cons :
    mergedChannels (clip :: clips) = clip.channels + mergedChannels clips := rfl

theorem totalWidth_clipColumns (type : SampleType) (start : ℤ) (clips : List AudioTrack) :
    totalWidth (clipColumns type start clips) =
      type.bytesPerAudioSample (mergedChannels clips) := by
  induction clips with
  | nil => exact (Int.zero_mul _).symm
  | cons clip clips ih =>
    rw [clipColumns, List.map_cons, totalWidth, ← clipColumns, ih, mergedChannels_cons]
    exact (Int.add_mul _ _ _).symm

/-- The rows from a later one on. -/
theorem cellAt_clipColumns (type : SampleType) (start : ℤ) (clips : List AudioTrack) (p r : ℤ) :
    cellAt 0 (clipColumns type start clips) p r =
      cellAt 0 (clipColumns type 0 clips) (start + p) r := by
  induction clips generalizing r with
  | nil => rfl
  | cons clip clips ih =>
    simp only [clipColumns, List.map_cons, cellAt] at ih ⊢
    rw [ih]
    simp only [AudioTrack.column, Int.zero_add]
    rfl

theorem mergedChannels_nonneg : 0 ≤ mergedChannels clips := by
  induction clips with
  | nil => exact le_rfl
  | cons clip clips ih =>
    rw [mergedChannels_cons]
    exact Int.add_nonneg clip.channels_nonneg ih

/-- The merged clip. -/
def mergedTrack (type : SampleType) (clips : List AudioTrack) : AudioTrack where
  channels := mergedChannels clips
  channels_nonneg := mergedChannels_nonneg
  bytes := fun x => cellAt 0 (clipColumns type 0 clips)
    (x / type.bytesPerAudioSample (mergedChannels clips))
    (x % type.bytesPerAudioSample (mergedChannels clips))

/-! ### The buffer -/

namespace TempBuffer

/-- A buffer of the size that is noted. -/
structure Fits (bps : ℤ) (t : TempBuffer) : Prop where
  room : t.size * bps ≤ t.allocated
  size_nonneg : 0 ≤ t.size * bps

theorem fits_init (bps : ℤ) : init.Fits bps := by
  constructor <;> simp [init]

theorem Fits.reserve (h : t.Fits bps) (hbps : 0 ≤ bps) (hcount : IsInt32 (count * bps)) :
    (t.reserve bps count).Fits bps ∧ count * bps ≤ (t.reserve bps count).allocated := by
  have hroom := h.room
  have hsize := h.size_nonneg
  unfold TempBuffer.reserve
  split_ifs with hgrow
  · obtain rfl | hpos := hbps.eq_or_lt
    · refine ⟨⟨?_, ?_⟩, ?_⟩ <;> simp [i64]
    · have hold : 0 ≤ t.size := nonneg_of_mul_nonneg_left hsize hpos
      have hle : count * 1 ≤ count * bps := Int.mul_le_mul_of_nonneg_left hpos (by omega)
      have hbytes : i64 (count * bps) % 2 ^ 32 = count * bps := by
        have hlt := hcount.2
        rw [i64_of_range (by omega) (by omega), Int.emod_eq_of_lt (by omega) (by omega)]
      have hcount32 : i32 count = count := by
        have hlt := hcount.2
        exact i32_of_range (by omega) (by omega)
      rw [hbytes, hcount32]
      exact ⟨⟨le_rfl, by dsimp only; omega⟩, le_rfl⟩
  · have hle : count * bps ≤ t.size * bps := Int.mul_le_mul_of_nonneg_right (by omega) hbps
    exact ⟨h, by omega⟩

end TempBuffer

/-! ### Reading the clips -/

/-- Where the clips are in the buffer, as far as numbers do not wrap. -/
def Places (channelOffset m last : ℤ) : Prop :=
  ∀ c, 0 ≤ c → c ≤ last → i32 (c * channelOffset) = c * m

/-- Each clip is where its offset says. -/
theorem readClips_spec (start : ℤ) {channelOffset c : ℤ}
    (hm : m = count * type.bytesPerChannelSample) (hc : 0 ≤ c)
    (hplaces : Places channelOffset m (c + mergedChannels clips))
    (hroom : 0 < m → (c + mergedChannels clips) * m ≤ t.allocated) :
    ∃ t' clipOffset, readClips type start count channelOffset clips c t = some (t', clipOffset) ∧
      t'.allocated = t.allocated ∧ t'.size = t.size ∧
      (∀ x, (0 < m → x < c * m) → t'.cells x = t.cells x) ∧
      List.Forall₂ (fun clip pos => Buffer.Shows t'.cells pos clip.bytes
        (start * type.bytesPerAudioSample clip.channels)
        (count * type.bytesPerAudioSample clip.channels)) clips clipOffset := by
  induction clips generalizing c t with
  | nil => exact ⟨t, [], rfl, rfl, rfl, fun _ _ => rfl, List.Forall₂.nil⟩
  | cons clip clips ih =>
    have hclip := clip.channels_nonneg
    have hrest : 0 ≤ mergedChannels clips := mergedChannels_nonneg
    rw [mergedChannels_cons, ← Int.add_assoc] at hplaces hroom
    have hbytes : count * type.bytesPerAudioSample clip.channels = clip.channels * m := by
      rw [hm, SampleType.bytesPerAudioSample]
      ring
    have hnext : (c + clip.channels) * m = c * m + clip.channels * m := Int.add_mul _ _ _
    have hpos : i32 (c * channelOffset) = c * m := hplaces c hc (by omega)
    have hwrite : t.HasRoom (c * m) (clip.channels * m) := by
      intro hsome
      have hm0 : 0 < m := by
        by_contra hneg
        have hnone : clip.channels * m ≤ 0 := Int.mul_nonpos_of_nonneg_of_nonpos hclip (by omega)
        omega
      have hall := hroom hm0
      have htail : 0 ≤ mergedChannels clips * m := Int.mul_nonneg hrest hm0.le
      rw [Int.add_mul, hnext] at hall
      exact ⟨Int.mul_nonneg hc hm0.le, by omega⟩
    let next : TempBuffer := ⟨Buffer.copy t.cells (c * m) clip.bytes
      (start * type.bytesPerAudioSample clip.channels) (clip.channels * m), t.allocated, t.size⟩
    obtain ⟨t', clipOffset, hread, hallocated, hsize, hsame, hshows⟩ :=
      ih (t := next) (c := c + clip.channels) (by omega) hplaces hroom
    refine ⟨t', c * m :: clipOffset, ?_, hallocated, hsize, ?_, ?_⟩
    · rw [readClips]
      simp only [hpos, hbytes, TempBuffer.write, if_pos hwrite, Option.bind_eq_bind,
        Option.bind_some]
      rw [hread]
      rfl
    · intro x hx
      have hbefore (hm0 : 0 < m) : 0 ≤ clip.channels * m := Int.mul_nonneg hclip hm0.le
      rw [hsame x fun hm0 => by
        have := hx hm0
        have := hbefore hm0
        omega]
      refine Buffer.copy_outside ?_
      by_cases hm0 : 0 < m
      · exact Or.inl (hx hm0)
      · have hnone : clip.channels * m ≤ 0 :=
          Int.mul_nonpos_of_nonneg_of_nonpos hclip (by omega)
        omega
    · refine List.Forall₂.cons ?_ hshows
      rw [hbytes]
      refine (Buffer.shows_copy t.cells (c * m) clip.bytes _ _).congr fun i hi hlt => ?_
      exact hsame _ fun _ => by omega

/-! ### Copying the channels -/

section Interleave

variable {dstOffset bpcc width srcPos : ℤ} {src samples : ℤ → UInt8}

section

variable (hcount : IsInt32 (count * bps))
include hcount

/-- A byte of a frame is in a buffer whose size is an int. -/
theorem rowByte_int32 {l k : ℤ} (hl : 0 ≤ l ∧ l < count)
    (hk : 0 ≤ k ∧ k < bps) : i32 (l * bps + k) = l * bps + k := by
  have hbefore : 0 ≤ l * bps := Int.mul_nonneg hl.1 (by omega)
  have hrow : (l + 1) * bps ≤ count * bps := Int.mul_le_mul_of_nonneg_right (by omega) (by omega)
  have hlt := hcount.2
  rw [Int.add_mul, Int.one_mul] at hrow
  exact i32_of_range (by omega) (by omega)

/-- Words that are copied are a column. -/
theorem copyWords_eq (hdst : 0 ≤ dstOffset) (hwidth : dstOffset + width ≤ bps) (hpos : 0 < width) :
    copyWords count width bps dstOffset src srcPos samples =
      forLoop 0 count 1 (copyRow dstOffset bps width fun l r => src (srcPos + (l * width + r)))
        samples := by
  refine forLoop_congr_of_lt (fun l samples hl hlt => ?_) samples
  rw [Int.add_comm dstOffset, rowByte_int32 hcount ⟨hl, hlt⟩ ⟨hdst, by omega⟩, copyRow,
    Int.mul_comm l bps, Int.add_comm _ dstOffset]
  refine Buffer.copy_congr fun r _ _ => ?_
  rw [Int.zero_add, Int.mul_comm l width, Int.add_assoc]

/-- So are bytes. -/
theorem copyBytes_eq (hdst : 0 ≤ dstOffset) (hwidth : dstOffset + bpcc ≤ bps) :
    forLoop 0 count 1 (fun l samples =>
        forLoop 0 bpcc 1 (fun k samples =>
          Buffer.copy samples (i32 (dstOffset + l * bps + k)) src (srcPos + i32 (l * bpcc + k)) 1)
          samples) samples =
      forLoop 0 count 1 (copyRow dstOffset bps bpcc fun l r => src (srcPos + (l * bpcc + r)))
        samples := by
  refine forLoop_congr_of_lt (fun l samples hl hlt => ?_) samples
  have hinner : forLoop 0 bpcc 1 (fun k samples =>
      Buffer.copy samples (i32 (dstOffset + l * bps + k)) src (srcPos + i32 (l * bpcc + k)) 1)
        samples =
      forLoop 0 bpcc 1 (fun k samples => Buffer.copy samples (dstOffset + bps * l + 1 * k)
        (fun r => src (srcPos + (l * bpcc + r))) (1 * k) 1) samples := by
    refine forLoop_congr_of_lt (fun k samples hk hklt => ?_) samples
    have hsrcCount : IsInt32 (count * bpcc) := by
      have hle : count * bpcc ≤ count * bps :=
        Int.mul_le_mul_of_nonneg_left (by omega) (by omega)
      have hnonneg : 0 ≤ count * bpcc := Int.mul_nonneg (by omega) (by omega)
      have hint := hcount.2
      exact ⟨by omega, by omega⟩
    have hposition : dstOffset + l * bps + k = l * bps + (dstOffset + k) := by ring
    have hdstPos : l * bps + (dstOffset + k) = dstOffset + bps * l + 1 * k := by ring
    rw [hposition, rowByte_int32 hcount ⟨hl, hlt⟩ ⟨by omega, by omega⟩, hdstPos,
      rowByte_int32 hsrcCount ⟨hl, hlt⟩ ⟨hk, hklt⟩]
    refine Buffer.copy_congr fun r hr hrlt => ?_
    obtain rfl : r = 0 := by omega
    rw [Int.add_zero, Int.add_zero, Int.one_mul]
  rw [hinner, forLoop_all (by decide) (fun _ _ => rfl), Int.one_mul]
  rfl

/-- Whatever loop copies the channels of a clip, it writes their column. -/
theorem interleaveClip_eq (hdst : 0 ≤ dstOffset) (hwidth : dstOffset + bpcc ≤ bps) :
    interleaveClip count bps dstOffset bpcc src srcPos samples =
      forLoop 0 count 1 (copyRow dstOffset bps bpcc fun l r => src (srcPos + (l * bpcc + r)))
        samples := by
  unfold interleaveClip
  split_ifs with h2 h4 h8
  · rw [h2] at hwidth ⊢
    exact copyWords_eq hcount hdst hwidth (by decide)
  · rw [h4] at hwidth ⊢
    exact copyWords_eq hcount hdst hwidth (by decide)
  · rw [h8] at hwidth ⊢
    exact copyWords_eq hcount hdst hwidth (by decide)
  · exact copyBytes_eq hcount hdst hwidth

/-- The column of a clip that is in the buffer. -/
theorem interleaveClip_column (hdst : 0 ≤ dstOffset)
    (hwidth : dstOffset + (clip.column type start).width ≤ bps)
    (hshows : Buffer.Shows src srcPos clip.bytes
      (start * type.bytesPerAudioSample clip.channels)
      (count * type.bytesPerAudioSample clip.channels)) :
    interleaveClip count bps dstOffset (type.bytesPerChannelSample * clip.channels) src srcPos
        samples =
      forLoop 0 count 1 (copyRow dstOffset bps (clip.column type start).width
        (clip.column type start).cell) samples := by
  have hbpcc : type.bytesPerChannelSample * clip.channels = (clip.column type start).width :=
    Int.mul_comm _ _
  rw [hbpcc, interleaveClip_eq hcount hdst hwidth]
  refine forLoop_congr_of_lt (fun l samples hl hlt => ?_) samples
  refine Buffer.copy_congr fun r hr hrlt => ?_
  have hwidth0 := (clip.column type start).width_nonneg
  have hrow : (l + 1) * (clip.column type start).width ≤ count * (clip.column type start).width :=
    Int.mul_le_mul_of_nonneg_right (by omega) hwidth0
  have hbefore : 0 ≤ l * (clip.column type start).width := Int.mul_nonneg hl hwidth0
  rw [Int.add_mul, Int.one_mul] at hrow
  have hcell := hshows (l * (clip.column type start).width + r) (by omega)
    (lt_of_lt_of_le (by omega) hrow)
  rw [Int.zero_add]
  refine hcell.trans ?_
  rw [← Int.add_assoc]
  change clip.bytes (start * _ + l * _ + r) = clip.bytes ((start + l) * _ + r)
  rw [Int.add_mul]
  rfl

end

theorem interleave_eq (samples : ℤ → UInt8) {clipOffset : List ℤ} (hcount : IsInt32 (count * bps))
    (hdst : 0 ≤ dstOffset)
    (hwidth : dstOffset + totalWidth (clipColumns type start clips) = bps)
    (hshows : List.Forall₂ (fun clip pos => Buffer.Shows src pos clip.bytes
      (start * type.bytesPerAudioSample clip.channels)
      (count * type.bytesPerAudioSample clip.channels)) clips clipOffset) :
    interleave type count bps src (clips.zip clipOffset) dstOffset samples =
      writeColumns bps count dstOffset (clipColumns type start clips) samples := by
  induction hshows generalizing dstOffset samples with
  | nil => rfl
  | @cons clip pos clips clipOffset hclip hclips ih =>
    have hrest := totalWidth_nonneg (clipColumns type start clips)
    have hclip0 := (clip.column type start).width_nonneg
    rw [clipColumns, List.map_cons, totalWidth, ← clipColumns] at hwidth
    have hbpcc : type.bytesPerChannelSample * clip.channels = (clip.column type start).width :=
      Int.mul_comm _ _
    rw [List.zip_cons_cons, interleave, clipColumns, List.map_cons, writeColumns, ← clipColumns,
      interleaveClip_column hcount hdst (by omega) hclip, hbpcc]
    exact ih _ (by omega) (by omega)

end Interleave

/-! ### Requests -/

/-- A clip plays a track: calls that meet a condition leave the bytes of the track, and an
invariant. -/
def AudioSource.Plays {σ : Type} (type : SampleType) (source : AudioSource σ) (Inv : σ → Prop)
    (fits : AudioCall → Prop) (track : AudioTrack) : Prop :=
  ∀ s call, Inv s → fits call → ∃ s', Inv s' ∧ source.getAudio s call = some (s',
    Buffer.copy call.buf 0 track.bytes (call.start * type.bytesPerAudioSample track.channels)
      (call.count * type.bytesPerAudioSample track.channels))

/-- The bytes of the samples of so many channels are counted by an int. -/
def FitsChannels (type : SampleType) (channels : ℤ) (call : AudioCall) : Prop :=
  IsInt32 (call.count * type.bytesPerAudioSample channels)

theorem source_plays (type : SampleType) (track : AudioTrack) (fits : AudioCall → Prop) :
    (track.source type).Plays type (fun _ => True) fits track :=
  fun _ _ _ _ => ⟨(), trivial, rfl⟩

/-- The products that say where the clips are. -/
theorem places_merged (hcount : IsInt32 (count * type.bytesPerAudioSample (mergedChannels clips))) :
    Places (i32 (i32 count * type.bytesPerChannelSample)) (count * type.bytesPerChannelSample)
      (mergedChannels clips) := by
  intro c hc hlast
  obtain rfl | hpos := hc.eq_or_lt
  · rw [Int.zero_mul, Int.zero_mul]
    rfl
  · have hsize := type.bytesPerChannelSample_pos
    have htotal : count * type.bytesPerAudioSample (mergedChannels clips) =
        mergedChannels clips * (count * type.bytesPerChannelSample) := by
      rw [SampleType.bytesPerAudioSample]
      ring
    rw [htotal] at hcount
    obtain ⟨hlow, hhigh⟩ := hcount
    have hrange : IsInt32 (count * type.bytesPerChannelSample) ∧
        IsInt32 (c * (count * type.bytesPerChannelSample)) ∧ IsInt32 count := by
      obtain hneg | hnonneg := lt_or_ge count 0
      · have hm : count * type.bytesPerChannelSample ≤ count * 1 :=
          Int.mul_le_mul_of_nonpos_left (by omega) (by omega)
        have hc1 : c * (count * type.bytesPerChannelSample) ≤
            1 * (count * type.bytesPerChannelSample) :=
          Int.mul_le_mul_of_nonpos_right (by omega) (by omega)
        have hcN : mergedChannels clips * (count * type.bytesPerChannelSample) ≤
            c * (count * type.bytesPerChannelSample) :=
          Int.mul_le_mul_of_nonpos_right hlast (by omega)
        exact ⟨⟨by omega, by omega⟩, ⟨by omega, by omega⟩, ⟨by omega, by omega⟩⟩
      · have hm : count * 1 ≤ count * type.bytesPerChannelSample :=
          Int.mul_le_mul_of_nonneg_left (by omega) hnonneg
        have hc1 : 1 * (count * type.bytesPerChannelSample) ≤
            c * (count * type.bytesPerChannelSample) :=
          Int.mul_le_mul_of_nonneg_right (by omega) (by omega)
        have hcN : c * (count * type.bytesPerChannelSample) ≤
            mergedChannels clips * (count * type.bytesPerChannelSample) :=
          Int.mul_le_mul_of_nonneg_right hlast (by omega)
        exact ⟨⟨by omega, by omega⟩, ⟨by omega, by omega⟩, ⟨by omega, by omega⟩⟩
    obtain ⟨hm, hcm, hcount⟩ := hrange
    rw [i32_of_range hcount.1 hcount.2, i32_of_range hm.1 hm.2, i32_of_range hcm.1 hcm.2]

/-- The merged clip plays the merged track. -/
theorem mergeChannels_plays (type : SampleType) (clips : List AudioTrack) :
    (mergeChannels type clips).Plays type
      (TempBuffer.Fits (type.bytesPerAudioSample (mergedChannels clips)))
      (FitsChannels type (mergedChannels clips)) (mergedTrack type clips) := by
  intro t call ht hcall
  have hbps : 0 ≤ type.bytesPerAudioSample (mergedChannels clips) :=
    Int.mul_nonneg mergedChannels_nonneg type.bytesPerChannelSample_pos.le
  obtain ⟨hfits, hroom⟩ := ht.reserve hbps hcall
  have htotal : call.count * type.bytesPerAudioSample (mergedChannels clips) =
      (0 + mergedChannels clips) * (call.count * type.bytesPerChannelSample) := by
    rw [SampleType.bytesPerAudioSample]
    ring
  have hplaces := places_merged hcall
  rw [← Int.zero_add (mergedChannels clips)] at hplaces
  obtain ⟨t', clipOffset, hread, hallocated, hsize, -, hshows⟩ :=
    readClips_spec call.start rfl le_rfl hplaces
      (t := t.reserve (type.bytesPerAudioSample (mergedChannels clips)) call.count)
      (fun _ => by rw [← htotal]; exact hroom)
  have hwidth := totalWidth_clipColumns type call.start clips
  refine ⟨t', ⟨?_, ?_⟩, ?_⟩
  · rw [hsize, hallocated]
    exact hfits.room
  · rw [hsize]
    exact hfits.size_nonneg
  · have hcolumns := interleave_eq call.buf hcall le_rfl
      (by rw [Int.zero_add]; exact hwidth) hshows
    simp only [mergeChannels, hread, Option.bind_eq_bind, Option.bind_some]
    rw [hcolumns, ← hwidth, writeColumns_eq 0, hwidth]
    refine congrArg (fun buf => some (t', buf)) (Buffer.copy_congr fun x hx hlt => ?_)
    have hpos : type.bytesPerAudioSample (mergedChannels clips) ≠ 0 := by
      intro hzero
      rw [hzero, Int.mul_zero] at hlt
      omega
    rw [Int.zero_add, cellAt_clipColumns]
    simp only [mergedTrack]
    rw [Int.add_comm (call.start * _), Int.add_mul_ediv_right _ _ hpos, Int.add_mul_emod_self_right,
      Int.add_comm call.start]

end AviSynth
