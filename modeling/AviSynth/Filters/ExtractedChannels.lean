import AviSynth.Filters.AudioChannels
import AviSynth.Library.Runs

/-!
# Extracted channels

All loops of `GetChannel` write the samples of the listed channels. The channels of a clip that are
taken from the merged clip are the clip.
-/

namespace AviSynth

open MachineInt CountedLoop Columns Transition

variable {type : SampleType} {channels cbps srcBps count : ℤ}

/-- The track of the listed channels of audio. -/
def pickedTrack (type : SampleType) (list : ChannelList channels) (bytes : ℤ → UInt8) :
    AudioTrack where
  channels := list.numchannels
  channels_nonneg := list.num_nonneg
  bytes := fun j =>
    bytes (j / type.bytesPerAudioSample list.numchannels * type.bytesPerAudioSample channels +
      type.bytesPerChannelSample * list.channel
        (j % type.bytesPerAudioSample list.numchannels / type.bytesPerChannelSample) +
      j % type.bytesPerAudioSample list.numchannels % type.bytesPerChannelSample)

/-! ### Loops -/

section Loops

variable (list : ChannelList channels) (tempbuffer : ℤ → UInt8)

/-- The bytes of a frame that are picked. -/
def pickedFrame (cbps tbuff : ℤ) : ℤ → UInt8 := fun r =>
  tempbuffer (tbuff + cbps * list.channel (r / cbps) + r % cbps)

theorem pickSamples_eq (hcbps : 0 < cbps) (tbuff : ℤ) (w : Writer UInt8) :
    pickSamples list tempbuffer cbps tbuff w =
      w.append (pickedFrame list tempbuffer cbps tbuff) 0 (cbps * list.numchannels) := by
  have hloop : pickSamples list tempbuffer cbps tbuff w =
      w.append (roundCells (fun _ => tempbuffer) (fun k => tbuff + cbps * list.channel k) cbps 0) 0
        (cbps * (list.numchannels - 0)) :=
    forLoop_append hcbps.le list.num_nonneg fun _ _ => rfl
  rw [hloop, Int.sub_zero]
  refine congrArg (fun src => w.append src 0 _) (funext fun r => ?_)
  rw [roundCells, Int.zero_add]
  rfl

/-- Bytes one at a time are samples. -/
theorem pickBytes_eq (hcbps : 0 < cbps) (tbuff : ℤ) (w : Writer UInt8) :
    pickBytes list tempbuffer cbps tbuff w = pickSamples list tempbuffer cbps tbuff w := by
  refine forLoop_congr fun k w => ?_
  have hloop : forLoop (list.channel k * cbps) (list.channel k * cbps + cbps) 1
      (fun j w => Writer.append w tempbuffer (tbuff + j) 1) w =
        w.append (roundCells (fun _ => tempbuffer) (fun j => tbuff + j) 1 (list.channel k * cbps)) 0
          (1 * (list.channel k * cbps + cbps - list.channel k * cbps)) :=
    forLoop_append (by decide) (by omega) fun _ _ => rfl
  have hlength : 1 * (list.channel k * cbps + cbps - list.channel k * cbps) = cbps := by ring
  rw [hloop, hlength, Writer.append, Writer.append]
  congr 1
  refine Buffer.copy_congr fun j _ _ => ?_
  have hcell : tbuff + (list.channel k * cbps + (0 + j) / 1) + (0 + j) % 1 =
      tbuff + cbps * list.channel k + j := by
    rw [Int.zero_add, Int.ediv_one, Int.emod_one, Int.mul_comm cbps]
    omega
  rw [roundCells, hcell]

/-- Every loop writes the frames that are picked, one after the other. -/
theorem pickChannels_eq (hcbps : 0 < cbps) (hsrc : srcBps = channels * cbps) (hcount : 0 ≤ count)
    (w : Writer UInt8) :
    pickChannels list tempbuffer cbps srcBps count w =
      w.append (roundCells (fun i => pickedFrame list tempbuffer cbps (i * srcBps)) (fun _ => 0)
        (cbps * list.numchannels) 0) 0 (cbps * list.numchannels * count) := by
  have hframes : 0 ≤ cbps * list.numchannels := Int.mul_nonneg hcbps.le list.num_nonneg
  have hwhole : srcBps / cbps * cbps = srcBps := by
    rw [hsrc, Int.mul_ediv_cancel _ hcbps.ne']
  have hloop : forLoop 0 count 1 (fun i => pickSamples list tempbuffer cbps (i * srcBps)) w =
      w.append (roundCells (fun i => pickedFrame list tempbuffer cbps (i * srcBps)) (fun _ => 0)
        (cbps * list.numchannels) 0) 0 (cbps * list.numchannels * (count - 0)) :=
    forLoop_append hframes hcount fun i w => pickSamples_eq list tempbuffer hcbps (i * srcBps) w
  rw [Int.sub_zero] at hloop
  unfold pickChannels
  split_ifs with hnumber
  · rw [hwhole]
    exact hloop
  · rw [forLoop_congr fun i w => pickBytes_eq list tempbuffer hcbps (i * srcBps) w]
    exact hloop

theorem pickChannels_none (hcount : count ≤ 0) (w : Writer UInt8) :
    pickChannels list tempbuffer cbps srcBps count w = w := by
  unfold pickChannels
  rw [forLoop_empty (by decide) hcount, forLoop_empty (by decide) hcount, ite_self]

end Loops

/-! ### Calls -/

section Calls

variable {list : ChannelList channels} {bytes tempbuffer : ℤ → UInt8} {start j : ℤ}

/-- A byte that is picked, in the buffer and in the track. -/
theorem pickedByte_eq (hshows : Buffer.Shows tempbuffer 0 bytes
      (start * type.bytesPerAudioSample channels) (count * type.bytesPerAudioSample channels))
    (hj : 0 ≤ j) (hlt : j < count * type.bytesPerAudioSample list.numchannels) :
    pickedFrame list tempbuffer type.bytesPerChannelSample
        (j / type.bytesPerAudioSample list.numchannels * type.bytesPerAudioSample channels)
        (j % type.bytesPerAudioSample list.numchannels) =
      (pickedTrack type list bytes).bytes
        (start * type.bytesPerAudioSample list.numchannels + j) := by
  have hsize := type.bytesPerChannelSample_pos
  have hframe : 0 < type.bytesPerAudioSample list.numchannels := by
    have hnonneg : 0 ≤ type.bytesPerAudioSample list.numchannels :=
      Int.mul_nonneg list.num_nonneg hsize.le
    refine hnonneg.lt_of_ne' fun hzero => ?_
    rw [hzero, Int.mul_zero] at hlt
    omega
  have hrow : 0 ≤ j / type.bytesPerAudioSample list.numchannels :=
    Int.ediv_nonneg hj hframe.le
  have hrowLt : j / type.bytesPerAudioSample list.numchannels < count := by
    rw [Int.ediv_lt_iff_lt_mul hframe]
    exact hlt
  have hinRow : 0 ≤ j % type.bytesPerAudioSample list.numchannels :=
    Int.emod_nonneg j hframe.ne'
  have hinRowLt : j % type.bytesPerAudioSample list.numchannels <
      list.numchannels * type.bytesPerChannelSample := Int.emod_lt_of_pos j hframe
  have hrowPos : (start * type.bytesPerAudioSample list.numchannels + j) /
      type.bytesPerAudioSample list.numchannels =
        start + j / type.bytesPerAudioSample list.numchannels := by
    rw [Int.add_comm, Int.add_mul_ediv_right _ _ hframe.ne', Int.add_comm]
  have hcellPos : (start * type.bytesPerAudioSample list.numchannels + j) %
      type.bytesPerAudioSample list.numchannels =
        j % type.bytesPerAudioSample list.numchannels := by
    rw [Int.add_comm, Int.add_mul_emod_self_right]
  simp only [pickedTrack, hrowPos, hcellPos]
  generalize j / type.bytesPerAudioSample list.numchannels = p at hrow hrowLt ⊢
  generalize j % type.bytesPerAudioSample list.numchannels = r at hinRow hinRowLt ⊢
  have hk : 0 ≤ r / type.bytesPerChannelSample := Int.ediv_nonneg hinRow hsize.le
  have hkLt : r / type.bytesPerChannelSample < list.numchannels := by
    rw [Int.ediv_lt_iff_lt_mul hsize]
    exact hinRowLt
  obtain ⟨hchannel, hchannelLt⟩ := list.valid _ hk hkLt
  have hb := Int.emod_nonneg r hsize.ne'
  have hbLt := Int.emod_lt_of_pos r hsize
  -- The frame is one of those that were read, and the channel is in the frame.
  have hbefore : 0 ≤ p * type.bytesPerAudioSample channels :=
    Int.mul_nonneg hrow (Int.mul_nonneg (by omega) hsize.le)
  have hpick : 0 ≤ type.bytesPerChannelSample * list.channel (r / type.bytesPerChannelSample) :=
    Int.mul_nonneg hsize.le hchannel
  have hpickLt : type.bytesPerChannelSample *
      (list.channel (r / type.bytesPerChannelSample) + 1) ≤
        type.bytesPerAudioSample channels := by
    rw [SampleType.bytesPerAudioSample, Int.mul_comm channels]
    exact Int.mul_le_mul_of_nonneg_left (by omega) hsize.le
  have hframes : (p + 1) * type.bytesPerAudioSample channels ≤
      count * type.bytesPerAudioSample channels :=
    Int.mul_le_mul_of_nonneg_right (by omega) (Int.mul_nonneg (by omega) hsize.le)
  rw [Int.mul_add, Int.mul_one] at hpickLt
  rw [Int.add_mul, Int.one_mul] at hframes
  have hcell := hshows (p * type.bytesPerAudioSample channels +
    type.bytesPerChannelSample * list.channel (r / type.bytesPerChannelSample) +
      r % type.bytesPerChannelSample) (by omega) (by omega)
  rw [Int.zero_add] at hcell
  have hpos : start * type.bytesPerAudioSample channels +
      (p * type.bytesPerAudioSample channels +
        type.bytesPerChannelSample * list.channel (r / type.bytesPerChannelSample) +
        r % type.bytesPerChannelSample) =
      (start + p) * type.bytesPerAudioSample channels +
        type.bytesPerChannelSample * list.channel (r / type.bytesPerChannelSample) +
        r % type.bytesPerChannelSample := by ring
  rw [hpos] at hcell
  exact hcell

/-- What is written for the clip that is in the buffer. -/
theorem pickChannels_buf (hshows : Buffer.Shows tempbuffer 0 bytes
      (start * type.bytesPerAudioSample channels) (count * type.bytesPerAudioSample channels))
    (buf : ℤ → UInt8) :
    (pickChannels list tempbuffer type.bytesPerChannelSample (type.bytesPerAudioSample channels)
        count ⟨buf, 0⟩).buf =
      Buffer.copy buf 0 (pickedTrack type list bytes).bytes
        (start * type.bytesPerAudioSample list.numchannels)
        (count * type.bytesPerAudioSample list.numchannels) := by
  have hframe : type.bytesPerChannelSample * list.numchannels =
      type.bytesPerAudioSample list.numchannels := Int.mul_comm _ _
  have hsrc : type.bytesPerAudioSample channels = channels * type.bytesPerChannelSample := rfl
  obtain hnone | hsome := le_or_gt count 0
  · have hempty : count * type.bytesPerAudioSample list.numchannels ≤ 0 :=
      Int.mul_nonpos_of_nonpos_of_nonneg hnone
        (Int.mul_nonneg list.num_nonneg type.bytesPerChannelSample_pos.le)
    rw [pickChannels_none list tempbuffer hnone, Buffer.copy_empty _ _ _ _ hempty]
  · rw [pickChannels_eq list tempbuffer type.bytesPerChannelSample_pos hsrc hsome.le, hframe,
      Int.mul_comm _ count]
    refine Buffer.copy_congr fun j hj hlt => ?_
    rw [roundCells, Int.zero_add, Int.zero_add, Int.zero_add]
    exact pickedByte_eq hshows hj hlt

end Calls

/-- A call of a clip with a buffer of its own. -/
theorem getChannel_plays {σ : Type} (child : AudioSource σ) {Inv : σ → Prop} {track : AudioTrack}
    (hchannels : child.channels = track.channels)
    (hplays : child.Plays type Inv (FitsChannels type track.channels) track)
    (list : ChannelList child.channels) :
    (getChannel type child list).Plays type
      (fun s => Inv s.1 ∧ s.2.Fits (type.bytesPerAudioSample child.channels))
      (FitsChannels type child.channels) (pickedTrack type list track.bytes) := by
  rintro ⟨s, t⟩ call ⟨hs, ht⟩ hcall
  have hcbps := type.bytesPerChannelSample_pos
  have hbps : 0 ≤ type.bytesPerAudioSample child.channels := by
    rw [hchannels]
    exact Int.mul_nonneg track.channels_nonneg hcbps.le
  obtain ⟨hfits, hroom⟩ : (t.reserve (type.bytesPerAudioSample child.channels) call.count).Fits
      (type.bytesPerAudioSample child.channels) ∧ _ := TempBuffer.Fits.reserve ht hbps hcall
  simp only [getChannel]
  generalize t.reserve (type.bytesPerAudioSample child.channels) call.count = larger
    at hfits hroom ⊢
  have hhas : larger.HasRoom 0 (call.count * type.bytesPerAudioSample child.channels) :=
    fun _ => ⟨le_rfl, by omega⟩
  obtain ⟨s', hs', haudio⟩ := hplays s ⟨larger.cells, call.start, call.count⟩ hs
    (by rw [← hchannels]; exact hcall)
  rw [← hchannels] at haudio
  refine ⟨(s', ⟨Buffer.copy larger.cells 0 track.bytes
    (call.start * type.bytesPerAudioSample child.channels)
    (call.count * type.bytesPerAudioSample child.channels), larger.allocated, larger.size⟩),
    ⟨hs', hfits.room, hfits.size_nonneg⟩, ?_⟩
  simp only [guard, if_pos hhas, haudio, Option.bind_eq_bind, Option.bind_some, Option.pure_def]
  rw [pickChannels_buf (Buffer.shows_copy _ _ _ _ _)]
  rfl

/-!
## Sequences of requests for channels

Both filters keep a buffer between requests, which only grows. Whatever was requested before, the
samples of a request are those of the clips.
-/

/-- A request that was answered, or ended outside of a buffer. -/
structure SourceEvent where
  call : AudioCall
  result : Option (ℤ → UInt8)

/-- A clip answers a request. -/
def AudioSource.step {σ : Type} (source : AudioSource σ) (s : σ) (call : AudioCall) :
    Option (σ × SourceEvent) :=
  match source.getAudio s call with
  | some (s', buf) => some (s', ⟨call, some buf⟩)
  | none => some (s, ⟨call, none⟩)

/-- There is no request that a clip does not take. -/
theorem AudioSource.exists_step {σ : Type} (source : AudioSource σ) (s : σ) (call : AudioCall) :
    ∃ t e, source.step s call = some (t, e) := by
  unfold step
  cases source.getAudio s call with
  | none => exact ⟨_, _, rfl⟩
  | some _ => exact ⟨_, _, rfl⟩

/-- The bytes of a sample: channel `c` of frame `p`. -/
def AudioTrack.sample (type : SampleType) (track : AudioTrack) (p c b : ℤ) : UInt8 :=
  track.bytes ((p * track.channels + c) * type.bytesPerChannelSample + b)

/-- A request was answered, and what it returns for a channel `c` is given for each frame. -/
def SourceEvent.Returns (type : SampleType) (channels first numchannels : ℤ)
    (sample : ℤ → ℤ → ℤ → UInt8) (e : SourceEvent) : Prop :=
  ∃ buf, e.result = some buf ∧ ∀ p c b, 0 ≤ p ∧ p < e.call.count → 0 ≤ c ∧ c < numchannels →
    0 ≤ b ∧ b < type.bytesPerChannelSample →
      buf ((p * channels + (first + c)) * type.bytesPerChannelSample + b) =
        sample (e.call.start + p) c b

variable {type : SampleType} {clips : List AudioTrack} {track : AudioTrack} {p c b : ℤ}

/-- Every request of a run leaves the bytes of the track. -/
theorem AudioSource.Plays.run {σ : Type} {source : AudioSource σ} {Inv : σ → Prop}
    {fits : AudioCall → Prop} {start s : σ} {history : List SourceEvent} {P : SourceEvent → Prop}
    (hplays : source.Plays type Inv fits track) (hstart : Inv start)
    (hrun : Run source.step (fun _ call => fits call) start history s)
    (hP : ∀ call : AudioCall, P ⟨call, some (Buffer.copy call.buf 0 track.bytes
      (call.start * type.bytesPerAudioSample track.channels)
      (call.count * type.bytesPerAudioSample track.channels))⟩) :
    AllEvents (fun _ e => P e) history := by
  refine hrun.allEvents (fun _ s => Inv s) hstart ?_
  intro history s t call e hs hcall hstep
  obtain ⟨s', hs', haudio⟩ := hplays s call hs hcall
  simp only [AudioSource.step, haudio, Option.some.injEq, Prod.mk.injEq] at hstep
  obtain ⟨rfl, rfl⟩ := hstep
  exact ⟨hs', hP call⟩

/-! ### Samples -/

/-- Where a sample is in its frame. -/
theorem sample_pos (type : SampleType) {channels : ℤ} (hc : 0 ≤ c ∧ c < channels)
    (hb : 0 ≤ b ∧ b < type.bytesPerChannelSample) (p : ℤ) :
    ((p * channels + c) * type.bytesPerChannelSample + b) / type.bytesPerAudioSample channels = p ∧
      ((p * channels + c) * type.bytesPerChannelSample + b) %
        type.bytesPerAudioSample channels = c * type.bytesPerChannelSample + b := by
  have hsize := type.bytesPerChannelSample_pos
  have hlow : 0 ≤ c * type.bytesPerChannelSample := Int.mul_nonneg hc.1 hsize.le
  have hhigh : (c + 1) * type.bytesPerChannelSample ≤ type.bytesPerAudioSample channels :=
    Int.mul_le_mul_of_nonneg_right (by omega) hsize.le
  rw [Int.add_mul, Int.one_mul] at hhigh
  have hsplit : (p * channels + c) * type.bytesPerChannelSample + b =
      c * type.bytesPerChannelSample + b + p * type.bytesPerAudioSample channels := by
    rw [SampleType.bytesPerAudioSample]
    ring
  have hpos : type.bytesPerAudioSample channels ≠ 0 := by omega
  rw [hsplit, Int.add_mul_ediv_right _ _ hpos, Int.add_mul_emod_self_right,
    Int.ediv_eq_zero_of_lt (by omega) (by omega), Int.emod_eq_of_lt (by omega) (by omega),
    Int.zero_add]
  exact ⟨rfl, rfl⟩

/-- A sample of a copy of a track. -/
theorem sample_copy (track : AudioTrack) {buf : ℤ → UInt8} {start count : ℤ}
    (hp : 0 ≤ p ∧ p < count) (hc : 0 ≤ c ∧ c < track.channels)
    (hb : 0 ≤ b ∧ b < type.bytesPerChannelSample) :
    Buffer.copy buf 0 track.bytes (start * type.bytesPerAudioSample track.channels)
        (count * type.bytesPerAudioSample track.channels)
        ((p * track.channels + c) * type.bytesPerChannelSample + b) =
      track.sample type (start + p) c b := by
  have hsize := type.bytesPerChannelSample_pos
  have hframe : 0 ≤ p * type.bytesPerAudioSample track.channels :=
    Int.mul_nonneg hp.1 (Int.mul_nonneg track.channels_nonneg hsize.le)
  have hlast : (p + 1) * type.bytesPerAudioSample track.channels ≤
      count * type.bytesPerAudioSample track.channels :=
    Int.mul_le_mul_of_nonneg_right (by omega) (Int.mul_nonneg track.channels_nonneg hsize.le)
  have hlow : 0 ≤ c * type.bytesPerChannelSample := Int.mul_nonneg hc.1 hsize.le
  have hhigh : (c + 1) * type.bytesPerChannelSample ≤ type.bytesPerAudioSample track.channels :=
    Int.mul_le_mul_of_nonneg_right (by omega) hsize.le
  have hsplit : (p * track.channels + c) * type.bytesPerChannelSample + b =
      p * type.bytesPerAudioSample track.channels + (c * type.bytesPerChannelSample + b) := by
    rw [SampleType.bytesPerAudioSample]
    ring
  rw [Int.add_mul, Int.one_mul] at hlast hhigh
  have hcell := Buffer.shows_copy buf 0 track.bytes
    (start * type.bytesPerAudioSample track.channels)
    (count * type.bytesPerAudioSample track.channels)
    (p * type.bytesPerAudioSample track.channels + (c * type.bytesPerChannelSample + b))
    (by omega) (by omega)
  rw [Int.zero_add, ← hsplit] at hcell
  rw [hcell, AudioTrack.sample, SampleType.bytesPerAudioSample]
  congr 1
  ring

/-- A clip and the clips before it and behind it. -/
theorem clips_split {i : ℕ} (hi : i < clips.length) :
    clips = clips.take i ++ clips[i] :: clips.drop (i + 1) := by
  rw [← List.drop_eq_getElem_cons, List.take_append_drop]

theorem mergedChannels_append (before after : List AudioTrack) :
    mergedChannels (before ++ after) = mergedChannels before + mergedChannels after := by
  rw [mergedChannels, List.map_append, List.sum_append]
  rfl

/-- The channels of a clip are among those of the merged clip. -/
theorem offset_lt {i : ℕ} (hi : i < clips.length) (hc : 0 ≤ c ∧ c < clips[i].channels) :
    0 ≤ mergedChannels (clips.take i) + c ∧
      mergedChannels (clips.take i) + c < mergedChannels clips := by
  have hbefore : 0 ≤ mergedChannels (clips.take i) := mergedChannels_nonneg
  have hafter : 0 ≤ mergedChannels (clips.drop (i + 1)) := mergedChannels_nonneg
  have htotal : mergedChannels clips = mergedChannels (clips.take i) +
      (clips[i].channels + mergedChannels (clips.drop (i + 1))) := by
    rw [← mergedChannels_cons, ← mergedChannels_append, ← clips_split hi]
  omega

/-- A sample of the merged clip. -/
theorem mergedTrack_sample {i : ℕ} (hi : i < clips.length) (hc : 0 ≤ c ∧ c < clips[i].channels)
    (hb : 0 ≤ b ∧ b < type.bytesPerChannelSample) :
    (mergedTrack type clips).sample type p (mergedChannels (clips.take i) + c) b =
      clips[i].sample type p c b := by
  have hsize := type.bytesPerChannelSample_pos
  obtain ⟨hrow, hcell⟩ := sample_pos type (offset_lt hi hc) hb p
  have hbefore : (mergedChannels (clips.take i) + c) * type.bytesPerChannelSample + b =
      totalWidth (clipColumns type 0 (clips.take i)) + (c * type.bytesPerChannelSample + b) := by
    rw [totalWidth_clipColumns, SampleType.bytesPerAudioSample]
    ring
  have hlow : 0 ≤ c * type.bytesPerChannelSample := Int.mul_nonneg hc.1 hsize.le
  have hhigh : (c + 1) * type.bytesPerChannelSample ≤
      type.bytesPerAudioSample clips[i].channels :=
    Int.mul_le_mul_of_nonneg_right (by omega) hsize.le
  rw [Int.add_mul, Int.one_mul] at hhigh
  have hcolumns : clipColumns type 0 clips = clipColumns type 0 (clips.take i) ++
      clips[i].column type 0 :: clipColumns type 0 (clips.drop (i + 1)) := by
    rw [clipColumns, clipColumns, clipColumns, ← List.map_cons, ← List.map_append,
      ← clips_split hi]
  have hcolumn : cellAt 0 (clipColumns type 0 clips) p
      (totalWidth (clipColumns type 0 (clips.take i)) + (c * type.bytesPerChannelSample + b)) =
        (clips[i].column type 0).cell p (c * type.bytesPerChannelSample + b) := by
    rw [hcolumns]
    exact cellAt_column (by omega) (lt_of_lt_of_le (by omega) hhigh)
  have hbytes : (mergedTrack type clips).sample type p (mergedChannels (clips.take i) + c) b =
      cellAt 0 (clipColumns type 0 clips) p
        ((mergedChannels (clips.take i) + c) * type.bytesPerChannelSample + b) := by
    have hdef (x : ℤ) : (mergedTrack type clips).bytes x = cellAt 0 (clipColumns type 0 clips)
        (x / type.bytesPerAudioSample (mergedChannels clips))
        (x % type.bytesPerAudioSample (mergedChannels clips)) := rfl
    have htotal : (mergedTrack type clips).channels = mergedChannels clips := rfl
    rw [AudioTrack.sample, htotal, hdef, hrow, hcell]
  rw [hbytes, hbefore, hcolumn]
  change clips[i].bytes ((0 + p) * (clips[i].channels * type.bytesPerChannelSample) +
    (c * type.bytesPerChannelSample + b)) = _
  rw [AudioTrack.sample]
  congr 1
  ring

/-- A sample of the listed channels. -/
theorem pickedTrack_sample (track : AudioTrack) (list : ChannelList track.channels) {k : ℤ}
    (hk : 0 ≤ k ∧ k < list.numchannels) (hb : 0 ≤ b ∧ b < type.bytesPerChannelSample) :
    (pickedTrack type list track.bytes).sample type p k b =
      track.sample type p (list.channel k) b := by
  have hsize := type.bytesPerChannelSample_pos
  obtain ⟨hrow, hcell⟩ := sample_pos type hk hb p
  have hchannel : (k * type.bytesPerChannelSample + b) / type.bytesPerChannelSample = k := by
    rw [Int.add_comm, Int.add_mul_ediv_right _ _ hsize.ne', Int.ediv_eq_zero_of_lt hb.1 hb.2,
      Int.zero_add]
  have hbyte : (k * type.bytesPerChannelSample + b) % type.bytesPerChannelSample = b := by
    rw [Int.add_comm, Int.add_mul_emod_self_right, Int.emod_eq_of_lt hb.1 hb.2]
  simp only [AudioTrack.sample, pickedTrack, hrow, hcell, hchannel, hbyte]
  congr 1
  rw [SampleType.bytesPerAudioSample]
  ring

/-! ### Requests -/

/-- The channels of a clip in the merged clip. -/
def clipChannels (clips : List AudioTrack) (i : ℕ) (hi : i < clips.length) :
    ChannelList (mergedChannels clips) where
  channel := fun k => mergedChannels (clips.take i) + k
  numchannels := clips[i].channels
  num_nonneg := clips[i].channels_nonneg
  valid := fun _ hk hlt => offset_lt hi ⟨hk, hlt⟩

/-- In every sequence of requests whose bytes are counted by an int, the merged clip returns the
channels of all clips, a list of channels returns the listed ones, and the channels of a clip that
are taken from the merged clip are the clip. -/
theorem channels_merged_and_extracted (type : SampleType) :
    (∀ (clips : List AudioTrack) (history : List SourceEvent) (t : TempBuffer),
      Run (mergeChannels type clips).step
          (fun _ call => FitsChannels type (mergedChannels clips) call) .init history t →
        AllEvents (fun _ e => ∀ (i : ℕ) (hi : i < clips.length),
          e.Returns type (mergedChannels clips) (mergedChannels (clips.take i)) clips[i].channels
            (clips[i].sample type)) history) ∧
    (∀ (track : AudioTrack) (list : ChannelList track.channels) (history : List SourceEvent)
      (s : Unit × TempBuffer),
      Run (getChannel type (track.source type) list).step
          (fun _ call => FitsChannels type track.channels call) ((), .init) history s →
        AllEvents (fun _ e => e.Returns type list.numchannels 0 list.numchannels
          (fun p k b => track.sample type p (list.channel k) b)) history) ∧
    (∀ (clips : List AudioTrack) (i : ℕ) (hi : i < clips.length) (history : List SourceEvent)
      (s : TempBuffer × TempBuffer),
      Run (getChannel type (mergeChannels type clips) (clipChannels clips i hi)).step
          (fun _ call => FitsChannels type (mergedChannels clips) call) (.init, .init) history s →
        AllEvents (fun _ e => e.Returns type clips[i].channels 0 clips[i].channels
          (clips[i].sample type)) history) := by
  refine ⟨?_, ?_, ?_⟩
  · intro clips history t hrun
    refine (mergeChannels_plays type clips).run (TempBuffer.fits_init _) hrun ?_
    intro call i hi
    refine ⟨_, rfl, fun p c b hp hc hb => ?_⟩
    rw [← mergedTrack_sample hi hc hb]
    exact sample_copy (mergedTrack type clips) hp (offset_lt hi hc) hb
  · intro track list history s hrun
    have hplays := getChannel_plays (track.source type) rfl (source_plays type track _) list
    refine hplays.run ⟨trivial, TempBuffer.fits_init _⟩ hrun ?_
    intro call
    refine ⟨_, rfl, fun p k b hp hk hb => ?_⟩
    rw [Int.zero_add]
    exact (sample_copy (pickedTrack type list track.bytes) hp hk hb).trans
      (pickedTrack_sample track list hk hb)
  · intro clips i hi history s hrun
    have hmerged : (mergeChannels type clips).channels = (mergedTrack type clips).channels := rfl
    have hplays := getChannel_plays (mergeChannels type clips) hmerged
      (mergeChannels_plays type clips) (clipChannels clips i hi)
    refine hplays.run ⟨TempBuffer.fits_init _, TempBuffer.fits_init _⟩ hrun ?_
    intro call
    refine ⟨_, rfl, fun p k b hp hk hb => ?_⟩
    rw [Int.zero_add]
    have hpicked := pickedTrack_sample (p := call.start + p) (mergedTrack type clips)
      (clipChannels clips i hi) hk hb
    exact (sample_copy (pickedTrack type (clipChannels clips i hi) (mergedTrack type clips).bytes)
      hp hk hb).trans (hpicked.trans (mergedTrack_sample hi hk hb))

/-- A clip with one channel whose bytes are all the same. -/
def monoTrack (byte : UInt8) : AudioTrack := ⟨1, by decide, fun _ => byte⟩

/-- A request for two frames, and one for three, of two clips. -/
theorem channels_merged_two : ∃ history t,
    Run (mergeChannels .int16 [monoTrack 1, monoTrack 2]).step
        (fun _ call => FitsChannels .int16 2 call) .init history t ∧
      history.length = 2 ∧
      AllEvents (fun _ e => ∀ (i : ℕ) (hi : i < [monoTrack 1, monoTrack 2].length),
        e.Returns .int16 2 (mergedChannels ([monoTrack 1, monoTrack 2].take i))
          [monoTrack 1, monoTrack 2][i].channels
          ([monoTrack 1, monoTrack 2][i].sample .int16)) history := by
  have hrun : ∃ history t, Run (mergeChannels .int16 [monoTrack 1, monoTrack 2]).step
      (fun _ call => FitsChannels .int16 2 call) .init history t ∧ history.length = 2 := by
    have htwo : FitsChannels .int16 2 ⟨fun _ => 0, 0, 2⟩ := by constructor <;> decide
    have hthree : FitsChannels .int16 2 ⟨fun _ => 0, 7, 3⟩ := by constructor <;> decide
    obtain ⟨t, e, hstep⟩ := (mergeChannels .int16 [monoTrack 1, monoTrack 2]).exists_step .init
      ⟨fun _ => 0, 0, 2⟩
    obtain ⟨t', e', hstep'⟩ := (mergeChannels .int16 [monoTrack 1, monoTrack 2]).exists_step t
      ⟨fun _ => 0, 7, 3⟩
    refine ⟨[e', e], t', Run.step ?_ hthree hstep', rfl⟩
    exact Run.step Run.init htwo hstep
  obtain ⟨history, t, hrun, hlength⟩ := hrun
  exact ⟨history, t, hrun, hlength, (channels_merged_and_extracted .int16).1 _ history t hrun⟩

end AviSynth
