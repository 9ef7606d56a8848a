import AviSynth.Cache.AudioCache
import AviSynth.Library.Runs
import AviSynth.Library.SequentialReads
import Mathlib.Tactic.Ring

/-!
# `EnsureVBRMP3Sync`

The filter reads the audio of its child in order. For a request that does not start where the last
one ended it reads what lies before the start, and does not keep it: from the end of the last
request on, or from the beginning of the clip.
-/

namespace AviSynth

open MachineInt SequentialReads

/-- `BIGBUFFSIZE`. -/
def bigBuffSize : ℤ := 2048 * 1024

/-- Where samples are read to: the buffer of the client, or one that is allocated for what is not
kept. -/
inductive AudioTarget where
  | buf
  | samples
  deriving DecidableEq

/-- A call of `GetAudio`, with what may happen during the call. -/
structure AudioRequest where
  start : ℤ
  count : ℤ
  buf : ℤ → UInt8
  /-- `new(std::nothrow)` finds memory. -/
  allocates : Bool
  /-- The read of the child, counted from 0, that ends with an exception. -/
  throws : Option ℕ
  start_int64 : IsInt64 start
  count_int64 : IsInt64 count

/-- What a read of the child writes, from all reads before it on. -/
abbrev AudioChild := List (Read AudioTarget) → Read AudioTarget → ℤ → UInt8

/-- The fields of the filter, and all reads of its child. -/
structure EnsureVbrMp3Sync where
  lastEnd : ℤ
  reads : List (Read AudioTarget)

/-- A call that has not ended: the reads of the child in it, and the two buffers. -/
structure SyncCall where
  reads : List (Read AudioTarget)
  buf : ℤ → UInt8
  samples : ℤ → UInt8

/-- The call after the first bytes of one of the buffers were written. -/
def SyncCall.write (c : SyncCall) (into : AudioTarget) (written : ℤ → UInt8) (bytes : ℤ) :
    SyncCall :=
  match into with
  | .buf => { c with buf := Buffer.copy c.buf 0 written 0 bytes }
  | .samples => { c with samples := Buffer.copy c.samples 0 written 0 bytes }

@[simp] theorem SyncCall.write_reads (c : SyncCall) (into : AudioTarget) (written : ℤ → UInt8)
    (bytes : ℤ) : (c.write into written bytes).reads = c.reads := by
  cases into <;> rfl

/-- How a call ends. The internal error is "EnsureVBRMP3Sync [Internal error]: Offset should be
%i, but is %i". -/
inductive SyncOutcome where
  | returned (buf : ℤ → UInt8)
  | threw
  | internalError (start offset : ℤ)
  | hangs

/-- A call that has ended. -/
structure SyncEvent where
  request : AudioRequest
  before : List (Read AudioTarget)
  reads : List (Read AudioTarget)
  outcome : SyncOutcome

namespace EnsureVbrMp3Sync

variable (vi : AudioInfo) (child : AudioChild) (s : EnsureVbrMp3Sync) (req : AudioRequest)

/-- `child->GetAudio`. -/
def childGetAudio (into : AudioTarget) (start count : ℤ) (c : SyncCall) :
    Except (SyncOutcome × SyncCall) SyncCall :=
  if req.throws = some c.reads.length then
    .error (.threw, { c with reads := c.reads ++ [⟨start, count, into, false⟩] })
  else
    let r : Read AudioTarget := ⟨start, count, into, true⟩
    .ok ({ c with reads := c.reads ++ [r] }.write into (child (s.reads ++ c.reads) r)
      (count * vi.bytesPerAudioSample))

/-- `while (offset + bcount < start)`. A loop that has made as many rounds as there are samples to
be skipped does not move. -/
def readBlocks (into : AudioTarget) (bcount : ℤ) : ℕ → ℤ → SyncCall →
    Except (SyncOutcome × SyncCall) (ℤ × SyncCall)
  | rounds, offset, c =>
    if i64 (offset + bcount) < req.start then
      match rounds with
      | 0 => .error (.hangs, c)
      | rounds + 1 =>
        (childGetAudio vi child s req into offset bcount c).bind
          (readBlocks into bcount rounds (i64 (offset + bcount)))
    else .ok (offset, c)

/-- Where the reads of a request that does not start at the last end begin. -/
def syncOffset (lastEnd start : ℤ) : ℤ := if start > lastEnd then lastEnd else 0

/-- `bigbuff`. -/
def usesBigBuff : Bool :=
  req.count < i64 (req.start - syncOffset s.lastEnd req.start) ∧
    vi.bytesFromAudioSamples req.count < bigBuffSize ∧ req.allocates

/-- `samples`. -/
def syncTarget : AudioTarget := if usesBigBuff vi s req then .samples else .buf

/-- `bcount`. -/
def syncBlock : ℤ :=
  if usesBigBuff vi s req then vi.audioSamplesFromBytes bigBuffSize else req.count

/-- `Reread!` -/
def reread (c : SyncCall) : Except (SyncOutcome × SyncCall) SyncCall :=
  let offset := syncOffset s.lastEnd req.start
  let into := syncTarget vi s req
  let rounds := (req.start - offset).toNat
  (readBlocks vi child s req into (syncBlock vi s req) rounds offset c).bind fun (offset, c) =>
    (childGetAudio vi child s req into offset (i64 (req.start - offset)) c).bind fun c =>
      let offset := i64 (offset + i64 (req.start - offset))
      if offset ≠ req.start then .error (.internalError req.start offset, c) else .ok c

/-- `EnsureVBRMP3Sync::GetAudio`. -/
def getAudio : Except (SyncOutcome × SyncCall) SyncCall :=
  let c : SyncCall := ⟨[], req.buf, fun _ => 0⟩
  (if req.start ≠ s.lastEnd then reread vi child s req c else .ok c).bind
    (childGetAudio vi child s req .buf req.start req.count)

/-- A call, and the filter after it. Only a call that returns sets `last_end`. -/
def step : Option (EnsureVbrMp3Sync × SyncEvent) :=
  match s.getAudio vi child req with
  | .ok c => some (⟨i64 (req.start + req.count), s.reads ++ c.reads⟩,
      ⟨req, s.reads, c.reads, .returned c.buf⟩)
  | .error (outcome, c) => some (⟨s.lastEnd, s.reads ++ c.reads⟩, ⟨req, s.reads, c.reads, outcome⟩)

/-- The filter when it is made. -/
def init : EnsureVbrMp3Sync := ⟨0, []⟩

end EnsureVbrMp3Sync

/-!
## The reads of `EnsureVBRMP3Sync`

A call that is not interrupted after one of its reads leaves the child where the filter believes
it to be. In runs of such calls the child is read in order, and its samples are right even if it
can only be read in order.
-/

/-- The bytes that are there for a read. -/
def AudioTarget.capacity (vi : AudioInfo) (req : AudioRequest) : AudioTarget → ℤ
  | .buf => req.count * vi.bytesPerAudioSample
  | .samples => bigBuffSize

/-- So many samples fit into a buffer. -/
def AudioTarget.Holds (vi : AudioInfo) (req : AudioRequest) (into : AudioTarget) (n : ℤ) : Prop :=
  0 < n → n * vi.bytesPerAudioSample ≤ into.capacity vi req

/-- A read of so many samples stays inside its buffer, and does not go back unless the request
does. -/
def AudioTarget.Allows (vi : AudioInfo) (req : AudioRequest) (into : AudioTarget) (n : ℤ) : Prop :=
  into.Holds vi req n ∧ (0 ≤ req.count → 0 ≤ n)

/-- A child that plays its audio when it is read in order. -/
def AudioChild.Plays (child : AudioChild) (vi : AudioInfo) (audio : ℤ → UInt8) : Prop :=
  ∀ before r, Sequential 0 (before ++ [r]) → r.answered →
    ∀ i, 0 ≤ i → i < r.count * vi.bytesPerAudioSample →
      child before r i = audio (r.start * vi.bytesPerAudioSample + i)

/-- What is demanded of a call. -/
structure SyncEvent.Correct (vi : AudioInfo) (audio : ℤ → UInt8) (e : SyncEvent) : Prop where
  /-- The reads go on where the child is. Only a request that starts before begins again at 0. -/
  gapless : Follows (if e.request.start < position 0 e.before then 0 else position 0 e.before)
    e.reads
  ascending : 0 ≤ e.request.count → ∀ r ∈ e.reads, 0 ≤ r.count
  inside : ∀ r ∈ e.reads, r.into.Holds vi e.request r.count
  samples : ∀ buf, e.outcome = .returned buf →
    ∀ i, 0 ≤ i → i < e.request.count * vi.bytesPerAudioSample →
      buf i = audio (e.request.start * vi.bytesPerAudioSample + i)
  ends : (∃ buf, e.outcome = .returned buf) ∨ e.outcome = .threw ∧ e.request.throws ≠ none

namespace EnsureVbrMp3Sync

/-- A request that the filter can serve in its state: it does not go back before the beginning, the
sums and differences of positions are numbers of 64 bits, a block that is skipped has samples, and
the child throws in the first read of the call or not at all. -/
structure Serves (vi : AudioInfo) (s : EnsureVbrMp3Sync) (req : AudioRequest) : Prop where
  rewinds : 0 ≤ req.start ∨ s.lastEnd ≤ req.start
  difference : IsInt64 (req.start - syncOffset s.lastEnd req.start)
  stop : IsInt64 (req.start + req.count)
  sums : ∀ k : ℕ,
    syncOffset s.lastEnd req.start + k * syncBlock vi s req < req.start →
      syncOffset s.lastEnd req.start + k * syncBlock vi s req + syncBlock vi s req < 2 ^ 63
  moves : 0 < syncBlock vi s req ∨
    req.start ≤ syncOffset s.lastEnd req.start + syncBlock vi s req
  first : ∀ k, req.throws = some k → k = 0

variable {vi : AudioInfo} {child : AudioChild} {s : EnsureVbrMp3Sync} {req : AudioRequest}
  {c : SyncCall} {into : AudioTarget} {b p n bcount offset : ℤ}

/-- A call whose reads follow each other from `b` to `p`. -/
structure Reaches (vi : AudioInfo) (req : AudioRequest) (b p : ℤ) (c : SyncCall) : Prop where
  follows : Follows b c.reads
  position_eq : position b c.reads = p
  inside : ∀ r ∈ c.reads, r.into.Allows vi req r.count

theorem reaches_start (h : c.reads = []) : Reaches vi req p p c := by
  refine ⟨?_, ?_, ?_⟩ <;> rw [h]
  · trivial
  · rfl
  · nofun

/-! ### One read -/

/-- A read that is answered. -/
theorem childGetAudio_ok (child : AudioChild) (s : EnsureVbrMp3Sync)
    (hthrows : req.throws = none) (h : Reaches vi req b p c) (hn : into.Allows vi req n) :
    ∃ c', childGetAudio vi child s req into p n c = .ok c' ∧ Reaches vi req b (p + n) c' ∧
      c'.reads = c.reads ++ [⟨p, n, into, true⟩] ∧
      (into = .buf → c'.buf = Buffer.copy c.buf 0
        (child (s.reads ++ c.reads) ⟨p, n, into, true⟩) 0 (n * vi.bytesPerAudioSample)) := by
  have hok : childGetAudio vi child s req into p n c =
      .ok (SyncCall.write { c with reads := c.reads ++ [⟨p, n, into, true⟩] } into
        (child (s.reads ++ c.reads) ⟨p, n, into, true⟩) (n * vi.bytesPerAudioSample)) := by
    rw [childGetAudio, hthrows, if_neg nofun]
  refine ⟨_, hok, ⟨?_, ?_, ?_⟩, SyncCall.write_reads _ _ _ _, ?_⟩
  · rw [SyncCall.write_reads]
    exact h.follows.snoc h.position_eq.symm
  · rw [SyncCall.write_reads, position_snoc]
    rfl
  · intro r hr
    rw [SyncCall.write_reads, List.mem_append, List.mem_singleton] at hr
    obtain hr | rfl := hr
    · exact h.inside r hr
    · exact hn
  · rintro rfl
    rfl

/-- The first read, and the child throws. -/
theorem childGetAudio_threw (vi : AudioInfo) (child : AudioChild) (s : EnsureVbrMp3Sync)
    (into : AudioTarget) (p n : ℤ) (hthrows : req.throws = some 0) (hc : c.reads = []) :
    childGetAudio vi child s req into p n c =
      .error (.threw, { c with reads := [⟨p, n, into, false⟩] }) := by
  simp [childGetAudio, hthrows, hc]

/-! ### Blocks -/

/-- All blocks are read. -/
theorem readBlocks_ok (child : AudioChild) (s : EnsureVbrMp3Sync) (hthrows : req.throws = none)
    (hholds : ∀ m, m ≤ bcount → into.Holds vi req m) {rounds : ℕ} (h : Reaches vi req b offset c)
    (hrounds : (req.start - offset).toNat ≤ rounds) (hsum : IsInt64 (offset + bcount))
    (hsums : ∀ k : ℕ, offset + k * bcount < req.start → offset + k * bcount + bcount < 2 ^ 63)
    (hmoves : 0 < bcount ∨ req.start ≤ offset + bcount) :
    ∃ p c', readBlocks vi child s req into bcount rounds offset c = .ok (p, c') ∧
      Reaches vi req b p c' ∧ req.start ≤ p + bcount ∧ offset ≤ p ∧
      (p = offset ∨ p < req.start) := by
  induction rounds generalizing offset c with
  | zero =>
    rw [readBlocks, i64_of_range hsum.1 hsum.2, if_neg (by omega)]
    exact ⟨offset, c, rfl, h, by omega, Int.le_refl _, Or.inl rfl⟩
  | succ rounds ih =>
    rw [readBlocks, i64_of_range hsum.1 hsum.2]
    split_ifs with hmore
    · have hpos : 0 < bcount := by omega
      obtain ⟨c', hok, hreaches, -, -⟩ :=
        childGetAudio_ok child s hthrows h ⟨hholds bcount (Int.le_refl _), fun _ => hpos.le⟩
      have hnext : offset + bcount + bcount < 2 ^ 63 := by
        have hsecond := hsums 1
        rw [Nat.cast_one, one_mul] at hsecond
        exact hsecond hmore
      have hlow := hsum.1
      obtain ⟨p, c'', hread, hreaches', hstart, hle, hp⟩ :=
        ih hreaches (by omega) ⟨by omega, hnext⟩ (fun k hk => by
          have hsucc := hsums (k + 1)
          have hshift : offset + (k + 1 : ℕ) * bcount = offset + bcount + k * bcount := by
            push_cast
            ring
          rw [hshift] at hsucc
          exact hsucc hk) (Or.inl hpos)
      refine ⟨p, c'', ?_, hreaches', hstart, by omega, by omega⟩
      simp only [hok, Except.bind]
      exact hread
    · exact ⟨offset, c, rfl, h, by omega, Int.le_refl _, Or.inl rfl⟩

/-- There is no block, or the child throws in the first one. -/
theorem readBlocks_threw (vi : AudioInfo) (child : AudioChild) (s : EnsureVbrMp3Sync)
    (into : AudioTarget) (hthrows : req.throws = some 0) (hc : c.reads = []) {rounds : ℕ}
    (hrounds : (req.start - offset).toNat ≤ rounds) (hsum : IsInt64 (offset + bcount))
    (hmoves : 0 < bcount ∨ req.start ≤ offset + bcount) :
    readBlocks vi child s req into bcount rounds offset c = .ok (offset, c) ∧
        req.start ≤ offset + bcount ∨
      readBlocks vi child s req into bcount rounds offset c =
        .error (.threw, { c with reads := [⟨offset, bcount, into, false⟩] }) := by
  unfold readBlocks
  rw [i64_of_range hsum.1 hsum.2]
  split_ifs with hmore
  · right
    cases rounds with
    | zero => omega
    | succ rounds =>
      dsimp only
      rw [childGetAudio_threw vi child s into offset bcount hthrows hc]
      rfl
  · exact Or.inl ⟨rfl, by omega⟩

/-! ### A whole call -/

/-- Where the reads of a call begin. -/
def syncBase (lastEnd start : ℤ) : ℤ := if start < lastEnd then 0 else lastEnd

theorem syncOffset_eq {lastEnd start : ℤ} (h : start ≠ lastEnd) :
    syncOffset lastEnd start = syncBase lastEnd start := by
  unfold syncOffset syncBase
  split_ifs <;> omega

/-- What is read first does not lie behind the start. -/
theorem Serves.offset_le (h : s.Serves vi req) (hne : req.start ≠ s.lastEnd) :
    syncOffset s.lastEnd req.start ≤ req.start := by
  have hrewinds := h.rewinds
  unfold syncOffset
  split_ifs <;> omega

theorem syncBlock_nonneg (hcount : 0 ≤ req.count) : 0 ≤ syncBlock vi s req := by
  unfold syncBlock AudioInfo.audioSamplesFromBytes
  split_ifs with hbig haudio
  · exact Int.tdiv_nonneg (by decide) (vi.bytes_pos haudio).le
  · exact Int.le_refl _
  · exact hcount

/-- A block fits into the buffer it is read to. -/
theorem holds_syncBlock (hbytes : 0 ≤ vi.bytesPerAudioSample) {m : ℤ}
    (hm : m ≤ syncBlock vi s req) : (syncTarget vi s req).Holds vi req m := by
  intro hpos
  have hle : m * vi.bytesPerAudioSample ≤ syncBlock vi s req * vi.bytesPerAudioSample :=
    Int.mul_le_mul_of_nonneg_right hm hbytes
  refine hle.trans ?_
  unfold syncBlock syncTarget at *
  split_ifs at hm ⊢ with hbig
  · unfold AudioInfo.audioSamplesFromBytes at hm ⊢
    split_ifs at hm ⊢ with haudio
    · rw [Int.tdiv_eq_ediv_of_nonneg (by decide)]
      exact Int.ediv_mul_le _ (vi.bytes_pos haudio).ne'
    · omega
  · exact Int.le_refl _

/-- The position that the first sum of the loop is. -/
theorem isInt64_firstSum (h : s.Serves vi req) (hend : IsInt64 s.lastEnd) :
    IsInt64 (syncOffset s.lastEnd req.start + syncBlock vi s req) := by
  have hblock : IsInt64 (syncBlock vi s req) := by
    unfold syncBlock AudioInfo.audioSamplesFromBytes
    split_ifs with hbig haudio
    · rw [Int.tdiv_eq_ediv_of_nonneg (by decide)]
      have hlow : 0 ≤ bigBuffSize / vi.bytesPerAudioSample :=
        Int.ediv_nonneg (by decide) (vi.bytes_pos haudio).le
      have hhigh : bigBuffSize / vi.bytesPerAudioSample ≤ bigBuffSize :=
        Int.ediv_le_self _ (by decide)
      unfold bigBuffSize at *
      exact ⟨by omega, by omega⟩
    · exact ⟨by decide, by decide⟩
    · exact req.count_int64
  have hmoves := h.moves
  have hsum := h.sums 0
  have hstart := req.start_int64.1
  rw [Nat.cast_zero, zero_mul, add_zero] at hsum
  by_cases hforward : req.start > s.lastEnd
  · rw [syncOffset, if_pos hforward] at hmoves hsum ⊢
    have hlow := hend.1
    exact ⟨by omega, hsum hforward⟩
  · rw [syncOffset, if_neg hforward, zero_add]
    exact hblock

variable (child) (hend : IsInt64 s.lastEnd) (hserves : s.Serves vi req)
  (hbytes : 0 ≤ vi.bytesPerAudioSample)

include hend hserves hbytes

/-- What lies before the start is read. -/
theorem reread_ok (hne : req.start ≠ s.lastEnd) (hthrows : req.throws = none) (hc : c.reads = []) :
    ∃ c', reread vi child s req c = .ok c' ∧
      Reaches vi req (syncOffset s.lastEnd req.start) req.start c' := by
  obtain ⟨p, c₁, hblocks, hreaches, hstart, hle, hp⟩ :=
    readBlocks_ok child s hthrows (fun m hm => holds_syncBlock hbytes hm)
      (reaches_start hc) (Nat.le_refl _) (isInt64_firstSum hserves hend) hserves.sums hserves.moves
  have hrest : i64 (req.start - p) = req.start - p := by
    have hdifference := hserves.difference
    refine i64_of_range ?_ ?_
    · obtain rfl | hlt := hp
      · exact hdifference.1
      · omega
    · exact lt_of_le_of_lt (by omega) hdifference.2
  have hback := hserves.offset_le hne
  have hholds : (syncTarget vi s req).Allows vi req (req.start - p) :=
    ⟨holds_syncBlock hbytes (by omega), fun _ => by omega⟩
  obtain ⟨c₂, hok, hreaches', -, -⟩ := childGetAudio_ok child s hthrows hreaches hholds
  have hoffset : i64 (p + (req.start - p)) = req.start := by
    rw [add_sub_cancel]
    exact i64_of_range req.start_int64.1 req.start_int64.2
  rw [add_sub_cancel] at hreaches'
  refine ⟨c₂, ?_, hreaches'⟩
  simp only [reread, hblocks, Except.bind, hrest, hok, hoffset]
  exact if_neg (not_not_intro rfl)

/-- The child throws in the first read before the start. -/
theorem reread_threw (hne : req.start ≠ s.lastEnd) (hthrows : req.throws = some 0)
    (hc : c.reads = []) :
    ∃ n, reread vi child s req c = .error (.threw, { c with reads :=
        [⟨syncOffset s.lastEnd req.start, n, syncTarget vi s req, false⟩] }) ∧
      (syncTarget vi s req).Allows vi req n := by
  have hback := hserves.offset_le hne
  obtain ⟨hnone, hle⟩ | hthrew := readBlocks_threw vi child s (syncTarget vi s req) hthrows hc
    (Nat.le_refl _) (isInt64_firstSum hserves hend) hserves.moves
  · have hrest : i64 (req.start - syncOffset s.lastEnd req.start) =
        req.start - syncOffset s.lastEnd req.start :=
      i64_of_range hserves.difference.1 hserves.difference.2
    refine ⟨req.start - syncOffset s.lastEnd req.start, ?_, holds_syncBlock hbytes (by omega),
      fun _ => by omega⟩
    simp only [reread, hnone, Except.bind, hrest,
      childGetAudio_threw vi child s _ _ _ hthrows hc]
  · refine ⟨syncBlock vi s req, ?_, holds_syncBlock hbytes (Int.le_refl _), syncBlock_nonneg⟩
    simp only [reread, hthrew, Except.bind]

/-- A call that returns. -/
theorem getAudio_ok (hthrows : req.throws = none) :
    ∃ c c', s.getAudio vi child req = .ok c' ∧
      Reaches vi req (syncBase s.lastEnd req.start) req.start c ∧
      Reaches vi req (syncBase s.lastEnd req.start) (req.start + req.count) c' ∧
      c'.reads = c.reads ++ [⟨req.start, req.count, .buf, true⟩] ∧
      c'.buf = Buffer.copy c.buf 0 (child (s.reads ++ c.reads)
        ⟨req.start, req.count, .buf, true⟩) 0 (req.count * vi.bytesPerAudioSample) := by
  have hfirst : ∃ c, (if req.start ≠ s.lastEnd then
      reread vi child s req ⟨[], req.buf, fun _ => 0⟩ else .ok ⟨[], req.buf, fun _ => 0⟩) = .ok c ∧
        Reaches vi req (syncBase s.lastEnd req.start) req.start c := by
    split_ifs with hne
    · rw [← syncOffset_eq hne]
      exact reread_ok child hend hserves hbytes hne hthrows rfl
    · have hbase : syncBase s.lastEnd req.start = req.start := by
        unfold syncBase
        split_ifs <;> omega
      rw [hbase]
      exact ⟨_, rfl, reaches_start rfl⟩
  obtain ⟨c, hc, hreaches⟩ := hfirst
  have hholds : AudioTarget.buf.Allows vi req req.count := ⟨fun _ => Int.le_refl _, id⟩
  obtain ⟨c', hok, hreaches', hreads, hbuf⟩ :=
    childGetAudio_ok child s hthrows hreaches hholds
  refine ⟨c, c', ?_, hreaches, hreaches', hreads, hbuf rfl⟩
  unfold getAudio
  dsimp only
  rw [hc]
  exact hok

/-- A call that ends in its first read. -/
theorem getAudio_threw (hthrows : req.throws = some 0) :
    ∃ n into c', s.getAudio vi child req = .error (.threw, c') ∧
      c'.reads = [⟨syncBase s.lastEnd req.start, n, into, false⟩] ∧
      into.Allows vi req n := by
  by_cases hne : req.start ≠ s.lastEnd
  · let c : SyncCall := ⟨[], req.buf, fun _ => 0⟩
    have hc : c.reads = [] := rfl
    obtain ⟨n, hthrew, hholds⟩ := reread_threw child hend hserves hbytes hne hthrows hc
    rw [syncOffset_eq hne] at hthrew
    refine ⟨n, syncTarget vi s req, { c with
      reads := [⟨syncBase s.lastEnd req.start, n, syncTarget vi s req, false⟩] }, ?_, rfl, hholds⟩
    unfold getAudio
    dsimp only
    rw [if_pos hne, hthrew]
    rfl
  · have hbase : syncBase s.lastEnd req.start = req.start := by
      unfold syncBase
      split_ifs <;> omega
    refine ⟨req.count, .buf, ⟨[⟨req.start, req.count, .buf, false⟩], req.buf, fun _ => 0⟩, ?_, ?_,
      fun _ => Int.le_refl _, id⟩
    · unfold getAudio
      dsimp only
      rw [if_neg hne]
      exact childGetAudio_threw vi child s _ _ _ hthrows rfl
    · rw [hbase]

end EnsureVbrMp3Sync

end AviSynth
