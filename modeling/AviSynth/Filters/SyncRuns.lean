import AviSynth.Filters.EnsureVbrMp3Sync

/-!
# Histories of requests

In a history of requests all of which the filter can serve, every call reads its child in order
and returns the child's samples.
-/

namespace AviSynth

open MachineInt SequentialReads Transition

namespace EnsureVbrMp3Sync

/-- The filter knows where its child is. -/
structure InSync (s : EnsureVbrMp3Sync) : Prop where
  lastEnd_eq : s.lastEnd = position 0 s.reads
  sequential : Sequential 0 s.reads
  lastEnd_int64 : IsInt64 s.lastEnd

variable {vi : AudioInfo} {child : AudioChild} {audio : ℤ → UInt8} {s t : EnsureVbrMp3Sync}
  {req : AudioRequest} {e : SyncEvent} {reads : List (Read AudioTarget)}

theorem InSync.base_eq (h : s.InSync) (start : ℤ) : syncBase s.lastEnd start =
    if start < position 0 s.reads then 0 else position 0 s.reads := by
  rw [syncBase, h.lastEnd_eq]

/-- Reads from the base of a call on keep the child in order. -/
theorem InSync.append (h : s.InSync) (hreads : Follows (syncBase s.lastEnd req.start) reads) :
    Sequential 0 (s.reads ++ reads) := by
  refine sequential_append.mpr ⟨h.sequential, hreads.sequential ?_⟩
  rw [h.base_eq]
  split_ifs
  · exact Or.inr rfl
  · exact Or.inl rfl

section Step

variable (hsync : s.InSync) (hserves : s.Serves vi req) (hbytes : 0 ≤ vi.bytesPerAudioSample)

include hsync hserves hbytes

/-- A call that returns. -/
theorem step_returned (hplays : child.Plays vi audio) (hthrows : req.throws = none)
    (hstep : s.step vi child req = some (t, e)) : t.InSync ∧ e.Correct vi audio := by
  obtain ⟨c, c', hok, -, hreaches, hreads, hbuf⟩ :=
    getAudio_ok child hsync.lastEnd_int64 hserves hbytes hthrows
  have hsequential := hsync.append hreaches.follows
  have hstop : i64 (req.start + req.count) = req.start + req.count :=
    i64_of_range hserves.stop.1 hserves.stop.2
  simp only [step, hok, Option.some.injEq, Prod.mk.injEq] at hstep
  obtain ⟨rfl, rfl⟩ := hstep
  refine ⟨⟨?_, hsequential, ?_⟩, ⟨?_, fun h r hr => (hreaches.inside r hr).2 h,
    fun r hr => (hreaches.inside r hr).1, ?_, Or.inl ⟨c'.buf, rfl⟩⟩⟩
  · rw [hstop, hreads, ← List.append_assoc, position_snoc]
    rfl
  · rw [hstop]
    exact hserves.stop
  · rw [← hsync.base_eq]
    exact hreaches.follows
  · rintro _ ⟨rfl⟩ i hi hlt
    rw [hreads, ← List.append_assoc] at hsequential
    have hshows := Buffer.shows_copy c.buf 0
      (child (s.reads ++ c.reads) ⟨req.start, req.count, .buf, true⟩) 0
      (req.count * vi.bytesPerAudioSample) i hi hlt
    rw [zero_add, ← hbuf] at hshows
    refine hshows.trans ?_
    exact hplays _ _ hsequential rfl i hi hlt

/-- A call that ends with an exception in its first read. -/
theorem step_threw (hthrows : req.throws = some 0)
    (hstep : s.step vi child req = some (t, e)) : t.InSync ∧ e.Correct vi audio := by
  obtain ⟨n, into, c, hthrew, hreads, hallows⟩ :=
    getAudio_threw child hsync.lastEnd_int64 hserves hbytes hthrows
  have hfollows : Follows (syncBase s.lastEnd req.start) c.reads := by
    rw [hreads]
    exact ⟨rfl, trivial⟩
  simp only [step, hthrew, Option.some.injEq, Prod.mk.injEq] at hstep
  obtain ⟨rfl, rfl⟩ := hstep
  have hread : ∀ r ∈ c.reads, r.into.Allows vi req r.count := by
    intro r hr
    rw [hreads, List.mem_singleton] at hr
    subst hr
    exact hallows
  refine ⟨⟨?_, hsync.append hfollows, hsync.lastEnd_int64⟩, ⟨?_, fun h r hr => (hread r hr).2 h,
    fun r hr => (hread r hr).1, nofun, Or.inr ⟨rfl, ?_⟩⟩⟩
  · rw [hreads, position_snoc]
    exact hsync.lastEnd_eq
  · rw [← hsync.base_eq]
    exact hfollows
  · rw [hthrows]
    exact nofun

end Step

/-- If the child plays its audio in order and every request can be served, then all calls are
right. -/
theorem reads_in_order {history : List SyncEvent} (hplays : child.Plays vi audio)
    (hbytes : 0 ≤ vi.bytesPerAudioSample)
    (hrun : Run (fun s req => s.step vi child req) (fun s req => s.Serves vi req) .init history s) :
    AllEvents (fun _ e => e.Correct vi audio) history := by
  refine hrun.allEvents (fun _ s => s.InSync) ⟨rfl, trivial, by decide, by decide⟩ ?_
  intro history s t req e hsync hserves hstep
  cases hthrows : req.throws with
  | none => exact step_returned hsync hserves hbytes hplays hthrows hstep
  | some k =>
    obtain rfl := hserves.first k hthrows
    exact step_threw hsync hserves hbytes hthrows hstep

/-- Below the largest positions, a request that is not interrupted can be served. -/
theorem serves_of_small (haudio : vi.HasAudio) (hbytes : vi.bytesPerAudioSample ≤ bigBuffSize)
    (hend : 0 ≤ s.lastEnd ∧ s.lastEnd < 2 ^ 62) (hstart : 0 ≤ req.start) (hcount : 0 < req.count)
    (hstop : req.start + req.count < 2 ^ 62) (hfirst : ∀ k, req.throws = some k → k = 0) :
    Serves vi s req := by
  have hoffset : 0 ≤ syncOffset s.lastEnd req.start ∧ syncOffset s.lastEnd req.start < 2 ^ 62 := by
    unfold syncOffset
    split_ifs <;> omega
  have hblock : 0 < syncBlock vi s req ∧ syncBlock vi s req < 2 ^ 62 := by
    unfold syncBlock AudioInfo.audioSamplesFromBytes
    split_ifs
    · have hpos := vi.bytes_pos haudio
      have hone : 1 ≤ bigBuffSize / vi.bytesPerAudioSample := by
        rw [Int.le_ediv_iff_mul_le hpos]
        omega
      have hle : bigBuffSize / vi.bytesPerAudioSample ≤ bigBuffSize :=
        Int.ediv_le_self _ (by decide)
      rw [Int.tdiv_eq_ediv_of_nonneg (by decide)]
      unfold bigBuffSize at *
      omega
    · omega
  exact ⟨Or.inl hstart, ⟨by omega, by omega⟩, ⟨by omega, by omega⟩, fun k hk => by omega,
    Or.inl hblock.1, hfirst⟩

/-! ### A child that is read out of order -/

/-- Stereo with 16 bits. -/
def stereo16 : AudioInfo where
  audioSamplesPerSecond := 44100
  numAudioSamples := 1000
  bytesPerAudioSample := 4
  num_nonneg := by decide
  num_int64 := by decide
  bytes_pos := by decide

/-- A child whose bytes are all 1 if it is read in order, and 0 if not. -/
def orderedChild : AudioChild := fun before r _ => if Sequential 0 (before ++ [r]) then 1 else 0

theorem orderedChild_plays : orderedChild.Plays stereo16 fun _ => 1 :=
  fun _ _ hsequential _ _ _ _ => if_pos hsequential

/-- A request for ten samples. -/
def tenSamples (start : ℤ) (throws : Option ℕ) (h : IsInt64 start) : AudioRequest where
  start := start
  count := 10
  buf := fun _ => 0
  allocates := true
  throws := throws
  start_int64 := h
  count_int64 := by decide

/-- A request that fails at once, and one that skips samples. -/
theorem reads_in_order_skip : ∃ history s,
    Run (fun s req => step stereo16 orderedChild s req) (fun s req => Serves stereo16 s req) init
        history s ∧
      history.length = 2 ∧
      AllEvents (fun _ (e : SyncEvent) => e.Correct stereo16 fun _ => 1) history := by
  have haudio : stereo16.HasAudio := by decide
  have hfails : Serves stereo16 init (tenSamples 100 (some 0) (by decide)) :=
    serves_of_small haudio (by decide) (by decide) (by decide) (by decide) (by decide)
      fun k hk => (Option.some.inj hk).symm
  have hskips (reads : List (Read AudioTarget)) :
      Serves stereo16 ⟨0, reads⟩ (tenSamples 50 none (by decide)) := by
    have hend : (0 : ℤ) ≤ 0 ∧ (0 : ℤ) < 2 ^ 62 := by decide
    exact serves_of_small haudio (by decide) hend (by decide) (by decide) (by decide) nofun
  have hrun : ∃ history s, Run (fun s req => step stereo16 orderedChild s req)
      (fun s req => Serves stereo16 s req) init history s ∧ history.length = 2 :=
    ⟨_, _, (Run.init.step hfails rfl).step (hskips _) rfl, rfl⟩
  obtain ⟨history, s, hrun, hlength⟩ := hrun
  exact ⟨history, s, hrun, hlength, reads_in_order orderedChild_plays (by decide) hrun⟩

/-- A request that fails after a part was skipped. The next one goes on where the filter believes
the child to be. -/
theorem not_reads_in_order : ¬ ∀ history s,
    Run (fun s req => step stereo16 orderedChild s req)
        (fun _ req => 0 ≤ req.start ∧ 0 < req.count ∧ req.start + req.count < 2 ^ 31) init
        history s →
      AllEvents (fun _ (e : SyncEvent) => e.Correct stereo16 fun _ => 1) history := by
  intro hclaim
  obtain ⟨history, s, hrun, hcheck⟩ := exists_run
    (fun s req => step stereo16 orderedChild s req)
    (fun _ req => 0 ≤ req.start ∧ 0 < req.count ∧ req.start + req.count < 2 ^ 31) init
    [tenSamples 0 none (by decide), tenSamples 100 (some 1) (by decide),
      tenSamples 10 none (by decide)]
    (fun history _ => history.head?.any fun e =>
      e.request.start = 10 ∧ position 0 e.before = 100 ∧ (e.reads.map Read.start).head? = some 10)
    (by decide)
  cases history with
  | nil => simp at hcheck
  | cons e earlier =>
    have hgapless := (hclaim _ s hrun).1.gapless
    simp only [List.head?_cons, Option.any_some, decide_eq_true_eq] at hcheck
    obtain ⟨hstart, hposition, hhead⟩ := hcheck
    rw [hstart, hposition, if_pos (by decide)] at hgapless
    cases hreads : e.reads with
    | nil => simp [hreads] at hhead
    | cons r rest =>
      rw [hreads] at hgapless hhead
      have hzero := hgapless.1
      have hten : r.start = 10 := by simpa using hhead
      omega

end EnsureVbrMp3Sync

end AviSynth
