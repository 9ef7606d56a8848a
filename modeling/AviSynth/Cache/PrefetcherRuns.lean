import AviSynth.Cache.Prefetcher
import AviSynth.Cache.Reservations

/-!
# Runs of the prefetcher

The jobs of the workers, and the request while the child produces its frame, hold handles
for different keys. A frame with a job is reserved in the cache, so that no lookup
schedules it again.
-/

namespace AviSynth

open Transition LruSystem MachineInt

namespace PatternDetector

/-- What is followed after a miss: the other pattern, if it was hit often enough. -/
theorem stride_relock {d : PatternDetector} (hlocked : d.isLocked = true) :
    d.relock.stride =
      if d.patternMisses < patternLockLength then d.lockedPattern
      else if patternLockLength ≤ d.patternHits then d.pattern else 1 := by
  unfold relock
  by_cases hmisses : d.patternMisses < patternLockLength
  · rw [if_neg (by omega), if_neg (by omega), if_pos hmisses, stride, if_pos hlocked]
  · rw [if_neg hmisses]
    by_cases hhits : patternLockLength ≤ d.patternHits
    · rw [if_pos (by omega), if_pos hhits, stride, if_pos hlocked]
    · rw [if_neg (by omega), if_pos (by omega), if_neg hhits]
      rfl

theorem stride_trackUnlocked (d : PatternDetector) (hlocked : d.isLocked = false) (pattern : ℤ) :
    (d.trackUnlocked pattern).stride =
      if d.pattern = pattern ∧ patternLockLength ≤ i32 (d.patternHits + 1) then pattern else 1 := by
  have hlength : ¬patternLockLength ≤ 0 := by decide
  unfold trackUnlocked
  by_cases hsame : d.pattern = pattern
  · by_cases hhits : patternLockLength ≤ i32 (d.patternHits + 1) <;>
      simp [hsame, hhits, hlocked, stride]
  · simp [hsame, hlength, hlocked, stride]

theorem stride_trackLocked (d : PatternDetector) (hlocked : d.isLocked = true) (pattern : ℤ) :
    (d.trackLocked pattern).relock.stride =
      if d.lockedPattern = pattern ∨ i32 (d.patternMisses + 1) < patternLockLength then
        d.lockedPattern
      else if d.pattern = pattern ∧ patternLockLength ≤ i32 (d.patternHits + 1) then pattern
      else 1 := by
  have hlength : ¬patternLockLength ≤ 0 := by decide
  have hstill : (d.trackLocked pattern).isLocked = true := by
    unfold trackLocked
    dsimp only
    split_ifs <;> exact hlocked
  rw [stride_relock hstill]
  unfold trackLocked
  by_cases hrepeats : d.lockedPattern = pattern
  · simp [hrepeats, patternLockLength]
  · by_cases hsame : d.pattern = pattern
    · simp [hrepeats, hsame]
    · simp [hrepeats, hsame, hlength]

/-- The pattern is the one that the detector follows. -/
theorem stride_detect (d : PatternDetector) (n : ℤ) :
    (d.detect n).stride = d.followed n := by
  let d' := { d with lastRequestedFrame := n }
  change stride (if d.isLocked = true then (d'.trackLocked (d.difference n)).relock
    else d'.trackUnlocked (d.difference n)) = _
  unfold followed
  cases hlocked : d.isLocked with
  | true => simpa using stride_trackLocked d' hlocked (d.difference n)
  | false => simpa using stride_trackUnlocked d' hlocked (d.difference n)

end PatternDetector

namespace PrefetchParams

variable {c : PrefetchParams} {k : ℕ} {x length pattern current n : ℤ}

theorem le_stepsTo_mul (hlength : 0 < length) (x : ℤ) : x ≤ stepsTo x length * length := by
  have hle := Int.ediv_mul_le (-x) (show length ≠ 0 by omega)
  rw [stepsTo, Int.neg_mul]
  omega

/-- Before the goal there is a further step. -/
theorem lt_stepsTo (hlength : 0 < length) (h : k * length < x) :
    (k : ℤ) + 1 ≤ stepsTo x length := by
  have hle := le_stepsTo_mul hlength x
  have hlt : (k : ℤ) < stepsTo x length :=
    Int.lt_of_mul_lt_mul_right (Int.lt_of_lt_of_le h hle) (Int.le_of_lt hlength)
  omega

/-- The loop has come from a requested frame `current` to `n`. -/
structure Reaches (c : PrefetchParams) (pattern current n : ℤ) : Prop where
  clip : 0 ≤ current ∧ current < c.numFrames
  room : c.LeavesRoom current pattern
  isInt : 0 ≤ n ∧ n < 2 ^ 31
  steps : ∃ k : ℕ, n = current + k * pattern ∧
    (0 < pattern → (k : ℤ) ≤ stepsTo (c.numFrames - current) pattern)

/-- The next step leads to an `int` that is not negative. -/
theorem Reaches.next (h : Reaches c pattern current n)
    (hnear : ((i32 (n - current)).natAbs : ℤ) < c.nPrefetchFrames) :
    0 ≤ n + pattern ∧ n + pattern < 2 ^ 31 := by
  obtain ⟨hclip, ⟨hback, hahead⟩, ⟨hlow, hhigh⟩, k, rfl, hsteps⟩ := h
  have hint := c.isInt
  rw [i32_of_range (by omega) (by omega)] at hnear
  have hdistance : ((k * pattern).natAbs : ℤ) < c.nPrefetchFrames := by
    rwa [Int.add_comm, Int.add_sub_cancel] at hnear
  have hnext : (k + 1) * pattern = k * pattern + pattern := by rw [Int.add_mul, Int.one_mul]
  obtain hpattern | rfl | hpattern := Int.lt_trichotomy pattern 0
  · have hmul : (k : ℤ) * -pattern = -(k * pattern) := Int.mul_neg _ _
    have hpos : 0 ≤ (k : ℤ) * -pattern := Int.mul_nonneg (by omega) (by omega)
    have hsteps := lt_stepsTo (k := k) (show 0 < -pattern by omega)
      (show k * -pattern < c.nPrefetchFrames by omega)
    have hle := Int.mul_le_mul_of_nonneg_right hsteps (show 0 ≤ -pattern by omega)
    have hroom := hback hpattern
    rw [Int.mul_neg] at hle
    omega
  · omega
  · have hpos : 0 ≤ (k : ℤ) * pattern := Int.mul_nonneg (by omega) (by omega)
    have hgoal := lt_stepsTo (k := k) hpattern (show k * pattern < c.nPrefetchFrames by omega)
    have hle := Int.mul_le_mul_of_nonneg_right
      (show (k : ℤ) + 1 ≤ min (stepsTo c.nPrefetchFrames pattern)
        (stepsTo (c.numFrames - current) pattern + 1) by have := hsteps hpattern; omega)
      (Int.le_of_lt hpattern)
    have hroom := hahead hpattern
    omega

/-- A step from a frame of the clip, or backwards. -/
theorem Reaches.step (h : Reaches c pattern current n) (hn : 0 < pattern → n < c.numFrames)
    (hnear : ((i32 (n - current)).natAbs : ℤ) < c.nPrefetchFrames) :
    Reaches c pattern current (n + pattern) := by
  have hint := h.next hnear
  obtain ⟨hclip, hroom, -, k, rfl, -⟩ := h
  refine ⟨hclip, hroom, hint, k + 1, ?_, fun hpattern => ?_⟩
  · rw [Int.natCast_add, Int.natCast_one, Int.add_mul, Int.one_mul, Int.add_assoc]
  · have hinside := hn hpattern
    exact lt_stepsTo hpattern (show k * pattern < c.numFrames - current by omega)

/-- The loop begins at the requested frame. -/
theorem reaches_self (hclip : 0 ≤ current ∧ current < c.numFrames)
    (hroom : c.LeavesRoom current pattern) : Reaches c pattern current current := by
  have hint := c.isInt
  refine ⟨hclip, hroom, ⟨hclip.1, by omega⟩, 0, by simp, fun hpattern => ?_⟩
  have hle := le_stepsTo_mul hpattern (c.numFrames - current)
  by_contra hneg
  have := Int.mul_nonpos_of_nonpos_of_nonneg
    (show stepsTo (c.numFrames - current) pattern ≤ 0 by omega) (Int.le_of_lt hpattern)
  omega

end PrefetchParams

namespace PrefetcherCaller

/-- The frame that the request itself produces for the cache. -/
def jobs : PrefetcherCaller → List PrefetcherJob
  | .producing current _ (some handle) => [⟨current, handle⟩]
  | .producing _ _ none | .idle | .scheduling _ _ _ | .lookingUp _ _ | .waiting _ _ _ => []

/-- The sleeping lookup of the request. -/
def waiters : PrefetcherCaller → List (Waiter Unit ℕ)
  | .waiting current _ entry => [⟨(), frameKey current, entry⟩]
  | .idle | .scheduling _ _ _ | .lookingUp _ _ | .producing _ _ _ => []

/-- The frames that a call has come to. In the first loop these are frames of the clip. -/
def Tracks (c : PrefetchParams) (pattern : ℤ) : PrefetcherCaller → Prop
  | .idle => True
  | .scheduling second current n =>
    c.Reaches pattern current n ∧ (second = false → n < c.numFrames)
  | .lookingUp current n | .waiting current n _ | .producing current n _ =>
    c.Reaches pattern current n

end PrefetcherCaller

namespace Prefetcher

variable {V : Type} {c : PrefetchParams} {p q : Prefetcher V} {event : PrefetcherEvent}
  {n current prefetchPos : ℤ} {v : LruSystem Unit ℕ V} {outcome : LruLookup V}

/-- The invariant. -/
structure Valid (c : PrefetchParams) (p : Prefetcher V) : Prop where
  steady : p.videoCache.Steady
  keys : ((p.caller.jobs ++ p.jobs).map fun job => frameKey job.frame).Nodup
  reserved : ∀ job ∈ p.caller.jobs ++ p.jobs,
    p.videoCache.Reserved (frameKey job.frame) job.handle
  waiters : p.videoCache.waiters = p.caller.waiters
  tracks : p.caller.Tracks c p.detector.stride

theorem valid_initial (c : PrefetchParams) : Valid c (initial c : Prefetcher V) where
  steady := steady_initial _ _
  keys := List.nodup_nil
  reserved _ hjob := by simp [initial, PrefetcherCaller.jobs] at hjob
  waiters := rfl
  tracks := trivial

section

variable (h : Valid c p)
include h

/-- The request goes on without a handle. -/
theorem Valid.move {caller : PrefetcherCaller} (hjobs : caller.jobs = p.caller.jobs)
    (hwaiters : caller.waiters = p.caller.waiters) (htracks : caller.Tracks c p.detector.stride) :
    Valid c { p with caller := caller } where
  steady := h.steady
  keys := by simpa only [hjobs] using h.keys
  reserved := by simpa only [hjobs] using h.reserved
  waiters := h.waiters.trans hwaiters.symm
  tracks := htracks

/-- The rest of the state does not matter. -/
theorem Valid.congr (hcache : q.videoCache = p.videoCache) (hjobs : q.jobs = p.jobs)
    (hcaller : q.caller = p.caller) (htracks : q.caller.Tracks c q.detector.stride) :
    Valid c q where
  steady := hcache ▸ h.steady
  keys := by simpa only [hcaller, hjobs] using h.keys
  reserved := by simpa only [hcache, hcaller, hjobs] using h.reserved
  waiters := by rw [hcache, hcaller, h.waiters]
  tracks := htracks

omit h in
/-- A lookup that does not wait. -/
theorem lookup_not_waiting {s : LruSystem Unit ℕ V} (hsteady : s.Steady) {key : ℕ}
    {entry : EntryPtr} : (s.cache.lookup key false none).1 ≠ .waiting entry := by
  obtain ⟨history, leaks, hcons, hleaks⟩ := hsteady
  intro hwaiting
  cases hfind : s.cache.mainCache.cache.find? (fun e => e.key = key) with
  | some e =>
    simp only [LruCache.lookup, SimpleLruCache.lookup_found _ _ _ hfind, LruCache.takeOrWait,
      LruCache.modifyEntry, Function.update_self] at hwaiting
    split at hwaiting
    · cases hwaiting
    · rename_i havailable
      split at hwaiting
      · rename_i hempty
        simp [hempty] at havailable
      · cases hwaiting
  | none =>
    by_cases hcap : s.cache.mainCache.realCapacity = 0
    · have hnone : (none : Option Bool).getD false = true ∨ _ := Or.inr hcap
      obtain ⟨flag, d, hlookup, -⟩ := hcons.lookup_null hfind false hnone
      rw [hlookup] at hwaiting
      cases hwaiting
    · have hcaches : (none : Option Bool).getD false = false := rfl
      obtain ⟨handle, flag, d, hlookup, -⟩ := hcons.lookup_fresh hfind hcap false hcaches
      rw [hlookup] at hwaiting
      cases hwaiting

/-- What `lookup` changes while nobody sleeps. -/
theorem Valid.lookup (hwaiters : p.caller.waiters = []) {block : Bool}
    (hlookup : p.lookup n block = some (outcome, q)) :
    outcome = (p.videoCache.cache.lookup (frameKey n) block none).1 ∧
      ∃ v, q = { p with videoCache := v } ∧
        LookedUp p.videoCache v () (frameKey n) [] outcome := by
  obtain ⟨⟨v, e⟩, hstep, ⟨⟩⟩ := Option.map_eq_some_iff.mp hlookup
  have hlooked := h.steady.lookedUp hstep
  rw [h.waiters, hwaiters] at hlooked
  exact ⟨rfl, v, rfl, hlooked⟩

/-- What waking changes. -/
theorem Valid.wakeUp {entry : EntryPtr}
    (hcaller : p.caller = .waiting current prefetchPos entry)
    (hwake : p.wakeUp entry = some (outcome, q)) :
    ∃ v, q = { p with videoCache := v } ∧
      LookedUp p.videoCache v () (frameKey current) [] outcome := by
  obtain ⟨⟨v, e⟩, hstep, ⟨⟩⟩ := Option.map_eq_some_iff.mp hwake
  have hwaiters : p.videoCache.waiters = [⟨(), frameKey current, entry⟩] := by
    rw [h.waiters, hcaller, PrefetcherCaller.waiters]
  have hlooked := h.steady.woken (w := ⟨(), frameKey current, entry⟩) (by simp [hwaiters]) hstep
  rw [hwaiters, List.erase_cons_head] at hlooked
  exact ⟨v, rfl, hlooked⟩

/-- Reservations of the jobs after a lookup. -/
theorem Valid.kept {key : ℕ} {waiters : List (Waiter Unit ℕ)}
    (hlooked : LookedUp p.videoCache v () key waiters outcome) :
    ∀ job ∈ p.caller.jobs ++ p.jobs, v.Reserved (frameKey job.frame) job.handle :=
  fun job hjob => hlooked.kept _ _ (h.reserved job hjob)

/-- A missed lookup gives a job for a key that no other job has. -/
theorem Valid.fresh {handle : EntryPtr} {waiters : List (Waiter Unit ℕ)}
    (hlooked : LookedUp p.videoCache v () (frameKey n) waiters (.notFound handle)) :
    v.Reserved (frameKey n) handle ∧
      frameKey n ∉ (p.caller.jobs ++ p.jobs).map fun job => frameKey job.frame := by
  obtain ⟨hnone, hreserved⟩ := hlooked.fresh handle rfl
  refine ⟨hreserved, fun hmem => ?_⟩
  obtain ⟨job, hjob, hkey⟩ := List.mem_map.mp hmem
  exact hnone job.handle (hkey ▸ h.reserved job hjob)

/-- After the lookup of the requested frame. -/
theorem Valid.settle (hjobs : p.caller.jobs = [])
    (hreaches : c.Reaches p.detector.stride current prefetchPos)
    (hlooked : LookedUp p.videoCache v () (frameKey current) [] outcome) :
    Valid c ({ p with videoCache := v }.settle current prefetchPos outcome) := by
  have hkeys := h.keys
  have hreserved := h.kept hlooked
  have hwaiters := hlooked.waiters
  rw [hjobs, List.nil_append] at hkeys hreserved
  cases outcome with
  | notFound handle =>
    obtain ⟨hnew, hfresh⟩ := h.fresh hlooked
    rw [hjobs, List.nil_append] at hfresh
    refine ⟨hlooked.steady, List.nodup_cons.mpr ⟨hfresh, hkeys⟩, fun job hjob => ?_, hwaiters,
      hreaches⟩
    obtain rfl | hjob := List.mem_cons.mp hjob
    · exact hnew
    · exact hreserved job hjob
  | noCache | waiting => exact ⟨hlooked.steady, hkeys, hreserved, hwaiters, hreaches⟩
  | foundAndReady | foundButNotAvail =>
    exact ⟨hlooked.steady, hkeys, hreserved, hwaiters, hreaches, nofun⟩

variable {child : Option V}

/-- What finishing a handle changes. -/
theorem Valid.finish {handle : EntryPtr} (hfinish : p.finish handle child = some q) :
    ∃ v, q = { p with videoCache := v } ∧ v.Steady ∧ v.waiters = p.videoCache.waiters ∧
      ∀ key other, p.videoCache.Reserved key other → other ≠ handle → v.Reserved key other := by
  obtain ⟨⟨v, e⟩, hstep, rfl⟩ := Option.map_eq_some_iff.mp hfinish
  refine ⟨v, rfl, h.steady.step hstep, ?_, fun key other hother hne => ?_⟩
  · cases child <;>
      (simp only [LruSystem.step, Option.ite_none_right_eq_some, Option.some.injEq] at hstep
       exact congrArg (fun r => r.1.waiters) hstep.2 ▸ rfl)
  · refine h.steady.reserved_step hstep hother ?_
    cases child <;> exact Ne.symm hne

/-- A job is done. -/
theorem Valid.done {job : PrefetcherJob} {jobs : List PrefetcherJob} {caller : PrefetcherCaller}
    (hperm : (p.caller.jobs ++ p.jobs).Perm (job :: (caller.jobs ++ jobs)))
    (hwaiters : caller.waiters = p.caller.waiters) (htracks : caller.Tracks c p.detector.stride)
    (hfinish : p.finish job.handle child = some q) :
    Valid c { q with jobs := jobs, caller := caller } := by
  obtain ⟨v, rfl, hsteady, hsame, hkept⟩ := h.finish hfinish
  have hkeys := (hperm.map fun job => frameKey job.frame).nodup_iff.mp h.keys
  rw [List.map_cons, List.nodup_cons] at hkeys
  have hreserved : ∀ other ∈ job :: (caller.jobs ++ jobs),
      p.videoCache.Reserved (frameKey other.frame) other.handle := fun other hother =>
    h.reserved other (hperm.mem_iff.mpr hother)
  refine ⟨hsteady, hkeys.2, fun other hother => ?_, hsame.trans (h.waiters.trans hwaiters.symm),
    htracks⟩
  have hother' := hreserved other (List.mem_cons_of_mem _ hother)
  refine hkept _ _ hother' fun heq => hkeys.1 ?_
  have hkey := (h.steady.reserved_unique hother' (hreserved job List.mem_cons_self)).mp heq
  exact List.mem_map.mpr ⟨other, hother, hkey⟩

/-- A round of the loop looks up a frame of the clip, or leaves the loop. -/
theorem Valid.schedule {second : Bool} (hcaller : p.caller = .scheduling second current n)
    (hstep : p.schedule c second current n = some (q, event)) :
    Valid c q ∧ ∀ frame scheduled, event = .lookedUp frame scheduled →
      0 ≤ frame ∧ frame < c.numFrames := by
  have hjobs : p.caller.jobs = [] := by rw [hcaller, PrefetcherCaller.jobs]
  have hwaiters : p.caller.waiters = [] := by rw [hcaller, PrefetcherCaller.waiters]
  obtain ⟨hreaches, hclip⟩ : (PrefetcherCaller.scheduling second current n).Tracks c
      p.detector.stride := hcaller ▸ h.tracks
  have hend : ∀ m, (second = false → c.Reaches p.detector.stride current m) →
      Valid c (p.endSchedule second current m) := by
    intro m hm
    cases second with
    | true => exact h.move hjobs.symm hwaiters.symm trivial
    | false => exact h.move hjobs.symm hwaiters.symm (hm rfl)
  unfold Prefetcher.schedule at hstep
  by_cases hgoes : GoesOn c p current n
  · rw [if_pos hgoes] at hstep
    obtain ⟨hlow, hhigh⟩ := hreaches.next hgoes.2
    have hnext : i32 (n + p.detector.stride) = n + p.detector.stride :=
      i32_of_range (by omega) hhigh
    simp only [hnext] at hstep
    split at hstep
    · obtain ⟨⟩ := Option.some.inj hstep
      refine ⟨hend _ fun hfirst => ?_, fun _ _ heq => by cases heq⟩
      exact hreaches.step (fun _ => hclip hfirst) hgoes.2
    · rename_i hinside
      obtain ⟨⟨outcome, r⟩, hlookup, heq⟩ := Option.map_eq_some_iff.mp hstep
      obtain ⟨houtcome, v, rfl, hlooked⟩ := h.lookup hwaiters hlookup
      have hkeys := h.keys
      have hreserved := h.kept hlooked
      have hvwaiters := hlooked.waiters
      rw [hjobs, List.nil_append] at hkeys hreserved
      have htracks : c.Reaches p.detector.stride current (n + p.detector.stride) ∧
          (second = false → n + p.detector.stride < c.numFrames) :=
        ⟨hreaches.step (fun _ => by omega) hgoes.2, fun _ => by omega⟩
      have hframe : ∀ asked frame scheduled,
          PrefetcherEvent.lookedUp (n + p.detector.stride) asked = .lookedUp frame scheduled →
            0 ≤ frame ∧ frame < c.numFrames := by
        intro asked frame scheduled hevent
        obtain ⟨rfl, -⟩ := PrefetcherEvent.lookedUp.inj hevent
        omega
      cases outcome with
      | notFound handle =>
        obtain ⟨rfl, rfl⟩ := Prod.mk.inj heq
        obtain ⟨hnew, hfresh⟩ := h.fresh hlooked
        rw [hjobs, List.nil_append] at hfresh
        refine ⟨⟨hlooked.steady, List.nodup_cons.mpr ⟨hfresh, hkeys⟩, fun job hjob => ?_,
          hvwaiters, htracks⟩, hframe _⟩
        obtain rfl | hjob := List.mem_cons.mp hjob
        · exact hnew
        · exact hreserved job hjob
      | waiting entry => exact absurd houtcome.symm (lookup_not_waiting h.steady)
      | foundAndReady | foundButNotAvail | noCache =>
        obtain ⟨rfl, rfl⟩ := Prod.mk.inj heq
        exact ⟨⟨hlooked.steady, hkeys, hreserved, hvwaiters, htracks⟩, hframe _⟩
  · rw [if_neg hgoes] at hstep
    obtain ⟨⟩ := Option.some.inj hstep
    exact ⟨hend n fun _ => hreaches, fun _ _ heq => by cases heq⟩

/-- One step of the request. -/
theorem Valid.proceed (hstep : step c p (.proceed child) = some (q, event)) :
    Valid c q ∧ ∀ frame scheduled, event = .lookedUp frame scheduled →
      0 ≤ frame ∧ frame < c.numFrames := by
  have htracks := h.tracks
  cases hcaller : p.caller with
  | idle => simp [step, hcaller] at hstep
  | scheduling second current n =>
    simp only [step, hcaller] at hstep
    exact h.schedule hcaller hstep
  | lookingUp current prefetchPos =>
    have hreaches : c.Reaches p.detector.stride current prefetchPos := by rwa [hcaller] at htracks
    simp only [step, hcaller] at hstep
    obtain ⟨⟨outcome, r⟩, hlookup, ⟨⟩⟩ := Option.map_eq_some_iff.mp hstep
    obtain ⟨-, v, rfl, hlooked⟩ := h.lookup (by rw [hcaller]; rfl) hlookup
    refine ⟨h.settle (by rw [hcaller]; rfl) hreaches hlooked, fun frame scheduled hevent => ?_⟩
    obtain ⟨rfl, -⟩ := PrefetcherEvent.lookedUp.inj hevent
    exact hreaches.clip
  | waiting current prefetchPos entry =>
    have hreaches : c.Reaches p.detector.stride current prefetchPos := by rwa [hcaller] at htracks
    simp only [step, hcaller] at hstep
    obtain ⟨⟨outcome, r⟩, hwake, ⟨⟩⟩ := Option.map_eq_some_iff.mp hstep
    obtain ⟨v, rfl, hlooked⟩ := h.wakeUp hcaller hwake
    exact ⟨h.settle (by rw [hcaller]; rfl) hreaches hlooked, fun _ _ hevent => by cases hevent⟩
  | producing current prefetchPos handle =>
    have hreaches : c.Reaches p.detector.stride current prefetchPos := by rwa [hcaller] at htracks
    simp only [step, hcaller] at hstep
    obtain ⟨r, hproduce, ⟨⟩⟩ := Option.map_eq_some_iff.mp hstep
    refine ⟨?_, fun _ _ hevent => by cases hevent⟩
    obtain ⟨next, hnext⟩ : ∃ next : PrefetcherCaller,
        next = if child.isSome then .scheduling true current prefetchPos else .idle := ⟨_, rfl⟩
    have hnothing : next.jobs = [] ∧ next.waiters = [] ∧ next.Tracks c p.detector.stride := by
      subst hnext
      cases child with
      | none => exact ⟨rfl, rfl, trivial⟩
      | some value => exact ⟨rfl, rfl, hreaches, nofun⟩
    obtain ⟨hjobs, hwaiters, hnext'⟩ := hnothing
    simp only [Prefetcher.produce, ← hnext] at hproduce
    cases handle with
    | none =>
      obtain rfl := Option.some.inj hproduce
      exact h.move (by rw [hjobs, hcaller]; rfl) (by rw [hwaiters, hcaller]; rfl) hnext'
    | some handle =>
      obtain ⟨r, hfinish, rfl⟩ := Option.map_eq_some_iff.mp hproduce
      have hperm : (p.caller.jobs ++ p.jobs).Perm
          (⟨current, handle⟩ :: (next.jobs ++ p.jobs)) := by
        rw [hjobs, hcaller]
        rfl
      have hdone := h.done hperm (by rw [hwaiters, hcaller]; rfl) hnext' hfinish
      obtain ⟨v, rfl, -⟩ := h.finish hfinish
      exact hdone

/-- The step lemma. -/
theorem Valid.step {action : PrefetcherAction V} (hok : StaysInside c p action)
    (hstep : step c p action = some (q, event)) :
    Valid c q ∧ ∀ frame scheduled, event = .lookedUp frame scheduled →
      0 ≤ frame ∧ frame < c.numFrames := by
  cases action with
  | getFrame n suppressed =>
    cases hcaller : p.caller with
    | idle =>
      simp only [Prefetcher.step, hcaller] at hstep
      split_ifs at hstep with hsuppressed hpresent
      · obtain ⟨⟩ := Option.some.inj hstep
        exact ⟨h, fun _ _ hevent => by cases hevent⟩
      · obtain ⟨⟩ := Option.some.inj hstep
        exact ⟨h.congr rfl rfl hcaller.symm trivial, fun _ _ hevent => by cases hevent⟩
      · obtain ⟨⟩ := Option.some.inj hstep
        have hroom := hok.2 (Bool.eq_false_iff.mpr hsuppressed) (Bool.eq_false_iff.mpr hpresent)
        rw [← p.detector.stride_detect] at hroom
        have hdetected : Valid c { p with detector := p.detector.detect n } :=
          h.congr rfl rfl rfl (by rw [hcaller]; trivial)
        have htracks : (PrefetcherCaller.scheduling false n n).Tracks c
            (p.detector.detect n).stride :=
          ⟨PrefetchParams.reaches_self hok.1 hroom, fun _ => hok.1.2⟩
        have hmoved := hdetected.move (by rw [hcaller]; rfl) (by rw [hcaller]; rfl) htracks
        exact ⟨hmoved, fun _ _ hevent => by cases hevent⟩
    | scheduling | lookingUp | waiting | producing => simp [Prefetcher.step, hcaller] at hstep
  | proceed child => exact h.proceed hstep
  | work job child =>
    simp only [Prefetcher.step, Option.ite_none_right_eq_some] at hstep
    obtain ⟨hjob, hstep⟩ := hstep
    obtain ⟨r, hfinish, ⟨⟩⟩ := Option.map_eq_some_iff.mp hstep
    have hperm : (p.caller.jobs ++ p.jobs).Perm
        (job :: (p.caller.jobs ++ p.jobs.erase job)) :=
      ((List.perm_cons_erase hjob).append_left _).trans List.perm_middle
    have hdone := h.done hperm rfl h.tracks hfinish
    obtain ⟨v, rfl, -⟩ := h.finish hfinish
    exact ⟨hdone.congr rfl rfl rfl h.tracks, fun _ _ hevent => by cases hevent⟩
  | leave failed =>
    simp only [Prefetcher.step, Option.ite_none_right_eq_some] at hstep
    obtain ⟨rfl, rfl⟩ := Prod.mk.inj (Option.some.inj hstep.2)
    exact ⟨h.congr rfl rfl rfl h.tracks, fun _ _ hevent => by cases hevent⟩

end

variable {history : List PrefetcherEvent}

/-- As long as requests leave room for the patterns that are followed, what is scheduled or looked
up is a frame of the clip, and no frame has two jobs. -/
theorem prefetcher_bounded (c : PrefetchParams)
    (hrun : Run (step c) (StaysInside c) (initial c : Prefetcher V) history p) :
    Bounded c history p := by
  obtain ⟨hvalid, hframes⟩ := hrun.invariant
    (fun history p => Valid c p ∧ ∀ frame scheduled, .lookedUp frame scheduled ∈ history →
      0 ≤ frame ∧ frame < c.numFrames) ⟨valid_initial c, by simp⟩ (by
    intro history p q action event ⟨hvalid, hframes⟩ hok hstep
    obtain ⟨hnext, hevent⟩ := hvalid.step hok hstep
    refine ⟨hnext, fun frame scheduled hmem => ?_⟩
    obtain heq | hmem := List.mem_cons.mp hmem
    · exact hevent frame scheduled heq.symm
    · exact hframes frame scheduled hmem)
  refine ⟨hframes, ?_⟩
  have hkeys := hvalid.keys
  rw [List.map_append] at hkeys
  refine List.Nodup.of_map frameKey ?_
  rw [List.map_map]
  exact (List.nodup_append.mp hkeys).2.1

/-- A request for a frame that the child fails to produce, with no worker free. -/
def failedRequest (n : ℤ) : List (PrefetcherAction ℕ) :=
  [.getFrame n false, .proceed none, .proceed none, .proceed none]

/-- Requests that lock on to reading forward and then go backwards from frame `n + 4`, up to the
first one with which the worker is free again. -/
def backwards (n : ℤ) : List (PrefetcherAction ℕ) :=
  [.getFrame 50 false, .proceed none, .proceed none, .proceed none, .proceed none] ++
    failedRequest 50 ++ failedRequest 50 ++ failedRequest 50 ++ failedRequest (n + 4) ++
    failedRequest (n + 3) ++ failedRequest (n + 2) ++ failedRequest (n + 1) ++
    [.work ⟨51, 1⟩ (some 7), .leave false, .getFrame n false, .proceed none]

/-- Reading backwards at frame 10 schedules frame 9. -/
theorem prefetcher_bounded_backward :
    ∃ history, ∃ p : Prefetcher ℕ,
      Run (step ⟨100, 1, by decide⟩) (StaysInside ⟨100, 1, by decide⟩)
        (initial ⟨100, 1, by decide⟩) history p ∧
        .lookedUp 9 true ∈ history ∧ Bounded ⟨100, 1, by decide⟩ history p := by
  obtain ⟨history, p, hrun, hcheck⟩ := exists_run (step ⟨100, 1, by decide⟩)
    (StaysInside ⟨100, 1, by decide⟩) (initial ⟨100, 1, by decide⟩ : Prefetcher ℕ) (backwards 10)
    (fun history _ => .lookedUp 9 true ∈ history) (by decide)
  exact ⟨history, p, hrun, of_decide_eq_true hcheck, prefetcher_bounded _ hrun⟩

/-- Reading backwards down to frame 0 schedules frame -1. -/
theorem prefetcher_belowZero :
    ¬∀ (c : PrefetchParams) (history : List PrefetcherEvent) (p : Prefetcher ℕ),
      Run (step c) always (initial c) history p → Bounded c history p := by
  intro hall
  obtain ⟨history, p, hrun, hcheck⟩ := exists_run (step ⟨100, 1, by decide⟩) always
    (initial ⟨100, 1, by decide⟩ : Prefetcher ℕ)
    (backwards 0)
    (fun history _ => .lookedUp (-1) true ∈ history) (by decide)
  have hframe := (hall _ _ _ hrun).frames (-1) true (of_decide_eq_true hcheck)
  omega

end Prefetcher

end AviSynth
