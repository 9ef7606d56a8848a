import AviSynth.Cache.CacheGuard
import AviSynth.Cache.LruLookup

/-!
# Hints and the caches of a guard

The caches of a guard are made at different times. The capacity limits of all of
them are the last ones given. For audio a new cache gets what its child asks for and
the last hint, where the oldest one has had every hint since it was made: this file
says after which hints the result is the same.
-/

namespace AviSynth

open MachineInt Transition

/-- A converted capacity comes back from `int`. -/
theorem sizeOfInt_ofInt (x : Int32) :
    sizeOfInt (Int32.ofInt (sizeOfInt x.toInt)).toInt = sizeOfInt x.toInt := by
  have hlow := x.le_toInt
  have hhigh := x.toInt_lt
  rw [Int32.toInt_ofInt]
  simp only [sizeOfInt, Int.bmod, Int32.size]
  omega

section Limits

variable {V : Type} (c : LruCache ℕ V) (min max : ℕ)

@[simp] theorem LruCache.setLimits_minCapacity :
    (c.setLimits min max).mainCache.minCapacity = min := by
  simp [setLimits, SimpleLruCache.setLimits, SimpleLruCache.resize]

@[simp] theorem LruCache.setLimits_maxCapacity :
    (c.setLimits min max).mainCache.maxCapacity = max := by
  simp [setLimits, SimpleLruCache.setLimits, SimpleLruCache.resize]

end Limits

variable {D V α : Type} (vi : AudioInfo) (undef : ℤ → α) (mode : CacheMode) (child : ChildAudio)

namespace AudioCache

/-- The policy of a cache and the size of its buffer, in samples. -/
def state (c : AudioCache α) : AudioPolicy × ℤ := (c.audioPolicy, c.maxSampleCount)

/-- The size of the buffer that a hint asks for, in samples. -/
def samplesFor (size : ℤ) : ℤ :=
  (if size = 0 then 256 * 1024 else size).tdiv vi.bytesPerAudioSample

/-- What a hint makes of the policy and the size. -/
def hinted (p : AudioPolicy) (size : ℤ) (state : AudioPolicy × ℤ) : AudioPolicy × ℤ :=
  if p.starts = false then (p, 0)
  else if ¬vi.HasAudio ∨ size = 0 ∧ state.1 ≠ .audioAutoStartOff then state
  else (p, max state.2 (samplesFor vi size))

/-- A buffer is only made bigger. -/
theorem enlarge_maxSampleCount (c : AudioCache α) (frameRange : ℤ) :
    (c.enlarge vi undef frameRange).maxSampleCount =
      max c.maxSampleCount (frameRange.tdiv vi.bytesPerAudioSample) := by
  unfold enlarge
  dsimp only
  by_cases hbig : frameRange.tdiv vi.bytesPerAudioSample > c.maxSampleCount
  · rw [if_pos hbig]
    exact (Int.max_eq_right (Int.le_of_lt hbig)).symm
  · rw [if_neg hbig]
    exact (Int.max_eq_left (Int.not_lt.mp hbig)).symm

/-- A hint that starts caching keeps the state of a cache for which it has no size, and
otherwise sets the policy and enlarges the buffer. -/
theorem state_startCaching (c : AudioCache α) {p : AudioPolicy} (size : ℤ)
    (hstarts : p.starts = true) :
    (c.startCaching vi undef p size).state = hinted vi p size c.state := by
  have hgo : ¬p.starts = false := by simp [hstarts]
  simp only [startCaching, hinted, if_neg hgo]
  by_cases haudio : vi.HasAudio
  · by_cases hkeep : size = 0 ∧ c.audioPolicy ≠ .audioAutoStartOff
    · have hkept : ¬vi.HasAudio ∨ size = 0 ∧ c.state.1 ≠ .audioAutoStartOff := Or.inr hkeep
      rw [if_neg (not_not_intro haudio), if_pos hkeep, if_pos hkept]
    · have hneither : ¬(¬vi.HasAudio ∨ size = 0 ∧ c.state.1 ≠ .audioAutoStartOff) := by
        rintro (hno | hsize)
        · exact hno haudio
        · exact hkeep hsize
      rw [if_neg (not_not_intro haudio), if_neg hkeep, if_neg hneither]
      simp only [state, enlarge_maxSampleCount, samplesFor]
  · rw [if_pos haudio, if_pos (Or.inl haudio)]

/-- A hint sees the policy and the buffer size only. -/
theorem state_setCacheHints (c : AudioCache α) (p : AudioPolicy) (size : ℤ) :
    (c.setCacheHints vi undef p size).state = hinted vi p size c.state := by
  cases p with
  | audio | audioAutoStartOn => exact c.state_startCaching vi undef size rfl
  | audioNothing => rfl
  | audioAutoStartOff => rfl

end AudioCache

namespace CacheGuard

open AudioCache

/-- An audio hint: the policy and the size of the buffer, in bytes. -/
abbrev AudioHint := AudioPolicy × Int32

/-- The hint that the child asks for, if its answer is one. -/
def wish : Option AudioHint :=
  (if child.version < 5 ∨ child.audioMode = 0 then some (defaultPolicy vi)
    else AudioPolicy.ofInt child.audioMode).map
    (·, if child.version < 5 then 0 else child.audioSize)

/-- The policy and the size of the buffer after some hints, latest first. -/
def stateAfter : List AudioHint → AudioPolicy × ℤ
  | [] => (defaultPolicy vi, 0)
  | (policy, size) :: earlier => hinted vi policy size.toInt (stateAfter earlier)

/-- A hint of size 0 after these asks for a buffer. -/
def off : List AudioHint → Bool
  | [] => true
  | (policy, _) :: _ => policy = .audioAutoStartOff

/-- The buffers that hints have asked for since the latest that stopped caching, latest
first. Size 0 asks for the default one when the policy is to start later, and for none
otherwise. -/
def asked : List AudioHint → List (AudioPolicy × ℤ)
  | [] => []
  | (policy, size) :: earlier =>
    if policy.starts = false then []
    else if size ≠ 0 ∨ off earlier = true then
      (policy, samplesFor vi size.toInt) :: asked earlier
    else asked earlier

/-- The policy of the latest hint that stopped caching. -/
def stopped : List AudioHint → AudioPolicy
  | [] => defaultPolicy vi
  | (policy, _) :: earlier => if policy.starts = false then policy else stopped earlier

/-- Of these buffers the latest has been asked for with the policy, and the largest has
so many samples. -/
def Asks (policy : AudioPolicy) (count : ℤ) (buffers : List (AudioPolicy × ℤ)) : Prop :=
  buffers.head?.map Prod.fst = some policy ∧ (∀ b ∈ buffers, b.2 ≤ count) ∧
    (count = 0 ∨ ∃ b ∈ buffers, b.2 = count)
  deriving Decidable

/-- The buffer that the child asks for, in samples. -/
def wished (wish : AudioHint) : ℤ :=
  if wish.1.starts = true then max 0 (samplesFor vi wish.2.toInt) else 0

/-- A new cache, whose child has asked for `wish`, can take over from the oldest one after
the hints of that: the cases are those of the last of these. -/
def Fits (wish : AudioHint) (hints : List AudioHint) (last : AudioHint) : Prop :=
  if last.1.starts = false then
    last ≠ (defaultPolicy vi, 0) ∨ (wish.1 = .audioAutoStartOff ↔ vi.HasAudio)
  else if ¬vi.HasAudio then stopped vi (hints ++ [wish]) = stopped vi [wish]
  else if last.2 ≠ 0 then
    Asks last.1 (max (wished vi wish) (samplesFor vi last.2.toInt)) (asked vi (hints ++ [wish]))
  else if wish.1 = .audioAutoStartOff then
    Asks last.1 (samplesFor vi 0) (asked vi (hints ++ [wish]))
  else if wish.1.starts = true then
    Asks wish.1 (wished vi wish) (asked vi (hints ++ [wish]))
  else asked vi (hints ++ [wish]) = [] ∧ stopped vi (hints ++ [wish]) = .audioNothing
  deriving Decidable

/-- The audio hint that a call gives to the caches. -/
def audioHint : Action D → Option AudioHint
  | .hint hint frameRange =>
    match translate hint frameRange with
    | (.audio policy, size) => some (policy, size)
    | _ => none
  | .getCache _ _ => none

/-- The last audio hint before now, or the default. -/
def lastHint (history : List (Action D)) : AudioHint :=
  (history.filterMap audioHint).head?.getD (defaultPolicy vi, 0)

/-- What of that a new cache gets: nothing, if it is the default. -/
def replayed (last : AudioHint) : List AudioHint :=
  if last = (defaultPolicy vi, 0) then [] else [last]

/-- The hints that the oldest cache has had, latest first, if there is a cache. -/
def firstHints : List (Action D) → Option (List AudioHint)
  | [] => none
  | a :: earlier =>
    match firstHints earlier, a with
    | some hints, a => some ((audioHint a).toList ++ hints)
    | none, .getCache _ false => some (replayed vi (lastHint vi earlier))
    | none, _ => none

/-- If the step is the first request from its device, the cache that it makes takes over
from the hints of the oldest one. -/
def CreationFits [DecidableEq D] (earlier : List (Action D)) : Action D → Prop
  | .getCache device false => .getCache device false ∉ earlier →
      ∀ w ∈ wish vi child, ∀ hints ∈ firstHints vi earlier,
        ∀ last ∈ hints.head?, Fits vi w hints last
  | _ => True

instance [DecidableEq D] (earlier : List (Action D)) :
    (a : Action D) → Decidable (CreationFits vi child earlier a)
  | .getCache device false => inferInstanceAs (Decidable (.getCache device false ∉ earlier →
      ∀ w ∈ wish vi child, ∀ hints ∈ firstHints vi earlier,
        ∀ last ∈ hints.head?, Fits vi w hints last))
  | .getCache _ true | .hint _ _ => isTrue trivial

variable {vi undef mode child}

/-- The settings of a cache: its capacity limits, audio policy and buffer size. -/
def settings (c : DeviceCache D V α) : (ℕ × ℕ) × (AudioPolicy × ℤ) :=
  ((c.video.mainCache.minCapacity, c.video.mainCache.maxCapacity), c.audio.state)

/-- The constructor gives a new cache the hint that its child asks for. -/
theorem new_eq (device : D) :
    (DeviceCache.new vi undef mode child device : Option (DeviceCache D V α)) =
      (wish vi child).map fun w => .setCacheHints vi undef
        ⟨device, .new 0 mode, .new vi undef⟩ (.audio w.1) w.2 := by
  unfold DeviceCache.new wish
  by_cases hold : child.version < 5
  · have hver : ¬5 ≤ child.version := by omega
    simp [hold, hver, AudioCache.new, defaultPolicy]
  · have hver : 5 ≤ child.version := by omega
    simp [hold, hver, AudioCache.new, defaultPolicy, Function.comp_def]

/-- A new cache is in the state after this hint, and without capacity limits. -/
theorem new_state {device : D} {c : DeviceCache D V α}
    (h : DeviceCache.new vi undef mode child device = some c) :
    ∃ w, wish vi child = some w ∧ c.device = device ∧
      settings c = ((0, sizeMax), stateAfter vi [w]) := by
  rw [new_eq] at h
  obtain ⟨w, hw, rfl⟩ := Option.map_eq_some_iff.mp h
  exact ⟨w, hw, rfl, congrArg (Prod.mk (0, sizeMax)) (state_setCacheHints ..)⟩

/-- The latest policy that stopped caching does not start it. -/
theorem stopped_starts (hints : List AudioHint) : (stopped vi hints).starts = false := by
  induction hints with
  | nil =>
    unfold stopped defaultPolicy
    split <;> rfl
  | cons h earlier ih =>
    unfold stopped
    split
    · assumption
    · exact ih

/-- A buffer has been asked for with a policy that starts caching. -/
theorem asked_starts (hints : List AudioHint) : ∀ b ∈ asked vi hints, b.1.starts = true := by
  induction hints with
  | nil => simp [asked]
  | cons h earlier ih =>
    unfold asked
    split
    · simp
    · next hstarts =>
      split
      · exact List.forall_mem_cons.mpr ⟨by simpa using hstarts, ih⟩
      · exact ih

/-- Without audio, only the hints that stop caching count. -/
theorem stateAfter_of_silent (haudio : ¬vi.HasAudio) (hints : List AudioHint) :
    stateAfter vi hints = (stopped vi hints, 0) := by
  induction hints with
  | nil => rfl
  | cons h earlier ih =>
    simp only [stateAfter, stopped, hinted, ih, haudio, not_false_eq_true, true_or, if_true]
    split <;> rfl

/-- The policy is to start later just after the hint that says so, or at the beginning. -/
theorem off_iff (haudio : vi.HasAudio) (hints : List AudioHint) :
    (stateAfter vi hints).1 = .audioAutoStartOff ↔ off hints = true := by
  match hints with
  | [] => simp [stateAfter, off, defaultPolicy, haudio]
  | (policy, size) :: earlier =>
    unfold stateAfter off AudioCache.hinted
    cases policy <;> simp [AudioPolicy.starts, haudio] <;> grind

/-- With audio, the policy is that of the buffer asked for last, and the buffer is as
large as the largest one asked for. -/
theorem stateAfter_of_audio (haudio : vi.HasAudio) (hints : List AudioHint) :
    stateAfter vi hints = (((asked vi hints).head?.map Prod.fst).getD (stopped vi hints),
      ((asked vi hints).map Prod.snd).foldr max 0) := by
  induction hints with
  | nil => rfl
  | cons h earlier ih =>
    obtain ⟨policy, size⟩ := h
    have hoff := off_iff haudio earlier
    have hsize : size.toInt = 0 ↔ size = 0 := Int32.toInt_inj (y := 0)
    rw [ih] at hoff
    unfold stateAfter asked stopped AudioCache.hinted
    rw [ih]
    generalize hbefore : ((asked vi earlier).head?.map Prod.fst).getD (stopped vi earlier) =
      before at hoff ⊢
    cases hstarts : policy.starts with
    | false => simp
    | true =>
      by_cases hasks : size ≠ 0 ∨ off earlier = true
      · have hgo : ¬(size.toInt = 0 ∧ before ≠ .audioAutoStartOff) := by grind
        simp [haudio, hgo, hasks, Int.max_comm]
      · have hkeep : size.toInt = 0 ∧ before ≠ .audioAutoStartOff := by grind
        simp [hkeep, hasks, hbefore]

/-- The largest of some numbers and 0. -/
theorem foldr_max_eq_iff {m : ℤ} (hm : 0 ≤ m) (l : List ℤ) :
    l.foldr max 0 = m ↔ (∀ b ∈ l, b ≤ m) ∧ (m = 0 ∨ m ∈ l) := by
  have hle : ∀ n, l.foldr max 0 ≤ n ↔ 0 ≤ n ∧ ∀ b ∈ l, b ≤ n := by
    intro n
    induction l with
    | nil => simp
    | cons b rest ih => rw [List.foldr_cons, Int.max_le, ih, List.forall_mem_cons, and_left_comm]
  have hreached : l.foldr max 0 = 0 ∨ l.foldr max 0 ∈ l := by
    clear hle
    induction l with
    | nil => exact Or.inl rfl
    | cons b rest ih =>
      rw [List.foldr_cons, List.mem_cons]
      rcases Int.le_total b (rest.foldr max 0) with h | h
      · rw [Int.max_eq_right h]
        exact ih.imp_right Or.inr
      · rw [Int.max_eq_left h]
        exact Or.inr (Or.inl rfl)
  constructor
  · rintro rfl
    exact ⟨((hle _).mp (Int.le_refl _)).2, hreached⟩
  · rintro ⟨hall, hmem⟩
    have hupper := (hle m).mpr ⟨hm, hall⟩
    have hlower := (hle _).mp (Int.le_refl (l.foldr max 0))
    rcases hmem with rfl | hmem
    · exact Int.le_antisymm hupper hlower.1
    · exact Int.le_antisymm hupper (hlower.2 m hmem)

/-- A state of the kind that a new cache has, in terms of the buffers asked for. -/
theorem state_eq_iff (hints : List AudioHint) {policy : AudioPolicy} {count : ℤ}
    (hstarts : policy.starts = true) (hcount : 0 ≤ count) :
    (((asked vi hints).head?.map Prod.fst).getD (stopped vi hints),
      ((asked vi hints).map Prod.snd).foldr max 0) = (policy, count) ↔
      Asks policy count (asked vi hints) := by
  have hlatest : ((asked vi hints).head?.map Prod.fst).getD (stopped vi hints) = policy ↔
      (asked vi hints).head?.map Prod.fst = some policy := by
    cases asked vi hints with
    | nil =>
      have hne : stopped vi hints ≠ policy := fun h =>
        absurd (h ▸ stopped_starts hints) (by simp [hstarts])
      simp [hne]
    | cons b rest => simp
  rw [Prod.mk.injEq, hlatest, foldr_max_eq_iff hcount, List.forall_mem_map, List.mem_map]
  exact Iff.rfl

theorem wished_nonneg (w : AudioHint) : 0 ≤ wished vi w := by
  unfold wished
  split
  · exact Int.le_max_left _ _
  · exact Int.le_refl 0

/-- With audio, a new cache has what its child asks for. -/
theorem stateAfter_wish (haudio : vi.HasAudio) (w : AudioHint) :
    stateAfter vi [w] = (w.1, wished vi w) := by
  obtain ⟨policy, size⟩ := w
  cases hstarts : policy.starts <;>
    simp [stateAfter, AudioCache.hinted, wished, hstarts, haudio, defaultPolicy]

/-- A new cache has the last hint on top of what its child asks for, or only that. -/
theorem stateAfter_replayed (w last : AudioHint) :
    stateAfter vi (replayed vi last ++ [w]) =
      if last = (defaultPolicy vi, 0) then stateAfter vi [w]
      else hinted vi last.1 last.2.toInt (stateAfter vi [w]) := by
  unfold replayed
  split <;> rfl

/-- With audio, the policies and buffers of the oldest cache and of a new one are the same
just if the new one can take over. -/
theorem stateAfter_eq_iff_of_audio (haudio : vi.HasAudio) (w last : AudioHint)
    (earlier : List AudioHint) :
    stateAfter vi (last :: (earlier ++ [w])) = stateAfter vi (replayed vi last ++ [w]) ↔
      Fits vi w (last :: earlier) last := by
  have hdefault : defaultPolicy vi = .audioAutoStartOff := by simp [defaultPolicy, haudio]
  rw [stateAfter_replayed, stateAfter_wish haudio]
  unfold Fits
  cases hstarts : last.1.starts with
  | false =>
    have hstops : ∀ state, hinted vi last.1 last.2.toInt state = (last.1, 0) := fun state => by
      simp [AudioCache.hinted, hstarts]
    rw [stateAfter, hstops, hstops, if_pos rfl]
    by_cases hsame : last = (defaultPolicy vi, 0)
    · have hnone : w.1 = .audioAutoStartOff → wished vi w = 0 := fun h => by
        simp [wished, h, AudioPolicy.starts]
      rw [if_pos hsame, hsame, hdefault, Prod.mk.injEq]
      simp only [ne_eq, not_true_eq_false, false_or, haudio, iff_true]
      exact ⟨fun h => h.1.symm, fun h => ⟨h.symm, (hnone h).symm⟩⟩
    · simp [hsame]
  | true =>
    have hne : last ≠ (defaultPolicy vi, 0) := fun h => by
      rw [h, hdefault] at hstarts
      cases hstarts
    have hsize : last.2.toInt = 0 ↔ last.2 = 0 := Int32.toInt_inj (y := 0)
    rw [if_neg hne, stateAfter_of_audio haudio, if_neg Bool.noConfusion,
      if_neg (not_not_intro haudio)]
    unfold AudioCache.hinted
    rw [if_neg (by simp [hstarts])]
    by_cases hzero : last.2 = 0
    · rw [if_neg (not_not_intro hzero), hsize.mpr hzero]
      by_cases hoff : w.1 = .audioAutoStartOff
      · have hnonneg : 0 ≤ samplesFor vi 0 :=
          Int.tdiv_nonneg (by decide) (Int.le_of_lt (vi.bytes_pos haudio))
        have hcount : max (wished vi w) (samplesFor vi 0) = samplesFor vi 0 := by
          rw [wished, hoff]
          exact Int.max_eq_right hnonneg
        rw [if_neg (by simp [haudio, hoff]), if_pos hoff, hcount]
        exact state_eq_iff _ hstarts hnonneg
      · rw [if_pos (Or.inr ⟨rfl, hoff⟩), if_neg hoff]
        cases hwish : w.1.starts with
        | true =>
          rw [if_pos rfl]
          exact state_eq_iff _ hwish (wished_nonneg w)
        | false =>
          have hnothing : w.1 = .audioNothing := by
            cases h : w.1 <;> simp_all [AudioPolicy.starts]
          have hnone : wished vi w = 0 := by simp [wished, hwish]
          have hasked := @asked_starts vi (last :: (earlier ++ [w]))
          rw [if_neg Bool.noConfusion, hnone, hnothing, List.cons_append]
          generalize asked vi (last :: (earlier ++ [w])) = buffers at hasked ⊢
          cases buffers with
          | nil => simp
          | cons b rest =>
            have hb : b.1 ≠ .audioNothing := fun h => by
              have hstarted := hasked b List.mem_cons_self
              rw [h] at hstarted
              cases hstarted
            simp [hb]
    · rw [if_pos hzero, if_neg (by simp [haudio, hsize, hzero])]
      exact state_eq_iff _ hstarts (Int.le_trans (wished_nonneg w) (Int.le_max_left _ _))

/-- Without audio, they are the same just if the new one can take over. -/
theorem stateAfter_eq_iff_of_silent (haudio : ¬vi.HasAudio) (w last : AudioHint)
    (earlier : List AudioHint) :
    stateAfter vi (last :: (earlier ++ [w])) = stateAfter vi (replayed vi last ++ [w]) ↔
      Fits vi w (last :: earlier) last := by
  have hdefault : defaultPolicy vi = .audioNothing := by simp [defaultPolicy, haudio]
  simp only [stateAfter_of_silent haudio, Prod.mk.injEq, and_true]
  unfold Fits replayed
  cases hstarts : last.1.starts with
  | false =>
    by_cases hsame : last = (defaultPolicy vi, 0)
    · have hwish : .audioNothing = stopped vi [w] ↔ w.1 ≠ .audioAutoStartOff := by
        cases h : w.1 <;> simp [stopped, h, AudioPolicy.starts, hdefault]
      simpa [hsame, stopped, hdefault, AudioPolicy.starts, haudio] using hwish
    · simp [hsame, stopped, hstarts]
  | true =>
    have hne : last ≠ (defaultPolicy vi, 0) := fun h => by
      rw [h, hdefault] at hstarts
      cases hstarts
    simp [hne, haudio, stopped, hstarts]

/-- The oldest cache and a new one are in the same state just if the new one can take over
from the hints of the oldest. -/
theorem stateAfter_eq_iff (w : AudioHint) (hints : List AudioHint) :
    stateAfter vi (hints ++ [w]) =
        stateAfter vi (replayed vi (hints.head?.getD (defaultPolicy vi, 0)) ++ [w]) ↔
      ∀ last ∈ hints.head?, Fits vi w hints last := by
  cases hints with
  | nil => simp [replayed]
  | cons last earlier =>
    have hcases : stateAfter vi (last :: (earlier ++ [w])) =
        stateAfter vi (replayed vi last ++ [w]) ↔ Fits vi w (last :: earlier) last := by
      by_cases haudio : vi.HasAudio
      · exact stateAfter_eq_iff_of_audio haudio w last earlier
      · exact stateAfter_eq_iff_of_silent haudio w last earlier
    simpa using hcases

/-- All caches of the guard have the same settings. -/
def AllAgree (g : CacheGuard D V α) : Prop :=
  ∀ c ∈ g.deviceCaches, ∀ d ∈ g.deviceCaches, settings c = settings d

/-- A further cache has to agree with one of those that are there. -/
theorem AllAgree.append_iff {g : CacheGuard D V α} (h : AllAgree g) {c new : DeviceCache D V α}
    (hc : c ∈ g.deviceCaches) :
    AllAgree { g with deviceCaches := g.deviceCaches ++ [new] } ↔ settings c = settings new := by
  constructor
  · exact fun hall => hall c (by simp [hc]) new (by simp)
  · intro hnew d hd e he
    have hlike : ∀ d ∈ g.deviceCaches ++ [new], settings c = settings d := by
      intro d hd
      rcases List.mem_append.mp hd with hd | hd
      · exact h c hc d hd
      · obtain rfl := List.mem_singleton.mp hd
        exact hnew
    exact (hlike d hd).symm.trans (hlike e he)

/-- What a hint makes of the settings. -/
def applied (vi : AudioInfo) (hint : CacheHint) (frameRange : Int32) :
    (ℕ × ℕ) × (AudioPolicy × ℤ) → (ℕ × ℕ) × (AudioPolicy × ℤ)
  | ((min, max), state) =>
    match hint with
    | .setMinCapacity => ((sizeOfInt frameRange.toInt, max), state)
    | .setMaxCapacity => ((min, sizeOfInt frameRange.toInt), state)
    | .audio policy => ((min, max), hinted vi policy frameRange.toInt state)
    | _ => ((min, max), state)

/-- A hint sees the settings only. -/
theorem settings_setCacheHints (c : DeviceCache D V α) (hint : CacheHint) (frameRange : Int32) :
    settings (c.setCacheHints vi undef hint frameRange) =
      applied vi hint frameRange (settings c) := by
  cases hint <;> simp [settings, applied, DeviceCache.setCacheHints, state_setCacheHints]

/-- The invariant of a guard. The limits that it keeps have been given as `int`s. -/
structure Inv (vi : AudioInfo) (child : ChildAudio) (history : List (Action D))
    (g : CacheGuard D V α) : Prop where
  min : ∃ x : Int32, g.hints.min = sizeOfInt x.toInt
  max : ∃ x : Int32, g.hints.max = sizeOfInt x.toInt
  last : (g.hints.audioPolicy, g.hints.audioSize) = lastHint vi history
  made : ∀ device, (∃ c ∈ g.deviceCaches, c.device = device) ↔
    (wish vi child).isSome = true ∧ .getCache device false ∈ history
  oldest : g.deviceCaches.head?.map settings = (wish vi child).bind fun w =>
    (firstHints vi history).map fun hints =>
      ((g.hints.min, g.hints.max), stateAfter vi (hints ++ [w]))

/-- A new guard has no caches. -/
theorem Inv.new : Inv vi child [] (.new vi : CacheGuard D V α) where
  min := ⟨0, show 0 = sizeOfInt (0 : Int32).toInt by decide⟩
  max := ⟨-1, show sizeMax = sizeOfInt (-1 : Int32).toInt by decide⟩
  last := rfl
  made := by simp [CacheGuard.new]
  oldest := by cases wish vi child <;> rfl

/-- The last hint that the oldest cache has had is the last one of all. -/
theorem firstHints_last {history : List (Action D)} {hints : List AudioHint}
    (h : firstHints vi history = some hints) :
    hints.head?.getD (defaultPolicy vi, 0) = lastHint vi history := by
  induction history generalizing hints with
  | nil => cases h
  | cons a earlier ih =>
    have hlast : lastHint vi (a :: earlier) = (audioHint a).getD (lastHint vi earlier) := by
      unfold lastHint
      cases hhint : audioHint a <;> simp [hhint]
    rw [hlast]
    unfold firstHints at h
    split at h
    · next hints' hfirst =>
      obtain rfl := Option.some.inj h
      rw [← ih hfirst]
      simp
    · obtain rfl := Option.some.inj h
      unfold replayed
      split
      · next hsame => exact hsame.symm
      · rfl
    · cases h

section Replay

variable (vi undef) {hints : CacheHints} {c : DeviceCache D V α}

/-- A new cache with its replay has the limits of the guard, and is in the state after the
last hint, if that is not the default, and that of its child. -/
theorem settings_replay {history : List (Action D)} {w : AudioHint}
    (hmin : ∃ x : Int32, hints.min = sizeOfInt x.toInt)
    (hmax : ∃ x : Int32, hints.max = sizeOfInt x.toInt)
    (hlast : (hints.audioPolicy, hints.audioSize) = lastHint vi history)
    (hfresh : settings c = ((0, sizeMax), stateAfter vi [w])) :
    settings (replay vi undef hints c) =
      ((hints.min, hints.max), stateAfter vi (replayed vi (lastHint vi history) ++ [w])) := by
  have hback (size : ℕ) (hsize : ∃ x : Int32, size = sizeOfInt x.toInt) :
      sizeOfInt (Int32.ofInt size).toInt = size := by
    obtain ⟨x, rfl⟩ := hsize
    exact sizeOfInt_ofInt x
  unfold replay
  dsimp only
  generalize hfirst : (if hints.min ≠ 0 then
    c.setCacheHints vi undef .setMinCapacity (Int32.ofInt hints.min) else c) = c₁
  have hmin' : settings c₁ = ((hints.min, sizeMax), stateAfter vi [w]) := by
    rw [← hfirst]
    split
    · rw [settings_setCacheHints, hfresh, applied, hback _ hmin]
    · next hzero => rw [hfresh, not_ne_iff.mp hzero]
  generalize hsecond : (if hints.max ≠ sizeMax then
    c₁.setCacheHints vi undef .setMaxCapacity (Int32.ofInt hints.max) else c₁) = c₂
  have hmax' : settings c₂ = ((hints.min, hints.max), stateAfter vi [w]) := by
    rw [← hsecond]
    split
    · rw [settings_setCacheHints, hmin', applied, hback _ hmax]
    · next hsame => rw [hmin', not_ne_iff.mp hsame]
  rw [stateAfter_replayed, ← hlast]
  by_cases hsame : (hints.audioPolicy, hints.audioSize) = (defaultPolicy vi, 0)
  · have hunchanged : ¬Changed vi hints := by
      rw [Prod.mk.injEq] at hsame
      simp [Changed, hsame]
    rw [if_pos hsame, if_neg hunchanged, hmax']
  · have hchanged : Changed vi hints := by
      rw [Prod.mk.injEq, not_and_or] at hsame
      exact hsame
    rw [if_neg hsame, if_pos hchanged, settings_setCacheHints, hmax', applied]

@[simp] theorem setCacheHints_device (hint : CacheHint) (frameRange : Int32) :
    (c.setCacheHints vi undef hint frameRange).device = c.device := by
  cases hint <;> rfl

@[simp] theorem replay_device : (replay vi undef hints c).device = c.device := by
  unfold replay
  dsimp only
  split <;> split <;> split <;> simp

end Replay

section Hints

variable {history : List (Action D)} {g : CacheGuard D V α}

/-- The settings of the caches after a hint has been applied to them. -/
theorem head_applyHints (hints : CacheHints) (hint : CacheHint) (frameRange : Int32) :
    ({ g with hints := hints }.applyHints vi undef hint frameRange).deviceCaches.head?.map
        settings = (g.deviceCaches.head?.map settings).map (applied vi hint frameRange) := by
  simp [applyHints, Function.comp_def, settings_setCacheHints]

/-- A hint keeps caches that agree in agreement. -/
theorem AllAgree.setCacheHints (h : AllAgree g) (hint : CacheHint) (frameRange : Int32) :
    AllAgree (g.setCacheHints vi undef hint frameRange) := by
  have happly : ∀ (hints : CacheHints) (hint : CacheHint) (frameRange : Int32),
      AllAgree ({ g with hints := hints }.applyHints vi undef hint frameRange) := by
    intro hints hint frameRange c' hc' d' hd'
    obtain ⟨c, hc, rfl⟩ := List.mem_map.mp hc'
    obtain ⟨d, hd, rfl⟩ := List.mem_map.mp hd'
    rw [settings_setCacheHints, settings_setCacheHints, h c hc d hd]
  unfold CacheGuard.setCacheHints
  split
  · exact happly _ _ _
  · exact happly _ _ _
  · exact happly _ _ _
  · exact h

/-- Hints do not touch the list of devices. -/
theorem Inv.made_hint (h : Inv vi child history g) (given hint : CacheHint)
    (size frameRange : Int32) (hints : CacheHints) (device : D) :
    (∃ c ∈ ({ g with hints := hints }.applyHints vi undef hint frameRange).deviceCaches,
        c.device = device) ↔
      (wish vi child).isSome = true ∧
        .getCache device false ∈ .hint given size :: history := by
  simp [applyHints, ← h.made device]

/-- What the oldest cache has had grows by the hint. -/
theorem firstHints_hint (hint : CacheHint) (frameRange : Int32) (history : List (Action D)) :
    firstHints vi (.hint hint frameRange :: history) =
      (firstHints vi history).map ((audioHint (.hint hint frameRange : Action D)).toList ++ ·) := by
  cases hfirst : firstHints vi history <;> simp [firstHints, hfirst]

/-- A hint keeps the invariant. -/
theorem Inv.setCacheHints (h : Inv vi child history g) (hint : CacheHint) (frameRange : Int32) :
    Inv vi child (.hint hint frameRange :: history) (g.setCacheHints vi undef hint frameRange) := by
  have hlast : lastHint vi (.hint hint frameRange :: history) =
      (audioHint (.hint hint frameRange : Action D)).getD (lastHint vi history) := by
    unfold lastHint
    cases hhint : audioHint (.hint hint frameRange : Action D) <;> simp [hhint]
  unfold CacheGuard.setCacheHints
  split
  · next htranslate =>
    have hnone : audioHint (.hint hint frameRange : Action D) = none := by
      simp [audioHint, htranslate]
    refine ⟨⟨_, rfl⟩, h.max, ?_, fun _ => h.made_hint .., ?_⟩
    · rw [hlast, hnone]
      exact h.last
    · rw [head_applyHints, h.oldest, firstHints_hint, hnone]
      cases wish vi child <;> cases firstHints vi history <;> rfl
  · next htranslate =>
    have hnone : audioHint (.hint hint frameRange : Action D) = none := by
      simp [audioHint, htranslate]
    refine ⟨h.min, ⟨_, rfl⟩, ?_, fun _ => h.made_hint .., ?_⟩
    · rw [hlast, hnone]
      exact h.last
    · rw [head_applyHints, h.oldest, firstHints_hint, hnone]
      cases wish vi child <;> cases firstHints vi history <;> rfl
  · next policy size htranslate =>
    have hgiven : audioHint (.hint hint frameRange : Action D) = some (policy, size) := by
      simp [audioHint, htranslate]
    refine ⟨h.min, h.max, ?_, fun _ => h.made_hint .., ?_⟩
    · rw [hlast, hgiven]
      rfl
    · rw [head_applyHints, h.oldest, firstHints_hint, hgiven]
      cases wish vi child <;> cases firstHints vi history <;> rfl
  · next hnot =>
    have hnone : audioHint (.hint hint frameRange : Action D) = none := by
      dsimp only [audioHint]
      split
      · next htranslate => exact (hnot _ _ htranslate).elim
      · rfl
    refine ⟨h.min, h.max, ?_, by simpa using h.made, ?_⟩
    · rw [hlast, hnone]
      exact h.last
    · rw [h.oldest, firstHints_hint, hnone]
      cases wish vi child <;> cases firstHints vi history <;> rfl

end Hints

section Create

variable {history : List (Action D)} {g : CacheGuard D V α} {device : D} {c : DeviceCache D V α}

/-- A further request leaves what the oldest cache has had. -/
theorem firstHints_getCache (hfirst : firstHints vi history ≠ none) (useChild : Bool) :
    firstHints vi (.getCache device useChild :: history) = firstHints vi history := by
  obtain ⟨hints, hhints⟩ := Option.ne_none_iff_exists'.mp hfirst
  simp [firstHints, hhints, audioHint]

/-- A request that makes no cache keeps the invariant. -/
theorem Inv.getCache_same (h : Inv vi child history g) (useChild : Bool)
    (hfound : useChild = false → (wish vi child).isSome = true →
      ∃ c ∈ g.deviceCaches, c.device = device) :
    Inv vi child (.getCache device useChild :: history) g := by
  refine ⟨h.min, h.max, h.last, fun d => ?_, ?_⟩
  · have hmade := h.made d
    cases useChild with
    | true => simpa using hmade
    | false => grind
  · have holdest := h.oldest
    cases hwish : wish vi child with
    | none => simpa [hwish] using holdest
    | some w =>
      rw [hwish] at holdest hfound
      cases hfirst : firstHints vi history with
      | some hints =>
        rw [firstHints_getCache (by simp [hfirst]), hfirst]
        simpa [hfirst] using holdest
      | none =>
        cases useChild with
        | true => simpa [firstHints, hfirst] using holdest
        | false =>
          obtain ⟨c, hc, -⟩ := hfound rfl rfl
          simp [hfirst] at holdest
          simp [holdest] at hc

/-- A new cache keeps the invariant. -/
theorem Inv.create (h : Inv vi child history g)
    (hnew : DeviceCache.new vi undef mode child device = some c) :
    Inv vi child (.getCache device false :: history)
      { g with deviceCaches := g.deviceCaches ++ [replay vi undef g.hints c] } := by
  obtain ⟨w, hwish, hdevice, hfresh⟩ := new_state hnew
  refine ⟨h.min, h.max, h.last, fun d => ?_, ?_⟩
  · have hmade := h.made d
    simp only [hwish, Option.isSome_some, true_and] at hmade
    have hnew : (∃ e ∈ g.deviceCaches ++ [replay vi undef g.hints c], e.device = d) ↔
        (∃ e ∈ g.deviceCaches, e.device = d) ∨ device = d := by
      simp [or_and_right, exists_or, hdevice]
    rw [hnew, hmade]
    simp [hwish, or_comm, eq_comm]
  · have holdest := h.oldest
    simp only [hwish, Option.bind_some] at holdest ⊢
    cases hfirst : firstHints vi history with
    | some hints =>
      rw [firstHints_getCache (by simp [hfirst]), hfirst]
      rw [hfirst] at holdest
      cases hcaches : g.deviceCaches with
      | nil => simp [hcaches] at holdest
      | cons d rest => simpa [hcaches] using holdest
    | none =>
      have hnone : g.deviceCaches = [] := by simpa [hfirst] using holdest
      have hstart : firstHints vi (.getCache device false :: history) =
          some (replayed vi (lastHint vi history)) := by simp [firstHints, hfirst]
      simp [hnone, hstart, settings_replay _ _ h.min h.max h.last hfresh]

/-- A new cache agrees with those that are there just if it can take over from the oldest. -/
theorem Inv.create_agrees (h : Inv vi child history g) (hagree : AllAgree g)
    (hnew : DeviceCache.new vi undef mode child device = some c) :
    AllAgree { g with deviceCaches := g.deviceCaches ++ [replay vi undef g.hints c] } ↔
      ∀ w ∈ wish vi child, ∀ hints ∈ firstHints vi history,
        ∀ last ∈ hints.head?, Fits vi w hints last := by
  obtain ⟨w, hwish, -, hfresh⟩ := new_state hnew
  have holdest := h.oldest
  rw [hwish, Option.bind_some] at holdest
  cases hcaches : g.deviceCaches with
  | nil =>
    have hfirst : firstHints vi history = none := by simpa [hcaches] using holdest.symm
    refine iff_of_true ?_ (by simp [hfirst])
    simp [AllAgree]
  | cons first rest =>
    rw [hcaches] at holdest
    obtain ⟨hints, hfirst, hbefore⟩ := Option.map_eq_some_iff.mp holdest.symm
    have hiff : settings first = settings (replay vi undef g.hints c) ↔
        ∀ last ∈ hints.head?, Fits vi w hints last := by
      rw [← stateAfter_eq_iff, firstHints_last hfirst,
        settings_replay vi undef h.min h.max h.last hfresh, ← hbefore]
      simp
    have hfits : (∀ w' ∈ wish vi child, ∀ hints' ∈ firstHints vi history,
        ∀ last ∈ hints'.head?, Fits vi w' hints' last) ↔
        ∀ last ∈ hints.head?, Fits vi w hints last := by
      simp [hwish, hfirst]
    rw [hfits, ← hiff, ← hcaches]
    exact hagree.append_iff (hcaches ▸ List.mem_cons_self)

end Create

variable [DecidableEq D]

/-- A request leaves the guard as it is, if there is a cache for its device or it must not
make one, or it makes the first cache for its device. -/
theorem getCache_cases (g : CacheGuard D V α) (device : D) (useChild : Bool) :
    (g.getCache vi undef mode child device useChild = g ∧
        (useChild = false → (wish vi child).isSome = true →
          ∃ c ∈ g.deviceCaches, c.device = device)) ∨
      useChild = false ∧ (¬∃ c ∈ g.deviceCaches, c.device = device) ∧
        ∃ c, DeviceCache.new vi undef mode child device = some c ∧
          g.getCache vi undef mode child device useChild =
            { g with deviceCaches := g.deviceCaches ++ [replay vi undef g.hints c] } := by
  have hany : g.deviceCaches.any (fun c => c.device = device) = true ↔
      ∃ c ∈ g.deviceCaches, c.device = device := by simp
  unfold getCache
  by_cases hfound : ∃ c ∈ g.deviceCaches, c.device = device
  · rw [if_pos (hany.mpr hfound)]
    exact Or.inl ⟨rfl, fun _ _ => hfound⟩
  · rw [if_neg (mt hany.mp hfound)]
    cases useChild with
    | true => exact Or.inl ⟨rfl, fun h => Bool.noConfusion h⟩
    | false =>
      rw [if_neg Bool.false_ne_true]
      cases hmade : (DeviceCache.new vi undef mode child device : Option (DeviceCache D V α)) with
      | none =>
        refine Or.inl ⟨rfl, fun _ hwish => ?_⟩
        rw [new_eq, Option.map_eq_none_iff] at hmade
        simp [hmade] at hwish
      | some c => exact Or.inr ⟨rfl, hfound, c, rfl, rfl⟩

variable {g g' : CacheGuard D V α} {a e : Action D} {history : List (Action D)}

/-- A step is seen as what it is. -/
theorem step_event (hstep : g.step vi undef mode child a = some (g', e)) : e = a := by
  cases a <;> exact (congrArg Prod.snd (Option.some.inj hstep)).symm

/-- A step keeps the invariant. -/
theorem Inv.step (h : Inv vi child history g)
    (hstep : g.step vi undef mode child a = some (g', e)) : Inv vi child (e :: history) g' := by
  obtain rfl := step_event hstep
  cases e with
  | hint hint frameRange =>
    have hnext : g.setCacheHints vi undef hint frameRange = g' :=
      congrArg Prod.fst (Option.some.inj hstep)
    exact hnext ▸ h.setCacheHints hint frameRange
  | getCache device useChild =>
    have hnext : g.getCache vi undef mode child device useChild = g' :=
      congrArg Prod.fst (Option.some.inj hstep)
    rcases getCache_cases g device useChild with ⟨hsame, hfound⟩ | ⟨rfl, -, c, hmade, hgrown⟩
    · rw [← hnext, hsame]
      exact h.getCache_same useChild hfound
    · rw [← hnext, hgrown]
      exact h.create hmade

/-- The step lemma: a step keeps the caches in agreement just if it meets the condition. -/
theorem Inv.step_agrees (h : Inv vi child history g) (hagree : AllAgree g)
    (hstep : g.step vi undef mode child a = some (g', e)) :
    AllAgree g' ↔ CreationFits vi child history a := by
  cases a with
  | hint hint frameRange =>
    have hnext : g.setCacheHints vi undef hint frameRange = g' :=
      congrArg Prod.fst (Option.some.inj hstep)
    subst hnext
    exact iff_of_true (hagree.setCacheHints hint frameRange) trivial
  | getCache device useChild =>
    have hnext : g.getCache vi undef mode child device useChild = g' :=
      congrArg Prod.fst (Option.some.inj hstep)
    rcases getCache_cases g device useChild with ⟨hsame, hfound⟩ | ⟨rfl, hnew, c, hmade, hgrown⟩
    · rw [← hnext, hsame]
      refine iff_of_true hagree ?_
      cases useChild with
      | true => trivial
      | false =>
        intro hunseen w hw
        have hsome : (wish vi child).isSome = true := Option.isSome_iff_exists.mpr ⟨w, hw⟩
        exact absurd ((h.made device).mp (hfound rfl hsome)).2 hunseen
    · rw [← hnext, hgrown, h.create_agrees hagree hmade]
      obtain ⟨w, hwish, -⟩ := new_state hmade
      have hunseen : .getCache device false ∉ history := fun hseen =>
        hnew ((h.made device).mpr ⟨by simp [hwish], hseen⟩)
      exact ⟨fun hfits _ => hfits, fun hfits => hfits hunseen⟩

/-- A clip with stereo sound of 16 bits. -/
def stereo : AudioInfo := ⟨48000, 48000, 4, by decide, by decide, by decide⟩

/-- A filter that does not say how its audio should be cached. -/
def silentChild : ChildAudio := ⟨6, 0, 0⟩

/-- Caches are made after hints that ask for more and more, and after one that stops
caching. -/
def growing : List (Action ℕ) :=
  [.getCache 0 false, .hint (.audio .audio) 4096, .hint .setMaxCapacity 8, .getCache 1 false,
    .hint (.audio .audioNothing) 0, .getCache 2 false, .hint (.audio .audio) 8192,
    .hint (.audio .audio) 1048576, .getCache 3 false]

end CacheGuard

end AviSynth
