import AviSynth.Cache.LruEviction

/-!
# Capacities stay within the lower limit

Raising a cache's upper limit by one raises its capacity by one only if the
lower limit is not above it, and no cache has more than was requested for it or
its lower limit demands. This holds for every cache at all times: each operation
leaves the capacity alone or clamps it.
-/

namespace AviSynth

variable {T K V : Type}

/-- The capacity is not below the lower limit, and above it only as far as
requested. -/
def SimpleLruCache.WithinMin {W : Type} (c : SimpleLruCache K W) : Prop :=
  c.minCapacity ≤ c.realCapacity ∧ c.realCapacity ≤ max c.requestedCapacity c.minCapacity

/-- Clamping does not go below the lower bound, and above it only up to the
number clamped. -/
theorem clamp_within (n lo hi : ℕ) : lo ≤ clamp n lo hi ∧ clamp n lo hi ≤ max n lo := by
  unfold clamp
  grind

/-- After any resize the capacity is within the lower limit. -/
theorem SimpleLruCache.resize_withinMin {W σ : Type} (evict : Entry K W → σ → Bool × σ)
    (c : SimpleLruCache K W) (newCap : ℕ) (s : σ) : (c.resize evict newCap s).1.WithinMin := by
  simp only [WithinMin, resize, trim_minCapacity, trim_realCapacity, trim_requestedCapacity]
  exact clamp_within _ _ _

@[simp] theorem LruCache.takeOrWait_mainCache (c : LruCache K V) (p : EntryPtr) :
    (c.takeOrWait p).2.mainCache = c.mainCache := by
  unfold takeOrWait
  split <;> rfl

@[simp] theorem LruCache.wakeUp_mainCache (c : LruCache K V) (p : EntryPtr) :
    (c.wakeUp p).2.mainCache = c.mainCache := by
  unfold wakeUp
  split
  · rfl
  · exact takeOrWait_mainCache c p

@[simp] theorem LruSystem.settle_cache (s : LruSystem T K V) (thread : T) (key : K)
    (outcome : LruLookup V) : (s.settle thread key outcome).1.cache = s.cache := by
  cases outcome <;> rfl

variable [DecidableEq K]

/-- A lookup does not change the capacities. -/
theorem SimpleLruCache.lookup_withinMin {W σ : Type} (evict : Entry K W → σ → Bool × σ) (blank : W)
    {c : SimpleLruCache K W} (h : c.WithinMin) (key : K) (lookuponly : Bool) (s : σ) :
    (c.lookup evict blank key lookuponly s).2.1.WithinMin := by
  have htrim : (c.trim evict s).1.WithinMin := by
    simpa only [WithinMin, trim_minCapacity, trim_realCapacity, trim_requestedCapacity] using h
  unfold lookup
  cases c.cache.find? (fun e => e.key = key) with
  | some e => exact h
  | none =>
    dsimp only
    split
    · exact h
    · split
      · split <;> exact htrim
      · exact htrim

variable [Zero K]

/-- The self-tuning step resizes the cache or leaves it alone. -/
theorem LruCache.consultGhosts_withinMin {c : LruCache K V} (h : c.mainCache.WithinMin) (key : K) :
    (c.consultGhosts key).2.2.mainCache.WithinMin := by
  unfold consultGhosts
  generalize c.toLruStore.lookupGhost key = r
  obtain ⟨g, store⟩ := r
  cases g with
  | none => exact h
  | some ghosted =>
    dsimp only
    split
    · split
      · exact SimpleLruCache.resize_withinMin _ _ _ _
      · exact h
    · exact h

/-- A lookup keeps the capacity within the lower limit. -/
theorem LruCache.lookup_withinMin {c : LruCache K V} (h : c.mainCache.WithinMin) (key : K)
    (block : Bool) (suppress : Option Bool) :
    (c.lookup key block suppress).2.2.mainCache.WithinMin := by
  have hmain := SimpleLruCache.lookup_withinMin LruStore.mainEvictEvent 0 h key
    (suppress.getD false) c.toLruStore
  unfold lookup
  dsimp only
  generalize c.mainCache.lookup LruStore.mainEvictEvent 0 key (suppress.getD false) c.toLruStore = r
    at hmain ⊢
  obtain ⟨entryp, main, store⟩ := r
  have hghosts := consultGhosts_withinMin
    (c := { c with mainCache := main, toLruStore := store }) hmain key
  cases entryp with
  | found p =>
    dsimp only
    split
    · exact hmain
    · simpa only [takeOrWait_mainCache, modifyEntry] using hmain
  | fresh stale =>
    simp only [SimpleLruCache.WithinMin, reserve, SimpleLruCache.setFront]
    split <;> exact hghosts
  | null =>
    dsimp only
    split
    · exact hmain
    · exact hghosts

variable [DecidableEq T]

/-- No operation of a cache takes its capacity below the lower limit. -/
theorem LruSystem.step_withinMin {s t : LruSystem T K V} {a : LruAction T K V}
    {e : LruEvent T K V} (h : s.cache.mainCache.WithinMin) (hstep : s.step a = some (t, e)) :
    t.cache.mainCache.WithinMin := by
  cases a with
  | lookup thread key block suppress =>
    simp only [step, Option.ite_none_left_eq_some, Option.some.injEq] at hstep
    have ht := congrArg (fun r => r.1.cache.mainCache) hstep.2
    simp only [settle_cache] at ht
    exact ht ▸ LruCache.lookup_withinMin h key block suppress
  | wake thread =>
    obtain ⟨w, -, -, hnext⟩ := step_wake hstep
    have ht := congrArg (fun r => r.1.cache.mainCache) hnext
    simp only [settle_cache, LruCache.wakeUp_mainCache] at ht
    exact ht ▸ h
  | write p value | commit p value =>
    simp only [step, Option.ite_none_right_eq_some, Option.some.injEq] at hstep
    exact congrArg (fun r => r.1.cache.mainCache) hstep.2 ▸ h
  | rollback p =>
    simp only [step, Option.ite_none_right_eq_some, Option.some.injEq] at hstep
    have ht := congrArg (fun r => r.1.cache.mainCache) hstep.2
    rw [← ht]
    unfold LruCache.rollback
    split
    · simp only [SimpleLruCache.WithinMin, SimpleLruCache.remove]
      split <;> exact h
    · exact h
  | setLimits min max =>
    simp only [step, Option.some.injEq] at hstep
    rw [← congrArg (fun r => r.1.cache.mainCache) hstep]
    exact SimpleLruCache.resize_withinMin _ _ _ _

end AviSynth
