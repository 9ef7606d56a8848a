import AviSynth.Cache.LruCache
import AviSynth.Library.MachineInt
import Mathlib.Data.List.Pairwise

/-!
# The registry of caches

The environment keeps all caches in the order of their last use, so that it can
take capacity from a cache that has not been used for long when another cache
asks for more. The newest cache stays out of the list, as `FrontCache`, until a
newer one displaces it.
-/

namespace AviSynth

open MachineInt

/-- The fields of `Device` that the registry reads. -/
structure Device where
  memoryMax : ℕ
  memoryUsed : ℕ

/-- A cache object: its device and its frames with the calls in progress. -/
structure AvsCache (D T K V : Type) where
  device : D
  video : LruSystem T K V

/-- The value of a 32-bit `int` that is converted to `size_t`. -/
def sizeOfInt (x : ℤ) : ℕ := (x % 2 ^ 64).toNat

namespace AvsCache

variable {D T K V : Type}

/-- `SetCacheHints(CACHE_GET_SIZE)`. -/
def getSize (c : AvsCache D T K V) : ℤ := i32 c.video.cache.mainCache.size

/-- `SetCacheHints(CACHE_GET_CAPACITY)`. -/
def getCapacity (c : AvsCache D T K V) : ℤ := i32 c.video.cache.mainCache.realCapacity

/-- `SetCacheHints(CACHE_GET_REQUESTED_CAP)`. -/
def getRequestedCap (c : AvsCache D T K V) : ℤ := i32 c.video.cache.mainCache.requestedCapacity

/-- `SetCacheHints(CACHE_SET_MAX_CAPACITY, frame_range)`. -/
def setMaxCapacity [DecidableEq K] [Zero K] (c : AvsCache D T K V) (frameRange : ℤ) :
    AvsCache D T K V :=
  { c with video := { c.video with
      cache := c.video.cache.setLimits c.video.cache.mainCache.minCapacity
        (sizeOfInt frameRange) } }

end AvsCache

/-- The environment as far as it manages caches, with the cache objects (`C` is
the type of their addresses). -/
structure CacheManager (C D T K V : Type) where
  frontCache : Option C
  cacheRegistry : List C
  /-- The caches that have been created and not destroyed. -/
  live : List C
  caches : C → AvsCache D T K V
  devices : D → Device

/-- What happens to the caches. -/
inductive ManagerAction (C D T K V : Type) where
  /-- A cache is created and registers. -/
  | register (cache : C) (device : D) (mode : CacheMode)
  /-- A cache unregisters and is destroyed. -/
  | unRegister (cache : C)
  | nodCache (cache : C)
  | nodAndExpandCache (cache : C)
  /-- A thread calls an operation of the cache. -/
  | lru (cache : C) (action : LruAction T K V)
  /-- A frame allocation finds a device short of memory. -/
  | shrink (device : D)
  /-- The memory in use on a device changes, or its limit. -/
  | memory (device : D) (memoryMax memoryUsed : ℕ)

/-- What a step makes observable. -/
inductive ManagerEvent (C D T K V : Type) where
  /-- A cache has registered and displaced the `FrontCache`, if there was one. -/
  | registered (displaced : Option C)
  | nodded (cache : C)
  | expanded (cache : C) (before after : CacheManager C D T K V)
  | other

namespace CacheManager

variable {C D T K V : Type} [DecidableEq C] [DecidableEq D] [DecidableEq T] [DecidableEq K] [Zero K]

/-- `mapped_list::move_to_back`. -/
def moveToBack (registry : List C) (cache : C) : List C := registry.erase cache ++ [cache]

/-- The nod: every cache but the `FrontCache` moves to the back. -/
def nod (s : CacheManager C D T K V) (cache : C) : CacheManager C D T K V :=
  if s.frontCache ≠ some cache then
    { s with cacheRegistry := moveToBack s.cacheRegistry cache }
  else s

/-- `MC_RegisterCache`. -/
def registerCache (s : CacheManager C D T K V) (cache : C) : CacheManager C D T K V :=
  { s with
    cacheRegistry := match s.frontCache with
      | some front => s.cacheRegistry ++ [front]
      | none => s.cacheRegistry
    frontCache := some cache }

/-- `MC_UnRegisterCache`. -/
def unRegisterCache (s : CacheManager C D T K V) (cache : C) : CacheManager C D T K V :=
  if s.frontCache = some cache then { s with frontCache := none }
  else { s with cacheRegistry := s.cacheRegistry.erase cache }

-- `lowReserve max free` is the test `free < max * 0.1f` in single precision.
variable (lowReserve : ℕ → ℕ → Bool)

/-- The device has not enough free memory left. -/
def Pressure (d : Device) : Prop :=
  d.memoryUsed > d.memoryMax ∨ lowReserve d.memoryMax (d.memoryMax - d.memoryUsed) = true
  deriving Decidable

/-- The loop that takes away a cache slot, over the rest of the registry. The
size it reads is the one of the cache that asks. -/
def takeSlot (cache : C) : List C → (C → AvsCache D T K V) → (C → AvsCache D T K V)
  | [], caches => caches
  | old :: rest, caches =>
    if (caches old).device ≠ (caches cache).device then takeSlot cache rest caches
    else
      let osize := (caches cache).getSize
      if osize ≠ 0 then Function.update caches old ((caches old).setMaxCapacity (osize - 1))
      else takeSlot cache rest caches

/-- `MC_NodAndExpandCache`. -/
def nodAndExpand (s : CacheManager C D T K V) (cache : C) : CacheManager C D T K V :=
  let s := s.nod cache
  let cap := (s.caches cache).getCapacity
  let reqcap := (s.caches cache).getRequestedCap
  if reqcap ≤ cap then s
  else
    let caches := if Pressure lowReserve (s.devices (s.caches cache).device) then
        takeSlot cache s.cacheRegistry s.caches
      else s.caches
    let expanded := (caches cache).setMaxCapacity (i32 (cap + 1))
    { s with caches := Function.update caches cache expanded }

/-- The loop of `ShrinkCache` over the registry. -/
def shrinkCache (device : D) :
    List C → (C → AvsCache D T K V) → (C → AvsCache D T K V)
  | [], caches => caches
  | cache :: rest, caches =>
    if (caches cache).device ≠ device then shrinkCache device rest caches
    else
      let cacheSize := (caches cache).getSize
      if cacheSize ≠ 0 then
        shrinkCache device rest
          (Function.update caches cache ((caches cache).setMaxCapacity (cacheSize - 1)))
      else shrinkCache device rest caches

/-- No caches yet. Addresses that no cache has are not looked at. -/
def initial (device : D) (devices : D → Device) : CacheManager C D T K V :=
  ⟨none, [], [], fun _ => ⟨device, LruSystem.initial 0 .fastStart⟩, devices⟩

/-- One event. Only live caches take part in events, and a new cache gets an
address that no live one has. -/
def step (s : CacheManager C D T K V) :
    ManagerAction C D T K V → Option (CacheManager C D T K V × ManagerEvent C D T K V)
  | .register cache device mode =>
    if cache ∈ s.live then none
    else
      let created := { s with
        live := cache :: s.live
        caches := Function.update s.caches cache ⟨device, LruSystem.initial 0 mode⟩ }
      some (created.registerCache cache, .registered s.frontCache)
  | .unRegister cache =>
    if cache ∈ s.live then
      let destroyed := { s with live := s.live.erase cache }
      some (destroyed.unRegisterCache cache, .other)
    else none
  | .nodCache cache =>
    if cache ∈ s.live then some (s.nod cache, .nodded cache) else none
  | .nodAndExpandCache cache =>
    if cache ∈ s.live then
      let after := s.nodAndExpand lowReserve cache
      some (after, .expanded cache s after)
    else none
  | .lru cache action =>
    if cache ∈ s.live then
      ((s.caches cache).video.step action).map fun (video, _) =>
        ({ s with caches := Function.update s.caches cache { s.caches cache with video := video } },
          .other)
    else none
  | .shrink device =>
    some ({ s with caches := shrinkCache device s.cacheRegistry s.caches }, .other)
  | .memory device memoryMax memoryUsed =>
    some ({ s with devices := Function.update s.devices device ⟨memoryMax, memoryUsed⟩ }, .other)

end CacheManager

/-!
## The order of the registry

Every live cache is in the registry exactly once, as the `FrontCache` or in the
list, and the list is in the order of last use. A `FrontCache` is in use until
another cache displaces it.
-/

namespace CacheManager

variable {C D T K V : Type} [DecidableEq C]

/-- The event uses the cache. -/
def Touches : ManagerEvent C D T K V → C → Prop
  | .registered displaced, cache => displaced = some cache
  | .nodded used, cache => used = cache
  | .expanded used _ _, cache => used = cache
  | .other, _ => False

instance : (e : ManagerEvent C D T K V) → (cache : C) → Decidable (Touches e cache)
  | .registered displaced, cache => inferInstanceAs (Decidable (displaced = some cache))
  | .nodded used, cache => inferInstanceAs (Decidable (used = cache))
  | .expanded used _ _, cache => inferInstanceAs (Decidable (used = cache))
  | .other, _ => isFalse id

/-- The time of the latest event that used the cache. -/
def lastUse : List (ManagerEvent C D T K V) → C → ℕ
  | [], _ => 0
  | e :: earlier, cache => if Touches e cache then earlier.length + 1 else lastUse earlier cache

variable {history : List (ManagerEvent C D T K V)} {s : CacheManager C D T K V}
  {e : ManagerEvent C D T K V} {cache : C}

/-- No use is later than now. -/
theorem lastUse_le (history : List (ManagerEvent C D T K V)) (cache : C) :
    lastUse history cache ≤ history.length := by
  induction history with
  | nil => exact Nat.le_refl 0
  | cons e earlier ih =>
    simp only [lastUse, List.length_cons]
    split
    · exact Nat.le_refl _
    · omega

/-- The registry holds each live cache exactly once, most recently used last. -/
structure Registered (history : List (ManagerEvent C D T K V)) (s : CacheManager C D T K V) :
    Prop where
  distinct : s.live.Nodup
  once : (s.frontCache.toList ++ s.cacheRegistry).Perm s.live
  order : s.cacheRegistry.Pairwise fun a b => lastUse history a < lastUse history b

/-- Caches that an event does not touch keep their order. -/
theorem order_untouched {registry : List C}
    (h : registry.Pairwise fun a b => lastUse history a < lastUse history b)
    (huntouched : ∀ c ∈ registry, ¬Touches e c) :
    registry.Pairwise fun a b => lastUse (e :: history) a < lastUse (e :: history) b := by
  refine h.imp_of_mem fun {a b} ha hb hab => ?_
  simpa only [lastUse, huntouched a ha, huntouched b hb, if_false] using hab

/-- A cache that an event touches may go behind the ones it does not touch. -/
theorem order_touched {registry : List C}
    (h : registry.Pairwise fun a b => lastUse history a < lastUse history b)
    (huntouched : ∀ c ∈ registry, ¬Touches e c) (htouched : Touches e cache) :
    (registry ++ [cache]).Pairwise
      fun a b => lastUse (e :: history) a < lastUse (e :: history) b := by
  rw [List.pairwise_append]
  refine ⟨order_untouched h huntouched, List.pairwise_singleton _ _, ?_⟩
  intro a ha b hb
  obtain rfl := List.mem_singleton.mp hb
  simp only [lastUse, huntouched a ha, htouched, if_false, if_true]
  have hle := lastUse_le history a
  omega

section

variable (h : Registered history s)
include h

/-- Changes of the cache objects and the devices do not concern the registry. -/
theorem Registered.congr {t : CacheManager C D T K V} (hfront : t.frontCache = s.frontCache)
    (hregistry : t.cacheRegistry = s.cacheRegistry) (hlive : t.live = s.live)
    (huntouched : ∀ c ∈ s.cacheRegistry, ¬Touches e c) :
    Registered (e :: history) t := by
  obtain ⟨hdistinct, honce, horder⟩ := h
  exact ⟨hlive ▸ hdistinct, by rwa [hfront, hregistry, hlive],
    hregistry ▸ order_untouched horder huntouched⟩

/-- The caches in the list and the `FrontCache` differ. -/
theorem Registered.split :
    s.cacheRegistry.Nodup ∧ ∀ c ∈ s.cacheRegistry, s.frontCache ≠ some c := by
  have hnodup := h.once.nodup_iff.mpr h.distinct
  rw [List.nodup_append] at hnodup
  refine ⟨hnodup.2.1, fun c hc hfront => ?_⟩
  exact hnodup.2.2 c (by simp [hfront]) c hc rfl

/-- A nod puts the cache that was used behind the others. -/
theorem Registered.nod (hlive : cache ∈ s.live)
    (htouches : ∀ c, Touches e c ↔ c = cache) : Registered (e :: history) (s.nod cache) := by
  obtain ⟨hnodup, hfronts⟩ := h.split
  unfold CacheManager.nod
  by_cases hfront : s.frontCache = some cache
  · rw [if_neg (not_not_intro hfront)]
    refine h.congr rfl rfl rfl fun c hc hcache => ?_
    rw [htouches] at hcache
    exact hfronts c hc (hcache ▸ hfront)
  · rw [if_pos hfront]
    have hmem : cache ∈ s.cacheRegistry := by
      have hall := h.once.mem_iff.mpr hlive
      simpa [Option.mem_toList, Option.mem_def, hfront] using hall
    have hperm : (moveToBack s.cacheRegistry cache).Perm s.cacheRegistry :=
      List.perm_append_comm.trans (List.perm_cons_erase hmem).symm
    refine ⟨h.distinct, (hperm.append_left _).trans h.once, ?_⟩
    refine order_touched (h.order.sublist List.erase_sublist) (fun c hc hcache => ?_)
      ((htouches cache).mpr rfl)
    rw [htouches] at hcache
    exact hnodup.not_mem_erase (hcache ▸ hc)

/-- A new cache takes the front, and the one it displaces goes to the back. -/
theorem Registered.register (hnew : cache ∉ s.live) (caches : C → AvsCache D T K V) :
    Registered (.registered s.frontCache :: history)
      (CacheManager.registerCache { s with live := cache :: s.live, caches := caches } cache) := by
  obtain ⟨hnodup, hfronts⟩ := h.split
  obtain ⟨hdistinct, honce, horder⟩ := h
  refine ⟨List.nodup_cons.mpr ⟨hnew, hdistinct⟩, ?_, ?_⟩
  · refine List.Perm.cons cache ?_
    cases hfront : s.frontCache with
    | none => simpa [hfront, registerCache] using honce
    | some front =>
      rw [hfront] at honce
      exact (List.perm_append_singleton front s.cacheRegistry).trans honce
  · simp only [registerCache]
    cases hfront : s.frontCache with
    | none => exact order_untouched horder fun c _ hc => nomatch hc
    | some front =>
      refine order_touched horder (fun c hc hcache => ?_) rfl
      exact hfronts c hc (hfront.trans hcache)

/-- A cache that is destroyed leaves the registry. -/
theorem Registered.unRegister :
    Registered (.other :: history)
      (CacheManager.unRegisterCache { s with live := s.live.erase cache } cache) := by
  obtain ⟨hnodup, hfronts⟩ := h.split
  have hdistinct := h.distinct.erase cache
  have honce := h.once
  unfold unRegisterCache
  by_cases hfront : s.frontCache = some cache
  · simp only [hfront, if_true]
    refine ⟨hdistinct, ?_, order_untouched h.order fun _ _ => id⟩
    rw [hfront] at honce
    have herase := honce.erase cache
    simpa using herase
  · simp only [hfront, if_false]
    refine ⟨hdistinct, ?_, (order_untouched h.order fun _ _ => id).sublist List.erase_sublist⟩
    have hnot : cache ∉ s.frontCache.toList := by
      simpa [Option.mem_toList, Option.mem_def] using hfront
    have herase := honce.erase cache
    rwa [List.erase_append_right _ hnot] at herase

end

end CacheManager

end AviSynth
