import AviSynth.Cache.CacheManager
import AviSynth.Cache.LruLimits

/-!
# Taking capacity from one cache for another

A cache that has requested more capacity than it has gets one more when it is
used. When its device is short of memory, the donor should be the cache used
least recently among those of the device that hold anything, and give up one of
its own entries. The loop reads the size of the cache that asks instead of the
donor's, so it does so only when the two happen to agree.
-/

namespace AviSynth

open MachineInt Transition CacheManager

variable {C D T K V : Type}

namespace AvsCache

/-- The number of entries in the cache. -/
def size (c : AvsCache D T K V) : ℕ := c.video.cache.mainCache.size

/-- The capacity of the cache. -/
def capacity (c : AvsCache D T K V) : ℕ := c.video.cache.mainCache.realCapacity

/-- The capacity that the cache has asked for. -/
def requested (c : AvsCache D T K V) : ℕ := c.video.cache.mainCache.requestedCapacity

/-- The lower limit of the cache. -/
def minCapacity (c : AvsCache D T K V) : ℕ := c.video.cache.mainCache.minCapacity

section

variable (c : AvsCache D T K V)
include c

theorem getSize_eq : c.getSize = i32 c.size := rfl

theorem getCapacity_eq : c.getCapacity = i32 c.capacity := rfl

theorem getRequestedCap_eq : c.getRequestedCap = i32 c.requested := rfl

/-- The capacity after setting the upper limit. -/
theorem setMaxCapacity_capacity [DecidableEq K] [Zero K] (frameRange : ℤ) :
    (c.setMaxCapacity frameRange).capacity =
      clamp c.requested c.minCapacity (sizeOfInt frameRange) := by
  simp only [setMaxCapacity, capacity, requested, minCapacity, LruCache.setLimits,
    SimpleLruCache.setLimits, SimpleLruCache.resize, SimpleLruCache.trim_realCapacity]

@[simp] theorem setMaxCapacity_requested [DecidableEq K] [Zero K]
    (frameRange : ℤ) : (c.setMaxCapacity frameRange).requested = c.requested := by
  simp only [setMaxCapacity, requested, LruCache.setLimits, SimpleLruCache.setLimits,
    SimpleLruCache.resize, SimpleLruCache.trim_requestedCapacity]

@[simp] theorem setMaxCapacity_minCapacity [DecidableEq K] [Zero K]
    (frameRange : ℤ) : (c.setMaxCapacity frameRange).minCapacity = c.minCapacity := by
  simp only [setMaxCapacity, minCapacity, LruCache.setLimits, SimpleLruCache.setLimits,
    SimpleLruCache.resize, SimpleLruCache.trim_minCapacity]

/-- Setting an upper limit leaves the capacity within the lower one. -/
theorem setMaxCapacity_withinMin [DecidableEq K] [Zero K]
    (frameRange : ℤ) : (c.setMaxCapacity frameRange).video.cache.mainCache.WithinMin :=
  SimpleLruCache.resize_withinMin _ _ _ _

end

end AvsCache

/-- An `int` holds a small natural number. -/
theorem i32_natCast {n : ℕ} (h : (n : ℤ) < 2 ^ 31) : i32 n = n := i32_of_range (by omega) h

/-- A natural number that fits into an `int` is read back from it. -/
theorem sizeOfInt_natCast {n : ℕ} (h : (n : ℤ) < 2 ^ 31) : sizeOfInt n = n := by
  unfold sizeOfInt
  omega

namespace CacheManager

variable [DecidableEq C]

@[simp] theorem nod_caches (s : CacheManager C D T K V) (cache : C) :
    (s.nod cache).caches = s.caches := by
  unfold nod
  split <;> rfl

@[simp] theorem nod_devices (s : CacheManager C D T K V) (cache : C) :
    (s.nod cache).devices = s.devices := by
  unfold nod
  split <;> rfl

/-- An `int` holds the numbers that the expansion reads and computes. -/
def FitsInt (c : AvsCache D T K V) : Prop :=
  (c.capacity : ℤ) + 1 < 2 ^ 31 ∧ (c.requested : ℤ) < 2 ^ 31 ∧ (c.size : ℤ) < 2 ^ 31
  deriving Decidable

/-- Raising the upper limit to one above the capacity raises the capacity by one,
if that much has been requested. -/
theorem capacity_raised [DecidableEq K] [Zero K] {c d : AvsCache D T K V} (hfits : FitsInt c)
    (hmin : c.video.cache.mainCache.WithinMin) (hwants : c.capacity < c.requested)
    (hrequested : d.requested = c.requested) (hlimit : d.minCapacity = c.minCapacity) :
    (d.setMaxCapacity (i32 (c.capacity + 1))).capacity = c.capacity + 1 := by
  have hfits' : ((c.capacity + 1 : ℕ) : ℤ) < 2 ^ 31 := by have := hfits.1; omega
  have hexact : i32 ((c.capacity : ℤ) + 1) = ((c.capacity + 1 : ℕ) : ℤ) := i32_natCast hfits'
  have hmin' : c.minCapacity ≤ c.capacity := hmin.1
  rw [AvsCache.setMaxCapacity_capacity, hrequested, hlimit, hexact, sizeOfInt_natCast hfits']
  unfold clamp
  grind

/-- The size of the cache that asks serves as well as that of the donor `d`: `d`
holds more than its lower limit and at most one entry above its capacity, and the
two sizes agree, or the larger one asks and what `d` has requested is less than it
holds, or the smaller one asks and `d` holds one entry above its lower limit. -/
def ServesDonor (d asking : AvsCache D T K V) : Prop :=
  d.minCapacity < d.size ∧ d.size ≤ d.capacity + 1 ∧
    (asking.size = d.size ∨ d.size < asking.size ∧ d.requested < d.size ∨
      asking.size < d.size ∧ d.size = d.minCapacity + 1)
  deriving Decidable

/-- The limit taken from the size of the cache that asks leaves a donor that it
serves one below the donor's own size. -/
theorem ServesDonor.capacity [DecidableEq K] [Zero K] {d asking : AvsCache D T K V}
    (h : ServesDonor d asking) (hfits : FitsInt asking) (hnonempty : asking.size ≠ 0)
    (hwithin : d.video.cache.mainCache.WithinMin) :
    (d.setMaxCapacity ((asking.size : ℤ) - 1)).capacity = d.size - 1 := by
  obtain ⟨hmin, hover, hsizes⟩ := h
  have hrequested : d.capacity ≤ max d.requested d.minCapacity := hwithin.2
  have hlimit : ((asking.size : ℤ) - 1) = ((asking.size - 1 : ℕ) : ℤ) := by omega
  have hint := hfits.2.2
  rw [AvsCache.setMaxCapacity_capacity, hlimit, sizeOfInt_natCast (by omega)]
  unfold clamp
  grind

variable [DecidableEq D]

/-- The listed caches on the device of the cache that asks, in the order in which
the loop meets them. -/
def sameDevice (s : CacheManager C D T K V) (cache : C) : List C :=
  (s.nod cache).cacheRegistry.filter fun old => (s.caches old).device = (s.caches cache).device

/-- The cache to take a slot from: of those, the one used least recently that
holds anything. -/
def donor (s : CacheManager C D T K V) (cache : C) : Option C :=
  (s.sameDevice cache).find? fun old => (s.caches old).size ≠ 0

variable (lowReserve : ℕ → ℕ → Bool)

/-- What a nod with expansion should do to the capacities. -/
def ExpandsRight (before : CacheManager C D T K V) (cache : C) (after : CacheManager C D T K V) :
    Prop :=
  if (before.caches cache).requested ≤ (before.caches cache).capacity then
    after.caches = before.caches
  else
    (after.caches cache).capacity = (before.caches cache).capacity + 1 ∧
      match if Pressure lowReserve (before.devices (before.caches cache).device)
        then before.donor cache else none with
      | none => ∀ c, c ≠ cache → after.caches c = before.caches c
      | some d =>
        (d ≠ cache → (after.caches d).capacity = (before.caches d).size - 1 ∧
          (after.caches d).capacity ≤ (before.caches d).capacity) ∧
        ∀ c, c ≠ cache → c ≠ d → after.caches c = before.caches c

/-- The loop can go without the donor's size: there is no donor and the loop takes
nothing, or the donor is the first cache met and is the cache that asks or is
served by its size. -/
def DonorServed (s : CacheManager C D T K V) (cache : C) : Option C → Prop
  | none => (s.caches cache).size = 0 ∨ s.sameDevice cache = []
  | some d => (s.caches cache).size ≠ 0 ∧ (s.sameDevice cache).head? = some d ∧
      (d = cache ∨ ServesDonor (s.caches d) (s.caches cache))

instance (s : CacheManager C D T K V) (cache : C) :
    (donor : Option C) → Decidable (DonorServed s cache donor)
  | none => inferInstanceAs (Decidable (_ ∨ _))
  | some _ => inferInstanceAs (Decidable (_ ∧ _ ∧ _))

/-- The condition for an action: only an expansion under memory pressure depends
on the donor. -/
def WellServed (s : CacheManager C D T K V) : ManagerAction C D T K V → Prop
  | .nodAndExpandCache cache => FitsInt (s.caches cache) ∧
      ((s.caches cache).requested ≤ (s.caches cache).capacity ∨
        ¬Pressure lowReserve (s.devices (s.caches cache).device) ∨
        DonorServed s cache (s.donor cache))
  | _ => True

instance (s : CacheManager C D T K V) :
    (a : ManagerAction C D T K V) → Decidable (WellServed lowReserve s a)
  | .nodAndExpandCache _ => inferInstanceAs (Decidable (_ ∧ _))
  | .register _ _ _ | .unRegister _ | .nodCache _ | .lru _ _ | .shrink _ | .memory _ _ _ =>
    isTrue trivial

/-- The loop takes a slot from the first cache of the device, if the cache that
asks is not empty. -/
theorem takeSlot_eq [DecidableEq K] [Zero K] (cache : C) (registry : List C)
    (caches : C → AvsCache D T K V) :
    takeSlot cache registry caches =
      match (registry.filter fun old => (caches old).device = (caches cache).device).head? with
      | some old => if (caches cache).getSize ≠ 0 then
          Function.update caches old ((caches old).setMaxCapacity ((caches cache).getSize - 1))
        else caches
      | none => caches := by
  induction registry with
  | nil => rfl
  | cons old rest ih =>
    unfold takeSlot
    by_cases hdevice : (caches old).device = (caches cache).device
    · by_cases hsize : (caches cache).getSize ≠ 0
      · simp [hdevice, hsize]
      · simp only [hdevice, hsize, ih, not_true_eq_false, ne_eq, if_false, decide_true,
          List.filter_cons_of_pos, List.head?_cons]
        split <;> rfl
    · simp only [hdevice, ih, ne_eq, not_false_eq_true, if_true, decide_false, Bool.false_eq_true,
        List.filter_cons_of_neg]

/-- Under the condition, a nod with expansion does to the capacities what it
should. -/
theorem nodAndExpand_expandsRight [DecidableEq K] [Zero K] {s : CacheManager C D T K V} {cache : C}
    (hmin : ∀ c, (s.caches c).video.cache.mainCache.WithinMin)
    (hok : WellServed lowReserve s (.nodAndExpandCache cache)) :
    ExpandsRight lowReserve s cache (s.nodAndExpand lowReserve cache) := by
  obtain ⟨hfits, hserved⟩ := hok
  obtain ⟨hcapInt, hreqInt, hsizeInt⟩ := id hfits
  have hcap := i32_natCast (n := (s.caches cache).capacity) (by omega)
  have hreq := i32_natCast hreqInt
  have hsize := i32_natCast hsizeInt
  unfold ExpandsRight
  simp only [nodAndExpand, nod_caches, nod_devices, AvsCache.getCapacity_eq,
    AvsCache.getRequestedCap_eq, hcap, hreq, Int.ofNat_le]
  by_cases hwants : (s.caches cache).requested ≤ (s.caches cache).capacity
  · simp only [hwants, if_true, nod_caches]
  · have hraise : ∀ d : AvsCache D T K V, d.requested = (s.caches cache).requested →
        d.minCapacity = (s.caches cache).minCapacity →
        (d.setMaxCapacity (i32 ((s.caches cache).capacity + 1))).capacity =
          (s.caches cache).capacity + 1 := fun _ =>
      capacity_raised hfits (hmin cache) (Nat.not_le.mp hwants)
    simp only [hwants, if_false]
    by_cases hpressure : Pressure lowReserve (s.devices (s.caches cache).device)
    · have hdonor := (hserved.resolve_left hwants).resolve_left (not_not_intro hpressure)
      simp only [hpressure, if_true, takeSlot_eq, AvsCache.getSize_eq, hsize]
      have hhead : ((s.nod cache).cacheRegistry.filter fun old =>
          (s.caches old).device = (s.caches cache).device).head? = (s.sameDevice cache).head? := rfl
      rw [hhead]
      cases hfound : s.donor cache with
      | none =>
        simp only [hfound, DonorServed] at hdonor
        have hkept : (match (s.sameDevice cache).head? with
            | some old => if ((s.caches cache).size : ℤ) ≠ 0 then Function.update s.caches old
                ((s.caches old).setMaxCapacity ((s.caches cache).size - 1)) else s.caches
            | none => s.caches) = s.caches := by
          rcases hdonor with hempty | halone
          · simp only [hempty]
            split <;> rfl
          · simp only [halone, List.head?_nil]
        rw [hkept]
        simp only [Function.update_self]
        exact ⟨hraise _ rfl rfl, fun c hc => Function.update_of_ne hc _ _⟩
      | some d =>
        simp only [hfound, DonorServed] at hdonor
        obtain ⟨hnonempty, hfirst, hserves⟩ := hdonor
        have hsize' : ((s.caches cache).size : ℤ) ≠ 0 := by omega
        simp only [hfirst, hsize', ne_eq, not_false_eq_true, if_true, Function.update_self]
        by_cases hself : d = cache
        · subst hself
          simp only [Function.update_self]
          exact ⟨hraise _ (by simp) (by simp), fun h => absurd trivial h,
            fun c hc hd => by rw [Function.update_of_ne hc, Function.update_of_ne hd]⟩
        · have hsizes := hserves.resolve_left hself
          rw [Function.update_of_ne (Ne.symm hself)]
          refine ⟨hraise _ rfl rfl, fun _ => ?_, fun c hc hd => ?_⟩
          · rw [Function.update_of_ne hself, Function.update_self,
              hsizes.capacity hfits hnonempty (hmin d)]
            exact ⟨rfl, Nat.sub_le_of_le_add hsizes.2.1⟩
          · rw [Function.update_of_ne hc, Function.update_of_ne hd]
    · simp only [hpressure, if_false, Function.update_self]
      exact ⟨hraise _ rfl rfl, fun c hc => Function.update_of_ne hc _ _⟩

/-!
## Runs of the cache registry

Caches come and go, are used, grow and shrink in any order. The registry stays
in order, and an expansion does what it should whenever the size of the cache
that asks serves as well as the donor's.
-/

variable {lowReserve} [DecidableEq K] [Zero K] {history : List (ManagerEvent C D T K V)}
  {s t : CacheManager C D T K V} {a : ManagerAction C D T K V} {e : ManagerEvent C D T K V}
  {caches : C → AvsCache D T K V}

/-- Every cache keeps its capacity within its lower limit. -/
def Limited (caches : C → AvsCache D T K V) : Prop :=
  ∀ c, (caches c).video.cache.mainCache.WithinMin

omit [DecidableEq D] [Zero K] [DecidableEq K] in
/-- Changing one cache to one within its limit. -/
theorem Limited.update (h : Limited caches) {cache : C} {object : AvsCache D T K V}
    (hobject : object.video.cache.mainCache.WithinMin) :
    Limited (Function.update caches cache object) := by
  intro c
  by_cases hc : c = cache
  · rw [hc, Function.update_self]
    exact hobject
  · rw [Function.update_of_ne hc]
    exact h c

/-- Taking a slot keeps the limits. -/
theorem Limited.takeSlot (h : Limited caches) (cache : C)
    (registry : List C) : Limited (takeSlot cache registry caches) := by
  rw [takeSlot_eq]
  split
  · split
    · exact h.update (AvsCache.setMaxCapacity_withinMin _ _)
    · exact h
  · exact h

/-- Shrinking the caches of a device keeps the limits. -/
theorem Limited.shrinkCache (h : Limited caches) (device : D)
    (registry : List C) : Limited (CacheManager.shrinkCache device registry caches) := by
  induction registry generalizing caches with
  | nil => exact h
  | cons cache rest ih =>
    unfold CacheManager.shrinkCache
    split
    · exact ih h
    · dsimp only
      split
      · exact ih (h.update (AvsCache.setMaxCapacity_withinMin _ _))
      · exact ih h

/-- A nod with expansion keeps the limits. -/
theorem Limited.nodAndExpand (h : Limited s.caches) (cache : C) :
    Limited (s.nodAndExpand lowReserve cache).caches := by
  simp only [CacheManager.nodAndExpand, nod_caches, nod_devices]
  split
  · rwa [nod_caches]
  · refine Limited.update ?_ (AvsCache.setMaxCapacity_withinMin _ _)
    split
    · exact h.takeSlot _ _
    · exact h

/-- Apart from the nod, an expansion changes only the cache objects. -/
theorem nodAndExpand_eq (lowReserve : ℕ → ℕ → Bool) (s : CacheManager C D T K V) (cache : C) :
    ∃ caches, s.nodAndExpand lowReserve cache = { s.nod cache with caches := caches } := by
  simp only [CacheManager.nodAndExpand]
  split
  · exact ⟨_, rfl⟩
  · exact ⟨_, rfl⟩

/-- What an expansion event says. -/
def Expanded (lowReserve : ℕ → ℕ → Bool) : ManagerEvent C D T K V → Prop
  | .expanded cache before after => ExpandsRight lowReserve before cache after
  | _ => True

variable [DecidableEq T]

/-- Every step keeps the registry in order and the limits; an expansion under the
condition does what it should. -/
theorem Registered.step (h : Registered history s) (hlimited : Limited s.caches)
    (hok : WellServed lowReserve s a) (hstep : step lowReserve s a = some (t, e)) :
    Registered (e :: history) t ∧ Limited t.caches ∧ Expanded lowReserve e := by
  cases a with
  | register cache device mode =>
    simp only [step, Option.ite_none_left_eq_some, Option.some.injEq,
      Prod.mk.injEq] at hstep
    obtain ⟨hnew, rfl, rfl⟩ := hstep
    refine ⟨h.register hnew _, ?_, trivial⟩
    exact hlimited.update ⟨Nat.zero_le _, Nat.zero_le _⟩
  | unRegister cache =>
    obtain ⟨hlive, ⟨⟩⟩ := Option.ite_none_right_eq_some.mp hstep
    refine ⟨h.unRegister, ?_, trivial⟩
    unfold unRegisterCache
    split <;> exact hlimited
  | nodCache cache =>
    obtain ⟨hlive, ⟨⟩⟩ := Option.ite_none_right_eq_some.mp hstep
    refine ⟨h.nod hlive fun c => eq_comm, ?_, trivial⟩
    rwa [nod_caches]
  | nodAndExpandCache cache =>
    obtain ⟨hlive, heq⟩ := Option.ite_none_right_eq_some.mp hstep
    obtain ⟨rfl, rfl⟩ := Prod.mk.inj (Option.some.inj heq)
    refine ⟨?_, hlimited.nodAndExpand cache, nodAndExpand_expandsRight lowReserve hlimited hok⟩
    obtain ⟨caches, hcaches⟩ := nodAndExpand_eq lowReserve s cache
    generalize hafter : s.nodAndExpand lowReserve cache = after at hcaches ⊢
    have hnod := h.nod (e := .expanded cache s after) hlive fun c => eq_comm
    rw [hcaches]
    rw [hcaches] at hnod
    exact ⟨hnod.distinct, hnod.once, hnod.order⟩
  | lru cache action =>
    simp only [step, Option.ite_none_right_eq_some, Option.map_eq_some_iff] at hstep
    obtain ⟨hlive, ⟨video, event⟩, haction, hnext⟩ := hstep
    obtain ⟨rfl, rfl⟩ := Prod.mk.inj hnext
    exact ⟨h.congr rfl rfl rfl fun _ _ => id,
      hlimited.update (LruSystem.step_withinMin (hlimited cache) haction), trivial⟩
  | shrink device =>
    simp only [step, Option.some.injEq, Prod.mk.injEq] at hstep
    obtain ⟨rfl, rfl⟩ := hstep
    exact ⟨h.congr rfl rfl rfl fun _ _ => id, hlimited.shrinkCache _ _, trivial⟩
  | memory device memoryMax memoryUsed =>
    simp only [step, Option.some.injEq, Prod.mk.injEq] at hstep
    obtain ⟨rfl, rfl⟩ := hstep
    exact ⟨h.congr rfl rfl rfl fun _ _ => id, hlimited, trivial⟩

/-- In every run whose expansions meet the condition, the registry holds each
live cache exactly once, most recently used last, and every expansion does to
the capacities what it should. -/
theorem registry_run (lowReserve : ℕ → ℕ → Bool) (device : D) (devices : D → Device)
    (hrun : Run (step lowReserve) (WellServed lowReserve)
      (initial device devices : CacheManager C D T K V) history s) :
    Registered history s ∧ AllEvents (fun _ e => Expanded lowReserve e) history := by
  have hstart : Registered [] (initial device devices : CacheManager C D T K V) ∧
      Limited (initial device devices : CacheManager C D T K V).caches :=
    ⟨⟨List.nodup_nil, List.Perm.nil, List.Pairwise.nil⟩, fun _ => ⟨Nat.zero_le _, Nat.zero_le _⟩⟩
  constructor
  · exact (hrun.invariant (fun history s => Registered history s ∧ Limited s.caches) hstart
      fun hinv hok hstep =>
        have hnext := hinv.1.step hinv.2 hok hstep
        ⟨hnext.1, hnext.2.1⟩).1
  · exact hrun.allEvents (fun history s => Registered history s ∧ Limited s.caches) hstart
      fun hinv hok hstep =>
        have hnext := hinv.1.step hinv.2 hok hstep
        ⟨⟨hnext.1, hnext.2.1⟩, hnext.2.2⟩

/-- Free memory below a tenth of the limit, in exact arithmetic. -/
def belowTenth (memoryMax free : ℕ) : Bool := free * 10 < memoryMax

/-- Three lookups of one key make a cache without capacity ask for an entry, and
the next lookup reserves it. -/
def reserveEntry (cache : ℕ) : List (ManagerAction ℕ Unit Unit ℕ ℕ) :=
  List.replicate 4 (.lru cache (.lookup () 7 true none))

/-- The frame reserved is delivered. -/
def deliver (cache : ℕ) : List (ManagerAction ℕ Unit Unit ℕ ℕ) := [.lru cache (.commit 1 5)]

/-- Cache 1 holds a frame. When memory runs short, it and cache 2 lose their
capacity and the frames not in use. Cache 1 gets its capacity back and is filled
again; then cache 2 asks for its own back while memory is short. -/
def contest (two : List (ManagerAction ℕ Unit Unit ℕ ℕ)) :
    List (ManagerAction ℕ Unit Unit ℕ ℕ) :=
  [.register 1 () .fastStart, .register 2 () .fastStart, .register 3 () .fastStart] ++
    reserveEntry 1 ++ deliver 1 ++ two ++
    [.shrink (), .nodAndExpandCache 1, .lru 1 (.lookup () 7 true none)] ++ deliver 1 ++
    [.memory () 100 95, .nodAndExpandCache 2]

/-- The latest event is an expansion of cache 2 under memory pressure, which
finds it below its requested capacity and cache 1 with one entry as the donor. -/
def contested : List (ManagerEvent ℕ Unit Unit ℕ ℕ) → Bool
  | .expanded 2 before _ :: _ =>
    (before.caches 2).capacity < (before.caches 2).requested ∧
      Pressure belowTenth (before.devices ()) ∧ before.donor 2 = some 1 ∧
      (before.caches 1).size = 1
  | _ => false

/-- Cache 2 still holds a frame in use, so its size is that of the donor. -/
theorem registry_run_sameSize : ∃ (history : List (ManagerEvent ℕ Unit Unit ℕ ℕ))
    (s : CacheManager ℕ Unit Unit ℕ ℕ), contested history = true ∧ Registered history s ∧
      AllEvents (fun _ e => Expanded belowTenth e) history := by
  obtain ⟨history, s, hrun, hlatest⟩ := exists_run (step belowTenth)
    (WellServed belowTenth) (initial () fun _ => ⟨100, 0⟩)
    (contest (reserveEntry 2)) (fun history _ => contested history) (by decide +kernel)
  exact ⟨history, s, hlatest, registry_run belowTenth () (fun _ => ⟨100, 0⟩) hrun⟩

/-- Cache 1 has kept a capacity of one frame. -/
def donorKept : List (ManagerEvent ℕ Unit Unit ℕ ℕ) → Bool
  | .expanded _ _ after :: _ => (after.caches 1).capacity == 1
  | _ => false

/-- Cache 2 is empty, so the loop does not take the slot of cache 1, which is not. -/
theorem registry_run_emptyAsker :
    ¬∀ (lowReserve : ℕ → ℕ → Bool) (devices : Unit → Device)
      (history : List (ManagerEvent ℕ Unit Unit ℕ ℕ)) (s : CacheManager ℕ Unit Unit ℕ ℕ),
      Run (step lowReserve) always (initial () devices) history s →
        Registered history s ∧ AllEvents (fun _ e => Expanded lowReserve e) history := by
  intro h
  obtain ⟨history, s, hrun, hlatest⟩ := exists_run (step belowTenth) always
    (initial () fun _ => ⟨100, 0⟩) (contest (reserveEntry 2 ++ deliver 2))
    (fun history _ => contested history && donorKept history) (by decide +kernel)
  have hevents := (h belowTenth _ _ _ hrun).2
  rw [Bool.and_eq_true] at hlatest
  obtain ⟨hcontested, hkept⟩ := hlatest
  unfold contested at hcontested
  split at hcontested
  · next before after earlier =>
    obtain ⟨hwants, hpressure, hdonor, hsize⟩ := of_decide_eq_true hcontested
    have hright : ExpandsRight belowTenth before 2 after := hevents.1
    have hkept' : (after.caches 1).capacity = 1 := by simpa [donorKept] using hkept
    unfold ExpandsRight at hright
    rw [if_neg (Nat.not_le.mpr hwants), if_pos hpressure, hdonor] at hright
    have hlowered := (hright.2.1 (by decide)).1
    omega
  · cases hcontested

end CacheManager

end AviSynth
