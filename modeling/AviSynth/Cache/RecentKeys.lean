import AviSynth.Cache.LruLookup

/-!
# The most recent keys

What `SimpleLruCache` is for: it holds the keys that were looked up last, as many as the
capacity allows, with their values. `lookup` trims the list before it puts a new node in
front of it, so the list keeps to this only while there is room for new keys.
-/

namespace AviSynth

/-- The calls of an owner. The pointer that `lookup` hands back may be written to. -/
inductive LruCall (K V : Type) where
  | lookup (key : K) (lookuponly : Bool) (stored : Option V)
  | remove (key : K)
  | resize (newCap : ℕ)
  | setLimits (min max : ℕ)
  deriving DecidableEq

/-- The keys that are to be resident, most recently looked up first, each with the
value stored for it. -/
structure RecentKeys (K V : Type) where
  minCapacity : ℕ
  maxCapacity : ℕ
  requestedCapacity : ℕ
  capacity : ℕ
  resident : List (K × Option V)

namespace RecentKeys

variable {K V : Type} [DecidableEq K]

/-- An empty list. -/
def new (capacity : ℕ) : RecentKeys K V := ⟨0, sizeMax, capacity, capacity, []⟩

/-- A new capacity; the least recent keys go. -/
def resize (r : RecentKeys K V) (newCap : ℕ) : RecentKeys K V :=
  let capacity := clamp newCap r.minCapacity r.maxCapacity
  { r with
    requestedCapacity := newCap
    capacity := capacity
    resident := r.resident.take capacity }

/-- A key that is looked up becomes the most recent one; a new key displaces the least
recent one if there is no room for it. -/
def call (r : RecentKeys K V) : LruCall K V → RecentKeys K V
  | .lookup key lookuponly stored =>
    match r.resident.find? (fun e => e.1 = key) with
    | some e =>
      { r with resident := (key, stored.or e.2) :: r.resident.eraseP (fun e => e.1 = key) }
    | none =>
      if lookuponly then r
      else { r with resident := ((key, stored) :: r.resident).take r.capacity }
  | .remove key => { r with resident := r.resident.eraseP (fun e => e.1 = key) }
  | .resize newCap => r.resize newCap
  | .setLimits min max =>
    resize { r with minCapacity := min, maxCapacity := max } r.requestedCapacity

/-- The keys after some calls, the newest call first. -/
def after (capacity : ℕ) (history : List (LruCall K V)) : RecentKeys K V :=
  history.foldr (fun c r => r.call c) (new capacity)

end RecentKeys

/-- An entry is the one of a key, and holds the value stored for it. -/
def Entry.Holds {K V : Type} (e : Entry K V) (r : K × Option V) : Prop :=
  e.key = r.1 ∧ ∀ v ∈ r.2, e.value = v

namespace SimpleLruCache

variable {K V σ : Type}

/-- The write through the pointer of a lookup, if there is one. -/
def store (c : SimpleLruCache K V) (storage : Storage V) (stored : Option V) :
    SimpleLruCache K V :=
  match storage, stored with
  | .null, _ => c
  | _, none => c
  | _, some value => c.setFront value

section Calls

variable [DecidableEq K]

/-- A call of the owner. -/
def call (evict : Entry K V → σ → Bool × σ) (blank : V) (c : SimpleLruCache K V) (s : σ) :
    LruCall K V → SimpleLruCache K V × σ
  | .lookup key lookuponly stored =>
    let (storage, c, s) := c.lookup evict blank key lookuponly s
    (c.store storage stored, s)
  | .remove key => (c.remove key, s)
  | .resize newCap => c.resize evict newCap s
  | .setLimits min max => c.setLimits evict min max s

/-- The calls one by one, each with itself as the event. -/
def callStep (evict : Entry K V → σ → Bool × σ) (blank : V) (x : SimpleLruCache K V × σ)
    (call : LruCall K V) : Option ((SimpleLruCache K V × σ) × LruCall K V) :=
  some (x.1.call evict blank x.2 call, call)

/-- Where a call puts in a new key, there is room for it. -/
def RoomFor (c : SimpleLruCache K V) (call : LruCall K V) : Prop :=
  match call with
  | .lookup key false _ =>
    c.cache.find? (fun e => e.key = key) = none → c.realCapacity ≠ 0 → c.size < c.realCapacity
  | _ => True

instance [DecidableEq V] (c : SimpleLruCache K V) (call : LruCall K V) :
    Decidable (c.RoomFor call) :=
  match call with
  | .lookup _ false _ => inferInstanceAs (Decidable (_ → _ → _))
  | .lookup _ true _ => inferInstanceAs (Decidable True)
  | .remove _ => inferInstanceAs (Decidable True)
  | .resize _ => inferInstanceAs (Decidable True)
  | .setLimits _ _ => inferInstanceAs (Decidable True)

end Calls

/-- The resident entries are the recent keys with their values, each key once, and no
more of them than the capacity allows. -/
structure Keeps (c : SimpleLruCache K V) (r : RecentKeys K V) : Prop where
  minCapacity : c.minCapacity = r.minCapacity
  maxCapacity : c.maxCapacity = r.maxCapacity
  requestedCapacity : c.requestedCapacity = r.requestedCapacity
  realCapacity : c.realCapacity = r.capacity
  holds : List.Forall₂ Entry.Holds c.cache r.resident
  nodup : (c.cache.map Entry.key).Nodup
  size_le : c.size ≤ c.realCapacity

variable {c : SimpleLruCache K V} {r : RecentKeys K V} {evict : Entry K V → σ → Bool × σ}

/-- A callback that vetoes nothing lets every visited entry go. -/
theorem evictBack_of_noVeto (hevict : ∀ e s, (evict e s).1 = true) (visited pool : List (Entry K V))
    (s : σ) : (evictBack evict visited pool s).1 = [] := by
  induction visited with
  | nil => rfl
  | cons e es ih => simp [evictBack, hevict, ih]

theorem trim_cache (hevict : ∀ e s, (evict e s).1 = true) (c : SimpleLruCache K V) (s : σ) :
    (c.trim evict s).1.cache = c.cache.take c.realCapacity := by
  rw [trim_eq]
  simp [evictBack_of_noVeto hevict]

theorem resize_cache (hevict : ∀ e s, (evict e s).1 = true) (c : SimpleLruCache K V) (newCap : ℕ)
    (s : σ) : (c.resize evict newCap s).1.cache =
      c.cache.take (clamp newCap c.minCapacity c.maxCapacity) :=
  trim_cache hevict _ s

theorem Keeps.resize (c : SimpleLruCache K V) (r : RecentKeys K V)
    (hevict : ∀ e s, (evict e s).1 = true)
    (hholds : List.Forall₂ Entry.Holds c.cache r.resident) (hnodup : (c.cache.map Entry.key).Nodup)
    (hmin : c.minCapacity = r.minCapacity) (hmax : c.maxCapacity = r.maxCapacity) (newCap : ℕ)
    (s : σ) : (c.resize evict newCap s).1.Keeps (r.resize newCap) where
  minCapacity := by simpa [SimpleLruCache.resize, RecentKeys.resize] using hmin
  maxCapacity := by simpa [SimpleLruCache.resize, RecentKeys.resize] using hmax
  requestedCapacity := by simp [SimpleLruCache.resize, RecentKeys.resize]
  realCapacity := by simp [SimpleLruCache.resize, RecentKeys.resize, hmin, hmax]
  holds := by
    rw [resize_cache hevict, hmin, hmax]
    exact List.forall₂_take _ hholds
  nodup := by
    rw [resize_cache hevict, List.map_take]
    exact hnodup.sublist (List.take_sublist _ _)
  size_le := by
    rw [size, resize_cache hevict, List.length_take]
    rw [SimpleLruCache.resize, SimpleLruCache.trim_realCapacity]
    exact Nat.min_le_left _ _

section Lookups

variable [DecidableEq K]

/-- Both lists have a key in the same place. -/
theorem find_holds {entries : List (Entry K V)} {resident : List (K × Option V)}
    (h : List.Forall₂ Entry.Holds entries resident) (key : K) :
    (entries.find? (fun e => e.key = key) = none ∧
      resident.find? (fun e => e.1 = key) = none) ∨
    ∃ e k, entries.find? (fun e => e.key = key) = some e ∧
      resident.find? (fun e => e.1 = key) = some k ∧ e.Holds k ∧ e.key = key := by
  induction h with
  | nil => exact .inl ⟨rfl, rfl⟩
  | @cons e k entries resident hek _ ih =>
    by_cases hkey : e.key = key
    · have hk : k.1 = key := hek.1 ▸ hkey
      exact .inr ⟨e, k, by simp [hkey], by simp [hk], hek, hkey⟩
    · have hk : ¬k.1 = key := hek.1 ▸ hkey
      simpa [List.find?_cons, hkey, hk] using ih

theorem eraseP_holds {entries : List (Entry K V)} {resident : List (K × Option V)}
    (h : List.Forall₂ Entry.Holds entries resident) (key : K) :
    List.Forall₂ Entry.Holds (entries.eraseP fun e => e.key = key)
      (resident.eraseP fun e => e.1 = key) := by
  induction h with
  | nil => exact .nil
  | @cons e k entries resident hek hrest ih =>
    by_cases hkey : e.key = key
    · have hk : k.1 = key := hek.1 ▸ hkey
      simpa [List.eraseP_cons, hkey, hk] using hrest
    · have hk : ¬k.1 = key := hek.1 ▸ hkey
      simpa [List.eraseP_cons, hkey, hk] using ⟨hek, ih⟩

theorem notMem_keys_of_find?_none {key : K} (h : c.cache.find? (fun e => e.key = key) = none) :
    key ∉ c.cache.map Entry.key := by
  intro hmem
  obtain ⟨e, he, hkey⟩ := List.mem_map.mp hmem
  simpa [hkey] using List.find?_eq_none.mp h e he

/-- A found entry holds what is stored through the pointer, or what it held. -/
theorem Keeps.lookup_found (h : c.Keeps r) {key : K} {e : Entry K V} {k : K × Option V}
    (hfind : c.cache.find? (fun e => e.key = key) = some e) (hholds : e.Holds k)
    (lookuponly : Bool) (stored : Option V) (blank : V) (s : σ) :
    (c.call evict blank s (.lookup key lookuponly stored)).1.Keeps
      { r with resident := (key, stored.or k.2) :: r.resident.eraseP fun e => e.1 = key } := by
  have hkey : e.key = key := key_of_find? hfind
  obtain ⟨value, hcall, hvalue⟩ : ∃ value,
      (c.call evict blank s (.lookup key lookuponly stored)).1 =
        { c with cache := ⟨key, value⟩ :: c.cache.eraseP fun e => e.key = key } ∧
      ∀ v ∈ stored.or k.2, value = v := by
    rw [call, SimpleLruCache.lookup_found evict blank s hfind]
    cases stored with
    | none => exact ⟨e.value, by simp [store, ← hkey], hholds.2⟩
    | some value => exact ⟨value, by simp [store, setFront, hkey], by simp⟩
  have hperm := perm_of_find? hfind
  have hkeys : (c.cache.map Entry.key).Perm
      (key :: (c.cache.eraseP fun e => e.key = key).map Entry.key) := by
    rw [← hkey, ← List.map_cons, hkey]
    exact hperm.map Entry.key
  rw [hcall]
  exact {
    minCapacity := h.minCapacity
    maxCapacity := h.maxCapacity
    requestedCapacity := h.requestedCapacity
    realCapacity := h.realCapacity
    holds := .cons ⟨rfl, hvalue⟩ (eraseP_holds h.holds key)
    nodup := hkeys.nodup_iff.mp h.nodup
    size_le := hperm.length_eq.ge.trans h.size_le }

/-- Where there is room, a new key is put in front of the others. -/
theorem Keeps.lookup_new (hevict : ∀ e s, (evict e s).1 = true) (h : c.Keeps r) {key : K}
    (hfind : c.cache.find? (fun e => e.key = key) = none)
    (hroom : c.realCapacity ≠ 0 → c.size < c.realCapacity) (stored : Option V) (blank : V) (s : σ) :
    (c.call evict blank s (.lookup key false stored)).1.Keeps
      { r with resident := ((key, stored) :: r.resident).take r.capacity } := by
  have htrim : (c.trim evict s).1.cache = c.cache := by
    rw [trim_cache hevict, List.take_of_length_le h.size_le]
  by_cases hcap : c.realCapacity = 0
  · have hcapacity : r.capacity = 0 := h.realCapacity ▸ hcap
    have hnone : c.cache = [] := List.length_eq_zero_iff.mp (Nat.le_zero.mp (hcap ▸ h.size_le))
    rw [call, lookup_noRoom evict blank s hfind hcap, hcapacity, List.take_zero]
    refine ⟨?_, ?_, ?_, ?_, ?_, ?_, ?_⟩ <;> simp [store, htrim, hnone, size, h.minCapacity,
      h.maxCapacity, h.requestedCapacity, hcap]
  · obtain ⟨stale, pool, hlookup⟩ := lookup_fresh evict blank s hfind hcap
    obtain ⟨value, hcall, hvalue⟩ : ∃ value,
        (c.call evict blank s (.lookup key false stored)).1 =
          { (c.trim evict s).1 with cache := ⟨key, value⟩ :: c.cache, pool := pool } ∧
        ∀ v ∈ stored, value = v := by
      rw [call, hlookup, htrim]
      cases stored with
      | none => exact ⟨stale, rfl, by simp⟩
      | some value => exact ⟨value, rfl, by simp⟩
    have hlength : ((key, stored) :: r.resident).length ≤ r.capacity := by
      have hsize := hroom hcap
      rw [size, h.holds.length_eq, h.realCapacity] at hsize
      exact hsize
    rw [hcall, List.take_of_length_le hlength]
    exact {
      minCapacity := by simpa using h.minCapacity
      maxCapacity := by simpa using h.maxCapacity
      requestedCapacity := by simpa using h.requestedCapacity
      realCapacity := by simpa using h.realCapacity
      holds := .cons ⟨rfl, hvalue⟩ h.holds
      nodup := List.nodup_cons.mpr ⟨notMem_keys_of_find?_none hfind, h.nodup⟩
      size_le := by simpa [size, Nat.succ_le_iff] using hroom hcap }

theorem Keeps.remove (h : c.Keeps r) (key : K) : (c.remove key).Keeps (r.call (.remove key)) := by
  have hcache : (c.remove key).cache = c.cache.eraseP fun e => e.key = key := by
    unfold SimpleLruCache.remove
    cases hfind : c.cache.find? fun e => e.key = key with
    | none =>
      have hnone : ∀ e ∈ c.cache, ¬decide (e.key = key) = true := by
        simpa using List.find?_eq_none.mp hfind
      exact (List.eraseP_of_forall_not hnone).symm
    | some e => rfl
  have hlimits : (c.remove key).minCapacity = c.minCapacity ∧
      (c.remove key).maxCapacity = c.maxCapacity ∧
      (c.remove key).requestedCapacity = c.requestedCapacity ∧
      (c.remove key).realCapacity = c.realCapacity := by
    unfold SimpleLruCache.remove
    cases c.cache.find? fun e => e.key = key <;> exact ⟨rfl, rfl, rfl, rfl⟩
  obtain ⟨hmin, hmax, hrequested, hreal⟩ := hlimits
  have hsub : (c.cache.eraseP fun e => e.key = key).Sublist c.cache := List.eraseP_sublist
  exact {
    minCapacity := hmin.trans h.minCapacity
    maxCapacity := hmax.trans h.maxCapacity
    requestedCapacity := hrequested.trans h.requestedCapacity
    realCapacity := hreal.trans h.realCapacity
    holds := hcache ▸ eraseP_holds h.holds key
    nodup := hcache ▸ h.nodup.sublist (hsub.map _)
    size_le := by
      rw [size, hcache, hreal]
      exact hsub.length_le.trans h.size_le }

/-- A call for which there is room keeps to the purpose of the list. -/
theorem Keeps.call (hevict : ∀ e s, (evict e s).1 = true) (h : c.Keeps r) {call : LruCall K V}
    (hroom : c.RoomFor call) (blank : V) (s : σ) :
    (c.call evict blank s call).1.Keeps (r.call call) := by
  cases call with
  | lookup key lookuponly stored =>
    obtain ⟨hfind, hresident⟩ | ⟨e, k, hfind, hresident, hholds, -⟩ := find_holds h.holds key
    · cases lookuponly with
      | true =>
        simpa [SimpleLruCache.call, lookup_only evict blank s hfind, store, RecentKeys.call,
          hresident] using h
      | false =>
        simpa [RecentKeys.call, hresident] using
          h.lookup_new hevict hfind (hroom hfind) stored blank s
    · simpa [RecentKeys.call, hresident] using
        h.lookup_found hfind hholds lookuponly stored blank s
  | remove key => exact h.remove key
  | resize newCap =>
    exact Keeps.resize c r hevict h.holds h.nodup h.minCapacity h.maxCapacity newCap s
  | setLimits min max =>
    have hkeeps := Keeps.resize { c with minCapacity := min, maxCapacity := max }
      { r with minCapacity := min, maxCapacity := max } hevict h.holds h.nodup rfl rfl
      c.requestedCapacity s
    rw [h.requestedCapacity] at hkeeps
    simpa only [SimpleLruCache.call, setLimits, RecentKeys.call, h.requestedCapacity] using hkeeps

end Lookups

end SimpleLruCache

open SimpleLruCache Transition

variable {K V σ : Type} [DecidableEq K]

/-- The list keeps the most recent keys in every run that puts in new keys only where
there is room for them. -/
theorem lruCache_keepsRecent (evict : Entry K V → σ → Bool × σ)
    (hevict : ∀ e s, (evict e s).1 = true) (blank : V) (capacity : ℕ) (s₀ : σ)
    {history : List (LruCall K V)} {x : SimpleLruCache K V × σ}
    (hrun : Run (callStep evict blank) (fun x call => x.1.RoomFor call) (.new capacity, s₀)
      history x) :
    x.1.Keeps (RecentKeys.after capacity history) := by
  refine hrun.invariant (fun history x => x.1.Keeps (RecentKeys.after capacity history)) ?_ ?_
  · exact ⟨rfl, rfl, rfl, rfl, .nil, List.nodup_nil, Nat.zero_le _⟩
  · rintro history ⟨c, s⟩ t call event hkeeps hroom hstep
    obtain ⟨⟩ := Option.some.inj hstep
    exact hkeeps.call hevict hroom blank s

/-- A cache for two keys in which one is replaced. -/
theorem lruCache_keepsRecent_replaced :
    ∃ (history : List (LruCall ℕ ℕ)) (x : SimpleLruCache ℕ ℕ × Unit),
      history.length = 4 ∧ x.1.Keeps (RecentKeys.after 2 history) := by
  obtain ⟨history, x, hrun, hcheck⟩ := exists_run
    (callStep (fun (_ : Entry ℕ ℕ) (s : Unit) => (true, s)) 0)
    (fun x call => x.1.RoomFor call) (.new 2, ())
    [.lookup 1 false (some 10), .lookup 2 false (some 20), .remove 1, .lookup 3 false (some 30)]
    (fun history _ => history.length = 4) (by decide)
  exact ⟨history, x, of_decide_eq_true hcheck,
    lruCache_keepsRecent _ (fun _ _ => rfl) 0 2 () hrun⟩

/-- A second key in a cache for one key: the list is trimmed before it is there. -/
theorem lruCache_overfull :
    ¬∀ (capacity : ℕ) (history : List (LruCall ℕ ℕ)) (x : SimpleLruCache ℕ ℕ × Unit),
      Run (callStep (fun _ s => (true, s)) 0) always (.new capacity, ()) history x →
        x.1.Keeps (RecentKeys.after capacity history) := by
  intro hall
  obtain ⟨history, x, hrun, hcheck⟩ := exists_run
    (callStep (fun (_ : Entry ℕ ℕ) (s : Unit) => (true, s)) 0) always (.new 1, ())
    [.lookup 1 false (some 10), .lookup 2 false (some 20)]
    (fun _ x => x.1.realCapacity < x.1.size) (by decide)
  have hkeeps := hall 1 history x hrun
  exact absurd hkeeps.size_le (Nat.not_le.mpr (of_decide_eq_true hcheck))

end AviSynth
