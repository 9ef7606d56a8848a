import AviSynth.Cache.LruCache
import Mathlib.Data.List.Perm.Basic

/-!
# What eviction leaves alone

The main cache only evicts entries that nobody holds. This file describes the
effect of `trim` and `resize` on the main cache by the relation `Evicts`: the
remaining entries are a sublist, locked entries remain, and the contents of the
remaining entries and their blocks are untouched.
-/

namespace AviSynth

open LruStore

/-- No block is in two places, and every block lies below the next new address. -/
structure ObjectPool.WellFormed (pool : ObjectPool) : Prop where
  nodup : (pool.useList ++ pool.freeList).Nodup
  bound : ∀ p ∈ pool.useList ++ pool.freeList, p < pool.next

variable {pool : ObjectPool}

/-- An allocated block was not in use, and it is put in front of the use list. -/
theorem ObjectPool.WellFormed.alloc (h : pool.WellFormed) :
    pool.alloc.1 ∉ pool.useList ∧ pool.alloc.2.useList = pool.alloc.1 :: pool.useList ∧
      pool.alloc.2.WellFormed := by
  obtain ⟨hnodup, hbound⟩ := h
  unfold ObjectPool.alloc
  cases hfree : pool.freeList with
  | nil =>
    simp only [hfree, List.append_nil] at hnodup hbound
    have hnew : pool.next ∉ pool.useList := fun hmem => Nat.lt_irrefl _ (hbound _ hmem)
    refine ⟨hnew, rfl, ?_, ?_⟩
    · simpa using ⟨hnew, hnodup⟩
    · intro p hp
      simp only [List.append_nil, List.mem_cons] at hp
      rcases hp with rfl | hp
      · exact Nat.lt_succ_self _
      · exact Nat.lt_succ_of_lt (hbound p hp)
  | cons p rest =>
    simp only [hfree] at hnodup hbound
    have hperm : (pool.useList ++ p :: rest).Perm (p :: pool.useList ++ rest) := List.perm_middle
    have hnodup' := hperm.nodup_iff.mp hnodup
    refine ⟨fun hmem => ?_, rfl, hnodup', fun q hq => hbound q (hperm.mem_iff.mpr hq)⟩
    simp only [List.cons_append, List.nodup_cons, List.mem_append, not_or] at hnodup'
    exact hnodup'.1.1 hmem

/-- Freeing a used block keeps the pool well formed. -/
theorem ObjectPool.WellFormed.free (h : pool.WellFormed) {p : EntryPtr}
    (hp : p ∈ pool.useList) : (pool.free p).WellFormed := by
  have hperm : (pool.useList.erase p ++ p :: pool.freeList).Perm
      (pool.useList ++ pool.freeList) :=
    List.perm_middle.trans ((List.perm_cons_erase hp).symm.append_right _)
  exact ⟨hperm.nodup_iff.mpr h.nodup, fun q hq => h.bound q (hperm.mem_iff.mp hq)⟩

/-- A block stays in use when another one is freed. -/
theorem ObjectPool.mem_free {p q : EntryPtr} (hne : q ≠ p)
    (hq : q ∈ pool.useList) : q ∈ (pool.free p).useList :=
  (List.mem_erase_of_ne hne).mpr hq

variable {K V : Type} {s : LruStore K V} {es : List (Entry K EntryPtr)} {e : Entry K EntryPtr}

/-- The listed entries have distinct keys, and each owns a block of its own
that is in use and records the entry's key. -/
structure Slots (es : List (Entry K EntryPtr)) (s : LruStore K V) : Prop where
  keys : (es.map Entry.key).Nodup
  values : (es.map Entry.value).Nodup
  entryKey : ∀ e ∈ es, (s.entries e.value).key = e.key
  used : ∀ e ∈ es, e.value ∈ s.entryPool.useList
  pool : s.entryPool.WellFormed

/-- Two listed entries on one block are the same entry. -/
theorem Slots.eq_of_value (h : Slots es s)
    {e f : Entry K EntryPtr} (he : e ∈ es) (hf : f ∈ es) (hvalue : e.value = f.value) : e = f :=
  List.inj_on_of_nodup_map h.values he hf hvalue

/-- Two listed entries for one key are the same entry. -/
theorem Slots.eq_of_key (h : Slots es s)
    {e f : Entry K EntryPtr} (he : e ∈ es) (hf : f ∈ es) (hkey : e.key = f.key) : e = f :=
  List.inj_on_of_nodup_map h.keys he hf hkey

/-- A listed entry is the one found for its key. -/
theorem Slots.find? [DecidableEq K] (h : Slots es s) (he : e ∈ es) :
    es.find? (fun d => d.key = e.key) = some e := by
  cases hfind : es.find? (fun d => d.key = e.key) with
  | none => simpa using List.find?_eq_none.mp hfind e he
  | some d =>
    have hkey : d.key = e.key := by simpa using List.find?_some hfind
    rw [h.eq_of_key (List.mem_of_find?_eq_some hfind) he hkey]

/-- Reordering the list changes nothing. -/
theorem Slots.perm {es fs : List (Entry K EntryPtr)} (h : Slots es s)
    (hperm : es.Perm fs) : Slots fs s where
  keys := (hperm.map _).nodup_iff.mp h.keys
  values := (hperm.map _).nodup_iff.mp h.values
  entryKey e he := h.entryKey e (hperm.mem_iff.mpr he)
  used e he := h.used e (hperm.mem_iff.mpr he)
  pool := h.pool

/-- A part of the list keeps the properties of the whole. -/
theorem Slots.sublist {es fs : List (Entry K EntryPtr)} (h : Slots es s)
    (hsub : fs.Sublist es) : Slots fs s where
  keys := h.keys.sublist (hsub.map _)
  values := h.values.sublist (hsub.map _)
  entryKey e he := h.entryKey e (hsub.subset he)
  used e he := h.used e (hsub.subset he)
  pool := h.pool

/-- Changes of an entry that leave its key alone, and any change of the ghost
list, do not matter to the slots. -/
theorem Slots.congr {s t : LruStore K V} (h : Slots es s)
    (hkey : ∀ e ∈ es, (t.entries e.value).key = (s.entries e.value).key)
    (hpool : t.entryPool = s.entryPool) : Slots es t where
  keys := h.keys
  values := h.values
  entryKey e he := (hkey e he).trans (h.entryKey e he)
  used e he := hpool ▸ h.used e he
  pool := hpool ▸ h.pool

/-- Going from the entries `es` in store `s` to the entries `fs` in store `t` by
evictions: only unlocked entries have gone, the others are as they were. -/
structure Evicts (es : List (Entry K EntryPtr)) (s : LruStore K V)
    (fs : List (Entry K EntryPtr)) (t : LruStore K V) : Prop where
  sublist : fs.Sublist es
  locked : ∀ e ∈ es, 0 < (s.entries e.value).locks → e ∈ fs
  same : ∀ e ∈ fs, t.entries e.value = s.entries e.value
  slots : Slots fs t

/-- A step that touches neither the entries nor their blocks evicts nothing. -/
theorem Evicts.of_eq {s t : LruStore K V} (h : Slots es s)
    (hentries : t.entries = s.entries) (hpool : t.entryPool = s.entryPool) : Evicts es s es t where
  sublist := List.Sublist.refl _
  locked _ he _ := he
  same _ _ := by rw [hentries]
  slots := h.congr (fun _ _ => by rw [hentries]) hpool

/-- Evictions compose. -/
theorem Evicts.trans {es fs gs : List (Entry K EntryPtr)} {s t u : LruStore K V}
    (h₁ : Evicts es s fs t) (h₂ : Evicts fs t gs u) : Evicts es s gs u where
  sublist := h₂.sublist.trans h₁.sublist
  locked e he hlocked := by
    have hmem := h₁.locked e he hlocked
    exact h₂.locked e hmem (by rwa [h₁.same e hmem])
  same e he := (h₂.same e he).trans (h₁.same e (h₂.sublist.subset he))
  slots := h₂.slots

variable [DecidableEq K] [Zero K] {W σ : Type} {front rest : List (Entry K EntryPtr)}

@[simp] theorem LruStore.lookupGhost_entries (s : LruStore K V) (key : K) :
    (s.lookupGhost key).2.entries = s.entries := by
  unfold lookupGhost
  split <;> rfl

@[simp] theorem LruStore.lookupGhost_entryPool (s : LruStore K V) (key : K) :
    (s.lookupGhost key).2.entryPool = s.entryPool := by
  unfold lookupGhost
  split <;> rfl

/-- The evict event refuses locked entries. -/
theorem LruStore.mainEvictEvent_locked
    (hlocked : 0 < (s.entries e.value).locks) : s.mainEvictEvent e = (false, s) := by
  simp only [mainEvictEvent, if_pos hlocked]

/-- The evict event gives up an unlocked entry: its block is reset and freed,
and only the ghost list changes besides. -/
theorem LruStore.mainEvictEvent_unlocked (hunlocked : ¬0 < (s.entries e.value).locks) :
    (s.mainEvictEvent e).1 = true ∧
      (s.mainEvictEvent e).2.entries =
        Function.update s.entries e.value (LruEntry.reset 0 none) ∧
      (s.mainEvictEvent e).2.entryPool = s.entryPool.free e.value := by
  simp only [mainEvictEvent, if_neg hunlocked]
  refine ⟨trivial, ?_, ?_⟩ <;> split <;> simp [setGhost]

/-- Giving up one unlocked entry out of the middle of the list. -/
theorem Evicts.one (h : Slots (front ++ e :: rest) s)
    (hunlocked : ¬0 < (s.entries e.value).locks) :
    Evicts (front ++ e :: rest) s (front ++ rest) (s.mainEvictEvent e).2 := by
  obtain ⟨_, hentries, hpool⟩ := mainEvictEvent_unlocked hunlocked
  have hsub : (front ++ rest).Sublist (front ++ e :: rest) :=
    (List.Sublist.refl front).append (List.sublist_cons_self e rest)
  have hmem : e ∈ front ++ e :: rest := by simp
  -- the blocks of the remaining entries differ from the freed one
  have hother : ∀ f ∈ front ++ rest, f.value ≠ e.value := by
    have hperm : (front ++ e :: rest).Perm (e :: (front ++ rest)) := List.perm_middle
    have hnodup := (hperm.map Entry.value).nodup_iff.mp h.values
    rw [List.map_cons, List.nodup_cons] at hnodup
    intro f hf heq
    exact hnodup.1 (heq ▸ List.mem_map_of_mem hf)
  have hsame : ∀ f ∈ front ++ rest,
      (s.mainEvictEvent e).2.entries f.value = s.entries f.value := fun f hf => by
    rw [hentries, Function.update_of_ne (hother f hf)]
  refine ⟨hsub, ?_, hsame, ?_⟩
  · intro f hf hlocked
    rcases List.mem_append.mp hf with hf | hf
    · exact List.mem_append_left _ hf
    · rcases List.mem_cons.mp hf with rfl | hf
      · exact absurd hlocked hunlocked
      · exact List.mem_append_right _ hf
  · exact {
      keys := (h.sublist hsub).keys
      values := (h.sublist hsub).values
      entryKey := fun f hf => by rw [hsame f hf]; exact h.entryKey f (hsub.subset hf)
      used := fun f hf => by
        rw [hpool]
        exact ObjectPool.mem_free (hother f hf) (h.used f (hsub.subset hf))
      pool := hpool ▸ h.pool.free (h.used e hmem) }

omit [DecidableEq K] [Zero K] in
/-- Below the capacity there is nothing to visit, so `trim` is its loop. -/
theorem SimpleLruCache.trim_eq (evict : Entry K W → σ → Bool × σ) (c : SimpleLruCache K W) (s : σ) :
    c.trim evict s =
      let r := evictBack evict (c.cache.drop c.realCapacity) c.pool s
      ({ c with cache := c.cache.take c.realCapacity ++ r.1, pool := r.2.1 }, r.2.2) := by
  unfold trim
  split
  · rfl
  · next hsmall =>
    have hlen : c.cache.length ≤ c.realCapacity := Nat.not_lt.mp hsmall
    simp only [List.drop_eq_nil_of_le hlen, evictBack, List.take_of_length_le hlen,
      List.append_nil]

/-- A property of listed entries and their store that survives giving up an
unlocked entry, and every change of the ghosts. -/
structure SurvivesEviction (P : List (Entry K EntryPtr) → LruStore K V → Prop) : Prop where
  one : ∀ {front rest : List (Entry K EntryPtr)} {e : Entry K EntryPtr} {s : LruStore K V},
    P (front ++ e :: rest) s → ¬0 < (s.entries e.value).locks →
      P (front ++ rest) (s.mainEvictEvent e).2
  ghosts : ∀ {es : List (Entry K EntryPtr)} {s t : LruStore K V},
    P es s → t.entries = s.entries → t.entryPool = s.entryPool → P es t

namespace SurvivesEviction

variable {P : List (Entry K EntryPtr) → LruStore K V → Prop} {c : SimpleLruCache K EntryPtr}

/-- The loop of `trim` evicts from the part of the list it visits. The
induction follows the loop from the back; `front` is the part in front of the
entries visited so far. -/
theorem evictBack (hP : SurvivesEviction P) {front visited : List (Entry K EntryPtr)}
    (pool : List (Entry K EntryPtr)) (h : P (front ++ visited) s) :
    P (front ++ (SimpleLruCache.evictBack mainEvictEvent visited pool s).1)
      (SimpleLruCache.evictBack mainEvictEvent visited pool s).2.2 := by
  induction visited generalizing front with
  | nil => exact h
  | cons e es ih =>
    have hall : P ((front ++ [e]) ++ es) s := by simpa using h
    have hbehind := ih hall
    simp only [List.append_assoc, List.singleton_append] at hbehind
    simp only [SimpleLruCache.evictBack]
    generalize SimpleLruCache.evictBack mainEvictEvent es pool s = r at hbehind ⊢
    by_cases hlocked : 0 < (r.2.2.entries e.value).locks
    · simpa only [mainEvictEvent_locked hlocked, Bool.false_eq_true, if_false]
        using hbehind
    · have hgone := (mainEvictEvent_unlocked hlocked).1
      simp only [hgone, if_true]
      exact hP.one hbehind hlocked

/-- `trim` on a list whose `front` fits into the capacity leaves that part
alone and evicts from the rest. The front may hold a node not yet filled in. -/
theorem trim (hP : SurvivesEviction P) (hcache : c.cache = front ++ rest)
    (hfront : front.length ≤ c.realCapacity) (h : P rest s) :
    ∃ rest', (c.trim mainEvictEvent s).1.cache = front ++ rest' ∧
      P rest' (c.trim mainEvictEvent s).2 := by
  obtain ⟨n, hn⟩ := Nat.exists_eq_add_of_le hfront
  have htake : c.cache.take c.realCapacity = front ++ rest.take n := by
    rw [hcache, hn, List.take_length_add_append]
  have hdrop : c.cache.drop c.realCapacity = rest.drop n := by
    rw [hcache, hn, List.drop_length_add_append]
  rw [SimpleLruCache.trim_eq]
  simp only [htake, hdrop, List.append_assoc]
  have hsplit : P (rest.take n ++ rest.drop n) s := by rwa [List.take_append_drop]
  exact ⟨_, rfl, hP.evictBack c.pool hsplit⟩

/-- `trim` evicts from the list. -/
theorem trimAll (hP : SurvivesEviction P) (h : P c.cache s) :
    P (c.trim mainEvictEvent s).1.cache (c.trim mainEvictEvent s).2 := by
  have hcache : c.cache = [] ++ c.cache := rfl
  obtain ⟨rest, hrest, hnext⟩ := hP.trim hcache (Nat.zero_le _) h
  rwa [hrest, List.nil_append]

/-- A resize keeps a front `f` that fits into the new capacity. -/
theorem resize (hP : SurvivesEviction P) {f rest : List (Entry K EntryPtr)} (newCap : ℕ)
    (hcache : c.cache = f ++ rest) (hfront : f.length ≤ clamp newCap c.minCapacity c.maxCapacity)
    (h : P rest s) :
    ∃ rest', (c.resize mainEvictEvent newCap s).1.cache = f ++ rest' ∧
      P rest' (c.resize mainEvictEvent newCap s).2 :=
  hP.trim (c := { c with
    requestedCapacity := newCap
    realCapacity := clamp newCap c.minCapacity c.maxCapacity }) hcache hfront h

end SurvivesEviction

/-- Having come from one list by evictions survives further ones. -/
theorem Evicts.survives (es : List (Entry K EntryPtr)) (s : LruStore K V) :
    SurvivesEviction (Evicts es s) where
  one h hunlocked := h.trans (Evicts.one h.slots hunlocked)
  ghosts h hentries hpool := h.trans (Evicts.of_eq h.slots hentries hpool)

omit [DecidableEq K] [Zero K] in
@[simp] theorem SimpleLruCache.trim_realCapacity (evict : Entry K W → σ → Bool × σ)
    (c : SimpleLruCache K W) (s : σ) : (c.trim evict s).1.realCapacity = c.realCapacity := by
  rw [trim_eq]

omit [DecidableEq K] [Zero K] in
@[simp] theorem SimpleLruCache.trim_minCapacity (evict : Entry K W → σ → Bool × σ)
    (c : SimpleLruCache K W) (s : σ) : (c.trim evict s).1.minCapacity = c.minCapacity := by
  rw [trim_eq]

omit [DecidableEq K] [Zero K] in
@[simp] theorem SimpleLruCache.trim_maxCapacity (evict : Entry K W → σ → Bool × σ)
    (c : SimpleLruCache K W) (s : σ) : (c.trim evict s).1.maxCapacity = c.maxCapacity := by
  rw [trim_eq]

omit [DecidableEq K] [Zero K] in
@[simp] theorem SimpleLruCache.trim_requestedCapacity (evict : Entry K W → σ → Bool × σ)
    (c : SimpleLruCache K W) (s : σ) :
    (c.trim evict s).1.requestedCapacity = c.requestedCapacity := by
  rw [trim_eq]

/-- A cache that can store anything has a limit that lets it: otherwise a
resize could cut the capacity to nothing below a node just put in front. -/
def SimpleLruCache.CanGrow {W : Type} (c : SimpleLruCache K W) : Prop :=
  c.realCapacity ≠ 0 → c.minCapacity ≠ 0 ∨ c.maxCapacity ≠ 0

/-- Clamping to limits that are both zero gives zero. -/
theorem clamp_ne_zero {n lo hi : ℕ} (h : clamp n lo hi ≠ 0) : lo ≠ 0 ∨ hi ≠ 0 := by
  unfold clamp at h
  grind

/-- Clamping a positive number to limits that are not both zero is positive. -/
theorem clamp_pos {n lo hi : ℕ} (hn : n ≠ 0) (h : lo ≠ 0 ∨ hi ≠ 0) : clamp n lo hi ≠ 0 := by
  unfold clamp
  grind

omit [DecidableEq K] [Zero K] in
/-- After any resize the capacity is clamped to the limits. -/
theorem SimpleLruCache.resize_canGrow (evict : Entry K W → σ → Bool × σ)
    (c : SimpleLruCache K W) (newCap : ℕ) (s : σ) : (c.resize evict newCap s).1.CanGrow := by
  intro h
  simp only [resize, trim_realCapacity, trim_minCapacity, trim_maxCapacity] at h ⊢
  exact clamp_ne_zero h

end AviSynth
