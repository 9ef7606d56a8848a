import AviSynth.Cache.LruOccupancy

/-!
# What one call does to the main cache

Specifications of the operations of `LruCache` in terms of its main list: which
entry is in front afterwards, and that everything else has only been evicted
from. The node that `lookup` has put in front but not filled in yet must survive
the resize of the self-tuning step; that is what `CanGrow` is for.
-/

namespace AviSynth

open SimpleLruCache

variable {K V : Type} [DecidableEq K]

/-- The first entry for a key and the list without it make up the list. -/
theorem perm_of_find? {W : Type} {es : List (Entry K W)} {key : K} {e : Entry K W}
    (h : es.find? (fun e => e.key = key) = some e) :
    es.Perm (e :: es.eraseP (fun e => e.key = key)) := by
  obtain ⟨hkey, front, rest, rfl, hfront⟩ := List.find?_eq_some_iff_append.mp h
  have hmiss : ∀ f ∈ front, ¬(decide (f.key = key)) = true := fun f hf => by
    simpa using hfront f hf
  rw [List.eraseP_append_right _ hmiss, List.eraseP_cons, cond_eq_ite, if_pos hkey]
  exact List.perm_middle

/-- The entry found for a key has that key. -/
theorem key_of_find? {W : Type} {es : List (Entry K W)} {key : K} {e : Entry K W}
    (h : es.find? (fun e => e.key = key) = some e) : e.key = key := by
  simpa using List.find?_some h

namespace SimpleLruCache

variable {W σ : Type} (evict : Entry K W → σ → Bool × σ) (blank : W) {c : SimpleLruCache K W}
  {key : K} (s : σ)

/-- A found entry moves to the front, and that is all. -/
theorem lookup_found {e : Entry K W} {lookuponly : Bool}
    (h : c.cache.find? (fun e => e.key = key) = some e) :
    c.lookup evict blank key lookuponly s = (.found e.value,
      { c with cache := e :: c.cache.eraseP (fun e => e.key = key) }, s) := by
  simp only [lookup, h]

section

variable (h : c.cache.find? (fun e => e.key = key) = none)
include h

/-- A missing key is not stored when the caller only wants to look. -/
theorem lookup_only :
    c.lookup evict blank key true s = (.null, c, s) := by
  simp only [lookup, h, if_true]

/-- A missing key is not stored when there is no room; the list is trimmed. -/
theorem lookup_noRoom (hcap : c.realCapacity = 0) :
    c.lookup evict blank key false s = (.null, c.trim evict s) := by
  simp only [lookup, h, Bool.false_eq_true, if_false, trim_realCapacity, hcap, ne_eq,
    not_true_eq_false]

/-- A missing key is put in front of the trimmed list in a node with some stale
contents. -/
theorem lookup_fresh (hcap : c.realCapacity ≠ 0) :
    ∃ stale pool, c.lookup evict blank key false s = (.fresh stale,
      { (c.trim evict s).1 with
        cache := ⟨key, stale⟩ :: (c.trim evict s).1.cache, pool := pool }, (c.trim evict s).2) := by
  simp only [lookup, h, Bool.false_eq_true, if_false, trim_realCapacity, ne_eq, hcap,
    not_false_eq_true, if_true]
  cases hpool : (c.trim evict s).1.pool with
  | nil => exact ⟨blank, [], by simp only [← hpool]⟩
  | cons node pool => exact ⟨node.value, pool, rfl⟩

end

end SimpleLruCache

variable [Zero K]

namespace LruCache

variable {P : List (Entry K EntryPtr) → LruStore K V → Prop} {c : LruCache K V}

/-- The self-tuning step keeps the node in front (`f`), if `lookup` has put one
there, and otherwise only evicts. -/
theorem consultGhosts_survives (hP : SurvivesEviction P) {f rest : List (Entry K EntryPtr)}
    (key : K) (hcache : c.mainCache.cache = f ++ rest) (hone : f.length ≤ 1)
    (hfront : f.length ≤ c.mainCache.realCapacity) (hgrow : c.mainCache.CanGrow)
    (h : P rest c.toLruStore) :
    ∃ rest', (c.consultGhosts key).2.2.mainCache.cache = f ++ rest' ∧
      P rest' (c.consultGhosts key).2.2.toLruStore ∧
      (c.consultGhosts key).2.2.mainCache.CanGrow := by
  have hnoted : P rest (c.toLruStore.lookupGhost key).2 :=
    hP.ghosts h (LruStore.lookupGhost_entries _ _) (LruStore.lookupGhost_entryPool _ _)
  unfold consultGhosts
  generalize c.toLruStore.lookupGhost key = r at hnoted ⊢
  obtain ⟨g, store⟩ := r
  cases g with
  | none => exact ⟨rest, hcache, hP.ghosts hnoted rfl rfl, hgrow⟩
  | some ghosted =>
    dsimp only
    by_cases hmany : ghosted > 1
    · rw [if_pos hmany]
      by_cases hresize : c.mode ≠ .noResize
      · rw [if_pos hresize]
        have hcap : f.length ≤ clamp (c.mainCache.realCapacity + 1) c.mainCache.minCapacity
            c.mainCache.maxCapacity := by
          rcases Nat.eq_zero_or_pos f.length with hzero | hpos
          · omega
          · have hlimits := hgrow (by omega)
            have hclamp := clamp_pos (Nat.succ_ne_zero c.mainCache.realCapacity) hlimits
            simp only [Nat.succ_eq_add_one] at hclamp
            omega
        obtain ⟨rest', hcache', hresized⟩ := hP.resize _ hcache hcap hnoted
        exact ⟨rest', hcache', hP.ghosts hresized rfl rfl,
          resize_canGrow _ _ _ _⟩
      · rw [if_neg hresize]
        exact ⟨rest, hcache, hnoted, hgrow⟩
    · rw [if_neg hmany]
      exact ⟨rest, hcache, hnoted, hgrow⟩

/-- A missed lookup that gets a node first evicts, and then constructs an entry in
the node, which is in front. -/
theorem lookup_fresh (hP : SurvivesEviction P) (hgrow : c.mainCache.CanGrow)
    (h : P c.mainCache.cache c.toLruStore) {key : K}
    (hfind : c.mainCache.cache.find? (fun e => e.key = key) = none)
    (hcap : c.mainCache.realCapacity ≠ 0) (block : Bool) {suppress : Option Bool}
    (hsuppress : suppress.getD false = false) :
    ∃ (flag : Option Bool) (d : LruCache K V) (stale : EntryPtr) (rest : List (Entry K EntryPtr))
      (ghosted : ℕ), c.lookup key block suppress =
        (.notFound (d.reserve key ghosted).1, flag, (d.reserve key ghosted).2) ∧
      d.mainCache.cache = ⟨key, stale⟩ :: rest ∧ P rest d.toLruStore ∧ d.mainCache.CanGrow := by
  obtain ⟨stale, pool, hlookup⟩ := SimpleLruCache.lookup_fresh LruStore.mainEvictEvent 0
    c.toLruStore hfind hcap
  obtain ⟨rest, hcache, hrest, hgrow'⟩ := consultGhosts_survives hP key
    (c := { c with
      mainCache := { (c.mainCache.trim LruStore.mainEvictEvent c.toLruStore).1 with
        cache := ⟨key, stale⟩ ::
          (c.mainCache.trim LruStore.mainEvictEvent c.toLruStore).1.cache
        pool := pool }
      toLruStore := (c.mainCache.trim LruStore.mainEvictEvent c.toLruStore).2 })
    (f := [⟨key, stale⟩]) rfl (Nat.le_refl 1) (by simpa using Nat.one_le_iff_ne_zero.mpr hcap)
    (by simpa [CanGrow] using hgrow) (hP.trimAll h)
  exact ⟨_, _, stale, rest, _, by simp only [LruCache.lookup, hsuppress, hlookup]; rfl, hcache,
    hrest, hgrow'⟩

/-- A missed lookup that gets no node hands nothing back and only evicts. -/
theorem lookup_null (hP : SurvivesEviction P) (hgrow : c.mainCache.CanGrow)
    (h : P c.mainCache.cache c.toLruStore) {key : K}
    (hfind : c.mainCache.cache.find? (fun e => e.key = key) = none) (block : Bool)
    {suppress : Option Bool} (hnone : suppress.getD false = true ∨ c.mainCache.realCapacity = 0) :
    ∃ (flag : Option Bool) (d : LruCache K V), c.lookup key block suppress = (.noCache, flag, d) ∧
      P d.mainCache.cache d.toLruStore ∧ d.mainCache.CanGrow := by
  cases hsuppress : suppress.getD false with
  | true =>
    refine ⟨suppress, c, ?_, h, hgrow⟩
    simp only [LruCache.lookup, hsuppress, lookup_only _ _ _ hfind, if_true]
  | false =>
    have hcap := hnone.resolve_left (by simp [hsuppress])
    obtain ⟨rest, hcache, hrest, hgrow'⟩ := consultGhosts_survives hP key
      (c := { c with
        mainCache := (c.mainCache.trim LruStore.mainEvictEvent c.toLruStore).1
        toLruStore := (c.mainCache.trim LruStore.mainEvictEvent c.toLruStore).2 })
      (f := []) rfl (Nat.zero_le _) (Nat.zero_le _)
      (by simpa [CanGrow] using hgrow) (hP.trimAll h)
    rw [List.nil_append] at hcache
    rw [← hcache] at hrest
    refine ⟨_, _, by
      simp only [LruCache.lookup, hsuppress, lookup_noRoom _ _ _ hfind hcap,
        Bool.false_eq_true, if_false]; rfl, ?_, ?_⟩
    · exact hP.ghosts hrest rfl rfl
    · exact hgrow'

end LruCache

/-!
## The frames handed out are the last ones committed

The invariant `Consistent` of the cache of frames holds in every state that any
interleaving of threads reaches, as long as no blocking lookup meets an entry
that was rolled back and not taken over yet. There is one preservation lemma for
each operation; the run theorem assembles them.
-/

open Transition LruSystem

variable {T K V : Type} [DecidableEq K]

/-- The invariant of the cache, its sleeping lookups and the handles out. -/
structure Consistent (history : List (LruEvent T K V)) (s : LruSystem T K V) : Prop where
  slots : Slots s.cache.mainCache.cache s.cache.toLruStore
  held : Held s.cache.mainCache.cache s.cache.toLruStore s.handles s.waiters history
  canGrow : s.cache.mainCache.CanGrow

variable {history : List (LruEvent T K V)} {s : LruSystem T K V}

section

variable (h : Consistent history s)
include h

/-- Only a commit changes what was committed last. -/
theorem Consistent.record {e : LruEvent T K V}
    (he : ∀ key, lastCommitted (e :: history) key = lastCommitted history key) :
    Consistent (e :: history) s :=
  ⟨h.slots, h.held.record he, h.canGrow⟩

/-- A step that only evicts from the main cache keeps the invariant. -/
theorem Consistent.evicts {c : LruCache K V}
    (hevicts : Evicts s.cache.mainCache.cache s.cache.toLruStore c.mainCache.cache c.toLruStore)
    (hgrow : c.mainCache.CanGrow) : Consistent history { s with cache := c } :=
  ⟨hevicts.slots, h.held.evicts hevicts, hgrow⟩

variable {e : Entry K EntryPtr}

/-- Changing one entry but not its key. The premises are those of `Held.change`
for the fields that the operation sets. -/
theorem Consistent.modify {f : LruEntry K V → LruEntry K V}
    {handles : List EntryPtr} {waiters : List (Waiter T K)} {history' : List (LruEvent T K V)}
    (he : e ∈ s.cache.mainCache.cache)
    (hkey : (f (s.cache.entries e.value)).key = (s.cache.entries e.value).key)
    (hcount : ∀ q, q ≠ e.value → handles.count q = s.handles.count q) (hnodup : handles.Nodup)
    (hwaiters : ∀ w ∈ waiters, ⟨w.key, w.entry⟩ ∈ s.cache.mainCache.cache)
    (hcountW : ∀ q, q ≠ e.value →
      waiters.countP (fun w => w.entry = q) = s.waiters.countP (fun w => w.entry = q))
    (hcommit : ∀ key, key ≠ e.key → lastCommitted history' key = lastCommitted history key)
    (hlocks : (f (s.cache.entries e.value)).locks =
      handles.count e.value + waiters.countP (fun w => w.entry = e.value))
    (hcontent : EntryHeld handles history' e.key e.value (f (s.cache.entries e.value))) :
    Consistent history' ⟨s.cache.modifyEntry e.value f, waiters, handles⟩ := by
  have hother : ∀ q, q ≠ e.value →
      (s.cache.modifyEntry e.value f).entries q = s.cache.entries q := fun q hq =>
    Function.update_of_ne hq _ _
  have hself : (s.cache.modifyEntry e.value f).entries e.value = f (s.cache.entries e.value) :=
    Function.update_self _ _ _
  refine ⟨h.slots.congr (fun d hd => ?_) rfl, ?_, h.canGrow⟩
  · by_cases heq : d.value = e.value
    · rw [heq, hself, hkey]
    · rw [hother _ heq]
  · exact h.held.change h.slots he hother hcount hnodup hwaiters hcountW hcommit
      (by rw [hself]; exact hlocks) (by rw [hself]; exact hcontent)

/-- Every lookup that finds its entry begins with this: the entry moves to the
front of the main cache. -/
theorem Consistent.moveToFront {key : K}
    (hfind : s.cache.mainCache.cache.find? (fun e => e.key = key) = some e) :
    Consistent history { s with cache := { s.cache with mainCache := { s.cache.mainCache with
      cache := e :: s.cache.mainCache.cache.eraseP (fun e => e.key = key) } } } :=
  ⟨h.slots.perm (perm_of_find? hfind), h.held.perm (perm_of_find? hfind), h.canGrow⟩

/-- The claims of a thread on an entry it has locked: waiting adds one lock and
one sleeping lookup. -/
theorem Consistent.wait (thread : T) (he : e ∈ s.cache.mainCache.cache) :
    Consistent history ⟨s.cache.modifyEntry e.value fun d => { d with locks := d.locks + 1 },
      ⟨thread, e.key, e.value⟩ :: s.waiters, s.handles⟩ := by
  refine h.modify he rfl (fun _ _ => rfl) h.held.handlesNodup ?_ ?_ (fun _ _ => rfl) ?_ ?_
  · intro w hw
    rcases List.mem_cons.mp hw with rfl | hw
    · exact he
    · exact h.held.waiterSlot w hw
  · intro q hq
    simp only [List.countP_cons, decide_eq_true_eq, Ne.symm hq, if_false, Nat.add_zero]
  · simp only [List.countP_cons, decide_true, if_true, h.held.locks e he]
    omega
  · exact h.held.content e he

/-- What a call that found its entry available hands back. -/
theorem Consistent.ready (thread : T) (he : e ∈ s.cache.mainCache.cache)
    (hstate : (s.cache.entries e.value).state = .available) :
    HandsBackLastCommit history (.ready thread e.key (s.cache.entries e.value).value) := by
  have hcontent := h.held.content e he
  simp only [EntryHeld, hstate] at hcontent
  exact hcontent.2

/-- A handle is used to write a value into its empty entry. -/
theorem Consistent.write {p : EntryPtr} (hp : p ∈ s.handles) (value : V) :
    Consistent history { s with
      cache := s.cache.modifyEntry p fun e => { e with value := some value } } := by
  obtain ⟨e, he, rfl⟩ := h.held.handleSlot p hp
  refine h.modify he rfl (fun _ _ => rfl) h.held.handlesNodup h.held.waiterSlot (fun _ _ => rfl)
    (fun _ _ => rfl) (h.held.locks e he) ?_
  simpa only [EntryHeld, h.held.state_of_handle hp] using hp

/-- Committing makes the entry available with the value just committed, and the
handle is finished. -/
theorem Consistent.commit {p : EntryPtr} (hp : p ∈ s.handles) (value : V) :
    Consistent (.committed (s.cache.entries p).key value :: history) { s with
      cache := (s.cache.modifyEntry p fun e => { e with value := some value }).commitValue p
      handles := s.handles.erase p } := by
  obtain ⟨e, he, rfl⟩ := h.held.handleSlot p hp
  have hcache : (s.cache.modifyEntry e.value fun e => { e with value := some value }).commitValue
      e.value = s.cache.modifyEntry e.value fun d =>
        { d with value := some value, state := .available, locks := d.locks - 1 } := by
    simp only [LruCache.commitValue, LruCache.modifyEntry, Function.update_self,
      Function.update_idem]
  rw [hcache, h.slots.entryKey e he]
  have hone := List.count_eq_one_of_mem h.held.handlesNodup hp
  refine h.modify he rfl (fun q hq => List.count_erase_of_ne hq) (h.held.handlesNodup.erase _)
    h.held.waiterSlot (fun _ _ => rfl) (fun key hkey => ?_) ?_ ?_
  · simp only [lastCommitted, if_neg (Ne.symm hkey)]
  · have hlocks := h.held.locks e he
    simp only [List.count_erase_self]
    omega
  · simp only [EntryHeld, lastCommitted, if_true]
    exact ⟨h.held.handlesNodup.not_mem_erase, value, rfl, rfl⟩

/-- Rolling back drops the entry if nobody waits on it, and otherwise leaves it
for a waiting thread; the handle is finished. -/
theorem Consistent.rollback {p : EntryPtr} (hp : p ∈ s.handles) :
    Consistent history { s with
      cache := s.cache.rollback p, handles := s.handles.erase p } := by
  obtain ⟨e, he, rfl⟩ := h.held.handleSlot p hp
  have hkey := h.slots.entryKey e he
  have hone := List.count_eq_one_of_mem h.held.handlesNodup hp
  unfold LruCache.rollback
  by_cases halone : (s.cache.entries e.value).locks = 1
  · rw [if_pos halone]
    have hfind := h.slots.find? he
    have hperm := perm_of_find? hfind
    have hslots := h.slots.perm hperm
    have hheld := (h.held.perm hperm).drop hslots hp halone
    simp only [remove, hkey, hfind]
    exact ⟨hslots.sublist (List.sublist_cons_self _ _), hheld, h.canGrow⟩
  · rw [if_neg halone]
    refine h.modify he rfl (fun q hq => List.count_erase_of_ne hq) (h.held.handlesNodup.erase _)
      h.held.waiterSlot (fun _ _ => rfl) (fun _ _ => rfl) ?_ ?_
    · have hlocks := h.held.locks e he
      simp only [List.count_erase_self]
      omega
    · simpa only [EntryHeld] using h.held.handlesNodup.not_mem_erase

end

section Wake

variable [DecidableEq T] {w : Waiter T K}

/-- A sleeping call counts in the locks of its own entry only. -/
theorem countP_erase_waiter {ws : List (Waiter T K)} (hw : w ∈ ws) (q : EntryPtr) :
    ws.countP (fun v => v.entry = q) =
      (ws.erase w).countP (fun v => v.entry = q) + if w.entry = q then 1 else 0 := by
  rw [(List.perm_cons_erase hw).countP_eq, List.countP_cons]
  simp only [decide_eq_true_eq]

/-- A sleeping call that leaves takes its lock along. -/
theorem Consistent.leave (h : Consistent history s) (hw : w ∈ s.waiters) :
    Consistent history ⟨s.cache.modifyEntry w.entry fun d => { d with locks := d.locks - 1 },
      s.waiters.erase w, s.handles⟩ := by
  have he := h.held.waiterSlot w hw
  refine h.modify (e := ⟨w.key, w.entry⟩) he rfl (fun _ _ => rfl) h.held.handlesNodup
    (fun v hv => h.held.waiterSlot v (List.mem_of_mem_erase hv)) (fun q hq => ?_)
    (fun _ _ => rfl) ?_ (h.held.content _ he)
  · rw [countP_erase_waiter hw q, if_neg (Ne.symm hq), Nat.add_zero]
  · have hlocks := h.held.locks _ he
    rw [countP_erase_waiter hw w.entry, if_pos rfl] at hlocks
    simp only at hlocks ⊢
    omega

/-- A sleeping call that finds its entry rolled back becomes its producer; its
lock is now the producer's. -/
theorem Consistent.takeOver (h : Consistent history s) (hw : w ∈ s.waiters)
    (hstate : (s.cache.entries w.entry).state = .rolledBack) :
    Consistent history ⟨s.cache.modifyEntry w.entry fun d => { d with state := .empty },
      s.waiters.erase w, w.entry :: s.handles⟩ := by
  have he := h.held.waiterSlot w hw
  have hnew : w.entry ∉ s.handles := by
    simpa only [EntryHeld, hstate] using h.held.content _ he
  refine h.modify (e := ⟨w.key, w.entry⟩) he rfl (fun q hq => List.count_cons_of_ne (Ne.symm hq))
    (List.nodup_cons.mpr ⟨hnew, h.held.handlesNodup⟩)
    (fun v hv => h.held.waiterSlot v (List.mem_of_mem_erase hv)) (fun q hq => ?_)
    (fun _ _ => rfl) ?_ ?_
  · rw [countP_erase_waiter hw q, if_neg (Ne.symm hq), Nat.add_zero]
  · have hlocks := h.held.locks _ he
    rw [countP_erase_waiter hw w.entry, if_pos rfl] at hlocks
    simp only [List.count_cons_self] at hlocks ⊢
    omega
  · simp only [EntryHeld, List.mem_cons_self]

/-- A sleeping call that finds its entry still empty goes back to sleep. -/
theorem Consistent.sleepOn (h : Consistent history s) (hw : w ∈ s.waiters) :
    Consistent history ⟨s.cache, w :: s.waiters.erase w, s.handles⟩ :=
  ⟨h.slots, h.held.permWaiters (List.perm_cons_erase hw), h.canGrow⟩

end Wake

variable [Zero K]

/-- A new cache has nothing in it. -/
theorem Consistent.initial (capacity : ℕ) (mode : CacheMode) :
    Consistent [] (LruSystem.initial capacity mode : LruSystem T K V) where
  slots := ⟨List.nodup_nil, List.nodup_nil, by simp [LruSystem.initial, LruCache.new,
    new], by simp [LruSystem.initial, LruCache.new, new],
    ⟨List.nodup_nil, by simp [LruSystem.initial, LruCache.new]⟩⟩
  held := ⟨by simp [LruSystem.initial], List.nodup_nil, by simp [LruSystem.initial],
    by simp [LruSystem.initial, LruCache.new, new],
    by simp [LruSystem.initial, LruCache.new, new]⟩
  canGrow _ := by simp [LruSystem.initial, LruCache.new, new, sizeMax]

/-- Changing the limits only evicts. -/
theorem Consistent.setLimits (h : Consistent history s) (min max : ℕ) :
    Consistent history { s with cache := s.cache.setLimits min max } := by
  obtain ⟨rest, hcache, hevicts⟩ := (Evicts.survives _ _).resize
    s.cache.mainCache.requestedCapacity
    (c := { s.cache.mainCache with minCapacity := min, maxCapacity := max }) (f := [])
    rfl (Nat.zero_le _) (Evicts.of_eq h.slots rfl rfl)
  rw [List.nil_append] at hcache
  exact h.evicts (hcache ▸ hevicts) (resize_canGrow _ _ _ _)

end AviSynth
