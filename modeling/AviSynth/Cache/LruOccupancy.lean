import AviSynth.Cache.LruEviction

/-!
# Who holds an entry

The invariant behind the cache of frames. Every entry of the main cache counts
its unfinished handle and its sleeping lookups in `locks`; an empty entry has a
handle out; an available entry holds the value last committed for its key.
`Held` states this for a list of entries. The lemmas follow it through the
primitive changes that the operations of `LruCache` are made of.
-/

namespace AviSynth

variable {T K V : Type} [DecidableEq K]

open LruSystem

/-- What the state of an entry says about its handle and its value. -/
def EntryHeld (handles : List EntryPtr) (history : List (LruEvent T K V)) (key : K)
    (p : EntryPtr) (entry : LruEntry K V) : Prop :=
  match entry.state with
  | .empty => p ∈ handles
  | .available => p ∉ handles ∧ ∃ v, entry.value = some v ∧ lastCommitted history key = some v
  | .rolledBack => p ∉ handles

/-- The entries `es` with the handles out, the sleeping lookups and the history. -/
structure Held (es : List (Entry K EntryPtr)) (s : LruStore K V) (handles : List EntryPtr)
    (waiters : List (Waiter T K)) (history : List (LruEvent T K V)) : Prop where
  handleSlot : ∀ p ∈ handles, ∃ e ∈ es, e.value = p
  handlesNodup : handles.Nodup
  waiterSlot : ∀ w ∈ waiters, ⟨w.key, w.entry⟩ ∈ es
  locks : ∀ e ∈ es, (s.entries e.value).locks =
    handles.count e.value + waiters.countP (fun w => w.entry = e.value)
  content : ∀ e ∈ es, EntryHeld handles history e.key e.value (s.entries e.value)

variable {es fs : List (Entry K EntryPtr)} {s t : LruStore K V} {handles : List EntryPtr}
  {waiters : List (Waiter T K)} {history : List (LruEvent T K V)}

section

variable (h : Held es s handles waiters history)
include h

/-- The entry behind a handle is empty. -/
theorem Held.state_of_handle {p : EntryPtr}
    (hp : p ∈ handles) : (s.entries p).state = .empty := by
  obtain ⟨e, he, rfl⟩ := h.handleSlot p hp
  have hcontent := h.content e he
  unfold EntryHeld at hcontent
  cases hstate : (s.entries e.value).state with
  | empty => rfl
  | available => simp only [hstate] at hcontent; exact absurd hp hcontent.1
  | rolledBack => simp only [hstate] at hcontent; exact absurd hp hcontent

/-- The order of the entries does not matter. -/
theorem Held.perm (hperm : es.Perm fs) :
    Held fs s handles waiters history where
  handleSlot p hp := by
    obtain ⟨e, he, heq⟩ := h.handleSlot p hp
    exact ⟨e, hperm.mem_iff.mp he, heq⟩
  handlesNodup := h.handlesNodup
  waiterSlot w hw := hperm.mem_iff.mp (h.waiterSlot w hw)
  locks e he := h.locks e (hperm.mem_iff.mpr he)
  content e he := h.content e (hperm.mem_iff.mpr he)

/-- The order of the sleeping lookups does not matter. -/
theorem Held.permWaiters {waiters' : List (Waiter T K)}
    (hperm : waiters.Perm waiters') : Held es s handles waiters' history where
  handleSlot := h.handleSlot
  handlesNodup := h.handlesNodup
  waiterSlot w hw := h.waiterSlot w (hperm.mem_iff.mpr hw)
  locks e he := by rw [h.locks e he, hperm.countP_eq]
  content := h.content

/-- Evictions keep every entry that a handle or a sleeping lookup refers to. -/
theorem Held.evicts (hevicts : Evicts es s fs t) :
    Held fs t handles waiters history where
  handleSlot p hp := by
    obtain ⟨e, he, rfl⟩ := h.handleSlot p hp
    have hlocks := h.locks e he
    have hcount := List.count_pos_iff.mpr hp
    exact ⟨e, hevicts.locked e he (by omega), rfl⟩
  handlesNodup := h.handlesNodup
  waiterSlot w hw := by
    have hmem := h.waiterSlot w hw
    have hcount : 0 < waiters.countP (fun v => v.entry = w.entry) :=
      List.countP_pos_iff.mpr ⟨w, hw, by simp⟩
    have hlocked : 0 < (s.entries w.entry).locks :=
      (h.locks _ hmem).symm ▸ Nat.add_pos_right _ hcount
    exact hevicts.locked _ hmem hlocked
  locks e he := by rw [hevicts.same e he, h.locks e (hevicts.sublist.subset he)]
  content e he := by rw [hevicts.same e he]; exact h.content e (hevicts.sublist.subset he)

/-- Events other than commits leave the last commits alone. -/
theorem Held.record {e : LruEvent T K V}
    (he : ∀ key, lastCommitted (e :: history) key = lastCommitted history key) :
    Held es s handles waiters (e :: history) where
  handleSlot := h.handleSlot
  handlesNodup := h.handlesNodup
  waiterSlot := h.waiterSlot
  locks := h.locks
  content f hf := by
    have hcontent := h.content f hf
    unfold EntryHeld at hcontent ⊢
    rwa [he]

/-- The slots and occupancy of a state in which only the entry at `p` changes:
facts about other entries carry over, facts about the one at `p` are given. -/
theorem Held.change {handles' : List EntryPtr} {waiters' : List (Waiter T K)}
    {history' : List (LruEvent T K V)} {e : Entry K EntryPtr} (hslots : Slots es s) (he : e ∈ es)
    (hother : ∀ q, q ≠ e.value → t.entries q = s.entries q)
    (hcount : ∀ q, q ≠ e.value → handles'.count q = handles.count q)
    (hnodup : handles'.Nodup)
    (hwaiters : ∀ w ∈ waiters', ⟨w.key, w.entry⟩ ∈ es)
    (hcountW : ∀ q, q ≠ e.value →
      waiters'.countP (fun w => w.entry = q) = waiters.countP (fun w => w.entry = q))
    (hcommit : ∀ key, key ≠ e.key → lastCommitted history' key = lastCommitted history key)
    (hlocks : (t.entries e.value).locks =
      handles'.count e.value + waiters'.countP (fun w => w.entry = e.value))
    (hcontent : EntryHeld handles' history' e.key e.value (t.entries e.value)) :
    Held es t handles' waiters' history' := by
  -- membership of the other handles is what their count says
  have hmem : ∀ q, q ≠ e.value → (q ∈ handles' ↔ q ∈ handles) := fun q hq => by
    rw [← List.count_pos_iff, ← List.count_pos_iff, hcount q hq]
  refine ⟨?_, hnodup, hwaiters, ?_, ?_⟩
  · intro q hq
    by_cases heq : q = e.value
    · exact ⟨e, he, heq.symm⟩
    · exact h.handleSlot q ((hmem q heq).mp hq)
  · intro f hf
    by_cases heq : f.value = e.value
    · rw [heq]; exact hlocks
    · rw [hother _ heq, hcount _ heq, hcountW _ heq]; exact h.locks f hf
  · intro f hf
    by_cases heq : f.value = e.value
    · rw [hslots.eq_of_value hf he heq]; exact hcontent
    · have hkey : f.key ≠ e.key := fun hk => heq (by rw [hslots.eq_of_key hf he hk])
      have hold := h.content f hf
      unfold EntryHeld at hold ⊢
      rw [hother _ heq, hcommit _ hkey]
      cases hstate : (s.entries f.value).state <;> simp only [hstate, hmem _ heq] at hold ⊢ <;>
        exact hold

/-- Adding a fresh entry, reserved for the handle just handed out. -/
theorem Held.reserve {key : K} {p : EntryPtr} {ghosted : ℕ} (hp : ∀ e ∈ es, e.value ≠ p)
    (hentry : t.entries p = ⟨key, none, 1, ghosted, .empty⟩)
    (hother : ∀ q, q ≠ p → t.entries q = s.entries q) :
    Held (⟨key, p⟩ :: es) t (p :: handles) waiters history := by
  have hnew : p ∉ handles := fun hmem => by
    obtain ⟨e, he, heq⟩ := h.handleSlot p hmem
    exact hp e he heq
  have hasleep : waiters.countP (fun w => w.entry = p) = 0 :=
    List.countP_eq_zero.mpr fun w hw => by
      simpa using hp _ (h.waiterSlot w hw)
  refine ⟨?_, List.nodup_cons.mpr ⟨hnew, h.handlesNodup⟩,
    fun w hw => List.mem_cons_of_mem _ (h.waiterSlot w hw), ?_, ?_⟩
  · intro q hq
    rcases List.mem_cons.mp hq with rfl | hq
    · exact ⟨⟨key, q⟩, List.mem_cons_self, rfl⟩
    · obtain ⟨e, he, heq⟩ := h.handleSlot q hq
      exact ⟨e, List.mem_cons_of_mem _ he, heq⟩
  · intro e he
    rcases List.mem_cons.mp he with rfl | he
    · simp [hentry, List.count_eq_zero_of_not_mem hnew, hasleep]
    · rw [hother _ (hp e he), List.count_cons_of_ne (Ne.symm (hp e he)), h.locks e he]
  · intro e he
    rcases List.mem_cons.mp he with rfl | he
    · simp [EntryHeld, hentry]
    · have hold := h.content e he
      unfold EntryHeld at hold ⊢
      rw [hother _ (hp e he)]
      simpa only [List.mem_cons, hp e he, false_or] using hold

end

/-- Taking an entry away together with its only handle. -/
theorem Held.drop {e : Entry K EntryPtr} (h : Held (e :: es) s handles waiters history)
    (hslots : Slots (e :: es) s) (he : e.value ∈ handles)
    (halone : (s.entries e.value).locks = 1) :
    Held es s (handles.erase e.value) waiters history := by
  have hne : ∀ f ∈ es, f.value ≠ e.value := by
    have hvalues := hslots.values
    rw [List.map_cons, List.nodup_cons] at hvalues
    intro f hf heq
    exact hvalues.1 (heq ▸ List.mem_map_of_mem hf)
  have hasleep : waiters.countP (fun w => w.entry = e.value) = 0 := by
    have hlocks := h.locks e List.mem_cons_self
    have hcount := List.count_pos_iff.mpr he
    omega
  refine ⟨?_, h.handlesNodup.erase _, ?_, ?_, ?_⟩
  · intro q hq
    obtain ⟨hqe, hq⟩ := h.handlesNodup.mem_erase_iff.mp hq
    obtain ⟨f, hf, rfl⟩ := h.handleSlot q hq
    rcases List.mem_cons.mp hf with rfl | hf
    · exact absurd rfl hqe
    · exact ⟨f, hf, rfl⟩
  · intro w hw
    rcases List.mem_cons.mp (h.waiterSlot w hw) with heq | hf
    · have hzero := List.countP_eq_zero.mp hasleep w hw
      exact absurd (congrArg Entry.value heq) (by simpa using hzero)
    · exact hf
  · intro f hf
    rw [h.locks f (List.mem_cons_of_mem _ hf), List.count_erase_of_ne (hne f hf)]
  · intro f hf
    have hold := h.content f (List.mem_cons_of_mem _ hf)
    unfold EntryHeld at hold ⊢
    simpa only [List.mem_erase_of_ne (hne f hf)] using hold

end AviSynth
