import Mathlib.Data.List.AList
import Mathlib.Data.Multiset.AddSub

/-!
# A heap of reference-counted cells

A cell is freed when its last reference is released. The references are held
somewhere outside the heap, and are given as a multiset of addresses: a heap is
counted if each cell's count is the number of references to it and every
reference is to a cell. Then a count of one means that there is no other
reference, so that the cell may be written to in place.
-/

/-- A cell with its reference count. -/
structure RefHeap.Cell (V : Type*) where
  refcount : ℤ
  value : V

/-- The cells by their addresses. -/
abbrev RefHeap (V : Type*) := AList fun _ : ℕ => RefHeap.Cell V

namespace AList

variable {α : Type*} {β : Type*} [DecidableEq α] {s : AList fun _ : α => β} {a : α} {b : β}

/-- The values of an association list. -/
def values (s : AList fun _ : α => β) : Multiset β := (s.entries.map (·.2) : List β)

/-- An entry comes apart from the others. -/
theorem perm_entries (h : s.lookup a = some b) :
    s.entries.Perm (⟨a, b⟩ :: (s.erase a).entries) := by
  have hmem : a ∈ s.entries.keys := lookup_isSome.mp (by rw [h]; rfl)
  obtain ⟨b', l₁, l₂, -, hsplit, herase⟩ := List.exists_of_kerase hmem
  have hb : b' = b := by
    have hentry : (⟨a, b'⟩ : Sigma fun _ : α => β) ∈ s.entries := by simp [hsplit]
    have := List.mem_dlookup s.nodupKeys hentry
    exact Option.some.inj (this.symm.trans h)
  subst hb
  have hkerase : (s.erase a).entries = l₁ ++ l₂ := herase
  rw [hkerase, hsplit]
  exact List.perm_middle

/-- So does its value. -/
theorem values_of_lookup (h : s.lookup a = some b) : s.values = b ::ₘ (s.erase a).values :=
  Multiset.coe_eq_coe.mpr ((perm_entries h).map _)

/-- An insertion adds its value and takes away the one that was there. -/
theorem values_insert (s : AList fun _ : α => β) (a : α) (b : β) :
    (s.insert a b).values = b ::ₘ (s.erase a).values := by
  simp only [values, entries_insert, List.map_cons, Multiset.cons_coe]
  rfl

/-- Erasing a key that is not there changes nothing. -/
theorem erase_of_lookup_none (h : s.lookup a = none) : s.erase a = s :=
  ext (List.kerase_of_notMem_keys (lookup_eq_none.mp h))

/-- A value that can be looked up is one of the values. -/
theorem mem_values (h : s.lookup a = some b) : b ∈ s.values := by
  rw [values_of_lookup h]
  exact Multiset.mem_cons_self _ _

/-- Every value can be looked up. -/
theorem exists_lookup (h : b ∈ s.values) : ∃ a, s.lookup a = some b := by
  obtain ⟨⟨a, b'⟩, hmem, rfl⟩ := List.mem_map.mp (Multiset.mem_coe.mp h)
  exact ⟨a, List.mem_dlookup s.nodupKeys hmem⟩

end AList

namespace RefHeap

variable {V : Type*}

/-- An address that is not in use. -/
def fresh (h : RefHeap V) : ℕ := h.keys.foldr max 0 + 1

/-- `new`: a cell with one reference. -/
def alloc (h : RefHeap V) (v : V) : RefHeap V := h.insert h.fresh ⟨1, v⟩

/-- The value of a cell. -/
def get (h : RefHeap V) (p : ℕ) : Option V := (h.lookup p).map Cell.value

/-- One more reference. -/
def addRef (h : RefHeap V) (p : ℕ) : RefHeap V :=
  match h.lookup p with
  | none => h
  | some c => h.insert p { c with refcount := c.refcount + 1 }

/-- One reference less. The value of the cell is returned if that frees it. -/
def release (h : RefHeap V) (p : ℕ) : Option V × RefHeap V :=
  match h.lookup p with
  | none => (none, h)
  | some c =>
    if c.refcount - 1 = 0 then (some c.value, h.erase p)
    else (none, h.insert p { c with refcount := c.refcount - 1 })

/-- There is exactly one reference. -/
def Unique (h : RefHeap V) (p : ℕ) : Prop := ((h.lookup p).any fun c => c.refcount = 1) = true
  deriving Decidable

/-- Write to a cell in place. -/
def put (h : RefHeap V) (p : ℕ) (v : V) : RefHeap V :=
  match h.lookup p with
  | none => h
  | some c => h.insert p { c with value := v }

/-- The counts are those of the references, and there are no others. -/
structure Counted (h : RefHeap V) (refs : Multiset ℕ) : Prop where
  count : ∀ p c, h.lookup p = some c → c.refcount = refs.count p
  alive : ∀ p ∈ refs, ∃ c, h.lookup p = some c

variable {h : RefHeap V} {refs : Multiset ℕ} {p q : ℕ} {v : V}

/-- The empty heap has no references. -/
theorem Counted.empty : Counted (∅ : RefHeap V) 0 where
  count := by simp
  alive := by simp

/-- A new address is new. -/
theorem lookup_fresh (h : RefHeap V) : h.lookup h.fresh = none := by
  refine AList.lookup_eq_none.mpr fun hmem => ?_
  have hle : ∀ l : List ℕ, ∀ a ∈ l, a ≤ l.foldr max 0 := by
    intro l
    induction l with
    | nil => simp
    | cons b l ih =>
      intro a ha
      rcases List.mem_cons.mp ha with rfl | ha
      · exact Nat.le_max_left _ _
      · exact (ih a ha).trans (Nat.le_max_right _ _)
  have := hle _ _ (AList.mem_keys.mp hmem)
  simp only [fresh] at this
  omega

section

variable (hc : Counted h refs)
include hc

/-- A referenced cell has a value. -/
theorem Counted.get (hp : p ∈ refs) : ∃ v, h.get p = some v := by
  obtain ⟨c, hlookup⟩ := hc.alive p hp
  exact ⟨c.value, by rw [RefHeap.get, hlookup, Option.map_some]⟩

/-- A new address has no references. -/
theorem Counted.fresh_notMem : h.fresh ∉ refs := by
  intro hmem
  obtain ⟨c, hlookup⟩ := hc.alive _ hmem
  rw [lookup_fresh] at hlookup
  cases hlookup

omit hc in
theorem get_alloc_self (h : RefHeap V) (v : V) : (h.alloc v).get h.fresh = some v := by
  simp [get, alloc]

theorem Counted.get_alloc (hq : q ∈ refs) (v : V) :
    (h.alloc v).get q = h.get q := by
  have hne : q ≠ h.fresh := fun heq => hc.fresh_notMem (heq ▸ hq)
  simp only [RefHeap.get, alloc, AList.lookup_insert_ne hne]

/-- A new cell comes with a reference. -/
theorem Counted.alloc (v : V) : Counted (h.alloc v) (h.fresh ::ₘ refs) := by
  have hfresh : refs.count h.fresh = 0 := Multiset.count_eq_zero.mpr hc.fresh_notMem
  constructor
  · intro p c hlookup
    by_cases hp : p = h.fresh
    · subst hp
      simp only [RefHeap.alloc, AList.lookup_insert, Option.some.injEq] at hlookup
      rw [← hlookup, Multiset.count_cons_self, hfresh]
      rfl
    · rw [RefHeap.alloc, AList.lookup_insert_ne hp] at hlookup
      rw [Multiset.count_cons_of_ne hp]
      exact hc.count p c hlookup
  · intro p hp
    by_cases heq : p = h.fresh
    · exact ⟨_, by rw [heq, RefHeap.alloc, AList.lookup_insert]⟩
    · rw [RefHeap.alloc, AList.lookup_insert_ne heq]
      exact hc.alive p ((Multiset.mem_cons.mp hp).resolve_left heq)

omit hc in
theorem get_addRef (h : RefHeap V) (p q : ℕ) : (h.addRef p).get q = h.get q := by
  cases hp : h.lookup p with
  | none => simp only [addRef, hp]
  | some c =>
    by_cases hq : q = p
    · subst hq
      simp [addRef, get, hp]
    · simp [addRef, get, hp, AList.lookup_insert_ne hq]

/-- A reference is taken to a cell that is there. -/
theorem Counted.addRef_of_lookup {c : RefHeap.Cell V}
    (hlookup : h.lookup p = some c) : Counted (h.addRef p) (p ::ₘ refs) := by
  have heq : h.addRef p = h.insert p { c with refcount := c.refcount + 1 } := by
    simp only [RefHeap.addRef, hlookup]
  rw [heq]
  constructor
  · intro q c' hlookup'
    by_cases hq : q = p
    · subst hq
      rw [AList.lookup_insert, Option.some.injEq] at hlookup'
      rw [← hlookup', Multiset.count_cons_self, hc.count q c hlookup]
      rfl
    · rw [AList.lookup_insert_ne hq] at hlookup'
      rw [Multiset.count_cons_of_ne hq]
      exact hc.count q c' hlookup'
  · intro q hq
    by_cases hqp : q = p
    · exact ⟨_, by rw [hqp, AList.lookup_insert]⟩
    · rw [AList.lookup_insert_ne hqp]
      exact hc.alive q ((Multiset.mem_cons.mp hq).resolve_left hqp)

/-- A reference is copied. -/
theorem Counted.addRef (hp : p ∈ refs) :
    Counted (h.addRef p) (p ::ₘ refs) := by
  obtain ⟨c, hlookup⟩ := hc.alive p hp
  exact hc.addRef_of_lookup hlookup

/-- The last reference frees the cell, any other one leaves it. -/
theorem Counted.release_eq (hp : p ∈ refs) {v : V} (hv : h.get p = some v) :
    (h.release p).1 = if refs.count p = 1 then some v else none := by
  obtain ⟨c, hlookup⟩ := hc.alive p hp
  obtain rfl : c.value = v := by simpa [RefHeap.get, hlookup] using hv
  have hcount := hc.count p c hlookup
  by_cases hone : refs.count p = 1
  · have hzero : c.refcount - 1 = 0 := by omega
    simp only [RefHeap.release, hlookup, hzero, hone, if_true]
  · have hzero : ¬c.refcount - 1 = 0 := by omega
    simp only [RefHeap.release, hlookup, hzero, hone, if_false]

theorem Counted.get_release (hq : q ∈ refs.erase p) :
    (h.release p).2.get q = h.get q := by
  cases hlookup : h.lookup p with
  | none => simp only [RefHeap.release, hlookup]
  | some c =>
    have hcount := hc.count p c hlookup
    by_cases hqp : q = p
    · subst hqp
      have hpos := Multiset.count_pos.mpr hq
      rw [Multiset.count_erase_self] at hpos
      have hzero : ¬c.refcount - 1 = 0 := by omega
      simp [RefHeap.release, RefHeap.get, hlookup, hzero]
    · by_cases hzero : c.refcount - 1 = 0
      · simp [RefHeap.release, RefHeap.get, hlookup, hzero, AList.lookup_erase_ne hqp]
      · simp [RefHeap.release, RefHeap.get, hlookup, hzero, AList.lookup_insert_ne hqp]

/-- A reference is released. -/
theorem Counted.release (hp : p ∈ refs) :
    Counted (h.release p).2 (refs.erase p) := by
  obtain ⟨c, hlookup⟩ := hc.alive p hp
  have hcount := hc.count p c hlookup
  have hpos := Multiset.count_pos.mpr hp
  by_cases hzero : c.refcount - 1 = 0
  · have heq : (h.release p).2 = h.erase p := by
      simp only [RefHeap.release, hlookup, hzero, if_true]
    have hgone : p ∉ refs.erase p := by
      rw [← Multiset.count_eq_zero, Multiset.count_erase_self]
      omega
    rw [heq]
    constructor
    · intro q c' hlookup'
      have hq : q ≠ p := by
        rintro rfl
        rw [AList.lookup_erase] at hlookup'
        cases hlookup'
      rw [AList.lookup_erase_ne hq] at hlookup'
      rw [Multiset.count_erase_of_ne hq]
      exact hc.count q c' hlookup'
    · intro q hq
      have hqp : q ≠ p := fun heq => hgone (heq ▸ hq)
      rw [AList.lookup_erase_ne hqp]
      exact hc.alive q (Multiset.mem_of_mem_erase hq)
  · have heq : (h.release p).2 = h.insert p { c with refcount := c.refcount - 1 } := by
      simp only [RefHeap.release, hlookup, hzero, if_false]
    rw [heq]
    constructor
    · intro q c' hlookup'
      by_cases hq : q = p
      · subst hq
        rw [AList.lookup_insert, Option.some.injEq] at hlookup'
        rw [← hlookup', Multiset.count_erase_self]
        simp only
        omega
      · rw [AList.lookup_insert_ne hq] at hlookup'
        rw [Multiset.count_erase_of_ne hq]
        exact hc.count q c' hlookup'
    · intro q hq
      by_cases hqp : q = p
      · exact ⟨_, by rw [hqp, AList.lookup_insert]⟩
      · rw [AList.lookup_insert_ne hqp]
        exact hc.alive q (Multiset.mem_of_mem_erase hq)

/-- A unique cell has no other reference. -/
theorem Counted.unique_iff (hp : p ∈ refs) :
    h.Unique p ↔ refs.count p = 1 := by
  obtain ⟨c, hlookup⟩ := hc.alive p hp
  have hcount := hc.count p c hlookup
  simp only [Unique, hlookup, Option.any_some, decide_eq_true_eq]
  omega

end

theorem get_put_self (hp : ∃ w, h.get p = some w) (v : V) : (h.put p v).get p = some v := by
  obtain ⟨w, hw⟩ := hp
  obtain ⟨c, hlookup, -⟩ := Option.map_eq_some_iff.mp hw
  simp [put, get, hlookup]

theorem get_put_ne (hq : q ≠ p) (v : V) : (h.put p v).get q = h.get q := by
  cases hp : h.lookup p with
  | none => simp only [put, hp]
  | some c => simp [put, get, hp, AList.lookup_insert_ne hq]

/-- Writing to a cell changes no count. -/
theorem Counted.put (hc : Counted h refs) (p : ℕ) (v : V) : Counted (h.put p v) refs := by
  cases hp : h.lookup p with
  | none =>
    have heq : h.put p v = h := by simp only [RefHeap.put, hp]
    rwa [heq]
  | some c =>
    have heq : h.put p v = h.insert p { c with value := v } := by simp only [RefHeap.put, hp]
    rw [heq]
    constructor
    · intro q c' hlookup
      by_cases hq : q = p
      · subst hq
        rw [AList.lookup_insert, Option.some.injEq] at hlookup
        rw [← hlookup]
        exact hc.count q c hp
      · rw [AList.lookup_insert_ne hq] at hlookup
        exact hc.count q c' hlookup
    · intro q hq
      by_cases hqp : q = p
      · exact ⟨_, by rw [hqp, AList.lookup_insert]⟩
      · rw [AList.lookup_insert_ne hqp]
        exact hc.alive q hq

end RefHeap
