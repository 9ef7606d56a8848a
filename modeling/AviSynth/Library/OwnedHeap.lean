import AviSynth.Library.RefHeap
import Mathlib.Data.Multiset.Bind
import Mathlib.Tactic.Abel

/-!
# Reference-counted objects that refer to each other

An object may hold references to others, which it releases when it is freed, so
that one release can free a whole chain. The references of a heap are those that
somebody outside holds and those that its objects own. Freeing turns references
that an object owned into references that are to be released.
-/

/-- A value that occurs once belongs to one key. -/
theorem AList.eq_of_count_values {α β : Type*} [DecidableEq α] [DecidableEq β]
    {s : AList fun _ : α => β} {a a' : α} {b : β} (hone : s.values.count b = 1)
    (h : s.lookup a = some b) (h' : s.lookup a' = some b) : a' = a := by
  by_contra hne
  rw [← AList.lookup_erase_ne hne] at h'
  rw [AList.values_of_lookup h, AList.values_of_lookup h', Multiset.count_cons_self,
    Multiset.count_cons_self] at hone
  omega

namespace RefHeap

open RefHeap

variable {V : Type*} (children : V → List ℕ)

/-- The references that the objects of the heap hold. -/
def owned (h : RefHeap V) : Multiset ℕ := h.values.bind fun c => (children c.value : Multiset ℕ)

/-- Several more references. -/
def addRefs (h : RefHeap V) (ps : List ℕ) : RefHeap V := ps.foldl addRef h

/-- Release the references `ps`, and those of every object that this frees. -/
def releaseAll : ℕ → List ℕ → RefHeap V → RefHeap V
  | 0, _, h => h
  | _ + 1, [], h => h
  | fuel + 1, p :: ps, h =>
    match h.release p with
    | (none, h) => releaseAll fuel ps h
    | (some v, h) => releaseAll fuel (children v ++ ps) h

/-- The references that objects can release. -/
def ownedCount (h : RefHeap V) : ℕ := (h.entries.map fun e => (children e.2.value).length).sum

/-- Release the references `ps`, until nothing is left to release. -/
def releaseChain (ps : List ℕ) (h : RefHeap V) : RefHeap V :=
  releaseAll children (ps.length + h.ownedCount children) ps h

variable {children} {h : RefHeap V} {refs roots : Multiset ℕ} {p : ℕ} {ps : List ℕ} {v : V}

theorem ownedCount_eq (h : RefHeap V) :
    h.ownedCount children = Multiset.card (h.owned children) := by
  unfold ownedCount owned AList.values
  induction h.entries with
  | nil => rfl
  | cons e entries ih =>
    rw [List.map_cons, List.sum_cons, List.map_cons, ← Multiset.cons_coe, Multiset.cons_bind,
      Multiset.card_add, ih, Multiset.coe_card]

/-- An object owns its references together with the others. -/
theorem owned_of_lookup {c : Cell V} (hlookup : h.lookup p = some c) :
    h.owned children = (children c.value : Multiset ℕ) + owned children (h.erase p) := by
  rw [owned, AList.values_of_lookup hlookup, Multiset.cons_bind]
  rfl

/-- A count changes, an object does not: the references owned are the same. -/
theorem owned_insert {c c' : Cell V} (hlookup : h.lookup p = some c) (hvalue : c'.value = c.value) :
    owned children (h.insert p c') = h.owned children := by
  rw [owned_of_lookup hlookup, owned, AList.values_insert, Multiset.cons_bind, hvalue]
  rfl

theorem owned_addRef (h : RefHeap V) (p : ℕ) :
    (h.addRef p).owned children = h.owned children := by
  cases hlookup : h.lookup p with
  | none => simp only [addRef, hlookup]
  | some c =>
    simp only [addRef, hlookup]
    exact owned_insert hlookup rfl

theorem owned_addRefs (h : RefHeap V) (ps : List ℕ) :
    (h.addRefs ps).owned children = h.owned children := by
  induction ps generalizing h with
  | nil => rfl
  | cons p ps ih => exact (ih (h.addRef p)).trans (owned_addRef h p)

/-- A new object brings its references with it. -/
theorem owned_alloc (h : RefHeap V) (v : V) :
    (h.alloc v).owned children = (children v : Multiset ℕ) + h.owned children := by
  have herase : h.erase h.fresh = h := AList.erase_of_lookup_none (lookup_fresh h)
  rw [owned, alloc, AList.values_insert, Multiset.cons_bind, herase]
  rfl

/-- References are copied. -/
theorem Counted.addRefs (hc : Counted h refs) (hps : ∀ p ∈ ps, p ∈ refs) :
    Counted (h.addRefs ps) ((ps : Multiset ℕ) + refs) := by
  induction ps generalizing h refs with
  | nil => simpa [addRefs] using hc
  | cons p ps ih =>
    have hfirst := hc.addRef (hps p List.mem_cons_self)
    have hrest := ih hfirst fun q hq => Multiset.mem_cons_of_mem (hps q (List.mem_cons_of_mem p hq))
    rwa [Multiset.add_cons, ← Multiset.cons_add, Multiset.cons_coe] at hrest

/-- Releasing a reference leaves what the objects own as it is, or frees one object
and hands its references over. -/
theorem owned_release (children : V → List ℕ) (h : RefHeap V) (p : ℕ) :
    h.owned children = (((h.release p).1.elim [] children : List ℕ) : Multiset ℕ) +
      (h.release p).2.owned children := by
  cases hlookup : h.lookup p with
  | none =>
    have hsame : h.release p = (none, h) := by simp only [release, hlookup]
    simp [hsame]
  | some c =>
    by_cases hlast : c.refcount - 1 = 0
    · have hfree : h.release p = (some c.value, h.erase p) := by
        simp only [release, hlookup, hlast, if_true]
      rw [hfree, Option.elim_some]
      exact owned_of_lookup hlookup
    · have hkeep : h.release p = (none, h.insert p { c with refcount := c.refcount - 1 }) := by
        simp only [release, hlookup, hlast, if_false]
      rw [hkeep, Option.elim_none, Multiset.coe_nil, Multiset.zero_add]
      exact (owned_insert hlookup rfl).symm

section

variable (hc : Counted h ((ps : Multiset ℕ) + (roots + h.owned children)))
include hc

/-- With enough fuel, the references are released, and so are those of the objects freed. -/
theorem Counted.releaseAll {fuel : ℕ}
    (hfuel : ps.length + Multiset.card (h.owned children) ≤ fuel) :
    Counted (RefHeap.releaseAll children fuel ps h)
      (roots + (RefHeap.releaseAll children fuel ps h).owned children) := by
  induction fuel generalizing ps h with
  | zero =>
    obtain rfl : ps = [] := List.eq_nil_of_length_eq_zero (by omega)
    simpa [RefHeap.releaseAll] using hc
  | succ fuel ih =>
    cases ps with
    | nil => simpa [RefHeap.releaseAll] using hc
    | cons p ps =>
      rw [← Multiset.cons_coe, Multiset.cons_add] at hc
      have hnext := hc.release (Multiset.mem_cons_self p _)
      rw [Multiset.erase_cons_head] at hnext
      have howned := owned_release children h p
      have hcard := congrArg Multiset.card howned
      rw [Multiset.card_add, Multiset.coe_card] at hcard
      rw [List.length_cons] at hfuel
      simp only [RefHeap.releaseAll]
      rcases hrelease : h.release p with ⟨_ | v, h'⟩
      · rw [hrelease] at hnext howned hcard
        simp only [Option.elim_none, Multiset.coe_nil, Multiset.zero_add] at howned
        apply ih
        · rwa [howned] at hnext
        · simp only [Option.elim_none, List.length_nil] at hcard
          omega
      · rw [hrelease] at hnext howned hcard
        simp only [Option.elim_some] at howned hcard
        apply ih
        · rw [howned] at hnext
          rw [← Multiset.coe_add]
          convert hnext using 1
          abel
        · rw [List.length_append]
          omega

/-- Objects that are referred to from outside stay as they are. -/
theorem Counted.get_releaseAll {fuel q : ℕ} (hq : q ∈ roots) :
    (RefHeap.releaseAll children fuel ps h).get q = h.get q := by
  induction fuel generalizing ps h with
  | zero => rfl
  | succ fuel ih =>
    cases ps with
    | nil => rfl
    | cons p ps =>
      rw [← Multiset.cons_coe, Multiset.cons_add] at hc
      have hnext := hc.release (Multiset.mem_cons_self p _)
      have howned := owned_release children h p
      have hkept : (h.release p).2.get q = h.get q := by
        apply hc.get_release
        rw [Multiset.erase_cons_head]
        simp only [Multiset.mem_add]
        exact Or.inr (Or.inl hq)
      rw [Multiset.erase_cons_head] at hnext
      simp only [RefHeap.releaseAll]
      rcases hrelease : h.release p with ⟨_ | v, h'⟩
      · rw [hrelease] at hnext howned hkept
        simp only [Option.elim_none, Multiset.coe_nil, Multiset.zero_add] at howned
        refine (ih ?_).trans hkept
        rwa [howned] at hnext
      · rw [hrelease] at hnext howned hkept
        simp only [Option.elim_some] at howned
        refine (ih ?_).trans hkept
        rw [howned] at hnext
        rw [← Multiset.coe_add]
        convert hnext using 1
        abel

/-- A chain of releases gives up its references and nothing else. -/
theorem Counted.releaseChain :
    Counted (h.releaseChain children ps) (roots + (h.releaseChain children ps).owned children) := by
  apply hc.releaseAll
  rw [ownedCount_eq]

/-- Nor does it change objects that are referred to from outside. -/
theorem Counted.get_releaseChain {q : ℕ} (hq : q ∈ roots) :
    (h.releaseChain children ps).get q = h.get q := hc.get_releaseAll hq

end

theorem get_addRefs (h : RefHeap V) (ps : List ℕ) (q : ℕ) : (h.addRefs ps).get q = h.get q := by
  induction ps generalizing h with
  | nil => rfl
  | cons p ps ih => exact (ih (h.addRef p)).trans (get_addRef h p q)

/-- What an object refers to is referred to. -/
theorem mem_owned {q : ℕ} (hget : h.get p = some v) (hq : q ∈ children v) :
    q ∈ h.owned children := by
  obtain ⟨c, hlookup, rfl⟩ := Option.map_eq_some_iff.mp hget
  rw [owned_of_lookup hlookup]
  exact Multiset.mem_add.mpr (Or.inl (Multiset.mem_coe.mpr hq))

/-- Erasing an object leaves the others. -/
theorem get_erase_ne {q : ℕ} (hne : q ≠ p) : get (h.erase p) q = h.get q := by
  rw [get, AList.lookup_erase_ne hne, get]

/-- A release frees the object, or leaves all as they are. -/
theorem release_cases (h : RefHeap V) (p : ℕ) :
    ((h.release p).1 = none ∧ ∀ q, (h.release p).2.get q = h.get q) ∨
      ∃ v, (h.release p).1 = some v ∧ h.get p = some v ∧ (h.release p).2 = h.erase p := by
  cases hlookup : h.lookup p with
  | none =>
    left
    simp only [release, hlookup, implies_true, and_self]
  | some c =>
    by_cases hlast : c.refcount - 1 = 0
    · right
      refine ⟨c.value, ?_, ?_, ?_⟩
      · simp only [release, hlookup, hlast, if_true]
      · rw [get, hlookup, Option.map_some]
      · simp only [release, hlookup, hlast, if_true]
    · left
      simp only [release, hlookup, hlast, if_false, true_and]
      intro q
      by_cases hq : q = p
      · subst hq
        rw [get, AList.lookup_insert, get, hlookup]
        rfl
      · rw [get, AList.lookup_insert_ne hq, get]

/-- A reference that is held once is held by one object. -/
theorem eq_of_count_owned {r q : ℕ} {w : V} (hone : (h.owned children).count r = 1)
    (hp : h.get p = some v) (hr : r ∈ children v) (hq : h.get q = some w) (hr' : r ∈ children w) :
    q = p := by
  by_contra hne
  obtain ⟨c, hlookup, rfl⟩ := Option.map_eq_some_iff.mp hp
  rw [← get_erase_ne hne] at hq
  have hothers : r ∈ owned children (h.erase p) := mem_owned hq hr'
  rw [owned_of_lookup hlookup, Multiset.count_add] at hone
  have hself := Multiset.count_pos.mpr (Multiset.mem_coe.mpr hr)
  have hrest := Multiset.count_pos.mpr hothers
  omega

end RefHeap

/-!
## Totals over a heap

What the cells of a heap hold is added up: as references, in a multiset, or as a
number that measures how much is left. An operation changes the total by what it
changes in one cell. Cells may also be kept when nothing refers to them.
-/

namespace RefHeap

variable {V M : Type*} [AddCommMonoid M] (f : V → M)

/-- The total over the values of all cells. -/
def total (h : RefHeap V) : M := (h.values.map fun c => f c.value).sum

/-- One reference less, without freeing the cell. -/
def unref (h : RefHeap V) (p : ℕ) : RefHeap V :=
  match h.lookup p with
  | none => h
  | some c => h.insert p { c with refcount := c.refcount - 1 }

variable {f} {h : RefHeap V} {refs : Multiset ℕ} {p q : ℕ} {v w : V}

theorem total_of_lookup {c : Cell V} (hlookup : h.lookup p = some c) :
    h.total f = f c.value + total f (h.erase p) := by
  rw [total, AList.values_of_lookup hlookup, Multiset.map_cons, Multiset.sum_cons, total]

theorem total_insert (h : RefHeap V) (p : ℕ) (c : Cell V) :
    total f (h.insert p c) = f c.value + total f (h.erase p) := by
  rw [total, AList.values_insert, Multiset.map_cons, Multiset.sum_cons, total]

/-- A new cell adds its value. -/
theorem total_insertNew (hnone : h.lookup p = none) (c : Cell V) :
    total f (h.insert p c) = f c.value + h.total f := by
  rw [total_insert, AList.erase_of_lookup_none hnone]

/-- A count changes and the value does not. -/
theorem total_recount {c c' : Cell V} (hlookup : h.lookup p = some c)
    (hvalue : c'.value = c.value) : total f (h.insert p c') = h.total f := by
  rw [total_insert, total_of_lookup hlookup, hvalue]

theorem total_addRef (h : RefHeap V) (p : ℕ) : (h.addRef p).total f = h.total f := by
  cases hlookup : h.lookup p with
  | none => simp only [addRef, hlookup]
  | some c =>
    simp only [addRef, hlookup]
    exact total_recount hlookup rfl

theorem total_unref (h : RefHeap V) (p : ℕ) : (h.unref p).total f = h.total f := by
  cases hlookup : h.lookup p with
  | none => simp only [unref, hlookup]
  | some c =>
    simp only [unref, hlookup]
    exact total_recount hlookup rfl

/-- A cell is written to. -/
theorem total_put (hget : h.get p = some v) (w : V) :
    (h.put p w).total f + f v = h.total f + f w := by
  obtain ⟨c, hlookup, rfl⟩ := Option.map_eq_some_iff.mp hget
  simp only [put, hlookup]
  rw [total_insert, total_of_lookup hlookup]
  abel

/-- What is in a total of multisets is in the value of some cell. -/
theorem exists_of_mem_total {α : Type*} {g : V → Multiset α} {a : α} (hmem : a ∈ h.total g) :
    ∃ p v, h.get p = some v ∧ a ∈ g v := by
  have hbind : a ∈ h.values.bind fun c => g c.value := hmem
  obtain ⟨c, hc, ha⟩ := Multiset.mem_bind.mp hbind
  obtain ⟨p, hlookup⟩ := AList.exists_lookup hc
  refine ⟨p, c.value, ?_, ha⟩
  rw [get, hlookup, Option.map_some]

/-- A release leaves the total, or frees a cell with what it holds. -/
theorem total_release (f : V → M) (h : RefHeap V) (p : ℕ) :
    h.total f = (h.release p).1.elim 0 f + (h.release p).2.total f := by
  cases hlookup : h.lookup p with
  | none =>
    simp only [release, hlookup, Option.elim_none, zero_add]
  | some c =>
    by_cases hlast : c.refcount - 1 = 0
    · simp only [release, hlookup, hlast, if_true, Option.elim_some]
      exact total_of_lookup hlookup
    · simp only [release, hlookup, hlast, if_false, Option.elim_none, zero_add]
      exact (total_recount hlookup rfl).symm

/-- A reference is taken to a cell that is there. -/
theorem Counted.addRef_of_get (hc : Counted h refs) (hget : h.get p = some v) :
    Counted (h.addRef p) (p ::ₘ refs) := by
  obtain ⟨c, hlookup, -⟩ := Option.map_eq_some_iff.mp hget
  exact hc.addRef_of_lookup hlookup

/-- A reference is given up, and the cell is kept. -/
theorem Counted.unref (hc : Counted h (p ::ₘ refs)) : Counted (h.unref p) refs := by
  obtain ⟨c, hlookup⟩ := hc.alive p (Multiset.mem_cons_self p refs)
  have hcount := hc.count p c hlookup
  rw [Multiset.count_cons_self] at hcount
  have heq : h.unref p = h.insert p { c with refcount := c.refcount - 1 } := by
    simp only [RefHeap.unref, hlookup]
  rw [heq]
  constructor
  · intro q c' hlookup'
    by_cases hq : q = p
    · subst hq
      rw [AList.lookup_insert, Option.some.injEq] at hlookup'
      rw [← hlookup']
      simp only
      omega
    · rw [AList.lookup_insert_ne hq] at hlookup'
      rw [hc.count q c' hlookup', Multiset.count_cons_of_ne hq]
  · intro q hq
    by_cases hqp : q = p
    · exact ⟨_, by rw [hqp, AList.lookup_insert]⟩
    · rw [AList.lookup_insert_ne hqp]
      exact hc.alive q (Multiset.mem_cons_of_mem hq)

/-- A cell is made at an unused address, with some references to it. -/
theorem Counted.insertNew (hc : Counted h refs) (hnone : h.lookup p = none) (n : ℕ) (v : V) :
    Counted (h.insert p ⟨n, v⟩) (Multiset.replicate n p + refs) := by
  have hunused : p ∉ refs := by
    intro hmem
    obtain ⟨c, hlookup⟩ := hc.alive p hmem
    rw [hnone] at hlookup
    cases hlookup
  constructor
  · intro q c hlookup
    by_cases hq : q = p
    · subst hq
      rw [AList.lookup_insert, Option.some.injEq] at hlookup
      rw [← hlookup, Multiset.count_add, Multiset.count_replicate_self,
        Multiset.count_eq_zero.mpr hunused, Nat.add_zero]
    · rw [AList.lookup_insert_ne hq] at hlookup
      rw [Multiset.count_add, Multiset.count_replicate, if_neg (Ne.symm hq), Nat.zero_add]
      exact hc.count q c hlookup
  · intro q hq
    by_cases hqp : q = p
    · exact ⟨_, by rw [hqp, AList.lookup_insert]⟩
    · rw [AList.lookup_insert_ne hqp]
      rcases Multiset.mem_add.mp hq with hq | hq
      · exact absurd (Multiset.eq_of_mem_replicate hq) hqp
      · exact hc.alive q hq

theorem get_unref (h : RefHeap V) (p q : ℕ) : (h.unref p).get q = h.get q := by
  cases hlookup : h.lookup p with
  | none => simp only [unref, hlookup]
  | some c =>
    by_cases hq : q = p
    · subst hq
      simp [unref, get, hlookup]
    · simp [unref, get, hlookup, AList.lookup_insert_ne hq]

/-- Every cell is referred to. -/
def Used (h : RefHeap V) : Prop := ∀ p c, h.lookup p = some c → 0 < c.refcount

theorem Used.insert (hu : Used h) (p : ℕ) {c : Cell V} (hpos : 0 < c.refcount) :
    Used (h.insert p c) := by
  intro q c' hlookup
  by_cases hq : q = p
  · subst hq
    rw [AList.lookup_insert, Option.some.injEq] at hlookup
    rwa [← hlookup]
  · rw [AList.lookup_insert_ne hq] at hlookup
    exact hu q c' hlookup

theorem Used.addRef (hu : Used h) (p : ℕ) : Used (h.addRef p) := by
  unfold RefHeap.addRef
  split
  · exact hu
  · next c hlookup =>
    have hpos := hu p c hlookup
    exact hu.insert p (by simp only; omega)

theorem Used.put (hu : Used h) (p : ℕ) (v : V) : Used (h.put p v) := by
  unfold RefHeap.put
  split
  · exact hu
  · next c hlookup => exact hu.insert p (hu p c hlookup)

theorem Used.release (hu : Used h) (p : ℕ) : Used (h.release p).2 := by
  unfold RefHeap.release
  split
  · exact hu
  · next c hlookup =>
    have hpos := hu p c hlookup
    split
    · intro q c' hlookup'
      by_cases hq : q = p
      · subst hq
        rw [AList.lookup_erase] at hlookup'
        cases hlookup'
      · rw [AList.lookup_erase_ne hq] at hlookup'
        exact hu q c' hlookup'
    · exact hu.insert p (by simp only; omega)

/-- A cell in use is referred to. -/
theorem Counted.mem_of_used (hc : Counted h refs) (hu : Used h) (hget : h.get p = some v) :
    p ∈ refs := by
  obtain ⟨c, hlookup, -⟩ := Option.map_eq_some_iff.mp hget
  have hpos := hu p c hlookup
  rw [hc.count p c hlookup] at hpos
  exact Multiset.count_pos.mp (by omega)

end RefHeap
