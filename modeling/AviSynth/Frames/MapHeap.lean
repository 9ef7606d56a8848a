import AviSynth.Frames.AVSMap
import Mathlib.Data.Multiset.Bind

/-!
# Ownership of storages and arrays

The references to storages are held by maps, and those to arrays by storages and
by operations in progress. Each elementary change of the heap moves references
from one owner to another, and leaves what the other owners see as it is.
-/

namespace AviSynth

open RefHeap

/-- What a map is for: from keys to typed lists of values, and an error mark. -/
@[ext]
structure PropMap (V : Type) where
  props : String → Option (AVSPropertyType × List V)
  error : Bool

namespace MapHeap

variable {V : Type} {h : MapHeap V} {roots extra : Multiset ℕ} {p q a : ℕ} {st st' : VSMapStorage}

/-- The references to arrays that storages hold. -/
def arrayRefs (h : MapHeap V) : Multiset ℕ :=
  h.storages.values.bind fun c => (arraysOf c.value : Multiset ℕ)

/-- The type and the values of an array. -/
def contents (arr : VSArray V) : AVSPropertyType × List V := (arr.ftype, arr.values)

/-- What a storage stands for. -/
def viewOf (h : MapHeap V) (st : VSMapStorage) : PropMap V where
  props key := (st.data.lookup key).bind fun a => (h.arrays.get a).map contents
  error := st.error

/-- What a map that points to `p` stands for. -/
def view (h : MapHeap V) (p : ℕ) : Option (PropMap V) := (h.storages.get p).map h.viewOf

/-- The maps hold the references `roots` to storages, and operations in progress
hold the references `extra` to arrays. -/
structure Owned (h : MapHeap V) (roots extra : Multiset ℕ) : Prop where
  storages : h.storages.Counted roots
  arrays : h.arrays.Counted (extra + h.arrayRefs)

/-- The owners of these references see no change. -/
structure Preserves (h h' : MapHeap V) (roots extra : Multiset ℕ) : Prop where
  storages : ∀ q ∈ roots, h'.storages.get q = h.storages.get q
  views : ∀ q ∈ roots, h'.view q = h.view q
  arrays : ∀ a ∈ extra, h'.arrays.get a = h.arrays.get a

/-- One change after the other. -/
theorem Preserves.trans {h₁ h₂ h₃ : MapHeap V} (h₁₂ : Preserves h₁ h₂ roots extra)
    (h₂₃ : Preserves h₂ h₃ roots extra) : Preserves h₁ h₃ roots extra where
  storages q hq := (h₂₃.storages q hq).trans (h₁₂.storages q hq)
  views q hq := (h₂₃.views q hq).trans (h₁₂.views q hq)
  arrays a ha := (h₂₃.arrays a ha).trans (h₁₂.arrays a ha)

/-- Fewer owners see no change either. -/
theorem Preserves.mono {h' : MapHeap V} {roots' extra' : Multiset ℕ}
    (hp : Preserves h h' roots extra) (hroots : roots' ≤ roots) (hextra : extra' ≤ extra) :
    Preserves h h' roots' extra' where
  storages q hq := hp.storages q (Multiset.mem_of_le hroots hq)
  views q hq := hp.views q (Multiset.mem_of_le hroots hq)
  arrays a ha := hp.arrays a (Multiset.mem_of_le hextra ha)

theorem Preserves.refl (h : MapHeap V) : Preserves h h roots extra where
  storages _ _ := rfl
  views _ _ := rfl
  arrays _ _ := rfl

/-- A storage's references are among all. -/
theorem arraysOf_le (hget : h.storages.get p = some st) :
    (arraysOf st : Multiset ℕ) ≤ h.arrayRefs := by
  obtain ⟨c, hlookup, rfl⟩ := Option.map_eq_some_iff.mp hget
  rw [arrayRefs, AList.values_of_lookup hlookup, Multiset.cons_bind]
  exact Multiset.le_add_right _ _

/-- The arrays of a storage, as a key leads to them. -/
theorem mem_arraysOf {key : String} (hkey : st.data.lookup key = some a) : a ∈ arraysOf st :=
  Multiset.mem_coe.mp (AList.mem_values hkey)

/-- A storage whose arrays are the same stands for the same. -/
theorem viewOf_congr {h' : MapHeap V}
    (harrays : ∀ a ∈ arraysOf st, h'.arrays.get a = h.arrays.get a) :
    h'.viewOf st = h.viewOf st := by
  refine PropMap.ext (funext fun key => ?_) rfl
  simp only [viewOf]
  cases hkey : st.data.lookup key with
  | none => rfl
  | some a => simp only [Option.bind_some, harrays a (mem_arraysOf hkey)]

/-- A map whose storage and arrays are the same stands for the same. -/
theorem view_congr {h' : MapHeap V} (hget : h'.storages.get q = h.storages.get q)
    (harrays : ∀ a ∈ h.arrayRefs, h'.arrays.get a = h.arrays.get a) : h'.view q = h.view q := by
  simp only [view, hget]
  cases hst : h.storages.get q with
  | none => rfl
  | some st =>
    rw [Option.map_some, Option.map_some, viewOf_congr fun a ha =>
      harrays a (Multiset.mem_of_le (arraysOf_le hst) (Multiset.mem_coe.mpr ha))]

/-- Changes of the storages that leave those in use alone are not seen. -/
theorem preserves_of_storages {storages : RefHeap VSMapStorage}
    (hstorages : ∀ q ∈ roots, storages.get q = h.storages.get q) :
    Preserves h { h with storages := storages } roots extra where
  storages := hstorages
  views q hq := view_congr (hstorages q hq) fun _ _ => rfl
  arrays _ _ := rfl

/-- Changes of the arrays that leave those in use alone are not seen. -/
theorem preserves_of_arrays {arrays : RefHeap (VSArray V)}
    (harrays : ∀ a ∈ extra + h.arrayRefs, arrays.get a = h.arrays.get a) :
    Preserves h { h with arrays := arrays } roots extra where
  storages _ _ := rfl
  views _ _ := view_congr rfl fun a ha => harrays a (Multiset.mem_add.mpr (Or.inr ha))
  arrays a ha := harrays a (Multiset.mem_add.mpr (Or.inl ha))

/-- An operation releases its reference to an array. -/
theorem Owned.releaseArray (ho : Owned h roots (a ::ₘ extra)) :
    Owned (h.releaseArray a) roots extra ∧ Preserves h (h.releaseArray a) roots extra := by
  have herase : (a ::ₘ extra + h.arrayRefs).erase a = extra + h.arrayRefs := by
    rw [Multiset.cons_add, Multiset.erase_cons_head]
  have hmem : a ∈ a ::ₘ extra + h.arrayRefs := by simp
  refine ⟨⟨ho.storages, herase ▸ ho.arrays.release hmem⟩, preserves_of_arrays fun b hb => ?_⟩
  exact ho.arrays.get_release (herase ▸ hb)

/-- It releases several. -/
theorem Owned.releaseArrays {ps : List ℕ} (ho : Owned h roots ((ps : Multiset ℕ) + extra)) :
    Owned (ps.foldl MapHeap.releaseArray h) roots extra ∧
      Preserves h (ps.foldl MapHeap.releaseArray h) roots extra := by
  induction ps generalizing h with
  | nil => exact ⟨by simpa using ho, Preserves.refl h⟩
  | cons a ps ih =>
    have hcons : ((a :: ps : List ℕ) : Multiset ℕ) + extra = a ::ₘ ((ps : Multiset ℕ) + extra) := by
      rw [← Multiset.cons_coe, Multiset.cons_add]
    rw [hcons] at ho
    obtain ⟨ho', hp⟩ := ho.releaseArray
    obtain ⟨ho'', hp'⟩ := ih ho'
    exact ⟨ho'', (hp.mono le_rfl (Multiset.le_add_left _ _)).trans hp'⟩

/-- It takes references to arrays that have one. -/
theorem Owned.addArrayRefs {ps : List ℕ} (ho : Owned h roots extra)
    (hps : ∀ a ∈ ps, a ∈ extra + h.arrayRefs) :
    Owned (h.addArrayRefs ps) roots ((ps : Multiset ℕ) + extra) ∧
      ∀ b, (h.addArrayRefs ps).arrays.get b = h.arrays.get b := by
  induction ps generalizing h extra with
  | nil => exact ⟨by simpa [MapHeap.addArrayRefs] using ho, fun _ => rfl⟩
  | cons a ps ih =>
    have ha := hps a List.mem_cons_self
    have ho' : Owned { h with arrays := h.arrays.addRef a } roots (a ::ₘ extra) :=
      ⟨ho.storages, by rw [Multiset.cons_add]; exact ho.arrays.addRef ha⟩
    obtain ⟨ho'', hget⟩ := ih ho' fun b hb => by
      rw [Multiset.cons_add]
      exact Multiset.mem_cons_of_mem (hps b (List.mem_cons_of_mem _ hb))
    refine ⟨?_, fun b => (hget b).trans (get_addRef _ _ _)⟩
    rw [← Multiset.cons_coe, Multiset.cons_add, ← Multiset.add_cons]
    exact ho''

/-- A new array comes with a reference. -/
theorem Owned.newArray (ho : Owned h roots extra) (arr : VSArray V) :
    Owned { h with arrays := h.arrays.alloc arr } roots (h.arrays.fresh ::ₘ extra) ∧
      Preserves h { h with arrays := h.arrays.alloc arr } roots extra := by
  refine ⟨⟨ho.storages, ?_⟩, preserves_of_arrays fun b hb => ho.arrays.get_alloc hb arr⟩
  rw [Multiset.cons_add]
  exact ho.arrays.alloc arr

/-- A new storage takes the references to its arrays from the operation. -/
theorem Owned.newStorage (ho : Owned h roots ((arraysOf st : Multiset ℕ) + extra)) :
    Owned { h with storages := h.storages.alloc st } (h.storages.fresh ::ₘ roots) extra ∧
      Preserves h { h with storages := h.storages.alloc st } roots extra ∧
      (h.storages.alloc st).get h.storages.fresh = some st := by
  have hrefs : arrayRefs { h with storages := h.storages.alloc st } =
      (arraysOf st : Multiset ℕ) + h.arrayRefs := by
    simp only [arrayRefs, RefHeap.alloc, AList.values_insert,
      AList.erase_of_lookup_none (lookup_fresh h.storages), Multiset.cons_bind]
  refine ⟨⟨ho.storages.alloc st, ?_⟩,
    preserves_of_storages fun q hq => ho.storages.get_alloc hq st, get_alloc_self _ _⟩
  rw [hrefs, ← add_assoc, add_comm extra]
  exact ho.arrays

/-- Writing to a storage exchanges the references to its arrays. -/
theorem arrayRefs_put (hget : h.storages.get p = some st) (st' : VSMapStorage) :
    (arraysOf st : Multiset ℕ) + arrayRefs { h with storages := h.storages.put p st' } =
      (arraysOf st' : Multiset ℕ) + h.arrayRefs := by
  obtain ⟨c, hlookup, rfl⟩ := Option.map_eq_some_iff.mp hget
  simp only [arrayRefs, RefHeap.put, hlookup, AList.values_insert, AList.values_of_lookup hlookup,
    Multiset.cons_bind]
  exact add_left_comm _ _ _

/-- A storage is written to, and the operation takes over the references that the
storage gives up. -/
theorem Owned.putStorage (ho : Owned h roots extra) (hget : h.storages.get p = some st)
    (st' : VSMapStorage) (extra' : Multiset ℕ)
    (hexchange : extra + (arraysOf st : Multiset ℕ) = extra' + (arraysOf st' : Multiset ℕ)) :
    Owned { h with storages := h.storages.put p st' } roots extra' := by
  refine ⟨ho.storages.put p st', ?_⟩
  have hrefs : extra' + arrayRefs { h with storages := h.storages.put p st' } =
      extra + h.arrayRefs := by
    refine add_left_cancel (a := (arraysOf st : Multiset ℕ)) ?_
    rw [add_left_comm, arrayRefs_put hget, add_left_comm _ extra, ← add_assoc,
      ← add_assoc extra, hexchange]
  rw [hrefs]
  exact ho.arrays

/-- The storage stands for what was written. -/
theorem view_putStorage_self (hget : h.storages.get p = some st) (st' : VSMapStorage) :
    view { h with storages := h.storages.put p st' } p = some (h.viewOf st') := by
  rw [view, get_put_self ⟨st, hget⟩]
  rfl

/-- A map lets go of its storage. -/
theorem Owned.releaseStorage (ho : Owned h roots extra) (hp : p ∈ roots) :
    Owned (h.releaseStorage p) (roots.erase p) extra ∧
      Preserves h (h.releaseStorage p) (roots.erase p) extra := by
  obtain ⟨c, hlookup⟩ := ho.storages.alive p hp
  have hget : h.storages.get p = some c.value := by rw [RefHeap.get, hlookup, Option.map_some]
  have hresult := ho.storages.release_eq hp hget
  have hcount := ho.storages.count p c hlookup
  have hviews : Preserves h { h with storages := (h.storages.release p).2 } (roots.erase p) extra :=
    preserves_of_storages fun q hq => ho.storages.get_release hq
  by_cases hone : roots.count p = 1
  · rw [if_pos hone] at hresult
    have hzero : c.refcount - 1 = 0 := by omega
    have hrefs : h.arrayRefs = (arraysOf c.value : Multiset ℕ) +
        arrayRefs { h with storages := (h.storages.release p).2 } := by
      simp only [arrayRefs, RefHeap.release, hlookup, hzero, if_true,
        AList.values_of_lookup hlookup, Multiset.cons_bind]
    have ho' : Owned { h with storages := (h.storages.release p).2 } (roots.erase p)
        ((arraysOf c.value : Multiset ℕ) + extra) := by
      refine ⟨ho.storages.release hp, ?_⟩
      rw [add_comm _ extra, add_assoc, ← hrefs]
      exact ho.arrays
    obtain ⟨ho'', hpres⟩ := ho'.releaseArrays
    simp only [MapHeap.releaseStorage, hresult]
    exact ⟨ho'', hviews.trans hpres⟩
  · rw [if_neg hone] at hresult
    have hzero : ¬c.refcount - 1 = 0 := by omega
    have hrefs : arrayRefs { h with storages := (h.storages.release p).2 } = h.arrayRefs := by
      simp only [arrayRefs, RefHeap.release, hlookup, hzero, if_false, AList.values_insert,
        AList.values_of_lookup hlookup, Multiset.cons_bind]
    simp only [MapHeap.releaseStorage, hresult]
    exact ⟨⟨ho.storages.release hp, hrefs ▸ ho.arrays⟩, hviews⟩

end MapHeap

end AviSynth
