import AviSynth.Frames.MapHeap

/-!
# The operations of a map, on shared storage

After `detach` a map holds the only reference to its storage. Then each operation
changes what this one map stands for, as it would change a map of its own, and
nothing else.
-/

namespace AviSynth

open RefHeap PropMap

namespace PropMap

variable {V : Type}

/-- A map without keys. -/
def empty : PropMap V := ⟨fun _ => none, false⟩

/-- Set a key. -/
def setKey (m : PropMap V) (key : String) (v : AVSPropertyType × List V) : PropMap V :=
  { m with props := Function.update m.props key (some v) }

/-- Delete a key. -/
def eraseKey (m : PropMap V) (key : String) : PropMap V :=
  { m with props := Function.update m.props key none }

/-- Take over the keys of another map. -/
def merge (m src : PropMap V) : PropMap V :=
  { m with props := fun key => (src.props key).or (m.props key) }

end PropMap

namespace MapHeap

variable {V : Type} {h h' : MapHeap V} {roots rest extra : Multiset ℕ} {p p' a : ℕ} {key : String}
  {st : VSMapStorage} {arr : VSArray V}

/-- A map that pointed to `p` points to `p'` now and stands for `f` of what it
stood for, while the others, which hold the references `rest`, see no change. -/
structure Updates (h h' : MapHeap V) (rest : Multiset ℕ) (p p' : ℕ) (extra : Multiset ℕ)
    (f : PropMap V → PropMap V) : Prop where
  owned : Owned h' (p' ::ₘ rest) extra
  self : h'.view p' = (h.view p).map f
  others : Preserves h h' rest extra

/-- Nothing happens. -/
theorem Updates.refl (ho : Owned h (p ::ₘ rest) extra) : Updates h h rest p p extra id :=
  ⟨ho, by rw [Option.map_id, id], .refl h⟩

/-- One operation after the other. -/
theorem Updates.trans {h'' : MapHeap V} {p'' : ℕ} {f g : PropMap V → PropMap V}
    (hf : Updates h h' rest p p' extra f) (hg : Updates h' h'' rest p' p'' extra g) :
    Updates h h'' rest p p'' extra (g ∘ f) :=
  ⟨hg.owned, by rw [hg.self, hf.self, Option.map_map], hf.others.trans hg.others⟩

/-- A storage that is referred to exists. -/
theorem Owned.storage (ho : Owned h (p ::ₘ rest) extra) : ∃ st, h.storages.get p = some st :=
  ho.storages.get (Multiset.mem_cons_self _ _)

/-- So does an array that a storage refers to. -/
theorem Owned.array (ho : Owned h roots extra) (hget : h.storages.get p = some st)
    (hkey : st.data.lookup key = some a) : ∃ arr, h.arrays.get a = some arr :=
  ho.arrays.get (Multiset.mem_add.mpr (Or.inr (Multiset.mem_of_le (arraysOf_le hget)
    (Multiset.mem_coe.mpr (mem_arraysOf hkey)))))

/-- `find` tells whether the map has the key, and leads to its value. -/
theorem Owned.find_view (ho : Owned h (p ::ₘ rest) extra) (key : String) :
    ∃ m, h.view p = some m ∧ m.props key = ((h.find p key).bind h.arrays.get).map contents := by
  obtain ⟨st, hget⟩ := ho.storage
  refine ⟨h.viewOf st, by rw [view, hget, Option.map_some], ?_⟩
  simp only [viewOf, find, hget, Option.bind_some, Option.map_bind]
  rfl

/-- What a storage stands for depends on its entries and on their arrays. -/
theorem view_of_get (hget : h.storages.get p = some st) : h.view p = some (h.viewOf st) := by
  rw [view, hget, Option.map_some]

/-- `detach` leaves the map with the only reference to a storage with the same
entries. -/
theorem Owned.detach (ho : Owned h (p ::ₘ rest) extra) :
    Updates h (h.detach p).2 rest p (h.detach p).1 extra id ∧ (h.detach p).1 ∉ rest ∧
      (h.detach p).2.storages.get (h.detach p).1 = h.storages.get p := by
  obtain ⟨st, hget⟩ := ho.storage
  have hp := Multiset.mem_cons_self p rest
  by_cases hunique : h.storages.Unique p
  · have heq : h.detach p = (p, h) := by simp only [MapHeap.detach, hget, if_pos hunique]
    have hone := (ho.storages.unique_iff hp).mp hunique
    rw [Multiset.count_cons_self] at hone
    rw [heq]
    exact ⟨.refl ho, Multiset.count_eq_zero.mp (by simpa using hone), rfl⟩
  · have hmem : ∀ a ∈ arraysOf st, a ∈ extra + h.arrayRefs := fun a ha =>
      Multiset.mem_add.mpr (Or.inr (Multiset.mem_of_le (arraysOf_le hget)
        (Multiset.mem_coe.mpr ha)))
    obtain ⟨ho₁, harrays⟩ := ho.addArrayRefs hmem
    have hpres₁ : Preserves h (h.addArrayRefs (arraysOf st)) (p ::ₘ rest) extra :=
      preserves_of_arrays fun a _ => harrays a
    have hview₁ : h.view p = some ((h.addArrayRefs (arraysOf st)).viewOf st) := by
      rw [view_of_get hget, viewOf_congr fun a _ => harrays a]
    obtain ⟨ho₂, hpres₂, hget₂⟩ := ho₁.newStorage
    have hfresh : h.storages.fresh ∉ p ::ₘ rest := ho.storages.fresh_notMem
    have hne : p ≠ h.storages.fresh := fun heq => hfresh (heq ▸ hp)
    obtain ⟨ho₃, hpres₃⟩ := ho₂.releaseStorage (p := p) (Multiset.mem_cons_of_mem hp)
    have hroots : (h.storages.fresh ::ₘ p ::ₘ rest).erase p = h.storages.fresh ::ₘ rest := by
      rw [Multiset.erase_cons_tail _ (Ne.symm hne), Multiset.erase_cons_head]
    change Owned _ ((h.storages.fresh ::ₘ p ::ₘ rest).erase p) _ at ho₃
    change Preserves _ _ ((h.storages.fresh ::ₘ p ::ₘ rest).erase p) _ at hpres₃
    rw [hroots] at ho₃ hpres₃
    have heq : h.detach p = (h.storages.fresh, .releaseStorage
        { h.addArrayRefs (arraysOf st) with storages := h.storages.alloc st } p) := by
      simp only [MapHeap.detach, hget, if_neg hunique]
      rfl
    have hself : h.storages.fresh ∈ h.storages.fresh ::ₘ rest := Multiset.mem_cons_self _ _
    rw [heq]
    refine ⟨⟨ho₃, ?_, ?_⟩, fun hmem => hfresh (Multiset.mem_cons_of_mem hmem), ?_⟩
    · rw [Option.map_id, id, hview₁]
      exact (hpres₃.views _ hself).trans (view_of_get hget₂)
    · have hle : rest ≤ p ::ₘ rest := Multiset.le_cons_self _ _
      exact (hpres₁.mono hle le_rfl).trans ((hpres₂.mono hle le_rfl).trans
        (hpres₃.mono (Multiset.le_cons_self _ _) le_rfl))
    · exact (hpres₃.storages _ hself).trans (hget₂.trans hget.symm)

/-- A key of a storage of one's own is set to an array that the operation holds. -/
theorem Owned.setKey (ho : Owned h (p ::ₘ rest) (a ::ₘ extra)) (key : String) (hp : p ∉ rest)
    (harr : h.arrays.get a = some arr) :
    Updates h (h.setKey p key a) rest p p extra fun m => m.setKey key (contents arr) := by
  obtain ⟨st, hget⟩ := ho.storage
  have hinsert : (arraysOf { st with data := st.data.insert key a } : Multiset ℕ) =
      a ::ₘ (arraysOf { st with data := st.data.erase key } : Multiset ℕ) :=
    AList.values_insert st.data key a
  have hview : h.viewOf { st with data := st.data.insert key a } =
      (h.viewOf st).setKey key (contents arr) := by
    refine PropMap.ext (funext fun k => ?_) rfl
    by_cases hk : k = key
    · subst hk
      simp [viewOf, PropMap.setKey, harr]
    · simp [viewOf, PropMap.setKey, hk, AList.lookup_insert_ne hk]
  have hothers : ∀ q ∈ rest, q ≠ p := fun q hq heq => hp (heq ▸ hq)
  have hput : Preserves h { h with
      storages := h.storages.put p { st with data := st.data.insert key a } } rest extra :=
    preserves_of_storages fun q hq => get_put_ne (hothers q hq) _
  have hself := view_putStorage_self hget { st with data := st.data.insert key a }
  cases hkey : st.data.lookup key with
  | none =>
    have herase : st.data.erase key = st.data := AList.erase_of_lookup_none hkey
    have ho' := ho.putStorage hget { st with data := st.data.insert key a } extra
      (by rw [hinsert, herase, Multiset.cons_add, Multiset.add_cons])
    simp only [MapHeap.setKey, hget, hkey]
    exact ⟨ho', by rw [hself, hview, view_of_get hget, Option.map_some], hput⟩
  | some old =>
    have hold : (arraysOf st : Multiset ℕ) =
        old ::ₘ (arraysOf { st with data := st.data.erase key } : Multiset ℕ) :=
      AList.values_of_lookup hkey
    have ho' := ho.putStorage hget { st with data := st.data.insert key a } (old ::ₘ extra) (by
        rw [hinsert, hold]
        simp only [Multiset.cons_add, Multiset.add_cons]
        exact Multiset.cons_swap _ _ _)
    obtain ⟨ho'', hpres⟩ := ho'.releaseArray
    simp only [MapHeap.setKey, hget, hkey]
    refine ⟨ho'', ?_, hput.trans (hpres.mono (Multiset.le_cons_self _ _) le_rfl)⟩
    rw [hpres.views p (Multiset.mem_cons_self _ _), hself, hview, view_of_get hget, Option.map_some]

/-- Setting a key writes to one storage. -/
theorem setKey_storages (hget : h.storages.get p = some st) (key : String) (a : ℕ) :
    (h.setKey p key a).storages = h.storages.put p { st with data := st.data.insert key a } := by
  simp only [MapHeap.setKey, hget]
  cases st.data.lookup key <;> rfl

section

variable (ho : Owned h (p ::ₘ rest) extra)
include ho

/-- `insert`. -/
theorem Owned.insert (arr : VSArray V) :
    Updates h (h.insert p key arr).2 rest p (h.insert p key arr).1 extra
      fun m => m.setKey key (contents arr) := by
  obtain ⟨ho₁, hpres₁⟩ := ho.newArray arr
  obtain ⟨hdetach, hout, -⟩ := ho₁.detach
  have harr := hdetach.others.arrays _ (Multiset.mem_cons_self _ _)
  rw [get_alloc_self] at harr
  have hset := hdetach.owned.setKey key hout harr
  refine ⟨hset.owned, ?_, ?_⟩
  · refine hset.self.trans ?_
    rw [hdetach.self, Option.map_id, id, hpres₁.views p (Multiset.mem_cons_self _ _)]
  · exact (hpres₁.mono (Multiset.le_cons_self _ _) le_rfl).trans
      ((hdetach.others.mono le_rfl (Multiset.le_cons_self _ _)).trans hset.others)

/-- `erase`. The result tells whether the map had the key. -/
theorem Owned.erase (key : String) :
    Updates h (h.erase p key).2.2 rest p (h.erase p key).2.1 extra (·.eraseKey key) ∧
      ∀ m, h.view p = some m → (h.erase p key).1 = (m.props key).isSome := by
  obtain ⟨st, hget⟩ := ho.storage
  have hfind : h.find p key = st.data.lookup key := by rw [find, hget, Option.bind_some]
  have hprops : (h.viewOf st).props key = (st.data.lookup key).bind fun a =>
    (h.arrays.get a).map contents := rfl
  cases hkey : st.data.lookup key with
  | none =>
    have hsame : (h.viewOf st).eraseKey key = h.viewOf st := by
      refine PropMap.ext (funext fun k => ?_) rfl
      by_cases hk : k = key
      · subst hk
        simp [viewOf, eraseKey, hkey]
      · simp [eraseKey, hk]
    simp only [MapHeap.erase, hfind, hkey]
    refine ⟨⟨ho, ?_, .refl h⟩, fun m hm => ?_⟩
    · rw [view_of_get hget, Option.map_some, hsame]
    · obtain rfl := Option.some.inj ((view_of_get hget).symm.trans hm)
      rw [hprops, hkey]
      rfl
  | some a =>
    obtain ⟨hdetach, hout, hget'⟩ := ho.detach
    rw [hget] at hget'
    obtain ⟨arr, harr⟩ := ho.array hget hkey
    have hold : (arraysOf st : Multiset ℕ) =
        a ::ₘ (arraysOf { st with data := st.data.erase key } : Multiset ℕ) :=
      AList.values_of_lookup hkey
    have ho' := hdetach.owned.putStorage hget' { st with data := st.data.erase key } (a ::ₘ extra)
      (by rw [hold, Multiset.cons_add, Multiset.add_cons])
    obtain ⟨ho'', hpres⟩ := ho'.releaseArray
    have hview : (h.detach p).2.viewOf { st with data := st.data.erase key } =
        ((h.detach p).2.viewOf st).eraseKey key := by
      refine PropMap.ext (funext fun k => ?_) rfl
      by_cases hk : k = key
      · subst hk
        simp [viewOf, eraseKey]
      · simp [viewOf, eraseKey, hk, AList.lookup_erase_ne hk]
    have hself := hdetach.self
    rw [Option.map_id, id, view_of_get hget'] at hself
    simp only [MapHeap.erase, hfind, hkey, hget']
    refine ⟨⟨ho'', ?_, ?_⟩, fun m hm => ?_⟩
    · rw [hpres.views _ (Multiset.mem_cons_self _ _), view_putStorage_self hget', hview, ← hself,
        Option.map_some]
    · have hothers : ∀ q ∈ rest, q ≠ (h.detach p).1 := fun q hq heq => hout (heq ▸ hq)
      have hput : Preserves (h.detach p).2 { (h.detach p).2 with
          storages := (h.detach p).2.storages.put (h.detach p).1
            { st with data := st.data.erase key } } rest extra :=
        preserves_of_storages fun q hq => get_put_ne (hothers q hq) _
      exact hdetach.others.trans (hput.trans (hpres.mono (Multiset.le_cons_self _ _) le_rfl))
    · obtain rfl := Option.some.inj ((view_of_get hget).symm.trans hm)
      rw [hprops, hkey, Option.bind_some, harr]
      rfl

/-- `clear`. -/
theorem Owned.clear :
    Updates h (h.clear p).2 rest p (h.clear p).1 extra fun _ => empty := by
  obtain ⟨st, hget⟩ := ho.storage
  have hempty : ∀ h : MapHeap V, h.viewOf ⟨∅, false⟩ = empty := fun h => rfl
  by_cases hunique : h.storages.Unique p
  · have hone := (ho.storages.unique_iff (Multiset.mem_cons_self p rest)).mp hunique
    rw [Multiset.count_cons_self] at hone
    have hout : p ∉ rest := Multiset.count_eq_zero.mp (by omega)
    have ho' := ho.putStorage hget ⟨∅, false⟩ ((arraysOf st : Multiset ℕ) + extra) (by
      rw [add_comm]
      exact (add_zero _).symm)
    obtain ⟨ho'', hpres⟩ := ho'.releaseArrays
    simp only [MapHeap.clear, hget, if_pos hunique]
    refine ⟨ho'', ?_, ?_⟩
    · rw [hpres.views p (Multiset.mem_cons_self _ _), view_putStorage_self hget, hempty,
        view_of_get hget, Option.map_some]
    · have hothers : ∀ q ∈ rest, q ≠ p := fun q hq heq => hout (heq ▸ hq)
      have hput : Preserves h { h with storages := h.storages.put p ⟨∅, false⟩ } rest extra :=
        preserves_of_storages fun q hq => get_put_ne (hothers q hq) _
      exact hput.trans (hpres.mono (Multiset.le_cons_self _ _) le_rfl)
  · have hnew : Owned h (p ::ₘ rest) ((arraysOf ⟨∅, false⟩ : Multiset ℕ) + extra) := by
      rw [show (arraysOf ⟨∅, false⟩ : Multiset ℕ) = 0 from rfl, zero_add]
      exact ho
    obtain ⟨ho₁, hpres₁, hget₁⟩ := hnew.newStorage
    have hfresh := ho.storages.fresh_notMem
    have hne : h.storages.fresh ≠ p := fun heq => hfresh (heq ▸ Multiset.mem_cons_self _ _)
    obtain ⟨ho₂, hpres₂⟩ := ho₁.releaseStorage (p := p)
      (Multiset.mem_cons_of_mem (Multiset.mem_cons_self _ _))
    rw [Multiset.erase_cons_tail _ hne, Multiset.erase_cons_head] at ho₂ hpres₂
    simp only [MapHeap.clear, hget, if_neg hunique, MapHeap.newStorage]
    refine ⟨ho₂, ?_, ?_⟩
    · rw [hpres₂.views _ (Multiset.mem_cons_self _ _), view_of_get hget₁, hempty,
        view_of_get hget, Option.map_some]
    · exact (hpres₁.mono (Multiset.le_cons_self _ _) le_rfl).trans
        (hpres₂.mono (Multiset.le_cons_self _ _) le_rfl)

/-- One round of the loop of `AVSMap::copy`, on a storage of one's own. -/
theorem Owned.shareEntry (key : String) (hp : p ∉ rest) (ha : a ∈ h.arrayRefs)
    (harr : h.arrays.get a = some arr) :
    Updates h ((h.addArrayRefs [a]).setKey p key a) rest p p extra
      fun m => m.setKey key (contents arr) := by
  have hmem : ∀ b ∈ [a], b ∈ extra + h.arrayRefs := fun b hb => by
    rw [List.mem_singleton.mp hb]
    exact Multiset.mem_add.mpr (Or.inr ha)
  obtain ⟨ho', harrays⟩ := ho.addArrayRefs hmem
  have hpres : Preserves h (h.addArrayRefs [a]) (p ::ₘ rest) extra :=
    preserves_of_arrays fun b _ => harrays b
  have hset := ho'.setKey key hp ((harrays a).trans harr)
  refine ⟨hset.owned, ?_, (hpres.mono (Multiset.le_cons_self _ _) le_rfl).trans hset.others⟩
  rw [hset.self, hpres.views p (Multiset.mem_cons_self _ _)]

end

/-- The keys that the loop has taken over. -/
def entriesView (h : MapHeap V) (entries : List (Sigma fun _ : String => ℕ)) (key : String) :
    Option (AVSPropertyType × List V) :=
  (entries.dlookup key).bind fun a => (h.arrays.get a).map contents

/-- The loop of `AVSMap::copy`: while the source, another storage, keeps its
entries alive, they are taken over one by one. -/
theorem Owned.shareEntries {src : ℕ} {stSrc : VSMapStorage}
    (entries : List (Sigma fun _ : String => ℕ)) (ho : Owned h (p ::ₘ rest) extra) (hp : p ∉ rest)
    (hsrc : src ∈ rest) (hget : h.storages.get src = some stSrc)
    (hentries : entries.Sublist stSrc.data.entries) :
    Updates h (h.shareEntries p entries) rest p p extra fun m =>
      { m with props := fun key => (h.entriesView entries key).or (m.props key) } := by
  induction entries generalizing h with
  | nil =>
    refine ⟨ho, ?_, .refl h⟩
    exact (Option.map_id').symm.trans rfl
  | cons e entries ih =>
    have hmem : e ∈ stSrc.data.entries := hentries.subset List.mem_cons_self
    have hlookup : stSrc.data.lookup e.1 = some e.2 :=
      List.mem_dlookup stSrc.data.nodupKeys hmem
    have ha : e.2 ∈ h.arrayRefs := Multiset.mem_of_le (arraysOf_le hget)
      (Multiset.mem_coe.mpr (mem_arraysOf hlookup))
    obtain ⟨arr, harr⟩ := ho.array hget hlookup
    have hround := ho.shareEntry e.1 hp ha harr
    have hget' := (hround.others.storages src hsrc).trans hget
    have hrest := ih hround.owned hget' ((List.sublist_cons_self _ _).trans hentries)
    have hview := hround.others.views src hsrc
    rw [view_of_get hget', view_of_get hget, Option.some.injEq] at hview
    have hnodup : (e :: entries).NodupKeys := stSrc.data.nodupKeys.sublist hentries
    have hnone : entries.dlookup e.1 = none :=
      List.dlookup_eq_none.mpr (List.nodupKeys_cons.mp hnodup).1
    have hsame : ∀ key, entriesView ((h.addArrayRefs [e.2]).setKey p e.1 e.2) entries key =
        h.entriesView entries key := by
      intro key
      simp only [entriesView]
      cases hkey : entries.dlookup key with
      | none => rfl
      | some b =>
        have hmem' : (⟨key, b⟩ : Sigma fun _ : String => ℕ) ∈ stSrc.data.entries :=
          hentries.subset (List.mem_cons_of_mem _ (List.of_mem_dlookup hkey))
        have hb : stSrc.data.lookup key = some b := List.mem_dlookup stSrc.data.nodupKeys hmem'
        have hprops := congrFun (congrArg props hview) key
        simpa only [viewOf, hb, Option.bind_some] using hprops
    refine ⟨hrest.owned, ?_, hround.others.trans hrest.others⟩
    change (MapHeap.shareEntries _ p entries).view p = _
    rw [hrest.self, hround.self, Option.map_map]
    refine congrArg (fun f => (h.view p).map f) (funext fun m => ?_)
    refine PropMap.ext (funext fun key => ?_) rfl
    simp only [Function.comp_apply, hsame]
    by_cases hkey : key = e.1
    · subst hkey
      have hhead : (e :: entries).dlookup e.1 = some e.2 := List.dlookup_cons_eq _ _ _
      simp [entriesView, hnone, hhead, PropMap.setKey, harr]
    · have htail : (e :: entries).dlookup key = entries.dlookup key :=
        List.dlookup_cons_ne _ _ hkey
      simp [entriesView, htail, PropMap.setKey, hkey]

/-- `AVSMap::copy`, from another map. -/
theorem Owned.copy {src : ℕ} (ho : Owned h (p ::ₘ rest) extra) (hsrc : src ∈ rest) {m : PropMap V}
    (hm : h.view src = some m) :
    Updates h (h.copy p src).2 rest p (h.copy p src).1 extra fun m' => m'.merge m := by
  obtain ⟨hdetach, hout, -⟩ := ho.detach
  obtain ⟨st, hget⟩ := hdetach.owned.storages.get (Multiset.mem_cons_of_mem hsrc)
  have hview := hdetach.others.views src hsrc
  rw [view_of_get hget, hm, Option.some.injEq] at hview
  have hshare := Owned.shareEntries st.data.entries hdetach.owned hout hsrc hget
    (List.Sublist.refl _)
  have heq : h.copy p src =
      ((h.detach p).1, (h.detach p).2.shareEntries (h.detach p).1 st.data.entries) := by
    simp only [MapHeap.copy, hget]
  rw [heq]
  refine ⟨hshare.owned, ?_, hdetach.others.trans hshare.others⟩
  rw [hshare.self, hdetach.self, Option.map_id, id, ← hview]
  rfl

/-- An array with one reference, in one storage, is in no other. -/
theorem Owned.arraysOf_disjoint {q : ℕ} {stq : VSMapStorage} (hget : h.storages.get p = some st)
    (hgetq : h.storages.get q = some stq) (hne : q ≠ p) (hone : h.arrayRefs.count a = 1)
    (ha : a ∈ arraysOf st) : a ∉ arraysOf stq := by
  obtain ⟨c, hlookup, rfl⟩ := Option.map_eq_some_iff.mp hget
  obtain ⟨cq, hlookupq, rfl⟩ := Option.map_eq_some_iff.mp hgetq
  rw [← AList.lookup_erase_ne hne] at hlookupq
  rw [arrayRefs, AList.values_of_lookup hlookup, AList.values_of_lookup hlookupq,
    Multiset.cons_bind, Multiset.cons_bind, Multiset.count_add, Multiset.count_add] at hone
  have hpos : 0 < (arraysOf c.value : Multiset ℕ).count a :=
    Multiset.count_pos.mpr (Multiset.mem_coe.mpr ha)
  intro haq
  have hposq : 0 < (arraysOf cq.value : Multiset ℕ).count a :=
    Multiset.count_pos.mpr (Multiset.mem_coe.mpr haq)
  omega

/-- And in its storage it is under one key. -/
theorem lookup_unique {key' : String} (hkey : st.data.lookup key = some a)
    (hone : (arraysOf st : Multiset ℕ).count a = 1) (hne : key' ≠ key) :
    st.data.lookup key' ≠ some a := by
  intro hkey'
  have hsplit : (arraysOf st : Multiset ℕ) = a ::ₘ (st.data.erase key).values :=
    AList.values_of_lookup hkey
  rw [← AList.lookup_erase_ne hne] at hkey'
  rw [hsplit, AList.values_of_lookup hkey', Multiset.count_cons_self,
    Multiset.count_cons_self] at hone
  omega

variable [Inhabited V]

/-- `detach(key)`, on a storage of one's own: the array of the key has one
reference after, and the same contents. -/
theorem Owned.detachArray (ho : Owned h (p ::ₘ rest) 0) (hp : p ∉ rest)
    (hget : h.storages.get p = some st) (hkey : st.data.lookup key = some a)
    (harr : h.arrays.get a = some arr) :
    Updates h (h.detachArray p key) rest p p 0 id ∧ ∃ st' a' arr',
      (h.detachArray p key).storages.get p = some st' ∧ st'.data.lookup key = some a' ∧
      (h.detachArray p key).arrays.get a' = some arr' ∧ contents arr' = contents arr ∧
      (h.detachArray p key).arrayRefs.count a' = 1 := by
  have hfind : h.find p key = some a := by rw [find, hget, Option.bind_some, hkey]
  have hmem : a ∈ 0 + h.arrayRefs := by
    rw [zero_add]
    exact Multiset.mem_of_le (arraysOf_le hget) (Multiset.mem_coe.mpr (mem_arraysOf hkey))
  by_cases hunique : h.arrays.Unique a
  · have heq : h.detachArray p key = h := by
      simp only [MapHeap.detachArray, hfind, harr, if_pos hunique]
    rw [heq]
    have hone := (ho.arrays.unique_iff hmem).mp hunique
    rw [zero_add] at hone
    exact ⟨.refl ho, st, a, arr, hget, hkey, harr, rfl, hone⟩
  · have heq : h.detachArray p key =
        .setKey { h with arrays := h.arrays.alloc arr.copy } p key h.arrays.fresh := by
      simp only [MapHeap.detachArray, hfind, harr, if_neg hunique]
    rw [heq]
    obtain ⟨ho₁, hpres₁⟩ := ho.newArray arr.copy
    have hfresh := get_alloc_self h.arrays arr.copy
    have hset := ho₁.setKey key hp hfresh
    have hstorages := setKey_storages (h := { h with arrays := h.arrays.alloc arr.copy }) hget key
      h.arrays.fresh
    have hget' : (MapHeap.setKey { h with arrays := h.arrays.alloc arr.copy } p key
        h.arrays.fresh).storages.get p =
        some { st with data := st.data.insert key h.arrays.fresh } := by
      rw [hstorages]
      exact get_put_self ⟨st, hget⟩ _
    have hlookup : (st.data.insert key h.arrays.fresh).lookup key = some h.arrays.fresh :=
      AList.lookup_insert _
    have hviewp : view { h with arrays := h.arrays.alloc arr.copy } p = some (h.viewOf st) :=
      (hpres₁.views p (Multiset.mem_cons_self _ _)).trans (view_of_get hget)
    have hcontents : contents arr.copy = contents arr := by simp [contents]
    have hself := hset.self
    rw [hviewp, view_of_get hget', Option.map_some, Option.some.injEq] at hself
    have hvalue := congrFun (congrArg props hself) key
    simp only [viewOf, PropMap.setKey, hlookup, Option.bind_some, Function.update_self] at hvalue
    obtain ⟨arr', harr', hcontents'⟩ := Option.map_eq_some_iff.mp hvalue
    refine ⟨⟨hset.owned, ?_, (hpres₁.mono (Multiset.le_cons_self _ _) le_rfl).trans hset.others⟩,
      _, _, arr', hget', hlookup, harr', hcontents'.trans hcontents, ?_⟩
    · rw [view_of_get hget', hself, view_of_get hget, Option.map_some, id]
      refine congrArg some (PropMap.ext (funext fun k => ?_) rfl)
      by_cases hk : k = key
      · subst hk
        simp [PropMap.setKey, viewOf, hkey, harr, hcontents]
      · simp [PropMap.setKey, hk]
    · have hnew : h.arrayRefs.count h.arrays.fresh = 0 := by
        have := Multiset.count_eq_zero.mpr ho.arrays.fresh_notMem
        rwa [zero_add] at this
      have hexchange := arrayRefs_put hget { st with data := st.data.insert key h.arrays.fresh }
      have hinsert : (arraysOf { st with data := st.data.insert key h.arrays.fresh } : Multiset ℕ) =
          h.arrays.fresh ::ₘ (st.data.erase key).values := AList.values_insert st.data key _
      have hold : (arraysOf st : Multiset ℕ) = a ::ₘ (st.data.erase key).values :=
        AList.values_of_lookup hkey
      have hle := Multiset.count_le_of_le h.arrays.fresh (arraysOf_le hget)
      have hcount := congrArg (Multiset.count h.arrays.fresh) hexchange
      rw [hinsert, Multiset.count_add, Multiset.count_add, Multiset.count_cons_self, hnew] at hcount
      rw [hold] at hle hcount
      have hrest := Multiset.count_le_count_cons h.arrays.fresh a (st.data.erase key).values
      have hrefs : (MapHeap.setKey { h with arrays := h.arrays.alloc arr.copy } p key
          h.arrays.fresh).arrayRefs = arrayRefs { h with
            storages := h.storages.put p
              { st with data := st.data.insert key h.arrays.fresh } } := by
        simp only [arrayRefs, hstorages]
      rw [hrefs]
      omega

omit [Inhabited V] in
/-- `push_back` on an array with one reference, in a storage of one's own. -/
theorem Owned.pushBack (ho : Owned h (p ::ₘ rest) 0) (hp : p ∉ rest)
    (hget : h.storages.get p = some st) (hkey : st.data.lookup key = some a)
    (harr : h.arrays.get a = some arr) (hone : h.arrayRefs.count a = 1) (val : V) :
    Updates h (h.pushBack p key val) rest p p 0
      fun m => m.setKey key (arr.ftype, arr.values ++ [val]) := by
  have hfind : h.find p key = some a := by rw [find, hget, Option.bind_some, hkey]
  have heq : h.pushBack p key val = { h with arrays := h.arrays.put a (arr.pushBack val) } := by
    simp only [MapHeap.pushBack, hfind, harr]
  have ha := mem_arraysOf hkey
  rw [heq]
  refine ⟨⟨ho.storages, ho.arrays.put a _⟩, ?_, ⟨fun _ _ => rfl, fun q hq => ?_, ?_⟩⟩
  · rw [view_of_get (h := h) hget, Option.map_some]
    refine (view_of_get (h := { h with arrays := h.arrays.put a (arr.pushBack val) }) hget).trans ?_
    refine congrArg some (PropMap.ext (funext fun k => ?_) rfl)
    by_cases hk : k = key
    · subst hk
      simp [viewOf, PropMap.setKey, hkey, get_put_self ⟨arr, harr⟩, contents]
    · have hle := Multiset.count_le_of_le a (arraysOf_le hget)
      have hpos : 0 < (arraysOf st : Multiset ℕ).count a :=
        Multiset.count_pos.mpr (Multiset.mem_coe.mpr ha)
      have hother := lookup_unique hkey (by omega) hk
      simp only [viewOf, PropMap.setKey, Function.update_of_ne hk]
      cases hk' : st.data.lookup k with
      | none => rfl
      | some b =>
        have hne : b ≠ a := fun heq => hother (heq ▸ hk')
        rw [Option.bind_some, Option.bind_some, get_put_ne hne]
  · obtain ⟨stq, hgetq⟩ := ho.storages.get (Multiset.mem_cons_of_mem hq)
    have hqp : q ≠ p := fun heq => hp (heq ▸ hq)
    rw [view_of_get (h := h) hgetq,
      view_of_get (h := { h with arrays := h.arrays.put a (arr.pushBack val) }) hgetq]
    refine congrArg some (viewOf_congr fun b hb => get_put_ne ?_ _)
    rintro rfl
    exact Owned.arraysOf_disjoint hget hgetq hqp hone ha hb
  · intro b hb
    cases hb

end MapHeap

end AviSynth
