import AviSynth.CInterface.ClipCalls
import Mathlib.Data.List.ReduceOption

/-!
# The handles and counts of clips

As long as no clip is read from a property map, every handle denotes a record, and
the count of each clip is the number of handles, values, properties, filters and
references of the host that refer to it.
-/

namespace AviSynth

namespace CInterface

open RefHeap Transition ClipState

namespace AVSValue

theorem mem_clipsOfList {f : ℕ} {vs : List AVSValue} :
    f ∈ clipsOfList vs ↔ ∃ v ∈ vs, f ∈ v.clips := by
  induction vs with
  | nil => simp [clipsOfList]
  | cons v vs ih => simp [clipsOfList, ih]

/-- The clips in an element are clips in the array. -/
theorem mem_clips_of_part {f : ℕ} {path : List ℕ} {v w : AVSValue} (hpart : v.part path = some w)
    (hf : f ∈ w.clips) : f ∈ v.clips := by
  induction path generalizing v with
  | nil =>
    cases v <;> (cases hpart; exact hf)
  | cons i path ih =>
    cases v with
    | clip p => cases hpart
    | other => cases hpart
    | array elements =>
      obtain ⟨element, helement, hrest⟩ := Option.bind_eq_some_iff.mp hpart
      have hmem := List.mem_of_getElem? helement
      exact mem_clipsOfList.mpr ⟨element, hmem, ih hrest⟩

end AVSValue

namespace ClipState

variable {s t : ClipState} {a f : ℕ} {p : Pointer} {r : AVSClip} {v : AVSValue}

/-- The clip that a handle refers to. -/
def handleClips (s : ClipState) : Pointer → List ℕ
  | .record a => ((s.records.lookup a).map fun r => r.clip.toList).getD []
  | .object f => [f]
  | _ => []

/-- The references that live handles hold. -/
def handleRefs (s : ClipState) : Multiset ℕ := (s.handles.flatMap s.handleClips : List ℕ)

/-- The references that values hold, those of the client and those of the host. -/
def valueRefs (s : ClipState) : Multiset ℕ :=
  (s.values.flatMap AVSValue.clips : List ℕ) + (s.args.flatMap AVSValue.clips : List ℕ)

/-- The references that property entries hold. -/
def propertyRefs (s : ClipState) : Multiset ℕ :=
  s.maps.values.bind fun arr => (arr.values.reduceOption : List ℕ)

/-- All references to clips from outside of clips. -/
def roots (s : ClipState) : Multiset ℕ :=
  s.handleRefs + s.valueRefs + s.propertyRefs + (s.host : Multiset ℕ)

/-- All references to clips. -/
def references (s : ClipState) : Multiset ℕ := s.roots + s.clips.owned ClipObject.children

/-- Every handle that the client has not released denotes a record, and the count of
each clip is the number of references to it, which are all to live clips. -/
structure Accounted (s : ClipState) : Prop where
  handles_live : ∀ p ∈ s.handles, ∃ a r, p = .record a ∧ s.records.lookup a = some r
  counted : s.clips.Counted s.references

/-- Before the first call the client has nothing. -/
structure Starts (s : ClipState) : Prop where
  handles : s.handles = []
  values : s.values = []
  records : s.records = ∅
  counted : s.clips.Counted s.references

/-- What holds between calls. -/
structure Coherent (s : ClipState) : Prop extends Accounted s where
  nodup : s.handles.Nodup
  handle_of_record : ∀ a r, s.records.lookup a = some r → .record a ∈ s.handles

theorem Starts.coherent (h : Starts s) : Coherent s where
  handles_live p hp := by
    rw [h.handles] at hp
    cases hp
  counted := h.counted
  nodup := by
    rw [h.handles]
    exact List.nodup_nil
  handle_of_record a r hlookup := by
    rw [h.records, AList.lookup_empty] at hlookup
    cases hlookup

/-- What a record refers to is referred to by its handle. -/
theorem Coherent.mem_of_record (h : Coherent s) (hlookup : s.records.lookup a = some r)
    (hf : f ∈ r.clip.toList) : f ∈ s.handleRefs := by
  apply Multiset.mem_coe.mpr
  apply List.mem_flatMap.mpr
  refine ⟨.record a, h.handle_of_record a r hlookup, ?_⟩
  simpa only [handleClips, hlookup, Option.map_some, Option.getD_some] using hf

/-- A clip that the client can name through a handle is alive. -/
theorem Coherent.mem_of_deref (h : Coherent s) (hderef : s.deref p = some r)
    (hf : f ∈ r.clip.toList) : f ∈ s.references := by
  cases p with
  | null => cases hderef
  | object => cases hderef
  | record a =>
    have hmem := h.mem_of_record hderef hf
    simp only [references, roots, Multiset.mem_add]
    tauto
  | child filter =>
    apply Multiset.mem_add.mpr
    right
    simp only [deref] at hderef
    split at hderef
    · rename_i hget
      cases hderef
      exact mem_owned hget hf
    · cases hderef

/-- A clip in a value of the client is alive. -/
theorem mem_of_value {ref : ValueRef} (hvalue : s.value ref = some v)
    (hf : f ∈ v.clips) : f ∈ s.references := by
  obtain ⟨whole, hwhole, hpart⟩ := Option.bind_eq_some_iff.mp hvalue
  have hmem := AVSValue.mem_clips_of_part hpart hf
  have hin : f ∈ s.valueRefs := by
    apply Multiset.mem_add.mpr
    split at hwhole
    · exact Or.inl (List.mem_flatMap.mpr ⟨whole, List.mem_of_getElem? hwhole, hmem⟩)
    · exact Or.inr (List.mem_flatMap.mpr ⟨whole, List.mem_of_getElem? hwhole, hmem⟩)
  simp only [references, roots, Multiset.mem_add]
  tauto

/-- A new record does not change what the older handles refer to. -/
theorem Coherent.handleClips_insert (h : Coherent s) (hfresh : s.records.lookup a = none)
    (hrecords : t.records = s.records.insert a r) :
    ∀ p ∈ s.handles, t.handleClips p = s.handleClips p := by
  intro p hp
  obtain ⟨b, r', rfl, hlookup⟩ := h.handles_live p hp
  have hne : b ≠ a := by
    rintro rfl
    rw [hfresh] at hlookup
    cases hlookup
  simp only [handleClips, hrecords, AList.lookup_insert_ne hne]

/-- A new record adds what it refers to. -/
theorem Coherent.handleRefs_insert (h : Coherent s) (hfresh : s.records.lookup a = none)
    (hrecords : t.records = s.records.insert a r) (hhandles : t.handles = .record a :: s.handles) :
    t.handleRefs = (r.clip.toList : Multiset ℕ) + s.handleRefs := by
  have hnew : t.handleClips (.record a) = r.clip.toList := by
    simp only [handleClips, hrecords, AList.lookup_insert, Option.map_some, Option.getD_some]
  have hold := List.flatMap_congr (h.handleClips_insert hfresh hrecords)
  rw [handleRefs, hhandles, List.flatMap_cons, hnew, hold, ← Multiset.coe_add]
  rfl

/-- A new record gets one handle. -/
theorem Coherent.insert (h : Coherent s) (hfresh : s.records.lookup a = none)
    (hrecords : t.records = s.records.insert a r) (hhandles : t.handles = .record a :: s.handles)
    (hcounted : t.clips.Counted t.references) : Coherent t := by
  have hnot : Pointer.record a ∉ s.handles := by
    intro hmem
    obtain ⟨b, r', heq, hlookup⟩ := h.handles_live _ hmem
    cases heq
    rw [hfresh] at hlookup
    cases hlookup
  refine ⟨⟨?_, hcounted⟩, ?_, ?_⟩
  · intro p hp
    rw [hhandles] at hp
    rcases List.mem_cons.mp hp with rfl | hp
    · exact ⟨a, r, rfl, by rw [hrecords, AList.lookup_insert]⟩
    · obtain ⟨b, r', rfl, hlookup⟩ := h.handles_live p hp
      have hne : b ≠ a := fun heq => hnot (heq ▸ hp)
      exact ⟨b, r', rfl, by rw [hrecords, AList.lookup_insert_ne hne, hlookup]⟩
  · rw [hhandles]
    exact List.nodup_cons.mpr ⟨hnot, h.nodup⟩
  · intro b r' hlookup
    rw [hhandles]
    by_cases hb : b = a
    · rw [hb]
      exact List.mem_cons_self
    · rw [hrecords, AList.lookup_insert_ne hb] at hlookup
      exact List.mem_cons_of_mem _ (h.handle_of_record b r' hlookup)

/-- Without a change of records and handles, only the counts matter. -/
theorem Coherent.of_same (h : Coherent s) (hrecords : t.records = s.records)
    (hhandles : t.handles = s.handles) (hcounted : t.clips.Counted t.references) : Coherent t := by
  refine ⟨⟨?_, hcounted⟩, ?_, ?_⟩
  · rw [hhandles, hrecords]
    exact h.handles_live
  · rw [hhandles]
    exact h.nodup
  · rw [hhandles, hrecords]
    exact h.handle_of_record

/-- What handles refer to depends on them and on the records. -/
theorem handleRefs_congr (hrecords : t.records = s.records) (hhandles : t.handles = s.handles) :
    t.handleRefs = s.handleRefs := by
  have hclips : t.handleClips = s.handleClips := by
    funext p
    cases p with
    | record a => simp only [handleClips, hrecords]
    | _ => rfl
  rw [handleRefs, handleRefs, hclips, hhandles]

/-- References to live clips can be copied. -/
theorem Coherent.addRefs (h : Coherent s) {ps : List ℕ} (hps : ∀ f ∈ ps, f ∈ s.references) :
    (s.clips.addRefs ps).Counted ((ps : Multiset ℕ) + s.references) :=
  h.counted.addRefs hps

/-- References that nothing but the heap counts can be released. -/
theorem counted_release {ps : List ℕ}
    (hcounted : s.clips.Counted ((ps : Multiset ℕ) + s.references)) :
    (s.release ps).clips.Counted (s.release ps).references :=
  hcounted.releaseChain

/-- The pointer denotes a record or is null. -/
def Denotes (s : ClipState) (p : Pointer) : Prop := p = .null ∨ (s.deref p).isSome = true

/-- `new AVS_Clip` for a clip that is alive. -/
theorem Coherent.newRecord (h : Coherent s) (hclip : ∀ f ∈ r.clip.toList, f ∈ s.references)
    (hnew : s.newRecord a r = some (t, p)) : Coherent t ∧ Denotes t p := by
  unfold ClipState.newRecord at hnew
  split at hnew
  · cases hnew
  · rename_i hfresh
    have hnone : s.records.lookup a = none := Option.not_isSome_iff_eq_none.mp hfresh
    obtain ⟨ht, rfl⟩ := Prod.mk.inj (Option.some.inj hnew)
    have hrecords : t.records = s.records.insert a r := by rw [← ht]
    have hhandles : t.handles = .record a :: s.handles := by rw [← ht]
    have hrefs : t.references = (r.clip.toList : Multiset ℕ) + s.references := by
      have hhandleRefs := h.handleRefs_insert hnone hrecords hhandles
      rw [references, roots, hhandleRefs, ← ht]
      simp only [owned_addRefs, references, roots, valueRefs, propertyRefs]
      abel
    constructor
    · apply h.insert hnone hrecords hhandles
      rw [hrefs, ← ht]
      exact h.addRefs hclip
    · right
      simp only [deref, hrecords, AList.lookup_insert, Option.isSome_some]

/-- `avs_take_clip` of a value that the client has. -/
theorem Coherent.avsTakeClip (h : Coherent s) {env : ℕ} (hv : ∀ f ∈ v.clips, f ∈ s.references)
    (htake : s.avsTakeClip v env a = some (t, p)) :
    Coherent t ∧ Denotes t p := by
  cases v with
  | clip q => exact h.newRecord (by simpa only [AVSValue.clips] using hv) htake
  | other => cases htake
  | array => cases htake

/-- `avs_copy_clip` of a record that the client can name. -/
theorem Coherent.avsCopyClip (h : Coherent s) {q : Pointer}
    (hcopy : s.avsCopyClip q a = some (t, p)) : Coherent t ∧ Denotes t p := by
  obtain ⟨r, hderef, hnew⟩ := Option.bind_eq_some_iff.mp hcopy
  exact h.newRecord (fun f hf => h.mem_of_deref hderef hf) hnew

/-- A new C filter, with a record for it. -/
theorem Coherent.newFilter (h : Coherent s) {stored : Option ℕ} {env env' : ℕ} {storeChild : Bool}
    (hstored : ∀ f ∈ stored.toList, f ∈ s.references) (hfresh : s.records.lookup a = none)
    (ht : t = { s with
      clips := (s.clips.addRefs stored.toList).alloc (.cVideoFilter ⟨stored, env', none⟩ storeChild)
      records := s.records.insert a ⟨some (s.clips.addRefs stored.toList).fresh, env, none⟩
      handles := .record a :: s.handles }) :
    Coherent t ∧ Denotes t (.record a) ∧
      (storeChild = true → Denotes t (.child (s.clips.addRefs stored.toList).fresh)) := by
  have hrecords : t.records =
      s.records.insert a ⟨some (s.clips.addRefs stored.toList).fresh, env, none⟩ := by rw [ht]
  have hhandles : t.handles = .record a :: s.handles := by rw [ht]
  have hrefs : t.references = (s.clips.addRefs stored.toList).fresh ::ₘ
      ((stored.toList : Multiset ℕ) + s.references) := by
    have hhandleRefs := h.handleRefs_insert hfresh hrecords hhandles
    rw [references, roots, hhandleRefs, ht, ← Multiset.singleton_add]
    simp only [owned_alloc, owned_addRefs, references, roots, valueRefs, propertyRefs,
      ClipObject.children, Option.toList_some, Multiset.coe_singleton]
    abel
  refine ⟨?_, Or.inr ?_, fun hstore => Or.inr ?_⟩
  · apply h.insert hfresh hrecords hhandles
    rw [hrefs, ht]
    exact (h.addRefs hstored).alloc _
  · simp only [deref, hrecords, AList.lookup_insert, Option.isSome_some]
  · simp only [deref, ht, get_alloc_self, hstore, Option.isSome_some]

/-- `avs_new_c_filter` with a value that the client has. -/
theorem Coherent.avsNewCFilter (h : Coherent s) {env : ℕ} {storeChild : Bool} {q : Pointer}
    (hv : ∀ f ∈ v.clips, f ∈ s.references)
    (hnew : s.avsNewCFilter env v storeChild a = some (t, p, q)) :
    Coherent t ∧ Denotes t p ∧ Denotes t q := by
  have hnone : ∀ f ∈ (none : Option ℕ).toList, f ∈ s.references := fun f hf => nomatch hf
  have hfresh : s.records.lookup a = none := by
    cases hlookup : s.records.lookup a with
    | none => rfl
    | some r =>
      cases v with
      | clip c => cases c <;> cases storeChild <;>
          simp [ClipState.avsNewCFilter, hlookup] at hnew
      | other | array => cases storeChild <;> simp [ClipState.avsNewCFilter, hlookup] at hnew
  cases storeChild with
  | true =>
    cases v with
    | other => cases hnew
    | array => cases hnew
    | clip c =>
      cases c with
      | none => cases hnew
      | some f =>
        simp only [ClipState.avsNewCFilter, hfresh, Option.isSome_none, Bool.false_eq_true,
          if_false, if_true, Option.some.injEq, Prod.mk.injEq] at hnew
        obtain ⟨ht, rfl, rfl⟩ := hnew
        have hlive : ∀ f' ∈ (some f).toList, f' ∈ s.references := by
          simpa only [AVSValue.clips] using hv
        obtain ⟨hcoherent, hrecord, hchild⟩ := h.newFilter hlive hfresh ht.symm
        exact ⟨hcoherent, hrecord, hchild rfl⟩
  | false =>
    have hplain : s.avsNewCFilter env .other false a = some (t, p, q) := by
      cases v with
      | other => exact hnew
      | array => exact hnew
      | clip c =>
        cases c with
        | none => cases hnew
        | some f => exact hnew
    simp only [ClipState.avsNewCFilter, hfresh, Option.isSome_none, Bool.false_eq_true, if_false,
      Option.some.injEq, Prod.mk.injEq] at hplain
    obtain ⟨ht, rfl, rfl⟩ := hplain
    obtain ⟨hcoherent, hrecord, -⟩ := h.newFilter hnone hfresh ht.symm
    exact ⟨hcoherent, hrecord, Or.inl rfl⟩

/-- A value with live clips is given to the client. -/
theorem Coherent.pushValue (h : Coherent s)
    (hv : ∀ f ∈ v.clips, f ∈ s.references) : Coherent (s.avsCopyValue v) := by
  have hrefs : (s.avsCopyValue v).references = (v.clips : Multiset ℕ) + s.references := by
    have hhandleRefs : (s.avsCopyValue v).handleRefs = s.handleRefs := handleRefs_congr rfl rfl
    rw [references, roots, hhandleRefs]
    simp only [references, roots, avsCopyValue, owned_addRefs, valueRefs, propertyRefs,
      List.flatMap_cons, ← Multiset.coe_add]
    abel
  apply h.of_same (t := s.avsCopyValue v) rfl rfl
  rw [hrefs]
  exact h.addRefs hv

/-- The references of the properties after a key was set. -/
theorem propertyRefs_insert (s : ClipState) (key : ℕ × String) (arr : VSArray (Option ℕ)) :
    (s.maps.insert key arr).values.bind (fun arr => (arr.values.reduceOption : Multiset ℕ)) +
        ((((s.maps.lookup key).map VSArray.values).getD []).reduceOption : List ℕ) =
      (arr.values.reduceOption : Multiset ℕ) + s.propertyRefs := by
  rw [AList.values_insert, Multiset.cons_bind, propertyRefs]
  cases hlookup : s.maps.lookup key with
  | none =>
    rw [AList.erase_of_lookup_none hlookup]
    exact Multiset.add_zero _
  | some old =>
    rw [AList.values_of_lookup hlookup, Multiset.cons_bind]
    simp only [Option.map_some, Option.getD_some]
    abel

/-- A change of the properties changes the references by what they refer to. -/
theorem references_of_properties {old new : Multiset ℕ} {ps : List ℕ}
    (ht : t = { s with clips := s.clips.addRefs ps, maps := t.maps })
    (hproperties : t.propertyRefs + old = new + s.propertyRefs) :
    old + t.references = new + s.references := by
  have hrecords : t.records = s.records := by rw [ht]
  have hhandles : t.handles = s.handles := by rw [ht]
  have hvalues : t.valueRefs = s.valueRefs := by
    rw [ht]
    rfl
  have howned : t.clips.owned ClipObject.children = s.clips.owned ClipObject.children := by
    rw [ht]
    exact owned_addRefs s.clips ps
  have hhost : t.host = s.host := by rw [ht]
  simp only [references, roots, handleRefs_congr hrecords hhandles, hvalues, howned, hhost]
  calc
    _ = (t.propertyRefs + old) + (s.handleRefs + s.valueRefs + s.host +
        s.clips.owned ClipObject.children) := by abel
    _ = _ := by
      rw [hproperties]
      abel

section

variable (h : Coherent s)
include h

/-- A key gets a new array of live clips. -/
theorem Coherent.insertArray {map : ℕ} {key : String} {arr : VSArray (Option ℕ)}
    (harr : ∀ f ∈ arr.values.reduceOption, f ∈ s.references) :
    Coherent (s.insertArray map key arr) := by
  apply h.of_same (t := s.insertArray map key arr) rfl rfl
  apply counted_release
  rw [references_of_properties rfl (propertyRefs_insert s (map, key) arr)]
  exact h.addRefs harr

/-- A live clip is appended to the array of a key. -/
theorem Coherent.appendClip {key : ℕ × String} {arr : VSArray (Option ℕ)} {clip : Option ℕ}
    (hclip : ∀ f ∈ clip.toList, f ∈ s.references) (hlookup : s.maps.lookup key = some arr) :
    Coherent { s with
      clips := s.clips.addRefs clip.toList
      maps := s.maps.insert key (arr.pushBack clip) } := by
  obtain ⟨t, ht⟩ : ∃ t, t = { s with
      clips := s.clips.addRefs clip.toList
      maps := s.maps.insert key (arr.pushBack clip) } := ⟨_, rfl⟩
  have hinsert := propertyRefs_insert s key (arr.pushBack clip)
  have hpush : ((arr.pushBack clip).values.reduceOption : Multiset ℕ) =
      (clip.toList : Multiset ℕ) + (arr.values.reduceOption : List ℕ) := by
    rw [VSArray.values_pushBack, List.reduceOption_append, ← Multiset.coe_add, Multiset.add_comm]
    cases clip <;> rfl
  rw [hlookup, Option.map_some, Option.getD_some, hpush, add_right_comm,
    add_left_inj] at hinsert
  have hrefs : 0 + t.references = (clip.toList : Multiset ℕ) + s.references := by
    apply references_of_properties
    · rw [ht]
    · rw [ht, Multiset.add_zero]
      exact hinsert
  rw [← ht]
  apply h.of_same (by rw [ht]) (by rw [ht])
  rw [Multiset.zero_add] at hrefs
  rw [hrefs, ht]
  exact h.addRefs hclip

/-- `propSetClip` of a live clip, in any mode. -/
theorem Coherent.propSetClip {map : ℕ} {key : String} {clip : Option ℕ}
    {mode : AVSPropAppendMode} (hclip : ∀ f ∈ clip.toList, f ∈ s.references) :
    Coherent (s.propSetClip map key clip mode).2 := by
  have hsingle : ∀ f ∈ ((VSArray.empty .clip).pushBack clip).values.reduceOption,
      f ∈ s.references := by
    rw [VSArray.values_pushBack, VSArray.values_empty, List.nil_append]
    intro f hf
    apply hclip
    cases clip with
    | none => cases hf
    | some f' => exact hf
  have hnothing : ∀ f ∈ (VSArray.empty .clip : VSArray (Option ℕ)).values.reduceOption,
      f ∈ s.references := by
    rw [VSArray.values_empty]
    exact fun f hf => nomatch hf
  unfold ClipState.propSetClip
  split
  · split
    · exact h.insertArray hsingle
    · exact h.insertArray hsingle
    · rename_i arr hlookup
      split
      · exact h.appendClip hclip hlookup
      · exact h
    · exact h
    · exact h.insertArray hnothing
  · exact h

/-- `avs_prop_set_clip` with a record that the client can name. -/
theorem Coherent.avsPropSetClip {map : ℕ} {key : String} {done : Bool}
    {mode : Option AVSPropAppendMode} (hset : s.avsPropSetClip map key p mode = some (t, done)) :
    Coherent t := by
  obtain ⟨r, hderef, hresult⟩ := Option.map_eq_some_iff.mp hset
  cases mode with
  | none =>
    cases hresult
    exact h
  | some mode =>
    cases hresult
    exact h.propSetClip fun f hf => h.mem_of_deref hderef hf

/-- The references of the handles are those of one record and of the other handles. -/
theorem Coherent.handleRefs_erase (hlookup : s.records.lookup a = some r)
    (hrecords : t.records = s.records.erase a)
    (hhandles : t.handles = s.handles.erase (.record a)) :
    s.handleRefs = (r.clip.toList : Multiset ℕ) + t.handleRefs := by
  have hmem := h.handle_of_record a r hlookup
  have hperm := (List.perm_cons_erase hmem).flatMap_right s.handleClips
  have hrest : ∀ p ∈ s.handles.erase (.record a), s.handleClips p = t.handleClips p := by
    intro p hp
    obtain ⟨hne, hp⟩ := (h.nodup.mem_erase_iff).mp hp
    obtain ⟨b, r', rfl, -⟩ := h.handles_live p hp
    have hb : b ≠ a := fun heq => hne (by rw [heq])
    simp only [handleClips, hrecords, AList.lookup_erase_ne hb]
  rw [handleRefs, Multiset.coe_eq_coe.mpr hperm, List.flatMap_cons, List.flatMap_congr hrest,
    ← Multiset.coe_add, handleRefs, hhandles]
  simp only [handleClips, hlookup, Option.map_some, Option.getD_some]

/-- `avs_release_clip` of a handle. -/
theorem Coherent.avsReleaseClip (hrelease : s.avsReleaseClip p = some t) :
    Coherent t := by
  cases p with
  | null =>
    cases hrelease
    exact h
  | child => cases hrelease
  | object => cases hrelease
  | record a =>
    obtain ⟨r, hlookup, ht⟩ := Option.map_eq_some_iff.mp hrelease
    obtain ⟨u, hu⟩ : ∃ u, u = { s with
        records := s.records.erase a
        handles := s.handles.erase (.record a) } := ⟨_, rfl⟩
    have hrecords : u.records = s.records.erase a := by rw [hu]
    have hhandles : u.handles = s.handles.erase (.record a) := by rw [hu]
    have hrefs : (r.clip.toList : Multiset ℕ) + u.references = s.references := by
      rw [references, references, roots, roots, h.handleRefs_erase hlookup hrecords hhandles, hu]
      simp only [valueRefs, propertyRefs]
      abel
    have hcounted : u.clips.Counted ((r.clip.toList : Multiset ℕ) + u.references) := by
      rw [hrefs, hu]
      exact h.counted
    rw [← hu] at ht
    have hrecords' : t.records = s.records.erase a := by rw [← ht, ← hrecords, release]
    have hhandles' : t.handles = s.handles.erase (.record a) := by
      rw [← ht, ← hhandles, release]
    refine ⟨⟨?_, ht ▸ counted_release hcounted⟩, ?_, ?_⟩
    · intro p hp
      rw [hhandles'] at hp
      obtain ⟨hne, hp⟩ := (h.nodup.mem_erase_iff).mp hp
      obtain ⟨b, r', rfl, hlookup'⟩ := h.handles_live p hp
      have hb : b ≠ a := fun heq => hne (by rw [heq])
      exact ⟨b, r', rfl, by rw [hrecords', AList.lookup_erase_ne hb, hlookup']⟩
    · rw [hhandles']
      exact h.nodup.erase _
    · intro b r' hlookup'
      rw [hrecords'] at hlookup'
      have hb : b ≠ a := by
        rintro rfl
        rw [AList.lookup_erase] at hlookup'
        cases hlookup'
      rw [AList.lookup_erase_ne hb] at hlookup'
      have hmem := h.handle_of_record b r' hlookup'
      rw [hhandles']
      exact (h.nodup.mem_erase_iff).mpr ⟨fun heq => hb (Pointer.record.inj heq), hmem⟩

/-- `avs_release_value` of a value that the client was given. -/
theorem Coherent.avsReleaseValue {index : ℕ}
    (hrelease : s.avsReleaseValue index = some t) : Coherent t := by
  obtain ⟨v, hv, rfl⟩ := Option.map_eq_some_iff.mp hrelease
  apply h.of_same (by rfl) (by rfl)
  apply counted_release
  obtain ⟨hindex, rfl⟩ := List.getElem?_eq_some_iff.mp hv
  have hperm := (List.getElem_cons_eraseIdx_perm hindex).flatMap_right AVSValue.clips
  have hrefs : (s.values[index].clips : Multiset ℕ) +
      ({ s with values := s.values.eraseIdx index } : ClipState).references = s.references := by
    rw [references, references, roots, roots, valueRefs, valueRefs,
      ← Multiset.coe_eq_coe.mpr hperm, List.flatMap_cons, ← Multiset.coe_add]
    rw [handleRefs_congr (s := s) (by rfl) (by rfl)]
    simp only [propertyRefs]
    abel
  rw [hrefs]
  exact h.counted

end

/-- The call does not read a clip out of a property map. -/
def Regular (s : ClipState) : ClipCall → Prop
  | .propGetClip map key index => s.propGetClip map key index = none
  | _ => True

instance (s : ClipState) (c : ClipCall) : Decidable (Regular s c) :=
  match c with
  | .propGetClip map key index => inferInstanceAs (Decidable (s.propGetClip map key index = none))
  | .takeClip .. | .getAsClip .. | .copyClip .. | .newCFilter .. | .propSetClip .. | .setToClip ..
  | .copyValue .. | .releaseClip .. | .releaseValue .. => isTrue trivial

/-- What a call gives back is right: pointers denote records, and a pointer that was
read from a property denotes a record of the clip stored there. -/
def Right (t : ClipState) : ClipEvent → Prop
  | .returned ps => ∀ p ∈ ps, Denotes t p
  | .read p none => p = .null
  | .read p (some f) => ∃ r, t.deref p = some r ∧ r.clip = some f
  | .set _ => True
  | .finished => True

/-- A call with regular input keeps the accounts and gives back what is right. -/
theorem Coherent.step (h : Coherent s) {c : ClipCall} {e : ClipEvent} (hregular : Regular s c)
    (hstep : s.step c = some (t, e)) : Coherent t ∧ Right t e := by
  cases c with
  | takeClip v env a | getAsClip v env a =>
    obtain ⟨w, hw, hstep⟩ := Option.bind_eq_some_iff.mp hstep
    obtain ⟨⟨t, p⟩, htake, hr⟩ := Option.map_eq_some_iff.mp hstep
    cases hr
    obtain ⟨hcoherent, hdenotes⟩ := h.avsTakeClip (fun f hf => mem_of_value hw hf) htake
    exact ⟨hcoherent, by simpa only [Right, List.mem_singleton, forall_eq] using hdenotes⟩
  | copyClip q a =>
    obtain ⟨⟨t, p⟩, hcopy, hr⟩ := Option.map_eq_some_iff.mp hstep
    cases hr
    obtain ⟨hcoherent, hdenotes⟩ := h.avsCopyClip hcopy
    exact ⟨hcoherent, by simpa only [Right, List.mem_singleton, forall_eq] using hdenotes⟩
  | newCFilter env child storeChild a =>
    obtain ⟨w, hw, hstep⟩ := Option.bind_eq_some_iff.mp hstep
    obtain ⟨⟨t, p, q⟩, hnew, hr⟩ := Option.map_eq_some_iff.mp hstep
    cases hr
    obtain ⟨hcoherent, hrecord, hchild⟩ := h.avsNewCFilter (fun f hf => mem_of_value hw hf) hnew
    refine ⟨hcoherent, fun p' hp' => ?_⟩
    rcases List.mem_pair.mp hp' with rfl | rfl
    · exact hrecord
    · exact hchild
  | propSetClip map key q mode =>
    obtain ⟨⟨t, done⟩, hset, hr⟩ := Option.map_eq_some_iff.mp hstep
    cases hr
    exact ⟨h.avsPropSetClip hset, trivial⟩
  | propGetClip map key index =>
    have hnone : s.propGetClip map key index = none := hregular
    simp only [ClipState.step, ClipState.avsPropGetClip, hnone, Option.some.injEq,
      Prod.mk.injEq] at hstep
    obtain ⟨rfl, rfl⟩ := hstep
    exact ⟨h, rfl⟩
  | setToClip q =>
    obtain ⟨u, hset, hr⟩ := Option.map_eq_some_iff.mp hstep
    cases hr
    obtain ⟨r, hderef, rfl⟩ := Option.map_eq_some_iff.mp hset
    have hv : ∀ f ∈ (AVSValue.clip r.clip).clips, f ∈ s.references := by
      intro f hf
      exact h.mem_of_deref hderef (by simpa only [AVSValue.clips] using hf)
    have hpushed := h.pushValue hv
    simp only [avsCopyValue, AVSValue.clips] at hpushed
    exact ⟨hpushed, trivial⟩
  | copyValue v =>
    obtain ⟨w, hw, hr⟩ := Option.map_eq_some_iff.mp hstep
    cases hr
    exact ⟨h.pushValue fun f hf => mem_of_value hw hf, trivial⟩
  | releaseClip q =>
    obtain ⟨u, hrelease, hr⟩ := Option.map_eq_some_iff.mp hstep
    cases hr
    exact ⟨h.avsReleaseClip hrelease, trivial⟩
  | releaseValue index =>
    obtain ⟨u, hrelease, hr⟩ := Option.map_eq_some_iff.mp hstep
    cases hr
    exact ⟨h.avsReleaseValue hrelease, trivial⟩

/-- A clip that is read out of a property map comes as a pointer that denotes no record. -/
theorem not_right_of_read {c : ClipCall} {e : ClipEvent} (hirregular : ¬Regular s c)
    (hstep : s.step c = some (t, e)) : ¬Right t e := by
  cases c with
  | propGetClip map key index =>
    cases hfound : s.propGetClip map key index with
    | none => exact absurd hfound hirregular
    | some f =>
      simp only [ClipState.step, ClipState.avsPropGetClip, hfound, Option.some.injEq,
        Prod.mk.injEq] at hstep
      obtain ⟨rfl, rfl⟩ := hstep
      rintro ⟨r, hderef, -⟩
      cases hderef
  | _ => exact absurd trivial hirregular

/-- A client that was called with one clip. -/
def oneClip : ClipState where
  clips := (∅ : RefHeap ClipObject).alloc (.hostFilter [])
  records := ∅
  handles := []
  values := []
  maps := ∅
  errorMaps := []
  args := [.array [.clip (some 1), .other]]
  host := []

theorem oneClip_starts : Starts oneClip where
  handles := rfl
  values := rfl
  records := rfl
  counted := by
    have hcounted := (Counted.empty (V := ClipObject)).alloc (.hostFilter [])
    have hrefs : oneClip.references = (∅ : RefHeap ClipObject).fresh ::ₘ 0 := by decide
    rw [hrefs]
    exact hcounted

/-- The first argument. -/
def firstArg : ValueRef := ⟨false, 0, [0]⟩

end ClipState

end CInterface

end AviSynth
