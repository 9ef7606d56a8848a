import AviSynth.Frames.MapOperations

/-!
# Maps that share storage behave as maps of their own

A system of maps is run next to a table of independent ones. Every operation of
the system does to the map it is called on what it does to an independent map,
with the same result, and no other map notices.
-/

namespace AviSynth

open Transition RefHeap

namespace PropMap

variable {V : Type}

/-- Setting a value in a map of its own. The result is false if nothing is set. -/
def propSet (m : PropMap V) (key : String) (propType : AVSPropertyType) (val : V)
    (mode : AVSPropAppendMode) : Bool × PropMap V :=
  if isValidVSMapKey key then
    match mode, m.props key with
    | .replace, _ => (true, m.setKey key (propType, [val]))
    | .append, none => (true, m.setKey key (propType, [val]))
    | .append, some (ftype, vals) =>
      if ftype = propType then (true, m.setKey key (propType, vals ++ [val])) else (false, m)
    | .touch, none => (true, m.setKey key (propType, []))
    | .touch, some _ => (false, m)
  else (false, m)

/-- A value that is not set leaves the map as it is. -/
theorem propSet_failed {m : PropMap V} {key : String} {propType : AVSPropertyType} {val : V}
    {mode : AVSPropAppendMode} (h : (m.propSet key propType val mode).1 = false) :
    (m.propSet key propType val mode).2 = m := by
  by_cases hvalid : isValidVSMapKey key
  · cases mode with
    | replace => simp [propSet, hvalid] at h
    | append =>
      cases hprops : m.props key with
      | none => simp [propSet, hvalid, hprops] at h
      | some v =>
        have htype : ¬v.1 = propType := by
          rintro heq
          simp [propSet, hvalid, hprops, heq] at h
        simp [propSet, hvalid, hprops, htype]
    | touch =>
      cases hprops : m.props key with
      | none => simp [propSet, hvalid, hprops] at h
      | some v => simp [propSet, hvalid, hprops]
  · simp [propSet, hvalid]

/-- So does deleting a key that is not there. -/
theorem eraseKey_of_none {m : PropMap V} {key : String} (h : m.props key = none) :
    m.eraseKey key = m := by
  refine PropMap.ext ?_ rfl
  rw [eraseKey, ← h, Function.update_eq_self]

/-- Setting a list of values in a map of its own. -/
def propSetArray (m : PropMap V) (key : String) (propType : AVSPropertyType) (vals : List V)
    (size : ℤ) : Bool × PropMap V :=
  if size < 0 then (false, m)
  else if isValidVSMapKey key then (true, m.setKey key (propType, vals.take size.toNat))
  else (false, m)

/-- A list that is not set leaves the map as it is. -/
theorem propSetArray_failed {m : PropMap V} {key : String} {propType : AVSPropertyType}
    {vals : List V} {size : ℤ} (h : (m.propSetArray key propType vals size).1 = false) :
    (m.propSetArray key propType vals size).2 = m := by
  simp only [propSetArray] at h ⊢
  split_ifs at h ⊢ <;> rfl

end PropMap

namespace MapHeap

variable {V : Type} {h h' : MapHeap V} {rest extra : Multiset ℕ} {p p' : ℕ} {key : String}
  {m : PropMap V} {f : PropMap V → Bool × PropMap V}

/-- Only what becomes of the present value matters. -/
theorem Updates.congr {f g : PropMap V → PropMap V} (hf : Updates h h' rest p p' extra f)
    (hm : h.view p = some m) (hfg : f m = g m) :
    Updates h h' rest p p' extra g :=
  ⟨hf.owned, by rw [hf.self, hm, Option.map_some, Option.map_some, hfg], hf.others⟩

/-- An operation returns a status and does to its map what `f` does to a map of
its own, which stands for `m`. -/
def Mirrors (h : MapHeap V) (rest : Multiset ℕ) (p : ℕ) (m : PropMap V)
    (r : Bool × ℕ × MapHeap V) (f : PropMap V → Bool × PropMap V) : Prop :=
  Updates h r.2.2 rest p r.2.1 0 (fun m => (f m).2) ∧ r.1 = (f m).1

/-- A new array under a key. -/
theorem Owned.insert_mirrors (ho : Owned h (p ::ₘ rest) 0) (hm : h.view p = some m)
    {arr : VSArray V} {v : AVSPropertyType × List V} (hv : contents arr = v)
    (hf : f m = (true, m.setKey key v)) :
    Mirrors h rest p m (true, h.insert p key arr) f :=
  ⟨(ho.insert arr).congr hm (by rw [hf, hv]), by rw [hf]⟩

/-- Nothing set. -/
theorem Owned.unchanged_mirrors (ho : Owned h (p ::ₘ rest) 0) (hm : h.view p = some m)
    (hf : f m = (false, m)) :
    Mirrors h rest p m (false, p, h) f :=
  ⟨(Updates.refl ho).congr hm (by rw [hf, id]), by rw [hf]⟩

variable [Inhabited V]

/-- A value is added to an array that may be shared, in a storage that may be shared. -/
theorem Owned.append (ho : Owned h (p ::ₘ rest) 0) {arr : VSArray V}
    (hfind : (h.find p key).bind h.arrays.get = some arr) (val : V) :
    Updates h (((h.detach p).2.detachArray (h.detach p).1 key).pushBack (h.detach p).1 key val)
      rest p (h.detach p).1 0 fun m => m.setKey key (arr.ftype, arr.values ++ [val]) := by
  obtain ⟨a, hkey, harr⟩ := Option.bind_eq_some_iff.mp hfind
  obtain ⟨st, hget, hkey⟩ := Option.bind_eq_some_iff.mp hkey
  obtain ⟨hdetach, hout, hget'⟩ := ho.detach
  rw [hget] at hget'
  obtain ⟨arr', harr'⟩ := hdetach.owned.array hget' hkey
  have hcontents : contents arr' = contents arr := by
    have hself := hdetach.self
    rw [Option.map_id, id, view_of_get (h := h) hget, view_of_get hget', Option.some.injEq] at hself
    have hprops := congrFun (congrArg PropMap.props hself) key
    simpa only [viewOf, hkey, Option.bind_some, harr, harr', Option.map_some,
      Option.some.injEq] using hprops
  obtain ⟨hown, st', a', arr'', hget'', hkey'', harr'', hcontents'', hone⟩ :=
    hdetach.owned.detachArray hout hget' hkey harr'
  have hpush := hown.owned.pushBack hout hget'' hkey'' harr'' hone val
  have hall := (hdetach.trans hown).trans hpush
  obtain ⟨hftype, hvalues⟩ := Prod.mk.inj (hcontents''.trans hcontents)
  rw [hftype, hvalues] at hall
  exact hall

/-- `propSetShared`. -/
theorem Owned.propSetShared (ho : Owned h (p ::ₘ rest) 0) (hm : h.view p = some m)
    (propType : AVSPropertyType) (val : V) (mode : AVSPropAppendMode) :
    Mirrors h rest p m (h.propSetShared p key propType val mode)
      fun m => m.propSet key propType val mode := by
  obtain ⟨m', hm', hprops⟩ := ho.find_view key
  obtain rfl := Option.some.inj (hm.symm.trans hm')
  by_cases hvalid : isValidVSMapKey key
  · have hsingle : contents ((VSArray.empty propType).pushBack val) = (propType, [val]) := by
      simp [contents]
      rfl
    cases mode with
    | replace =>
      simp only [MapHeap.propSetShared, if_pos hvalid]
      exact ho.insert_mirrors hm hsingle (by simp [PropMap.propSet, hvalid])
    | append =>
      simp only [MapHeap.propSetShared, if_pos hvalid]
      cases hfind : (h.find p key).bind h.arrays.get with
      | none =>
        rw [hfind] at hprops
        exact ho.insert_mirrors hm hsingle (by simp [PropMap.propSet, hvalid, hprops])
      | some arr =>
        rw [hfind] at hprops
        by_cases htype : arr.ftype = propType
        · have hspec : m.propSet key propType val .append =
              (true, m.setKey key (arr.ftype, arr.values ++ [val])) := by
            simp [PropMap.propSet, hvalid, hprops, contents, htype]
          simp only [if_pos htype]
          exact ⟨(ho.append hfind val).congr hm (congrArg Prod.snd hspec).symm,
            (congrArg Prod.fst hspec).symm⟩
        · simp only [if_neg htype]
          exact ho.unchanged_mirrors hm (by simp [PropMap.propSet, hvalid, hprops, contents, htype])
    | touch =>
      simp only [MapHeap.propSetShared, if_pos hvalid, MapHeap.mapSetEmpty]
      cases hfind : h.find p key with
      | none =>
        rw [hfind] at hprops
        simp only [Option.isSome_none, Bool.false_eq_true, if_false]
        refine ho.insert_mirrors hm (v := (propType, [])) ?_ ?_
        · simp [contents]
          rfl
        · simp only [Option.bind_none, Option.map_none] at hprops
          simp [PropMap.propSet, hvalid, hprops]
      | some a =>
        obtain ⟨st, hget, hkey⟩ := Option.bind_eq_some_iff.mp hfind
        obtain ⟨arr, harr⟩ := ho.array hget hkey
        rw [hfind, Option.bind_some, harr] at hprops
        simp only [Option.isSome_some, if_true]
        exact ho.unchanged_mirrors hm (by simp [PropMap.propSet, hvalid, hprops])
  · simp only [MapHeap.propSetShared, if_neg hvalid]
    exact ho.unchanged_mirrors hm (by simp [PropMap.propSet, hvalid])

/-- `propSetIntArray` and `propSetFloatArray`. -/
theorem Owned.propSetArray (ho : Owned h (p ::ₘ rest) 0) (hm : h.view p = some m)
    (propType : AVSPropertyType) (vals : List V) (size : ℤ) :
    Mirrors h rest p m (h.propSetArray p key propType vals size)
      fun m => m.propSetArray key propType vals size := by
  by_cases hsize : size < 0
  · simp only [MapHeap.propSetArray, if_pos hsize]
    exact ho.unchanged_mirrors hm (by simp [PropMap.propSetArray, hsize])
  · by_cases hvalid : isValidVSMapKey key
    · simp only [MapHeap.propSetArray, if_neg hsize, if_pos hvalid]
      refine ho.insert_mirrors hm (v := (propType, vals.take size.toNat)) ?_ ?_
      · simp [contents]
        rfl
      · simp [PropMap.propSetArray, hsize, hvalid]
    · simp only [MapHeap.propSetArray, if_neg hsize, if_neg hvalid]
      exact ho.unchanged_mirrors hm (by simp [PropMap.propSetArray, hsize, hvalid])

end MapHeap

/-- The maps that exist, with the addresses of their storages (`M` is the type of
their own addresses). -/
structure MapSystem (M V : Type) where
  heap : MapHeap V
  maps : AList fun _ : M => ℕ

/-- The operations of maps. -/
inductive MapAction (M V : Type) where
  /-- `AVSMap()`. -/
  | create (m : M)
  /-- The copy constructor. -/
  | copyConstruct (m src : M)
  /-- The destructor. -/
  | destroy (m : M)
  /-- `operator=`. -/
  | assign (m src : M)
  /-- `AVSMap::copy`. -/
  | copy (m src : M)
  | clear (m : M)
  /-- `propDeleteKey`. -/
  | deleteKey (m : M) (key : String)
  /-- `propSetInt` and its siblings. -/
  | propSet (m : M) (key : String) (propType : AVSPropertyType) (val : V) (mode : AVSPropAppendMode)
  /-- `propSetIntArray` and `propSetFloatArray`. -/
  | propSetArray (m : M) (key : String) (propType : AVSPropertyType) (vals : List V) (size : ℤ)
  /-- The type and the values of a key are read. -/
  | propGet (m : M) (key : String)

/-- The map that an operation is called on. -/
def MapAction.target {M V : Type} : MapAction M V → M
  | create m | copyConstruct m _ | destroy m | assign m _ | copy m _ | clear m | deleteKey m _
  | propSet m _ _ _ _ | propSetArray m _ _ _ _ | propGet m _ => m

/-- What an operation returns: whether it did something, and what it has read. -/
structure MapEvent (M V : Type) where
  action : MapAction M V
  status : Bool
  value : Option (AVSPropertyType × List V)

namespace MapSystem

variable {M V : Type} [DecidableEq M]

/-- No maps. -/
def start : MapSystem M V := ⟨⟨∅, ∅⟩, ∅⟩

/-- What each map stands for. -/
def view (s : MapSystem M V) (m : M) : Option (PropMap V) := (s.maps.lookup m).bind s.heap.view

/-- The map `m` points to another storage from now on. -/
def redirect (s : MapSystem M V) (m : M) (r : ℕ × MapHeap V) : MapSystem M V :=
  ⟨r.2, s.maps.insert m r.1⟩

/-- An operation on one map that exists. -/
def onMap (s : MapSystem M V) (a : MapAction M V)
    (f : ℕ → Bool × ℕ × MapHeap V) : Option (MapSystem M V × MapEvent M V) :=
  (s.maps.lookup a.target).map fun p => (s.redirect a.target (f p).2, ⟨a, (f p).1, none⟩)

/-- `add_ref` on a storage. -/
def shareStorage (h : MapHeap V) (p : ℕ) : MapHeap V :=
  { h with storages := h.storages.addRef p }

variable [Inhabited V] {s : MapSystem M V} {a : MapAction M V} {e : MapEvent M V}
  {maps maps' : M → Option (PropMap V)} {f : PropMap V → Bool × PropMap V}

/-- One operation. -/
def step (s : MapSystem M V) (a : MapAction M V) : Option (MapSystem M V × MapEvent M V) :=
  match a with
  | .create m =>
    if (s.maps.lookup m).isSome then none
    else some (s.redirect m s.heap.newStorage, ⟨a, true, none⟩)
  | .copyConstruct m src =>
    if (s.maps.lookup m).isSome then none
    else (s.maps.lookup src).map fun p =>
      (s.redirect m (p, shareStorage s.heap p), ⟨a, true, none⟩)
  | .destroy m =>
    (s.maps.lookup m).map fun p => (⟨s.heap.releaseStorage p, s.maps.erase m⟩, ⟨a, true, none⟩)
  | .assign _ src =>
    (s.maps.lookup src).bind fun p =>
      s.onMap a fun old => (true, p, (shareStorage s.heap p).releaseStorage old)
  | .copy m src =>
    if m = src then (s.maps.lookup m).map fun _ => (s, ⟨a, true, none⟩)
    else (s.maps.lookup src).bind fun p => s.onMap a fun old => (true, s.heap.copy old p)
  | .clear _ => s.onMap a fun p => (true, s.heap.clear p)
  | .deleteKey _ key => s.onMap a fun p => s.heap.erase p key
  | .propSet _ key propType val mode =>
    s.onMap a fun p => s.heap.propSetShared p key propType val mode
  | .propSetArray _ key propType vals size =>
    s.onMap a fun p => s.heap.propSetArray p key propType vals size
  | .propGet m key =>
    (s.maps.lookup m).map fun p =>
      (s, ⟨a, true, ((s.heap.find p key).bind s.heap.arrays.get).map MapHeap.contents⟩)

omit [Inhabited V] in
/-- An operation on one of a table of independent maps. -/
def onIndependent (maps : M → Option (PropMap V)) (a : MapAction M V)
    (f : PropMap V → Bool × PropMap V) :
    Option ((M → Option (PropMap V)) × MapEvent M V) :=
  (maps a.target).map fun m =>
    (Function.update maps a.target (some (f m).2), ⟨a, (f m).1, none⟩)

omit [Inhabited V] in
/-- One operation on a table of independent maps. -/
def independentStep (maps : M → Option (PropMap V)) (a : MapAction M V) :
    Option ((M → Option (PropMap V)) × MapEvent M V) :=
  match a with
  | .create m =>
    if (maps m).isSome then none
    else some (Function.update maps m (some PropMap.empty), ⟨a, true, none⟩)
  | .copyConstruct m src =>
    if (maps m).isSome then none
    else (maps src).map fun x => (Function.update maps m (some x), ⟨a, true, none⟩)
  | .destroy m => (maps m).map fun _ => (Function.update maps m none, ⟨a, true, none⟩)
  | .assign _ src => (maps src).bind fun x => onIndependent maps a fun _ => (true, x)
  | .copy m src =>
    if m = src then (maps m).map fun _ => (maps, ⟨a, true, none⟩)
    else (maps src).bind fun x => onIndependent maps a fun m => (true, m.merge x)
  | .clear _ => onIndependent maps a fun _ => (true, PropMap.empty)
  | .deleteKey _ key => onIndependent maps a fun m => ((m.props key).isSome, m.eraseKey key)
  | .propSet _ key propType val mode =>
    onIndependent maps a fun m => m.propSet key propType val mode
  | .propSetArray _ key propType vals size =>
    onIndependent maps a fun m => m.propSetArray key propType vals size
  | .propGet m key => (maps m).map fun x => (maps, ⟨a, true, x.props key⟩)

omit [Inhabited V] in
/-- The maps are the owners of the storages. -/
def Owned (s : MapSystem M V) : Prop := s.heap.Owned s.maps.values 0

omit [Inhabited V] in
/-- A map that exists stands for something. -/
theorem Owned.view (ho : s.Owned) {m : M} {p : ℕ}
    (hp : s.maps.lookup m = some p) : ∃ x, s.heap.view p = some x ∧ s.view m = some x := by
  obtain ⟨st, hget⟩ := ho.storages.get (AList.mem_values hp)
  exact ⟨_, MapHeap.view_of_get hget, by rw [MapSystem.view, hp, Option.bind_some,
    MapHeap.view_of_get hget]⟩

omit [Inhabited V] in
/-- The references of the other maps are those that one map leaves. -/
theorem Owned.split (ho : s.Owned) {m : M} {p : ℕ}
    (hp : s.maps.lookup m = some p) : s.heap.Owned (p ::ₘ (s.maps.erase m).values) 0 := by
  have h := ho
  rw [Owned, AList.values_of_lookup hp] at h
  exact h

omit [Inhabited V] in
/-- The table after a map has been redirected. -/
theorem Owned.redirect {m : M} {p : ℕ} {heap : MapHeap V} {x : PropMap V}
    (hown : heap.Owned (p ::ₘ (s.maps.erase m).values) 0) (hself : heap.view p = some x)
    (hothers : ∀ q ∈ (s.maps.erase m).values, heap.view q = s.heap.view q) :
    (s.redirect m (p, heap)).Owned ∧
      (s.redirect m (p, heap)).view = Function.update s.view m (some x) := by
  refine ⟨?_, funext fun m' => ?_⟩
  · rw [Owned, MapSystem.redirect, AList.values_insert]
    exact hown
  · by_cases hm : m' = m
    · subst hm
      simp only [MapSystem.view, MapSystem.redirect, AList.lookup_insert, Option.bind_some, hself,
        Function.update_self]
    · simp only [MapSystem.view, MapSystem.redirect, AList.lookup_insert_ne hm,
        Function.update_of_ne hm]
      cases hlookup : s.maps.lookup m' with
      | none => rfl
      | some q =>
        rw [← AList.lookup_erase_ne hm] at hlookup
        exact hothers q (AList.mem_values hlookup)

omit [Inhabited V] in
/-- The table after a map has gone. -/
theorem Owned.remove {m : M} {heap : MapHeap V} (hown : heap.Owned (s.maps.erase m).values 0)
    (hothers : ∀ q ∈ (s.maps.erase m).values, heap.view q = s.heap.view q) :
    Owned (⟨heap, s.maps.erase m⟩ : MapSystem M V) ∧
      MapSystem.view (⟨heap, s.maps.erase m⟩ : MapSystem M V) = Function.update s.view m none := by
  refine ⟨hown, funext fun m' => ?_⟩
  by_cases hm : m' = m
  · subst hm
    simp only [MapSystem.view, AList.lookup_erase, Option.bind_none, Function.update_self]
  · simp only [MapSystem.view, AList.lookup_erase_ne hm, Function.update_of_ne hm]
    cases hlookup : s.maps.lookup m' with
    | none => rfl
    | some q =>
      rw [← AList.lookup_erase_ne hm] at hlookup
      exact hothers q (AList.mem_values hlookup)

omit [Inhabited V] in
/-- A map that does not exist has no reference to give up. -/
theorem erase_values {m : M} (hm : s.maps.lookup m = none) :
    (s.maps.erase m).values = s.maps.values := by
  rw [AList.erase_of_lookup_none hm]

omit [Inhabited V] in
/-- `add_ref` on a storage is seen by no map. -/
theorem shareStorage_owned {h : MapHeap V} {roots : Multiset ℕ} {p : ℕ} (ho : h.Owned roots 0)
    (hp : p ∈ roots) : (shareStorage h p).Owned (p ::ₘ roots) 0 ∧
      ∀ q, (shareStorage h p).view q = h.view q := by
  obtain ⟨c, hlookup⟩ := ho.storages.alive p hp
  have hrefs : (shareStorage h p).arrayRefs = h.arrayRefs := by
    simp only [MapHeap.arrayRefs, shareStorage, RefHeap.addRef, hlookup, AList.values_insert,
      AList.values_of_lookup hlookup, Multiset.cons_bind]
  refine ⟨⟨ho.storages.addRef hp, ?_⟩, fun q => ?_⟩
  · rw [hrefs]
    exact ho.arrays
  · exact MapHeap.view_congr (get_addRef _ _ _) fun _ _ => rfl

omit [Inhabited V] in
/-- An operation on one map does to it what is done to an independent one. -/
theorem onMap_mirrors {s t : MapSystem M V} (ho : s.Owned)
    {g : ℕ → Bool × ℕ × MapHeap V}
    (hmirrors : ∀ p m, s.maps.lookup a.target = some p → s.heap.view p = some m →
      MapHeap.Mirrors s.heap (s.maps.erase a.target).values p m (g p) f)
    (hstep : s.onMap a g = some (t, e)) :
    t.Owned ∧ onIndependent s.view a f = some (t.view, e) := by
  obtain ⟨p, hp, ⟨⟩⟩ := Option.map_eq_some_iff.mp hstep
  obtain ⟨x, hx, hview⟩ := ho.view hp
  obtain ⟨hupdates, hstatus⟩ := hmirrors p x hp hx
  have hself := hupdates.self
  rw [hx, Option.map_some] at hself
  obtain ⟨ho', hview'⟩ := Owned.redirect hupdates.owned hself hupdates.others.views
  refine ⟨ho', ?_⟩
  rw [onIndependent, hview, Option.map_some, hstatus]
  exact congrArg (fun v => some (v, _)) hview'.symm

/-- The step lemma: the system keeps its ownership, and the table of independent
maps takes the same step with the same result. -/
theorem step_independent {s t : MapSystem M V} (ho : s.Owned) (hstep : s.step a = some (t, e)) :
    t.Owned ∧ independentStep s.view a = some (t.view, e) := by
  have hmissing : ∀ m, ¬(s.maps.lookup m).isSome = true → s.view m = none := by
    intro m hm
    rw [MapSystem.view, Option.not_isSome_iff_eq_none.mp hm, Option.bind_none]
  cases a with
  | create m =>
    simp only [step] at hstep
    split_ifs at hstep with hm
    obtain ⟨⟩ := Option.some.inj hstep
    have hvalues := erase_values (Option.not_isSome_iff_eq_none.mp hm)
    have hnew : s.heap.Owned s.maps.values ((MapHeap.arraysOf ⟨∅, false⟩ : Multiset ℕ) + 0) := ho
    obtain ⟨hown, hpres, hget⟩ := hnew.newStorage
    rw [← hvalues] at hown hpres
    obtain ⟨ho', hview⟩ := Owned.redirect hown (MapHeap.view_of_get hget) hpres.views
    refine ⟨ho', ?_⟩
    simp only [independentStep, hmissing m hm, Option.isSome_none, Bool.false_eq_true, if_false]
    exact congrArg (fun v => some (v, _)) hview.symm
  | copyConstruct m src =>
    simp only [step] at hstep
    split_ifs at hstep with hm
    obtain ⟨p, hp, ⟨⟩⟩ := Option.map_eq_some_iff.mp hstep
    obtain ⟨x, hx, hviewsrc⟩ := ho.view hp
    have hvalues := erase_values (Option.not_isSome_iff_eq_none.mp hm)
    obtain ⟨hown, hsame⟩ := shareStorage_owned ho (AList.mem_values hp)
    rw [← hvalues] at hown
    obtain ⟨ho', hview⟩ := Owned.redirect hown ((hsame p).trans hx) fun q _ => hsame q
    refine ⟨ho', ?_⟩
    simp only [independentStep, hmissing m hm, Option.isSome_none, Bool.false_eq_true, if_false,
      hviewsrc, Option.map_some]
    exact congrArg (fun v => some (v, _)) hview.symm
  | destroy m =>
    obtain ⟨p, hp, ⟨⟩⟩ := Option.map_eq_some_iff.mp hstep
    obtain ⟨x, -, hview⟩ := ho.view hp
    obtain ⟨hown, hpres⟩ := (ho.split hp).releaseStorage (Multiset.mem_cons_self _ _)
    rw [Multiset.erase_cons_head] at hown hpres
    obtain ⟨ho', hview'⟩ := Owned.remove hown hpres.views
    refine ⟨ho', ?_⟩
    simp only [independentStep, hview, Option.map_some]
    exact congrArg (fun v => some (v, _)) hview'.symm
  | assign m src =>
    obtain ⟨q, hq, hstep⟩ := Option.bind_eq_some_iff.mp hstep
    obtain ⟨x, hx, hviewsrc⟩ := ho.view hq
    simp only [independentStep, hviewsrc, Option.bind_some]
    refine onMap_mirrors ho (fun p m' hp hm' => ⟨?_, rfl⟩) hstep
    obtain ⟨hown, hsame⟩ := shareStorage_owned ho (AList.mem_values hq)
    rw [AList.values_of_lookup hp, Multiset.cons_swap] at hown
    obtain ⟨hown', hpres⟩ := hown.releaseStorage (p := p) (Multiset.mem_cons_self _ _)
    rw [Multiset.erase_cons_head] at hown' hpres
    refine ⟨hown', ?_, ?_⟩
    · rw [hm', hpres.views q (Multiset.mem_cons_self _ _), hsame q, hx, Option.map_some]
    · have hshare : MapHeap.Preserves s.heap (shareStorage s.heap q) (s.maps.erase m).values 0 :=
        ⟨fun _ _ => get_addRef _ _ _, fun q' _ => hsame q', fun _ _ => rfl⟩
      exact hshare.trans (hpres.mono (Multiset.le_cons_self _ _) le_rfl)
  | copy m src =>
    simp only [step] at hstep
    split_ifs at hstep with heq
    · obtain ⟨p, hp, heq'⟩ := Option.map_eq_some_iff.mp hstep
      obtain ⟨rfl, rfl⟩ := Prod.mk.inj heq'
      obtain ⟨x, -, hview⟩ := ho.view hp
      exact ⟨ho, by simp only [independentStep, if_pos heq, hview, Option.map_some]⟩
    · obtain ⟨q, hq, hstep⟩ := Option.bind_eq_some_iff.mp hstep
      obtain ⟨x, hx, hviewsrc⟩ := ho.view hq
      simp only [independentStep, if_neg heq, hviewsrc, Option.bind_some]
      refine onMap_mirrors ho (fun p m' hp _ => ⟨?_, rfl⟩) hstep
      have hsrc : q ∈ (s.maps.erase m).values := by
        rw [← AList.lookup_erase_ne (Ne.symm heq)] at hq
        exact AList.mem_values hq
      exact (ho.split hp).copy hsrc hx
  | clear m =>
    exact onMap_mirrors ho (fun p _ hp _ => ⟨(ho.split hp).clear, rfl⟩) hstep
  | deleteKey m key =>
    refine onMap_mirrors ho (fun p m' hp hm' => ?_) hstep
    obtain ⟨hupdates, hstatus⟩ := (ho.split hp).erase key
    exact ⟨hupdates, hstatus m' hm'⟩
  | propSet m key propType val mode =>
    exact onMap_mirrors ho
      (fun p _ hp hm' => (ho.split hp).propSetShared hm' propType val mode) hstep
  | propSetArray m key propType vals size =>
    exact onMap_mirrors ho
      (fun p _ hp hm' => (ho.split hp).propSetArray hm' propType vals size) hstep
  | propGet m key =>
    obtain ⟨p, hp, ⟨⟩⟩ := Option.map_eq_some_iff.mp hstep
    obtain ⟨x, hx, hview⟩ := ho.view hp
    obtain ⟨x', hx', hprops⟩ := (ho.split hp).find_view key
    obtain rfl := Option.some.inj (hx.symm.trans hx')
    exact ⟨ho, by simp only [independentStep, hview, Option.map_some, hprops]⟩

omit [Inhabited V] in
/-- An operation on one independent map leaves the others alone, and all of them
if it fails. -/
theorem onIndependent_frame (hfailed : ∀ m, (f m).1 = false → (f m).2 = m)
    (hstep : onIndependent maps a f = some (maps', e)) :
    (∀ m, m ≠ a.target → maps' m = maps m) ∧ (e.status = false → maps' = maps) := by
  obtain ⟨m, hm, ⟨⟩⟩ := Option.map_eq_some_iff.mp hstep
  refine ⟨fun m' hne => Function.update_of_ne hne _ _, fun hstatus => ?_⟩
  rw [hfailed m hstatus, ← hm, Function.update_eq_self]

omit [Inhabited V] in
/-- The same for every operation. -/
theorem independentStep_frame (hstep : independentStep maps a = some (maps', e)) :
    (∀ m, m ≠ a.target → maps' m = maps m) ∧ (e.status = false → maps' = maps) := by
  cases a with
  | create m =>
    simp only [independentStep] at hstep
    split_ifs at hstep
    obtain ⟨⟩ := Option.some.inj hstep
    exact ⟨fun m' hne => Function.update_of_ne hne _ _, nofun⟩
  | copyConstruct m src =>
    simp only [independentStep] at hstep
    split_ifs at hstep
    obtain ⟨x, -, ⟨⟩⟩ := Option.map_eq_some_iff.mp hstep
    exact ⟨fun m' hne => Function.update_of_ne hne _ _, nofun⟩
  | destroy m =>
    obtain ⟨x, -, ⟨⟩⟩ := Option.map_eq_some_iff.mp hstep
    exact ⟨fun m' hne => Function.update_of_ne hne _ _, nofun⟩
  | assign m src =>
    obtain ⟨x, -, hstep⟩ := Option.bind_eq_some_iff.mp hstep
    refine onIndependent_frame (fun m' hfalse => ?_) hstep
    cases hfalse
  | copy m src =>
    simp only [independentStep] at hstep
    split_ifs at hstep
    · obtain ⟨x, -, ⟨⟩⟩ := Option.map_eq_some_iff.mp hstep
      exact ⟨fun _ _ => rfl, fun _ => rfl⟩
    · obtain ⟨x, -, hstep⟩ := Option.bind_eq_some_iff.mp hstep
      refine onIndependent_frame (fun m' hfalse => ?_) hstep
      cases hfalse
  | clear m =>
    refine onIndependent_frame (fun m' hfalse => ?_) hstep
    cases hfalse
  | deleteKey m key =>
    refine onIndependent_frame (fun m' hnone => ?_) hstep
    exact PropMap.eraseKey_of_none (by simpa using hnone)
  | propSet m key propType val mode =>
    exact onIndependent_frame (fun _ => PropMap.propSet_failed) hstep
  | propSetArray m key propType vals size =>
    exact onIndependent_frame (fun _ => PropMap.propSetArray_failed) hstep
  | propGet m key =>
    obtain ⟨x, -, ⟨⟩⟩ := Option.map_eq_some_iff.mp hstep
    exact ⟨fun _ _ => rfl, fun _ => rfl⟩

/-- Over every sequence of operations: the maps, whatever storage they share, are
in the state of a table of independent maps after the same operations with the
same results. An operation changes only the map it is called on, and none if it
fails. -/
theorem maps_run {history : List (MapEvent M V)} {s : MapSystem M V}
    (hrun : Run step always start history s) :
    Run independentStep always (fun _ => none) history s.view ∧
      ∀ a t e, s.step a = some (t, e) →
        (∀ m, m ≠ a.target → t.view m = s.view m) ∧ (e.status = false → t.view = s.view) := by
  have h : s.Owned ∧ Run independentStep always (fun _ => none) history s.view := by
    apply hrun.invariant fun history s =>
      s.Owned ∧ Run independentStep always (fun _ => none) history s.view
    · exact ⟨⟨Counted.empty, Counted.empty⟩, Run.init⟩
    · rintro history s t a e ⟨ho, hindependent⟩ - hstep
      obtain ⟨ho', hstep'⟩ := step_independent ho hstep
      exact ⟨ho', hindependent.step trivial hstep'⟩
  exact ⟨h.2, fun a t e hstep => independentStep_frame (step_independent h.1 hstep).2⟩

/-- Two maps share a storage until one of them gets a second value under a key,
and a value of another type is refused. -/
theorem maps_run_shared : ∃ (history : List (MapEvent Bool ℕ)) (s : MapSystem Bool ℕ),
    Run step always start history s ∧
      (s.view true).bind (·.props "a") = some (.int, [1]) ∧
      (s.view false).bind (·.props "a") = some (.int, [1, 2]) ∧
      Run independentStep always (fun _ => none) history s.view := by
  obtain ⟨history, s, hrun, hcheck⟩ := exists_run (step (M := Bool) (V := ℕ)) always start
    [.create true, .propSet true "a" .int 1 .replace, .copyConstruct false true,
      .propSet false "a" .int 2 .append, .propSet false "a" .float 3 .append]
    (fun _ s => decide ((s.view true).bind (·.props "a") = some (.int, [1]) ∧
      (s.view false).bind (·.props "a") = some (.int, [1, 2]))) (by decide)
  obtain ⟨htrue, hfalse⟩ := of_decide_eq_true hcheck
  exact ⟨history, s, hrun, htrue, hfalse, (maps_run hrun).1⟩

end MapSystem

end AviSynth
