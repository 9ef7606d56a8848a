import AviSynth.Frames.ShutdownKinds

/-!
# The drain of frame properties ends

Each step makes one of the finitely many calls that destructors still have to make, or
leaves fewer references to be released. When the drain ends, no registered frame has
properties, every object has been destroyed once or is still referred to, and a frame
that is referred to is so from outside or by an object that is.
-/

namespace AviSynth

open RefHeap Shutdown

/-- What a task adds to the references that are to be released. -/
def ShutdownTask.weight : ShutdownTask → ℕ
  | .run _ => 0
  | _ => 1

/-- What an object adds. Taking an entry out of a storage makes two releases of it. -/
def PropObject.weight : PropObject → ℕ
  | .storage data => 3 * Multiset.card data.values
  | v => v.refs.length

namespace Shutdown

variable {s t : Shutdown} {E : Multiset ObjectRef} {p : ℕ} {key : String}
  {data : AList fun _ : String => IntrusivePtr} {task : ShutdownTask} {rest : List ShutdownTask}

/-- The references that are to be released. -/
def weight (s : Shutdown) : ℕ :=
  (s.work.map ShutdownTask.weight).sum + s.objects.total PropObject.weight

/-- The first task is taken from the others, with the references that it holds. -/
theorem Balanced.pop (h : s.Balanced 0) (hwork : s.work = task :: rest) :
    Balanced { s with work := rest } (task.refs : Multiset ObjectRef) := by
  have hrefs : (task.refs : Multiset ObjectRef) + { s with work := rest }.references =
      0 + s.references := by
    simp only [references, hwork, List.flatMap_cons, ← Multiset.coe_add, zero_add]
    abel
  constructor
  · rw [hrefs]
    exact h.objects
  · rw [hrefs]
    exact h.frames
  · exact h.used
  · exact h.object_lt
  · exact h.frame_lt
  · exact h.nodup
  · exact h.gone

/-- The first task and the others. -/
theorem ops_pop (hwork : s.work = task :: rest) :
    s.ops = task.ops + ops { s with work := rest } := by
  simp only [ops, hwork, List.map_cons, List.sum_cons]
  omega

theorem weight_pop (hwork : s.work = task :: rest) :
    s.weight = task.weight + weight { s with work := rest } := by
  simp only [weight, hwork, List.map_cons, List.sum_cons]
  omega

/-- The releases that a destructor makes are no more than what the object held. -/
theorem weight_destructorTasks (v : PropObject) :
    ((destructorTasks v).map ShutdownTask.weight).sum ≤ v.weight := by
  have hrelease : ∀ rs : List ObjectRef,
      ((rs.map ShutdownTask.release).map ShutdownTask.weight).sum = rs.length := by
    intro rs
    induction rs with
    | nil => rfl
    | cons r rs ih =>
      rw [List.map_cons, List.map_cons, List.sum_cons, ih, List.length_cons]
      exact Nat.add_comm _ _
  have hrun : ∀ ops : List ClipOp,
      ((ops.map ShutdownTask.run).map ShutdownTask.weight).sum = 0 := by
    intro ops
    induction ops with
    | nil => rfl
    | cons op ops ih =>
      rw [List.map_cons, List.map_cons, List.sum_cons, ih]
      rfl
  cases v with
  | storage data =>
    have hentries : (entryRefs data).length ≤ data.entries.length := by
      unfold entryRefs
      induction data.entries with
      | nil => exact Nat.le_refl _
      | cons e entries ih =>
        have hone : e.2.refs.length ≤ 1 := by
          unfold IntrusivePtr.refs
          split
          · exact Nat.le_refl _
          · exact Nat.zero_le _
        rw [List.flatMap_cons, List.length_append, List.length_cons]
        omega
    have hcard : Multiset.card data.values = data.entries.length := by
      rw [AList.values, Multiset.coe_card, List.length_map]
    rw [destructorTasks, hrelease, PropObject.weight, hcard, PropObject.refs]
    · omega
    · intro holds destructor hclip
      cases hclip
  | array a =>
    rw [destructorTasks, hrelease]
    · exact Nat.le_refl _
    · intro holds destructor hclip
      cases hclip
  | clip holds destructor =>
    rw [destructorTasks, List.map_append, List.sum_append, hrun, hrelease, Nat.zero_add]
    exact Nat.le_refl _

theorem weight_release (s : Shutdown) (r : ObjectRef) : (s.release r).weight ≤ s.weight := by
  cases r with
  | frame f => exact Nat.le_refl _
  | object p =>
    have htotal := total_release PropObject.weight s.objects p
    simp only [release]
    split
    · next objects hrelease =>
      simp only [hrelease, Option.elim_none] at htotal
      simp only [weight]
      omega
    · next v objects hrelease =>
      simp only [hrelease, Option.elim_some] at htotal
      have hdestructor := weight_destructorTasks v
      simp only [weight, List.map_append, List.sum_append]
      omega

/-- Fewer calls remain, or no more calls and fewer references to be released. -/
def Below (t s : Shutdown) : Prop := t.ops < s.ops ∨ t.ops ≤ s.ops ∧ t.weight < s.weight

theorem refs_of_not_held {e : IntrusivePtr} (hheld : e.held = false) :
    (e.refs : Multiset ObjectRef) = 0 := by
  rw [IntrusivePtr.refs, hheld]
  rfl

theorem card_values_erase {e : IntrusivePtr} (hlookup : data.lookup key = some e) :
    Multiset.card data.values = Multiset.card (data.erase key).values + 1 := by
  rw [AList.values_of_lookup hlookup, Multiset.card_cons]

/-- The next task is done. -/
theorem Balanced.perform (h : s.Balanced 0) (hclosing : s.framePropertiesClosing = true)
    (hwork : s.work = task :: rest) (huses : s.usesReleased = false) :
    (perform { s with work := rest } task).Balanced 0 ∧
      s.Extends (perform { s with work := rest } task) ∧
        Below (perform { s with work := rest } task) s := by
  have hpop := h.pop hwork
  have hops := ops_pop hwork
  have hweight := weight_pop hwork
  simp only [usesReleased, hwork] at huses
  cases task with
  | release r =>
    have hmoves := Balanced.release (E := 0) hpop
    have hfewer := weight_release { s with work := rest } r
    refine ⟨hmoves.balanced, { hmoves.extends_ with }, .inr ⟨?_, ?_⟩⟩
    · have hcalls := hmoves.ops
      simp only [ShutdownTask.ops] at hops
      simp only [perform]
      omega
    · simp only [ShutdownTask.weight] at hweight
      simp only [perform]
      omega
  | run op =>
    have hunused : opUses { s with work := rest } op = false := huses
    obtain ⟨n, hn, hmoves⟩ := Balanced.runOp (E := 0) hpop hclosing hunused
    refine ⟨hmoves.balanced, { hmoves.extends_ with }, .inl ?_⟩
    have hcalls := hmoves.ops
    simp only [ShutdownTask.ops] at hops
    simp only [perform]
    omega
  | assign p key array =>
    simp only [Bool.not_eq_false', entryReleased] at huses
    obtain ⟨e, hentry, hheld⟩ := (Option.any_eq_true _ _).mp huses
    obtain ⟨data, hentries, hlookup⟩ := Option.bind_eq_some_iff.mp hentry
    rw [Bool.not_eq_true'] at hheld
    have hentries' : entriesAt { s with work := rest } p = some data := hentries
    have hrefs : (entryRefs (data.insert key ⟨array, true⟩) : Multiset ObjectRef) + 0 =
        (entryRefs data : Multiset ObjectRef) + {.object array} := by
      rw [entryRefs_insert, entryRefs_of_lookup hlookup, refs_of_not_held hheld,
        IntrusivePtr.refs_held]
      abel
    have hmoves := Balanced.setEntries hpop hentries' hrefs
    have hperform : perform { s with work := rest } (.assign p key array) =
        Shutdown.setEntries { s with work := rest } p (data.insert key ⟨array, true⟩) := by
      simp only [perform, hentries']
    rw [hperform]
    refine ⟨hmoves.balanced, { hmoves.extends_ with }, .inr ⟨?_, ?_⟩⟩
    · have hcalls := hmoves.ops
      simp only [ShutdownTask.ops] at hops
      omega
    · have htotal := total_put (f := PropObject.weight) (entriesAt_eq hentries)
        (.storage (data.insert key ⟨array, true⟩))
      have hcard : Multiset.card (data.insert key ⟨array, true⟩).values =
          Multiset.card data.values := by
        rw [AList.values_insert, Multiset.card_cons, card_values_erase hlookup]
      simp only [PropObject.weight, hcard] at htotal
      simp only [ShutdownTask.weight, weight] at hweight
      simp only [weight, Shutdown.setEntries]
      omega
  | assignMap f p =>
    simp only [Bool.not_eq_false', mapReleased] at huses
    obtain ⟨ptr, hmap, hheld⟩ := (Option.any_eq_true _ _).mp huses
    rw [Bool.not_eq_true'] at hheld
    obtain ⟨frame, hframe, hproperties⟩ := mapOf_eq hmap
    have hframe' : RefHeap.get { s with work := rest }.frames f = some frame := hframe
    have hrefs : (PropFrame.refs { frame with properties := some ⟨p, true⟩ } :
        Multiset ObjectRef) + 0 = (frame.refs : Multiset ObjectRef) + {.object p} := by
      rw [PropFrame.refs, PropFrame.refs, hproperties, Option.elim_some, Option.elim_some,
        refs_of_not_held hheld, IntrusivePtr.refs_held]
      abel
    have hmoves := Balanced.setMap hpop hframe' ⟨p, true⟩ hrefs
    refine ⟨hmoves.balanced, { hmoves.extends_ with }, .inr ⟨?_, ?_⟩⟩
    · have hcalls := hmoves.ops
      simp only [ShutdownTask.ops] at hops
      simp only [perform]
      omega
    · have hsame : weight (Shutdown.setMap { s with work := rest } f ⟨p, true⟩) =
          weight { s with work := rest } := by
        unfold Shutdown.setMap
        split <;> rfl
      simp only [ShutdownTask.weight] at hweight
      simp only [perform]
      omega

theorem firstKey_mem {keys : List String} (h : firstKey keys = some key) : key ∈ keys := by
  induction keys generalizing key with
  | nil => cases h
  | cons k keys ih =>
    simp only [firstKey] at h
    split at h
    · cases h
      exact List.mem_cons_self
    · next k' hk' =>
      split at h
      · cases h
        exact List.mem_cons_self
      · cases h
        exact List.mem_cons_of_mem k (ih hk')

theorem firstKey_ne_none {keys : List String} (hne : keys ≠ []) : ∃ k, firstKey keys = some k := by
  cases keys with
  | nil => exact absurd rfl hne
  | cons k keys =>
    simp only [firstKey]
    split
    · exact ⟨_, rfl⟩
    · split
      · exact ⟨_, rfl⟩
      · exact ⟨_, rfl⟩

/-- The storage that is found has entries. -/
theorem entries_of_find (hfind : s.findFrameProperties = some p) :
    ∃ data, s.entriesAt p = some data ∧ data.entries ≠ [] := by
  obtain ⟨f, -, hf⟩ := List.exists_of_findSome?_eq_some hfind
  obtain ⟨ptr, -, hptr⟩ := Option.bind_eq_some_iff.mp hf
  split at hptr
  · next hentries =>
    cases hptr
    obtain ⟨data, hdata, hne⟩ := (Option.any_eq_true _ _).mp hentries
    refine ⟨data, hdata, ?_⟩
    intro hnil
    rw [hnil] at hne
    cases hne
  · cases hptr

/-- What an iteration takes out of a storage. -/
theorem extract_eq (hentries : s.entriesAt p = some data) (hne : data.entries ≠ []) :
    ∃ key e, data.lookup key = some e ∧ s.extract p =
      ((s.addRef (.object p)).setEntries p (data.erase key)).push
        [.release (.object e.obj), .release (.object p)] := by
  have hkeys : data.keys ≠ [] := fun hnil => hne (List.map_eq_nil_iff.mp hnil)
  obtain ⟨key, hkey⟩ := firstKey_ne_none hkeys
  obtain ⟨e, hlookup⟩ := Option.isSome_iff_exists.mp
    (AList.lookup_isSome.mpr (AList.mem_keys.mpr (firstKey_mem hkey)))
  refine ⟨key, e, hlookup, ?_⟩
  simp only [extract, hentries, hkey, hlookup]
  rfl

/-- An iteration begins. -/
theorem Balanced.extract (h : s.Balanced 0) (hfind : s.findFrameProperties = some p)
    (huses : s.someReleased p = false) :
    (s.extract p).Balanced 0 ∧ s.Extends (s.extract p) ∧ Below (s.extract p) s := by
  obtain ⟨data, hentries, hne⟩ := entries_of_find hfind
  obtain ⟨key, e, hlookup, hextract⟩ := extract_eq hentries hne
  have hget := entriesAt_eq hentries
  have hheld : e.held = true := by
    rw [someReleased, hentries, Option.any_some, List.any_eq_false] at huses
    have hentry := huses _ (mem_entries_of_lookup hlookup)
    simpa using hentry
  rw [hextract]
  have hfirst := h.addRef (r := .object p) ⟨_, hget⟩
  have hentries' : (s.addRef (.object p)).entriesAt p = some data :=
    (entriesAt_congr (get_objects_addRef s _ p)).trans hentries
  have hrefs : (entryRefs (data.erase key) : Multiset ObjectRef) +
      (.object e.obj ::ₘ .object p ::ₘ 0) =
        (entryRefs data : Multiset ObjectRef) + (.object p ::ₘ 0) := by
    rw [entryRefs_of_lookup hlookup, IntrusivePtr.refs_of_held hheld, ← Multiset.singleton_add,
      ← Multiset.singleton_add]
    abel
  have hsecond := hfirst.balanced.setEntries hentries' hrefs
  have hthird := hsecond.balanced.push
    [.release (.object e.obj), .release (.object p)] (add_zero _).symm
  have hmoves := (hfirst.trans hsecond).trans hthird
  refine ⟨hmoves.balanced, hmoves.extends_, .inr ⟨hmoves.ops, ?_⟩⟩
  have htotal := total_put (f := PropObject.weight) (entriesAt_eq hentries')
    (.storage (data.erase key))
  have haddRef : (s.addRef (.object p)).objects.total PropObject.weight =
      s.objects.total PropObject.weight := total_addRef _ _
  have hcard := card_values_erase hlookup
  have hworkOf : (s.addRef (.object p)).work = s.work := rfl
  simp only [PropObject.weight, haddRef] at htotal
  simp only [weight, Shutdown.push, Shutdown.setEntries, List.map_append, List.map_cons,
    List.map_nil, List.sum_append, List.sum_cons, List.sum_nil, ShutdownTask.weight, hworkOf]
  omega

/-- A step uses up a call or a reference. -/
theorem Balanced.step (h : s.Balanced 0) (hclosing : s.framePropertiesClosing = true)
    (huses : s.usesReleased = false) (hstep : s.step = some t) :
    t.Balanced 0 ∧ s.Extends t ∧ Below t s := by
  unfold Shutdown.step at hstep
  split at hstep
  · next hwork =>
    obtain ⟨p, hfind, rfl⟩ := Option.map_eq_some_iff.mp hstep
    simp only [usesReleased, hwork, hfind, Option.any_some] at huses
    exact h.extract hfind huses
  · next task rest hwork =>
    cases hstep
    exact h.perform hclosing hwork huses

/-- A step keeps the kinds. -/
theorem Typed.step (h : s.Typed) (hclosing : s.framePropertiesClosing = true)
    (hstep : s.step = some t) : s.Types t := by
  unfold Shutdown.step at hstep
  split at hstep
  · obtain ⟨p, hfind, rfl⟩ := Option.map_eq_some_iff.mp hstep
    obtain ⟨data, hentries, hne⟩ := entries_of_find hfind
    obtain ⟨key, e, -, hextract⟩ := extract_eq hentries hne
    have hfirst := h.addRef (.object p)
    have hp : s.IsA .storage p := h.isA (entriesAt_eq hentries)
    have hdata : ∀ e ∈ data.entries, (s.addRef (.object p)).IsA .array e.2.obj :=
      fun e he => (h.entries hentries e he).mono hfirst.keeps
    have hsecond := hfirst.typed.setEntries (hp.mono hfirst.keeps) (typed_erase key hdata)
    rw [hextract]
    exact (hfirst.trans hsecond).trans
      (hsecond.typed.push (typed_releases _ [.object e.obj, .object p]))
  · next task rest hwork =>
    cases hstep
    have hpop : Typed { s with work := rest } := by
      refine { h with work := ?_ }
      intro task' htask'
      apply h.work
      rw [hwork]
      exact List.mem_cons_of_mem task htask'
    have htask : s.TypedTask task := by
      apply h.work
      rw [hwork]
      exact List.mem_cons_self
    have htypes : Types { s with work := rest } (perform { s with work := rest } task) := by
      cases task with
      | release r => exact hpop.release r
      | run op => exact hpop.runOp hclosing op
      | assign p key array =>
        simp only [perform]
        split
        · exact hpop.refl
        · next data hentries =>
          exact hpop.setEntries (hpop.isA (entriesAt_eq hentries))
            (typed_insert key ⟨array, true⟩ (hpop.entries hentries) htask)
      | assignMap f p => exact hpop.setMap f ⟨p, true⟩ htask
    exact ⟨htypes.typed, { htypes.keeps with }⟩

theorem steps_succ (hstep : s.step = some t) (n : ℕ) : steps (n + 1) s = steps n t := by
  rw [steps, hstep, Option.getD_some]

/-- After the end there are no steps. -/
theorem steps_of_end (hend : s.step = none) (n : ℕ) : steps n s = s := by
  induction n with
  | zero => rfl
  | succ n ih => rw [steps, hend, Option.getD_none, ih]

/-- Any number of steps, when none before the last has used a pointer in the middle of its
assignment. -/
theorem Balanced.steps {n : ℕ} (h : s.Balanced 0) (htyped : s.Typed)
    (hclosing : s.framePropertiesClosing = true)
    (hsafe : ∀ k < n, (steps k s).usesReleased = false) :
    (steps n s).Balanced 0 ∧ s.Types (steps n s) ∧ s.Extends (steps n s) := by
  induction n generalizing s with
  | zero => exact ⟨h, htyped.refl, .refl s⟩
  | succ n ih =>
    cases hstep : s.step with
    | none =>
      rw [steps_of_end hstep]
      exact ⟨h, htyped.refl, .refl s⟩
    | some t =>
      obtain ⟨hbalanced, hextends, -⟩ := h.step hclosing (hsafe 0 (Nat.succ_pos n)) hstep
      have htypes := htyped.step hclosing hstep
      obtain ⟨hbalanced', htypes', hextends'⟩ :=
        ih hbalanced htypes.typed (hextends.closing.trans hclosing) (by
          intro k hk
          rw [← steps_succ hstep]
          exact hsafe (k + 1) (Nat.succ_lt_succ hk))
      rw [steps_succ hstep]
      exact ⟨hbalanced', htypes.trans htypes', hextends.trans hextends'⟩

/-- The drain ends: the calls that remain and the references to be released go down. -/
theorem Balanced.exists_end {s : Shutdown} (h : s.Balanced 0)
    (hclosing : s.framePropertiesClosing = true)
    (hsafe : ∀ n, (Shutdown.steps n s).usesReleased = false) :
    ∃ n, (Shutdown.steps n s).step = none := by
  cases hstep : s.step with
  | none => exact ⟨0, hstep⟩
  | some t =>
    obtain ⟨hbalanced, hextends, hbelow⟩ := h.step hclosing (hsafe 0) hstep
    obtain ⟨n, hend⟩ := hbalanced.exists_end (hextends.closing.trans hclosing) (by
      intro n
      rw [← steps_succ hstep]
      exact hsafe (n + 1))
    refine ⟨n + 1, ?_⟩
    rw [steps_succ hstep]
    exact hend
termination_by (s.ops, s.weight)
decreasing_by
  rcases hbelow with hops | ⟨hops, hweight⟩
  · exact Prod.Lex.left _ _ hops
  · rcases Nat.lt_or_eq_of_le hops with hless | heq
    · exact Prod.Lex.left _ _ hless
    · rw [heq]
      exact Prod.Lex.right _ hweight

/-- A reference is held outside the environment: by whoever took it, or by a clip. -/
def HeldOutside (s : Shutdown) (r : ObjectRef) : Prop :=
  r ∈ s.outside ∨
    ∃ p holds destructor, s.objects.get p = some (.clip holds destructor) ∧ r ∈ holds

/-- No frame that was there has been deleted or taken for another use. -/
structure Undisturbed (s t : Shutdown) : Prop where
  extends_ : s.Extends t
  noReuse : ∀ vfbSize, t.getFrameFromRegistry vfbSize = none

/-- The state in which the drain ends: no property is left, every property value has been
released, once, and what is still there is referred to from outside. -/
structure Drained (s t : Shutdown) : Prop where
  work : t.work = []
  /-- Each count is the number of the references that have not been released. -/
  balanced : t.Balanced 0
  noProperties : ∀ f ∈ t.registered, t.storageOf f = none
  released : ∀ p a, s.objects.get p = some (.array a) → t.destroyed.count p = 1
  noArrays : ∀ p a, t.objects.get p ≠ some (.array a)
  clips : ∀ p holds destructor, t.objects.get p = some (.clip holds destructor) →
    t.HeldOutside (.object p)
  frames : ∀ f c, t.frames.lookup f = some c → c.refcount ≠ 0 → t.HeldOutside (.frame f)

/-- Where a reference is. -/
theorem holder_of_mem {r : ObjectRef} (hr : r ∈ s.references) :
    r ∈ s.outside ∨ (∃ f frame, s.frames.get f = some frame ∧ r ∈ frame.refs) ∨
      (∃ p v, s.objects.get p = some v ∧ r ∈ v.refs) ∨ ∃ task ∈ s.work, r ∈ task.refs := by
  simp only [references, Multiset.mem_add] at hr
  rcases hr with ((hr | hr) | hr) | hr
  · exact .inl (Multiset.mem_coe.mp hr)
  · obtain ⟨f, frame, hget, hmem⟩ := exists_of_mem_total hr
    exact .inr (.inl ⟨f, frame, hget, Multiset.mem_coe.mp hmem⟩)
  · obtain ⟨p, v, hget, hmem⟩ := exists_of_mem_total hr
    exact .inr (.inr (.inl ⟨p, v, hget, Multiset.mem_coe.mp hmem⟩))
  · obtain ⟨task, htask, hmem⟩ := List.mem_flatMap.mp (Multiset.mem_coe.mp hr)
    exact .inr (.inr (.inr ⟨task, htask, hmem⟩))

/-- The pointers to an object are of its kind. -/
theorem kind_of_refs {k : ObjectKind} {ptr : IntrusivePtr} {v : PropObject}
    (hptr : s.IsA k ptr.obj) (hmem : .object p ∈ ptr.refs) (hget : s.objects.get p = some v) :
    v.kind = k := by
  unfold IntrusivePtr.refs at hmem
  split at hmem
  · cases List.mem_singleton.mp hmem
    exact hptr.2 v hget
  · cases hmem

/-- What refers to an object when the drain has ended: to a storage, the map of a frame,
to an array, a storage, and to a clip, an array, another clip or something outside. -/
def Holder (s : Shutdown) (p : ℕ) : ObjectKind → Prop
  | .storage => ∃ f ptr, s.mapOf f = some ptr ∧ ptr.obj = p
  | .array => ∃ q, s.hasEntries q = true
  | .clip => s.HeldOutside (.object p) ∨ ∃ q a, s.objects.get q = some (.array a)

/-- Without work each object has a holder. -/
theorem Balanced.holder (h : s.Balanced 0) (htyped : s.Typed) (hwork : s.work = [])
    {v : PropObject} (hget : s.objects.get p = some v) : s.Holder p v.kind := by
  have hmem := mem_objectsOf.mp (h.objects.mem_of_used h.used hget)
  rw [zero_add] at hmem
  have hvalue : s.IsValue (.object p) → v.kind = .clip := fun hp => hp.2 v hget
  rcases holder_of_mem hmem with hr | ⟨f, frame, hframe, hr⟩ | ⟨q, w, hq, hr⟩ | ⟨task, htask, -⟩
  · rw [hvalue (htyped.outside _ hr)]
    exact .inl (.inl hr)
  · unfold PropFrame.refs at hr
    cases hproperties : frame.properties with
    | none =>
      rw [hproperties] at hr
      cases hr
    | some ptr =>
      rw [hproperties, Option.elim_some] at hr
      have hmap : s.mapOf f = some ptr :=
        Option.bind_eq_some_iff.mpr ⟨frame, hframe, hproperties⟩
      rw [kind_of_refs (htyped.maps f ptr hmap) hr hget]
      unfold IntrusivePtr.refs at hr
      split at hr
      · cases List.mem_singleton.mp hr
        exact ⟨f, ptr, hmap, rfl⟩
      · cases hr
  · have hobject := htyped.objects q w hq
    cases w with
    | storage data =>
      obtain ⟨e, he, hr⟩ := List.mem_flatMap.mp hr
      rw [kind_of_refs (hobject e he) hr hget]
      refine ⟨q, ?_⟩
      rw [hasEntries, entriesAt_of_get hq, Option.any_some, List.isEmpty_eq_false_iff.mpr]
      · rfl
      · exact List.ne_nil_of_mem he
    | array a =>
      rw [hvalue (hobject _ hr)]
      exact .inr ⟨q, a, hq⟩
    | clip holds destructor =>
      rw [hvalue (hobject _ hr)]
      exact .inl (.inr ⟨q, holds, destructor, hq, hr⟩)
  · rw [hwork] at htask
    cases htask

/-- The drain ends when the registered frames have no properties. -/
theorem end_of_step (hend : s.step = none) :
    s.work = [] ∧ ∀ f ∈ s.registered, s.storageOf f = none := by
  unfold Shutdown.step at hend
  split at hend
  · next hwork =>
    have hfind := Option.map_eq_none_iff.mp hend
    exact ⟨hwork, List.findSome?_eq_none_iff.mp hfind⟩
  · cases hend

/-- No storage has entries then. -/
theorem Balanced.no_entries (h : s.Balanced 0) (htyped : s.Typed) (hend : s.step = none) :
    s.hasEntries p = false := by
  obtain ⟨hwork, hnone⟩ := end_of_step hend
  rw [← Bool.not_eq_true]
  intro hentries
  obtain ⟨data, hdata, -⟩ := (Option.any_eq_true _ _).mp hentries
  obtain ⟨f, ptr, hmap, rfl⟩ := h.holder htyped hwork (entriesAt_eq hdata)
  obtain ⟨frame, hframe, -⟩ := mapOf_eq hmap
  have hstorage := hnone f (htyped.registered f frame hframe)
  rw [storageOf, hmap, Option.bind_some, if_pos hentries] at hstorage
  cases hstorage

/-- Nor is there an array. -/
theorem Balanced.no_arrays (h : s.Balanced 0) (htyped : s.Typed) (hend : s.step = none)
    (a : VSArray PropValue) : s.objects.get p ≠ some (.array a) := by
  intro hget
  obtain ⟨q, hq⟩ := h.holder htyped (end_of_step hend).1 hget
  rw [h.no_entries htyped hend] at hq
  cases hq

/-- Where nothing is left to do, all is drained. -/
theorem Balanced.drained (hextends : s.Extends t) (hkeeps : s.Keeps t) (hs : s.Typed)
    (h : t.Balanced 0) (htyped : t.Typed) (hend : t.step = none) : s.Drained t := by
  obtain ⟨hwork, hnone⟩ := end_of_step hend
  have harrays : ∀ p a, t.objects.get p ≠ some (.array a) := fun p a =>
    h.no_arrays htyped hend a
  constructor
  · exact hwork
  · exact h
  · exact hnone
  · intro p a hget
    apply List.count_eq_one_of_mem h.nodup
    rcases hextends.objects p _ hget with ⟨w, hw⟩ | hmem
    · obtain ⟨v, hv, hkind⟩ := hkeeps.kind p (hs.lt p _ hget) w hw
      rw [hget] at hv
      cases hv
      cases w with
      | storage data => cases hkind
      | array b => exact absurd hw (harrays p b)
      | clip holds destructor => cases hkind
    · exact hmem
  · exact harrays
  · intro p holds destructor hget
    rcases h.holder htyped hwork hget with hheld | ⟨q, a, hq⟩
    · exact hheld
    · exact absurd hq (harrays q a)
  · intro f c hlookup hne
    have hcount := h.frames.count f c hlookup
    have hmem : .frame f ∈ t.references := by
      rw [zero_add] at hcount
      apply mem_framesOf.mp
      apply Multiset.count_ne_zero.mp
      intro hzero
      rw [hzero] at hcount
      exact hne hcount
    rcases holder_of_mem hmem with hr | ⟨g, frame, -, hr⟩ | ⟨q, w, hq, hr⟩ | ⟨task, htask, -⟩
    · exact .inl hr
    · unfold PropFrame.refs IntrusivePtr.refs at hr
      cases hproperties : frame.properties with
      | none =>
        rw [hproperties] at hr
        cases hr
      | some ptr =>
        rw [hproperties, Option.elim_some] at hr
        split at hr
        · cases List.mem_singleton.mp hr
        · cases hr
    · cases w with
      | storage data =>
        obtain ⟨e, -, hr⟩ := List.mem_flatMap.mp hr
        unfold IntrusivePtr.refs at hr
        split at hr
        · cases List.mem_singleton.mp hr
        · cases hr
      | array a => exact absurd hq (harrays q a)
      | clip holds destructor => exact .inr ⟨q, holds, destructor, hq, hr⟩
    · rw [hwork] at htask
      cases htask

/-- An environment without frames, in which some calls are to be made. -/
def ofCalls (calls : List ClipOp) : Shutdown where
  framePropertiesClosing := true
  frameRegistry := []
  frames := ∅
  objects := ∅
  next := 0
  outside := []
  work := calls.map .run
  destroyed := []

/-- No pointer in the middle of its assignment is used within a number of steps. -/
def safeFor : ℕ → Shutdown → Bool
  | 0, s => !s.usesReleased
  | n + 1, s => !s.usesReleased && safeFor n (s.step.getD s)

/-- A run that was checked. -/
theorem safe_of_safeFor {n k : ℕ} (hsafe : safeFor n s = true) (hk : k ≤ n) :
    (steps k s).usesReleased = false := by
  induction n generalizing s k with
  | zero =>
    cases Nat.le_zero.mp hk
    exact (Bool.not_eq_true' _).mp hsafe
  | succ n ih =>
    obtain ⟨hfirst, hrest⟩ := Bool.and_eq_true_iff.mp hsafe
    cases k with
    | zero => exact (Bool.not_eq_true' _).mp hfirst
    | succ k =>
      have hsteps := ih hrest (Nat.le_of_succ_le_succ hk)
      exact hsteps

theorem steps_add (n m : ℕ) (s : Shutdown) : steps (n + m) s = steps m (steps n s) := by
  induction n generalizing s with
  | zero => rw [Nat.zero_add, steps]
  | succ n ih => rw [Nat.succ_add, steps, steps, ih]

/-- Once the drain has ended, a state that has been reached is not left. -/
theorem steps_of_le {n m : ℕ} (hend : (steps n s).step = none) (hle : n ≤ m) :
    steps m s = steps n s := by
  obtain ⟨k, rfl⟩ := Nat.exists_eq_add_of_le hle
  rw [steps_add, steps_of_end hend]

/-- A drain that ends is safe when its steps are. -/
theorem safe_of_end {n : ℕ} (hend : (steps n s).step = none) (hsafe : safeFor n s = true)
    (m : ℕ) : (steps m s).usesReleased = false := by
  rcases Nat.le_total m n with hle | hle
  · exact safe_of_safeFor hsafe hle
  · rw [steps_of_le hend hle]
    exact safe_of_safeFor hsafe (Nat.le_refl n)

/-- The counts are right after any calls. -/
theorem balanced_ofCalls {calls : List ClipOp} {n : ℕ}
    (hsafe : safeFor n (ofCalls calls) = true) :
    (steps n (ofCalls calls)).Balanced 0 ∧ (steps n (ofCalls calls)).Typed := by
  have hrefs : (ofCalls calls).references = 0 := by
    simp only [references, ofCalls, refs_runs]
    rfl
  have hbalanced : (ofCalls calls).Balanced 0 := by
    constructor
    · rw [hrefs]
      exact Counted.empty
    · rw [hrefs]
      exact Counted.empty
    · intro p c hlookup
      exact absurd hlookup.symm (Option.some_ne_none c)
    · intro p v hget
      exact absurd hget.symm (Option.some_ne_none v)
    · intro f frame hget
      exact absurd hget.symm (Option.some_ne_none frame)
    · exact List.nodup_nil
    · intro p hp
      exact absurd hp List.not_mem_nil
  have htyped : (ofCalls calls).Typed := by
    constructor
    · intro p v hget
      exact absurd hget.symm (Option.some_ne_none v)
    · intro p v hget
      exact absurd hget.symm (Option.some_ne_none v)
    · intro f ptr hmap
      exact absurd hmap.symm (Option.some_ne_none ptr)
    · intro r hr
      exact absurd hr List.not_mem_nil
    · intro task htask
      obtain ⟨op, -, rfl⟩ := List.mem_map.mp htask
      trivial
    · intro f frame hget
      exact absurd hget.symm (Option.some_ne_none frame)
  obtain ⟨h, htypes, -⟩ := hbalanced.steps htyped rfl fun k hk =>
    safe_of_safeFor hsafe (Nat.le_of_lt hk)
  exact ⟨h, htypes.typed⟩

/-- An environment after some calls, before its shutdown. -/
def afterCalls (n : ℕ) (calls : List ClipOp) : Shutdown :=
  { steps n (ofCalls calls) with framePropertiesClosing := false }

/-- Calls that were checked leave the invariant. -/
theorem balanced_afterCalls {calls : List ClipOp} {n : ℕ}
    (hsafe : safeFor n (ofCalls calls) = true) :
    (afterCalls n calls).Balanced 0 ∧ (afterCalls n calls).Typed := by
  obtain ⟨h, htyped⟩ := balanced_ofCalls hsafe
  exact ⟨{ h with }, { htyped with }⟩

/-- Two frames that share properties. One holds a clip that holds both frames, and whose
destructor writes other properties and makes frames. -/
def nested : Shutdown := afterCalls 16 [
  .newVideoFrame 64,
  .newVideoFrame 128,
  .propSetNewClip 4 "k" [.frame 4, .frame 1]
    [.propSet 4 "j" .frame (.frame 1) .append, .subframe 4, .newVideoFrame 64] .replace,
  .propSetNewClip 1 "a" [.frame 4] [.propSet 4 "k" .int .plain .append] .replace,
  .copyFrameProps 4 1,
  .keep (.frame 1)]

/-- The destructor of a frame's property writes that property, while it is being replaced by
the destructor of another frame's property. -/
def replacedTwice : Shutdown := afterCalls 8 [
  .newVideoFrame 64,
  .newVideoFrame 128,
  .propSetNewClip 4 "k" [.frame 4, .frame 1] [.propSet 4 "k" .frame (.frame 1) .replace] .replace,
  .propSetNewClip 1 "a" [.frame 4] [.propSet 4 "k" .int .plain .replace] .replace]

end Shutdown

end AviSynth
