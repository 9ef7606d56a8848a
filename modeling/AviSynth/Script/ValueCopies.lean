import AviSynth.Script.ValueStore
import Mathlib.Data.List.Nodup
import Mathlib.Order.Nat

/-!
# Copying and destroying values

A copy of a value has blocks of its own and leaves everything else as it is, apart from the
counts of the objects that it refers to. Destroying a value frees its blocks and takes its
references back.
-/

namespace AviSynth

namespace ValueStore

open OwnedLists ValueTree

variable {wide : Bool} {s s' : ValueStore} {blocks blocks' : ℕ → Option ValueBlock} {depth : ℕ}
  {c : ValueCell} {t : ValueTree} {ts : List ValueTree} {cells : List ValueCell} {owned : List ℕ}
  {p q : ℕ} {count : ValueObject → ℕ}
  {assign : ValueStore → ValueLoc → ValueLoc → Option ValueStore} {type : AvsValueType}
  {arraySize : ℤ} {new : List ℕ} {bits : ℕ} {count' : ValueObject → ℕ}

/-! ### Values and their blocks -/

/-- A leaf depends on its own blocks. -/
theorem HoldsLeaf.frame (h : HoldsLeaf wide blocks c type arraySize bits owned)
    (hsame : ∀ p ∈ owned, blocks' p = blocks p) :
    HoldsLeaf wide blocks' c type arraySize bits owned := by
  obtain ⟨htype, hne, hsize, hcontents⟩ := h
  refine ⟨htype, hne, hsize, ?_⟩
  split_ifs at hcontents ⊢
  · obtain ⟨hword, hblock, rfl⟩ := hcontents
    exact ⟨hword, (hsame _ List.mem_cons_self).trans hblock, rfl⟩
  · exact hcontents

/-- A value only depends on the blocks that it owns. -/
theorem Holds.frame (h : Holds wide blocks depth c t owned)
    (hsame : ∀ p ∈ owned, blocks' p = blocks p) : Holds wide blocks' depth c t owned := by
  induction depth generalizing c t owned with
  | zero =>
    cases t with
    | leaf type arraySize bits => exact HoldsLeaf.frame h hsame
    | array ts => exact h.elim
  | succ depth ih =>
    cases t with
    | leaf type arraySize bits => exact HoldsLeaf.frame h hsame
    | array ts =>
      obtain ⟨htype, hword, cells, ps, hblock, hsize, hcells, rfl⟩ := h
      refine ⟨htype, hword, cells, ps, (hsame _ List.mem_cons_self).trans hblock, hsize, ?_, rfl⟩
      exact hcells.mono fun c t qs hqs hc =>
        ih hc fun p hp => hsame p (List.mem_cons_of_mem _ (hqs p hp))

/-- So do several cells, on theirs. -/
theorem together_frame (h : Together (Holds wide blocks depth) cells ts owned)
    (hsame : ∀ p ∈ owned, blocks' p = blocks p) :
    Together (Holds wide blocks' depth) cells ts owned :=
  h.mono fun _ _ _ hqs hc => hc.frame fun p hp => hsame p (hqs p hp)

/-- A value may be nested less deeply. -/
theorem Holds.mono {depth' : ℕ} (h : Holds wide blocks depth c t owned) (hle : depth ≤ depth') :
    Holds wide blocks depth' c t owned := by
  induction depth generalizing c t owned depth' with
  | zero =>
    cases t with
    | leaf type arraySize bits => exact holds_leaf.mpr h
    | array ts => exact h.elim
  | succ depth ih =>
    cases t with
    | leaf type arraySize bits => exact holds_leaf.mpr h
    | array ts =>
      obtain ⟨depth', rfl⟩ : ∃ n, depth' = n + 1 := ⟨depth' - 1, by omega⟩
      obtain ⟨htype, hword, cells, ps, hblock, hsize, hcells, rfl⟩ := h
      refine ⟨htype, hword, cells, ps, hblock, hsize, ?_, rfl⟩
      exact hcells.mono fun c t qs _ hc => ih hc (by omega)

/-- What is not an array owns none. -/
theorem HoldsLeaf.not_array (h : HoldsLeaf wide blocks c type arraySize bits owned)
    (hp : p ∈ owned) :
    blocks p ≠ some (.array cells) := by
  obtain ⟨-, -, -, hcontents⟩ := h
  split_ifs at hcontents
  · obtain ⟨-, hblock, rfl⟩ := hcontents
    rw [List.mem_singleton.mp hp, hblock]
    simp
  · rw [hcontents.2] at hp
    exact absurd hp List.not_mem_nil

theorem HoldsLeaf.live (h : HoldsLeaf wide blocks c type arraySize bits owned) (hp : p ∈ owned) :
    blocks p ≠ none := by
  obtain ⟨-, -, -, hcontents⟩ := h
  split_ifs at hcontents
  · obtain ⟨-, hblock, rfl⟩ := hcontents
    rw [List.mem_singleton.mp hp, hblock]
    exact Option.some_ne_none _
  · rw [hcontents.2] at hp
    exact absurd hp List.not_mem_nil

/-- A value owns blocks that are there. -/
theorem Holds.live (h : Holds wide blocks depth c t owned) (hp : p ∈ owned) :
    blocks p ≠ none := by
  induction depth generalizing c t owned with
  | zero =>
    cases t with
    | leaf type arraySize bits => exact HoldsLeaf.live h hp
    | array ts => exact h.elim
  | succ depth ih =>
    cases t with
    | leaf type arraySize bits => exact HoldsLeaf.live h hp
    | array ts =>
      obtain ⟨-, -, cells, ps, hblock, -, hcells, rfl⟩ := h
      rcases List.mem_cons.mp hp with rfl | hp
      · rw [hblock]
        exact Option.some_ne_none _
      · obtain ⟨i, c, t, qs, -, -, hc, hpq, -⟩ := hcells.exists_of_mem hp
        exact ih hc hpq

/-- An element of an array that a value owns is a value, with blocks and references that are
among those of the whole value. -/
theorem Holds.element (h : Holds wide blocks depth c t owned) (hp : p ∈ owned)
    (hcells : blocks p = some (.array cells)) {i : ℕ} {c' : ValueCell} (hi : cells[i]? = some c') :
    ∃ t' ps, Holds wide blocks depth c' t' ps ∧ (∀ q ∈ ps, q ∈ owned) ∧
      ∀ o, t'.refs o ≤ t.refs o := by
  induction depth generalizing c t owned with
  | zero =>
    cases t with
    | leaf type arraySize bits => exact absurd hcells (HoldsLeaf.not_array h hp)
    | array ts => exact h.elim
  | succ depth ih =>
    cases t with
    | leaf type arraySize bits => exact absurd hcells (HoldsLeaf.not_array h hp)
    | array ts =>
      obtain ⟨-, -, cells', ps, hblock, -, helements, rfl⟩ := h
      rcases List.mem_cons.mp hp with rfl | hp
      · obtain rfl : cells' = cells := by simpa [hblock] using hcells
        obtain ⟨t', before, qs, after, ht', rfl, hc', -⟩ := helements.focus hi
        refine ⟨t', qs, hc'.mono (Nat.le_succ depth), ?_, fun o => ?_⟩
        · intro q hq
          simp [hq]
        · rw [ValueTree.refs]
          exact refs_le_refsOfList o ht'
      · obtain ⟨j, d, u, qs, -, hu, hd, hpq, hqs⟩ := helements.exists_of_mem hp
        obtain ⟨t', rs, ht', hrs, hrefs⟩ := ih hd hpq
        refine ⟨t', rs, ht'.mono (Nat.le_succ depth), ?_, fun o => ?_⟩
        · exact fun q hq => List.mem_cons_of_mem _ (hqs q (hrs q hq))
        · rw [ValueTree.refs]
          exact Nat.le_trans (hrefs o) (refs_le_refsOfList o hu)

/-! ### Copies -/

/-- Addresses that `new` has not returned yet are not in use. -/
structure Fresh (s : ValueStore) : Prop where
  unused : ∀ p, s.next ≤ p → s.blocks p = none
  pos : 0 < s.next

theorem Fresh.lt_next (h : s.Fresh) (hp : s.blocks p ≠ none) : p < s.next := by
  by_contra hnot
  exact hp (h.unused p (by omega))

/-- The store has grown by the blocks `new`, each once, and references to the objects; the block
`q` may have changed. -/
structure Grown (s s' : ValueStore) (q : ℕ) (count : ValueObject → ℕ) (new : List ℕ) : Prop where
  vars : s'.vars = s.vars
  next_le : s.next ≤ s'.next
  same : ∀ p, p < s.next → p ≠ q → s'.blocks p = s.blocks p
  range : ∀ p ∈ new, s.next ≤ p ∧ p < s'.next
  nodup : new.Nodup
  fresh : s'.Fresh
  covered : ∀ p, s.next ≤ p → s'.blocks p ≠ none → p ∈ new
  refs : ∀ o, s'.refs o = s.refs o + count o

theorem Grown.refl (h : s.Fresh) (q : ℕ) : Grown s s q (fun _ => 0) [] where
  vars := rfl
  next_le := Nat.le_refl _
  same _ _ _ := rfl
  range _ hp := absurd hp List.not_mem_nil
  nodup := List.nodup_nil
  fresh := h
  covered _ hp hlive := absurd (h.unused _ hp) hlive
  refs _ := rfl

/-- One growth after another. -/
theorem Grown.trans {s'' : ValueStore} {new new' : List ℕ} (h : Grown s s' q count new)
    (h' : Grown s' s'' q count' new') (hq : q < s.next) :
    Grown s s'' q (fun o => count o + count' o) (new ++ new') where
  vars := h'.vars.trans h.vars
  next_le := Nat.le_trans h.next_le h'.next_le
  same p hp hne := (h'.same p (Nat.lt_of_lt_of_le hp h.next_le) hne).trans (h.same p hp hne)
  range p hp := by
    have hle := h.next_le
    have hle' := h'.next_le
    rcases List.mem_append.mp hp with hp | hp
    · have hrange := h.range p hp
      omega
    · have hrange := h'.range p hp
      omega
  nodup := by
    refine List.nodup_append.mpr ⟨h.nodup, h'.nodup, fun p hp p' hp' heq => ?_⟩
    have hrange := h.range p hp
    have hrange' := h'.range p' hp'
    omega
  fresh := h'.fresh
  covered p hp hlive := by
    by_cases hnew : s'.next ≤ p
    · exact List.mem_append_right _ (h'.covered p hnew hlive)
    · rw [h'.same p (by omega) (by omega)] at hlive
      exact List.mem_append_left _ (h.covered p hp hlive)
  refs o := by
    rw [h'.refs, h.refs]
    omega

/-- What is not in the changed block is still there. -/
theorem Grown.read {loc : ValueLoc}
    (h : Grown s s' q count new) (hs : s.Fresh) (hc : s.read loc = some c)
    (hloc : ∀ i, loc ≠ .elem q i) : s'.read loc = some c := by
  cases loc with
  | var x =>
    rw [ValueStore.read, h.vars]
    exact hc
  | elem p i =>
    have hne : p ≠ q := fun heq => hloc i (by rw [heq])
    have hlive : s.blocks p ≠ none := by
      intro hnone
      rw [ValueStore.read, hnone] at hc
      contradiction
    rw [ValueStore.read, h.same p (hs.lt_next hlive) hne]
    exact hc

/-- Values outside of the changed block are still what they were. -/
theorem Grown.holds (h : Grown s s' q count new) (hs : s.Fresh)
    (hc : Holds wide s.blocks depth c t owned) (hq : q ∉ owned) :
    Holds wide s'.blocks depth c t owned :=
  hc.frame fun p hp => h.same p (hs.lt_next (hc.live hp)) fun heq => hq (heq ▸ hp)

/-- What an assignment to the element of a new array is expected to do: the element gets a value
of its own that is the same tree. -/
def Copies (wide : Bool) (depth : ℕ)
    (assign : ValueStore → ValueLoc → ValueLoc → Option ValueStore) : Prop :=
  ∀ (s : ValueStore) (q i : ℕ) (src : ValueLoc) (cells : List ValueCell) (c : ValueCell)
    (t : ValueTree) (owned : List ℕ), s.Fresh → s.blocks q = some (.array cells) →
    i < cells.length → s.read src = some c → (∀ j, src ≠ .elem q j) →
    Holds wide s.blocks depth c t owned → q ∉ owned → (∀ o, t.refs o ≤ s.refs o) →
    ∃ s' c' new, assign s (.elem q i) src = some s' ∧
      s'.blocks q = some (.array (cells.set i c')) ∧ Holds wide s'.blocks depth c' t new ∧
      Grown s s' q (fun o => t.refs o) new

/-- The elements of an array are copied one after another. -/
theorem copyElements_spec (hassign : Copies wide depth assign) {tmp : ℕ} {src : ValueLoc}
    {v : ValueCell} (hsrctmp : ∀ j, src ≠ .elem tmp j) (hne : v.word ≠ tmp)
    (rest : List ValueCell) :
    ∀ (s : ValueStore) (i : ℕ) (before copied blank : List ValueCell) (ts : List ValueTree)
      (owned : List ℕ), s.Fresh → s.read src = some v →
      s.blocks v.word = some (.array (before ++ rest)) → before.length = i →
      s.blocks tmp = some (.array (copied ++ blank)) → copied.length = i →
      blank.length = rest.length → Together (Holds wide s.blocks depth) rest ts owned →
      tmp ∉ owned → (∀ o, refsOfList o ts ≤ s.refs o) →
      ∃ s' copies new, copyElements assign tmp src rest.length i s = some s' ∧
        s'.blocks tmp = some (.array (copied ++ copies)) ∧
        Together (Holds wide s'.blocks depth) copies ts new ∧
        Grown s s' tmp (fun o => refsOfList o ts) new := by
  induction rest with
  | nil =>
    intro s i before copied blank ts owned hs hsrc hv hbefore htmp hcopied hblank hrest _ _
    cases hrest
    obtain rfl : blank = [] := List.eq_nil_of_length_eq_zero hblank
    exact ⟨s, [], [], rfl, htmp, .nil, Grown.refl hs tmp⟩
  | cons x rest ih =>
    intro s i before copied blank ts owned hs hsrc hv hbefore htmp hcopied hblank hrest howned hrefs
    cases hrest with
    | @cons _ u ps _ us qs hx hrest =>
    obtain ⟨b, blank, rfl⟩ : ∃ b bs, blank = b :: bs := List.exists_cons_of_length_eq_add_one hblank
    have hread : s.read (.elem v.word i) = some x := by
      simp [ValueStore.read, hv, ← hbefore]
    have hrefs' : ∀ o, u.refs o + refsOfList o us ≤ s.refs o := hrefs
    have htmplt : tmp < s.next := hs.lt_next (by rw [htmp]; exact Option.some_ne_none _)
    have hvlt : v.word < s.next := hs.lt_next (by rw [hv]; exact Option.some_ne_none _)
    obtain ⟨s₁, c₁, new₁, hassigned, htmp₁, hc₁, hgrown₁⟩ :=
      hassign s tmp i (.elem v.word i) _ x u ps hs htmp (by simp [hcopied]) hread
        (fun j heq => hne (ValueLoc.elem.inj heq).1) hx
        (fun hin => howned (List.mem_append_left _ hin)) fun o => by
          have hle := hrefs' o
          omega
    have htmp₁' : s₁.blocks tmp = some (.array ((copied ++ [c₁]) ++ blank)) := by
      rw [htmp₁, ← hcopied]
      simp
    obtain ⟨s', copies, new, hcopies, htmp', hrest', hgrown⟩ :=
      ih s₁ (i + 1) (before ++ [x]) (copied ++ [c₁]) blank us qs hgrown₁.fresh
        (hgrown₁.read hs hsrc hsrctmp) (by rw [hgrown₁.same _ hvlt hne, hv]; simp)
        (by simp [hbefore]) htmp₁' (by simp [hcopied]) (by simpa using hblank)
        (hrest.mono fun c t rs hrs hc => hgrown₁.holds hs hc fun hin =>
          howned (List.mem_append_right _ (hrs _ hin)))
        (fun hin => howned (List.mem_append_right _ hin)) fun o => by
          have hle := hrefs' o
          rw [hgrown₁.refs]
          omega
    refine ⟨s', c₁ :: copies, new₁ ++ new, ?_, ?_, .cons ?_ hrest', hgrown₁.trans hgrown htmplt⟩
    · rw [List.length_cons, copyElements, hsrc, Option.bind_some, hassigned, Option.bind_some]
      exact hcopies
    · rw [htmp']
      simp
    · refine hgrown.holds hgrown₁.fresh hc₁ fun hin => ?_
      have hrange := hgrown₁.range tmp hin
      omega

/-- A reference is added to what has one. -/
theorem addRef_spec (s : ValueStore) (obj : Option ValueObject)
    (h : ∀ o, obj = some o → s.refs o ≠ 0) :
    ∃ counts, s.addRef obj = some { s with refs := counts } ∧
      ∀ o, counts o = s.refs o + if obj = some o then 1 else 0 := by
  cases obj with
  | none => exact ⟨s.refs, rfl, fun o => by simp⟩
  | some o₀ =>
    refine ⟨_, by rw [addRef, if_neg (h o₀ rfl)], fun o => ?_⟩
    by_cases heq : o = o₀
    · subst heq
      simp
    · rw [Function.update_of_ne heq, if_neg fun hsome => heq (Option.some_inj.mp hsome).symm]
      rfl

theorem write_elem (h : s.blocks q = some (.array cells)) (c : ValueCell) (i : ℕ) :
    s.write c (.elem q i) =
      { s with blocks := Function.update s.blocks q (some (.array (cells.set i c))) } := by
  simp only [write, h]

/-- What is not an array is counted where it refers to. -/
theorem HoldsLeaf.refs_eq (h : HoldsLeaf wide blocks c type arraySize bits owned)
    (o : ValueObject) :
    ValueTree.refs o (.leaf type arraySize bits) = if c.object = some o then 1 else 0 := by
  obtain ⟨htype, -, -, hcontents⟩ := h
  rw [ValueTree.refs, ValueCell.object, htype]
  split_ifs at hcontents with hboxed
  · have hnone : ∀ word, ValueObject.of type word = none := by
      intro word
      rw [← htype]
      rcases hboxed.2 with hlong | hdouble
      · simp [ValueObject.of, hlong]
      · simp [ValueObject.of, hdouble]
    rw [hnone, hnone]
  · rw [hcontents.1]

/-- A value that refers to an object is counted. -/
theorem Holds.refs_object (h : Holds wide blocks depth c t owned) {o : ValueObject}
    (ho : c.object = some o) : 1 ≤ t.refs o := by
  cases t with
  | leaf type arraySize bits =>
    rw [(holds_leaf.mp h).refs_eq, if_pos ho]
  | array ts =>
    cases depth with
    | zero => exact h.elim
    | succ depth =>
      rw [ValueCell.object, h.1] at ho
      simp [ValueObject.of] at ho

theorem blocks_newBlock_self (s : ValueStore) (b : ValueBlock) :
    (s.newBlock b).blocks s.next = some b := Function.update_self _ _ _

theorem blocks_newBlock_ne (b : ValueBlock) (h : p ≠ s.next) :
    (s.newBlock b).blocks p = s.blocks p := Function.update_of_ne h _ _

/-- A new block. -/
theorem grown_newBlock (hs : s.Fresh) (b : ValueBlock) (q : ℕ) :
    Grown s (s.newBlock b) q (fun _ => 0) [s.next] where
  vars := rfl
  next_le := Nat.le_succ _
  same p hp _ := blocks_newBlock_ne b hp.ne
  range p hp := by
    rw [List.mem_singleton.mp hp]
    exact ⟨Nat.le_refl _, Nat.lt_succ_self _⟩
  nodup := List.nodup_singleton _
  fresh := by
    refine ⟨fun p hp => ?_, Nat.succ_pos _⟩
    have hlt : s.next < p := hp
    rw [blocks_newBlock_ne b hlt.ne']
    exact hs.unused p hlt.le
  covered p hp hlive := by
    by_cases heq : p = s.next
    · exact List.mem_singleton.mpr heq
    · rw [blocks_newBlock_ne b heq] at hlive
      exact absurd (hs.unused p hp) hlive
  refs _ := rfl

/-- What grows from a new block has grown with it. -/
theorem Grown.of_newBlock {b : ValueBlock} (h : Grown (s.newBlock b) s' s.next count new) :
    Grown s s' s.next count (s.next :: new) where
  vars := h.vars
  next_le := Nat.le_of_succ_le h.next_le
  same p hp hne := (h.same p (Nat.lt_succ_of_lt hp) hne).trans (blocks_newBlock_ne b hne)
  range p hp := by
    have hle : s.next + 1 ≤ s'.next := h.next_le
    rcases List.mem_cons.mp hp with rfl | hp
    · omega
    · have hrange : s.next + 1 ≤ p ∧ p < s'.next := h.range p hp
      omega
  nodup := by
    refine List.nodup_cons.mpr ⟨fun hin => ?_, h.nodup⟩
    have hrange : s.next + 1 ≤ s.next ∧ s.next < s'.next := h.range s.next hin
    omega
  fresh := h.fresh
  covered p hp hlive := by
    by_cases heq : p = s.next
    · exact heq ▸ List.mem_cons_self
    · exact List.mem_cons_of_mem _ (h.covered p (Nat.lt_of_le_of_ne hp (Ne.symm heq)) hlive)
  refs := h.refs

/-- The contents of the source are copied to new blocks. -/
theorem takeContents_spec {this src : ValueLoc} {target : ValueCell}
    (hassign : ∀ d, depth = d + 1 → Copies wide d assign) (hs : s.Fresh)
    (hsrc : s.read src = some c) (hthis : s.read this = some target) (htype : target.type = c.type)
    (hsize : target.arraySize = c.arraySize) (hc : Holds wide s.blocks depth c t owned)
    (hrefs : ∀ o, t.refs o ≤ s.refs o) :
    ∃ s' word new count, s.takeContents wide assign this src false = s'.setWord this word ∧
      Grown s s' s.next count new ∧ Holds wide s'.blocks depth { target with word := word } t new ∧
      ∀ o, t.refs o = count o + if c.object = some o then 1 else 0 := by
  have hlive : ∀ p i, src = .elem p i → p < s.next := by
    rintro p i rfl
    refine hs.lt_next fun hnone => ?_
    simp [read, hnone] at hsrc
  cases t with
  | leaf type arraySize bits =>
    obtain ⟨hctype, hne, hcsize, hcontents⟩ := holds_leaf.mp hc
    have hplain : ¬(c.type = .array ∧ false = false) := fun h => hne h.1
    by_cases hboxed : boxed wide c.type
    · rw [if_pos hboxed] at hcontents
      obtain ⟨hword, hblock, -⟩ := hcontents
      refine ⟨s.newBlock (.number bits), s.next, [s.next], fun _ => 0, ?_,
        grown_newBlock hs _ _, holds_leaf.mpr ⟨htype.trans hctype, ?_, hsize.trans hcsize, ?_⟩,
        fun o => by rw [(holds_leaf.mp hc).refs_eq, Nat.zero_add]⟩
      · rw [takeContents, hsrc, Option.bind_some, hthis, Option.bind_some, if_neg hplain,
          if_pos (by rwa [htype]), hblock]
      · rwa [← htype] at hne
      · rw [if_pos (by rwa [htype])]
        exact ⟨hs.pos.ne', blocks_newBlock_self s _, rfl⟩
    · rw [if_neg hboxed] at hcontents
      refine ⟨s, c.word, [], fun _ => 0, ?_, Grown.refl hs _,
        holds_leaf.mpr ⟨htype.trans hctype, ?_, hsize.trans hcsize, ?_⟩,
        fun o => by rw [(holds_leaf.mp hc).refs_eq, Nat.zero_add]⟩
      · rw [takeContents, hsrc, Option.bind_some, hthis, Option.bind_some, if_neg hplain,
          if_neg (by rwa [htype])]
      · rwa [← htype] at hne
      · rw [if_neg (by rwa [htype])]
        exact ⟨hcontents.1, rfl⟩
  | array ts =>
    cases depth with
    | zero => exact hc.elim
    | succ depth =>
      obtain ⟨hctype, hword, cells, ps, hblock, hcsize, hcells, rfl⟩ := hc
      have hwordlt : c.word < s.next := hs.lt_next (by rw [hblock]; exact Option.some_ne_none _)
      have hnew := grown_newBlock hs (.array (List.replicate cells.length .undefined)) s.next
      have hps : ∀ p ∈ ps, p < s.next := by
        intro p hp
        obtain ⟨i, d, u, qs, -, -, hd, hpq, -⟩ := hcells.exists_of_mem hp
        exact hs.lt_next (hd.live hpq)
      have hsrcne : ∀ j, src ≠ .elem s.next j := fun j heq => Nat.lt_irrefl _ (hlive _ _ heq)
      generalize hblank : List.replicate cells.length ValueCell.undefined = blank at hnew
      have hsrcNew : (s.newBlock (.array blank)).read src = some c := by
        cases src with
        | var x => exact hsrc
        | elem p i =>
          rw [read, blocks_newBlock_ne _ (hlive p i rfl).ne]
          exact hsrc
      have hcellsNew : (s.newBlock (.array blank)).blocks c.word = some (.array ([] ++ cells)) := by
        rw [blocks_newBlock_ne _ hwordlt.ne, hblock, List.nil_append]
      have htmpNew : (s.newBlock (.array blank)).blocks s.next = some (.array ([] ++ blank)) := by
        rw [blocks_newBlock_self, List.nil_append]
      have hlength : blank.length = cells.length := by rw [← hblank, List.length_replicate]
      have hheldNew := together_frame hcells fun p hp =>
        blocks_newBlock_ne (.array blank) (hps p hp).ne
      obtain ⟨s', copies, new, hcopies, htmp, hheld, hgrown⟩ :=
        copyElements_spec (hassign depth rfl) hsrcne hwordlt.ne cells _ 0 [] [] blank ts ps
          hnew.fresh hsrcNew hcellsNew rfl htmpNew rfl hlength hheldNew
          (fun hin => Nat.lt_irrefl _ (hps _ hin)) hrefs
      refine ⟨s', s.next, s.next :: new, fun o => refsOfList o ts, ?_, hgrown.of_newBlock, ?_, ?_⟩
      · have hnonneg : ¬target.arraySize < 0 := by omega
        have hcount : target.arraySize.toNat = cells.length := by omega
        rw [takeContents, hsrc, Option.bind_some, hthis, Option.bind_some, if_pos ⟨hctype, rfl⟩,
          if_neg hnonneg]
        dsimp only
        rw [hcount, hblank, hcopies, Option.bind_some]
      · refine ⟨htype.trans hctype, hs.pos.ne', copies, new, htmp, ?_, hheld, rfl⟩
        rw [hsize, hcsize, hcells.length_eq, hheld.length_eq]
      · intro o
        rw [ValueTree.refs, ValueCell.object, hctype]
        simp [ValueObject.of]

/-- Only the block `q` and counts are changed. -/
theorem grown_update (hs : s.Fresh) (hq : q < s.next) (b : ValueBlock)
    {counts count : ValueObject → ℕ} (hcounts : ∀ o, counts o = s.refs o + count o) :
    Grown s { s with blocks := Function.update s.blocks q (some b), refs := counts } q count
      [] where
  vars := rfl
  next_le := Nat.le_refl _
  same _ _ hne := Function.update_of_ne hne _ _
  range _ hp := absurd hp List.not_mem_nil
  nodup := List.nodup_nil
  fresh := by
    refine ⟨fun p hp => ?_, hs.pos⟩
    have hle : s.next ≤ p := hp
    have hne : p ≠ q := by omega
    exact (Function.update_of_ne hne _ _).trans (hs.unused p hp)
  covered p hp hlive := by
    have hne : p ≠ q := by omega
    exact absurd ((Function.update_of_ne hne _ _).trans (hs.unused p hp)) hlive
  refs := hcounts

/-- Where nothing has changed, a block may have changed. -/
theorem Grown.weaken (h : Grown s s' s.next count new) (q : ℕ) : Grown s s' q count new :=
  { h with same := fun p hp _ => h.same p hp hp.ne }

/-- Initializing an element of a new array from a value gives it a copy of the value, if this is
so for the elements of the value. -/
theorem copies_step {fuel : ℕ}
    (hassign : ∀ d, depth = d + 1 →
      Copies wide d fun s this src => assign2 wide fuel s this src true false) :
    Copies wide depth fun s this src => assign2 wide (fuel + 1) s this src true false := by
  intro s q i src cells c t owned hs hq hi hsrc hne hc hqowned hrefs
  have hqlt : q < s.next := hs.lt_next (by rw [hq]; exact Option.some_ne_none _)
  obtain ⟨counts, hadd, hcounts⟩ := addRef_spec s c.object fun o ho => by
    have hone := hc.refs_object ho
    have hle := hrefs o
    omega
  have hthis : ({ s with refs := counts } : ValueStore).read (.elem q i) = some cells[i] := by
    simp [read, hq, hi]
  -- type and size are copied
  let target : ValueCell := { cells[i] with type := c.type, arraySize := c.arraySize }
  have hfirst := grown_update hs hqlt (.array (cells.set i target)) hcounts
  have hwrite := write_elem (s := { s with refs := counts }) hq target i
  dsimp only at hwrite
  generalize hs₂ : ({ s with
    blocks := Function.update s.blocks q (some (.array (cells.set i target))), refs := counts } :
      ValueStore) = s₂ at hfirst hwrite
  have hq₂ : s₂.blocks q = some (.array (cells.set i target)) := by
    rw [← hs₂]
    exact Function.update_self _ _ _
  have hq₂lt : q < s₂.next := hfirst.fresh.lt_next (by rw [hq₂]; exact Option.some_ne_none _)
  have hthis₂ : s₂.read (.elem q i) = some target := by
    simp [read, hq₂, hi]
  -- the contents are copied
  obtain ⟨s₃, word, new, count, htake, hgrown, hheld, hcount⟩ :=
    takeContents_spec hassign hfirst.fresh (hfirst.read hs hsrc hne) hthis₂ rfl rfl
      (hfirst.holds hs hc hqowned) fun o => by
        rw [hfirst.refs]
        exact Nat.le_add_right_of_le (hrefs o)
  have hthis₃ : s₃.read (.elem q i) = some target :=
    hgrown.read hfirst.fresh hthis₂ fun j heq => by
      have heq' := (ValueLoc.elem.inj heq).1
      omega
  have hq₃ : s₃.blocks q = some (.array (cells.set i target)) := by
    rw [hgrown.same q hq₂lt hq₂lt.ne, hq₂]
  have hq₃lt : q < s₃.next := lt_of_lt_of_le hq₂lt hgrown.next_le
  have hqnew : q ∉ new := fun hin => by
    have hrange := hgrown.range q hin
    omega
  have hlast := grown_update hgrown.fresh hq₃lt
    (.array (cells.set i { target with word := word })) (fun o => (Nat.add_zero (s₃.refs o)).symm)
  have hset : s₃.setWord (.elem q i) word = some { s₃ with
      blocks := Function.update s₃.blocks q
        (some (.array (cells.set i { target with word := word }))) } := by
    rw [setWord, hthis₃, Option.map_some, write_elem hq₃, List.set_set]
  have htotal := (hfirst.trans ((hgrown.weaken q).trans hlast hq₂lt) hqlt)
  refine ⟨_, { target with word := word }, new, ?_, ?_, hlast.holds hgrown.fresh hheld hqnew, ?_⟩
  · dsimp only
    rw [assign2, hsrc, Option.bind_some, hadd, Option.bind_some, hthis, Option.bind_some]
    dsimp only
    rw [hwrite, htake, hset, Option.bind_some, if_pos rfl]
  · exact Function.update_self _ _ _
  · rw [List.nil_append, List.append_nil] at htotal
    refine { htotal with refs := fun o => ?_ }
    rw [htotal.refs, hcount]
    omega

/-- Initializing an element of a new array from a value gives it a copy of the value. -/
theorem copies_assign2 (wide : Bool) {fuel : ℕ} (hfuel : depth < fuel) :
    Copies wide depth fun s this src => assign2 wide fuel s this src true false := by
  induction depth generalizing fuel with
  | zero =>
    obtain ⟨fuel, rfl⟩ : ∃ n, fuel = n + 1 := ⟨fuel - 1, by omega⟩
    exact copies_step fun d hd => absurd hd (by omega)
  | succ depth ih =>
    obtain ⟨fuel, rfl⟩ : ∃ n, fuel = n + 1 := ⟨fuel - 1, by omega⟩
    refine copies_step fun d hd => ?_
    obtain rfl : depth = d := by omega
    exact ih (by omega)

/-! ### Destruction -/

/-- The store has lost the blocks and references to the objects. -/
structure Shrunk (s s' : ValueStore) (count : ValueObject → ℕ) (lost : List ℕ) : Prop where
  vars : s'.vars = s.vars
  next : s'.next = s.next
  gone : ∀ p ∈ lost, s'.blocks p = none
  same : ∀ p, p ∉ lost → s'.blocks p = s.blocks p
  refs : ∀ o, s'.refs o + count o = s.refs o

/-- One release after another. -/
theorem Shrunk.trans {s'' : ValueStore} {lost lost' : List ℕ} (h : Shrunk s s' count lost)
    (h' : Shrunk s' s'' count' lost') :
    Shrunk s s'' (fun o => count o + count' o) (lost ++ lost') where
  vars := h'.vars.trans h.vars
  next := h'.next.trans h.next
  gone p hp := by
    by_cases hp' : p ∈ lost'
    · exact h'.gone p hp'
    · rw [h'.same p hp']
      exact h.gone p ((List.mem_append.mp hp).resolve_right hp')
  same p hp := by
    rw [List.mem_append, not_or] at hp
    rw [h'.same p hp.2, h.same p hp.1]
  refs o := by
    rw [← h.refs, ← h'.refs]
    omega

/-- What lies apart is not touched. -/
theorem Shrunk.holds {lost : List ℕ} (h : Shrunk s s' count lost)
    (hc : Holds wide s.blocks depth c t owned) (hapart : ∀ p ∈ owned, p ∉ lost) :
    Holds wide s'.blocks depth c t owned :=
  hc.frame fun p hp => h.same p (hapart p hp)

/-- A reference is given back. -/
theorem release_spec (s : ValueStore) (obj : Option ValueObject)
    (h : ∀ o, obj = some o → s.refs o ≠ 0) :
    ∃ s', s.release obj = some s' ∧
      Shrunk s s' (fun o => if obj = some o then 1 else 0) [] := by
  cases obj with
  | none => exact ⟨s, rfl, rfl, rfl, by simp, fun _ _ => rfl, fun o => by simp⟩
  | some o₀ =>
    have hone := h o₀ rfl
    refine ⟨{ s with refs := Function.update s.refs o₀ (s.refs o₀ - 1) },
      by rw [release, if_neg hone], rfl, rfl, by simp, fun _ _ => rfl, fun o => ?_⟩
    by_cases heq : o = o₀
    · subst heq
      simp only [Function.update_self, if_true]
      omega
    · simp only [Function.update_of_ne heq, Option.some_inj]
      rw [if_neg fun hsame => heq hsame.symm, Nat.add_zero]

/-- A block is freed. -/
theorem shrunk_free (s : ValueStore) (p : ℕ) : Shrunk s (s.free p) (fun _ => 0) [p] where
  vars := rfl
  next := rfl
  gone q hq := by
    rw [List.mem_singleton.mp hq]
    exact Function.update_self _ _ _
  same q hq := Function.update_of_ne (fun heq => hq (List.mem_singleton.mpr heq)) _ _
  refs _ := rfl

/-- What the destruction of a value is expected to do: its blocks and references are gone. -/
def Destroys (wide : Bool) (depth : ℕ) (destroy : ValueCell → ValueStore → Option ValueStore) :
    Prop :=
  ∀ (s : ValueStore) (c : ValueCell) (t : ValueTree) (owned : List ℕ),
    Holds wide s.blocks depth c t owned → owned.Nodup → (∀ o, t.refs o ≤ s.refs o) →
    ∃ s', destroy c s = some s' ∧ Shrunk s s' (fun o => t.refs o) owned

/-- The elements of an array are destroyed one after another. -/
theorem destroyAll_spec {destroy : ValueCell → ValueStore → Option ValueStore}
    (hdestroy : Destroys wide depth destroy)
    (h : Together (Holds wide s.blocks depth) cells ts owned) (hnodup : owned.Nodup)
    (hrefs : ∀ o, refsOfList o ts ≤ s.refs o) :
    ∃ s', destroyAll destroy cells s = some s' ∧ Shrunk s s' (fun o => refsOfList o ts) owned := by
  induction h with
  | nil => exact ⟨s, rfl, rfl, rfl, by simp, fun _ _ => rfl, fun _ => rfl⟩
  | @cons x u ps xs us qs hx hxs ih =>
    obtain ⟨hps, hqs, hapart⟩ := List.nodup_append.mp hnodup
    have hrefs' : ∀ o, u.refs o + refsOfList o us ≤ s.refs o := hrefs
    obtain ⟨s₁, hrest, hshrunk⟩ := ih hqs fun o => by
      have hle := hrefs' o
      omega
    obtain ⟨s', hfirst, hshrunk'⟩ := hdestroy s₁ x u ps
      (hshrunk.holds hx fun p hp hq => hapart p hp p hq rfl) hps fun o => by
        have hle := hrefs' o
        have hless := hshrunk.refs o
        omega
    refine ⟨s', by rw [destroyAll, hrest, Option.bind_some, hfirst], ?_⟩
    have hboth := hshrunk.trans hshrunk'
    exact {
      vars := hboth.vars
      next := hboth.next
      gone := fun p hp => hboth.gone p (List.mem_append.mpr (List.mem_append.mp hp).symm)
      same := fun p hp => hboth.same p fun hin =>
        hp (List.mem_append.mpr (List.mem_append.mp hin).symm)
      refs := fun o => by
        have htotal := hboth.refs o
        rw [refsOfList]
        omega }

/-- A value gives up its blocks and references, if its elements do. -/
theorem giveUp_spec {destroy : ValueCell → ValueStore → Option ValueStore}
    (hdestroy : ∀ d, depth = d + 1 → Destroys wide d destroy) :
    Destroys wide depth fun c s => s.giveUp wide destroy c true := by
  intro s c t owned hc hnodup hrefs
  obtain ⟨s₁, hrelease, hreleased⟩ := release_spec s c.object fun o ho => by
    have hone := hc.refs_object ho
    have hle := hrefs o
    omega
  have hc₁ := hreleased.holds hc fun p hp => List.not_mem_nil
  cases t with
  | leaf type arraySize bits =>
    have hcount := (holds_leaf.mp hc).refs_eq
    obtain ⟨hctype, hne, -, hcontents⟩ := holds_leaf.mp hc₁
    by_cases hboxed : boxed wide c.type
    · rw [if_pos hboxed] at hcontents
      obtain ⟨hword, hblock, rfl⟩ := hcontents
      refine ⟨s₁.free c.word, ?_, ?_⟩
      · dsimp only
        rw [giveUp, hrelease, Option.bind_some, if_neg fun h => hne h.1, if_pos ⟨hboxed, hword⟩,
          hblock]
      · have hboth := hreleased.trans (shrunk_free s₁ c.word)
        refine { hboth with refs := fun o => ?_ }
        rw [hcount]
        exact hboth.refs o
    · rw [if_neg hboxed] at hcontents
      obtain ⟨-, rfl⟩ := hcontents
      refine ⟨s₁, ?_, { hreleased with refs := fun o => ?_ }⟩
      · dsimp only
        rw [giveUp, hrelease, Option.bind_some, if_neg fun h => hne h.1, if_neg fun h => hboxed h.1]
      · rw [hcount]
        exact hreleased.refs o
  | array ts =>
    cases depth with
    | zero => exact hc.elim
    | succ depth =>
      obtain ⟨hctype, hword, cells, ps, hblock, hcsize, hcells, rfl⟩ := hc₁
      have hobject : c.object = none := by
        rw [ValueCell.object, hctype]
        simp [ValueObject.of]
      obtain ⟨s₂, hall, hshrunk⟩ := destroyAll_spec (hdestroy depth rfl) hcells
        (List.nodup_cons.mp hnodup).2 fun o => by
          have hle : refsOfList o ts ≤ s.refs o := hrefs o
          have hsame := hreleased.refs o
          simp only [hobject, reduceCtorEq, if_false, Nat.add_zero] at hsame
          omega
      refine ⟨s₂.free c.word, ?_, ?_⟩
      · dsimp only
        rw [giveUp, hrelease, Option.bind_some, if_pos ⟨hctype, hword, rfl⟩, hblock]
        dsimp only
        rw [hall, Option.map_some]
      · have hboth := (hreleased.trans hshrunk).trans (shrunk_free s₂ c.word)
        exact {
          vars := hboth.vars
          next := hboth.next
          gone := fun p hp => hboth.gone p (by simpa [or_comm] using hp)
          same := fun p hp => hboth.same p (by simpa [or_comm] using hp)
          refs := fun o => by
            have htotal := hboth.refs o
            simp only [hobject, reduceCtorEq, if_false, Nat.zero_add, Nat.add_zero] at htotal
            exact htotal }

/-- The destructor, with depth enough. -/
theorem destroys_destroy (wide : Bool) {fuel : ℕ} (hfuel : depth < fuel) :
    Destroys wide depth (destroy wide fuel) := by
  induction depth generalizing fuel with
  | zero =>
    obtain ⟨fuel, rfl⟩ : ∃ n, fuel = n + 1 := ⟨fuel - 1, by omega⟩
    exact giveUp_spec fun d hd => absurd hd (by omega)
  | succ depth ih =>
    obtain ⟨fuel, rfl⟩ : ∃ n, fuel = n + 1 := ⟨fuel - 1, by omega⟩
    refine giveUp_spec fun d hd => ?_
    obtain rfl : depth = d := by omega
    exact ih (by omega)

end ValueStore

end AviSynth
