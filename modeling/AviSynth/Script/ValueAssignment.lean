import AviSynth.Library.Runs
import AviSynth.Script.ValueCopies

/-!
# Assignments between values

An assignment makes the variable a copy of its source, whether this is another variable, the
variable itself or a part of it. The copy is made in new blocks before the old contents are given
up, and the object that the source refers to has got its reference before the target releases its
own.
-/

namespace AviSynth

namespace ValueStore

open OwnedLists ValueTree

variable {wide : Bool} {held : ValueObject → ℕ} {depth x : ℕ} {s : ValueStore}
  {ts : List ValueTree} {owned : List ℕ} {src : ValueLoc} {c : ValueCell}

theorem Represents.isFresh (h : Represents wide held depth s ts owned) : s.Fresh :=
  ⟨h.fresh, h.next_pos⟩

/-- Wherever there is a value, in a variable or in an array, it is a tree. -/
theorem Represents.exists_tree (h : Represents wide held depth s ts owned)
    (hsrc : s.read src = some c) :
    ∃ t ps, Holds wide s.blocks depth c t ps ∧ ∀ o, t.refs o ≤ s.refs o := by
  have hcounted : ∀ o, refsOfList o ts ≤ s.refs o := by
    intro o
    rw [h.refs]
    omega
  cases src with
  | var y =>
    obtain ⟨t, before, ps, after, ht, -, hc, -⟩ := h.holds.focus hsrc
    exact ⟨t, ps, hc, fun o => le_trans (refs_le_refsOfList o ht) (hcounted o)⟩
  | elem p i =>
    rw [read] at hsrc
    split at hsrc
    case h_2 => contradiction
    case h_1 cells hblock =>
      have hp : p ∈ owned := h.owned_of_live p (by rw [hblock]; exact Option.some_ne_none _)
      obtain ⟨j, d, u, ps, -, hu, hd, hpps, -⟩ := h.holds.exists_of_mem hp
      obtain ⟨t, qs, ht, -, hrefs⟩ := hd.element hpps hblock hsrc
      refine ⟨t, qs, ht, fun o => ?_⟩
      exact le_trans (hrefs o) (le_trans (refs_le_refsOfList o hu) (hcounted o))

/-- The fields that an assignment copies first do not change its source, even if this is the
target itself. -/
theorem read_write_var {old : ValueCell} (counts : ValueObject → ℕ) (hold : s.vars[x]? = some old)
    (hsrc : s.read src = some c) :
    (({ s with refs := counts } : ValueStore).write
      { old with type := c.type, arraySize := c.arraySize } (.var x)).read src = some c := by
  cases src with
  | elem p i => exact hsrc
  | var y =>
    by_cases hyx : y = x
    · subst hyx
      obtain rfl : old = c := Option.some_inj.mp (hold.symm.trans hsrc)
      obtain ⟨hlt, -⟩ := List.getElem?_eq_some_iff.mp hold
      exact List.getElem?_set_self hlt
    · exact (List.getElem?_set_ne (Ne.symm hyx)).trans hsrc

/-- When the target has its copy, the old contents can be given up. -/
theorem Represents.giveUp (h : Represents wide held depth s ts owned) {old new : ValueCell}
    (hold : s.vars[x]? = some old) {s' : ValueStore} (hvars : s'.vars = s.vars.set x new)
    {t : ValueTree} {ps : List ℕ} (hnew : Holds wide s'.blocks depth new t ps)
    (hgrown : Grown s { s' with vars := s.vars } s.next (fun o => t.refs o) ps) {fuel : ℕ}
    (hdestroy : ∀ d, depth = d + 1 → d < fuel) :
    ∃ s'' owned', s'.giveUp wide (destroy wide fuel) old true = some s'' ∧
      Represents wide held depth s'' (ts.set x t) owned' := by
  have hs := h.isFresh
  obtain ⟨told, before, lost, after, htold, rfl, hheld, hset⟩ := h.holds.focus hold
  have hlt : ∀ p ∈ before ++ lost ++ after, p < s.next := by
    intro p hp
    obtain ⟨j, d, u, qs, -, -, hd, hpq, -⟩ := h.holds.exists_of_mem hp
    exact hs.lt_next (hd.live hpq)
  have hsame : ∀ p ∈ before ++ lost ++ after, s'.blocks p = s.blocks p := fun p hp =>
    hgrown.same p (hlt p hp) (hlt p hp).ne
  have hlostIn : ∀ p ∈ lost, p ∈ before ++ lost ++ after := fun p hp => by simp [hp]
  have hrestIn : ∀ p ∈ before ++ after, p ∈ before ++ lost ++ after := fun p hp => by
    rcases List.mem_append.mp hp with hp | hp
    · simp [hp]
    · simp [hp]
  have hnodup : lost.Nodup ∧ (before ++ after).Nodup ∧ ∀ p ∈ before ++ after, p ∉ lost := by
    have hperm : (before ++ lost ++ after).Perm (lost ++ (before ++ after)) := by
      rw [← List.append_assoc]
      exact List.perm_append_comm.append_right after
    obtain ⟨hlost, hrest, hapart⟩ := List.nodup_append.mp (hperm.nodup_iff.mp h.nodup)
    exact ⟨hlost, hrest, fun p hp hin => hapart p hin p hp rfl⟩
  have hdestroys : Destroys wide depth fun c s => s.giveUp wide (destroy wide fuel) c true :=
    giveUp_spec fun d hd => destroys_destroy wide (hdestroy d hd)
  obtain ⟨s'', hgiven, hshrunk⟩ := hdestroys s' old told lost
    (hheld.frame fun p hp => hsame p (hlostIn p hp)) hnodup.1 fun o => by
      have hle := refs_le_refsOfList o htold
      have hcount := hgrown.refs o
      have hrefs := h.refs o
      dsimp only at hcount
      omega
  have hrange : ∀ p ∈ ps, s.next ≤ p := fun p hp => (hgrown.range p hp).1
  refine ⟨s'', before ++ ps ++ after, hgiven, ?_, ?_, ?_, ?_, ?_, ?_⟩
  · rw [hshrunk.vars, hvars]
    refine hset _ new t ps (fun d u qs hqs hd => ?_) ?_
    · refine hd.frame fun p hp => ?_
      rw [hshrunk.same p (hnodup.2.2 p (hqs p hp)), hsame p (hrestIn p (hqs p hp))]
    · refine hnew.frame fun p hp => hshrunk.same p fun hin => ?_
      have hold := hlt p (hlostIn p hin)
      have hge := hrange p hp
      omega
  · have hperm : (before ++ ps ++ after).Perm (ps ++ (before ++ after)) := by
      rw [← List.append_assoc]
      exact List.perm_append_comm.append_right after
    refine hperm.nodup_iff.mpr (List.nodup_append.mpr ⟨hgrown.nodup, hnodup.2.1, ?_⟩)
    intro p hp p' hp' heq
    have hold := hlt p' (hrestIn p' hp')
    have hge := hrange p hp
    omega
  · intro p hlive
    have hnot : p ∉ lost := fun hin => hlive (hshrunk.gone p hin)
    rw [hshrunk.same p hnot] at hlive
    by_cases hp : s.next ≤ p
    · have hin := hgrown.covered p hp hlive
      simp [hin]
    · have hkept : s'.blocks p = s.blocks p := hgrown.same p (by omega) (by omega)
      rw [hkept] at hlive
      have hin := h.owned_of_live p hlive
      simp only [List.mem_append] at hin ⊢
      tauto
  · intro p hp
    by_cases hin : p ∈ lost
    · exact hshrunk.gone p hin
    · rw [hshrunk.same p hin]
      rw [hshrunk.next] at hp
      exact hgrown.fresh.unused p hp
  · rw [hshrunk.next]
    exact hgrown.fresh.pos
  · intro o
    have hless := hshrunk.refs o
    have hmore := hgrown.refs o
    have hrefs := h.refs o
    have htrees := refsOfList_set o htold t
    dsimp only at hmore
    omega

/-- An assignment makes its target the tree that its source was, leaves the trees of all other
variables, and every object still counts the values that refer to it. -/
theorem assign_represents (h : Represents wide held depth s ts owned) (hx : x < s.vars.length)
    (hsrc : s.read src = some c) :
    ∃ t ps, Holds wide s.blocks depth c t ps ∧ ∀ fuel, depth < fuel →
      ∃ s' owned', assign wide fuel s (.var x) src = some s' ∧
        Represents wide held depth s' (ts.set x t) owned' := by
  obtain ⟨t, ps, hc, hrefs⟩ := h.exists_tree hsrc
  refine ⟨t, ps, hc, fun fuel hfuel => ?_⟩
  obtain ⟨fuel, rfl⟩ : ∃ n, fuel = n + 1 := ⟨fuel - 1, by omega⟩
  have hs := h.isFresh
  have hold : s.vars[x]? = some s.vars[x] := List.getElem?_eq_getElem hx
  generalize s.vars[x] = old at hold
  obtain ⟨counts, hadd, hcounts⟩ := addRef_spec s c.object fun o ho => by
    have hone := hc.refs_object ho
    have hle := hrefs o
    omega
  -- type and size are copied
  let target : ValueCell := { old with type := c.type, arraySize := c.arraySize }
  have hsrc₂ := read_write_var counts hold hsrc
  let s₂ : ValueStore := { s with vars := s.vars.set x target, refs := counts }
  have hs₂ : s₂.Fresh := ⟨hs.unused, hs.pos⟩
  have hthis₂ : s₂.read (.var x) = some target := List.getElem?_set_self hx
  -- the contents are copied
  have hcopies : ∀ d, depth = d + 1 →
      Copies wide d fun s this src => assign2 wide fuel s this src true false :=
    fun d hd => copies_assign2 wide (by omega)
  obtain ⟨s₃, word, new, count, htake, hgrown, hheld, hcount⟩ :=
    takeContents_spec hcopies hs₂ hsrc₂ hthis₂ rfl rfl hc fun o => by
      have hsame : s₂.refs o = counts o := rfl
      rw [hsame, hcounts]
      exact Nat.le_add_right_of_le (hrefs o)
  have hset : s₃.setWord (.var x) word =
      some { s₃ with vars := s.vars.set x { target with word := word } } := by
    have hvars : s₃.vars = s.vars.set x target := hgrown.vars
    rw [setWord, read, hvars, List.getElem?_set_self hx, Option.map_some, write, hvars,
      List.set_set]
  -- the old contents are given up
  let s₄ : ValueStore := { s₃ with vars := s.vars.set x { target with word := word } }
  have hvars₄ : s₄.vars = s.vars.set x { target with word := word } := rfl
  have hdepth : ∀ d, depth = d + 1 → d < fuel := fun d hd => by omega
  obtain ⟨s', owned', hgiven, hrepresents⟩ := h.giveUp hold hvars₄ hheld
    { hgrown with
      vars := rfl
      fresh := ⟨hgrown.fresh.unused, hgrown.fresh.pos⟩
      refs := fun o => by
        have hgrownRefs : s₃.refs o = counts o + count o := hgrown.refs o
        dsimp only
        rw [hgrownRefs, hcounts, hcount]
        omega }
    hdepth
  refine ⟨s', owned', ?_, hrepresents⟩
  rw [assign, assign2, hsrc, Option.bind_some, hadd, Option.bind_some]
  have hthis : ({ s with refs := counts } : ValueStore).read (.var x) = some old := hold
  have hwrite : ({ s with refs := counts } : ValueStore).write target (.var x) = s₂ := rfl
  rw [hthis, Option.bind_some]
  dsimp only
  rw [hwrite, htake, hset, Option.bind_some, if_neg Bool.false_ne_true, Bool.not_false, hgiven]

/-- One variable has an array with a clip, the other one is undefined. -/
def argsStore : ValueStore where
  vars := [⟨.array, 1, 1⟩, .undefined]
  blocks p := if p = 1 then some (.array [⟨.clip, 0, 7⟩]) else none
  next := 2
  refs o := if o = .clip 7 then 1 else 0

theorem represents_argsStore : Represents true (fun _ => 0) 1 argsStore
    [.array [.leaf .clip 0 7], .leaf .void 0 0] [1] where
  holds := by
    have hclip : Holds true argsStore.blocks 0 ⟨.clip, 0, 7⟩ (.leaf .clip 0 7) [] :=
      ⟨rfl, by decide, rfl, rfl, rfl⟩
    have harray : Holds true argsStore.blocks 1 ⟨.array, 1, 1⟩ (.array [.leaf .clip 0 7]) [1] :=
      ⟨rfl, by decide, [⟨.clip, 0, 7⟩], [], rfl, rfl, .cons hclip .nil, rfl⟩
    have hundefined : Holds true argsStore.blocks 1 .undefined (.leaf .void 0 0) [] :=
      ⟨rfl, by decide, rfl, rfl, rfl⟩
    exact .cons harray (.cons hundefined .nil)
  nodup := List.nodup_singleton 1
  owned_of_live p hp := by
    by_contra hne
    exact hp (if_neg fun h => hne (List.mem_singleton.mpr h))
  fresh p hp := by
    have hle : 2 ≤ p := hp
    exact if_neg (by omega)
  next_pos := by decide
  refs o := by
    by_cases ho : o = .clip 7
    · subst ho
      rfl
    · simp [argsStore, ho, refsOfList, ValueTree.refs, ValueObject.of, Ne.symm ho]

/-- The element of the array replaces the array that holds it. -/
theorem assign_args : ∃ t ps, Holds true argsStore.blocks 1 ⟨.clip, 0, 7⟩ t ps ∧
    ∀ fuel, 1 < fuel → ∃ s' owned',
      assign true fuel argsStore (.var 0) (.elem 1 0) = some s' ∧
        Represents true (fun _ => 0) 1 s'
          ([.array [.leaf .clip 0 7], .leaf .void 0 0].set 0 t) owned' :=
  assign_represents represents_argsStore (by decide) rfl

/-! ### Sequences of assignments -/

/-- One assignment to a variable. -/
def step (wide : Bool) (fuel : ℕ) (s : ValueStore) (a : ℕ × ValueLoc) :
    Option (ValueStore × Unit) :=
  (assign wide fuel s (.var a.1) a.2).map (·, ())

/-- The variable and the source are there. -/
def Stated (s : ValueStore) (a : ℕ × ValueLoc) : Prop :=
  a.1 < s.vars.length ∧ (s.read a.2).isSome = true

/-- After any sequence of assignments, the store consists of trees and all references are
counted. -/
theorem run_represents {fuel : ℕ} (hfuel : depth < fuel)
    (h : Represents wide held depth s ts owned) {history : List Unit} {s' : ValueStore}
    (hrun : Transition.Run (step wide fuel) Stated s history s') :
    ∃ ts' owned', Represents wide held depth s' ts' owned' := by
  refine hrun.invariant (fun _ s' => ∃ ts' owned', Represents wide held depth s' ts' owned')
    ⟨ts, owned, h⟩ ?_
  rintro history s₁ s₂ ⟨x, src⟩ e ⟨ts₁, owned₁, h₁⟩ ⟨hx, hread⟩ hstep
  obtain ⟨c, hsrc⟩ := Option.isSome_iff_exists.mp hread
  obtain ⟨t, ps, -, hassign⟩ := assign_represents h₁ hx hsrc
  obtain ⟨s', owned', hassigned, hrepresents⟩ := hassign fuel hfuel
  rw [step, hassigned, Option.map_some, Option.some_inj] at hstep
  obtain rfl : s' = s₂ := congrArg Prod.fst hstep
  exact ⟨_, owned', hrepresents⟩

end ValueStore

end AviSynth
