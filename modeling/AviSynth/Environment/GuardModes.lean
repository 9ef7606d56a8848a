import AviSynth.Environment.GuardedInvoke
import AviSynth.Library.Runs
import Mathlib.Data.List.Forall2

/-!
# The modes of guards

Every evaluator on the stack is as restrictive as the filters that the ledger counts
for it. A guard is therefore as restrictive as the filters built inside, provided that
none of those that matter is left uncounted when the outermost constructor returns.
-/

namespace AviSynth

namespace GuardedInvoke

open Transition

namespace ClipTable

variable (table : ClipTable)

@[simp] theorem data_emplace (a b : ℕ) : (table.emplace a).data b = table.data b := by
  by_cases h : b = a
  · subst h
    simp [emplace, data]
  · simp [emplace, data, Function.update_of_ne h]

end ClipTable

/-- The filters of a list are no more restrictive than an evaluator has counted. -/
def Counts (e : MtModeEvaluator) (bs : List (ℕ × MtMode)) : Prop :=
  ∀ b ∈ bs, b.2.restriction ≤ e.level

/-- The evaluators on the stack are those of the open calls of filters, and the call
at the bottom is the one that is not chained. -/
def Matches : List PendingCall → List MtModeEvaluator → Prop
  | [], stack => stack = []
  | .special _ :: calls, stack => Matches calls stack
  | .script _ :: calls, stack => Matches calls stack
  | .filter _ chainedCtor _ :: calls, stack =>
    ∃ e rest, stack = e :: rest ∧ (chainedCtor = false → rest = []) ∧ Matches calls rest

variable {stack : List MtModeEvaluator} {calls : List PendingCall}

/-- The evaluator of an open call may change. -/
theorem Matches.replaceTop {top new : MtModeEvaluator} (h : Matches calls (top :: stack)) :
    Matches calls (new :: stack) := by
  induction calls with
  | nil => cases h
  | cons call calls ih =>
    cases call with
    | special f => exact ih h
    | script f => exact ih h
    | filter f chainedCtor isSourceFilter =>
      obtain ⟨_, _, heq, hbottom, hrest⟩ := h
      obtain ⟨rfl, rfl⟩ := List.cons.inj heq
      exact ⟨new, stack, rfl, hbottom, hrest⟩

namespace InvokeState

variable {s t : InvokeState} {f : InvokedFunction} {mthelper : MtModeEvaluator} {version mtMode : ℤ}

/-- What holds of the stack and the ledger at every point of a history. -/
structure Inv (s : InvokeState) : Prop where
  counts : List.Forall₂ Counts s.invokeStack s.ledger.counted
  matches_ : Matches s.calls s.invokeStack

/-- The loop over the arguments counts the modes that it takes. -/
theorem level_inspect (table : ClipTable) (mthelper : MtModeEvaluator) (args : List AVSValue)
    (htable : ∀ a, table.data a = s.clipData.data a) :
    mthelper.level ≤ (s.inspect table mthelper args).2.level ∧
      Counts (s.inspect table mthelper args).2 (s.taken args) := by
  induction args generalizing table mthelper with
  | nil => exact ⟨Nat.le_refl _, fun b hb => absurd hb List.not_mem_nil⟩
  | cons v args ih =>
    cases v with
    | other => exact ih table mthelper htable
    | array elements => exact ih table mthelper htable
    | clip a =>
      have hemplace : ∀ b, (table.emplace a).data b = s.clipData.data b := by
        intro b
        rw [ClipTable.data_emplace, htable]
      cases hclip : s.clips a with
      | none =>
        simp only [inspect, taken, hclip]
        exact ih _ mthelper hemplace
      | some clip =>
        simp only [inspect, taken, hclip, htable a]
        split
        · exact ih _ mthelper hemplace
        · obtain ⟨hlevel, hcounts⟩ := ih (table.emplace a)
            (mthelper.addChainedFilter clip s.settings.defaultMtMode) hemplace
          constructor
          · exact Nat.le_trans (mthelper.level_le_accumulateMode _) hlevel
          · rintro b (_ | ⟨_, hb⟩)
            · exact Nat.le_trans (mthelper.restriction_le_accumulateMode _) hlevel
            · exact hcounts b hb

/-- What the ledger counts for a new call is counted by its evaluator. -/
theorem counts_openCall (args : List AVSValue) :
    Counts (s.inspect s.clipData .zero args).2
      (s.ledger.uncounted.filter (Ledger.isTaken (s.taken args))) := by
  have hcounts := (s.level_inspect s.clipData .zero args (fun _ => rfl)).2
  intro b hb
  obtain ⟨mode, hmode, hle⟩ := List.any_eq_true.mp (List.mem_filter.mp hb).2
  have hle : b.2.restriction ≤ mode.2.restriction := by simp_all
  exact Nat.le_trans hle (hcounts mode hmode)

theorem Inv.invoke (h : s.Inv) (f : InvokedFunction) (args : List AVSValue) :
    (s.invoke f args).Inv := by
  unfold InvokeState.invoke
  dsimp only
  split
  · exact ⟨h.counts, h.matches_⟩
  split
  · exact ⟨h.counts, h.matches_⟩
  · constructor
    · exact .cons (s.counts_openCall args) h.counts
    · refine ⟨_, _, rfl, ?_, h.matches_⟩
      intro hchained
      exact List.isEmpty_iff.mp (by simpa using hchained)

/-- An evaluator that takes over from another counts what both have counted. -/
theorem counts_handOn {mthelper top : MtModeEvaluator} {own caller : List (ℕ × MtMode)}
    (hown : Counts mthelper own) (hcaller : Counts top caller) (n : ℕ) (mode : MtMode) :
    Counts ((top.accumulate mthelper).accumulateMode mode) ((n, mode) :: (own ++ caller)) := by
  have hlevel := (top.accumulate mthelper).level_le_accumulateMode mode
  rw [MtModeEvaluator.level_accumulate] at hlevel
  rintro b (_ | ⟨_, hb⟩)
  · exact MtModeEvaluator.restriction_le_accumulateMode _ _
  · cases List.mem_append.mp hb with
    | inl hb => exact Nat.le_trans (hown b hb) (Nat.le_trans (Nat.le_max_right _ _) hlevel)
    | inr hb => exact Nat.le_trans (hcaller b hb) (Nat.le_trans (Nat.le_max_left _ _) hlevel)

/-- Creating a clip leaves the stack and what is counted. -/
theorem place_eq {a : ℕ} (h : s.place a version mtMode = some t) :
    t = { s with
      clips := Function.update s.clips a (some ⟨version, mtMode, s.created⟩)
      created := s.created + 1 } := by
  unfold place at h
  split at h
  · cases h
  · exact (Option.some.inj h).symm

theorem Inv.place {a : ℕ} (h : s.Inv)
    (hplace : s.place a version mtMode = some t) : t.Inv := by
  rw [place_eq hplace]
  exact ⟨h.counts, h.matches_⟩

theorem Inv.build (h : s.Inv) (clip : IClip) : (s.build clip).Inv := by
  unfold InvokeState.build
  split
  · exact h
  · exact ⟨h.counts, h.matches_⟩

theorem Inv.create {a : ℕ} {inside : Bool} (h : s.Inv)
    (hcreate : s.create a version mtMode inside = some t) : t.Inv := by
  obtain ⟨placed, hplace, rfl⟩ := Option.map_eq_some_iff.mp hcreate
  have hplaced := h.place hplace
  split
  · exact hplaced.build _
  · exact hplaced

theorem Inv.assess (h : s.Inv) (f : InvokedFunction) (fret : AVSValue) : (s.assess f fret).Inv := by
  unfold InvokeState.assess
  split
  · split
    · exact ⟨h.counts, h.matches_⟩
    · exact h
  · exact h

/-- `assess` changes the uncounted filters only. -/
theorem assess_calls (f : InvokedFunction) (fret : AVSValue) :
    (s.assess f fret).calls = s.calls ∧ (s.assess f fret).invokeStack = s.invokeStack := by
  unfold InvokeState.assess
  split
  · split <;> exact ⟨rfl, rfl⟩
  · exact ⟨rfl, rfl⟩

/-- The counts that remain when the innermost evaluator is popped. -/
theorem counts_drop {l : Ledger} (h : List.Forall₂ Counts (mthelper :: stack) l.counted) :
    List.Forall₂ Counts stack l.drop.counted := by
  unfold Ledger.drop
  obtain ⟨own, rest, -, hrest, hcounted⟩ := List.forall₂_cons_left_iff.mp h
  rw [hcounted]
  cases hrest with
  | nil => exact .nil
  | cons hcaller hrest => exact .cons hcaller hrest

theorem Inv.popCall (h : s.Inv) {isSourceFilter chainedCtor : Bool}
    (hcalls : s.calls = .filter f chainedCtor isSourceFilter :: calls)
    (hstack : s.invokeStack = mthelper :: stack) : (s.popCall calls stack).Inv := by
  have hcounts := h.counts
  have hmatches := h.matches_
  rw [hstack] at hcounts
  rw [hcalls, hstack] at hmatches
  obtain ⟨_, _, heq, -, hrest⟩ := hmatches
  obtain ⟨rfl, rfl⟩ := List.cons.inj heq
  exact ⟨counts_drop hcounts, hrest⟩

theorem Inv.fail (h : s.Inv) (hfail : s.fail = some t) : t.Inv := by
  unfold InvokeState.fail at hfail
  have hmatches := h.matches_
  split at hfail
  · cases hfail
  · next hcalls =>
    obtain rfl := Option.some.inj hfail
    rw [hcalls] at hmatches
    exact ⟨h.counts, hmatches⟩
  · next hcalls =>
    obtain rfl := Option.some.inj hfail
    rw [hcalls] at hmatches
    exact ⟨h.counts, hmatches⟩
  · next hcalls =>
    split at hfail
    · cases hfail
    · next hstack =>
      obtain rfl := Option.some.inj hfail
      exact h.popCall hcalls hstack

theorem Inv.returnChained (h : s.Inv) {isSourceFilter : Bool} {clip : IClip}
    {mthelper top : MtModeEvaluator}
    {cache : ℕ} (hcalls : s.calls = .filter f true isSourceFilter :: calls)
    (hstack : s.invokeStack = mthelper :: top :: stack)
    (hreturn : s.returnChained f clip calls mthelper top stack cache = some t) : t.Inv := by
  have hcounts := h.counts
  have hmatches := h.matches_
  rw [hstack] at hcounts
  rw [hcalls, hstack] at hmatches
  obtain ⟨own, _, hown, hcallers, hcounted⟩ := List.forall₂_cons_left_iff.mp hcounts
  obtain ⟨caller, rest, hcaller, hrest, rfl⟩ := List.forall₂_cons_left_iff.mp hcallers
  obtain ⟨_, _, heq, -, hmatches⟩ := hmatches
  obtain ⟨rfl, rfl⟩ := List.cons.inj heq
  refine Inv.place ⟨?_, hmatches.replaceTop⟩ hreturn
  rw [Ledger.handOn, hcounted]
  exact .cons (counts_handOn hown hcaller _ _) hrest

/-- A guard whose mode is not forced is as restrictive as its evaluator. -/
theorem level_le_guardMode (clip : IClip) (isSourceFilter : Bool)
    (hforced : (s.settings.getFilterMTMode f).2 = false) (mthelper : MtModeEvaluator) :
    mthelper.level ≤ (s.guardMode f clip mthelper isSourceFilter).restriction := by
  unfold guardMode
  simp only [hforced, Bool.false_eq_true, if_false]
  split
  · unfold MtModeEvaluator.level
    split_ifs <;> decide
  · exact mthelper.level_le_getFinalMode _

/-- The filters that an outermost constructor leaves uncounted, apart from the nice ones
and the one that it returns. -/
def uncountedAt (s : InvokeState) : Action → List (ℕ × MtMode)
  | .finish fret _ _ =>
    match s.calls.head? with
    | some (.filter f false _) =>
      match (filterClip f fret).bind s.clips with
      | some clip =>
        if (s.settings.getFilterMTMode f).2 then []
        else s.ledger.uncounted.filter fun b => b.1 ≠ clip.number ∧ 1 < b.2.restriction
      | none => []
    | _ => []
  | _ => []

/-- When an outermost constructor returns, the mode of every filter built in it has been
counted, or is that of a nice filter. -/
abbrev AllCounted (s : InvokeState) (a : Action) : Prop := s.uncountedAt a = []

theorem Inv.returnGuarded (h : s.Inv) {isSourceFilter : Bool} {clip : IClip} {fret : AVSValue}
    {a guard cache : ℕ} (hcalls : s.calls = .filter f false isSourceFilter :: calls)
    (hstack : s.invokeStack = mthelper :: stack) (hfret : filterClip f fret = some a)
    (hclip : s.clips a = some clip) (hcounted : s.AllCounted (.finish fret guard cache))
    (hreturn : s.returnGuarded a calls stack guard cache = some t) :
    t.Inv ∧ GuardEvent.Covers ⟨(s.settings.getFilterMTMode f).2,
      s.guardMode f clip mthelper isSourceFilter, s.ledger.others clip.number⟩ := by
  have hcounts := h.counts
  have hmatches := h.matches_
  rw [hstack] at hcounts
  rw [hcalls, hstack] at hmatches
  obtain ⟨_, _, heq, hbottom, hmatches⟩ := hmatches
  obtain ⟨rfl, rfl⟩ := List.cons.inj heq
  obtain rfl := hbottom rfl
  obtain ⟨own, rest, hown, hrest, hledger⟩ := List.forall₂_cons_left_iff.mp hcounts
  obtain rfl := List.forall₂_nil_left_iff.mp hrest
  constructor
  · obtain ⟨guarded, hguard, hcache⟩ := Option.bind_eq_some_iff.mp hreturn
    exact Inv.place (Inv.place ⟨.nil, hmatches⟩ hguard) hcache
  · intro hforced b hb
    have hforced : (s.settings.getFilterMTMode f).2 = false := hforced
    obtain ⟨hb, hother⟩ := List.mem_filter.mp hb
    rw [hledger] at hb
    have hlevel := s.level_le_guardMode clip isSourceFilter hforced mthelper
    cases List.mem_append.mp hb with
    | inl hb =>
      have hb : b ∈ own := by simpa using hb
      exact Nat.le_trans (hown b hb) hlevel
    | inr hb =>
      -- What is not counted is not more restrictive than any guard.
      have hnice : b.2.restriction ≤ 1 := by
        simp only [AllCounted, uncountedAt, hcalls, List.head?_cons, hfret, Option.bind_some, hclip,
          hforced, Bool.false_eq_true, if_false, List.filter_eq_nil_iff] at hcounted
        have hb := hcounted b hb
        simp_all
      exact Nat.le_trans hnice (Nat.le_trans mthelper.one_le_level hlevel)

theorem Inv.finish (h : s.Inv) {fret : AVSValue} {guard cache : ℕ} {e : Option GuardEvent}
    (hcounted : s.AllCounted (.finish fret guard cache))
    (hfinish : s.finish fret guard cache = some (t, e)) :
    t.Inv ∧ ∀ g, e = some g → g.Covers := by
  unfold InvokeState.finish at hfinish
  have hmatches := h.matches_
  split at hfinish
  · cases hfinish
  · next hcalls =>
    obtain ⟨⟩ := Option.some.inj hfinish
    rw [hcalls] at hmatches
    exact ⟨⟨h.counts, hmatches⟩, nofun⟩
  · next f _ hcalls =>
    obtain ⟨⟩ := Option.some.inj hfinish
    rw [hcalls] at hmatches
    have hassess := h.assess f fret
    have hstack := (s.assess_calls f fret).2
    refine ⟨⟨hassess.counts, ?_⟩, nofun⟩
    rw [hstack]
    exact hmatches
  · next f chainedCtor isSourceFilter calls hcalls =>
    split at hfinish
    · cases hfinish
    · next mthelper stack hstack =>
      split at hfinish
      · obtain ⟨⟩ := Option.some.inj hfinish
        obtain ⟨hcalls', hstack'⟩ := s.assess_calls f fret
        exact ⟨(h.assess f fret).popCall (hcalls'.trans hcalls) (hstack'.trans hstack), nofun⟩
      · next a hfret =>
        split at hfinish
        · cases hfinish
        · next clip hclip =>
          cases chainedCtor with
          | true =>
            cases stack with
            | nil => cases hfinish
            | cons top stack =>
              obtain ⟨u, hreturn, ⟨⟩⟩ := Option.map_eq_some_iff.mp hfinish
              exact ⟨h.returnChained hcalls hstack hreturn, nofun⟩
          | false =>
            obtain ⟨u, hreturn, ⟨⟩⟩ := Option.map_eq_some_iff.mp hfinish
            obtain ⟨hinv, hcovers⟩ := h.returnGuarded hcalls hstack hfret hclip hcounted hreturn
            refine ⟨hinv, ?_⟩
            rintro g ⟨⟩
            exact hcovers

theorem Inv.step (h : s.Inv) {a : Action} {e : Option GuardEvent} (hcounted : s.AllCounted a)
    (hstep : s.step a = some (t, e)) : t.Inv ∧ ∀ g, e = some g → g.Covers := by
  cases a with
  | setFilterMTMode filter mode weight loading =>
    obtain ⟨⟩ := Option.some.inj hstep
    exact ⟨⟨h.counts, h.matches_⟩, nofun⟩
  | create a version mtMode inside =>
    obtain ⟨u, hcreate, ⟨⟩⟩ := Option.map_eq_some_iff.mp hstep
    exact ⟨h.create hcreate, nofun⟩
  | destroy a =>
    obtain ⟨u, hdestroy, ⟨⟩⟩ := Option.map_eq_some_iff.mp hstep
    obtain ⟨-, hsome⟩ := Option.ite_none_right_eq_some.mp hdestroy
    obtain rfl := Option.some.inj hsome
    exact ⟨⟨h.counts, h.matches_⟩, nofun⟩
  | invoke f last args =>
    obtain ⟨-, hsome⟩ := Option.ite_none_right_eq_some.mp hstep
    obtain ⟨⟩ := Option.some.inj hsome
    exact ⟨h.invoke f _, nofun⟩
  | finish fret guard cache =>
    obtain ⟨-, hfinish⟩ := Option.ite_none_right_eq_some.mp hstep
    exact h.finish hcounted hfinish
  | fail =>
    obtain ⟨u, hfail, ⟨⟩⟩ := Option.map_eq_some_iff.mp hstep
    exact ⟨h.fail hfail, nofun⟩

/-- In every history in which the filters built inside are counted, every guard around
an outermost filter is as restrictive as each of the filters built inside it. -/
theorem guards_cover {settings : MtSettings} {history : List (Option GuardEvent)}
    {s : InvokeState} (hrun : Run step AllCounted (start settings) history s) :
    AllEvents (fun _ e => ∀ g, e = some g → g.Covers) history := by
  apply hrun.allEvents (fun _ s => s.Inv)
  · exact ⟨.nil, rfl⟩
  · intro history s t a e hinv hcounted hstep
    exact hinv.step hcounted hstep

/-- Two functions of a plugin are registered as nice filters. -/
def twoNice : MtSettings :=
  ⟨.multiInstance, [("blur", .niceFilter, .default), ("mix", .niceFilter, .default)]⟩

/-- The constructor of `Mix` builds a serialized filter of its own at address 1, passes it
to `Blur`, and returns another filter. -/
def mixing : List Action :=
  [.invoke ⟨some "Mix", "plugin_Mix", false⟩ none [],
    .create 1 12 3 true,
    .invoke ⟨some "Blur", "plugin_Blur", false⟩ none [(none, .clip 1)],
    .create 2 12 0 true,
    .finish (.clip 2) 0 3,
    .create 4 12 0 true,
    .finish (.clip 4) 5 6]

/-- A run in which the serialized filter is counted: the guard is serialized. -/
theorem guards_cover_mixing : ∃ (history : List (Option GuardEvent)) (s : InvokeState),
    (history.head? =
        some (some ⟨false, .serialized, [(1, .niceFilter), (0, .serialized)]⟩) ∧
      s.calls = []) ∧
      AllEvents (fun _ e => ∀ g, e = some g → g.Covers) history := by
  obtain ⟨history, s, hrun, hcheck⟩ := exists_run step AllCounted (start twoNice) mixing
    (fun history s => history.head? =
      some (some ⟨false, .serialized, [(1, .niceFilter), (0, .serialized)]⟩) ∧
        s.calls.isEmpty) (by decide +kernel)
  obtain ⟨hhead, hcalls⟩ := of_decide_eq_true hcheck
  exact ⟨history, s, ⟨hhead, List.isEmpty_iff.mp hcalls⟩, guards_cover hrun⟩

/-- A guarded filter has been at address 1 before. The table still says that the clip
there is guarded, so the serialized filter is not counted, and the guard is nice. -/
theorem staleMark_notCovered :
    ¬∀ (settings : MtSettings) (history : List (Option GuardEvent)) (s : InvokeState),
      Run step always (start settings) history s →
        AllEvents (fun _ e => ∀ g, e = some g → g.Covers) history := by
  intro h
  obtain ⟨history, s, hrun, hcheck⟩ := exists_run step always (start twoNice)
    ([.invoke ⟨some "Blur", "plugin_Blur", false⟩ none [], .create 1 12 0 true,
      .finish (.clip 1) 2 3, .destroy 1, .destroy 2, .destroy 3] ++ mixing)
    (fun history _ => history.head? =
      some (some ⟨false, .niceFilter, [(4, .niceFilter), (3, .serialized)]⟩))
    (by decide +kernel)
  have hcovers := h twoNice history s hrun
  cases history with
  | nil => exact absurd hcheck (by decide)
  | cons e earlier =>
    obtain rfl := Option.some.inj (of_decide_eq_true hcheck)
    have hle := hcovers.1 _ rfl rfl (3, .serialized) (by decide)
    exact absurd hle (by decide)

end InvokeState

end GuardedInvoke

end AviSynth
