import AviSynth.Cx.WrapperRuns
import Mathlib.Algebra.BigOperators.Group.List.Basic
import Mathlib.Algebra.GroupWithZero.Nat

/-!
# Wrappers are shared, kept while they are held, and let go of once

No step of a call depends on luck: what it refers to is still there, whichever
order the threads run in. So every call in progress can be brought to its end, and
then each host reference that was handed to `Wrap` is owned by one wrapper or back
with the host.
-/

namespace AviSynth.Cx

variable {history : List Event} {s t : Wrappers}

/-- How many steps a call has before it at most. -/
def Call.work : Call → ℕ
  | .wrap _ _ => 2
  | .unwind _ _ => 1
  | .releaseFrame _ => 2
  | .delete _ => 1

/-- The steps that the open calls can still take. -/
def Wrappers.work (s : Wrappers) : ℕ := (s.calls.map Call.work).sum

/-- A step of a call leaves less to do. -/
theorem work_goOn {call : Call} (hcall : call ∈ s.calls) {next : List Call}
    (hless : (next.map Call.work).sum < call.work) : (s.goOn call next).work < s.work := by
  have hsplit := ((List.perm_cons_erase hcall).map Call.work).sum_eq
  rw [List.map_cons, List.sum_cons] at hsplit
  rw [Wrappers.work, Wrappers.work, Wrappers.goOn_calls, List.map_append, List.sum_append]
  omega

namespace Consistent

/-- What is held is there. -/
theorem exists_frame (h : Consistent history s) {p : FramePtr} (hheld : s.held p ≠ 0) :
    ∃ f, s.frames.lookup p = some f ∧ f.references = s.held p := by
  have hcount := h.counted p
  cases hlookup : s.frames.lookup p with
  | none =>
    rw [references, hlookup, Option.elim_none] at hcount
    exact absurd hcount hheld
  | some f =>
    rw [references_of_lookup hlookup] at hcount
    exact ⟨f, rfl, hcount.symm⟩

/-- What is about to be deleted is there, and held by nobody. -/
theorem exists_unheld (h : Consistent history s) {p : FramePtr} (hcall : .delete p ∈ s.calls) :
    ∃ f, s.frames.lookup p = some f ∧ f.references = 0 := by
  have hcount := h.deletions p
  have hmem : 0 < s.calls.count (.delete p) := List.count_pos_iff.mpr hcall
  cases hlookup : s.frames.lookup p with
  | none =>
    rw [unheld, hlookup, Option.any_none] at hcount
    rw [hcount] at hmem
    cases hmem
  | some f =>
    rw [unheld_of_lookup hlookup] at hcount
    by_cases hzero : f.references = 0
    · exact ⟨f, rfl, hzero⟩
    · rw [if_neg (by simpa using hzero)] at hcount
      omega

/-- What the index has is a live wrapper with that key, and every live wrapper is there. -/
theorem indexed_iff (h : Consistent history s) (i : ℕ) (k : FrameKey) (p : FramePtr) :
    s.frameIndices i k = some p ↔
      i = index k ∧ ∃ f, s.frames.lookup p = some f ∧ 0 < f.references ∧ f.key = k := by
  rw [h.indexed]
  simp only [liveKey, Option.bind_eq_some_iff, Option.ite_none_right_eq_some, Option.some.injEq]

/-- A call in progress can go on, with whatever memory there is. -/
theorem exists_advance (h : Consistent history s) {call : Call} (hcall : call ∈ s.calls)
    (memory : Memory) (hunused : ∀ p, memory.frame = some p → p ∉ s.frames) :
    ∃ t event, s.step (.advance call memory) = some (t, event) ∧ t.handed = s.handed ∧
      t.work < s.work := by
  simp only [Wrappers.step, if_pos hcall]
  cases call with
  | wrap owned sdk =>
    simp only [Wrappers.advance, Wrappers.wrap]
    cases hentry : s.frameIndices (index (key owned.ref sdk)) (key owned.ref sdk) with
    | some p =>
      obtain ⟨-, f, hlookup, -⟩ := (h.indexed_iff _ _ _).mp hentry
      simp only [Wrappers.retainFrame, hlookup]
      exact ⟨_, _, rfl, rfl, work_goOn (s := s.put p _) hcall (by simp [Call.work])⟩
    | none =>
      cases hframe : memory.frame with
      | none => exact ⟨_, _, rfl, rfl, work_goOn hcall (by simp [Call.work])⟩
      | some p =>
        simp only [if_neg (hunused p hframe)]
        cases memory.entry with
        | true =>
          exact ⟨_, _, rfl, rfl,
            work_goOn (s := (s.put p _).setEntry _ _) hcall (by simp [Call.work])⟩
        | false => exact ⟨_, _, rfl, rfl, work_goOn (s := s.put p _) hcall (by simp [Call.work])⟩
  | unwind owned result =>
    cases result with
    | none | some => exact ⟨_, _, rfl, rfl, work_goOn hcall (by simp [Call.work])⟩
  | releaseFrame p =>
    have hheld : s.held p ≠ 0 := by
      have hmem : 0 < s.calls.countP (Call.holds p) :=
        List.countP_pos_iff.mpr ⟨_, hcall, by simp [Call.holds]⟩
      rw [Wrappers.held]
      omega
    obtain ⟨f, hlookup, -⟩ := h.exists_frame hheld
    simp only [Wrappers.advance, Wrappers.releaseFrame, hlookup, Option.map_some]
    by_cases hlast : f.references = 1
    · rw [if_pos hlast]
      exact ⟨_, _, rfl, rfl, work_goOn (s := (s.put p _).setEntry _ _) hcall (by simp [Call.work])⟩
    · rw [if_neg hlast]
      exact ⟨_, _, rfl, rfl, work_goOn (s := s.put p _) hcall (by simp [Call.work])⟩
  | delete p =>
    obtain ⟨f, hlookup, -⟩ := h.exists_unheld hcall
    simp only [Wrappers.advance, hlookup, Option.map_some]
    exact ⟨_, _, rfl, rfl, work_goOn (s := { s with frames := _ }) hcall (by simp [Call.work])⟩

end Consistent

/-- The calls in progress can all be brought to their end. -/
theorem exists_quiet
    (hrun : Transition.Run Wrappers.step Transition.always .initial history s) :
    ∃ later t, Transition.Run Wrappers.step Transition.always .initial (later ++ history) t ∧
      t.calls = [] ∧ t.handed = s.handed := by
  induction hwork : s.work using Nat.strong_induction_on generalizing history s with
  | _ work ih =>
    cases hcalls : s.calls with
    | nil => exact ⟨[], s, hrun, hcalls, rfl⟩
    | cons call calls =>
      have hcall : call ∈ s.calls := by simp [hcalls]
      obtain ⟨t, event, hstep, hsame, hless⟩ := (Consistent.of_run hrun).exists_advance hcall
        ⟨none, false⟩ (by simp)
      obtain ⟨later, u, hquiet, hdone, hhanded⟩ :=
        ih t.work (hwork ▸ hless) (hrun.step trivial hstep) rfl
      exact ⟨later ++ [event], u, by simpa using hquiet, hdone, hhanded.trans hsame⟩

/-- What holds whenever some threads have got somewhere. -/
structure Sound (history : List Event) (s : Wrappers) : Prop where
  /-- There is at most one live wrapper for a key. -/
  unique : ∀ p q f g, s.frames.lookup p = some f → s.frames.lookup q = some g →
    0 < f.references → 0 < g.references → f.key = g.key → p = q
  /-- The index has exactly the live wrappers, each in the shard of its key. -/
  indexed : ∀ i k p, s.frameIndices i k = some p ↔
    i = index k ∧ ∃ f, s.frames.lookup p = some f ∧ 0 < f.references ∧ f.key = k
  /-- A wrapper that somebody holds a reference to is there, with as many references. -/
  kept : ∀ p, s.held p ≠ 0 → ∃ f, s.frames.lookup p = some f ∧ f.references = s.held p
  /-- A wrapper is deleted by one thread only, when nobody holds a reference to it. -/
  deleted : ∀ p, .delete p ∈ s.calls → s.held p = 0 ∧ s.calls.count (.delete p) = 1
  /-- A host reference is with one call in progress, in one wrapper, or released once. -/
  settled : ∀ n < s.handed, s.calls.countP (Call.carries n) + owners s.frames n +
    history.count (.released n) = 1
  /-- A call in progress can take its next step. -/
  advances : ∀ call ∈ s.calls, ∀ memory, (∀ p, memory.frame = some p → p ∉ s.frames) →
    (s.step (.advance call memory)).isSome
  /-- All calls can come to their end, and then no host reference is with a call. -/
  finishes : ∃ later t,
    Transition.Run Wrappers.step Transition.always .initial (later ++ history) t ∧
      t.calls = [] ∧ ∀ n < s.handed,
        owners t.frames n + (later ++ history).count (.released n) = 1

/-- In every interleaving of threads that wrap host frames, copy the wrappers and let
go of them, live wrappers are unique and indexed, held wrappers stay, and no host
reference is lost or released twice. -/
theorem wrappers_sound
    (hrun : Transition.Run Wrappers.step Transition.always .initial history s) :
    Sound history s := by
  have hs := Consistent.of_run hrun
  constructor
  · intro p q f g hf hg hfpos hgpos hkey
    have hp := (hs.indexed_iff _ _ p).mpr ⟨rfl, f, hf, hfpos, rfl⟩
    have hq := (hs.indexed_iff _ _ q).mpr ⟨rfl, g, hg, hgpos, hkey.symm⟩
    exact Option.some.inj (hp.symm.trans hq)
  · exact hs.indexed_iff
  · exact fun p => hs.exists_frame
  · intro p hcall
    obtain ⟨f, hlookup, hzero⟩ := hs.exists_unheld hcall
    constructor
    · rw [hs.counted, references_of_lookup hlookup, hzero]
    · rw [hs.deletions, unheld_of_lookup hlookup, hzero]
      rfl
  · intro n hn
    rw [hs.settled, if_pos hn]
  · intro call hcall memory hunused
    obtain ⟨t, event, hstep, -⟩ := hs.exists_advance hcall memory hunused
    rw [hstep, Option.isSome_some]
  · obtain ⟨later, t, hquiet, hdone, hhanded⟩ := exists_quiet hrun
    use later, t, hquiet, hdone
    intro n hn
    have hsettled := (Consistent.of_run hquiet).settled n
    rw [hdone, hhanded, if_pos hn] at hsettled
    simpa using hsettled

/-- A host frame that two threads import. -/
def sharedRef : FrameRef := ⟨0x7f3a40, 0x51d0⟩

/-- The first thread drops the last reference to its wrapper while the second is about
to look the frame up, and deletes the wrapper after the second has made another. -/
def racingActions : List Action :=
  [.callWrap sharedRef 9, .advance (.wrap ⟨sharedRef, 0⟩ 9) ⟨some 16, true⟩,
   .callWrap sharedRef 9, .drop 16, .advance (.releaseFrame 16) ⟨none, false⟩,
   .advance (.wrap ⟨sharedRef, 1⟩ 9) ⟨some 32, true⟩]

theorem wrappers_sound_racing : ∃ history s,
    (s.handles = [32] ∧ s.calls = [.delete 16] ∧
      s.frameIndices (index (key sharedRef 9)) (key sharedRef 9) = some 32) ∧
    Sound history s := by
  obtain ⟨history, s, hrun, hcheck⟩ := Transition.exists_run Wrappers.step Transition.always
    .initial racingActions (fun _ s => s.handles = [32] ∧ s.calls = [.delete 16] ∧
      s.frameIndices (index (key sharedRef 9)) (key sharedRef 9) = some 32) (by decide)
  exact ⟨history, s, of_decide_eq_true hcheck, wrappers_sound hrun⟩

end AviSynth.Cx
