import AviSynth.Filters.RuntimeFilters
import Mathlib.Tactic.Common

/-!
# The variables of the runtime filters

A runtime filter leaves `last` and `current_frame` as it has found them, unless an
exception leaves it between setting and restoring them. Scripts assign variables
of the frame they run in as they like, so of them it is only asked that they keep
the frames below.
-/

namespace AviSynth

open Exceptional

/-- The call has left both variables as it has found them. -/
def RuntimeRecord.Restored (r : RuntimeRecord) : Prop := r.after = r.before
  deriving Decidable

/-- A piece of work of a thread: it keeps the frames below the innermost ones. If no
exception leaves a runtime filter between setting and restoring the variables,
then its runtime filters have restored them, and `Kept` holds of the innermost
local frame before and after it. -/
def RuntimeAccounted (Kept : VarFrame ScriptValue → VarFrame ScriptValue → Prop)
    (s t : RuntimeState) : Prop :=
  ∃ calls, t.history = s.history ++ calls ∧ s.vars.SameBelow t.vars ∧
    ((∀ r ∈ calls, r.escaped = false) →
      (∀ r ∈ calls, r.Restored) ∧ Kept s.vars.stackFrame t.vars.stackFrame)

/-- If the local variables `last` and `current_frame` are set, they keep their values. -/
def KeepsWatched (frame frame' : VarFrame ScriptValue) : Prop :=
  ∀ name ∈ ["last", "current_frame"], ∀ value, frame.get name = some value →
    frame'.get name = some value

/-- The work of a script: it may assign local variables. -/
abbrev ScriptWork := RuntimeAccounted fun _ _ => True

/-- The work of making a frame. -/
abbrev FrameWork := RuntimeAccounted KeepsWatched

namespace RuntimeAccounted

variable {Kept : VarFrame ScriptValue → VarFrame ScriptValue → Prop}

/-- Work that ends no runtime filter. -/
theorem of_vars {s t : RuntimeState} (hhistory : t.history = s.history)
    (hbelow : s.vars.SameBelow t.vars) (hkept : Kept s.vars.stackFrame t.vars.stackFrame) :
    RuntimeAccounted Kept s t := by
  use []
  simp [hhistory, hbelow, hkept]

theorem refl (hrefl : ∀ f, Kept f f) (s : RuntimeState) : RuntimeAccounted Kept s s :=
  of_vars rfl (VarTable.SameBelow.refl _) (hrefl _)

theorem trans (htrans : ∀ f g h, Kept f g → Kept g h → Kept f h) (s t u : RuntimeState)
    (hst : RuntimeAccounted Kept s t) (htu : RuntimeAccounted Kept t u) :
    RuntimeAccounted Kept s u := by
  obtain ⟨first, hfirst, hbelow, hcalm⟩ := hst
  obtain ⟨second, hsecond, hbelow', hcalm'⟩ := htu
  use first ++ second
  simp only [List.forall_mem_append]
  constructor
  · rw [hsecond, hfirst, List.append_assoc]
  constructor
  · exact hbelow.trans hbelow'
  · rintro ⟨h, h'⟩
    exact ⟨⟨(hcalm h).1, (hcalm' h').1⟩, htrans _ _ _ (hcalm h).2 (hcalm' h').2⟩

end RuntimeAccounted

theorem KeepsWatched.refl (frame : VarFrame ScriptValue) : KeepsWatched frame frame :=
  fun _ _ _ h => h

theorem KeepsWatched.trans (f g h : VarFrame ScriptValue) (hfg : KeepsWatched f g)
    (hgh : KeepsWatched g h) : KeepsWatched f h :=
  fun name hname value hvalue => hgh name hname value (hfg name hname value hvalue)

theorem ScriptWork.refl (s : RuntimeState) : ScriptWork s s :=
  RuntimeAccounted.refl (fun _ => trivial) s

theorem ScriptWork.trans (s t u : RuntimeState) (hst : ScriptWork s t) (htu : ScriptWork t u) :
    ScriptWork s u := RuntimeAccounted.trans (fun _ _ _ _ _ => trivial) s t u hst htu

theorem FrameWork.refl (s : RuntimeState) : FrameWork s s :=
  RuntimeAccounted.refl KeepsWatched.refl s

theorem FrameWork.trans (s t u : RuntimeState) (hst : FrameWork s t) (htu : FrameWork t u) :
    FrameWork s u := RuntimeAccounted.trans KeepsWatched.trans s t u hst htu

/-- Making a frame is also something that a script may do. -/
theorem FrameWork.script (s t : RuntimeState) (h : FrameWork s t) : ScriptWork s t := by
  obtain ⟨calls, hhistory, hbelow, hcalm⟩ := h
  exact ⟨calls, hhistory, hbelow, fun h => ⟨(hcalm h).1, trivial⟩⟩

namespace RuntimeState

theorem setWatched_below (values : ScriptValue × ScriptValue) (s : RuntimeState) :
    s.vars.SameBelow (s.setWatched values).vars :=
  (VarTable.SameBelow.set _ _ _).trans (VarTable.SameBelow.set _ _ _)

/-- After both variables are set, they have the given values. -/
theorem setWatched_get (values : ScriptValue × ScriptValue) (s : RuntimeState) :
    (s.setWatched values).vars.stackFrame.get "last" = some values.1 ∧
      (s.setWatched values).vars.stackFrame.get "current_frame" = some values.2 := by
  constructor
  · have hname : "last".toLower ≠ "current_frame".toLower := by decide +kernel
    exact (VarFrame.get_set_ne _ _ hname).trans (VarFrame.get_set_self _ _ _)
  · exact VarFrame.get_set_self _ _ _

/-- What `GetVarDef` says of a local variable. -/
theorem getVarDef_of_local {s : RuntimeState} {name : String} {value : ScriptValue}
    (h : s.vars.stackFrame.get name = some value) : s.getVarDef name = value := by
  simp [getVarDef, VarTable.get_of_local h]

/-- Variables that are set to what they were keep their values, whatever happened
in between. -/
theorem setWatched_kept (s t : RuntimeState) :
    KeepsWatched s.vars.stackFrame (t.setWatched s.watched).vars.stackFrame := by
  obtain ⟨hlast, hframe⟩ := setWatched_get s.watched t
  intro name hname value hvalue
  have hdef : s.getVarDef name = value := getVarDef_of_local hvalue
  simp only [List.mem_cons, List.not_mem_nil, or_false] at hname
  rcases hname with rfl | rfl
  · exact hlast.trans (congrArg some hdef)
  · exact hframe.trans (congrArg some hdef)

/-- Work that begins with both variables set ends with the same values. -/
theorem watched_of_kept {s t : RuntimeState} {values : ScriptValue × ScriptValue}
    (h : KeepsWatched (s.setWatched values).vars.stackFrame t.vars.stackFrame) :
    t.watched = values := by
  obtain ⟨hlast, hframe⟩ := setWatched_get values s
  have hlast' : t.getVarDef "last" = values.1 :=
    getVarDef_of_local (h "last" (by simp) _ hlast)
  have hframe' : t.getVarDef "current_frame" = values.2 :=
    getVarDef_of_local (h "current_frame" (by simp) _ hframe)
  exact Prod.ext hlast' hframe'

end RuntimeState

namespace RuntimeAccounted

variable {Kept : VarFrame ScriptValue → VarFrame ScriptValue → Prop} {s t : RuntimeState}
  {values : ScriptValue × ScriptValue}

/-- A call that an exception has left between setting and restoring the variables. -/
theorem record_escaped (h : ScriptWork s t) (before : ScriptValue × ScriptValue) :
    RuntimeAccounted Kept s (t.record before true) := by
  obtain ⟨calls, hhistory, hbelow, -⟩ := h
  use calls ++ [⟨before, true, t.watched⟩]
  constructor
  · simp [RuntimeState.record, hhistory]
  constructor
  · exact hbelow
  · intro hcalm
    have hlast := hcalm _ (List.mem_append_right calls (List.mem_singleton_self _))
    exact absurd hlast (by simp)

/-- A call that has restored the variables if the calls inside of it have. -/
theorem record_restored (h : RuntimeAccounted Kept s t) {before : ScriptValue × ScriptValue}
    (hbefore : Kept s.vars.stackFrame t.vars.stackFrame → t.watched = before) :
    RuntimeAccounted Kept s (t.record before false) := by
  obtain ⟨calls, hhistory, hbelow, hcalm⟩ := h
  use calls ++ [⟨before, false, t.watched⟩]
  constructor
  · simp [RuntimeState.record, hhistory]
  constructor
  · exact hbelow
  · intro h
    obtain ⟨hrestored, hkept⟩ := hcalm (List.forall_mem_append.mp h).1
    have hlast : ∀ r ∈ [(⟨before, false, t.watched⟩ : RuntimeRecord)], r.Restored := by
      simp [RuntimeRecord.Restored, hbefore hkept]
    exact ⟨List.forall_mem_append.mpr ⟨hrestored, hlast⟩, hkept⟩

/-- What a script has done becomes work of making a frame when both variables are
set back to what they were. -/
theorem setBack (h : ScriptWork (s.setWatched values) t) :
    FrameWork s (t.setWatched s.watched) := by
  obtain ⟨calls, hhistory, hbelow, hcalm⟩ := h
  use calls
  constructor
  · exact hhistory
  constructor
  · exact ((RuntimeState.setWatched_below _ _).trans hbelow).trans
      (RuntimeState.setWatched_below _ _)
  · intro h
    exact ⟨(hcalm h).1, RuntimeState.setWatched_kept s t⟩

/-- What happens between pushing and popping a local and a global frame changes no
variable at all. -/
theorem popGlobal
    (h : ScriptWork ({ s with vars := s.vars.pushGlobal }.setWatchedGlobal values) t) :
    FrameWork s { t with vars := t.vars.popGlobal } ∧ t.vars.popGlobal = s.vars := by
  obtain ⟨calls, hhistory, hbelow, hcalm⟩ := h
  have hset : s.vars.pushGlobal.SameBelow
      ({ s with vars := s.vars.pushGlobal }.setWatchedGlobal values).vars :=
    (VarTable.SameBelow.setGlobal _ _ _).trans (VarTable.SameBelow.setGlobal _ _ _)
  have hpop : t.vars.popGlobal = s.vars := (hset.trans hbelow).popGlobal
  constructor
  · use calls
    constructor
    · exact hhistory
    · simp only [hpop]
      exact ⟨VarTable.SameBelow.refl _, fun h => ⟨(hcalm h).1, KeepsWatched.refl _⟩⟩
  · exact hpop

end RuntimeAccounted

namespace RuntimeWorld

variable {α β : Type}

/-- The work of a runtime filter keeps the variables when the script's work keeps the
frames below, and the requests after it keep the variables. -/
theorem keeps_withVariables (isLocal : Bool) (values : ScriptValue × ScriptValue)
    {evaluate : Runtime α} {deliver : α → Runtime β} (hevaluate : Keeps ScriptWork evaluate)
    (hdeliver : ∀ a, Keeps FrameWork (deliver a)) :
    Keeps FrameWork (withVariables isLocal values evaluate deliver) := by
  intro s result u h
  cases isLocal with
  | true =>
    have hboth : Keeps ScriptWork (evaluate >>= deliver) :=
      hevaluate.bind ScriptWork.trans fun a => (hdeliver a).mono FrameWork.script
    obtain ⟨⟨result', t⟩, hrun, hend⟩ := Option.map_eq_some_iff.mp h
    obtain ⟨hwork, hvars⟩ := RuntimeAccounted.popGlobal (hboth _ _ _ hrun)
    obtain rfl : _ = u := (Prod.ext_iff.mp hend).2
    apply hwork.record_restored
    intro _
    simp [RuntimeState.watched, RuntimeState.getVarDef, hvars]
  | false =>
    obtain ⟨⟨first, t⟩, hrun, hrest⟩ := Option.bind_eq_some_iff.mp h
    have hscript := hevaluate _ _ _ hrun
    cases first with
    | error e =>
      obtain rfl : _ = u := (Prod.ext_iff.mp (Option.some.inj hrest)).2
      apply RuntimeAccounted.record_escaped
      have hset : ScriptWork s (s.setWatched values) :=
        RuntimeAccounted.of_vars rfl (RuntimeState.setWatched_below values s) trivial
      exact ScriptWork.trans _ _ _ hset hscript
    | ok a =>
      obtain ⟨⟨result', v⟩, hrun', hend⟩ := Option.map_eq_some_iff.mp hrest
      obtain rfl : _ = u := (Prod.ext_iff.mp hend).2
      apply FrameWork.trans _ _ _ hscript.setBack
      apply (hdeliver a _ _ _ hrun').record_restored
      exact RuntimeState.watched_of_kept

end RuntimeWorld

end AviSynth
