import AviSynth.Plugins.PluginRules
import AviSynth.Plugins.Registration

/-!
# The priority of functions that were not autoloaded

The autoload run is made once. Functions that are registered during it go to a table of
their own, which a lookup searches last. If an exception ends the run, `Autoloading`
stays set, and later functions go to the same table; they come after the autoloaded
ones there, so that a lookup still finds them first.
-/

namespace AviSynth

open Exceptional PluginState PluginWorld

/-- If an autoloaded function was found, then all that could have been found were
autoloaded. -/
def FoundFunction.Preferred (l : FoundFunction) : Prop :=
  l.function.duringAutoload = true → ∀ g ∈ l.candidates, g.duringAutoload = true
  deriving Decidable

/-- An exception has ended an autoload run. -/
def PluginState.AutoloadFailed (s : PluginState) : Prop := .autoloadEnded true ∈ s.history

/-- The invariant of the loads. -/
structure AutoloadValid (s : PluginState) : Prop where
  running : s.inAutoload = true → s.autoloading = true ∧ s.autoloadExecuted = true
  executed : s.autoloading = true → s.autoloadExecuted = true
  external : ∀ e ∈ s.externalFunctions, e.function.duringAutoload = false
  before : s.autoloadExecuted = false → s.autoloadedFunctions = []
  autoloaded : s.inAutoload = true → ∀ e ∈ s.autoloadedFunctions, e.function.duringAutoload = true
  /-- The functions of the autoload run come before the others. -/
  ordered : s.autoloadedFunctions.Pairwise fun e g =>
    g.function.duringAutoload = true → e.function.duringAutoload = true
  ended : s.inAutoload = true ∨ s.autoloadExecuted = false →
    ∀ failed, .autoloadEnded failed ∉ s.history
  flag : s.autoloading = true → s.inAutoload = false → s.AutoloadFailed
  failed : s.AutoloadFailed → s.autoloading = true
  observed : .observed true false ∈ s.history → s.AutoloadFailed
  found : ∀ l, .found l ∈ s.history → l.Preferred

/-- Events that say nothing about autoloading. -/
def PluginEvent.Neutral : PluginEvent → Prop
  | .found _ | .autoloadEnded _ | .observed _ _ => False
  | _ => True

/-- Nothing is registered or autoloaded between `s` and `t`. -/
structure Shrinks (s t : PluginState) : Prop where
  inAutoload : t.inAutoload = s.inAutoload
  autoloading : t.autoloading = s.autoloading
  autoloadExecuted : t.autoloadExecuted = s.autoloadExecuted
  external : t.externalFunctions.Sublist s.externalFunctions
  autoloaded : t.autoloadedFunctions.Sublist s.autoloadedFunctions
  history : ∃ events, t.history = s.history ++ events ∧ ∀ e ∈ events, e.Neutral

namespace Shrinks

theorem refl (s : PluginState) : Shrinks s s :=
  ⟨rfl, rfl, rfl, List.Sublist.refl _, List.Sublist.refl _, [], by simp⟩

theorem trans {s t u : PluginState} (hst : Shrinks s t) (htu : Shrinks t u) : Shrinks s u where
  inAutoload := htu.inAutoload.trans hst.inAutoload
  autoloading := htu.autoloading.trans hst.autoloading
  autoloadExecuted := htu.autoloadExecuted.trans hst.autoloadExecuted
  external := htu.external.trans hst.external
  autoloaded := htu.autoloaded.trans hst.autoloaded
  history := by
    obtain ⟨first, hfirst, hneutral⟩ := hst.history
    obtain ⟨second, hsecond, hneutral'⟩ := htu.history
    use first ++ second
    constructor
    · rw [hsecond, hfirst, List.append_assoc]
    · exact List.forall_mem_append.mpr ⟨hneutral, hneutral'⟩

/-- A change that keeps the flags, the tables of functions and the history. -/
theorem of_eq {s t : PluginState} (hin : t.inAutoload = s.inAutoload)
    (hautoloading : t.autoloading = s.autoloading)
    (hexecuted : t.autoloadExecuted = s.autoloadExecuted)
    (hexternal : t.externalFunctions = s.externalFunctions)
    (hautoloaded : t.autoloadedFunctions = s.autoloadedFunctions)
    (hhistory : t.history = s.history) : Shrinks s t :=
  ⟨hin, hautoloading, hexecuted, hexternal ▸ List.Sublist.refl _, hautoloaded ▸ List.Sublist.refl _,
    [], by simp [hhistory]⟩

theorem log {event : PluginEvent} (h : event.Neutral) (s : PluginState) : Shrinks s (s.log event) :=
  ⟨rfl, rfl, rfl, List.Sublist.refl _, List.Sublist.refl _, [event], rfl, by simpa using h⟩

theorem runShutdowns (session : ℕ) (callbacks : List ℕ) (s : PluginState) :
    Shrinks s (s.runShutdowns session callbacks) := by
  refine ⟨rfl, rfl, rfl, List.Sublist.refl _, List.Sublist.refl _, _, rfl, ?_⟩
  intro e he
  obtain ⟨callback, -, rfl⟩ := List.mem_map.mp he
  trivial

theorem destroyBindings (session : ℕ) (bindings : List (ℕ × ℕ)) (s : PluginState) :
    Shrinks s (s.destroyBindings session bindings) := by
  refine ⟨rfl, rfl, rfl, List.Sublist.refl _, List.Sublist.refl _, _, rfl, ?_⟩
  intro e he
  obtain ⟨binding, -, rfl⟩ := List.mem_map.mp he
  trivial

theorem removeFunctions (session : ℕ) (binding : Option ℕ) (s : PluginState) :
    Shrinks s (s.removeFunctions session binding) := by
  refine ⟨rfl, rfl, rfl, ?_, ?_, [], by simp [PluginState.removeFunctions], by simp⟩
  · simp only [PluginState.removeFunctions, FunctionMap.removeFunctions_eq_without]
    exact List.filter_sublist
  · simp only [PluginState.removeFunctions, FunctionMap.removeFunctions_eq_without]
    exact List.filter_sublist

theorem withdraw (session : ℕ) (binding : Option ℕ) (start : PluginTables) (s : PluginState) :
    Shrinks s (s.withdraw session binding start) :=
  (removeFunctions session binding s).trans (log (by trivial) _)

theorem setSession (session : ℕ) (value : Option CxHostSession) (s : PluginState) :
    Shrinks s (s.setSession session value) := of_eq rfl rfl rfl rfl rfl rfl

theorem addBinding (session binding apply : ℕ) (s : PluginState) :
    Shrinks s (s.addBinding session binding apply) := by
  unfold PluginState.addBinding
  cases s.sessions session with
  | none => exact refl s
  | some cx => exact setSession session _ s

theorem eraseBinding (session binding : ℕ) (s : PluginState) :
    Shrinks s (s.eraseBinding session binding) := by
  unfold PluginState.eraseBinding
  cases s.sessions session with
  | none => exact refl s
  | some cx => exact (setSession session _ s).trans (log (by trivial) _)

theorem addShutdown (session callback : ℕ) (s : PluginState) :
    Shrinks s (s.addShutdown session callback) := by
  unfold PluginState.addShutdown
  cases s.sessions session with
  | none => exact refl s
  | some cx => exact (setSession session _ s).trans (log (by trivial) _)

theorem addExit (f : ExitFunction) (s : PluginState) : Shrinks s (s.addExit f) :=
  of_eq rfl rfl rfl rfl rfl rfl

theorem commit (session : ℕ) (s : PluginState) : Shrinks s (s.commit session) := by
  unfold PluginState.commit
  cases s.sessions session with
  | none => exact refl s
  | some cx =>
    exact ((setSession session _ s).trans (addExit _ _)).trans (log (by trivial) _)

theorem destroySession (session : ℕ) (start : PluginTables) (s : PluginState) :
    Shrinks s (s.destroySession session start) := by
  unfold PluginState.destroySession
  cases s.sessions session with
  | none => exact refl s
  | some cx =>
    dsimp only
    split_ifs with hcommitted
    · exact (destroyBindings session _ s).trans (setSession session _ _)
    · exact (((withdraw session none start s).trans (runShutdowns session _ _)).trans
        (destroyBindings session _ _)).trans (setSession session _ _)

theorem freeLibrary (path : String) (s : PluginState) : Shrinks s (s.freeLibrary path) :=
  of_eq rfl rfl rfl rfl rfl rfl

theorem pushPlugin (autoloading : Bool) (plugin : PluginFile) (s : PluginState) :
    Shrinks s (s.pushPlugin autoloading plugin) := by
  unfold PluginState.pushPlugin
  cases autoloading <;> exact of_eq rfl rfl rfl rfl rfl rfl

theorem endAttempt (failed : Bool) (s t : PluginState) : Shrinks t (s.endAttempt failed t) :=
  ⟨rfl, rfl, rfl, List.Sublist.refl _, List.Sublist.refl _, [_], rfl, by simp [PluginEvent.Neutral]⟩

end Shrinks

namespace AutoloadValid

variable {s t : PluginState}

section

variable (h : AutoloadValid s)
include h

/-- What only takes functions away keeps the invariant. -/
theorem shrinks (hst : Shrinks s t) : AutoloadValid t := by
  obtain ⟨hin, hautoloading, hexecuted, hexternal, hautoloaded, events, hhistory, hneutral⟩ := hst
  have hmem : ∀ {event : PluginEvent}, ¬ event.Neutral →
      (event ∈ t.history ↔ event ∈ s.history) := by
    intro event hevent
    rw [hhistory, List.mem_append]
    constructor
    · rintro (hold | hnew)
      · exact hold
      · exact absurd (hneutral event hnew) hevent
    · exact Or.inl
  have hfailed : t.AutoloadFailed ↔ s.AutoloadFailed := hmem (by simp [PluginEvent.Neutral])
  constructor
  · rw [hin, hautoloading, hexecuted]
    exact h.running
  · rw [hautoloading, hexecuted]
    exact h.executed
  · intro e he
    exact h.external e (hexternal.subset he)
  · rw [hexecuted]
    intro hnot
    rw [h.before hnot] at hautoloaded
    exact List.sublist_nil.mp hautoloaded
  · rw [hin]
    intro hrunning e he
    exact h.autoloaded hrunning e (hautoloaded.subset he)
  · exact h.ordered.sublist hautoloaded
  · rw [hin, hexecuted]
    intro hrun failed hended
    exact h.ended hrun failed ((hmem (by simp [PluginEvent.Neutral])).mp hended)
  · rw [hautoloading, hin, hfailed]
    exact h.flag
  · rw [hautoloading, hfailed]
    exact h.failed
  · rw [hmem (by simp [PluginEvent.Neutral]), hfailed]
    exact h.observed
  · intro l hl
    exact h.found l ((hmem (by simp [PluginEvent.Neutral])).mp hl)

variable {f : AVSFunction}

/-- A function is entered in the table that the flag says. -/
theorem pushFunction (name : String)
    (hf : f.duringAutoload = s.inAutoload) : AutoloadValid (s.pushFunction name f) := by
  unfold PluginState.pushFunction
  by_cases hautoloading : s.autoloading = true
  · have hexecuted := h.executed hautoloading
    rw [if_pos hautoloading]
    constructor
    · exact h.running
    · exact h.executed
    · exact h.external
    · intro hnot
      exact absurd (hexecuted.symm.trans hnot) (by decide)
    · intro hrunning e he
      rcases FunctionMap.mem_add.mp he with hold | rfl
      · exact h.autoloaded hrunning e hold
      · exact hf.trans hrunning
    · apply List.pairwise_append.mpr
      refine ⟨h.ordered, List.pairwise_singleton _ _, ?_⟩
      intro e he g hg hduring
      rw [List.mem_singleton.mp hg] at hduring
      exact h.autoloaded (hf.symm.trans hduring) e he
    · exact h.ended
    · exact h.flag
    · exact h.failed
    · exact h.observed
    · exact h.found
  · have hout : s.inAutoload = false := by
      cases hin : s.inAutoload with
      | false => rfl
      | true => exact absurd (h.running hin).1 hautoloading
    rw [if_neg hautoloading]
    constructor
    · exact h.running
    · exact h.executed
    · intro e he
      rcases FunctionMap.mem_add.mp he with hold | rfl
      · exact h.external e hold
      · exact hf.trans hout
    · exact h.before
    · exact h.autoloaded
    · exact h.ordered
    · exact h.ended
    · exact h.flag
    · exact h.failed
    · exact h.observed
    · exact h.found

theorem enter (hf : f.duringAutoload = s.inAutoload) (both : Bool) :
    AutoloadValid (s.enter f both) ∧ (s.enter f both).inAutoload = s.inAutoload := by
  have hkept : ∀ name (u : PluginState), (u.pushFunction name f).inAutoload = u.inAutoload := by
    intro name u
    unfold PluginState.pushFunction
    cases u.autoloading <;> rfl
  cases both with
  | false => exact ⟨h.pushFunction f.name hf, hkept _ _⟩
  | true =>
    have hfirst := h.pushFunction f.name hf
    exact ⟨hfirst.pushFunction f.canonName (hf.trans (hkept _ _).symm),
      (hkept _ _).trans (hkept _ _)⟩

/-- The flags at a request. -/
theorem observe : AutoloadValid (PluginWorld.observe s) := by
  have hmem : ∀ {event : PluginEvent}, event ∈ (PluginWorld.observe s).history ↔
      event ∈ s.history ∨ event = .observed s.autoloading s.inAutoload := by
    simp [PluginWorld.observe, PluginState.log]
  have hfailed : (PluginWorld.observe s).AutoloadFailed ↔ s.AutoloadFailed := by
    simp [AutoloadFailed, hmem]
  constructor
  · exact h.running
  · exact h.executed
  · exact h.external
  · exact h.before
  · exact h.autoloaded
  · exact h.ordered
  · intro hrun failed hended
    exact h.ended hrun failed (by simpa [hmem] using hended)
  · rw [hfailed]
    exact h.flag
  · rw [hfailed]
    exact h.failed
  · intro hobserved
    rw [hfailed]
    rcases hmem.mp hobserved with hold | hnew
    · exact h.observed hold
    · injection hnew with hautoloading hin
      exact h.flag hautoloading.symm hin.symm
  · intro l hl
    exact h.found l (by simpa [hmem] using hl)

/-- The function that a lookup finds is preferred to the others that it could have found. -/
theorem preferred {name : String} {fits : AVSFunction → Bool}
    (hlookup : pluginLookup s name fits = some f) :
    FoundFunction.Preferred ⟨f, candidates s name fits⟩ := by
  intro hduring g hg
  rcases Option.or_eq_some_iff.mp hlookup with hexternal | ⟨hnone, hautoloaded⟩
  · obtain ⟨e, he, rfl⟩ := FunctionMap.mem_of_lookup hexternal
    exact absurd (hduring.symm.trans (h.external e he)) (by decide)
  · rw [FunctionMap.lookup_eq_getLast?, List.getLast?_eq_none_iff] at hnone
    rw [FunctionMap.lookup_eq_getLast?] at hautoloaded
    obtain ⟨earlier, hlast⟩ := List.getLast?_eq_some_iff.mp hautoloaded
    have hordered : (s.autoloadedFunctions.candidates name fits).Pairwise
        fun e g => g.duringAutoload = true → e.duringAutoload = true :=
      List.pairwise_map.mpr (h.ordered.sublist List.filter_sublist)
    unfold candidates at hg
    rw [hnone, List.nil_append, hlast] at hg
    rw [hlast] at hordered
    rcases List.mem_append.mp hg with hearlier | hlater
    · exact (List.pairwise_append.mp hordered).2.2 g hearlier f (List.mem_singleton_self f) hduring
    · rw [List.mem_singleton.mp hlater]
      exact hduring

/-- A lookup that prefers manual functions keeps it. -/
theorem logFound {l : FoundFunction} (hl : l.Preferred) :
    AutoloadValid (s.log (.found l)) := by
  have hmem : ∀ {event : PluginEvent}, event ∈ (s.log (.found l)).history ↔
      event ∈ s.history ∨ event = .found l := by
    simp [PluginState.log]
  have hfailed : (s.log (.found l)).AutoloadFailed ↔ s.AutoloadFailed := by
    simp [AutoloadFailed, hmem]
  constructor
  · exact h.running
  · exact h.executed
  · exact h.external
  · exact h.before
  · exact h.autoloaded
  · exact h.ordered
  · intro hrun failed hended
    exact h.ended hrun failed (by simpa [hmem] using hended)
  · rw [hfailed]
    exact h.flag
  · rw [hfailed]
    exact h.failed
  · rw [hfailed]
    intro hobserved
    exact h.observed (by simpa [hmem] using hobserved)
  · intro l' hl'
    rcases hmem.mp hl' with hold | hnew
    · exact h.found l' hold
    · injection hnew with heq
      rwa [heq]

/-- The autoload run begins once. -/
theorem beginAutoload (hfirst : s.autoloadExecuted = false) :
    AutoloadValid s.beginAutoload := by
  have hnone : ¬ s.AutoloadFailed := fun hfailed => h.ended (Or.inr hfirst) true hfailed
  constructor
  · exact fun _ => ⟨rfl, rfl⟩
  · exact fun _ => rfl
  · exact h.external
  · exact fun hnot => absurd hnot (by simp [PluginState.beginAutoload])
  · intro _ e he
    have hempty : e ∈ s.autoloadedFunctions := he
    rw [h.before hfirst] at hempty
    exact absurd hempty List.not_mem_nil
  · exact h.ordered
  · exact fun _ => h.ended (Or.inr hfirst)
  · exact fun _ hin => absurd hin (by simp [PluginState.beginAutoload])
  · exact fun hfailed => absurd hfailed hnone
  · exact fun hobserved => absurd (h.observed hobserved) hnone
  · exact h.found

end

/-- So does the end of the autoload. -/
theorem endAutoload (h : AutoloadValid t) (hin : t.inAutoload = true) (failed : Bool) :
    AutoloadValid (t.endAutoload failed) := by
  obtain ⟨hautoloading, hexecuted⟩ := h.running hin
  have hmem : ∀ {event : PluginEvent}, event ∈ (t.endAutoload failed).history ↔
      event ∈ t.history ∨ event = .autoloadEnded failed := by
    simp [PluginState.endAutoload, PluginState.log]
  have hflag : (t.endAutoload failed).autoloading = failed := by
    simp [PluginState.endAutoload, PluginState.log, hautoloading]
  have hfailed : (t.endAutoload failed).AutoloadFailed ↔ failed = true := by
    have hnone : .autoloadEnded true ∉ t.history := h.ended (Or.inl hin) true
    simp [AutoloadFailed, hmem, hnone, eq_comm]
  constructor
  · intro hrunning
    exact absurd hrunning (by simp [PluginState.endAutoload, PluginState.log])
  · exact fun _ => hexecuted
  · exact h.external
  · exact fun hnot => absurd (hexecuted.symm.trans hnot) (by decide)
  · intro hrunning
    exact absurd hrunning (by simp [PluginState.endAutoload, PluginState.log])
  · exact h.ordered
  · rintro (hrunning | hnot)
    · exact absurd hrunning (by simp [PluginState.endAutoload, PluginState.log])
    · exact absurd (hexecuted.symm.trans hnot) (by decide)
  · rw [hflag, hfailed]
    exact fun hset _ => hset
  · rw [hflag, hfailed]
    exact id
  · intro hobserved
    rcases hmem.mp hobserved with hold | hnew
    · exact absurd (h.observed hold) (h.ended (Or.inl hin) true)
    · cases hnew
  · intro l hl
    exact h.found l (by simpa [hmem] using hl)

end AutoloadValid

/-- What a request does: it keeps the invariant, and no autoload run is left in progress. -/
def AutoloadWork (_ : Caller) (s t : PluginState) : Prop :=
  AutoloadValid s → AutoloadValid t ∧ t.inAutoload = s.inAutoload

namespace AutoloadWork

variable {c : Caller} {s t u : PluginState}

theorem trans (hst : AutoloadWork c s t) (htu : AutoloadWork c t u) : AutoloadWork c s u := by
  intro h
  obtain ⟨ht, hin⟩ := hst h
  obtain ⟨hu, hin'⟩ := htu ht
  exact ⟨hu, hin'.trans hin⟩

theorem of_shrinks (h : Shrinks s t) : AutoloadWork c s t :=
  fun hs => ⟨hs.shrinks h, h.inAutoload⟩

theorem enter {f : AVSFunction} (hf : f.duringAutoload = s.inAutoload) (both : Bool) :
    AutoloadWork c s (s.enter f both) := fun hs => hs.enter hf both

theorem setOperations (n : ℕ) (s : PluginState) : AutoloadWork c s (s.setOperations n) :=
  of_shrinks (.of_eq rfl rfl rfl rfl rfl rfl)

theorem addFunction (world : PluginWorld) (code : FunctionCode) (name params : String) :
    Keeps (AutoloadWork c) (world.addFunction name params code) := by
  intro s result t h
  rcases addFunction_cases h with ⟨n, rfl⟩ | ⟨n, m, both, rfl⟩
  · exact setOperations n s
  · have hneutral : (PluginEvent.registered (s.newFunction name params code)).Neutral := trivial
    have hset : Shrinks s ((s.setOperations n).setFresh (s.fresh + 1)) :=
      .of_eq rfl rfl rfl rfl rfl rfl
    have hlogged := hset.trans (.log hneutral _)
    exact ((of_shrinks hlogged).trans (enter rfl both)).trans (setOperations m _)

theorem registerFunction (world : PluginWorld) (session apply : ℕ) (name params : String) :
    Keeps (AutoloadWork c) (world.registerFunction session name params apply) := by
  intro s result t h
  have hbound : ∀ n, Shrinks s (bound session apply n s) := by
    intro n
    have hset : Shrinks s ((s.setOperations n).setFresh (s.fresh + 1)) :=
      .of_eq rfl rfl rfl rfl rfl rfl
    exact hset.trans (.addBinding session s.fresh apply _)
  have hcreated : ∀ n m, Shrinks s (created session apply n m s) :=
    fun n m => (hbound n).trans (.of_eq rfl rfl rfl rfl rfl rfl)
  have hfunction : ∀ n m, (boundFunction session apply n name params s).duringAutoload =
      (created session apply n m s).inAutoload := fun _ _ => rfl
  have htaken : ∀ u, Shrinks u (takenBack session s u) :=
    fun u => (Shrinks.withdraw session _ _ u).trans (Shrinks.eraseBinding session _ _)
  rcases registerFunction_cases h with
    ⟨n, rfl⟩ | ⟨n, m, k, rfl⟩ | ⟨n, m, rfl⟩ | ⟨n, m, k, both, rfl⟩
  · exact setOperations n s
  · exact (((of_shrinks (hcreated n m)).trans (enter (hfunction n m) true)).trans
      (setOperations k _)).trans (of_shrinks (.log (by trivial) _))
  · exact ((of_shrinks (hbound n)).trans (setOperations m _)).trans (of_shrinks (htaken _))
  · exact (((of_shrinks (hcreated n m)).trans (enter (hfunction n m) both)).trans
      (setOperations k _)).trans (of_shrinks (htaken _))

/-- An attempt begins, and its library is loaded. -/
theorem opened (path : String) (s : PluginState) :
    Shrinks s (s.beginAttempt.openLibrary path) := .of_eq rfl rfl rfl rfl rfl rfl

/-- Each way in which an attempt ends is work. -/
theorem attempted {path : String} {failed : Bool}
    (h : Attempted AutoloadWork s path failed t) : AutoloadWork c s t := by
  have hsession : Shrinks s ((s.beginAttempt.openLibrary path).setSession s.fresh
      (some ⟨path, [], [], false⟩)) := (opened path s).trans (.setSession _ _ _)
  cases h with
  | untouched => exact of_shrinks (.of_eq rfl rfl rfl rfl rfl rfl)
  | rejected => exact of_shrinks ((opened path s).trans (.freeLibrary path _))
  | loaded autoloading plugin hplugin work =>
    exact ((of_shrinks (opened path s)).trans work).trans
      (of_shrinks (.pushPlugin autoloading plugin _))
  | kept work => exact (of_shrinks (opened path s)).trans work
  | unloaded work =>
    exact ((of_shrinks (opened path s)).trans work).trans (of_shrinks (.freeLibrary path _))
  | committed autoloading plugin hplugin work =>
    exact ((of_shrinks hsession).trans work).trans (of_shrinks
      ((Shrinks.commit s.fresh _).trans (Shrinks.pushPlugin autoloading plugin _)))
  | rolledBack work =>
    exact ((of_shrinks hsession).trans work).trans (of_shrinks
      ((Shrinks.destroySession s.fresh _ _).trans (Shrinks.freeLibrary path _)))

/-- The rules that the induction over programs asks for. -/
theorem rules (world : PluginWorld) : PluginRules world AutoloadWork where
  refl _ s := of_shrinks (.refl s)
  trans _ _ _ _ := trans
  setOperations _ s n := setOperations n s
  setPluginInLoad _ s _ := of_shrinks (.of_eq rfl rfl rfl rfl rfl rfl)
  setImports _ s _ := of_shrinks (.of_eq rfl rfl rfl rfl rfl rfl)
  observe _ s := fun hs => ⟨hs.observe, rfl⟩
  addFunction code name params _ := addFunction world code name params
  registerFunction session apply name params := registerFunction world session apply name params
  addShutdown session callback s := of_shrinks (.addShutdown session callback s)
  addExit _ s _ := of_shrinks (.addExit _ s)
  found _ s call found hfound := by
    obtain ⟨fits, hlookup, hcandidates⟩ := scriptLookup_found hfound
    have hpreferred : AutoloadValid s → found.Preferred := by
      intro hs
      have hall := hs.preferred hlookup
      rwa [← hcandidates] at hall
    exact fun hs => ⟨hs.logFound (hpreferred hs), rfl⟩
  call _ _ _ _ _ _ h := h
  autoload _ s t failed hfirst h := by
    intro hs
    obtain ⟨ht, hin⟩ := h (hs.beginAutoload hfirst)
    have hout : s.inAutoload = false := by
      cases hrunning : s.inAutoload with
      | false => rfl
      | true => exact absurd ((hs.running hrunning).2.symm.trans hfirst) (by decide)
    exact ⟨ht.endAutoload hin failed, hout.symm⟩
  attempt _ s path failed t h :=
    (attempted h).trans (of_shrinks (.endAttempt failed s t))

end AutoloadWork

namespace PluginState

/-- A lookup always prefers the functions that were not autoloaded: those of the run and
any that could be made now. -/
def PrefersManual (s : PluginState) : Prop :=
  (∀ l, .found l ∈ s.history → l.Preferred) ∧
    ∀ name fits f, pluginLookup s name fits = some f →
      FoundFunction.Preferred ⟨f, candidates s name fits⟩

/-- Whenever no autoload run was in progress, and now, `Autoloading` is not set. -/
def FlagCleared (s : PluginState) : Prop :=
  (∀ autoloading, .observed autoloading false ∈ s.history → autoloading = false) ∧
    (s.inAutoload = false → s.autoloading = false)

/-- A new manager. -/
theorem initial_autoloadValid : AutoloadValid initial := by
  constructor <;> simp [initial, AutoloadFailed]

end PluginState

/-- The functions that were not autoloaded take priority in every run, and the flag is
cleared if and only if no autoload run ends with an exception. -/
theorem PluginWorld.autoload_priority_iff (world : PluginWorld) (fuel : ℕ)
    (program : PluginProgram) (result : Except PluginError PluginAnswer) (t : PluginState)
    (hrun : ofProgram (world.perform fuel .script) program initial =
      some (result, t)) :
    (t.PrefersManual ∧ t.FlagCleared) ↔ .autoloadEnded true ∉ t.history := by
  obtain ⟨hvalid, hout⟩ := (AutoloadWork.rules world).keeps_run fuel .script program _ _ _ hrun
    initial_autoloadValid
  have hmanual : t.PrefersManual := ⟨hvalid.found, fun name fits f => hvalid.preferred⟩
  constructor
  · rintro ⟨-, -, hcleared⟩ hfailed
    have hset : t.autoloading = true := hvalid.failed hfailed
    exact absurd (hset.symm.trans (hcleared hout)) (by decide)
  · intro hnone
    refine ⟨hmanual, ?_, ?_⟩
    · intro autoloading hobserved
      cases autoloading with
      | false => rfl
      | true => exact absurd (hvalid.observed hobserved) hnone
    · intro hin
      cases hautoloading : t.autoloading with
      | false => rfl
      | true => exact absurd (hvalid.flag hautoloading hin) hnone

/-- A plugin that is autoloaded and registers `Blur`. -/
def blurWorld : PluginWorld where
  libraries _ := .library ⟨none, some (.request (.addFunction "Blur" "c" 0) .finish), none, none,
    none⟩
  dirs := [⟨["/plugins/blur.dll"], []⟩]
  scripts _ := .finish (.ok .done)
  bodies n := .finish (.ok (.value n))
  builtins := []
  signatureMatches _ _ _ _ := true
  operation _ := .ok ()

/-- A script that defines its own `Blur` before the plugins are loaded, and calls it. -/
def blurScript : PluginProgram :=
  .request (.addFunction "Blur" "c" 1) fun _ => .request .autoloadPlugins fun _ =>
    .request (.invoke ⟨"blur", 0, false⟩) .finish

theorem autoload_priority_blur : ∃ result t,
    ofProgram (blurWorld.perform 5 .script) blurScript .initial = some (result, t) ∧
      result = .ok (.value 1) ∧ t.PrefersManual ∧ t.FlagCleared := by
  have hresult : ((ofProgram (blurWorld.perform 5 .script) blurScript .initial).map
      fun run => run.1.toOption) = some (some (.value 1)) := by decide +kernel
  have hnone : ((ofProgram (blurWorld.perform 5 .script) blurScript .initial).map
      fun run => run.2.history.any fun
        | .autoloadEnded failed => failed
        | _ => false) = some false := by decide +kernel
  obtain ⟨⟨result, t⟩, hrun, hvalue⟩ := Option.map_eq_some_iff.mp hresult
  rw [hrun, Option.map_some, Option.some_inj, List.any_eq_false] at hnone
  use result, t, hrun
  constructor
  · cases result with
    | ok answer => exact congrArg Except.ok (Option.some.inj hvalue)
    | error e => cases hvalue
  · apply (blurWorld.autoload_priority_iff 5 blurScript result t hrun).mpr
    intro hfailed
    exact absurd rfl (hnone _ hfailed)

/-- An autoload directory with a library for another kind of machine. -/
def otherMachine : PluginWorld where
  libraries _ := .unloadable true
  dirs := [⟨["/plugins/old.dll"], []⟩]
  scripts _ := .finish (.ok .done)
  bodies _ := .finish (.ok .done)
  builtins := []
  signatureMatches _ _ _ _ := true
  operation _ := .ok ()

theorem failedAutoload_leavesFlag :
    ((ofProgram (otherMachine.perform 2 .script) (.ask .autoloadPlugins) .initial).map
      fun run => (run.2.autoloading, run.2.inAutoload)) = some (true, false) ∧
      ¬ ∀ (world : PluginWorld) (fuel : ℕ) (program : PluginProgram)
        (result : Except PluginError PluginAnswer) (t : PluginState),
        ofProgram (world.perform fuel .script) program .initial = some (result, t) →
        t.PrefersManual ∧ t.FlagCleared := by
  have hflags : ((ofProgram (otherMachine.perform 2 .script) (.ask .autoloadPlugins)
      .initial).map fun run => (run.2.autoloading, run.2.inAutoload)) = some (true, false) := by
    decide +kernel
  constructor
  · exact hflags
  · intro hclaim
    obtain ⟨⟨result, t⟩, hrun, hset⟩ := Option.map_eq_some_iff.mp hflags
    obtain ⟨-, -, hcleared⟩ := hclaim _ _ _ _ _ hrun
    obtain ⟨hautoloading, hout⟩ := Prod.ext_iff.mp hset
    exact absurd (hautoloading.symm.trans (hcleared hout)) (by decide)

end AviSynth
