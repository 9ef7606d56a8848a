import AviSynth.Plugins.LoadInvariant

/-!
# The single operations and the tables

Operations that change no table keep the invariant, and so does the registration of a
function; what a CX session registers and takes back after an exception leaves no
trace in the tables.
-/

namespace AviSynth

open Exceptional PluginState PluginWorld

/-- Events that say nothing about functions and attempts. -/
def PluginEvent.Untold : PluginEvent → Prop
  | .registered _ | .loadEnded _ => False
  | _ => True

/-- The tables stay as they are. -/
structure SameTables (s t : PluginState) : Prop where
  fresh : s.fresh ≤ t.fresh
  attempt : t.attempt = s.attempt
  external : t.externalFunctions = s.externalFunctions
  autoloaded : t.autoloadedFunctions = s.autoloadedFunctions
  loadedPlugins : t.loadedPlugins = s.loadedPlugins
  autoLoadedPlugins : t.autoLoadedPlugins = s.autoLoadedPlugins
  libraries : t.libraries = s.libraries
  sessions : ∀ session, t.sessionKind session = s.sessionKind session
  history : ∃ events, t.history = s.history ++ events ∧ ∀ e ∈ events, e.Untold

namespace PluginState

variable {s t : PluginState}

/-- A session with the same library that is committed or not as before. -/
theorem sessionKind_setSession {session : ℕ} {cx cx' : CxHostSession}
    (hcx : s.sessions session = some cx)
    (hkind : (cx'.library, cx'.committed) = (cx.library, cx.committed)) (session' : ℕ) :
    (s.setSession session (some cx')).sessionKind session' = s.sessionKind session' := by
  unfold sessionKind setSession
  by_cases heq : session' = session
  · rw [heq]
    simp [hcx, hkind]
  · simp [heq]

theorem isSome_sessionKind (session : ℕ) (s : PluginState) :
    (s.sessionKind session).isSome = (s.sessions session).isSome := Option.isSome_map

/-- A session of the same kind as the given one. -/
theorem exists_of_sessionKind {session : ℕ} {cx : CxHostSession}
    (hkind : t.sessionKind session = s.sessionKind session) (hcx : t.sessions session = some cx) :
    ∃ cx', s.sessions session = some cx' ∧ cx'.library = cx.library ∧
      cx'.committed = cx.committed := by
  unfold sessionKind at hkind
  rw [hcx, Option.map_some] at hkind
  obtain ⟨cx', hcx', hsame⟩ := Option.map_eq_some_iff.mp hkind.symm
  exact ⟨cx', hcx', congrArg Prod.fst hsame, congrArg Prod.snd hsame⟩

end PluginState

namespace SameTables

variable {s t u : PluginState}

theorem refl (s : PluginState) : SameTables s s :=
  ⟨Nat.le_refl _, rfl, rfl, rfl, rfl, rfl, rfl, fun _ => rfl, [], by simp⟩

theorem trans (hst : SameTables s t) (htu : SameTables t u) : SameTables s u where
  fresh := hst.fresh.trans htu.fresh
  attempt := htu.attempt.trans hst.attempt
  external := htu.external.trans hst.external
  autoloaded := htu.autoloaded.trans hst.autoloaded
  loadedPlugins := htu.loadedPlugins.trans hst.loadedPlugins
  autoLoadedPlugins := htu.autoLoadedPlugins.trans hst.autoLoadedPlugins
  libraries := htu.libraries.trans hst.libraries
  sessions session := (htu.sessions session).trans (hst.sessions session)
  history := by
    obtain ⟨first, hfirst, huntold⟩ := hst.history
    obtain ⟨second, hsecond, huntold'⟩ := htu.history
    use first ++ second
    constructor
    · rw [hsecond, hfirst, List.append_assoc]
    · exact List.forall_mem_append.mpr ⟨huntold, huntold'⟩

section

variable (h : SameTables s t)
include h

theorem functions : t.functions = s.functions := by
  unfold PluginState.functions
  rw [h.external, h.autoloaded]

theorem history_extends : s.history <+: t.history := by
  obtain ⟨events, hhistory, -⟩ := h.history
  rw [hhistory]
  exact List.prefix_append s.history events

theorem mem_history {event : PluginEvent} (hevent : ¬ event.Untold) :
    event ∈ t.history ↔ event ∈ s.history := by
  obtain ⟨events, hhistory, huntold⟩ := h.history
  rw [hhistory, List.mem_append]
  constructor
  · rintro (hold | hnew)
    · exact hold
    · exact absurd (huntold event hnew) hevent
  · exact Or.inl

theorem calm_iff : t.Calm ↔ s.Calm := by
  unfold Calm
  constructor
  · intro hcalm r hr
    exact hcalm r ((h.mem_history (by simp [PluginEvent.Untold])).mpr hr)
  · intro hcalm r hr
    exact hcalm r ((h.mem_history (by simp [PluginEvent.Untold])).mp hr)

theorem hasCode_iff {path : String} : t.HasCode path ↔ s.HasCode path := by
  unfold HasCode
  rw [h.functions]

theorem isSome_sessions (session : ℕ) :
    (t.sessions session).isSome = (s.sessions session).isSome := by
  rw [← isSome_sessionKind, h.sessions, isSome_sessionKind]

/-- The invariant depends on the tables only. -/
theorem valid (hs : LoadValid s) : LoadValid t where
  attempt_lt := by
    rw [h.attempt]
    exact hs.attempt_lt.trans_le h.fresh
  function_lt f hf := by
    rw [h.functions] at hf
    exact (hs.function_lt f hf).trans_le h.fresh
  code_lt f hf session binding hcode := by
    rw [h.functions] at hf
    obtain ⟨hlive, hbinding⟩ := hs.code_lt f hf session binding hcode
    rw [h.isSome_sessions]
    exact ⟨hlive, hbinding.trans_le h.fresh⟩
  plugin_lt p hp := by
    rw [h.loadedPlugins, h.autoLoadedPlugins] at hp
    exact (hs.plugin_lt p hp).trans_le h.fresh
  session_lt session hlive := by
    rw [h.isSome_sessions] at hlive
    exact (hs.session_lt session hlive).trans_le h.fresh
  registered_lt f hf :=
    (hs.registered_lt f ((h.mem_history (by simp [PluginEvent.Untold])).mp hf)).trans_le h.fresh
  registered f hf := by
    rw [h.functions] at hf
    exact (h.mem_history (by simp [PluginEvent.Untold])).mpr (hs.registered f hf)
  sessionLoaded session cx hcx := by
    obtain ⟨cx', hcx', hlibrary, -⟩ := exists_of_sessionKind (h.sessions session) hcx
    have hloaded := hs.sessionLoaded session cx' hcx'
    rwa [hlibrary, ← h.libraries] at hloaded
  libraryLoaded hcalm path hcode := by
    rw [h.libraries]
    exact hs.libraryLoaded (h.calm_iff.mp hcalm) path (h.hasCode_iff.mp hcode)
  restored_iff r hr := hs.restored_iff r ((h.mem_history (by simp [PluginEvent.Untold])).mp hr)
  noDangling hcalm r hr :=
    hs.noDangling (h.calm_iff.mp hcalm) r ((h.mem_history (by simp [PluginEvent.Untold])).mp hr)

theorem extends_ (hs : LoadValid s) (c : Caller) : LoadExtends c s t where
  fresh := h.fresh
  attempt := h.attempt
  external := by
    rw [h.external]
    exact FunctionMap.Appends.refl _ _ _
  autoloaded := by
    rw [h.autoloaded]
    exact FunctionMap.Appends.refl _ _ _
  loadedPlugins := by
    rw [h.loadedPlugins]
    exact PluginsAppended.refl _ _
  autoLoadedPlugins := by
    rw [h.autoLoadedPlugins]
    exact PluginsAppended.refl _ _
  history := h.history_extends
  libraries path := by rw [h.libraries]
  sessions session _ := h.sessions session
  newSession session cx hnew hcx := by
    have hlive : (s.sessions session).isSome := by
      rw [← h.isSome_sessions, hcx]
      rfl
    exact absurd (hs.session_lt session hlive) (Nat.not_lt.mpr hnew)
  registered f hf := Or.inl ((h.mem_history (by simp [PluginEvent.Untold])).mp hf)
  code _ path hcode := Or.inl (h.hasCode_iff.mp hcode)
  session session hsession := by
    unfold HasSession at hsession
    rw [h.functions] at hsession
    exact Or.inl hsession

theorem work (c : Caller) : LoadWork c s t :=
  fun hs _ => ⟨h.valid hs, h.extends_ hs c⟩

end

/-- A change of what the tables do not have. -/
theorem of_eq (hfresh : s.fresh ≤ t.fresh) (hattempt : t.attempt = s.attempt)
    (htables : t.toPluginTables = s.toPluginTables) (hhistory : t.history = s.history) :
    SameTables s t where
  fresh := hfresh
  attempt := hattempt
  external := congrArg PluginTables.externalFunctions htables
  autoloaded := congrArg PluginTables.autoloadedFunctions htables
  loadedPlugins := congrArg PluginTables.loadedPlugins htables
  autoLoadedPlugins := congrArg PluginTables.autoLoadedPlugins htables
  libraries := congrArg PluginTables.libraries htables
  sessions session := by
    have hsessions := congrArg PluginTables.sessions htables
    unfold sessionKind
    rw [hsessions]
  history := ⟨[], by simp [hhistory]⟩

theorem log {event : PluginEvent} (hevent : event.Untold) (s : PluginState) :
    SameTables s (s.log event) :=
  ⟨Nat.le_refl _, rfl, rfl, rfl, rfl, rfl, rfl, fun _ => rfl, [event], rfl, by simpa using hevent⟩

/-- A session is changed, but not its kind. -/
theorem setSession {session : ℕ} {cx cx' : CxHostSession} (hcx : s.sessions session = some cx)
    (hkind : (cx'.library, cx'.committed) = (cx.library, cx.committed)) :
    SameTables s (s.setSession session (some cx')) :=
  ⟨Nat.le_refl _, rfl, rfl, rfl, rfl, rfl, rfl, sessionKind_setSession hcx hkind, [],
    by simp [PluginState.setSession]⟩

theorem addBinding (session binding apply : ℕ) (s : PluginState) :
    SameTables s (s.addBinding session binding apply) := by
  unfold PluginState.addBinding
  cases hcx : s.sessions session with
  | none => exact refl s
  | some cx => exact setSession hcx rfl

theorem eraseBinding (session binding : ℕ) (s : PluginState) :
    SameTables s (s.eraseBinding session binding) := by
  have hevent : (PluginEvent.bindingDestroyed session binding (s.listed session binding)).Untold :=
    trivial
  unfold PluginState.eraseBinding
  cases hcx : s.sessions session with
  | none => exact refl s
  | some cx =>
    apply SameTables.trans _ (log hevent _)
    exact setSession hcx rfl

theorem addShutdown (session callback : ℕ) (s : PluginState) :
    SameTables s (s.addShutdown session callback) := by
  have hevent : (PluginEvent.accepted session callback (s.bridged.contains session)).Untold :=
    trivial
  unfold PluginState.addShutdown
  cases hcx : s.sessions session with
  | none => exact refl s
  | some cx =>
    apply SameTables.trans _ (log hevent _)
    exact setSession hcx rfl

theorem shutdownBridge (session : ℕ) (s : PluginState) :
    SameTables s (s.shutdownBridge session) := by
  unfold PluginState.shutdownBridge
  cases hcx : s.sessions session with
  | none => exact refl s
  | some cx =>
    let cx' : CxHostSession := { cx with pendingShutdowns := [] }
    have hkind : ∀ session', (s.setSession session (some cx')).sessionKind session' =
        s.sessionKind session' := sessionKind_setSession hcx rfl
    refine ⟨Nat.le_refl _, rfl, rfl, rfl, rfl, rfl, rfl, hkind, _, rfl, ?_⟩
    intro e he
    obtain ⟨callback, -, rfl⟩ := List.mem_map.mp he
    trivial

theorem addExit (f : ExitFunction) (s : PluginState) : SameTables s (s.addExit f) :=
  of_eq (Nat.le_refl _) rfl rfl rfl

theorem setOperations (n : ℕ) (s : PluginState) : SameTables s (s.setOperations n) :=
  of_eq (Nat.le_refl _) rfl rfl rfl

theorem setFresh {n : ℕ} (hn : s.fresh ≤ n) : SameTables s (s.setFresh n) := of_eq hn rfl rfl rfl

end SameTables

/-- The function `f` is entered in the tables. -/
structure Registers (f : AVSFunction) (s t : PluginState) : Prop where
  fresh : s.fresh ≤ t.fresh
  attempt : t.attempt = s.attempt
  external : ∃ new, t.externalFunctions = s.externalFunctions ++ new ∧ ∀ e ∈ new, e.function = f
  autoloaded : ∃ new, t.autoloadedFunctions = s.autoloadedFunctions ++ new ∧
    ∀ e ∈ new, e.function = f
  mem : f ∈ t.functions
  loadedPlugins : t.loadedPlugins = s.loadedPlugins
  autoLoadedPlugins : t.autoLoadedPlugins = s.autoLoadedPlugins
  libraries : t.libraries = s.libraries
  sessions : t.sessions = s.sessions
  history : t.history = s.history ++ [.registered f]

namespace Registers

variable {f : AVSFunction} {s t : PluginState}

theorem functions (h : Registers f s t) {g : AVSFunction} (hg : g ∈ t.functions) :
    g ∈ s.functions ∨ g = f := by
  obtain ⟨newExternal, hexternal, hnew⟩ := h.external
  obtain ⟨newAutoloaded, hautoloaded, hnew'⟩ := h.autoloaded
  obtain ⟨e, he, rfl⟩ := mem_functions.mp hg
  rw [hexternal, hautoloaded, List.mem_append, List.mem_append] at he
  rcases he with (hold | hadded) | (hold | hadded)
  · exact Or.inl (mem_functions.mpr ⟨e, Or.inl hold, rfl⟩)
  · exact Or.inr (hnew e hadded)
  · exact Or.inl (mem_functions.mpr ⟨e, Or.inr hold, rfl⟩)
  · exact Or.inr (hnew' e hadded)

theorem mem_history (h : Registers f s t) {event : PluginEvent} :
    event ∈ t.history ↔ event ∈ s.history ∨ event = .registered f := by
  rw [h.history, List.mem_append, List.mem_singleton]

theorem calm_iff (h : Registers f s t) : t.Calm ↔ s.Calm := by
  unfold Calm
  simp [h.mem_history]

section Caller

variable {c : Caller} (hcaller : f.code.caller = c) (hattempt : f.attempt = s.attempt)

include hcaller hattempt

/-- A registration keeps the invariant. -/
theorem valid (h : Registers f s t) (hs : LoadValid s) (hready : s.Ready c)
    (hbinding : ∀ session binding, f.code = .cx session binding → binding < t.fresh) :
    LoadValid t where
  attempt_lt := by
    rw [h.attempt]
    exact hs.attempt_lt.trans_le h.fresh
  function_lt g hg := by
    rcases h.functions hg with hold | rfl
    · exact (hs.function_lt g hold).trans_le h.fresh
    · rw [hattempt]
      exact hs.attempt_lt.trans_le h.fresh
  code_lt g hg session binding hcode := by
    rw [h.sessions]
    rcases h.functions hg with hold | rfl
    · obtain ⟨hlive, hlt⟩ := hs.code_lt g hold session binding hcode
      exact ⟨hlive, hlt.trans_le h.fresh⟩
    · rw [hcode] at hcaller
      rw [← hcaller] at hready
      exact ⟨hready, hbinding session binding hcode⟩
  plugin_lt p hp := by
    rw [h.loadedPlugins, h.autoLoadedPlugins] at hp
    exact (hs.plugin_lt p hp).trans_le h.fresh
  session_lt session hlive := by
    rw [h.sessions] at hlive
    exact (hs.session_lt session hlive).trans_le h.fresh
  registered_lt g hg := by
    rcases h.mem_history.mp hg with hold | hnew
    · exact (hs.registered_lt g hold).trans_le h.fresh
    · injection hnew with heq
      rw [heq, hattempt]
      exact hs.attempt_lt.trans_le h.fresh
  registered g hg := by
    apply h.mem_history.mpr
    rcases h.functions hg with hold | rfl
    · exact Or.inl (hs.registered g hold)
    · exact Or.inr rfl
  sessionLoaded session cx hcx := by
    rw [h.sessions] at hcx
    rw [h.libraries]
    exact hs.sessionLoaded session cx hcx
  libraryLoaded hcalm path hcode := by
    obtain ⟨g, hg, apply, hcode⟩ := hcode
    rw [h.libraries]
    rcases h.functions hg with hold | rfl
    · exact hs.libraryLoaded (h.calm_iff.mp hcalm) path ⟨g, hold, apply, hcode⟩
    · rw [hcode] at hcaller
      rw [← hcaller] at hready
      exact hready
  restored_iff r hr := hs.restored_iff r (by simpa [h.mem_history] using hr)
  noDangling hcalm r hr :=
    hs.noDangling (h.calm_iff.mp hcalm) r (by simpa [h.mem_history] using hr)

theorem extends_ (h : Registers f s t) (hs : LoadValid s) : LoadExtends c s t where
  fresh := h.fresh
  attempt := h.attempt
  external := by
    obtain ⟨new, hexternal, hnew⟩ := h.external
    exact ⟨new, hexternal, fun e he => Or.inl (by rw [hnew e he, hattempt])⟩
  autoloaded := by
    obtain ⟨new, hautoloaded, hnew⟩ := h.autoloaded
    exact ⟨new, hautoloaded, fun e he => Or.inl (by rw [hnew e he, hattempt])⟩
  loadedPlugins := by
    rw [h.loadedPlugins]
    exact PluginsAppended.refl _ _
  autoLoadedPlugins := by
    rw [h.autoLoadedPlugins]
    exact PluginsAppended.refl _ _
  history := by
    rw [h.history]
    exact List.prefix_append _ _
  libraries path := by rw [h.libraries]
  sessions session _ := by
    unfold sessionKind
    rw [h.sessions]
  newSession session cx hnew hcx := by
    rw [h.sessions] at hcx
    have hlive : (s.sessions session).isSome := by
      rw [hcx]
      rfl
    exact absurd (hs.session_lt session hlive) (Nat.not_lt.mpr hnew)
  registered g hg := by
    rcases h.mem_history.mp hg with hold | hnew
    · exact Or.inl hold
    · injection hnew with heq
      rw [heq]
      exact Or.inr (Or.inl h.mem)
  code _ path hcode := by
    obtain ⟨g, hg, apply, hcode⟩ := hcode
    rcases h.functions hg with hold | rfl
    · exact Or.inl ⟨g, hold, apply, hcode⟩
    · right
      left
      constructor
      · rw [← hcaller, hcode]
        rfl
      · exact ⟨g, h.mem_history.mpr (Or.inr rfl), hattempt.trans h.attempt.symm, apply, hcode⟩
  session session hsession := by
    obtain ⟨g, hg, binding, hcode⟩ := hsession
    rcases h.functions hg with hold | rfl
    · exact Or.inl ⟨g, hold, binding, hcode⟩
    · right
      left
      rw [← hcaller, hcode]
      rfl

/-- The registration of a function by the code of `c` in the attempt in progress. -/
theorem work (h : Registers f s t)
    (hbinding : ∀ session binding, f.code = .cx session binding → binding < t.fresh) :
    LoadWork c s t := by
  intro hs hready
  exact ⟨h.valid hcaller hattempt hs hready hbinding, h.extends_ hcaller hattempt hs⟩

end Caller

/-- A function is entered and logged. -/
theorem of_enter (f : AVSFunction) (both : Bool) (n : ℕ) (s : PluginState) :
    Registers f s (((s.enter f both).setOperations n).log (.registered f)) := by
  obtain ⟨newExternal, newAutoloaded, heq, hnew, hne⟩ := enter_eq f both s
  rw [heq]
  refine ⟨Nat.le_refl _, rfl, ⟨newExternal, rfl, ?_⟩, ⟨newAutoloaded, rfl, ?_⟩, ?_, rfl, rfl, rfl,
    rfl, rfl⟩
  · exact fun e he => hnew e (List.mem_append_left _ he)
  · exact fun e he => hnew e (List.mem_append_right _ he)
  · obtain ⟨e, he⟩ := List.exists_mem_of_ne_nil _ hne
    apply mem_functions.mpr
    use e
    constructor
    · rcases List.mem_append.mp he with hexternal | hautoloaded
      · exact Or.inl (List.mem_append_right _ hexternal)
      · exact Or.inr (List.mem_append_right _ hautoloaded)
    · exact hnew e he

end Registers

namespace LoadWork

variable {c : Caller} {s t : PluginState}

/-- `AddFunction` is work of its caller. -/
theorem addFunction (world : PluginWorld) (code : FunctionCode) (name params : String)
    (hcode : ∀ session binding, code ≠ .cx session binding) :
    Keeps (LoadWork code.caller) (world.addFunction name params code) := by
  intro s result t h
  rcases addFunction_cases h with ⟨n, rfl⟩ | ⟨n, m, both, rfl⟩
  · exact (SameTables.setOperations n s).work _
  · let f := s.newFunction name params code
    let u := (s.setOperations n).setFresh (s.fresh + 1)
    have hcreated : SameTables s u :=
      (SameTables.setOperations n s).trans (SameTables.setFresh (Nat.le_succ _))
    have hregisters : Registers f u (((u.log (.registered f)).enter f both).setOperations m) := by
      rw [enter_log]
      exact .of_enter f both m u
    exact (hcreated.work _).trans (hregisters.work rfl rfl
      fun session binding heq => absurd heq (hcode session binding))

/-- The tables after a session has taken back a registration. -/
theorem takenBack_tables {session binding : ℕ} {map new : FunctionMap}
    (hmap : ∀ e ∈ map, ∀ session' binding', e.function.code = .cx session' binding' →
      binding' ≠ binding)
    (hnew : ∀ e ∈ new, e.function.code = .cx session binding) :
    FunctionMap.removeFunctions (belongsTo session (some binding)) (map ++ new) =
      map := by
  rw [FunctionMap.removeFunctions_eq_without]
  unfold FunctionMap.without
  have hkept : map.filter (fun e => !belongsTo session (some binding) e.function) =
      map := by
    apply List.filter_eq_self.mpr
    intro e he
    simp only [Bool.not_eq_true', Bool.eq_false_iff, ne_eq, belongsTo_iff]
    rintro ⟨b, hcode, hb⟩
    exact hmap e he session b hcode (hb binding rfl)
  have hremoved :
      new.filter (fun e => !belongsTo session (some binding) e.function) = [] := by
    apply List.filter_eq_nil_iff.mpr
    intro e he
    simp only [Bool.not_eq_true', Bool.eq_false_iff, ne_eq, not_not, belongsTo_iff]
    exact ⟨binding, hnew e he, by simp⟩
  rw [List.filter_append, hkept, hremoved, List.append_nil]

/-- A registration that is taken back changes no table. -/
theorem takenBack_same (hs : LoadValid s) {u : PluginState} (hu : SameTables s u) {session : ℕ}
    {newExternal newAutoloaded : FunctionMap}
    (hnew : ∀ e ∈ newExternal ++ newAutoloaded, e.function.code = .cx session s.fresh) :
    SameTables s (takenBack session s { u with
      externalFunctions := u.externalFunctions ++ newExternal
      autoloadedFunctions := u.autoloadedFunctions ++ newAutoloaded }) := by
  have hold : ∀ f ∈ s.functions, ∀ session' binding', f.code = .cx session' binding' →
      binding' ≠ s.fresh := by
    intro f hf session' binding' hcode
    exact Nat.ne_of_lt (hs.code_lt f hf session' binding' hcode).2
  have hexternal : FunctionMap.removeFunctions
      (belongsTo session (some s.fresh)) (u.externalFunctions ++ newExternal) =
        s.externalFunctions := by
    rw [hu.external]
    apply takenBack_tables
    · exact fun e he => hold e.function (mem_functions.mpr ⟨e, Or.inl he, rfl⟩)
    · exact fun e he => hnew e (List.mem_append_left _ he)
  have hautoloaded : FunctionMap.removeFunctions
      (belongsTo session (some s.fresh)) (u.autoloadedFunctions ++ newAutoloaded) =
        s.autoloadedFunctions := by
    rw [hu.autoloaded]
    apply takenBack_tables
    · exact fun e he => hold e.function (mem_functions.mpr ⟨e, Or.inr he, rfl⟩)
    · exact fun e he => hnew e (List.mem_append_right _ he)
  apply SameTables.trans _ (SameTables.eraseBinding session s.fresh _)
  obtain ⟨events, hhistory, huntold⟩ := hu.history
  refine ⟨hu.fresh, hu.attempt, hexternal, hautoloaded, hu.loadedPlugins, hu.autoLoadedPlugins,
    hu.libraries, hu.sessions, ?_⟩
  obtain ⟨w, hw⟩ : ∃ w, (withdraw session (some s.fresh) s.toPluginTables { u with
      externalFunctions := u.externalFunctions ++ newExternal
      autoloadedFunctions := u.autoloadedFunctions ++ newAutoloaded }).history =
        u.history ++ [.withdrawn w] := ⟨_, rfl⟩
  use events ++ [.withdrawn w]
  constructor
  · rw [hw, hhistory, List.append_assoc]
  · rw [List.forall_mem_append]
    exact ⟨huntold, by simp [PluginEvent.Untold]⟩

section Binding

variable (session apply : ℕ) (s : PluginState)

theorem bound_same (n : ℕ) : SameTables s (bound session apply n s) :=
  ((SameTables.setOperations n s).trans (SameTables.setFresh (Nat.le_succ _))).trans
    (.addBinding session s.fresh apply _)

theorem created_same (n m : ℕ) : SameTables s (created session apply n m s) :=
  ((bound_same session apply s n).trans (.setOperations m _)).trans
    (.setFresh (Nat.le_succ _))

variable {s} (hs : LoadValid s)

include hs

/-- A registration fails before its function is created. -/
theorem takenBack_bound (n m : ℕ) : SameTables s
    (takenBack session s ((bound session apply n s).setOperations m)) := by
  have hnone : ∀ e ∈ ([] ++ [] : FunctionMap), e.function.code = .cx session s.fresh := by simp
  have hsame := takenBack_same hs
    ((bound_same session apply s n).trans (.setOperations m _)) hnone
  simp only [List.append_nil] at hsame
  exact hsame

/-- A registration fails after its function has been entered under one or both names. -/
theorem takenBack_entered (n m k : ℕ) (name params : String) (both : Bool) : SameTables s
    (takenBack session s (((created session apply n m s).enter
      (boundFunction session apply n name params s) both).setOperations k)) := by
  obtain ⟨newExternal, newAutoloaded, heq, hnew, -⟩ := enter_eq
    (boundFunction session apply n name params s) both
    (created session apply n m s)
  rw [heq]
  exact takenBack_same hs ((created_same session apply s n m).trans (.setOperations k _))
    fun e he => congrArg AVSFunction.code (hnew e he)

end Binding

/-- A registration by a CX plugin is work of its session. -/
theorem registerFunction (world : PluginWorld) (session apply : ℕ) (name params : String) :
    Keeps (LoadWork (.cx session)) (world.registerFunction session name params apply) := by
  intro s result t h
  rcases registerFunction_cases h with
    ⟨n, rfl⟩ | ⟨n, m, k, rfl⟩ | ⟨n, m, rfl⟩ | ⟨n, m, k, both, rfl⟩
  · exact (SameTables.setOperations n s).work _
  · have hregisters := Registers.of_enter
      (boundFunction session apply n name params s) true k
      (created session apply n m s)
    apply ((created_same session apply s n m).work _).trans
    apply hregisters.work rfl
    · rfl
    · intro session' binding heq
      injection heq with _ hbinding
      rw [← hbinding]
      exact (Nat.lt_succ_of_le (bound_same session apply s n).fresh).trans_le hregisters.fresh
  · intro hs hready
    exact (takenBack_bound session apply hs n m).work _ hs hready
  · intro hs hready
    exact (takenBack_entered session apply hs n m k name params both).work _ hs hready

end LoadWork

end AviSynth
