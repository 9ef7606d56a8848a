import AviSynth.Plugins.PluginLoading

/-!
# What every run of the plugin manager keeps

A relation between states, for each caller whose code runs, that the single operations
respect is respected by every request, however deep the programs in it are nested.
An attempt to load a plugin can end in seven ways.
-/

namespace AviSynth

open Exceptional PluginWorld

/-- Whose code a function is. -/
def FunctionCode.caller : FunctionCode → Caller
  | .script _ => .script
  | .library path _ => .library path
  | .cx session _ => .cx session

/-- The code of a function can run: its library is loaded, or its binding is there. -/
def PluginState.Runnable (s : PluginState) : FunctionCode → Prop
  | .script _ => True
  | .library path _ => 0 < s.libraries path
  | .cx session binding =>
    ∃ cx, s.sessions session = some cx ∧ ∃ body, (binding, body) ∈ cx.bindings

namespace PluginState

/-- The functions in both tables. -/
def functions (s : PluginState) : List AVSFunction :=
  (s.externalFunctions ++ s.autoloadedFunctions).map (·.function)

/-- The functions of both tables. -/
theorem mem_functions {s : PluginState} {f : AVSFunction} :
    f ∈ s.functions ↔ ∃ e, (e ∈ s.externalFunctions ∨ e ∈ s.autoloadedFunctions) ∧
      e.function = f := by
  simp only [functions, List.mem_map, List.mem_append]

theorem commit_setPluginInLoad (session : ℕ) (plugin : Option PluginFile) (s : PluginState) :
    (s.commit session).setPluginInLoad plugin = (s.setPluginInLoad plugin).commit session := by
  unfold commit
  cases hcx : s.sessions session with
  | none => simp [setPluginInLoad, hcx]
  | some cx => simp [setPluginInLoad, setSession, addExit, log, hcx]

end PluginState

namespace FunctionMap

variable {map : FunctionMap} {name : String} {fits : AVSFunction → Bool} {f : AVSFunction}

/-- What is found is in the table. -/
theorem mem_of_lookup (h : map.lookup name fits = some f) : ∃ e ∈ map, e.function = f := by
  obtain ⟨e, he, hf⟩ := Option.map_eq_some_iff.mp h
  exact ⟨e, List.mem_reverse.mp (List.mem_of_find?_eq_some he), hf⟩

end FunctionMap

namespace PluginWorld

variable {world : PluginWorld} {s : PluginState} {call : FunctionCall} {found : FoundFunction}

/-- What a lookup says about the function it has found. -/
theorem scriptLookup_found (h : world.scriptLookup s call = some (some found)) :
    ∃ fits, pluginLookup s call.name fits = some found.function ∧
      found.candidates = candidates s call.name fits := by
  obtain ⟨level, -, hlevel⟩ := List.exists_of_findSome?_eq_some h
  unfold lookupAt at hlevel
  dsimp only at hlevel
  split at hlevel
  next f hf =>
    obtain rfl := Option.some.inj (Option.some.inj hlevel)
    exact ⟨_, hf, rfl⟩
  next hnone =>
    split_ifs at hlevel
    cases Option.some.inj hlevel

/-- What the script finds is a function. -/
theorem mem_functions_of_scriptLookup (h : world.scriptLookup s call = some (some found)) :
    found.function ∈ s.functions := by
  obtain ⟨fits, hlookup, -⟩ := scriptLookup_found h
  unfold PluginState.functions
  rw [List.mem_map]
  rcases Option.or_eq_some_iff.mp hlookup with hext | ⟨-, hauto⟩
  · obtain ⟨e, he, hf⟩ := FunctionMap.mem_of_lookup hext
    exact ⟨e, List.mem_append_left _ he, hf⟩
  · obtain ⟨e, he, hf⟩ := FunctionMap.mem_of_lookup hauto
    exact ⟨e, List.mem_append_right _ he, hf⟩

end PluginWorld

/-- How the work of an attempt can end that began in `s`: nothing was loaded; a library
without a usable entry point was unloaded; an entry point has succeeded, or has
failed and its library was kept or unloaded; a CX session was committed or rolled
back. -/
inductive Attempted (W : Caller → PluginState → PluginState → Prop) (s : PluginState)
    (path : String) : Bool → PluginState → Prop
  | untouched (failed : Bool) : Attempted W s path failed s.beginAttempt
  | rejected :
    Attempted W s path true ((s.beginAttempt.openLibrary path).freeLibrary path)
  | loaded {t : PluginState} (autoloading : Bool) (plugin : PluginFile)
    (hplugin : plugin.attempt = s.fresh)
    (work : W (.library path) (s.beginAttempt.openLibrary path) t) :
    Attempted W s path false (t.pushPlugin autoloading plugin)
  | kept {t : PluginState} (work : W (.library path) (s.beginAttempt.openLibrary path) t) :
    Attempted W s path true t
  | unloaded {t : PluginState}
    (work : W (.library path) (s.beginAttempt.openLibrary path) t) :
    Attempted W s path true (t.freeLibrary path)
  | committed {t : PluginState} (autoloading : Bool) (plugin : PluginFile)
    (hplugin : plugin.attempt = s.fresh)
    (work : W (.cx s.fresh)
      ((s.beginAttempt.openLibrary path).setSession s.fresh (some ⟨path, [], [], false⟩)) t) :
    Attempted W s path false ((t.commit s.fresh).pushPlugin autoloading plugin)
  | rolledBack {t : PluginState}
    (work : W (.cx s.fresh)
      ((s.beginAttempt.openLibrary path).setSession s.fresh (some ⟨path, [], [], false⟩)) t) :
    Attempted W s path true
      ((t.destroySession s.fresh s.toPluginTables).freeLibrary path)

variable {s t : PluginState}

/-- A weaker relation has the same ends. -/
theorem Attempted.mono {W W' : Caller → PluginState → PluginState → Prop}
    {path : String} {failed : Bool} (hW : ∀ c s t, W c s t → W' c s t)
    (h : Attempted W s path failed t) : Attempted W' s path failed t := by
  cases h with
  | untouched => exact .untouched failed
  | rejected => exact .rejected
  | loaded autoloading plugin hplugin work =>
    exact .loaded autoloading plugin hplugin (hW _ _ _ work)
  | kept work => exact .kept (hW _ _ _ work)
  | unloaded work => exact .unloaded (hW _ _ _ work)
  | committed autoloading plugin hplugin work =>
    exact .committed autoloading plugin hplugin (hW _ _ _ work)
  | rolledBack work => exact .rolledBack (hW _ _ _ work)

/-- How an entry point can end: successfully with or without a CX session, or not. -/
inductive Initialized (W : Caller → PluginState → PluginState → Prop) (s : PluginState)
    (path : String) : Except PluginError Bool → PluginState → Prop
  | loaded {t : PluginState} (work : W (.library path) (s.beginAttempt.openLibrary path) t) :
    Initialized W s path (.ok true) t
  | committed {t : PluginState} (work : W (.cx s.fresh)
      ((s.beginAttempt.openLibrary path).setSession s.fresh (some ⟨path, [], [], false⟩)) t) :
    Initialized W s path (.ok true) (t.commit s.fresh)
  | raised {t : PluginState} (e : PluginError) (h : Attempted W s path true t) :
    Initialized W s path (.error e) t
  | refused {t : PluginState} (h : Attempted W s path true t) :
    Initialized W s path (.ok false) t

/-- The single operations respect `W`. -/
structure PluginRules (world : PluginWorld) (W : Caller → PluginState → PluginState → Prop) :
    Prop where
  refl : ∀ c s, W c s s
  trans : ∀ c s t u, W c s t → W c t u → W c s u
  setOperations : ∀ c s n, W c s { s with operations := n }
  setPluginInLoad : ∀ c s plugin, W c s (s.setPluginInLoad plugin)
  setImports : ∀ c s imports, W c s { s with autoLoadedImports := imports }
  observe : ∀ c s, W c s (observe s)
  addFunction : ∀ (code : FunctionCode) (name params : String),
    (∀ session binding, code ≠ .cx session binding) →
    Keeps (W code.caller) (world.addFunction name params code)
  registerFunction : ∀ (session apply : ℕ) (name params : String),
    Keeps (W (.cx session)) (world.registerFunction session name params apply)
  addShutdown : ∀ session callback s, W (.cx session) s (s.addShutdown session callback)
  addExit : ∀ (code : FunctionCode) s, (∀ session binding, code ≠ .cx session binding) →
    W code.caller s (s.addExit (.other code))
  found : ∀ c s call found, world.scriptLookup s call = some (some found) →
    W c s (s.log (.found found))
  call : ∀ c s t (f : AVSFunction), f ∈ s.functions → s.Runnable f.code →
    W f.code.caller s t → W c s t
  autoload : ∀ c s t failed, s.autoloadExecuted = false → W .script s.beginAutoload t →
    W c s (t.endAutoload failed)
  attempt : ∀ c s path failed t, Attempted W s path failed t → W c s (s.endAttempt failed t)

namespace PluginRules

variable {world : PluginWorld} {W : Caller → PluginState → PluginState → Prop}
  (rules : PluginRules world W)

include rules

/-- What happens outside is work. -/
theorem keeps_outside (c : Caller) : Keeps (W c) world.outside := by
  intro s result t h
  simp only [outside, Option.some.injEq, Prod.mk.injEq] at h
  rw [← h.2]
  exact rules.setOperations c s _

section Handlers

variable {handle : Caller → PluginRequest → Plugins PluginAnswer}
  (hhandle : ∀ c request, Keeps (W c) (handle c request)) {result : Except PluginError Bool}
  {plugin : PluginFile} {throwOnError : Bool}

include hhandle

/-- So is a program. -/
theorem keeps_program (c : Caller) (program : PluginProgram) :
    Keeps (W c) (ofProgram (handle c) program) :=
  keeps_ofProgram (rules.refl c) (rules.trans c) (hhandle c) program

/-- An entry point runs with its plugin in load. -/
theorem keeps_runInit (c : Caller) (plugin : PluginFile) (init : PluginProgram) :
    Keeps (W c) (runInit handle c plugin init) := by
  apply Keeps.bind (rules.trans c)
  · exact keeps_update fun s => rules.setPluginInLoad c s _
  · intro _
    exact (rules.keeps_program hhandle c init).attempt

/-- An older entry point is tried. -/
theorem keeps_tryAsLegacy (plugin : PluginFile) (init : PluginProgram) :
    Keeps (W (.library plugin.filePath)) (tryAsLegacy handle plugin init) := by
  apply (rules.keeps_runInit hhandle _ plugin init).bind (rules.trans _)
  intro result
  apply Keeps.bind (rules.trans _)
  · exact keeps_update fun s => rules.setPluginInLoad _ s _
  · intro _
    exact keeps_pure (rules.refl _) result

/-- What `TryAsCx1` leaves: the work of the entry point, and the commit after a success. -/
theorem tryAsCx1_work {session : ℕ} {init : PluginProgram} {u t : PluginState}
    {result : Except PluginError (Except PluginError PluginAnswer)}
    (h : world.tryAsCx1 handle plugin session init u = some (result, t)) :
    ∃ v, W (.cx session) (u.setSession session (some ⟨plugin.filePath, [], [], false⟩)) v ∧
      ((∃ a, result = .ok (.ok a) ∧ t = v.commit session) ∨
        ∃ e, result = .ok (.error e) ∧ t = v) := by
  obtain ⟨⟨result', t'⟩, hrun, hend⟩ := Option.map_eq_some_iff.mp h
  obtain ⟨rfl, rfl⟩ := Prod.ext_iff.mp hend
  obtain ⟨⟨first, u₁⟩, hset, hrest⟩ := Option.bind_eq_some_iff.mp hrun
  obtain ⟨⟩ := Option.some.inj hset
  obtain ⟨⟨status, u₂⟩, hinit, hrest⟩ := Option.bind_eq_some_iff.mp hrest
  have hwork := rules.keeps_runInit hhandle (.cx session) plugin init _ _ _ hinit
  obtain ⟨⟨outcome, u₃⟩, -, hstatus⟩ := Option.map_eq_some_iff.mp hinit
  obtain ⟨rfl, rfl⟩ := Prod.ext_iff.mp hstatus
  cases outcome with
  | error e =>
    obtain ⟨⟩ := Option.some.inj hrest
    use PluginState.setPluginInLoad u.pluginInLoad u₃
    constructor
    · exact rules.trans _ _ _ _ hwork (rules.setPluginInLoad _ _ _)
    · exact Or.inr ⟨e, rfl, rfl⟩
  | ok a =>
    obtain ⟨⟨done, u₄⟩, hcommit, hfinal⟩ := Option.map_eq_some_iff.mp hrest
    obtain ⟨rfl, rfl⟩ := Prod.ext_iff.mp hfinal
    obtain ⟨⟨answer, u₅⟩, hexit, hcommit⟩ := Option.bind_eq_some_iff.mp hcommit
    have hcalled := rules.keeps_outside (.cx session) _ _ _ hexit
    use PluginState.setPluginInLoad u.pluginInLoad u₅
    constructor
    · exact rules.trans _ _ _ _ hwork (rules.trans _ _ _ _ (rules.setPluginInLoad _ _ _)
        (rules.trans _ _ _ _ hcalled (rules.setPluginInLoad _ _ _)))
    · cases answer with
      | error e =>
        obtain ⟨⟩ := Option.some.inj hcommit
        exact Or.inr ⟨e, rfl, rfl⟩
      | ok _ =>
        obtain ⟨⟩ := Option.some.inj hcommit
        exact Or.inl ⟨.done, rfl, PluginState.commit_setPluginInLoad _ _ _⟩

/-- What an entry point other than the CX one leaves. -/
theorem tryAsLegacy_work {init : PluginProgram} {u t : PluginState}
    {result : Except PluginError (Except PluginError PluginAnswer)}
    (h : tryAsLegacy handle plugin init u = some (result, t)) :
    W (.library plugin.filePath) u t ∧ ∃ outcome, result = .ok outcome := by
  have hwork := rules.keeps_tryAsLegacy hhandle plugin init _ _ _ h
  obtain ⟨⟨status, u₂⟩, hinit, hrest⟩ := Option.bind_eq_some_iff.mp h
  obtain ⟨⟨outcome, u₃⟩, -, hstatus⟩ := Option.map_eq_some_iff.mp hinit
  obtain ⟨rfl, rfl⟩ := Prod.ext_iff.mp hstatus
  obtain ⟨⟩ := Option.some.inj hrest
  exact ⟨hwork, outcome, rfl⟩

omit hhandle rules in
/-- A library without a usable entry point is not accepted. -/
theorem reject_initialized {s u t : PluginState}
    (h : reject plugin throwOnError u = some (result, t))
    (hattempted : Attempted W s plugin.filePath true (u.freeLibrary plugin.filePath)) :
    Initialized W s plugin.filePath result t := by
  unfold reject at h
  obtain ⟨⟨first, u₁⟩, hfree, hrest⟩ := Option.bind_eq_some_iff.mp h
  obtain ⟨⟩ := Option.some.inj hfree
  cases throwOnError with
  | true =>
    obtain ⟨⟩ := Option.some.inj hrest
    exact .raised _ hattempted
  | false =>
    obtain ⟨⟩ := Option.some.inj hrest
    exact .refused hattempted

/-- A library ends in one of the ways of an attempt. -/
theorem initPlugin_initialized {entries : EntryPoints}
    (h : world.initPlugin handle plugin s.fresh s.toPluginTables throwOnError entries
      (s.beginAttempt.openLibrary plugin.filePath) = some (result, t)) :
    Initialized W s plugin.filePath result t := by
  obtain ⟨initCx1, init3, cInit2, cInit, init2⟩ := entries
  unfold initPlugin at h
  dsimp only at h
  cases initCx1 with
  | some init =>
    obtain ⟨⟨status, u⟩, hrun, hrest⟩ := Option.bind_eq_some_iff.mp h
    obtain ⟨v, hwork, ⟨a, rfl, rfl⟩ | ⟨e, rfl, rfl⟩⟩ := rules.tryAsCx1_work hhandle hrun
    · obtain ⟨⟩ := Option.some.inj hrest
      exact .committed hwork
    · obtain ⟨⟩ := Option.some.inj hrest
      exact .raised _ (.rolledBack hwork)
  | none =>
  cases init3 with
  | some init =>
    obtain ⟨⟨status, u⟩, hrun, hrest⟩ := Option.bind_eq_some_iff.mp h
    obtain ⟨hwork, outcome, rfl⟩ := rules.tryAsLegacy_work hhandle hrun
    cases outcome with
    | ok a =>
      obtain ⟨⟩ := Option.some.inj hrest
      exact .loaded hwork
    | error e =>
      obtain ⟨⟩ := Option.some.inj hrest
      exact .raised _ (.kept hwork)
  | none =>
  cases hC : cInit2.or cInit with
  | some init =>
    rw [hC] at h
    obtain ⟨⟨status, u⟩, hrun, hrest⟩ := Option.bind_eq_some_iff.mp h
    obtain ⟨hwork, outcome, rfl⟩ := rules.tryAsLegacy_work hhandle hrun
    cases outcome with
    | ok a =>
      obtain ⟨⟩ := Option.some.inj hrest
      exact .loaded hwork
    | error e =>
      obtain ⟨⟩ := Option.some.inj hrest
      exact .raised _ (.kept hwork)
  | none =>
  rw [hC] at h
  cases init2 with
  | some init =>
    obtain ⟨⟨status, u⟩, hrun, hrest⟩ := Option.bind_eq_some_iff.mp h
    obtain ⟨hwork, outcome, rfl⟩ := rules.tryAsLegacy_work hhandle hrun
    cases outcome with
    | ok a =>
      obtain ⟨⟩ := Option.some.inj hrest
      exact .loaded hwork
    | error e => exact reject_initialized hrest (.unloaded hwork)
  | none => exact reject_initialized h .rejected

/-- An attempt ends in one of the seven ways, and has failed unless `LoadPlugin` returns
true. -/
theorem loadFile_attempted {path : String}
    (h : world.loadFile handle path throwOnError s.fresh s.beginAttempt = some (result, t)) :
    Attempted W s path (loadFailed result) t := by
  unfold loadFile at h
  dsimp only at h
  split_ifs at h with hloaded
  · obtain ⟨⟩ := Option.some.inj h
    exact .untouched false
  · cases hfile : world.libraries path with
    | unloadable mismatch =>
      rw [hfile] at h
      dsimp only at h
      split_ifs at h with hraise
      · obtain ⟨⟩ := Option.some.inj h
        exact .untouched true
      · obtain ⟨⟩ := Option.some.inj h
        exact .untouched true
    | library entries =>
      rw [hfile] at h
      obtain ⟨⟨first, u⟩, hinit, hrest⟩ := Option.bind_eq_some_iff.mp h
      have hinitialized : Initialized W s path first u :=
        rules.initPlugin_initialized hhandle hinit
      cases hinitialized with
      | loaded work =>
        obtain ⟨⟩ := Option.some.inj hrest
        exact .loaded _ _ rfl work
      | committed work =>
        obtain ⟨⟩ := Option.some.inj hrest
        exact .committed _ _ rfl work
      | raised e hattempted | refused hattempted =>
        obtain ⟨⟩ := Option.some.inj hrest
        exact hattempted

/-- A plugin is loaded. -/
theorem keeps_loadPlugin (c : Caller) (path : String) (throwOnError : Bool) :
    Keeps (W c) (world.loadPlugin handle path throwOnError) := by
  intro s result u h
  obtain ⟨⟨result', t⟩, hload, hend⟩ := Option.map_eq_some_iff.mp h
  obtain ⟨rfl, rfl⟩ := Prod.ext_iff.mp hend
  exact rules.attempt c s path _ t (rules.loadFile_attempted hhandle hload)

/-- A library is autoloaded. -/
theorem keeps_autoloadLibrary (c : Caller) (path : String) :
    Keeps (W c) (world.autoloadLibrary handle path) := by
  intro s result t h
  unfold autoloadLibrary at h
  dsimp only at h
  split_ifs at h with hsame
  · obtain ⟨⟩ := Option.some.inj h
    exact rules.refl c s
  · exact ((rules.keeps_loadPlugin hhandle c path false).bind (rules.trans c)
      fun _ => keeps_pure (rules.refl c) ()) _ _ _ h

/-- A script is autoloaded. -/
theorem keeps_autoloadScript (path : String) :
    Keeps (W .script) (world.autoloadScript handle path) := by
  intro s result t h
  unfold autoloadScript at h
  dsimp only at h
  split_ifs at h with hsame
  · obtain ⟨⟩ := Option.some.inj h
    exact rules.refl _ s
  · exact ((rules.keeps_program hhandle .script _).bind (rules.trans _)
      fun _ => keeps_update fun t => rules.setImports _ t _) _ _ _ h

/-- All directories are autoloaded. -/
theorem keeps_autoloadPlugins (c : Caller) : Keeps (W c) (world.autoloadPlugins handle) := by
  intro s result t h
  unfold autoloadPlugins at h
  cases hexecuted : s.autoloadExecuted with
  | true =>
    rw [hexecuted] at h
    obtain ⟨⟩ := Option.some.inj h
    exact rules.refl c s
  | false =>
    rw [hexecuted] at h
    obtain ⟨⟨ended, u⟩, hrun, hend⟩ := Option.map_eq_some_iff.mp h
    have hwork : W .script s.beginAutoload u := by
      apply keeps_forEach (rules.refl _) (rules.trans _) _ _ _ _ _ hrun
      intro dir
      apply Keeps.bind (rules.trans _)
      · exact keeps_forEach (rules.refl _) (rules.trans _)
          (rules.keeps_autoloadLibrary hhandle .script) dir.plugins
      · intro _
        exact keeps_forEach (rules.refl _) (rules.trans _)
          (rules.keeps_autoloadScript hhandle) dir.scripts
    cases ended with
    | ok _ =>
      obtain ⟨rfl, rfl⟩ := Prod.ext_iff.mp hend
      exact rules.autoload c s u false hexecuted hwork
    | error e =>
      obtain ⟨rfl, rfl⟩ := Prod.ext_iff.mp hend
      exact rules.autoload c s u true hexecuted hwork

variable {result : Except PluginError PluginAnswer}

/-- The code of a function runs only where it is runnable. -/
theorem apply_work {code : FunctionCode} (h : world.apply handle code s = some (result, t)) :
    s.Runnable code ∧ W code.caller s t := by
  cases code with
  | script body => exact ⟨trivial, rules.keeps_program hhandle .script _ _ _ _ h⟩
  | library path body =>
    unfold apply at h
    dsimp only at h
    split_ifs at h with hgone
    constructor
    · exact Nat.pos_of_ne_zero hgone
    · exact rules.keeps_program hhandle (.library path) _ _ _ _ h
  | cx session binding =>
    obtain ⟨body, hbody, hrun⟩ := Option.bind_eq_some_iff.mp h
    obtain ⟨cx, hcx, hlookup⟩ := Option.bind_eq_some_iff.mp hbody
    obtain ⟨first, rest, hbindings, -⟩ := List.lookup_eq_some_iff.mp hlookup
    have hbinding : (binding, body) ∈ cx.bindings := by simp [hbindings]
    constructor
    · exact ⟨cx, hcx, body, hbinding⟩
    · exact rules.keeps_program hhandle (.cx session) _ _ _ _ hrun

/-- The function that was found is called. -/
theorem keeps_applyFound (c : Caller) {s : PluginState} {call : FunctionCall}
    {found : Option FoundFunction} (hfound : world.scriptLookup s call = some found)
    {t : PluginState} (h : world.applyFound handle found s = some (result, t)) : W c s t := by
  cases found with
  | none =>
    obtain ⟨⟩ := Option.some.inj h
    exact rules.refl c s
  | some found =>
    unfold applyFound at h
    obtain ⟨⟨first, u⟩, hlog, hrun⟩ := Option.bind_eq_some_iff.mp h
    obtain ⟨⟩ := Option.some.inj hlog
    have hmem : found.function ∈ (s.log (.found found)).functions :=
      mem_functions_of_scriptLookup hfound
    obtain ⟨hrunnable, hwork⟩ := rules.apply_work hhandle hrun
    apply rules.trans c _ _ _ (rules.found c s call found hfound)
    exact rules.call c _ _ found.function hmem hrunnable hwork

/-- A call once the plugins are loaded. -/
theorem keeps_invokeLoaded (c : Caller) (call : FunctionCall) :
    Keeps (W c) (world.invokeLoaded handle call) := by
  intro s result t h
  unfold invokeLoaded at h
  cases hfound : world.scriptLookup s call with
  | some found =>
    rw [hfound] at h
    exact rules.keeps_applyFound hhandle c hfound h
  | none =>
    rw [hfound] at h
    obtain ⟨⟩ := Option.some.inj h
    exact rules.refl c s

/-- A call that may load the plugins. -/
theorem keeps_invoke (c : Caller) (call : FunctionCall) :
    Keeps (W c) (world.invoke handle call) := by
  intro s result t h
  unfold invoke at h
  dsimp only at h
  split_ifs at h with hknown
  · exact rules.keeps_invokeLoaded hhandle c call _ _ _ h
  · exact ((rules.keeps_autoloadPlugins hhandle c).bind (rules.trans c)
      fun _ => rules.keeps_invokeLoaded hhandle c call) _ _ _ h

/-- A test for a function. -/
theorem keeps_functionExists (c : Caller) (name : String) :
    Keeps (W c) (world.functionExists handle name) := by
  intro s result t h
  unfold functionExists at h
  dsimp only at h
  split_ifs at h with hknown hexecuted
  · obtain ⟨⟩ := Option.some.inj h
    exact rules.refl c s
  · obtain ⟨⟩ := Option.some.inj h
    exact rules.refl c s
  · apply ((rules.keeps_autoloadPlugins hhandle c).bind (rules.trans c) _) _ _ _ h
    intro _ u result' t' h'
    obtain ⟨rfl, rfl⟩ := Prod.ext_iff.mp (Option.some.inj h')
    exact rules.refl c u

end Handlers

/-- Every request respects `W`, by induction on the depth of the requests. -/
theorem keeps_perform (fuel : ℕ) (c : Caller) (request : PluginRequest) :
    Keeps (W c) (world.perform fuel c request) := by
  induction fuel generalizing c request with
  | zero =>
    intro s result t h
    cases h
  | succ fuel ih =>
    apply Keeps.bind (rules.trans c)
    · exact keeps_update fun s => rules.observe c s
    · intro _
      cases request with
      | addFunction name params apply =>
        cases c with
        | script =>
          exact (rules.addFunction (.script apply) name params (by simp)).bind (rules.trans _)
            fun _ => keeps_pure (rules.refl _) _
        | library path =>
          exact (rules.addFunction (.library path apply) name params (by simp)).bind
            (rules.trans _) fun _ => keeps_pure (rules.refl _) _
        | cx session =>
          exact (rules.registerFunction session apply name params).bind (rules.trans _)
            fun _ => keeps_pure (rules.refl _) _
      | registerShutdown callback =>
        cases c with
        | script => exact keeps_raise (rules.refl _) _
        | library path => exact keeps_raise (rules.refl _) _
        | cx session =>
          apply (rules.keeps_outside _).bind (rules.trans _)
          intro _
          apply Keeps.bind (rules.trans _)
          · exact keeps_update fun s => rules.addShutdown session callback s
          · intro _
            exact keeps_pure (rules.refl _) _
      | loadPlugin path throwOnError =>
        apply (rules.keeps_autoloadPlugins ih c).bind (rules.trans c)
        intro _
        apply (rules.keeps_loadPlugin ih c path throwOnError).bind (rules.trans c)
        intro _
        exact keeps_pure (rules.refl c) _
      | autoloadPlugins =>
        apply (rules.keeps_autoloadPlugins ih c).bind (rules.trans c)
        intro _
        exact keeps_pure (rules.refl c) _
      | functionExists name => exact rules.keeps_functionExists ih c name
      | invoke call => exact rules.keeps_invoke ih c call
      | atExit callback =>
        cases c with
        | script =>
          apply (rules.keeps_outside _).bind (rules.trans _)
          intro _
          apply Keeps.bind (rules.trans _)
          · exact keeps_update fun s => rules.addExit (.script callback) s (by simp)
          · intro _
            exact keeps_pure (rules.refl _) _
        | library path =>
          apply (rules.keeps_outside _).bind (rules.trans _)
          intro _
          apply Keeps.bind (rules.trans _)
          · exact keeps_update fun s => rules.addExit (.library path callback) s (by simp)
          · intro _
            exact keeps_pure (rules.refl _) _
        | cx session => exact keeps_raise (rules.refl _) _

/-- The same for a whole program. -/
theorem keeps_run (fuel : ℕ) (c : Caller) (program : PluginProgram) :
    Keeps (W c) (ofProgram (world.perform fuel c) program) :=
  rules.keeps_program (rules.keeps_perform fuel) c program

end PluginRules

end AviSynth
