import AviSynth.Plugins.LoadAttempts

/-!
# Failed attempts to load a plugin

Each of the ways in which an attempt can end keeps the invariant. A failed attempt
leaves the tables as they were, and no function of an unloaded library can be called,
as long as failed attempts register functions through their CX sessions only.
-/

namespace AviSynth

open Exceptional PluginState

namespace AttemptStarted

variable {s s' : PluginState} {path : String} {c : Caller}

/-- An attempt without a CX session. -/
theorem legacy (path : String) (hs : LoadValid s) :
    AttemptStarted s path (.library path) (s.beginAttempt.openLibrary path) where
  fresh := rfl
  attempt := rfl
  external := rfl
  autoloaded := rfl
  loadedPlugins := rfl
  autoLoadedPlugins := rfl
  libraries p := by
    by_cases hp : p = path
    · simp [openLibrary, beginAttempt, hp]
    · simp [openLibrary, beginAttempt, hp]
  sessions _ _ := rfl
  own cx hcx := by
    have hold : s.sessions s.fresh = some cx := hcx
    have hlive : (s.sessions s.fresh).isSome := by
      rw [hold]
      rfl
    exact absurd (hs.session_lt s.fresh hlive) (Nat.lt_irrefl _)
  caller := Or.inl rfl
  history := rfl

/-- An attempt with a CX session, which has the number of the attempt. -/
theorem cx (path : String) (hs : LoadValid s) :
    AttemptStarted s path (.cx s.fresh)
      ((s.beginAttempt.openLibrary path).setSession s.fresh (some ⟨path, [], [], false⟩)) where
  fresh := rfl
  attempt := rfl
  external := rfl
  autoloaded := rfl
  loadedPlugins := rfl
  autoLoadedPlugins := rfl
  libraries := (legacy path hs).libraries
  sessions session hsession := Function.update_of_ne hsession _ _
  own cx hcx := by
    constructor
    · rfl
    · have hself : some (⟨path, [], [], false⟩ : CxHostSession) = some cx :=
        (Function.update_self s.fresh _ _).symm.trans hcx
      rw [← Option.some.inj hself]
  caller := Or.inr rfl
  history := rfl

variable (hstart : AttemptStarted s path c s')

include hstart

theorem isSome_of_old {session : ℕ} (hs : LoadValid s) (hlive : (s.sessions session).isSome) :
    (s'.sessions session).isSome := by
  rw [hstart.sessions session (Nat.ne_of_lt (hs.session_lt session hlive))]
  exact hlive

theorem calm_iff : s'.Calm ↔ s.Calm := by
  unfold Calm
  rw [hstart.history]

/-- The invariant holds when the code of the plugin begins. -/
theorem valid (hs : LoadValid s) : LoadValid s' where
  attempt_lt := by
    rw [hstart.attempt, hstart.fresh]
    omega
  function_lt f hf := by
    rw [hstart.functions] at hf
    have hlt := hs.function_lt f hf
    rw [hstart.fresh]
    omega
  code_lt f hf session binding hcode := by
    rw [hstart.functions] at hf
    obtain ⟨hlive, hlt⟩ := hs.code_lt f hf session binding hcode
    constructor
    · exact hstart.isSome_of_old hs hlive
    · rw [hstart.fresh]
      omega
  plugin_lt p hp := by
    rw [hstart.loadedPlugins, hstart.autoLoadedPlugins] at hp
    have hlt := hs.plugin_lt p hp
    rw [hstart.fresh]
    omega
  session_lt session hlive := by
    rw [hstart.fresh]
    by_cases hown : session = s.fresh
    · omega
    · rw [hstart.sessions session hown] at hlive
      have hlt := hs.session_lt session hlive
      omega
  registered_lt f hf := by
    rw [hstart.history] at hf
    have hlt := hs.registered_lt f hf
    rw [hstart.fresh]
    omega
  registered f hf := by
    rw [hstart.functions] at hf
    rw [hstart.history]
    exact hs.registered f hf
  sessionLoaded session cx hcx := by
    rw [hstart.libraries]
    by_cases hown : session = s.fresh
    · rw [hown] at hcx
      rw [if_pos (hstart.own cx hcx).2]
      omega
    · rw [hstart.sessions session hown] at hcx
      have hpos := hs.sessionLoaded session cx hcx
      omega
  libraryLoaded hcalm p hcode := by
    unfold HasCode at hcode
    rw [hstart.functions] at hcode
    have hpos := hs.libraryLoaded (hstart.calm_iff.mp hcalm) p hcode
    rw [hstart.libraries]
    omega
  restored_iff r hr := by
    rw [hstart.history] at hr
    exact hs.restored_iff r hr
  noDangling hcalm r hr := by
    rw [hstart.history] at hr
    exact hs.noDangling (hstart.calm_iff.mp hcalm) r hr

end AttemptStarted

namespace AttemptDone

variable {s t u : PluginState} {path : String}

/-- The plugin of a successful attempt is put in a list. -/
theorem pushPlugin (hdone : AttemptDone s path t false false u) (autoloading : Bool)
    {plugin : PluginFile} (hplugin : plugin.attempt = s.fresh) :
    AttemptDone s path t false false (u.pushPlugin autoloading plugin) := by
  have hnew : ∀ p ∈ [plugin], false = false ∧ p.attempt = s.fresh := by
    simpa using hplugin
  have hboth : ∀ {plugins plugins' : List PluginFile},
      (∃ new, plugins' = plugins ++ new ∧ ∀ p ∈ new, false = false ∧ p.attempt = s.fresh) →
      ∃ new, plugins' ++ [plugin] = plugins ++ new ∧
        ∀ p ∈ new, false = false ∧ p.attempt = s.fresh := by
    rintro plugins plugins' ⟨new, rfl, hold⟩
    use new ++ [plugin]
    constructor
    · rw [List.append_assoc]
    · exact List.forall_mem_append.mpr ⟨hold, hnew⟩
  cases autoloading with
  | false => exact { hdone with loadedPlugins := hboth hdone.loadedPlugins }
  | true => exact { hdone with autoLoadedPlugins := hboth hdone.autoLoadedPlugins }

/-- The library of a failed attempt is unloaded, when its session is gone. -/
theorem freeLibrary (hdone : AttemptDone s path t true false u) (hloaded : 0 < u.libraries path)
    (hown : u.sessions s.fresh = none) : AttemptDone s path t true true (u.freeLibrary path) :=
  { hdone with
    libraries := by
      intro p
      rw [← hdone.libraries p]
      by_cases hp : p = path
      · rw [hp]
        simp only [PluginState.freeLibrary, Function.update_self]
        simp
        omega
      · simp [PluginState.freeLibrary, hp]
    own := by
      intro cx hcx
      have hnone : (none : Option CxHostSession) = some cx := hown.symm.trans hcx
      cases hnone
    failed_of_freed := fun _ => rfl }

section Legacy

variable (hs : LoadValid s)
  (hextends : LoadExtends (.library path) (s.beginAttempt.openLibrary path) t)

include hs hextends

/-- Without a CX session, there is no session with the number of the attempt. -/
theorem legacy_sessions : t.sessions s.fresh = none := by
  have hkind := hextends.sessions s.fresh (Nat.lt_succ_self s.fresh)
  cases hcx : t.sessions s.fresh with
  | none => rfl
  | some cx =>
    obtain ⟨cx', hcx', -⟩ := exists_of_sessionKind hkind hcx
    have hcaller := ((AttemptStarted.legacy path hs).own cx' hcx').1
    cases hcaller

/-- There is no function to remove. -/
theorem legacy_without {map : FunctionMap} (hmap : ∀ e ∈ map, e.function ∈ t.functions) :
    FunctionMap.without (belongsTo s.fresh none) map = map := by
  apply List.filter_eq_self.mpr
  intro e he
  rw [Bool.not_eq_true', Bool.eq_false_iff, ne_eq, belongsTo_iff]
  rintro ⟨binding, hcode, -⟩
  have hcaller := (AttemptStarted.legacy path hs).own_session hextends hs (hmap e he) hcode
  cases hcaller

/-- The end of an entry point other than the CX one. -/
theorem legacy (failed : Bool) : AttemptDone s path t failed false t where
  fresh := rfl
  external := by
    rw [legacy_without hs hextends fun e he => mem_functions.mpr ⟨e, Or.inl he, rfl⟩, ite_self]
  autoloaded := by
    rw [legacy_without hs hextends fun e he => mem_functions.mpr ⟨e, Or.inr he, rfl⟩, ite_self]
  loadedPlugins := ⟨[], by simp⟩
  autoLoadedPlugins := ⟨[], by simp⟩
  libraries _ := by simp
  sessions _ _ := rfl
  own cx hcx := by
    rw [legacy_sessions hs hextends] at hcx
    cases hcx
  ownLive _ h := h
  history := ⟨[], by simp⟩
  failed_of_freed h := by cases h

end Legacy

section Cx

variable (hs : LoadValid s)
  (hextends : LoadExtends (.cx s.fresh)
    ((s.beginAttempt.openLibrary path).setSession s.fresh (some ⟨path, [], [], false⟩)) t)

include hextends

/-- The session is there when the entry point has ended, and has not been committed. -/
theorem cx_session :
    ∃ cx, t.sessions s.fresh = some cx ∧ cx.library = path ∧ cx.committed = false := by
  have hkind := hextends.sessions s.fresh (Nat.lt_succ_self s.fresh)
  have hself : ((s.beginAttempt.openLibrary path).setSession s.fresh
      (some ⟨path, [], [], false⟩)).sessionKind s.fresh = some (path, false) := by
    simp [sessionKind, setSession]
  rw [hself] at hkind
  obtain ⟨cx, hcx, hsame⟩ := Option.map_eq_some_iff.mp hkind
  exact ⟨cx, hcx, congrArg Prod.fst hsame, congrArg Prod.snd hsame⟩

theorem commit : AttemptDone s path t false false (t.commit s.fresh) := by
  obtain ⟨cx, hcx, hlibrary, -⟩ := cx_session hextends
  unfold PluginState.commit
  rw [hcx]
  exact {
    fresh := rfl
    external := rfl
    autoloaded := rfl
    loadedPlugins := ⟨[], by rw [List.append_nil]; rfl, by simp⟩
    autoLoadedPlugins := ⟨[], by rw [List.append_nil]; rfl, by simp⟩
    libraries := fun _ => by simp [setSession, addExit, PluginState.log]
    sessions := fun session hsession => by
      simp [sessionKind, setSession, addExit, PluginState.log, hsession]
    own := fun cx' hcx' => by
      have hself : some { cx with committed := true } = some cx' :=
        (Function.update_self s.fresh _ _).symm.trans hcx'
      rw [← Option.some.inj hself]
      exact ⟨rfl, hlibrary⟩
    ownLive := fun _ _ => by simp [setSession, addExit, PluginState.log]
    history := ⟨[.committed s.fresh t.exiting], rfl, by simp [PluginEvent.Untold]⟩
    failed_of_freed := fun h => by cases h }

theorem destroySession_none (start : PluginTables) :
    (t.destroySession s.fresh start).sessions s.fresh = none := by
  obtain ⟨cx, hcx, -⟩ := cx_session hextends
  unfold PluginState.destroySession
  rw [hcx]
  exact Function.update_self s.fresh _ _

/-- The session takes all of its functions back. -/
theorem destroySession (start : PluginTables) :
    AttemptDone s path t true false (t.destroySession s.fresh start) := by
  have hnone := destroySession_none hextends start
  obtain ⟨cx, hcx, hlibrary, hcommitted⟩ := cx_session hextends
  unfold PluginState.destroySession at hnone ⊢
  simp only [hcx, hcommitted, Bool.false_eq_true, if_false] at hnone ⊢
  exact {
    fresh := rfl
    external := FunctionMap.removeFunctions_eq_without _ _
    autoloaded := FunctionMap.removeFunctions_eq_without _ _
    loadedPlugins := ⟨[], by rw [List.append_nil]; rfl, by simp⟩
    autoLoadedPlugins := ⟨[], by rw [List.append_nil]; rfl, by simp⟩
    libraries := fun _ => rfl
    sessions := fun session hsession => by
      have hkept : ((((t.withdraw s.fresh none start).runShutdowns s.fresh
          cx.pendingShutdowns).destroyBindings s.fresh cx.bindings).setSession s.fresh
            none).sessions session = t.sessions session := Function.update_of_ne hsession _ _
      unfold sessionKind
      rw [hkept]
    own := fun cx' hcx' => by
      rw [hnone] at hcx'
      cases hcx'
    ownLive := fun h => by cases h
    history := by
      obtain ⟨w, hw⟩ : ∃ w, (t.withdraw s.fresh none start).history =
        t.history ++ [.withdrawn w] := ⟨_, rfl⟩
      let v := (t.withdraw s.fresh none start).runShutdowns s.fresh cx.pendingShutdowns
      use [.withdrawn w] ++ cx.pendingShutdowns.reverse.map (.shutDown s.fresh) ++
        cx.bindings.map fun b => .bindingDestroyed s.fresh b.1 (v.listed s.fresh b.1)
      constructor
      · simp only [setSession, PluginState.destroyBindings, runShutdowns, hw, List.append_assoc]
        rfl
      · intro e he
        simp only [List.mem_append, List.mem_singleton, List.mem_map] at he
        rcases he with (rfl | ⟨callback, -, rfl⟩) | ⟨binding, -, rfl⟩
        · trivial
        · trivial
        · trivial
    failed_of_freed := fun h => by cases h }

end Cx

end AttemptDone

namespace LoadExtends

variable {c c' : Caller} {s t : PluginState}

/-- What other code does on behalf of `c`, if the functions with that code were there. -/
theorem of_caller (h : LoadExtends c' s t) (hlibrary : ∀ path, c' = .library path → s.HasCode path)
    (hsession : ∀ session, c' = .cx session → s.HasSession session) : LoadExtends c s t :=
  { h with
    code := by
      intro hcalm path hcode
      rcases h.code hcalm path hcode with hold | ⟨hself, -⟩ | hloaded
      · exact Or.inl hold
      · exact Or.inl (hlibrary path hself)
      · exact Or.inr (Or.inr hloaded)
    session := by
      intro session hthere
      rcases h.session session hthere with hold | hself | hnested
      · exact Or.inl hold
      · exact Or.inl (hsession session hself)
      · exact Or.inr (Or.inr hnested) }

end LoadExtends

namespace LoadWork

variable {c : Caller} {s t : PluginState}

/-- An attempt that has changed nothing is recorded. -/
theorem logEnded {r : LoadAttempt} (hrestored : r.failed = true → r.Restored)
    (hwithdrawn : r.failed = true → r.Withdrawn) (hafter : r.after = s.toPluginTables) :
    LoadWork c s (s.log (.loadEnded r)) := by
  have hmem : ∀ {event}, event ∈ (s.log (.loadEnded r)).history →
      event ∈ s.history ∨ event = .loadEnded r := by
    intro event hevent
    simpa [PluginState.log] using hevent
  have hext : s.history <+: (s.log (.loadEnded r)).history := List.prefix_append _ _
  intro hs hready
  constructor
  · exact {
      attempt_lt := hs.attempt_lt
      function_lt := hs.function_lt
      code_lt := hs.code_lt
      plugin_lt := hs.plugin_lt
      session_lt := hs.session_lt
      registered_lt := by
        intro f hf
        rcases hmem hf with hold | hnew
        · exact hs.registered_lt f hold
        · cases hnew
      registered := fun f hf => hext.subset (hs.registered f hf)
      sessionLoaded := hs.sessionLoaded
      restored_iff := by
        intro r' hr' hfailed
        rcases hmem hr' with hold | hnew
        · exact hs.restored_iff r' hold hfailed
        · injection hnew with heq
          rw [heq] at hfailed ⊢
          exact iff_of_true (hrestored hfailed) (hwithdrawn hfailed)
      noDangling := by
        intro hcalm r' hr'
        have hold := hcalm.of_earlier hext
        rcases hmem hr' with hthere | hnew
        · exact hs.noDangling hold r' hthere
        · injection hnew with heq
          rw [heq, hafter]
          exact hs.tables_noDangling hold
      libraryLoaded := fun hcalm path hcode =>
        hs.libraryLoaded (hcalm.of_earlier hext) path hcode }
  · exact {
      fresh := Nat.le_refl _
      attempt := rfl
      external := FunctionMap.Appends.refl _ _ _
      autoloaded := FunctionMap.Appends.refl _ _ _
      loadedPlugins := PluginsAppended.refl _ _
      autoLoadedPlugins := PluginsAppended.refl _ _
      history := hext
      libraries := fun _ => Nat.le_refl _
      sessions := fun _ _ => rfl
      newSession := by
        intro session cx hnew hcx
        have hlive : (s.sessions session).isSome := Option.isSome_iff_exists.mpr ⟨cx, hcx⟩
        exact absurd (hs.session_lt session hlive) (Nat.not_lt.mpr hnew)
      registered := by
        intro f hf
        rcases hmem hf with hold | hnew
        · exact Or.inl hold
        · cases hnew
      code := fun _ path hcode => Or.inl hcode
      session := fun session hsession => Or.inl hsession }

/-- An attempt that ends before anything is loaded. -/
theorem untouched (failed : Bool) : LoadWork c s (s.endAttempt failed s.beginAttempt) := by
  intro hs hready
  let u : PluginState := { s with fresh := s.fresh + 1 }
  have hsame : SameTables s u := .of_eq (Nat.le_succ _) rfl rfl rfl
  have hregistered : s.beginAttempt.registeredIn s.fresh = [] := by
    rw [List.eq_nil_iff_forall_not_mem]
    intro f hf
    obtain ⟨hf, hattempt⟩ := mem_registeredIn.mp hf
    have hlt := hs.registered_lt f hf
    omega
  have hbefore : ∀ {α : Type} {attempt : α → ℕ} {l : List α},
      (∀ a ∈ l, attempt a < s.fresh) → l.filter (fun a => attempt a ≤ s.fresh) = l := by
    intro α attempt l hl
    apply List.filter_eq_self.mpr
    exact fun a ha => decide_eq_true (Nat.le_of_lt (hl a ha))
  have hended : LoadWork c u (u.log (.loadEnded (record s failed s.beginAttempt))) := by
    apply logEnded
    · intro _
      refine ⟨hbefore ?_, hbefore ?_, hbefore ?_, hbefore ?_⟩
      · exact fun e he => hs.function_lt _ (mem_functions.mpr ⟨e, Or.inl he, rfl⟩)
      · exact fun e he => hs.function_lt _ (mem_functions.mpr ⟨e, Or.inr he, rfl⟩)
      · exact fun p hp => hs.plugin_lt p (List.mem_append_left _ hp)
      · exact fun p hp => hs.plugin_lt p (List.mem_append_right _ hp)
    · intro _ f hf
      have hnone : f ∈ s.beginAttempt.registeredIn s.fresh := hf
      rw [hregistered] at hnone
      cases hnone
    · rfl
  exact (hsame.work c).trans hended hs hready

/-- Every attempt keeps the invariant, however it ends. -/
theorem attempt {path : String} {failed : Bool} (h : Attempted LoadWork s path failed t) :
    LoadWork c s (s.endAttempt failed t) := by
  intro hs hready
  have hlegacy := AttemptStarted.legacy path hs
  have hcx := AttemptStarted.cx path hs
  have hloaded : (s.beginAttempt.openLibrary path).Ready (.library path) := by
    change 0 < (s.beginAttempt.openLibrary path).libraries path
    rw [hlegacy.libraries, if_pos rfl]
    omega
  have hlive : ((s.beginAttempt.openLibrary path).setSession s.fresh
      (some ⟨path, [], [], false⟩)).Ready (.cx s.fresh) := by
    simp [Ready, setSession]
  have hmore : ∀ {c' : Caller} {s' u : PluginState}, AttemptStarted s path c' s' →
      LoadExtends c' s' u → 0 < u.libraries path := by
    intro c' s' u hstart hextends
    have hle := hstart.libraries_le hextends path
    rw [if_pos rfl] at hle
    omega
  cases h with
  | untouched => exact untouched failed hs hready
  | rejected =>
    have hsame : (s.beginAttempt.openLibrary path).freeLibrary path = s.beginAttempt := by
      simp [openLibrary, PluginState.freeLibrary]
    rw [hsame]
    exact untouched true hs hready
  | loaded autoloading plugin hplugin work =>
    obtain ⟨ht, hextends⟩ := work (hlegacy.valid hs) hloaded
    have hdone := (AttemptDone.legacy hs hextends false).pushPlugin autoloading hplugin
    exact hdone.work hs hlegacy ht hextends c hs hready
  | kept work =>
    obtain ⟨ht, hextends⟩ := work (hlegacy.valid hs) hloaded
    exact (AttemptDone.legacy hs hextends true).work hs hlegacy ht hextends c hs hready
  | unloaded work =>
    obtain ⟨ht, hextends⟩ := work (hlegacy.valid hs) hloaded
    have hdone := (AttemptDone.legacy hs hextends true).freeLibrary (hmore hlegacy hextends)
      (AttemptDone.legacy_sessions hs hextends)
    exact hdone.work hs hlegacy ht hextends c hs hready
  | committed autoloading plugin hplugin work =>
    obtain ⟨ht, hextends⟩ := work (hcx.valid hs) hlive
    have hdone := (AttemptDone.commit hextends).pushPlugin autoloading hplugin
    exact hdone.work hs hcx ht hextends c hs hready
  | @rolledBack t work =>
    obtain ⟨ht, hextends⟩ := work (hcx.valid hs) hlive
    have hdone := AttemptDone.destroySession hextends s.toPluginTables
    have hkept : 0 < (t.destroySession s.fresh s.toPluginTables).libraries path := by
      have hsame := hdone.libraries path
      have hpos := hmore hcx hextends
      simp only [Bool.false_eq_true, false_and, if_false] at hsame
      omega
    have hfreed := hdone.freeLibrary hkept (AttemptDone.destroySession_none hextends _)
    exact hfreed.work hs hcx ht hextends c hs hready

/-- A function that is there is called. -/
theorem call {f : AVSFunction} (hf : f ∈ s.functions) (hrunnable : s.Runnable f.code)
    (h : LoadWork f.code.caller s t) : LoadWork c s t := by
  intro hs _
  obtain ⟨ht, hextends⟩ := h hs (ready_of_runnable hrunnable)
  refine ⟨ht, hextends.of_caller ?_ ?_⟩
  · intro path hcaller
    cases hcode : f.code with
    | library path' apply =>
      rw [hcode] at hcaller
      injection hcaller with heq
      rw [heq] at hcode
      exact ⟨f, hf, apply, hcode⟩
    | _ =>
      rw [hcode] at hcaller
      cases hcaller
  · intro session hcaller
    cases hcode : f.code with
    | cx session' binding =>
      rw [hcode] at hcaller
      injection hcaller with heq
      rw [heq] at hcode
      exact ⟨f, hf, binding, hcode⟩
    | _ =>
      rw [hcode] at hcaller
      cases hcaller

theorem autoload {failed : Bool} (h : LoadWork .script s.beginAutoload t) :
    LoadWork c s (t.endAutoload failed) := by
  intro hs _
  have hbegin : SameTables s s.beginAutoload := .of_eq (Nat.le_refl _) rfl rfl rfl
  have hlogged : (PluginEvent.autoloadEnded failed).Untold := trivial
  let v : PluginState := { t with autoloading := failed && t.autoloading, inAutoload := false }
  have hcleared : SameTables t v := .of_eq (Nat.le_refl _) rfl rfl rfl
  have hend : SameTables t (t.endAutoload failed) := hcleared.trans (.log hlogged v)
  obtain ⟨hu, hextends⟩ :=
    (((hbegin.work .script).trans h).trans (hend.work .script)) hs trivial
  exact ⟨hu, hextends.of_caller (fun _ h => by cases h) fun _ h => by cases h⟩

theorem rules (world : PluginWorld) : PluginRules world LoadWork where
  refl c s := (SameTables.refl s).work c
  trans _ _ _ _ := LoadWork.trans
  setOperations c s n := (SameTables.setOperations n s).work c
  setPluginInLoad c s plugin := by
    have hsame : SameTables s (s.setPluginInLoad plugin) :=
      .of_eq (Nat.le_refl _) rfl rfl rfl
    exact hsame.work c
  setImports c s imports := by
    have hsame : SameTables s { s with autoLoadedImports := imports } :=
      .of_eq (Nat.le_refl _) rfl rfl rfl
    exact hsame.work c
  observe c s := (SameTables.log (by trivial) s).work c
  addFunction code name params hcode := addFunction world code name params hcode
  registerFunction session apply name params := registerFunction world session apply name params
  addShutdown session callback s := (SameTables.addShutdown session callback s).work _
  addExit code s _ := (SameTables.addExit (.other code) s).work _
  found c s _ _ _ := (SameTables.log (by trivial) s).work c
  call _ _ _ _ hf hrunnable h := call hf hrunnable h
  autoload _ _ _ _ _ h := autoload h
  attempt _ _ _ _ _ h := attempt h

end LoadWork

namespace PluginState

theorem initial_loadValid : LoadValid initial := by
  constructor
  · constructor <;> simp [initial, functions]
  · intro _ path hcode
    obtain ⟨f, hf, -⟩ := hcode
    simp [initial, functions] at hf

/-- Every failed attempt has left the tables as they were before it, and no function of an
unloaded library could be called after any attempt, or can be now. -/
def LoadsClean (s : PluginState) : Prop :=
  (∀ r, .loadEnded r ∈ s.history → (r.failed = true → r.Restored) ∧ r.after.NoDangling) ∧
    s.toPluginTables.NoDangling

end PluginState

/-- Failed attempts leave no trace in any run in which, and only in which, they register
functions through their CX sessions only. -/
theorem PluginWorld.failedLoads_clean_iff (world : PluginWorld) (fuel : ℕ)
    (program : PluginProgram) (result : Except PluginError PluginAnswer) (t : PluginState)
    (hrun : ofProgram (world.perform fuel .script) program .initial =
      some (result, t)) :
    t.LoadsClean ↔ t.Calm := by
  obtain ⟨ht, -⟩ := (LoadWork.rules world).keeps_run fuel .script program _ _ _ hrun
    PluginState.initial_loadValid trivial
  constructor
  · rintro ⟨hclean, -⟩ r hr hfailed
    exact (ht.restored_iff r hr hfailed).mp ((hclean r hr).1 hfailed)
  · intro hcalm
    constructor
    · intro r hr
      constructor
      · intro hfailed
        exact (ht.restored_iff r hr hfailed).mpr (hcalm r hr hfailed)
      · exact ht.noDangling hcalm r hr
    · exact ht.tables_noDangling hcalm

/-- A plugin of version 2.5 and one with the CX entry point, which register a function and
then fail. -/
def halfLoadedWorld : PluginWorld where
  libraries path := .library (
    if path = "/plugins/old.dll" then
      ⟨none, none, none, none, some (.request (.addFunction "Blur" "c" 0) fun _ =>
        .finish (.error .other))⟩
    else
      ⟨some (.request (.addFunction "Blur" "c" 0) fun _ => .finish (.error .other)), none, none,
        none, none⟩)
  dirs := []
  scripts _ := .finish (.ok .done)
  bodies n := .finish (.ok (.value n))
  builtins := []
  signatureMatches _ _ _ _ := true
  operation _ := .ok ()

/-- The code is called through a binding of the session. -/
def calledThrough (session : ℕ) : FunctionCode → Bool
  | .cx owner _ => owner == session
  | _ => false

theorem failedLoads_clean_cx : ∃ result t,
    ofProgram (halfLoadedWorld.perform 3 .script)
      (.ask (.loadPlugin "/plugins/new.dll" true)) .initial = some (result, t) ∧
      (t.history.any fun
        | .loadEnded r => r.failed && r.registered.length == 1
        | _ => false) = true ∧ t.LoadsClean := by
  have hhistory : ((ofProgram (halfLoadedWorld.perform 3 .script)
      (.ask (.loadPlugin "/plugins/new.dll" true)) .initial).map fun run =>
        (run.2.history.any fun
          | .loadEnded r => r.failed && r.registered.length == 1
          | _ => false,
        run.2.history.all fun
          | .loadEnded r => r.registered.all fun f => calledThrough r.number f.code
          | _ => true)) = some (true, true) := by decide +kernel
  obtain ⟨⟨result, t⟩, hrun, hended⟩ := Option.map_eq_some_iff.mp hhistory
  obtain ⟨hfailed, hall⟩ := Prod.ext_iff.mp hended
  use result, t, hrun, hfailed
  apply (halfLoadedWorld.failedLoads_clean_iff 3 _ result t hrun).mpr
  intro r hr _ f hf
  have hcode := List.all_eq_true.mp (List.all_eq_true.mp hall _ hr) f hf
  cases hfunction : f.code with
  | cx session binding =>
    rw [hfunction] at hcode
    exact ⟨binding, by rw [beq_iff_eq.mp hcode]⟩
  | _ =>
    rw [hfunction] at hcode
    cases hcode

/-- The functions of an older plugin stay, without its library. -/
theorem failedLoad_leavesFunction :
    ((ofProgram (halfLoadedWorld.perform 3 .script)
      (.ask (.loadPlugin "/plugins/old.dll" true)) .initial).map fun run =>
        (run.2.externalFunctions.map fun e => (e.key, e.function.code),
          run.2.libraries "/plugins/old.dll")) =
      some ([("blur", .library "/plugins/old.dll" 0), ("old_blur", .library "/plugins/old.dll" 0)],
        0) ∧
      ¬ ∀ (world : PluginWorld) (fuel : ℕ) (program : PluginProgram)
        (result : Except PluginError PluginAnswer) (t : PluginState),
        ofProgram (world.perform fuel .script) program .initial = some (result, t) →
        t.LoadsClean := by
  have hleft : ((ofProgram (halfLoadedWorld.perform 3 .script)
      (.ask (.loadPlugin "/plugins/old.dll" true)) .initial).map fun run =>
        (run.2.externalFunctions.map fun e => (e.key, e.function.code),
          run.2.libraries "/plugins/old.dll")) =
      some ([("blur", .library "/plugins/old.dll" 0), ("old_blur", .library "/plugins/old.dll" 0)],
        0) := by decide +kernel
  constructor
  · exact hleft
  · intro hclaim
    obtain ⟨⟨result, t⟩, hrun, hthere⟩ := Option.map_eq_some_iff.mp hleft
    obtain ⟨-, hclean⟩ := hclaim _ _ _ _ _ hrun
    obtain ⟨hcode, hlibraries⟩ := Prod.ext_iff.mp hthere
    obtain ⟨e, he, hfunction⟩ : ∃ e ∈ t.externalFunctions,
        (e.key, e.function.code) = ("blur", .library "/plugins/old.dll" 0) := by
      apply List.mem_map.mp
      rw [show t.externalFunctions.map (fun e => (e.key, e.function.code)) = _ from hcode]
      exact List.mem_cons_self
    have hloaded := hclean e (List.mem_append_left _ he)
    have hplugin : e.function.code = .library "/plugins/old.dll" 0 :=
      congrArg Prod.snd hfunction
    rw [hplugin] at hloaded
    exact absurd hlibraries (Nat.ne_of_gt hloaded)

end AviSynth
