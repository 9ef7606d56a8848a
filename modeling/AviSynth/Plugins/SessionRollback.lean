import AviSynth.Plugins.SessionSteps

/-!
# Attempts and their sessions

An attempt with a CX session opens it, and commits it or rolls it back at the end. What
a session takes back are exactly its own entries, and its callbacks run at once.
-/

namespace AviSynth

open Exceptional PluginState PluginEvent

section Cx

variable {s t : PluginState} {path : String}

/-- The state in which the session of an attempt is open. -/
def PluginState.openSession (path : String) (s : PluginState) : PluginState :=
  (s.beginAttempt.openLibrary path).setSession s.fresh (some ⟨path, [], [], false⟩)

theorem view_openSession (hs : SessionValid s) (session : ℕ) :
    (s.openSession path).view session = if session = s.fresh then
      ⟨some (false, []), false, 0, [], [], [], false⟩ else s.view session := by
  by_cases heq : session = s.fresh
  · have hunborn := hs.unborn s.fresh (Nat.le_refl _)
    have hopen : (s.openSession path).view s.fresh =
        { s.view s.fresh with ledger := some (false, []) } := by
      simp [view, openSession, setSession, openLibrary, beginAttempt]
    rw [if_pos heq, heq, hopen, hunborn]
    rfl
  · rw [if_neg heq]
    simp [view, openSession, setSession, openLibrary, beginAttempt, heq]

theorem openSession_valid (hs : SessionValid s) (hload : LoadValid s) :
    SessionValid (s.openSession path) where
  views session := by
    rw [view_openSession hs]
    split_ifs
    · exact .opened []
    · exact hs.views session
  unborn session hnew := by
    have hlt : s.fresh < session := hnew
    rw [view_openSession hs, if_neg (by omega)]
    exact hs.unborn session hlt.le
  notLate hexiting session := by
    rw [view_openSession hs]
    split_ifs
    · rfl
    · exact hs.notLate hexiting session
  bound f hf session binding hcode := by
    obtain ⟨cx, hcx, hbody⟩ := hs.bound f hf session binding hcode
    have hlt := hload.session_lt session (Option.isSome_iff_exists.mpr ⟨cx, hcx⟩)
    exact ⟨cx, (Function.update_of_ne (Nat.ne_of_lt hlt) _ _).trans hcx, hbody⟩
  binding_lt session cx hcx b hb := by
    by_cases heq : session = s.fresh
    · rw [heq] at hcx
      have hself : some (⟨path, [], [], false⟩ : CxHostSession) = some cx :=
        (Function.update_self s.fresh _ _).symm.trans hcx
      rw [← Option.some.inj hself] at hb
      cases hb
    · have hold : s.sessions session = some cx := (Function.update_of_ne heq _ _).symm.trans hcx
      exact (hs.binding_lt session cx hold b hb).trans (Nat.lt_succ_self _)
  fair := hs.fair

/-- What the code of the plugin has left: the session is open, and has not been listed. -/
theorem opened_view (ht : SessionValid t) {n : ℕ} {cx : CxHostSession}
    (hcx : t.sessions n = some cx) (hcommitted : cx.committed = false) :
    t.view n = ⟨some (false, cx.pendingShutdowns), false, 0, cx.pendingShutdowns, [], [],
      false⟩ := by
  apply (ht.views n).opened_eq
  rw [view_ledger hcx, hcommitted]

variable {n : ℕ} {cx : CxHostSession}

theorem commit_eq (hcx : t.sessions n = some cx) : t.commit n =
    ((t.setSession n (some { cx with committed := true })).addExit (.bridge n)).log
      (.committed n t.exiting) := by
  unfold commit
  rw [hcx]

/-- The sessions after a commit. -/
theorem view_commit (ht : SessionValid t) (hcx : t.sessions n = some cx)
    (hcommitted : cx.committed = false) (session : ℕ) :
    (t.commit n).view session = if session = n then
      ⟨some (true, cx.pendingShutdowns), false, 1, cx.pendingShutdowns, [], [], t.exiting⟩
      else t.view session := by
  rw [commit_eq hcx]
  by_cases heq : session = n
  · have hview : (((t.setSession n (some { cx with committed := true })).addExit
        (.bridge n)).log (.committed n t.exiting)).view n = { t.view n with
          ledger := some (true, cx.pendingShutdowns)
          exits := (t.view n).exits + 1
          committedLate := (t.view n).committedLate || t.exiting } := by
      simp [view, setSession, addExit, log, acceptedBy, shutDownOf,
        commitsLate]
    rw [if_pos heq, heq, hview, opened_view ht hcx hcommitted]
    simp
  · have hne : ¬ n = session := fun h => heq h.symm
    rw [if_neg heq]
    simp [view, setSession, addExit, log, acceptedBy, shutDownOf,
      commitsLate, heq, hne]

/-- The session of a successful attempt waits for the end of the environment. -/
theorem commit_valid (ht : SessionValid t) (hload : LoadValid t) (hcx : t.sessions n = some cx)
    (hcommitted : cx.committed = false) : SessionValid (t.commit n) := by
  have hview := view_commit ht hcx hcommitted
  have hlt : n < t.fresh := hload.session_lt n (Option.isSome_iff_exists.mpr ⟨cx, hcx⟩)
  have hbindings : SameBindings t (t.commit n) := by
    have h : SameBindings t (t.setSession n (some { cx with committed := true })) :=
      .setSession hcx rfl
    rw [commit_eq hcx]
    exact ⟨h.fresh, h.functions, h.bindings⟩
  have hsame : (t.commit n).fresh = t.fresh ∧ (t.commit n).exiting = t.exiting ∧
      (t.commit n).history = t.history ++ [.committed n t.exiting] := by
    rw [commit_eq hcx]
    exact ⟨rfl, rfl, rfl⟩
  obtain ⟨hfresh, hexiting, hhistory⟩ := hsame
  exact {
    views := by
      intro session
      rw [hview]
      split_ifs
      · exact .waiting _ 1 _ (Nat.le_refl 1) (by simp)
      · exact ht.views session
    unborn := by
      intro session hnew
      rw [hfresh] at hnew
      rw [hview, if_neg (by omega)]
      exact ht.unborn session hnew
    notLate := by
      intro hnot session
      rw [hexiting] at hnot
      rw [hview]
      split_ifs
      · exact hnot
      · exact ht.notLate hnot session
    bound := fun f hf session binding hcode => hbindings.bound ht hf hcode
    binding_lt := fun session cx' hcx' b hb => hbindings.binding_lt ht hcx' hb
    fair := by
      rw [hhistory]
      exact List.forall_mem_append.mpr ⟨ht.fair, by simp [Fair]⟩ }

/-- Functions are removed from the tables. -/
theorem view_withdraw (session : ℕ) (binding : Option ℕ) (start : PluginTables)
    (s : PluginState) (session' : ℕ) :
    (s.withdraw session binding start).view session' = s.view session' := by
  simp [view, withdraw, removeFunctions, log, acceptedBy, shutDownOf,
    commitsLate]

/-- Callbacks run. -/
theorem view_runShutdowns (session : ℕ) (callbacks : List ℕ) (s : PluginState) (session' : ℕ) :
    (s.runShutdowns session callbacks).view session' = { s.view session' with
      run := (s.view session').run ++ if session' = session then callbacks.reverse else [] } := by
  have haccepted : ∀ late, (callbacks.reverse.map (shutDown session)).filterMap
      (acceptedBy session' late) = [] := by
    intro late
    apply List.filterMap_eq_nil_iff.mpr
    intro e he
    obtain ⟨callback, -, rfl⟩ := List.mem_map.mp he
    rfl
  have hcommitted : (callbacks.reverse.map (shutDown session)).any
      (commitsLate session') = false := by
    apply List.any_eq_false.mpr
    intro e he
    obtain ⟨callback, -, rfl⟩ := List.mem_map.mp he
    simp [commitsLate]
  have hrun : (callbacks.reverse.map (shutDown session)).filterMap
      (shutDownOf session') = if session' = session then callbacks.reverse else [] := by
    rw [List.filterMap_map]
    by_cases heq : session' = session
    · rw [if_pos heq, heq]
      have hsome : shutDownOf session ∘ shutDown session = some := by
        funext callback
        simp [shutDownOf]
      rw [hsome, List.filterMap_some]
    · rw [if_neg heq]
      apply List.filterMap_eq_nil_iff.mpr
      intro callback _
      have hne : ¬ session = session' := fun h => heq h.symm
      simp [shutDownOf, hne]
  simp only [view, runShutdowns, List.filterMap_append, List.any_append, haccepted, hcommitted,
    hrun, List.append_nil, Bool.or_false]

/-- Bindings are destroyed. -/
theorem view_destroyBindings (session : ℕ) (bindings : List (ℕ × ℕ)) (s : PluginState)
    (session' : ℕ) : (s.destroyBindings session bindings).view session' = s.view session' := by
  apply SameSessions.view_eq
  · rfl
  · rfl
  · exact ⟨[], rfl, by simp⟩
  · refine ⟨_, rfl, ?_⟩
    intro e he
    obtain ⟨binding, -, rfl⟩ := List.mem_map.mp he
    trivial

/-- A session is gone. -/
theorem view_setSession_none (session : ℕ) (s : PluginState) (session' : ℕ) :
    (s.setSession session none).view session' =
      if session' = session then { s.view session with ledger := none } else s.view session' := by
  by_cases heq : session' = session
  · rw [if_pos heq, heq]
    simp [view, setSession]
  · rw [if_neg heq]
    simp [view, setSession, heq]

theorem destroySession_eq (hcx : t.sessions n = some cx) (hcommitted : cx.committed = false)
    (start : PluginTables) : t.destroySession n start =
      (((t.withdraw n none start).runShutdowns n cx.pendingShutdowns).destroyBindings n
        cx.bindings).setSession n none := by
  unfold destroySession
  rw [hcx]
  dsimp only
  rw [hcommitted]
  rfl

/-- The sessions after a rollback. -/
theorem view_destroySession (ht : SessionValid t) (hcx : t.sessions n = some cx)
    (hcommitted : cx.committed = false) (start : PluginTables) (session : ℕ) :
    (t.destroySession n start).view session = if session = n then
      ⟨none, false, 0, cx.pendingShutdowns, [], cx.pendingShutdowns.reverse, false⟩
      else t.view session := by
  rw [destroySession_eq hcx hcommitted, view_setSession_none, view_destroyBindings,
    view_destroyBindings, view_runShutdowns, view_runShutdowns, view_withdraw, view_withdraw,
    opened_view ht hcx hcommitted, if_pos rfl]
  split_ifs
  · rfl
  · simp

/-- No entry of a session is left when its functions have been removed. -/
theorem listed_withdraw (binding : ℕ) (start : PluginTables) :
    (t.withdraw n none start).listed n binding = false := by
  unfold listed
  rw [List.any_eq_false]
  intro e he hbelongs
  have hown : belongsTo n none e.function = true := by
    obtain ⟨b, hcode, -⟩ := belongsTo_iff.mp hbelongs
    exact belongsTo_iff.mpr ⟨b, hcode, by simp⟩
  have hwithout : belongsTo n none e.function = false := by
    rcases List.mem_append.mp he with hin | hin
    · simp only [withdraw, log, removeFunctions, FunctionMap.removeFunctions_eq_without] at hin
      exact (FunctionMap.mem_without.mp hin).2
    · simp only [withdraw, log, removeFunctions, FunctionMap.removeFunctions_eq_without] at hin
      exact (FunctionMap.mem_without.mp hin).2
  rw [hown] at hwithout
  cases hwithout

/-- The session of a failed attempt takes back exactly its own entries, runs its callbacks
and destroys its bindings after their entries. -/
theorem destroySession_valid (ht : SessionValid t) (hload : LoadValid t)
    (hcx : t.sessions n = some cx) (hcommitted : cx.committed = false) (start : PluginTables)
    (hexternal : start.externalFunctions <+: (t.destroySession n start).externalFunctions)
    (hautoloaded : start.autoloadedFunctions <+: (t.destroySession n start).autoloadedFunctions) :
    SessionValid (t.destroySession n start) := by
  have hview := view_destroySession ht hcx hcommitted start
  have heq := destroySession_eq hcx hcommitted start
  have hlt : n < t.fresh := hload.session_lt n (Option.isSome_iff_exists.mpr ⟨cx, hcx⟩)
  have hfresh : (t.destroySession n start).fresh = t.fresh := by
    rw [heq]
    rfl
  have hfunctions : ∀ f ∈ (t.destroySession n start).functions,
      f ∈ t.functions ∧ ∀ binding, f.code ≠ .cx n binding := by
    intro f hf
    rw [heq] at hf
    obtain ⟨e, he, rfl⟩ := mem_functions.mp hf
    have hboth : (e ∈ t.externalFunctions ∨ e ∈ t.autoloadedFunctions) ∧
        belongsTo n none e.function = false := by
      simp only [setSession, destroyBindings, runShutdowns, withdraw, log, removeFunctions,
        FunctionMap.removeFunctions_eq_without, FunctionMap.mem_without] at he
      rcases he with ⟨hin, hnot⟩ | ⟨hin, hnot⟩
      · exact ⟨Or.inl hin, hnot⟩
      · exact ⟨Or.inr hin, hnot⟩
    constructor
    · exact mem_functions.mpr ⟨e, hboth.1, rfl⟩
    · intro binding hcode
      have hown : belongsTo n none e.function = true :=
        belongsTo_iff.mpr ⟨binding, hcode, by simp⟩
      rw [hown] at hboth
      cases hboth.2
  have hsessions : ∀ session ≠ n, (t.destroySession n start).sessions session =
      t.sessions session := by
    intro session hne
    rw [heq]
    exact Function.update_of_ne hne _ _
  exact {
    views := by
      intro session
      rw [hview]
      split_ifs
      · exact .gone _
      · exact ht.views session
    unborn := by
      intro session hnew
      rw [hfresh] at hnew
      rw [hview, if_neg (by omega)]
      exact ht.unborn session hnew
    notLate := by
      intro hnot session
      rw [hview]
      split_ifs
      · rfl
      · rw [heq] at hnot
        exact ht.notLate hnot session
    bound := by
      intro f hf session binding hcode
      obtain ⟨hold, hother⟩ := hfunctions f hf
      have hne : session ≠ n := by
        rintro rfl
        exact hother binding hcode
      rw [hsessions session hne]
      exact ht.bound f hold session binding hcode
    binding_lt := by
      intro session cx' hcx' b hb
      rw [hfresh]
      by_cases hown : session = n
      · rw [hown, heq] at hcx'
        have hnone : (none : Option CxHostSession) = some cx' :=
          (Function.update_self n _ _).symm.trans hcx'
        cases hnone
      · rw [hsessions session hown] at hcx'
        exact ht.binding_lt session cx' hcx' b hb
    fair := by
      rw [heq] at hexternal hautoloaded ⊢
      let w : Withdrawal := ⟨n, none, start, t.toPluginTables,
        (t.removeFunctions n none).toPluginTables⟩
      have hexact : w.Exact := {
        external := FunctionMap.removeFunctions_eq_without _ _
        autoloaded := FunctionMap.removeFunctions_eq_without _ _
        externalKept := hexternal
        autoloadedKept := hautoloaded
        registration := fun h => by cases h }
      intro e he
      simp only [setSession, destroyBindings, runShutdowns, withdraw, log, List.mem_append,
        List.mem_map, List.mem_singleton] at he
      rcases he with ((hold | rfl) | ⟨callback, -, rfl⟩) | ⟨binding, -, rfl⟩
      · exact ht.fair e hold
      · exact hexact
      · trivial
      · exact listed_withdraw binding.1 start }

/-- The sessions when an attempt has ended that has opened its session and closed it. -/
theorem SessionExtends.of_opened {u : PluginState} (hs : SessionValid s)
    (h : SessionExtends (s.openSession path) t)
    (hview : ∀ session ≠ s.fresh, u.view session = t.view session)
    (hown : ∀ pending, (u.view s.fresh).ledger ≠ some (false, pending))
    (hatExit : ∃ new, u.atExit = new ++ t.atExit ∧ ∀ session, .bridge session ∈ new →
      session = s.fresh ∧ (s.exiting = true → (u.view session).committedLate = true))
    (hexiting : u.exiting = t.exiting) (hbridged : u.bridged = t.bridged) :
    SessionExtends s u where
  exiting := hexiting.trans h.exiting
  bridged := hbridged.trans h.bridged
  opened session pending hledger := by
    by_cases heq : session = s.fresh
    · rw [heq] at hledger
      exact absurd hledger (hown pending)
    · rw [hview session heq] at hledger
      obtain ⟨pending', hledger'⟩ := h.opened session pending hledger
      rw [view_openSession hs, if_neg heq] at hledger'
      exact ⟨pending', hledger'⟩
  atExit := by
    obtain ⟨first, hfirst, hlate⟩ := h.atExit
    obtain ⟨second, hsecond, hlate'⟩ := hatExit
    use second ++ first
    constructor
    · rw [hsecond, hfirst, List.append_assoc]
      rfl
    · intro session hmem
      rcases List.mem_append.mp hmem with hin | hin
      · obtain ⟨rfl, hcommitted⟩ := hlate' session hin
        exact ⟨Nat.le_refl _, hcommitted⟩
      · obtain ⟨hnew, hcommitted⟩ := hlate session hin
        have hlt : s.fresh < session := hnew
        rw [hview session (Nat.ne_of_gt hlt)]
        exact ⟨hlt.le, hcommitted⟩
  committedLate session hlt := by
    have hne : session ≠ s.fresh := Nat.ne_of_lt hlt
    have hold := h.committedLate session (hlt.trans (Nat.lt_succ_self _))
    rw [view_openSession hs, if_neg hne] at hold
    rw [hview session hne, hold]

end Cx

namespace SessionWork

variable {c : Caller} {s t : PluginState} {path : String}

/-- The end of an attempt. -/
theorem endAttempt_same (failed : Bool) (s u : PluginState) :
    SameSessions u (s.endAttempt failed u) := by
  let v : PluginState := { u with attempt := s.attempt, pluginInLoad := s.pluginInLoad }
  have hrestored : SameSessions u v :=
    .of_eq (Nat.le_refl _) rfl rfl rfl rfl rfl rfl
  exact hrestored.trans (.log (by trivial) (by trivial) v)

theorem pushPlugin_same (autoloading : Bool) (plugin : PluginFile) (s : PluginState) :
    SameSessions s (s.pushPlugin autoloading plugin) := by
  cases autoloading with
  | false | true => exact .of_eq (Nat.le_refl _) rfl rfl rfl rfl rfl rfl

/-- Every attempt leaves the sessions closed that were opened in it. -/
theorem attempt {failed : Bool} (h : Attempted SessionWork s path failed t) :
    SessionWork c s (s.endAttempt failed t) := by
  refine ⟨LoadWork.attempt (h.mono fun _ _ _ hwork => hwork.1), ?_⟩
  intro hload hs _
  have hstarted : SameSessions s (s.beginAttempt.openLibrary path) :=
    SameSessions.of_eq (Nat.le_succ _) rfl rfl rfl rfl rfl rfl
  have hloaded : (s.beginAttempt.openLibrary path).Ready (.library path) := by
    have hlibraries := (AttemptStarted.legacy path hload).libraries path
    rw [if_pos rfl] at hlibraries
    change 0 < (s.beginAttempt.openLibrary path).libraries path
    omega
  have hlive : (s.openSession path).Ready (.cx s.fresh) := by
    simp [Ready, openSession, setSession]
  -- the end of an attempt that began without a session
  have hlegacy : ∀ {t u}, SessionWork (.library path) (s.beginAttempt.openLibrary path) t →
      SameSessions t u → SessionValid u ∧ SessionExtends s u ∧ s.fresh ≤ u.fresh := by
    intro t u hwork hsame
    have hloads := (AttemptStarted.legacy path hload).valid hload
    obtain ⟨ht, hextends⟩ := hwork.2 hloads (hstarted.valid hs) hloaded
    have hfresh := hstarted.fresh.trans (hwork.1 hloads hloaded).2.fresh
    refine ⟨hsame.valid ht, ?_, hfresh.trans hsame.fresh⟩
    exact (hstarted.extends_.trans hextends (hstarted.valid hs) hstarted.fresh).trans
      hsame.extends_ ht hfresh
  -- the state in which a plugin with a session has ended
  have hcx : ∀ {t}, SessionWork (.cx s.fresh) (s.openSession path) t →
      (LoadValid t ∧ LoadExtends (.cx s.fresh) (s.openSession path) t) ∧
        SessionValid t ∧ SessionExtends (s.openSession path) t := by
    intro t hwork
    have hloads := (AttemptStarted.cx path hload).valid hload
    exact ⟨hwork.1 hloads hlive, hwork.2 hloads (openSession_valid hs hload) hlive⟩
  have hend : ∀ {u}, SessionValid u ∧ SessionExtends s u ∧ s.fresh ≤ u.fresh →
      SessionValid (s.endAttempt failed u) ∧ SessionExtends s (s.endAttempt failed u) := by
    rintro u ⟨hu, hextends, hfresh⟩
    have hsame := endAttempt_same failed s u
    exact ⟨hsame.valid hu, hextends.trans hsame.extends_ hu hfresh⟩
  apply hend
  cases h with
  | untouched =>
    have hsame : SameSessions s s.beginAttempt :=
      SameSessions.of_eq (Nat.le_succ _) rfl rfl rfl rfl rfl rfl
    exact ⟨hsame.valid hs, hsame.extends_, hsame.fresh⟩
  | rejected =>
    have hsame : SameSessions s ((s.beginAttempt.openLibrary path).freeLibrary path) :=
      SameSessions.of_eq (Nat.le_succ _) rfl rfl rfl rfl rfl rfl
    exact ⟨hsame.valid hs, hsame.extends_, hsame.fresh⟩
  | loaded autoloading plugin hplugin work =>
    exact hlegacy work (pushPlugin_same autoloading plugin _)
  | kept work =>
    exact hlegacy work (SameSessions.of_eq (Nat.le_refl _) rfl rfl rfl rfl rfl rfl)
  | @unloaded t work =>
    have hsame : SameSessions t (t.freeLibrary path) :=
      SameSessions.of_eq (Nat.le_refl _) rfl rfl rfl rfl rfl rfl
    exact hlegacy work hsame
  | @committed t autoloading plugin hplugin work =>
    obtain ⟨⟨htload, hextends⟩, ht, hsessions⟩ := hcx work
    obtain ⟨cx, hthere, -, hcommitted⟩ := AttemptDone.cx_session hextends
    have hu := commit_valid ht htload hthere hcommitted
    have hview := view_commit ht hthere hcommitted
    have hsame : (t.commit s.fresh).atExit = [.bridge s.fresh] ++ t.atExit ∧
        (t.commit s.fresh).exiting = t.exiting ∧ (t.commit s.fresh).bridged = t.bridged ∧
        (t.commit s.fresh).fresh = t.fresh := by
      rw [commit_eq hthere]
      exact ⟨rfl, rfl, rfl, rfl⟩
    obtain ⟨hatExit, hexiting, hbridged, hfresh⟩ := hsame
    have hclosed : SessionExtends s (t.commit s.fresh) := by
      apply SessionExtends.of_opened hs hsessions _ _ _ hexiting hbridged
      · intro session hne
        rw [hview, if_neg hne]
      · intro pending
        rw [hview, if_pos rfl]
        simp
      · use [.bridge s.fresh], hatExit
        intro session hmem
        rw [List.mem_singleton] at hmem
        injection hmem with heq
        constructor
        · exact heq
        · intro hnow
          rw [hview, if_pos heq]
          exact hsessions.exiting.trans hnow
    have hpushed := pushPlugin_same autoloading plugin (t.commit s.fresh)
    have hle : s.fresh ≤ (t.commit s.fresh).fresh := by
      rw [hfresh]
      exact (Nat.le_succ _).trans hextends.fresh
    exact ⟨hpushed.valid hu, hclosed.trans hpushed.extends_ hu hle, hle.trans hpushed.fresh⟩
  | @rolledBack t work =>
    obtain ⟨⟨htload, hextends⟩, ht, hsessions⟩ := hcx work
    obtain ⟨cx, hthere, -, hcommitted⟩ := AttemptDone.cx_session hextends
    have hstart := AttemptStarted.cx path hload
    have hdone := AttemptDone.destroySession hextends s.toPluginTables
    obtain ⟨⟨newExternal, hexternal, -⟩, newAuto, hauto, -⟩ := hdone.appended hload hstart hextends
    have hu := destroySession_valid ht htload hthere hcommitted s.toPluginTables
      (hexternal ▸ List.prefix_append _ _) (hauto ▸ List.prefix_append _ _)
    have hview := view_destroySession ht hthere hcommitted s.toPluginTables
    have hkept : (t.destroySession s.fresh s.toPluginTables).atExit = t.atExit ∧
        (t.destroySession s.fresh s.toPluginTables).exiting = t.exiting ∧
        (t.destroySession s.fresh s.toPluginTables).bridged = t.bridged := by
      rw [destroySession_eq hthere hcommitted]
      exact ⟨rfl, rfl, rfl⟩
    let v := t.destroySession s.fresh s.toPluginTables
    have hfreed : SameSessions v (v.freeLibrary path) :=
      SameSessions.of_eq (Nat.le_refl _) rfl rfl rfl rfl rfl rfl
    have hclosed : SessionExtends s v := by
      apply SessionExtends.of_opened hs hsessions _ _ _ hkept.2.1 hkept.2.2
      · intro session hne
        rw [hview, if_neg hne]
      · intro pending
        rw [hview, if_pos rfl]
        simp
      · exact ⟨[], hkept.1, by simp⟩
    have hfresh : s.fresh ≤ v.fresh := by
      have hle := hextends.fresh
      rw [← hdone.fresh] at hle
      exact (Nat.le_succ _).trans hle
    exact ⟨hfreed.valid hu, hclosed.trans hfreed.extends_ hu hfresh, hfresh⟩

theorem autoload {failed : Bool} (h : SessionWork .script s.beginAutoload t) :
    SessionWork c s (t.endAutoload failed) := by
  refine ⟨LoadWork.autoload h.1, ?_⟩
  intro hload hs _
  have hbegin : SameSessions s s.beginAutoload :=
    .of_eq (Nat.le_refl _) rfl rfl rfl rfl rfl rfl
  have hsame : SameTables s s.beginAutoload := .of_eq (Nat.le_refl _) rfl rfl rfl
  let v : PluginState := { t with autoloading := failed && t.autoloading, inAutoload := false }
  have hcleared : SameSessions t v :=
    .of_eq (Nat.le_refl _) rfl rfl rfl rfl rfl rfl
  have hend : SameSessions t (t.endAutoload failed) :=
    hcleared.trans (.log (by trivial) (by trivial) v)
  have hloads := hsame.valid hload
  obtain ⟨ht, hextends⟩ := h.2 hloads (hbegin.valid hs) trivial
  have hfresh := hbegin.fresh.trans (h.1 hloads trivial).2.fresh
  refine ⟨hend.valid ht, ?_⟩
  exact (hbegin.extends_.trans hextends (hbegin.valid hs) hbegin.fresh).trans hend.extends_ ht
    hfresh

/-- A function that is there is called. -/
theorem call {f : AVSFunction} (hf : f ∈ s.functions) (hrunnable : s.Runnable f.code)
    (h : SessionWork f.code.caller s t) : SessionWork c s t := by
  refine ⟨LoadWork.call hf hrunnable h.1, ?_⟩
  intro hload hs _
  exact h.2 hload hs (ready_of_runnable hrunnable)

theorem rules (world : PluginWorld) : PluginRules world SessionWork where
  refl c s :=
    have hsame : SameSessions s s :=
      .of_eq (Nat.le_refl _) rfl rfl rfl rfl rfl rfl
    hsame.work ((LoadWork.rules world).refl c s)
  trans _ _ _ _ := SessionWork.trans
  setOperations c s n :=
    (SameSessions.setOperations n s).work ((LoadWork.rules world).setOperations c s n)
  setPluginInLoad c s plugin :=
    have hsame : SameSessions s (s.setPluginInLoad plugin) :=
      .of_eq (Nat.le_refl _) rfl rfl rfl rfl rfl rfl
    hsame.work ((LoadWork.rules world).setPluginInLoad c s plugin)
  setImports c s imports :=
    have hsame : SameSessions s { s with autoLoadedImports := imports } :=
      .of_eq (Nat.le_refl _) rfl rfl rfl rfl rfl rfl
    hsame.work ((LoadWork.rules world).setImports c s imports)
  observe c s :=
    (SameSessions.log (by trivial) (by trivial) s).work ((LoadWork.rules world).observe c s)
  addFunction code name params hcode := by
    intro s result t h
    have hload := (LoadWork.rules world).addFunction code name params hcode s result t h
    exact (SameSessions.addFunction world code name params hcode s result t h).work hload
  registerFunction session apply name params := registerFunction world session apply name params
  addShutdown session callback s := by
    refine ⟨(LoadWork.rules world).addShutdown session callback s, ?_⟩
    intro hload hs hready
    obtain ⟨cx, hcx⟩ := Option.isSome_iff_exists.mp hready
    exact addShutdown_valid hs hload hcx callback
  addExit code s hcode :=
    (SameSessions.addExit code s).work ((LoadWork.rules world).addExit code s hcode)
  found c s call found hfound :=
    (SameSessions.log (by trivial) (by trivial) s).work
      ((LoadWork.rules world).found c s call found hfound)
  call _ _ _ _ hf hrunnable h := call hf hrunnable h
  autoload _ _ _ _ _ h := autoload h
  attempt _ _ _ _ _ h := attempt h

end SessionWork

end AviSynth
