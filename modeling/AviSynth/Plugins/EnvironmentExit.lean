import AviSynth.Plugins.SessionRollback

/-!
# The end of the environment

The functions given to `AtExit` are called, and among them the bridges of the committed
sessions. After that the sessions are destroyed without any further call. A callback is
lost if it is accepted after the bridge of its session has been called, or by a session
that is committed while the functions are being called.
-/

namespace AviSynth

open Exceptional PluginState PluginEvent

namespace PluginEvent

/-- The callback that the session accepts with an event. -/
def accepts (session : ℕ) : PluginEvent → Option ℕ
  | .accepted session' callback _ => if session' = session then some callback else none
  | _ => none

/-- The callbacks are accepted before the bridge of the session is called, or later. -/
theorem length_accepts (session : ℕ) (history : List PluginEvent) :
    (history.filterMap (accepts session)).length =
      (history.filterMap (acceptedBy session false)).length +
        (history.filterMap (acceptedBy session true)).length := by
  induction history with
  | nil => rfl
  | cons e history ih =>
    cases e with
    | accepted session' callback late =>
      by_cases heq : session' = session
      · cases late with
        | false | true =>
          simp [accepts, acceptedBy, heq, ih]
          omega
      · simp [accepts, acceptedBy, heq, ih]
    | _ => simpa [List.filterMap_cons, accepts, acceptedBy] using ih

theorem accepts_eq_early {session : ℕ} {history : List PluginEvent}
    (hlate : history.filterMap (acceptedBy session true) = []) :
    history.filterMap (accepts session) = history.filterMap (acceptedBy session false) := by
  apply List.filterMap_congr
  intro e he
  have hnone := List.filterMap_eq_nil_iff.mp hlate e he
  cases e with
  | accepted session' callback late =>
    cases late with
    | false => simp [accepts, acceptedBy]
    | true =>
      have hne : session' ≠ session := by simpa [acceptedBy] using hnone
      simp [accepts, acceptedBy, hne]
  | _ => rfl

end PluginEvent

namespace PluginState

variable {s t : PluginState} {session : ℕ}

/-- The callbacks that a session has accepted, in their order. -/
def accepted (session : ℕ) (s : PluginState) : List ℕ :=
  s.history.filterMap (accepts session)

/-- The callbacks of a session that have run, in their order. -/
def shutDowns (session : ℕ) (s : PluginState) : List ℕ :=
  s.history.filterMap (shutDownOf session)

/-- All sessions are committed or gone. -/
def Closed (s : PluginState) : Prop :=
  ∀ session pending, (s.view session).ledger ≠ some (false, pending)

/-- No callback has been accepted after the bridge of its session had been called, or by a
session that was committed while the environment ended. -/
def OnTime (s : PluginState) : Prop :=
  (∀ session callback, .accepted session callback true ∉ s.history) ∧
    ∀ session, .committed session true ∈ s.history →
      ∀ callback late, .accepted session callback late ∉ s.history

theorem mem_accepted {callback : ℕ} : callback ∈ s.accepted session ↔
    ∃ late, .accepted session callback late ∈ s.history := by
  unfold accepted
  rw [List.mem_filterMap]
  constructor
  · rintro ⟨e, he, hcallback⟩
    cases e with
    | accepted session' callback' late =>
      obtain ⟨rfl, ⟨⟩⟩ := Option.ite_none_right_eq_some.mp hcallback
      exact ⟨late, he⟩
    | _ => cases hcallback
  · rintro ⟨late, he⟩
    exact ⟨_, he, by simp [accepts]⟩

theorem mem_late {callback : ℕ} :
    callback ∈ (s.view session).late ↔ .accepted session callback true ∈ s.history := by
  unfold view
  rw [List.mem_filterMap]
  constructor
  · rintro ⟨e, he, hcallback⟩
    cases e with
    | accepted session' callback' late =>
      simp only [acceptedBy, Option.ite_none_right_eq_some, Option.some.injEq]
        at hcallback
      obtain ⟨⟨rfl, rfl⟩, rfl⟩ := hcallback
      exact he
    | _ => cases hcallback
  · intro he
    exact ⟨_, he, by simp [acceptedBy]⟩

theorem committedLate_iff :
    (s.view session).committedLate = true ↔ .committed session true ∈ s.history := by
  unfold view
  rw [List.any_eq_true]
  constructor
  · rintro ⟨e, he, hcommits⟩
    cases e with
    | committed session' exiting =>
      simp only [commitsLate, Bool.and_eq_true, beq_iff_eq] at hcommits
      obtain ⟨rfl, rfl⟩ := hcommits
      exact he
    | _ => cases hcommits
  · intro he
    exact ⟨_, he, by simp [commitsLate]⟩

theorem onTime_iff : s.OnTime ↔ ∀ session, (s.view session).late = [] ∧
    ((s.view session).committedLate = true → s.accepted session = []) := by
  unfold OnTime
  constructor
  · rintro ⟨hlate, hcommitted⟩ session
    constructor
    · rw [List.eq_nil_iff_forall_not_mem]
      exact fun callback hmem => hlate session callback (mem_late.mp hmem)
    · intro hthere
      rw [List.eq_nil_iff_forall_not_mem]
      intro callback hmem
      obtain ⟨late, haccepted⟩ := mem_accepted.mp hmem
      exact hcommitted session (committedLate_iff.mp hthere) callback late haccepted
  · intro h
    constructor
    · intro session callback hmem
      have hlate := mem_late.mpr hmem
      rw [(h session).1] at hlate
      cases hlate
    · intro session hcommitted callback late hmem
      have haccepted := mem_accepted.mpr ⟨late, hmem⟩
      rw [(h session).2 (committedLate_iff.mpr hcommitted)] at haccepted
      cases haccepted

end PluginState

namespace SessionView

variable {v : SessionView}

/-- A session is dropped from the list of `AtExit`, having been committed late. -/
theorem Valid.dropExits (hv : v.Valid) {exits : ℕ} (hle : exits ≤ v.exits)
    (hlate : exits < v.exits → v.committedLate = true) : Valid { v with exits := exits } := by
  cases hv with
  | gone early =>
    obtain rfl : exits = 0 := Nat.le_zero.mp hle
    exact gone early
  | opened early =>
    obtain rfl : exits = 0 := Nat.le_zero.mp hle
    exact opened early
  | waiting early exits' committedLate hle' hlisted =>
    apply waiting early exits committedLate (hle.trans hle')
    intro hzero
    by_cases hlt : exits < exits'
    · exact hlate hlt
    · apply hlisted
      change exits ≤ exits' at hle
      omega
  | bridged early late =>
    obtain rfl : exits = 0 := Nat.le_zero.mp hle
    exact bridged early late

theorem Valid.of_gone (hv : v.Valid) (hledger : v.ledger = none) :
    v.run = v.early.reverse ∧ v.late = [] := by
  cases hv with
  | gone early => exact ⟨rfl, rfl⟩
  | _ => cases hledger

theorem Valid.of_held (hv : v.Valid) (hbridged : v.bridged = false)
    (hclosed : ∀ pending, v.ledger ≠ some (false, pending)) (hlive : v.ledger ≠ none) :
    v.run = [] := by
  cases hv with
  | gone => exact absurd rfl hlive
  | opened early => exact absurd rfl (hclosed early)
  | waiting => rfl
  | bridged => cases hbridged

/-- When no bridge is left to be called, all callbacks of a session have run if and only if
they were accepted in time. -/
theorem Valid.run_eq_iff (hv : v.Valid) (hexits : v.exits = 0)
    (hclosed : ∀ pending, v.ledger ≠ some (false, pending)) {accepted : List ℕ}
    (hlength : accepted.length = v.early.length + v.late.length)
    (hearly : v.late = [] → accepted = v.early) :
    v.run = accepted.reverse ↔ v.late = [] ∧ (v.committedLate = true → accepted = []) := by
  cases hv with
  | gone early =>
    rw [hearly rfl]
    simp
  | opened early => exact absurd rfl (hclosed early)
  | waiting early exits committedLate hle hlisted =>
    rw [hlisted hexits, hearly rfl]
    dsimp only
    rw [eq_comm, List.reverse_eq_nil_iff]
    simp
  | bridged early late =>
    dsimp only at hlength hearly ⊢
    constructor
    · intro hrun
      have hsame := congrArg List.length hrun
      rw [List.length_reverse, List.length_reverse] at hsame
      exact ⟨List.length_eq_zero_iff.mp (by omega), by simp⟩
    · rintro ⟨hlate, -⟩
      rw [hearly hlate]

end SessionView

/-- What holds between two calls of exit functions, with the given ones still to come. -/
structure Exiting (rest : List ExitFunction) (s : PluginState) : Prop where
  load : LoadValid s
  sessions : SessionValid s
  closed : s.Closed
  exiting : s.exiting = true
  atExit : s.atExit = rest
  listed : ∀ session, .bridge session ∈ rest → (s.view session).committedLate = false

namespace Exiting

variable {s t : PluginState} {f : ExitFunction} {rest : List ExitFunction}

/-- The exit functions that have been added by a call are dropped with the called one. -/
theorem next (ht : LoadValid t) (hsessions : SessionValid t) (hclosed : t.Closed)
    (hexiting : t.exiting = true)
    (hdropped : ∀ session, rest.count (.bridge session) ≤ (t.view session).exits ∧
      (rest.count (.bridge session) < (t.view session).exits →
        (t.view session).committedLate = true))
    (hlisted : ∀ session, .bridge session ∈ rest → (t.view session).committedLate = false) :
    Exiting rest { t with atExit := rest } where
  load := (SameTables.of_eq (t := { t with atExit := rest }) (Nat.le_refl t.fresh) rfl rfl
    rfl).valid ht
  sessions := {
    views := fun session =>
      (hsessions.views session).dropExits (hdropped session).1 (hdropped session).2
    unborn := by
      intro session hnew
      have hunborn := hsessions.unborn session hnew
      have hzero := (hdropped session).1
      rw [hunborn] at hzero
      have hview : PluginState.view session { t with atExit := rest } =
          { t.view session with exits := rest.count (.bridge session) } := rfl
      rw [hview, hunborn, Nat.le_zero.mp hzero]
      rfl
    notLate := hsessions.notLate
    bound := hsessions.bound
    binding_lt := hsessions.binding_lt
    fair := hsessions.fair }
  closed := hclosed
  exiting := hexiting
  atExit := rfl
  listed := hlisted

/-- A session in the list is committed, and there once. -/
theorem bridge_view {n : ℕ} (h : Exiting (.bridge n :: rest) s) :
    rest.count (.bridge n) = 0 ∧ ∃ cx, s.sessions n = some cx ∧ cx.committed = true ∧
      SessionView.Valid { s.view n with
        ledger := some (true, [])
        bridged := true
        exits := 0
        run := (s.view n).run ++ cx.pendingShutdowns.reverse } := by
  have hexits : (s.view n).exits = rest.count (.bridge n) + 1 := by
    simp only [view, h.atExit, List.count_cons_self]
  have hlate := h.listed n List.mem_cons_self
  obtain ⟨hone, pending, hledger, hvalid⟩ :=
    (h.sessions.views n).callBridge (by rw [hexits]; omega) hlate
  obtain ⟨cx, hcx, hsame⟩ := Option.map_eq_some_iff.mp hledger
  have hcommitted : cx.committed = true := congrArg Prod.fst hsame
  have hpending : cx.pendingShutdowns = pending := congrArg Prod.snd hsame
  rw [← hpending] at hvalid
  exact ⟨by omega, cx, hcx, hcommitted, hvalid⟩

/-- The bridge of a session is called: it runs all that is pending. -/
theorem bridge {n : ℕ} (h : Exiting (.bridge n :: rest) s) :
    Exiting rest { s.shutdownBridge n with atExit := rest } := by
  obtain ⟨hnone, cx, hcx, hcommitted, hvalid⟩ := h.bridge_view
  let t : PluginState := { s.shutdownBridge n with atExit := rest }
  have heq : s.shutdownBridge n = { (s.runShutdowns n cx.pendingShutdowns).setSession n
      (some { cx with pendingShutdowns := [] }) with bridged := n :: s.bridged } := by
    unfold shutdownBridge
    rw [hcx]
  have hlt : n < s.fresh := h.load.session_lt n (Option.isSome_iff_exists.mpr ⟨cx, hcx⟩)
  have hview : ∀ session, t.view session = if session = n then { s.view n with
        ledger := some (true, [])
        bridged := true
        exits := 0
        run := (s.view n).run ++ cx.pendingShutdowns.reverse }
      else s.view session := by
    intro session
    have hrun := view_runShutdowns n cx.pendingShutdowns s session
    have hhistory : t.history = (s.runShutdowns n cx.pendingShutdowns).history := by
      simp only [t, heq]
      rfl
    have hearly := congrArg SessionView.early hrun
    have hlate := congrArg SessionView.late hrun
    have hcallbacks := congrArg SessionView.run hrun
    have hcommittedLate := congrArg SessionView.committedLate hrun
    by_cases hsession : session = n
    · rw [if_pos hsession] at hcallbacks ⊢
      subst hsession
      apply SessionView.ext <;> simp only [view, hhistory]
      · simp [t, heq, setSession, hcommitted]
      · simp [t, heq]
      · exact hnone
      · exact hearly
      · exact hlate
      · exact hcallbacks
      · exact hcommittedLate
    · rw [if_neg hsession, List.append_nil] at hcallbacks
      rw [if_neg hsession]
      apply SessionView.ext <;> simp only [view, hhistory]
      · simp [t, heq, setSession, runShutdowns, hsession]
      · simp [t, heq, hsession]
      · have hne : ¬ n = session := fun h => hsession h.symm
        simp [t, h.atExit, hne]
      · exact hearly
      · exact hlate
      · exact hcallbacks
      · exact hcommittedLate
  have hbindings : SameBindings s t := by
    have hset : SameBindings s (s.setSession n (some { cx with pendingShutdowns := [] })) :=
      .setSession hcx rfl
    simp only [t, heq]
    exact ⟨hset.fresh, hset.functions, hset.bindings⟩
  have hlate : ∀ session, (t.view session).committedLate = (s.view session).committedLate := by
    intro session
    rw [hview]
    split_ifs with hsession
    · rw [hsession]
    · rfl
  have hfresh : t.fresh = s.fresh := by
    simp only [t, heq]
    rfl
  have hhistory : t.history = s.history ++ cx.pendingShutdowns.reverse.map (.shutDown n) := by
    simp only [t, heq]
    rfl
  have hexiting : t.exiting = s.exiting := by
    simp only [t, heq]
    rfl
  have hsame : SameTables s t :=
    (SameTables.shutdownBridge n s).trans (SameTables.of_eq (Nat.le_refl _) rfl rfl rfl)
  exact {
    load := hsame.valid h.load
    sessions := {
      views := by
        intro session
        rw [hview]
        split_ifs
        · exact hvalid
        · exact h.sessions.views session
      unborn := by
        intro session hnew
        have hle : s.fresh ≤ session := hfresh ▸ hnew
        rw [hview, if_neg (by omega)]
        exact h.sessions.unborn session hle
      notLate := by
        intro hnot session
        rw [hexiting, h.exiting] at hnot
        cases hnot
      bound := fun f hf session binding hcode => hbindings.bound h.sessions hf hcode
      binding_lt := fun session cx' hcx' b hb => hbindings.binding_lt h.sessions hcx' hb
      fair := by
        rw [hhistory, List.forall_mem_append]
        constructor
        · exact h.sessions.fair
        · intro e he
          obtain ⟨callback, -, rfl⟩ := List.mem_map.mp he
          trivial }
    closed := by
      intro session pending
      rw [hview]
      split_ifs
      · simp
      · exact h.closed session pending
    exiting := hexiting.trans h.exiting
    atExit := rfl
    listed := by
      intro session hmem
      rw [hlate]
      exact h.listed session (List.mem_cons_of_mem _ hmem) }

/-- Other code is called, which may load plugins and call functions. -/
theorem other {code : FunctionCode} (h : Exiting (.other code :: rest) s)
    (hrunnable : s.Runnable code) (hwork : SessionWork code.caller s t) :
    Exiting rest { t with atExit := rest } := by
  have hready := ready_of_runnable hrunnable
  obtain ⟨ht, -⟩ := hwork.1 h.load hready
  obtain ⟨hsessions, hextends⟩ := hwork.2 h.load h.sessions hready
  obtain ⟨new, hatExit, hnew⟩ := hextends.atExit
  rw [h.atExit] at hatExit
  apply next ht hsessions
  · intro session pending hledger
    obtain ⟨pending', hledger'⟩ := hextends.opened session pending hledger
    exact h.closed session pending' hledger'
  · exact hextends.exiting.trans h.exiting
  · intro session
    have hexits : (t.view session).exits =
        new.count (.bridge session) + rest.count (.bridge session) := by
      simp [view, hatExit]
    constructor
    · omega
    · intro hlt
      have hmem : .bridge session ∈ new := List.count_pos_iff.mp (by omega)
      exact (hnew session hmem).2 h.exiting
  · intro session hmem
    have hin : .bridge session ∈ .other code :: rest := List.mem_cons_of_mem _ hmem
    rw [hextends.committedLate session]
    · exact h.listed session hin
    · -- a session in the list has been committed
      by_contra hle
      have hunborn := h.sessions.unborn session (Nat.le_of_not_lt hle)
      have hexits : (s.view session).exits ≠ 0 := by
        simp only [view, h.atExit]
        exact Nat.ne_of_gt (List.count_pos_iff.mpr hin)
      rw [hunborn] at hexits
      exact hexits rfl

/-- All exit functions are called. -/
theorem execute {world : PluginWorld} {fuel : ℕ} {rest : List ExitFunction} {s t : PluginState}
    {result : Except PluginError Unit} (h : Exiting rest s)
    (hrun : world.executeExits (world.perform fuel) rest s = some (result, t)) : Exiting [] t := by
  induction rest generalizing s with
  | nil =>
    obtain ⟨⟩ := Option.some.inj hrun
    exact h
  | cons f rest ih =>
    obtain ⟨⟨called, u⟩, hcall, hrest⟩ := Option.bind_eq_some_iff.mp hrun
    cases f with
    | bridge n =>
      obtain ⟨⟩ := Option.some.inj hcall
      exact ih h.bridge hrest
    | other code =>
      unfold PluginWorld.callExit at hcall
      dsimp only at hcall
      split at hcall
      next answer v happly =>
        obtain ⟨⟩ := Option.some.inj hcall
        have rules := SessionWork.rules world
        obtain ⟨hrunnable, hwork⟩ := rules.apply_work (rules.keeps_perform fuel) happly
        exact ih (h.other hrunnable hwork) hrest
      next => cases hcall

end Exiting

namespace PluginWorld

/-- The bridges of sessions can always be called. -/
theorem executeExits_total (world : PluginWorld)
    (handle : Caller → PluginRequest → Plugins PluginAnswer) {rest : List ExitFunction}
    (hrest : ∀ code, .other code ∉ rest) (s : PluginState) :
    ∃ t, world.executeExits handle rest s = some (.ok (), t) := by
  induction rest generalizing s with
  | nil => exact ⟨s, rfl⟩
  | cons f rest ih =>
    cases f with
    | bridge n => exact ih (fun code hmem => hrest code (List.mem_cons_of_mem _ hmem)) _
    | other code => exact absurd List.mem_cons_self (hrest code)

/-- The environment comes to its end where only sessions have been given to `AtExit`. -/
theorem destroyEnvironment_total {world : PluginWorld}
    (handle : Caller → PluginRequest → Plugins PluginAnswer) {t : PluginState}
    (ht : ∀ code, .other code ∉ t.atExit) :
    ∃ u, world.destroyEnvironment handle t = some (.ok (), u) := by
  obtain ⟨v, hv⟩ := executeExits_total world handle ht { t with exiting := true }
  use v.destroyManager
  unfold destroyEnvironment
  apply Option.bind_eq_some_iff.mpr
  exact ⟨(.ok (), v), hv, rfl⟩

end PluginWorld

/-- The tables are empty, and the sessions that are left are committed. -/
structure Emptied (s : PluginState) : Prop where
  external : s.externalFunctions = []
  autoloaded : s.autoloadedFunctions = []
  committed : ∀ session cx, s.sessions session = some cx → cx.committed = true

/-- Nothing happens that says anything about callbacks, and nothing that is not fair. -/
def Quietly (s t : PluginState) : Prop :=
  ∃ events, t.history = s.history ++ events ∧ ∀ e ∈ events, e.Silent ∧ e.Fair

namespace Quietly

variable {s t u : PluginState}

theorem trans (hst : Quietly s t) (htu : Quietly t u) : Quietly s u := by
  obtain ⟨first, hfirst, hboth⟩ := hst
  obtain ⟨second, hsecond, hboth'⟩ := htu
  use first ++ second
  constructor
  · rw [hsecond, hfirst, List.append_assoc]
  · exact List.forall_mem_append.mpr ⟨hboth, hboth'⟩

/-- The callbacks are as before. -/
theorem filterMap {α : Type} (h : Quietly s t) {g : PluginEvent → Option α}
    (hg : ∀ e : PluginEvent, e.Silent → g e = none) :
    t.history.filterMap g = s.history.filterMap g := by
  obtain ⟨events, hhistory, hboth⟩ := h
  have hnone : events.filterMap g = [] :=
    List.filterMap_eq_nil_iff.mpr fun e he => hg e (hboth e he).1
  rw [hhistory, List.filterMap_append, hnone, List.append_nil]

end Quietly

namespace Emptied

variable {s : PluginState}

/-- A committed session is destroyed. -/
theorem destroySession (h : Emptied s) (session : ℕ) (start : PluginTables) :
    Emptied (s.destroySession session start) ∧ Quietly s (s.destroySession session start) := by
  unfold PluginState.destroySession
  cases hcx : s.sessions session with
  | none => exact ⟨h, [], by simp⟩
  | some cx =>
    simp only [h.committed session cx hcx, if_true]
    constructor
    · refine ⟨h.external, h.autoloaded, ?_⟩
      intro session' cx' hcx'
      by_cases heq : session' = session
      · rw [heq] at hcx'
        have hnone : (none : Option CxHostSession) = some cx' :=
          (Function.update_self session _ _).symm.trans hcx'
        cases hnone
      · exact h.committed session' cx' ((Function.update_of_ne heq _ _).symm.trans hcx')
    · refine ⟨_, rfl, ?_⟩
      intro e he
      obtain ⟨binding, -, rfl⟩ := List.mem_map.mp he
      simp [Silent, Fair, listed, h.external, h.autoloaded]

theorem destroySessions (h : Emptied s) (sessions : List ℕ) :
    Quietly s (sessions.foldl (fun s session => s.destroySession session s.toPluginTables) s) := by
  induction sessions generalizing s with
  | nil => exact ⟨[], by simp⟩
  | cons session sessions ih =>
    obtain ⟨hnext, hquiet⟩ := h.destroySession session s.toPluginTables
    exact hquiet.trans (ih hnext)

theorem freeLibraries (h : Emptied s) (plugins : List PluginFile) :
    Emptied (plugins.foldl (fun s plugin => s.freeLibrary plugin.filePath) s) ∧
      (plugins.foldl (fun s plugin => s.freeLibrary plugin.filePath) s).history = s.history := by
  induction plugins generalizing s with
  | nil => exact ⟨h, rfl⟩
  | cons plugin plugins ih =>
    obtain ⟨hemptied, hhistory⟩ := ih (s := s.freeLibrary plugin.filePath)
      ⟨h.external, h.autoloaded, h.committed⟩
    exact ⟨hemptied, hhistory⟩

end Emptied

namespace PluginState

/-- The destructor of the plugin manager runs no callback. -/
theorem destroyManager_quietly {s : PluginState} (hclosed : s.Closed) :
    Quietly s s.destroyManager := by
  have hemptied : Emptied { s with externalFunctions := [], autoloadedFunctions := [] } := by
    refine ⟨rfl, rfl, ?_⟩
    intro session cx hcx
    cases hcommitted : cx.committed with
    | true => rfl
    | false =>
      have hledger := view_ledger (s := s) hcx
      rw [hcommitted] at hledger
      exact absurd hledger (hclosed session _)
  obtain ⟨hfreed, hhistory⟩ := hemptied.freeLibraries (s.loadedPlugins ++ s.autoLoadedPlugins)
  obtain ⟨events, hevents, hboth⟩ := hfreed.destroySessions
    ((s.loadedPlugins ++ s.autoLoadedPlugins).filterMap (·.cxSession))
  rw [hhistory] at hevents
  exact ⟨events, hevents, hboth⟩

/-- What is promised of the sessions, at the end of the scripts in `t` and at the end of
the environment in `u`: what a session takes back are exactly its own entries; a binding is
destroyed after its entries; the callbacks of a session that is rolled back run at once,
and those of a committed one wait; and in the end all callbacks have run once, the newest
first. -/
structure SessionsSettled (t u : PluginState) : Prop where
  withdrawn : ∀ w, .withdrawn w ∈ u.history → w.Exact
  destroyed : ∀ session binding listed, .bindingDestroyed session binding listed ∈ u.history →
    listed = false
  rolledBack : ∀ session, t.sessions session = none →
    t.shutDowns session = (t.accepted session).reverse
  held : ∀ session, (t.sessions session).isSome → t.shutDowns session = []
  settled : ∀ session, u.shutDowns session = (u.accepted session).reverse

end PluginState

namespace SessionValid

variable {s : PluginState} {session : ℕ}

/-- The callbacks of a session that was rolled back have run. -/
theorem rolledBack (hs : SessionValid s) (hgone : s.sessions session = none) :
    s.shutDowns session = (s.accepted session).reverse := by
  have hledger : (s.view session).ledger = none := by simp [view, hgone]
  obtain ⟨hrun, hlate⟩ := (hs.views session).of_gone hledger
  have haccepted : s.accepted session = (s.view session).early := accepts_eq_early hlate
  rw [haccepted]
  exact hrun

/-- The callbacks of a committed session wait for its bridge. -/
theorem held (hs : SessionValid s) (hclosed : s.Closed) (hbridged : s.bridged = [])
    (hlive : (s.sessions session).isSome) : s.shutDowns session = [] := by
  obtain ⟨cx, hcx⟩ := Option.isSome_iff_exists.mp hlive
  apply (hs.views session).of_held _ (hclosed session)
  · rw [view_ledger hcx]
    simp
  · simp [view, hbridged]

end SessionValid

/-- When all exit functions have been called, the sessions are settled if and only if all
callbacks were accepted in time. -/
theorem Exiting.settled_iff {v u : PluginState} (hv : Exiting [] v) (hquiet : Quietly v u) :
    (∀ session, u.shutDowns session = (u.accepted session).reverse) ↔ u.OnTime := by
  have hexits : ∀ session, (v.view session).exits = 0 := by
    intro session
    simp [view, hv.atExit]
  have hiff : ∀ session, v.shutDowns session = (v.accepted session).reverse ↔
      (v.view session).late = [] ∧
        ((v.view session).committedLate = true → v.accepted session = []) := fun session =>
    (hv.sessions.views session).run_eq_iff (hexits session) (hv.closed session)
      (length_accepts session v.history) accepts_eq_early
  have hrun : ∀ session, u.shutDowns session = v.shutDowns session := by
    intro session
    apply hquiet.filterMap
    intro e he
    cases e with
    | shutDown => exact he.elim
    | _ => rfl
  have haccepted : ∀ session, u.accepted session = v.accepted session := by
    intro session
    apply hquiet.filterMap
    intro e he
    cases e with
    | accepted => exact he.elim
    | _ => rfl
  have hlate : ∀ session, (u.view session).late = (v.view session).late := by
    intro session
    apply hquiet.filterMap
    intro e he
    cases e with
    | accepted => exact he.elim
    | _ => rfl
  have hcommitted : ∀ session, (u.view session).committedLate = (v.view session).committedLate := by
    intro session
    obtain ⟨events, hhistory, hboth⟩ := hquiet
    have hnone : events.any (commitsLate session) = false := by
      apply List.any_eq_false.mpr
      intro e he
      have hsilent := (hboth e he).1
      cases e with
      | committed => exact hsilent.elim
      | _ => simp [commitsLate]
    simp only [view, hhistory, List.any_append, hnone, Bool.or_false]
  rw [onTime_iff]
  constructor
  · intro hsettled session
    rw [hlate, hcommitted, haccepted]
    apply (hiff session).mp
    rw [← hrun, ← haccepted]
    exact hsettled session
  · intro honTime session
    rw [hrun, haccepted]
    apply (hiff session).mpr
    have h := honTime session
    rw [hlate, hcommitted, haccepted] at h
    exact h

namespace PluginState

theorem initial_sessionValid : SessionValid initial where
  views _ := .gone []
  unborn _ _ := rfl
  notLate _ _ := rfl
  bound f hf := by simp [initial, functions] at hf
  binding_lt session cx hcx := by cases hcx
  fair e he := by cases he

end PluginState

/-- The sessions are settled in every run at whose end, and only at whose end, all callbacks
have been accepted in time. -/
theorem PluginWorld.sessions_settled_iff (world : PluginWorld) (fuel : ℕ)
    (program : PluginProgram) (result : Except PluginError PluginAnswer) (t u : PluginState)
    (hrun : ofProgram (world.perform fuel .script) program .initial = some (result, t))
    (hexit : world.destroyEnvironment (world.perform fuel) t = some (.ok (), u)) :
    PluginState.SessionsSettled t u ↔ u.OnTime := by
  have hwork := (SessionWork.rules world).keeps_run fuel .script program _ _ _ hrun
  obtain ⟨hload, -⟩ := hwork.1 initial_loadValid trivial
  obtain ⟨ht, hextends⟩ := hwork.2 initial_loadValid initial_sessionValid trivial
  have hclosed : t.Closed := by
    intro session pending hledger
    obtain ⟨pending', hledger'⟩ := hextends.opened session pending hledger
    cases hledger'
  have hnotExiting : t.exiting = false := hextends.exiting
  have hbridged : t.bridged = [] := hextends.bridged
  obtain ⟨⟨executed, v⟩, hexecute, hdestroy⟩ := Option.bind_eq_some_iff.mp hexit
  have hstart : Exiting t.atExit { t with exiting := true } := {
    load := (SameTables.of_eq (t := { t with exiting := true }) (Nat.le_refl t.fresh) rfl rfl
      rfl).valid hload
    sessions := ⟨ht.views, ht.unborn, (fun h => by cases h), ht.bound, ht.binding_lt, ht.fair⟩
    closed := hclosed
    exiting := rfl
    atExit := rfl
    listed := fun session _ => ht.notLate hnotExiting session }
  have hv := hstart.execute hexecute
  have hquiet : Quietly v u := by
    cases executed with
    | error e => cases Option.some.inj hdestroy
    | ok _ =>
      obtain ⟨-, rfl⟩ := Prod.ext_iff.mp (Option.some.inj hdestroy)
      exact destroyManager_quietly hv.closed
  have hfair : ∀ e ∈ u.history, e.Fair := by
    obtain ⟨events, hhistory, hboth⟩ := hquiet
    rw [hhistory]
    exact List.forall_mem_append.mpr ⟨hv.sessions.fair, fun e he => (hboth e he).2⟩
  rw [← hv.settled_iff hquiet]
  constructor
  · exact fun h => h.settled
  · intro hsettled
    exact {
      withdrawn := fun w hw => hfair _ hw
      destroyed := fun session binding listed hevent => hfair _ hevent
      rolledBack := fun session hgone => ht.rolledBack hgone
      held := fun session hlive => ht.held hclosed hbridged hlive
      settled := hsettled }

/-- A CX plugin that registers a function and two callbacks, one that registers the same and
fails, and a plugin that gives a function to `AtExit`, which loads the first one. -/
def shutdownWorld : PluginWorld where
  libraries path := .library (
    if path = "/plugins/blur.dll" then
      ⟨some (.request (.addFunction "Blur" "c" 0) fun _ => .request (.registerShutdown 1) fun _ =>
        .request (.registerShutdown 2) .finish), none, none, none, none⟩
    else if path = "/plugins/failing.dll" then
      ⟨some (.request (.addFunction "Blur" "c" 0) fun _ => .request (.registerShutdown 3) fun _ =>
        .request (.registerShutdown 4) fun _ => .finish (.error .other)), none, none, none, none⟩
    else ⟨none, some (.request (.atExit 1) .finish), none, none, none⟩)
  dirs := []
  scripts _ := .finish (.ok .done)
  bodies _ := .request (.loadPlugin "/plugins/blur.dll" true) .finish
  builtins := []
  signatureMatches _ _ _ _ := true
  operation _ := .ok ()

/-- A script that loads one plugin that fails, and one that does not. -/
def shutdownScript : PluginProgram :=
  .request (.loadPlugin "/plugins/failing.dll" true) fun _ =>
    .request (.loadPlugin "/plugins/blur.dll" true) .finish

/-- A run of a script and the end of its environment. -/
def PluginWorld.runAndExit (world : PluginWorld) (fuel : ℕ) (program : PluginProgram) :
    Option (PluginState × PluginState) :=
  (ofProgram (world.perform fuel .script) program .initial).bind fun (_, t) =>
    (world.destroyEnvironment (world.perform fuel) t).bind fun
      | (.ok (), u) => some (t, u)
      | (.error _, _) => none

theorem PluginWorld.runAndExit_eq_some {world : PluginWorld} {fuel : ℕ} {program : PluginProgram}
    {t u : PluginState} (h : world.runAndExit fuel program = some (t, u)) :
    ∃ result, ofProgram (world.perform fuel .script) program .initial =
      some (result, t) ∧ world.destroyEnvironment (world.perform fuel) t = some (.ok (), u) := by
  obtain ⟨⟨result, t'⟩, hrun, hrest⟩ := Option.bind_eq_some_iff.mp h
  obtain ⟨⟨ended, u'⟩, hexit, hend⟩ := Option.bind_eq_some_iff.mp hrest
  cases ended with
  | error e => cases hend
  | ok _ =>
    obtain ⟨⟩ := Option.some.inj hend
    exact ⟨result, hrun, hexit⟩

theorem sessions_settled_blur : ∃ t u,
    shutdownWorld.runAndExit 3 shutdownScript = some (t, u) ∧
      (u.shutDowns 1, u.shutDowns 4) = ([4, 3], [2, 1]) ∧ PluginState.SessionsSettled t u := by
  have hboth : (shutdownWorld.runAndExit 3 shutdownScript).map (fun (_, u) =>
      ((u.shutDowns 1, u.shutDowns 4), u.history.all fun
        | .accepted _ _ late => !late
        | .committed _ exiting => !exiting
        | _ => true)) = some (([4, 3], [2, 1]), true) := by decide +kernel
  obtain ⟨⟨t, u⟩, hrunAndExit, hends⟩ := Option.map_eq_some_iff.mp hboth
  obtain ⟨hshutDowns, hintime⟩ := Prod.ext_iff.mp hends
  obtain ⟨result, hrun, hexit⟩ := PluginWorld.runAndExit_eq_some hrunAndExit
  use t, u, hrunAndExit, hshutDowns
  apply (shutdownWorld.sessions_settled_iff 3 shutdownScript result t u hrun hexit).mpr
  constructor
  · intro session callback hlate
    cases List.all_eq_true.mp hintime _ hlate
  · intro session hcommitted
    cases List.all_eq_true.mp hintime _ hcommitted

/-- A callback of a plugin that is loaded while the environment ends is accepted, and never
runs. -/
theorem lateShutdown_lost :
    (shutdownWorld.runAndExit 4 (.ask (.loadPlugin "/plugins/exit.dll" true))).map
      (fun (_, u) => (u.accepted 2, u.shutDowns 2)) = some ([1, 2], []) ∧
      ¬ ∀ (world : PluginWorld) (fuel : ℕ) (program : PluginProgram)
        (result : Except PluginError PluginAnswer) (t u : PluginState),
        ofProgram (world.perform fuel .script) program .initial = some (result, t) →
        world.destroyEnvironment (world.perform fuel) t = some (.ok (), u) →
        PluginState.SessionsSettled t u := by
  have hlost : (shutdownWorld.runAndExit 4
      (.ask (.loadPlugin "/plugins/exit.dll" true))).map
        (fun (_, u) => (u.accepted 2, u.shutDowns 2)) = some ([1, 2], []) := by decide +kernel
  constructor
  · exact hlost
  · intro hclaim
    obtain ⟨⟨t, u⟩, hrunAndExit, hcallbacks⟩ := Option.map_eq_some_iff.mp hlost
    obtain ⟨haccepted, hshutDowns⟩ := Prod.ext_iff.mp hcallbacks
    obtain ⟨result, hrun, hexit⟩ := PluginWorld.runAndExit_eq_some hrunAndExit
    have hsettled := (hclaim _ _ _ _ _ _ hrun hexit).settled 2
    change u.accepted 2 = [1, 2] at haccepted
    change u.shutDowns 2 = [] at hshutDowns
    rw [haccepted, hshutDowns] at hsettled
    cases hsettled

end AviSynth
