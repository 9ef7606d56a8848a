import AviSynth.Plugins.SessionLedger

/-!
# The single operations and the sessions

A registration adds a binding to its session and nothing else, or leaves the session as
it was. The other operations of a session take it from one phase of its life to the
next.
-/

namespace AviSynth

open Exceptional PluginState SameSessions PluginWorld

namespace SameSessions

variable {s : PluginState} {session : ℕ} {cx : CxHostSession}

theorem setFresh {n : ℕ} (hn : s.fresh ≤ n) : SameSessions s (s.setFresh n) :=
  of_eq hn rfl rfl rfl rfl rfl rfl

/-- A function is entered in the tables whose binding is there, if it has one. -/
theorem enter {f : AVSFunction} (both : Bool) (hf : ∀ session binding,
    f.code = .cx session binding →
      ∃ cx, s.sessions session = some cx ∧ ∃ body, (binding, body) ∈ cx.bindings) :
    SameSessions s (s.enter f both) := by
  obtain ⟨newExternal, newAutoloaded, heq, hnew, -⟩ := enter_eq f both s
  rw [heq]
  exact {
    fresh := Nat.le_refl _
    views := fun _ => rfl
    exiting := rfl
    bridged := rfl
    atExit := ⟨[], rfl, by simp⟩
    bound := by
      intro g hg
      obtain ⟨e, he, rfl⟩ := mem_functions.mp hg
      have hwhere : (e ∈ s.externalFunctions ∨ e ∈ s.autoloadedFunctions) ∨
          e ∈ newExternal ++ newAutoloaded := by
        rw [List.mem_append]
        rcases he with hin | hin
        · rcases List.mem_append.mp hin with hold | hadded
          · exact Or.inl (Or.inl hold)
          · exact Or.inr (Or.inl hadded)
        · rcases List.mem_append.mp hin with hold | hadded
          · exact Or.inl (Or.inr hold)
          · exact Or.inr (Or.inr hadded)
      rcases hwhere with hold | hadded
      · exact Or.inl (mem_functions.mpr ⟨e, hold, rfl⟩)
      · rw [hnew e hadded]
        exact Or.inr hf
    bindings := fun _ cx hcx => ⟨cx, hcx, List.Subset.refl _⟩
    binding_lt := fun _ cx hcx b hb => Or.inr ⟨cx, hcx, hb⟩
    history := ⟨[], by simp⟩ }

/-- A function that is not a CX plugin's is registered. -/
theorem addFunction (world : PluginWorld) (code : FunctionCode) (name params : String)
    (hcode : ∀ session binding, code ≠ .cx session binding) :
    Keeps SameSessions (world.addFunction name params code) := by
  intro s result t h
  rcases addFunction_cases h with ⟨n, rfl⟩ | ⟨n, m, both, rfl⟩
  · exact setOperations n s
  · let f := s.newFunction name params code
    have hcreated : SameSessions s ((s.setOperations n).setFresh (s.fresh + 1)) :=
      (setOperations n s).trans (setFresh (Nat.le_succ _))
    have hsilent : (PluginEvent.registered f).Silent := trivial
    have hlogged := hcreated.trans (log hsilent trivial _)
    have hentered := hlogged.trans (enter (f := f) both fun session binding h =>
      absurd h (hcode session binding))
    exact hentered.trans (setOperations m _)

section

variable (hcx : s.sessions session = some cx)
include hcx

/-- The sessions when a new binding has been added. -/
theorem bound_sessions (apply n : ℕ) :
    (PluginWorld.bound session apply n s).sessions = Function.update s.sessions session
      (some { cx with bindings := cx.bindings ++ [(s.fresh, apply)] }) := by
  have hsame : ((s.setOperations n).setFresh (s.fresh + 1)).sessions session = some cx := hcx
  unfold PluginWorld.bound addBinding
  rw [hsame]
  rfl

omit hcx in
theorem bound_history (apply n : ℕ) :
    (PluginWorld.bound session apply n s).history = s.history := by
  unfold PluginWorld.bound addBinding
  split
  · rfl
  · rfl

/-- A session gets a new binding. -/
theorem newBinding (apply n : ℕ) :
    SameSessions s (PluginWorld.bound session apply n s) := by
  have hsessions := bound_sessions hcx apply n
  have hsame : ((s.setOperations n).setFresh (s.fresh + 1)).sessions session = some cx := hcx
  unfold PluginWorld.bound addBinding at hsessions ⊢
  rw [hsame] at hsessions ⊢
  exact {
    fresh := Nat.le_succ _
    views := by
      intro session'
      apply view_eq
      · simp only [view, hsessions]
        by_cases heq : session' = session
        · rw [heq, hcx]
          simp
        · simp [heq]
      · rfl
      · exact ⟨[], rfl, by simp⟩
      · exact ⟨[], by simp [setSession, PluginState.setOperations, PluginState.setFresh]⟩
    exiting := rfl
    bridged := rfl
    atExit := ⟨[], rfl, by simp⟩
    bound := fun f hf => Or.inl hf
    bindings := by
      intro session' cx' hcx'
      rw [hsessions]
      by_cases heq : session' = session
      · rw [heq] at hcx' ⊢
        obtain rfl := Option.some.inj (hcx.symm.trans hcx')
        exact ⟨_, Function.update_self _ _ _, List.subset_append_left _ _⟩
      · exact ⟨cx', (Function.update_of_ne heq _ _).trans hcx', List.Subset.refl _⟩
    binding_lt := by
      intro session' cx' hcx' b hb
      rw [hsessions] at hcx'
      by_cases heq : session' = session
      · rw [heq, Function.update_self] at hcx'
        rw [heq]
        obtain rfl := Option.some.inj hcx'
        rcases List.mem_append.mp hb with hold | hnew
        · exact Or.inr ⟨cx, hcx, hold⟩
        · left
          rw [List.mem_singleton.mp hnew]
          exact Nat.lt_succ_self _
      · rw [Function.update_of_ne heq] at hcx'
        exact Or.inr ⟨cx', hcx', hb⟩
    history := ⟨[], by simp [setSession, PluginState.setOperations, PluginState.setFresh]⟩ }

/-- The new function of a session is created. -/
theorem created (apply n m : ℕ) :
    SameSessions s (PluginWorld.created session apply n m s) :=
  ((newBinding hcx apply n).trans (setOperations m _)).trans (setFresh (Nat.le_succ _))

/-- It is entered in the tables. -/
theorem entered (apply n m : ℕ) (name params : String) (both : Bool) :
    SameSessions s ((PluginWorld.created session apply n m s).enter
      (boundFunction session apply n name params s) both) := by
  apply (created hcx apply n m).trans
  apply enter
  intro session' binding h
  injection h with hsession hbinding
  rw [← hsession, ← hbinding]
  change ∃ cx, (PluginWorld.bound session apply n s).sessions session = some cx ∧ _
  rw [bound_sessions hcx]
  exact ⟨_, Function.update_self _ _ _, apply,
    List.mem_append_right _ (List.mem_singleton_self _)⟩

end

/-- A registration that is taken back leaves its session as it was, and the withdrawal is
exact. -/
theorem takenBack (hs : SessionValid s) {u : PluginState}
    (hu : SameSessions s u) (hhistory : u.history = s.history)
    (hcx : s.sessions session = some cx) {apply : ℕ}
    (hsessions : u.sessions = Function.update s.sessions session
      (some { cx with bindings := cx.bindings ++ [(s.fresh, apply)] }))
    (hsame : SameTables s (PluginWorld.takenBack session s u)) (hload : LoadValid s) :
    SameSessions s (PluginWorld.takenBack session s u) := by
  let v := u.withdraw session (some s.fresh) s.toPluginTables
  have hv : v.sessions session =
      some { cx with bindings := cx.bindings ++ [(s.fresh, apply)] } := by
    change u.sessions session = _
    rw [hsessions, Function.update_self]
  -- without its new binding, the session is as before
  have hfiltered : (cx.bindings ++ [(s.fresh, apply)]).filter (fun b => b.1 ≠ s.fresh) =
      cx.bindings := by
    rw [List.filter_append, List.filter_eq_self.mpr]
    · simp
    · intro b hb
      have hlt := hs.binding_lt session cx hcx b hb
      exact decide_eq_true (Nat.ne_of_lt hlt)
  have heq : PluginWorld.takenBack session s u = (v.setSession session (some cx)).log
      (.bindingDestroyed session s.fresh (v.listed session s.fresh)) := by
    change v.eraseBinding session s.fresh = _
    unfold eraseBinding
    rw [hv]
    dsimp only
    rw [hfiltered]
  have hback : (PluginWorld.takenBack session s u).sessions = s.sessions := by
    rw [heq]
    change Function.update u.sessions session (some cx) = s.sessions
    rw [hsessions, Function.update_idem, ← hcx, Function.update_eq_self]
  have hexternal : v.externalFunctions = s.externalFunctions := by
    have h := hsame.external
    rw [heq] at h
    exact h
  have hautoloaded : v.autoloadedFunctions = s.autoloadedFunctions := by
    have h := hsame.autoloaded
    rw [heq] at h
    exact h
  let w : Withdrawal := ⟨session, some s.fresh, s.toPluginTables, u.toPluginTables,
    (u.removeFunctions session (some s.fresh)).toPluginTables⟩
  have hexact : w.Exact := {
    external := FunctionMap.removeFunctions_eq_without _ _
    autoloaded := FunctionMap.removeFunctions_eq_without _ _
    externalKept := by
      change s.externalFunctions <+: v.externalFunctions
      simp only [hexternal, List.prefix_rfl]
    autoloadedKept := by
      change s.autoloadedFunctions <+: v.autoloadedFunctions
      simp only [hautoloaded, List.prefix_rfl]
    registration := fun _ => ⟨hexternal, hautoloaded⟩ }
  have hlisted : v.listed session s.fresh = false := by
    unfold listed
    rw [hexternal, hautoloaded, List.any_eq_false]
    intro e he hbelongs
    obtain ⟨b, hcode, hb⟩ := belongsTo_iff.mp hbelongs
    have hlt := (hload.code_lt e.function (List.mem_map_of_mem he) session b hcode).2
    exact absurd (hb s.fresh rfl) (Nat.ne_of_lt hlt)
  apply of_sessions hsame.fresh hback
  · rw [heq]
    exact hu.exiting
  · rw [heq]
    exact hu.bridged
  · rw [heq]
    exact hu.atExit
  · intro f hf
    rw [hsame.functions] at hf
    exact Or.inl hf
  · rw [heq]
    use [.withdrawn w, .bindingDestroyed session s.fresh (v.listed session s.fresh)]
    constructor
    · change (u.history ++ [.withdrawn w]) ++ [_] = _
      rw [hhistory, List.append_assoc]
      rfl
    · rw [hlisted]
      simp [PluginEvent.Silent, PluginEvent.Fair, hexact]

end SameSessions

namespace SessionWork

theorem registerFunction (world : PluginWorld) (session apply : ℕ) (name params : String) :
    Keeps (SessionWork (.cx session)) (world.registerFunction session name params apply) := by
  intro s result t h
  have hload := LoadWork.registerFunction world session apply name params s result t h
  refine ⟨hload, ?_⟩
  intro hs hsession hready
  obtain ⟨cx, hcx⟩ := Option.isSome_iff_exists.mp hready
  have hsame : SameSessions s t := by
    rcases registerFunction_cases h with
      ⟨n, rfl⟩ | ⟨n, m, k, rfl⟩ | ⟨n, m, rfl⟩ | ⟨n, m, k, both, rfl⟩
    · exact setOperations n s
    · have hentered := (entered hcx apply n m name params true).trans
        (setOperations k _)
      exact hentered.trans (log (by trivial) (by trivial) _)
    · have hbound : SameSessions s ((PluginWorld.bound session apply n s).setOperations m) :=
        (newBinding hcx apply n).trans (setOperations m _)
      exact takenBack hsession hbound (bound_history apply n) hcx
        (bound_sessions hcx apply n)
        (LoadWork.takenBack_bound session apply hs n m) hs
    · have hentered := (entered hcx apply n m name params both).trans
        (setOperations k _)
      have htables := LoadWork.takenBack_entered session apply hs n m k name params both
      obtain ⟨newExternal, newAutoloaded, heq, -, -⟩ := enter_eq
        (boundFunction session apply n name params s) both
        (PluginWorld.created session apply n m s)
      rw [heq] at hentered htables ⊢
      exact takenBack hsession hentered (bound_history apply n) hcx
        (bound_sessions hcx apply n) htables hs
  exact ⟨hsame.valid hsession, hsame.extends_⟩

end SessionWork

namespace PluginState

variable {s : PluginState} {session : ℕ} {cx : CxHostSession}

theorem view_ledger (hcx : s.sessions session = some cx) :
    (s.view session).ledger = some (cx.committed, cx.pendingShutdowns) := by
  simp [view, hcx]

theorem view_addShutdown (hcx : s.sessions session = some cx) (callback session' : ℕ) :
    (s.addShutdown session callback).view session' =
      if session' = session then { s.view session with
        ledger := some (cx.committed, cx.pendingShutdowns ++ [callback])
        early := if (s.view session).bridged then (s.view session).early
          else (s.view session).early ++ [callback]
        late := if (s.view session).bridged then (s.view session).late ++ [callback]
          else (s.view session).late }
      else s.view session' := by
  unfold addShutdown
  rw [hcx]
  by_cases heq : session' = session
  · rw [if_pos heq, heq]
    by_cases hbridged : session ∈ s.bridged
    · simp [view, setSession, log, PluginEvent.acceptedBy, PluginEvent.shutDownOf,
        PluginEvent.commitsLate, hbridged]
    · simp [view, setSession, log, PluginEvent.acceptedBy, PluginEvent.shutDownOf,
        PluginEvent.commitsLate, hbridged]
  · have hne : ¬ session = session' := fun h => heq h.symm
    rw [if_neg heq]
    simp [view, setSession, log, PluginEvent.acceptedBy, PluginEvent.shutDownOf,
      PluginEvent.commitsLate, heq, hne]

end PluginState

/-- The functions and the bindings of the sessions are as before. -/
structure SameBindings (s t : PluginState) : Prop where
  fresh : s.fresh ≤ t.fresh
  functions : t.functions = s.functions
  bindings : ∀ session,
    (t.sessions session).map (·.bindings) = (s.sessions session).map (·.bindings)

namespace SameBindings

variable {s t : PluginState}

theorem setSession {session : ℕ} {cx cx' : CxHostSession} (hcx : s.sessions session = some cx)
    (hbindings : cx'.bindings = cx.bindings) :
    SameBindings s (s.setSession session (some cx')) where
  fresh := Nat.le_refl _
  functions := rfl
  bindings session' := by
    by_cases heq : session' = session
    · simp [PluginState.setSession, heq, hcx, hbindings]
    · simp [PluginState.setSession, heq]

theorem bound (h : SameBindings s t) (hs : SessionValid s) {f : AVSFunction} (hf : f ∈ t.functions)
    {session binding : ℕ} (hcode : f.code = .cx session binding) :
    ∃ cx, t.sessions session = some cx ∧ ∃ body, (binding, body) ∈ cx.bindings := by
  rw [h.functions] at hf
  obtain ⟨cx, hcx, body, hbody⟩ := hs.bound f hf session binding hcode
  have hsame := h.bindings session
  rw [hcx, Option.map_some] at hsame
  obtain ⟨cx', hcx', hbindings⟩ := Option.map_eq_some_iff.mp hsame
  exact ⟨cx', hcx', body, hbindings ▸ hbody⟩

theorem binding_lt (h : SameBindings s t) (hs : SessionValid s) {session : ℕ} {cx : CxHostSession}
    (hcx : t.sessions session = some cx) {b : ℕ × ℕ} (hb : b ∈ cx.bindings) : b.1 < t.fresh := by
  have hsame := (h.bindings session).symm
  rw [hcx, Option.map_some] at hsame
  obtain ⟨cx', hcx', hbindings⟩ := Option.map_eq_some_iff.mp hsame
  rw [← hbindings] at hb
  exact (hs.binding_lt session cx' hcx' b hb).trans_le h.fresh

end SameBindings

namespace PluginState

variable {s : PluginState} {session : ℕ} {cx : CxHostSession}

/-- A callback is accepted, and appended to the pending ones. -/
theorem addShutdown_valid (hs : SessionValid s) (hload : LoadValid s)
    (hcx : s.sessions session = some cx) (callback : ℕ) :
    SessionValid (s.addShutdown session callback) ∧
      SessionExtends s (s.addShutdown session callback) := by
  have hview := view_addShutdown hcx callback
  have hlt : session < s.fresh :=
    hload.session_lt session (Option.isSome_iff_exists.mpr ⟨cx, hcx⟩)
  have hunborn : ∀ session', s.fresh ≤ session' →
      (s.addShutdown session callback).view session' = .unborn := by
    intro session' hnew
    rw [hview, if_neg (by omega)]
    exact hs.unborn session' hnew
  have hlate : ∀ session', ((s.addShutdown session callback).view session').committedLate =
      (s.view session').committedLate := by
    intro session'
    rw [hview]
    by_cases heq : session' = session
    · rw [if_pos heq, heq]
    · rw [if_neg heq]
  have heq : s.addShutdown session callback = (s.setSession session
      (some { cx with pendingShutdowns := cx.pendingShutdowns ++ [callback] })).log
        (.accepted session callback (s.bridged.contains session)) := by
    unfold addShutdown
    rw [hcx]
  have hbindings : SameBindings s (s.addShutdown session callback) := by
    rw [heq]
    have h : SameBindings s (s.setSession session
        (some { cx with pendingShutdowns := cx.pendingShutdowns ++ [callback] })) :=
      SameBindings.setSession hcx rfl
    exact ⟨h.fresh, h.functions, h.bindings⟩
  have hsame : (s.addShutdown session callback).fresh = s.fresh ∧
      (s.addShutdown session callback).exiting = s.exiting ∧
      (s.addShutdown session callback).bridged = s.bridged ∧
      (s.addShutdown session callback).atExit = s.atExit := by
    rw [heq]
    exact ⟨rfl, rfl, rfl, rfl⟩
  obtain ⟨hfresh, hexiting, hbridged, hatExit⟩ := hsame
  constructor
  · exact {
      views := by
        intro session'
        rw [hview]
        by_cases hsession : session' = session
        · rw [if_pos hsession]
          exact (hs.views session).accept (view_ledger hcx) callback
        · rw [if_neg hsession]
          exact hs.views session'
      unborn := by
        rw [hfresh]
        exact hunborn
      notLate := by
        intro hnot session'
        rw [hexiting] at hnot
        rw [hlate]
        exact hs.notLate hnot session'
      bound := fun f hf session' binding hcode => hbindings.bound hs hf hcode
      binding_lt := fun session' cx' hcx' b hb => hbindings.binding_lt hs hcx' hb
      fair := by
        rw [heq]
        exact List.forall_mem_append.mpr ⟨hs.fair, by simp [PluginEvent.Fair]⟩ }
  · exact {
      exiting := hexiting
      bridged := hbridged
      opened := by
        intro session' pending hledger
        rw [hview] at hledger
        by_cases hsession : session' = session
        · rw [if_pos hsession] at hledger
          rw [hsession, view_ledger hcx]
          have hopen : cx.committed = false := congrArg Prod.fst (Option.some.inj hledger)
          rw [hopen]
          exact ⟨cx.pendingShutdowns, rfl⟩
        · rw [if_neg hsession] at hledger
          exact ⟨pending, hledger⟩
      atExit := ⟨[], hatExit, by simp⟩
      committedLate := fun session' _ => hlate session' }

end PluginState

end AviSynth
