import AviSynth.Plugins.FailedLoads
import Mathlib.Data.List.Count

/-!
# The life of a CX session

A session is opened when its plugin is loaded. It is rolled back, or committed and then
called by its bridge at the end of the environment; a session that is committed while
the environment ends is never called. In each phase, what is pending and what has run
is determined by what the session has accepted.
-/

namespace AviSynth

open Exceptional PluginState

namespace PluginEvent

/-- The callback that the session accepts with an event, before its bridge has been called
or later. -/
def acceptedBy (session : ℕ) (late : Bool) : PluginEvent → Option ℕ
  | .accepted session' callback late' =>
    if session' = session ∧ late' = late then some callback else none
  | _ => none

/-- The callback of a session that an event runs. -/
def shutDownOf (session : ℕ) : PluginEvent → Option ℕ
  | .shutDown session' callback => if session' = session then some callback else none
  | _ => none

/-- The session is committed while the environment ends. -/
def commitsLate (session : ℕ) : PluginEvent → Bool
  | .committed session' exiting => session' == session && exiting
  | _ => false

/-- Events that say nothing about callbacks and commits. -/
def Silent : PluginEvent → Prop
  | .accepted .. | .committed .. | .shutDown .. => False
  | _ => True

end PluginEvent

/-- Exactly the entries are left that do not belong to the session, or to the binding, in
their order, among them all from before it. A registration that is taken back leaves the
tables as they were. -/
structure Withdrawal.Exact (w : Withdrawal) : Prop where
  external : w.after.externalFunctions =
    w.before.externalFunctions.without (belongsTo w.session w.binding)
  autoloaded : w.after.autoloadedFunctions =
    w.before.autoloadedFunctions.without (belongsTo w.session w.binding)
  externalKept : w.start.externalFunctions <+: w.after.externalFunctions
  autoloadedKept : w.start.autoloadedFunctions <+: w.after.autoloadedFunctions
  registration : w.binding.isSome → w.after.externalFunctions = w.start.externalFunctions ∧
    w.after.autoloadedFunctions = w.start.autoloadedFunctions

/-- A withdrawal is exact, and a binding is destroyed after its entries. -/
def PluginEvent.Fair : PluginEvent → Prop
  | .withdrawn w => w.Exact
  | .bindingDestroyed _ _ listed => listed = false
  | _ => True

/-- What is known of a session: whether it is committed, and its pending callbacks; whether
its bridge has been called, and how often it is in the list of `AtExit`; the callbacks
that it has accepted before its bridge was called and later, and those that have run; and
whether it was committed while the environment ended. -/
@[ext] structure SessionView where
  ledger : Option (Bool × List ℕ)
  bridged : Bool
  exits : ℕ
  early : List ℕ
  late : List ℕ
  run : List ℕ
  committedLate : Bool

namespace SessionView

/-- A session that there has never been. -/
def unborn : SessionView := ⟨none, false, 0, [], [], [], false⟩

/-- The phases of a session's life. -/
inductive Valid : SessionView → Prop
  | gone (early : List ℕ) : Valid ⟨none, false, 0, early, [], early.reverse, false⟩
  | opened (early : List ℕ) : Valid ⟨some (false, early), false, 0, early, [], [], false⟩
  | waiting (early : List ℕ) (exits : ℕ) (committedLate : Bool) (hle : exits ≤ 1)
    (hlisted : exits = 0 → committedLate = true) :
    Valid ⟨some (true, early), false, exits, early, [], [], committedLate⟩
  | bridged (early late : List ℕ) :
    Valid ⟨some (true, late), true, 0, early, late, early.reverse, false⟩

variable {v : SessionView}

/-- A callback is accepted. -/
theorem Valid.accept {committed : Bool} {pending : List ℕ} (hv : v.Valid)
    (hledger : v.ledger = some (committed, pending)) (callback : ℕ) :
    Valid { v with
      ledger := some (committed, pending ++ [callback])
      early := if v.bridged then v.early else v.early ++ [callback]
      late := if v.bridged then v.late ++ [callback] else v.late } := by
  cases hv with
  | gone early => cases hledger
  | opened early =>
    obtain ⟨rfl, rfl⟩ := Prod.ext_iff.mp (Option.some.inj hledger)
    exact opened (early ++ [callback])
  | waiting early exits committedLate hle hlisted =>
    obtain ⟨rfl, rfl⟩ := Prod.ext_iff.mp (Option.some.inj hledger)
    exact waiting (early ++ [callback]) exits committedLate hle hlisted
  | bridged early late =>
    obtain ⟨rfl, rfl⟩ := Prod.ext_iff.mp (Option.some.inj hledger)
    exact bridged early (late ++ [callback])

/-- An open session is as new but for its callbacks. -/
theorem Valid.opened_eq {pending : List ℕ} (hv : v.Valid)
    (hledger : v.ledger = some (false, pending)) :
    v = ⟨some (false, pending), false, 0, pending, [], [], false⟩ := by
  cases hv with
  | gone early => cases hledger
  | opened early =>
    obtain ⟨-, rfl⟩ := Prod.ext_iff.mp (Option.some.inj hledger)
    rfl
  | waiting => cases hledger
  | bridged => cases hledger

/-- The bridge of a session in the list of `AtExit` is called, and runs what is pending. -/
theorem Valid.callBridge (hv : v.Valid) (hexits : v.exits ≠ 0)
    (hcommitted : v.committedLate = false) :
    v.exits = 1 ∧ ∃ pending, v.ledger = some (true, pending) ∧
      Valid { v with
        ledger := some (true, [])
        bridged := true
        exits := 0
        run := v.run ++ pending.reverse } := by
  cases hv with
  | gone => exact absurd rfl hexits
  | opened => exact absurd rfl hexits
  | waiting early exits committedLate hle hlisted =>
    have hone : exits = 1 := by
      have hne : exits ≠ 0 := hexits
      omega
    have hnot : committedLate = false := hcommitted
    rw [hnot]
    exact ⟨hone, early, rfl, bridged early []⟩
  | bridged => exact absurd rfl hexits

end SessionView

namespace PluginState

/-- The part of the state that belongs to a session. -/
def view (session : ℕ) (s : PluginState) : SessionView where
  ledger := (s.sessions session).map fun cx => (cx.committed, cx.pendingShutdowns)
  bridged := s.bridged.contains session
  exits := s.atExit.count (.bridge session)
  early := s.history.filterMap (PluginEvent.acceptedBy session false)
  late := s.history.filterMap (PluginEvent.acceptedBy session true)
  run := s.history.filterMap (PluginEvent.shutDownOf session)
  committedLate := s.history.any (PluginEvent.commitsLate session)

end PluginState

/-- What is known of the sessions in every state. -/
structure SessionValid (s : PluginState) : Prop where
  views : ∀ session, (s.view session).Valid
  unborn : ∀ session, s.fresh ≤ session → s.view session = .unborn
  notLate : s.exiting = false → ∀ session, (s.view session).committedLate = false
  bound : ∀ f ∈ s.functions, ∀ session binding, f.code = .cx session binding →
    ∃ cx, s.sessions session = some cx ∧ ∃ body, (binding, body) ∈ cx.bindings
  binding_lt : ∀ session cx, s.sessions session = some cx → ∀ b ∈ cx.bindings, b.1 < s.fresh
  fair : ∀ e ∈ s.history, e.Fair

/-- How the sessions change while some code runs: those that it has opened itself are
committed, or gone. -/
structure SessionExtends (s t : PluginState) : Prop where
  exiting : t.exiting = s.exiting
  bridged : t.bridged = s.bridged
  opened : ∀ session pending, (t.view session).ledger = some (false, pending) →
    ∃ pending', (s.view session).ledger = some (false, pending')
  atExit : ∃ new, t.atExit = new ++ s.atExit ∧ ∀ session, .bridge session ∈ new →
    s.fresh ≤ session ∧ (s.exiting = true → (t.view session).committedLate = true)
  committedLate : ∀ session, session < s.fresh →
    (t.view session).committedLate = (s.view session).committedLate

/-- What a request does to the sessions. -/
def SessionWork (c : Caller) (s t : PluginState) : Prop :=
  LoadWork c s t ∧
    (LoadValid s → SessionValid s → s.Ready c → SessionValid t ∧ SessionExtends s t)

theorem SessionExtends.trans {s t u : PluginState} (hst : SessionExtends s t)
    (htu : SessionExtends t u) (ht : SessionValid t) (hfresh : s.fresh ≤ t.fresh) :
    SessionExtends s u where
  exiting := htu.exiting.trans hst.exiting
  bridged := htu.bridged.trans hst.bridged
  opened session pending hledger := by
    obtain ⟨pending', hledger'⟩ := htu.opened session pending hledger
    exact hst.opened session pending' hledger'
  atExit := by
    obtain ⟨first, hfirst, hlate⟩ := hst.atExit
    obtain ⟨second, hsecond, hlate'⟩ := htu.atExit
    use second ++ first
    constructor
    · rw [hsecond, hfirst, List.append_assoc]
    · intro session hmem
      rcases List.mem_append.mp hmem with hin | hin
      · obtain ⟨hnew, hcommitted⟩ := hlate' session hin
        rw [hst.exiting] at hcommitted
        exact ⟨hfresh.trans hnew, hcommitted⟩
      · obtain ⟨hnew, hcommitted⟩ := hlate session hin
        constructor
        · exact hnew
        · intro hexiting
          have hthere := hcommitted hexiting
          rw [htu.committedLate session _]
          · exact hthere
          · -- a session that has never been is not committed
            by_contra hle
            rw [ht.unborn session (Nat.le_of_not_lt hle)] at hthere
            cases hthere
  committedLate session hlt :=
    (htu.committedLate session (hlt.trans_le hfresh)).trans (hst.committedLate session hlt)

theorem SessionWork.trans {c : Caller} {s t u : PluginState} (hst : SessionWork c s t)
    (htu : SessionWork c t u) : SessionWork c s u := by
  constructor
  · exact hst.1.trans htu.1
  · intro hload hs hready
    obtain ⟨htload, hextends⟩ := hst.1 hload hready
    obtain ⟨ht, hsession⟩ := hst.2 hload hs hready
    obtain ⟨hu, hsession'⟩ := htu.2 htload ht (hextends.ready hload hready)
    exact ⟨hu, hsession.trans hsession' ht hextends.fresh⟩

/-- The sessions stay as they are, but for their bindings. -/
structure SameSessions (s t : PluginState) : Prop where
  fresh : s.fresh ≤ t.fresh
  views : ∀ session, t.view session = s.view session
  exiting : t.exiting = s.exiting
  bridged : t.bridged = s.bridged
  atExit : ∃ new, t.atExit = new ++ s.atExit ∧ ∀ session, .bridge session ∉ new
  bound : ∀ f ∈ t.functions, f ∈ s.functions ∨ ∀ session binding, f.code = .cx session binding →
    ∃ cx, t.sessions session = some cx ∧ ∃ body, (binding, body) ∈ cx.bindings
  bindings : ∀ session cx, s.sessions session = some cx →
    ∃ cx', t.sessions session = some cx' ∧ cx.bindings ⊆ cx'.bindings
  binding_lt : ∀ session cx, t.sessions session = some cx → ∀ b ∈ cx.bindings,
    b.1 < t.fresh ∨ ∃ cx', s.sessions session = some cx' ∧ b ∈ cx'.bindings
  history : ∃ events, t.history = s.history ++ events ∧ ∀ e ∈ events, e.Fair

namespace SameSessions

variable {s t : PluginState}

theorem valid (h : SameSessions s t) (hs : SessionValid s) : SessionValid t where
  views session := by
    rw [h.views]
    exact hs.views session
  unborn session hnew := by
    rw [h.views]
    exact hs.unborn session (h.fresh.trans hnew)
  notLate hexiting session := by
    rw [h.exiting] at hexiting
    rw [h.views]
    exact hs.notLate hexiting session
  bound f hf session binding hcode := by
    rcases h.bound f hf with hold | hnew
    · obtain ⟨cx, hcx, body, hbody⟩ := hs.bound f hold session binding hcode
      obtain ⟨cx', hcx', hsubset⟩ := h.bindings session cx hcx
      exact ⟨cx', hcx', body, hsubset hbody⟩
    · exact hnew session binding hcode
  binding_lt session cx hcx b hb := by
    rcases h.binding_lt session cx hcx b hb with hlt | ⟨cx', hcx', hold⟩
    · exact hlt
    · exact (hs.binding_lt session cx' hcx' b hold).trans_le h.fresh
  fair := by
    obtain ⟨events, hhistory, hfair⟩ := h.history
    rw [hhistory]
    exact List.forall_mem_append.mpr ⟨hs.fair, hfair⟩

theorem extends_ (h : SameSessions s t) : SessionExtends s t where
  exiting := h.exiting
  bridged := h.bridged
  opened session pending hledger := by
    rw [h.views] at hledger
    exact ⟨pending, hledger⟩
  atExit := by
    obtain ⟨new, hatExit, hnone⟩ := h.atExit
    exact ⟨new, hatExit, fun session hmem => absurd hmem (hnone session)⟩
  committedLate session _ := by rw [h.views]

theorem work {c : Caller} (h : SameSessions s t) (hload : LoadWork c s t) : SessionWork c s t :=
  ⟨hload, fun _ hs _ => ⟨h.valid hs, h.extends_⟩⟩

theorem trans {u : PluginState} (hst : SameSessions s t) (htu : SameSessions t u) :
    SameSessions s u where
  fresh := hst.fresh.trans htu.fresh
  views session := (htu.views session).trans (hst.views session)
  exiting := htu.exiting.trans hst.exiting
  bridged := htu.bridged.trans hst.bridged
  atExit := by
    obtain ⟨first, hfirst, hnone⟩ := hst.atExit
    obtain ⟨second, hsecond, hnone'⟩ := htu.atExit
    use second ++ first
    constructor
    · rw [hsecond, hfirst, List.append_assoc]
    · intro session hmem
      rcases List.mem_append.mp hmem with hin | hin
      · exact hnone' session hin
      · exact hnone session hin
  bound f hf := by
    rcases htu.bound f hf with hold | hnew
    · rcases hst.bound f hold with holder | hnew
      · exact Or.inl holder
      · right
        intro session binding hcode
        obtain ⟨cx, hcx, body, hbody⟩ := hnew session binding hcode
        obtain ⟨cx', hcx', hsubset⟩ := htu.bindings session cx hcx
        exact ⟨cx', hcx', body, hsubset hbody⟩
    · exact Or.inr hnew
  bindings session cx hcx := by
    obtain ⟨cx', hcx', hsubset⟩ := hst.bindings session cx hcx
    obtain ⟨cx'', hcx'', hsubset'⟩ := htu.bindings session cx' hcx'
    exact ⟨cx'', hcx'', fun b hb => hsubset' (hsubset hb)⟩
  binding_lt session cx hcx b hb := by
    rcases htu.binding_lt session cx hcx b hb with hlt | ⟨cx', hcx', hold⟩
    · exact Or.inl hlt
    · rcases hst.binding_lt session cx' hcx' b hold with hlt | holder
      · exact Or.inl (hlt.trans_le htu.fresh)
      · exact Or.inr holder
  history := by
    obtain ⟨first, hfirst, hfair⟩ := hst.history
    obtain ⟨second, hsecond, hfair'⟩ := htu.history
    use first ++ second
    constructor
    · rw [hsecond, hfirst, List.append_assoc]
    · exact List.forall_mem_append.mpr ⟨hfair, hfair'⟩

/-- The views are the same where the ledgers are, up to events that say nothing about
them. -/
theorem view_eq {session : ℕ}
    (hledger : (t.view session).ledger = (s.view session).ledger)
    (hbridged : t.bridged = s.bridged)
    (hatExit : ∃ new, t.atExit = new ++ s.atExit ∧ .bridge session ∉ new)
    (hhistory : ∃ events, t.history = s.history ++ events ∧ ∀ e ∈ events, e.Silent) :
    t.view session = s.view session := by
  obtain ⟨new, hatExit, hnone⟩ := hatExit
  obtain ⟨events, hhistory, hsilent⟩ := hhistory
  have haccepted : ∀ late, events.filterMap (PluginEvent.acceptedBy session late) = [] := by
    intro late
    apply List.filterMap_eq_nil_iff.mpr
    intro e he
    have h := hsilent e he
    cases e with
    | accepted => exact h.elim
    | _ => rfl
  have hrun : events.filterMap (PluginEvent.shutDownOf session) = [] := by
    apply List.filterMap_eq_nil_iff.mpr
    intro e he
    have h := hsilent e he
    cases e with
    | shutDown => exact h.elim
    | _ => rfl
  have hcommitted : events.any (PluginEvent.commitsLate session) = false := by
    apply List.any_eq_false.mpr
    intro e he
    have h := hsilent e he
    cases e with
    | committed => exact h.elim
    | _ => simp [PluginEvent.commitsLate]
  apply SessionView.ext
  · exact hledger
  · simp only [view, hbridged]
  · simp only [view, hatExit, List.count_append, List.count_eq_zero_of_not_mem hnone, Nat.zero_add]
  · simp only [view, hhistory, List.filterMap_append, haccepted, List.append_nil]
  · simp only [view, hhistory, List.filterMap_append, haccepted, List.append_nil]
  · simp only [view, hhistory, List.filterMap_append, hrun, List.append_nil]
  · simp only [view, hhistory, List.any_append, hcommitted, Bool.or_false]

/-- Nothing happens to the sessions, and the functions that are new are not theirs. -/
theorem of_sessions (hfresh : s.fresh ≤ t.fresh) (hsessions : t.sessions = s.sessions)
    (hexiting : t.exiting = s.exiting) (hbridged : t.bridged = s.bridged)
    (hatExit : ∃ new, t.atExit = new ++ s.atExit ∧ ∀ session, .bridge session ∉ new)
    (hfunctions : ∀ f ∈ t.functions, f ∈ s.functions ∨
      ∀ session binding, f.code ≠ .cx session binding)
    (hhistory : ∃ events, t.history = s.history ++ events ∧ ∀ e ∈ events, e.Silent ∧ e.Fair) :
    SameSessions s t where
  fresh := hfresh
  views session := by
    obtain ⟨new, hexits, hnone⟩ := hatExit
    obtain ⟨events, hevents, hboth⟩ := hhistory
    apply view_eq
    · simp only [view, hsessions]
    · exact hbridged
    · exact ⟨new, hexits, hnone session⟩
    · exact ⟨events, hevents, fun e he => (hboth e he).1⟩
  exiting := hexiting
  bridged := hbridged
  atExit := hatExit
  bound f hf := by
    rcases hfunctions f hf with hold | hnew
    · exact Or.inl hold
    · exact Or.inr fun session binding hcode => absurd hcode (hnew session binding)
  bindings session cx hcx := by
    rw [hsessions]
    exact ⟨cx, hcx, List.Subset.refl _⟩
  binding_lt session cx hcx b hb := by
    rw [hsessions] at hcx
    exact Or.inr ⟨cx, hcx, hb⟩
  history := by
    obtain ⟨events, hevents, hboth⟩ := hhistory
    exact ⟨events, hevents, fun e he => (hboth e he).2⟩

/-- A change of what the sessions do not have. -/
theorem of_eq (hfresh : s.fresh ≤ t.fresh) (hsessions : t.sessions = s.sessions)
    (hexiting : t.exiting = s.exiting) (hbridged : t.bridged = s.bridged)
    (hatExit : t.atExit = s.atExit) (hfunctions : t.functions = s.functions)
    (hhistory : t.history = s.history) : SameSessions s t := by
  apply of_sessions hfresh hsessions hexiting hbridged
  · exact ⟨[], hatExit, by simp⟩
  · intro f hf
    rw [hfunctions] at hf
    exact Or.inl hf
  · exact ⟨[], by simp [hhistory]⟩

theorem log {event : PluginEvent} (hsilent : event.Silent) (hfair : event.Fair)
    (s : PluginState) : SameSessions s (s.log event) := by
  apply of_sessions (s := s) (t := s.log event) (Nat.le_refl _) rfl rfl rfl
  · exact ⟨[], rfl, by simp⟩
  · exact fun f hf => Or.inl hf
  · exact ⟨[event], rfl, by simpa using ⟨hsilent, hfair⟩⟩

theorem setOperations (n : ℕ) (s : PluginState) : SameSessions s (s.setOperations n) :=
  of_eq (Nat.le_refl _) rfl rfl rfl rfl rfl rfl

/-- Code that is not a CX plugin's is given to `AtExit`. -/
theorem addExit (code : FunctionCode) (s : PluginState) :
    SameSessions s (s.addExit (.other code)) := by
  apply of_sessions (s := s) (t := s.addExit (.other code)) (Nat.le_refl _) rfl rfl rfl
  · exact ⟨[.other code], rfl, by simp⟩
  · exact fun f hf => Or.inl hf
  · exact ⟨[], by simp [PluginState.addExit]⟩

end SameSessions

end AviSynth
