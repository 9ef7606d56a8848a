import AviSynth.Plugins.LoadSteps

/-!
# The end of an attempt

An attempt loads a library once more and lets the code of a plugin run. At its end the
library may have been unloaded, and the functions of the attempt's CX session may have
been removed. Whether the tables are as before is decided by the functions that were
registered in another way.
-/

namespace AviSynth

open PluginState

/-- The state `s'` in which the code of a plugin begins, in an attempt begun in `s`. -/
structure AttemptStarted (s : PluginState) (path : String) (c : Caller) (s' : PluginState) :
    Prop where
  fresh : s'.fresh = s.fresh + 1
  attempt : s'.attempt = s.fresh
  external : s'.externalFunctions = s.externalFunctions
  autoloaded : s'.autoloadedFunctions = s.autoloadedFunctions
  loadedPlugins : s'.loadedPlugins = s.loadedPlugins
  autoLoadedPlugins : s'.autoLoadedPlugins = s.autoLoadedPlugins
  libraries : ∀ p, s'.libraries p = s.libraries p + if p = path then 1 else 0
  sessions : ∀ session ≠ s.fresh, s'.sessions session = s.sessions session
  own : ∀ cx, s'.sessions s.fresh = some cx → c = .cx s.fresh ∧ cx.library = path
  caller : c = .library path ∨ c = .cx s.fresh
  history : s'.history = s.history

/-- How an attempt can end whose code has left the state `t`. -/
structure AttemptDone (s : PluginState) (path : String) (t : PluginState) (failed freed : Bool)
    (u : PluginState) : Prop where
  fresh : u.fresh = t.fresh
  external : u.externalFunctions =
    if failed then FunctionMap.without (belongsTo s.fresh none) t.externalFunctions
    else t.externalFunctions
  autoloaded : u.autoloadedFunctions =
    if failed then FunctionMap.without (belongsTo s.fresh none) t.autoloadedFunctions
    else t.autoloadedFunctions
  loadedPlugins : ∃ new, u.loadedPlugins = t.loadedPlugins ++ new ∧
    ∀ p ∈ new, failed = false ∧ p.attempt = s.fresh
  autoLoadedPlugins : ∃ new, u.autoLoadedPlugins = t.autoLoadedPlugins ++ new ∧
    ∀ p ∈ new, failed = false ∧ p.attempt = s.fresh
  libraries : ∀ p, u.libraries p + (if freed = true ∧ p = path then 1 else 0) = t.libraries p
  sessions : ∀ session ≠ s.fresh, u.sessionKind session = t.sessionKind session
  own : ∀ cx, u.sessions s.fresh = some cx → freed = false ∧ cx.library = path
  ownLive : failed = false → (t.sessions s.fresh).isSome → (u.sessions s.fresh).isSome
  history : ∃ events, u.history = t.history ++ events ∧ ∀ e ∈ events, e.Untold
  failed_of_freed : freed = true → failed = true

namespace PluginState

/-- The functions registered in an attempt, outside of the attempts inside of it. -/
theorem mem_registeredIn {number : ℕ} {s : PluginState} {f : AVSFunction} :
    f ∈ s.registeredIn number ↔ .registered f ∈ s.history ∧ f.attempt = number := by
  unfold registeredIn
  rw [List.mem_filterMap]
  constructor
  · rintro ⟨event, hevent, hf⟩
    cases event with
    | registered g =>
      dsimp only at hf
      split_ifs at hf with hattempt
      obtain rfl := Option.some.inj hf
      exact ⟨hevent, hattempt⟩
    | _ => cases hf
  · rintro ⟨hevent, hattempt⟩
    exact ⟨.registered f, hevent, by simp [hattempt]⟩

end PluginState

namespace FunctionMap

/-- Removing a session's functions keeps the part of a table from before the session. -/
theorem without_append {belongs : AVSFunction → Bool} {map new : FunctionMap}
    (hmap : ∀ e ∈ map, belongs e.function = false) :
    without belongs (map ++ new) = map ++ without belongs new := by
  unfold without
  rw [List.filter_append]
  congr 1
  apply List.filter_eq_self.mpr
  intro e he
  simp [hmap e he]

end FunctionMap

namespace PluginState

/-- The record of an attempt. -/
def record (s : PluginState) (failed : Bool) (u : PluginState) : LoadAttempt :=
  ⟨s.fresh, failed, s.toPluginTables, u.toPluginTables, u.registeredIn s.fresh⟩

end PluginState

/-- Only the entries of later attempts are left out. -/
theorem filter_appended {α : Type} {attempt : α → ℕ} {n : ℕ} {old new : List α}
    (hold : ∀ a ∈ old, attempt a < n) (hnew : ∀ a ∈ new, n ≤ attempt a) :
    (old ++ new).filter (fun a => attempt a ≤ n) = old ↔ ∀ a ∈ new, attempt a ≠ n := by
  have hkept : old.filter (fun a => attempt a ≤ n) = old := by
    apply List.filter_eq_self.mpr
    intro a ha
    exact decide_eq_true (Nat.le_of_lt (hold a ha))
  rw [List.filter_append, hkept, List.append_right_eq_self, List.filter_eq_nil_iff]
  constructor
  · intro h a ha heq
    exact h a ha (decide_eq_true (Nat.le_of_eq heq))
  · intro h a ha hle
    exact h a ha (Nat.le_antisymm (of_decide_eq_true hle) (hnew a ha))

section Attempt

variable {s s' t u : PluginState} {path : String} {c : Caller} {failed freed : Bool}

namespace AttemptStarted

variable (hstart : AttemptStarted s path c s')

include hstart

theorem functions : s'.functions = s.functions := by
  unfold PluginState.functions
  rw [hstart.external, hstart.autoloaded]

variable (hextends : LoadExtends c s' t)

include hextends

/-- Entries are added that this attempt or later ones have registered. -/
theorem appended :
    (∃ new, t.externalFunctions = s.externalFunctions ++ new ∧
      ∀ e ∈ new, s.fresh ≤ e.function.attempt) ∧
    ∃ new, t.autoloadedFunctions = s.autoloadedFunctions ++ new ∧
      ∀ e ∈ new, s.fresh ≤ e.function.attempt := by
  obtain ⟨newExternal, hexternal, hnew⟩ := hextends.external
  obtain ⟨newAutoloaded, hautoloaded, hnew'⟩ := hextends.autoloaded
  rw [hstart.attempt, hstart.fresh] at hnew hnew'
  rw [hstart.external] at hexternal
  rw [hstart.autoloaded] at hautoloaded
  constructor
  · use newExternal, hexternal
    intro e he
    have h := hnew e he
    omega
  · use newAutoloaded, hautoloaded
    intro e he
    have h := hnew' e he
    omega

/-- What the attempt registers directly is there when its code has ended. -/
theorem registered_mem (hs : LoadValid s) {f : AVSFunction} (hf : .registered f ∈ t.history)
    (hattempt : f.attempt = s.fresh) : f ∈ t.functions := by
  rcases hextends.registered f hf with hold | hthere | hnested
  · rw [hstart.history] at hold
    have hlt := hs.registered_lt f hold
    omega
  · exact hthere
  · rw [hstart.fresh] at hnested
    omega

/-- A function of the attempt's own session is there only if the session is. -/
theorem own_session (hs : LoadValid s) {f : AVSFunction} {binding : ℕ} (hf : f ∈ t.functions)
    (hcode : f.code = .cx s.fresh binding) : c = .cx s.fresh := by
  rcases hextends.session s.fresh ⟨f, hf, binding, hcode⟩ with ⟨g, hg, b, hold⟩ | hself | hlater
  · rw [hstart.functions] at hg
    have hlive := (hs.code_lt g hg s.fresh b hold).1
    exact absurd (hs.session_lt s.fresh hlive) (Nat.lt_irrefl _)
  · exact hself
  · rw [hstart.fresh] at hlater
    omega

theorem libraries_le (p : String) :
    s.libraries p + (if p = path then 1 else 0) ≤ t.libraries p := by
  rw [← hstart.libraries]
  exact hextends.libraries p

end AttemptStarted

namespace AttemptDone

variable (hs : LoadValid s) (hstart : AttemptStarted s path c s') (ht : LoadValid t)
  (hextends : LoadExtends c s' t) (hdone : AttemptDone s path t failed freed u)

section Functions

include hdone

variable {f : AVSFunction}

theorem functions_sub (hf : f ∈ u.functions) : f ∈ t.functions := by
  obtain ⟨e, he, rfl⟩ := mem_functions.mp hf
  rw [hdone.external, hdone.autoloaded] at he
  apply mem_functions.mpr
  use e
  cases failed with
  | false => exact ⟨he, rfl⟩
  | true =>
    simp only [if_true, FunctionMap.mem_without] at he
    exact ⟨he.imp And.left And.left, rfl⟩

/-- Only functions of the session of a failed attempt are removed. -/
theorem mem_functions_of (hf : f ∈ t.functions)
    (hkept : failed = true → ∀ binding, f.code ≠ .cx s.fresh binding) : f ∈ u.functions := by
  obtain ⟨e, he, rfl⟩ := mem_functions.mp hf
  apply mem_functions.mpr
  rw [hdone.external, hdone.autoloaded]
  use e
  cases failed with
  | false => exact ⟨he, rfl⟩
  | true =>
    have hnot : belongsTo s.fresh none e.function = false := by
      rw [Bool.eq_false_iff, ne_eq, belongsTo_iff]
      rintro ⟨b, hcode, -⟩
      exact hkept rfl b hcode
    simp only [if_true, FunctionMap.mem_without]
    exact ⟨he.imp (fun h => ⟨h, hnot⟩) (fun h => ⟨h, hnot⟩), trivial⟩

/-- After a failed attempt, no function of its session is left. -/
theorem not_own (hf : f ∈ u.functions) (hfailed : failed = true) (binding : ℕ) :
    f.code ≠ .cx s.fresh binding := by
  intro hcode
  have hbelongs : belongsTo s.fresh none f = true :=
    belongsTo_iff.mpr ⟨binding, hcode, by simp⟩
  obtain ⟨e, he, rfl⟩ := mem_functions.mp hf
  rw [hdone.external, hdone.autoloaded, hfailed] at he
  simp only [if_true, FunctionMap.mem_without, hbelongs] at he
  simp at he

theorem mem_history {event : PluginEvent} (hevent : ¬ event.Untold) :
    event ∈ u.history ↔ event ∈ t.history := by
  obtain ⟨events, hhistory, huntold⟩ := hdone.history
  rw [hhistory, List.mem_append]
  constructor
  · rintro (hold | hnew)
    · exact hold
    · exact absurd (huntold event hnew) hevent
  · exact Or.inl

theorem registeredIn_iff :
    f ∈ u.registeredIn s.fresh ↔ .registered f ∈ t.history ∧ f.attempt = s.fresh := by
  rw [mem_registeredIn, hdone.mem_history (by simp [PluginEvent.Untold])]

include hs hstart hextends

/-- The tables begin as before the attempt. -/
theorem appended :
    (∃ new, u.externalFunctions = s.externalFunctions ++ new ∧
      ∀ e ∈ new, s.fresh ≤ e.function.attempt) ∧
    ∃ new, u.autoloadedFunctions = s.autoloadedFunctions ++ new ∧
      ∀ e ∈ new, s.fresh ≤ e.function.attempt := by
  obtain ⟨⟨newExternal, hexternal, hnew⟩, newAutoloaded, hautoloaded, hnew'⟩ :=
    hstart.appended hextends
  have hold : ∀ f ∈ s.functions, belongsTo s.fresh none f = false := by
    intro f hf
    rw [Bool.eq_false_iff, ne_eq, belongsTo_iff]
    rintro ⟨b, hcode, -⟩
    have hlive := (hs.code_lt f hf s.fresh b hcode).1
    exact absurd (hs.session_lt s.fresh hlive) (Nat.lt_irrefl _)
  rw [hdone.external, hdone.autoloaded, hexternal, hautoloaded]
  cases failed with
  | false => exact ⟨⟨newExternal, rfl, hnew⟩, newAutoloaded, rfl, hnew'⟩
  | true =>
    simp only [if_true]
    constructor
    · refine ⟨_, FunctionMap.without_append fun e he =>
        hold _ (mem_functions.mpr ⟨e, Or.inl he, rfl⟩), ?_⟩
      exact fun e he => hnew e (FunctionMap.mem_without.mp he).1
    · refine ⟨_, FunctionMap.without_append fun e he =>
        hold _ (mem_functions.mpr ⟨e, Or.inr he, rfl⟩), ?_⟩
      exact fun e he => hnew' e (FunctionMap.mem_without.mp he).1

omit hs in
/-- The lists of plugins begin as before the attempt; a failed attempt adds none of its
own. -/
theorem plugins_appended :
    (∃ new, u.loadedPlugins = s.loadedPlugins ++ new ∧
      ∀ p ∈ new, s.fresh ≤ p.attempt ∧ (failed = true → s.fresh < p.attempt)) ∧
    ∃ new, u.autoLoadedPlugins = s.autoLoadedPlugins ++ new ∧
      ∀ p ∈ new, s.fresh ≤ p.attempt ∧ (failed = true → s.fresh < p.attempt) := by
  have hboth : ∀ {plugins plugins' plugins'' : List PluginFile},
      PluginsAppended s'.fresh plugins plugins' →
      (∃ new, plugins'' = plugins' ++ new ∧ ∀ p ∈ new, failed = false ∧ p.attempt = s.fresh) →
      ∃ new, plugins'' = plugins ++ new ∧
        ∀ p ∈ new, s.fresh ≤ p.attempt ∧ (failed = true → s.fresh < p.attempt) := by
    rintro plugins plugins' plugins'' ⟨first, rfl, hfirst⟩ ⟨second, rfl, hsecond⟩
    rw [hstart.fresh] at hfirst
    use first ++ second
    constructor
    · rw [List.append_assoc]
    · intro p hp
      rcases List.mem_append.mp hp with hnested | hown
      · have h := hfirst p hnested
        omega
      · obtain ⟨hsuccess, hattempt⟩ := hsecond p hown
        simp [hsuccess, hattempt]
  have hloaded := hboth hextends.loadedPlugins hdone.loadedPlugins
  have hautoloaded := hboth hextends.autoLoadedPlugins hdone.autoLoadedPlugins
  rw [hstart.loadedPlugins] at hloaded
  rw [hstart.autoLoadedPlugins] at hautoloaded
  exact ⟨hloaded, hautoloaded⟩

end Functions

include hs hstart ht hextends hdone

/-- A failed attempt leaves the tables as before if and only if it has registered
functions through its CX session only. -/
theorem restored_iff (hfailed : failed = true) :
    (record s failed u).Restored ↔ (record s failed u).Withdrawn := by
  obtain ⟨⟨newExternal, hexternal, hnewExternal⟩, newAutoloaded, hautoloaded, hnewAutoloaded⟩ :=
    hdone.appended hs hstart hextends
  obtain ⟨⟨newLoaded, hloaded, hnewLoaded⟩, newAuto, hauto, hnewAuto⟩ :=
    hdone.plugins_appended hstart hextends
  have hplugins : ∀ {old new : List PluginFile}, (∀ p ∈ old, p.attempt < s.fresh) →
      (∀ p ∈ new, s.fresh ≤ p.attempt ∧ (failed = true → s.fresh < p.attempt)) →
      (old ++ new).filter (fun p => p.attempt ≤ s.fresh) = old := by
    intro old new hold hnew
    apply (filter_appended hold fun p hp => (hnew p hp).1).mpr
    exact fun p hp => Nat.ne_of_gt ((hnew p hp).2 hfailed)
  have hrestored : (record s failed u).Restored ↔
      (∀ e ∈ newExternal, e.function.attempt ≠ s.fresh) ∧
        ∀ e ∈ newAutoloaded, e.function.attempt ≠ s.fresh := by
    unfold LoadAttempt.Restored record
    dsimp only
    rw [hexternal, hautoloaded, hloaded, hauto,
      hplugins (fun p hp => hs.plugin_lt p (List.mem_append_left _ hp)) hnewLoaded,
      hplugins (fun p hp => hs.plugin_lt p (List.mem_append_right _ hp)) hnewAuto,
      filter_appended (fun e he => hs.function_lt _ (mem_functions.mpr ⟨e, Or.inl he, rfl⟩))
        hnewExternal,
      filter_appended (fun e he => hs.function_lt _ (mem_functions.mpr ⟨e, Or.inr he, rfl⟩))
        hnewAutoloaded]
    simp
  -- in terms of the functions that are left
  have hleft : (record s failed u).Restored ↔ ∀ f ∈ u.functions, f.attempt ≠ s.fresh := by
    rw [hrestored]
    constructor
    · rintro ⟨hext, haut⟩ f hf hattempt
      obtain ⟨e, he, rfl⟩ := mem_functions.mp hf
      rw [hexternal, hautoloaded, List.mem_append, List.mem_append] at he
      rcases he with (hold | hadded) | (hold | hadded)
      · have hlt := hs.function_lt _ (mem_functions.mpr ⟨e, Or.inl hold, rfl⟩)
        omega
      · exact hext e hadded hattempt
      · have hlt := hs.function_lt _ (mem_functions.mpr ⟨e, Or.inr hold, rfl⟩)
        omega
      · exact haut e hadded hattempt
    · intro hnone
      constructor
      · intro e he
        apply hnone _ (mem_functions.mpr ⟨e, Or.inl _, rfl⟩)
        rw [hexternal]
        exact List.mem_append_right _ he
      · intro e he
        apply hnone _ (mem_functions.mpr ⟨e, Or.inr _, rfl⟩)
        rw [hautoloaded]
        exact List.mem_append_right _ he
  rw [hleft]
  constructor
  · intro hnone f hf
    obtain ⟨hregistered, hattempt⟩ := hdone.registeredIn_iff.mp hf
    by_contra hother
    have hkept := hdone.mem_functions_of (hstart.registered_mem hextends hs hregistered hattempt)
      fun _ binding hcode => hother ⟨binding, hcode⟩
    exact hnone f hkept hattempt
  · intro hwithdrawn f hf hattempt
    have hregistered := ht.registered f (hdone.functions_sub hf)
    obtain ⟨binding, hcode⟩ := hwithdrawn f (hdone.registeredIn_iff.mpr ⟨hregistered, hattempt⟩)
    exact hdone.not_own hf hfailed binding hcode

omit hs ht in
/-- A library is loaded at least as often as before the attempt. -/
theorem libraries_le (p : String) : s.libraries p ≤ u.libraries p := by
  have hle := hstart.libraries_le hextends p
  have hafter := hdone.libraries p
  by_cases hp : p = path
  · rw [if_pos hp] at hle
    split_ifs at hafter
    · omega
    · omega
  · rw [if_neg hp] at hle
    rw [if_neg fun h => hp h.2] at hafter
    omega

omit hs ht hextends in
/-- A library that was loaded once more while the code ran is still loaded once more. -/
theorem libraries_lt {p : String} (h : s'.libraries p < t.libraries p) :
    s.libraries p < u.libraries p := by
  have hbefore := hstart.libraries p
  have hafter := hdone.libraries p
  by_cases hp : p = path
  · rw [if_pos hp] at hbefore
    split_ifs at hafter
    · omega
    · omega
  · rw [if_neg hp] at hbefore
    rw [if_neg fun h => hp h.2] at hafter
    omega

omit hs ht in
/-- The library of the attempt is loaded once more if it was not unloaded. -/
theorem libraries_lt_own (hfreed : freed = false) : s.libraries path < u.libraries path := by
  have hle := hstart.libraries_le hextends path
  have hafter := hdone.libraries path
  rw [if_pos rfl] at hle
  rw [if_neg (by simp [hfreed])] at hafter
  omega

omit hs hextends ht hstart in
theorem calm (h : (s.endAttempt failed u).Calm) :
    t.Calm ∧ (failed = true → (record s failed u).Withdrawn) := by
  obtain ⟨events, hhistory, -⟩ := hdone.history
  have hmem : ∀ event ∈ t.history, event ∈ (s.endAttempt failed u).history := by
    intro event hevent
    simp only [endAttempt, PluginState.log, hhistory]
    exact List.mem_append_left _ (List.mem_append_left _ hevent)
  constructor
  · exact fun r hr => h r (hmem _ hr)
  · exact fun hfailed => h (record s failed u)
      (List.mem_append_right _ (List.mem_singleton_self _)) hfailed

omit hs ht in
/-- A library with code of some function had code of a function before, or is loaded once
more. -/
theorem code (hcalm : (s.endAttempt failed u).Calm) {p : String} (hcode : u.HasCode p) :
    s.HasCode p ∨ s.libraries p < u.libraries p := by
  obtain ⟨htcalm, hwithdrawn⟩ := hdone.calm hcalm
  obtain ⟨f, hf, apply, hcode⟩ := hcode
  have hthere : t.HasCode p := ⟨f, hdone.functions_sub hf, apply, hcode⟩
  rcases hextends.code htcalm p hthere with
    hold | ⟨hself, g, hg, hattempt, apply', hcode'⟩ | hloaded
  · unfold HasCode at hold
    rw [hstart.functions] at hold
    exact Or.inl hold
  · -- the code of the plugin has registered a function of its library
    right
    obtain rfl : path = p := by
      rcases hstart.caller with hlibrary | hcx
      · rw [hlibrary] at hself
        injection hself
      · rw [hcx] at hself
        cases hself
    cases hfreed : freed with
    | false => exact hdone.libraries_lt_own hstart hextends hfreed
    | true =>
      rw [hextends.attempt, hstart.attempt] at hattempt
      obtain ⟨binding, hcx⟩ := hwithdrawn (hdone.failed_of_freed hfreed) g
        (hdone.registeredIn_iff.mpr ⟨hg, hattempt⟩)
      rw [hcode'] at hcx
      cases hcx
  · exact Or.inr (hdone.libraries_lt hstart hloaded)

omit hs ht in
/-- The sessions from before the attempt are there as they were. -/
theorem sessionKind_old {session : ℕ} (hold : session < s.fresh) :
    u.sessionKind session = s.sessionKind session := by
  have hlater : session < s'.fresh := by
    rw [hstart.fresh]
    omega
  rw [hdone.sessions session (Nat.ne_of_lt hold), hextends.sessions session hlater]
  unfold sessionKind
  rw [hstart.sessions session (Nat.ne_of_lt hold)]

omit hs ht in
/-- The library of a session from this attempt or a later one is loaded once more. -/
theorem newSession {session : ℕ} {cx : CxHostSession} (hnew : s.fresh ≤ session)
    (hcx : u.sessions session = some cx) : s.libraries cx.library < u.libraries cx.library := by
  by_cases hown : session = s.fresh
  · rw [hown] at hcx
    obtain ⟨hfreed, hlibrary⟩ := hdone.own cx hcx
    rw [hlibrary]
    exact hdone.libraries_lt_own hstart hextends hfreed
  · obtain ⟨cx', hcx', hlibrary, -⟩ := exists_of_sessionKind (hdone.sessions session hown) hcx
    have hless := hextends.newSession session cx' (by rw [hstart.fresh]; omega) hcx'
    rw [hlibrary] at hless
    exact hdone.libraries_lt hstart hless

omit hs ht hstart hextends hdone in
theorem mem_endAttempt {event : PluginEvent} : event ∈ (s.endAttempt failed u).history ↔
    event ∈ u.history ∨ event = .loadEnded (record s failed u) := by
  simp only [endAttempt, PluginState.log, List.mem_append, List.mem_singleton]
  exact Iff.rfl

omit hs ht in
theorem history_extends : s.history <+: (s.endAttempt failed u).history := by
  have hold := hextends.history
  rw [hstart.history] at hold
  obtain ⟨events, hhistory, -⟩ := hdone.history
  have hu : t.history <+: u.history := by
    rw [hhistory]
    exact List.prefix_append _ _
  exact (hold.trans hu).trans (List.prefix_append u.history _)

omit ht in
/-- A library with code of some function is loaded. -/
theorem libraryLoaded (hcalm : (s.endAttempt failed u).Calm) {p : String} (hcode : u.HasCode p) :
    0 < u.libraries p := by
  rcases hdone.code hstart hextends hcalm hcode with hold | hloaded
  · have hpos := hs.libraryLoaded (hcalm.of_earlier (hdone.history_extends hstart hextends)) p hold
    exact hpos.trans_le (hdone.libraries_le hstart hextends p)
  · exact Nat.zero_lt_of_lt hloaded

omit ht in
theorem sessionLoaded {session : ℕ} {cx : CxHostSession} (hcx : u.sessions session = some cx) :
    0 < u.libraries cx.library := by
  by_cases hold : session < s.fresh
  · obtain ⟨cx', hcx', hlibrary, -⟩ :=
      exists_of_sessionKind (hdone.sessionKind_old hstart hextends hold) hcx
    have hpos := hs.sessionLoaded session cx' hcx'
    rw [hlibrary] at hpos
    exact hpos.trans_le (hdone.libraries_le hstart hextends _)
  · exact Nat.zero_lt_of_lt (hdone.newSession hstart hextends (Nat.le_of_not_lt hold) hcx)

omit hs hstart hextends in
/-- The session of a function is there. -/
theorem session_live {f : AVSFunction} (hf : f ∈ u.functions) {session binding : ℕ}
    (hcode : f.code = .cx session binding) :
    (u.sessions session).isSome ∧ binding < u.fresh := by
  obtain ⟨hlive, hbinding⟩ := ht.code_lt f (hdone.functions_sub hf) session binding hcode
  rw [hdone.fresh]
  constructor
  · by_cases hown : session = s.fresh
    · rw [hown] at hlive hcode ⊢
      cases hfailed : failed with
      | false => exact hdone.ownLive hfailed hlive
      | true => exact absurd hcode (hdone.not_own hf hfailed binding)
    · rw [← isSome_sessionKind, hdone.sessions session hown, isSome_sessionKind]
      exact hlive
  · exact hbinding

theorem noDangling (hcalm : (s.endAttempt failed u).Calm) : u.toPluginTables.NoDangling := by
  apply noDangling_of
  · exact fun p hcode => hdone.libraryLoaded hs hstart hextends hcalm hcode
  · exact fun f hf session binding hcode => (hdone.session_live ht hf hcode).1
  · exact fun session cx hcx => hdone.sessionLoaded hs hstart hextends hcx

theorem valid : LoadValid (s.endAttempt failed u) where
  attempt_lt := by
    have hfresh := hextends.fresh
    rw [hstart.fresh, ← hdone.fresh] at hfresh
    have hlt := hs.attempt_lt
    change s.attempt < u.fresh
    omega
  function_lt f hf := by
    change f.attempt < u.fresh
    rw [hdone.fresh]
    exact ht.function_lt f (hdone.functions_sub hf)
  code_lt f hf session binding hcode := hdone.session_live ht hf hcode
  plugin_lt p hp := by
    have hfresh := hextends.fresh
    rw [hstart.fresh] at hfresh
    change p.attempt < u.fresh
    rw [hdone.fresh]
    obtain ⟨newLoaded, hloaded, hnewLoaded⟩ := hdone.loadedPlugins
    obtain ⟨newAuto, hauto, hnewAuto⟩ := hdone.autoLoadedPlugins
    have hp' : p ∈ u.loadedPlugins ++ u.autoLoadedPlugins := hp
    rw [hloaded, hauto, List.mem_append, List.mem_append, List.mem_append] at hp'
    rcases hp' with (hold | hnew) | (hold | hnew)
    · exact ht.plugin_lt p (List.mem_append_left _ hold)
    · have h := (hnewLoaded p hnew).2
      omega
    · exact ht.plugin_lt p (List.mem_append_right _ hold)
    · have h := (hnewAuto p hnew).2
      omega
  session_lt session hlive := by
    have hlive' : (u.sessions session).isSome := hlive
    have hfresh := hextends.fresh
    rw [hstart.fresh] at hfresh
    change session < u.fresh
    rw [hdone.fresh]
    by_cases hown : session = s.fresh
    · omega
    · rw [← isSome_sessionKind, hdone.sessions session hown, isSome_sessionKind] at hlive'
      exact ht.session_lt session hlive'
  registered_lt f hf := by
    change f.attempt < u.fresh
    rw [hdone.fresh]
    rcases mem_endAttempt.mp hf with hold | hnew
    · exact ht.registered_lt f ((hdone.mem_history (by simp [PluginEvent.Untold])).mp hold)
    · cases hnew
  registered f hf := by
    apply mem_endAttempt.mpr
    left
    apply (hdone.mem_history (by simp [PluginEvent.Untold])).mpr
    exact ht.registered f (hdone.functions_sub hf)
  sessionLoaded session cx hcx := hdone.sessionLoaded hs hstart hextends hcx
  libraryLoaded hcalm p hcode := hdone.libraryLoaded hs hstart hextends hcalm hcode
  restored_iff r hr hfailed := by
    rcases mem_endAttempt.mp hr with hold | hnew
    · exact ht.restored_iff r ((hdone.mem_history (by simp [PluginEvent.Untold])).mp hold) hfailed
    · injection hnew with heq
      rw [heq] at hfailed ⊢
      exact hdone.restored_iff hs hstart ht hextends hfailed
  noDangling hcalm r hr := by
    rcases mem_endAttempt.mp hr with hold | hnew
    · exact ht.noDangling (hdone.calm hcalm).1 r
        ((hdone.mem_history (by simp [PluginEvent.Untold])).mp hold)
    · injection hnew with heq
      rw [heq]
      exact hdone.noDangling hs hstart ht hextends hcalm

omit ht in
theorem extends_ (c₀ : Caller) : LoadExtends c₀ s (s.endAttempt failed u) where
  fresh := by
    have hfresh := hextends.fresh
    rw [hstart.fresh, ← hdone.fresh] at hfresh
    change s.fresh ≤ u.fresh
    omega
  attempt := rfl
  external := by
    obtain ⟨⟨new, hexternal, hnew⟩, -⟩ := hdone.appended hs hstart hextends
    exact ⟨new, hexternal, fun e he => Or.inr (hnew e he)⟩
  autoloaded := by
    obtain ⟨-, new, hautoloaded, hnew⟩ := hdone.appended hs hstart hextends
    exact ⟨new, hautoloaded, fun e he => Or.inr (hnew e he)⟩
  loadedPlugins := by
    obtain ⟨⟨new, hloaded, hnew⟩, -⟩ := hdone.plugins_appended hstart hextends
    exact ⟨new, hloaded, fun p hp => (hnew p hp).1⟩
  autoLoadedPlugins := by
    obtain ⟨-, new, hloaded, hnew⟩ := hdone.plugins_appended hstart hextends
    exact ⟨new, hloaded, fun p hp => (hnew p hp).1⟩
  history := hdone.history_extends hstart hextends
  libraries p := hdone.libraries_le hstart hextends p
  sessions session hold := hdone.sessionKind_old hstart hextends hold
  newSession session cx hnew hcx := hdone.newSession hstart hextends hnew hcx
  registered f hf := by
    rcases mem_endAttempt.mp hf with hold | hnew
    · rw [hdone.mem_history (by simp [PluginEvent.Untold])] at hold
      rcases hextends.registered f hold with holder | hthere | hnested
      · rw [hstart.history] at holder
        exact Or.inl holder
      · obtain ⟨⟨newExternal, hexternal, hnewExternal⟩, newAuto, hauto, hnewAuto⟩ :=
          hstart.appended hextends
        obtain ⟨e, he, rfl⟩ := mem_functions.mp hthere
        rw [hexternal, hauto, List.mem_append, List.mem_append] at he
        rcases he with (hold | hadded) | (hold | hadded)
        · exact Or.inl (hs.registered _ (mem_functions.mpr ⟨e, Or.inl hold, rfl⟩))
        · exact Or.inr (Or.inr (hnewExternal e hadded))
        · exact Or.inl (hs.registered _ (mem_functions.mpr ⟨e, Or.inr hold, rfl⟩))
        · exact Or.inr (Or.inr (hnewAuto e hadded))
      · rw [hstart.fresh] at hnested
        exact Or.inr (Or.inr (by omega))
    · cases hnew
  code hcalm p hcode := by
    rcases hdone.code hstart hextends hcalm hcode with hold | hloaded
    · exact Or.inl hold
    · exact Or.inr (Or.inr hloaded)
  session session hsession := by
    obtain ⟨f, hf, binding, hcode⟩ := hsession
    rcases hextends.session session ⟨f, hdone.functions_sub hf, binding, hcode⟩ with
      ⟨g, hg, b, hold⟩ | hself | hlater
    · rw [hstart.functions] at hg
      exact Or.inl ⟨g, hg, b, hold⟩
    · rcases hstart.caller with hlibrary | hcx
      · rw [hlibrary] at hself
        cases hself
      · rw [hcx] at hself
        injection hself with heq
        exact Or.inr (Or.inr (Nat.le_of_eq heq))
    · rw [hstart.fresh] at hlater
      exact Or.inr (Or.inr (by omega))

/-- The whole attempt, for whoever has asked for it. -/
theorem work (c₀ : Caller) : LoadWork c₀ s (s.endAttempt failed u) :=
  fun _ _ => ⟨hdone.valid hs hstart ht hextends, hdone.extends_ hs hstart hextends c₀⟩

end AttemptDone

end Attempt

end AviSynth
