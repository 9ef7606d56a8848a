import AviSynth.Plugins.PluginLoading

/-!
# Registering a function

All that `AddFunction` and `RegisterFunction` can do to the state. An exception may
come before the function is in a table, between its two names, and after them.
-/

namespace AviSynth

open Exceptional

namespace PluginState

/-- A function is entered under its name, and under the canonical one if `both`. -/
def enter (f : AVSFunction) (both : Bool) (s : PluginState) : PluginState :=
  if both then (s.pushFunction f.name f).pushFunction f.canonName f
  else s.pushFunction f.name f

def setOperations (n : ℕ) (s : PluginState) : PluginState := { s with operations := n }

def setFresh (n : ℕ) (s : PluginState) : PluginState := { s with fresh := n }

theorem pushFunction_setOperations (name : String) (f : AVSFunction) (n : ℕ) (s : PluginState) :
    (s.setOperations n).pushFunction name f = (s.pushFunction name f).setOperations n := by
  unfold pushFunction setOperations
  cases s.autoloading <;> rfl

/-- Entering a function only appends entries of this function. -/
theorem enter_eq (f : AVSFunction) (both : Bool) (s : PluginState) :
    ∃ newExternal newAutoloaded : FunctionMap,
      s.enter f both = { s with
        externalFunctions := s.externalFunctions ++ newExternal
        autoloadedFunctions := s.autoloadedFunctions ++ newAutoloaded } ∧
      (∀ e ∈ newExternal ++ newAutoloaded, e.function = f) ∧
      newExternal ++ newAutoloaded ≠ [] := by
  unfold enter pushFunction
  by_cases hautoloading : s.autoloading = true
  · cases both with
    | false => exact ⟨[], [⟨f.name.toLower, f⟩], by simp [hautoloading, FunctionMap.add], by simp⟩
    | true =>
      exact ⟨[], [⟨f.name.toLower, f⟩, ⟨f.canonName.toLower, f⟩],
        by simp [hautoloading, FunctionMap.add], by simp⟩
  · cases both with
    | false => exact ⟨[⟨f.name.toLower, f⟩], [], by simp [hautoloading, FunctionMap.add], by simp⟩
    | true =>
      exact ⟨[⟨f.name.toLower, f⟩, ⟨f.canonName.toLower, f⟩], [],
        by simp [hautoloading, FunctionMap.add], by simp⟩

theorem enter_log (f : AVSFunction) (both : Bool) (event : PluginEvent) (s : PluginState) :
    (s.log event).enter f both = (s.enter f both).log event := by
  unfold enter pushFunction log
  cases both <;> cases s.autoloading <;> rfl

/-- A function with a given binding belongs to it, and to its session. -/
theorem belongsTo_iff {session : ℕ} {binding : Option ℕ} {f : AVSFunction} :
    belongsTo session binding f = true ↔
      ∃ b, f.code = .cx session b ∧ ∀ b' ∈ binding, b = b' := by
  unfold belongsTo
  cases f.code with
  | script | library =>
    constructor
    · intro h
      cases h
    · rintro ⟨b, h, -⟩
      cases h
  | cx session' b =>
    cases binding with
    | none => simp
    | some b' =>
      simp only [Bool.and_eq_true, beq_iff_eq, Option.all_some, FunctionCode.cx.injEq]
      constructor
      · rintro ⟨rfl, hb⟩
        use b
        simp [hb]
      · rintro ⟨b'', ⟨rfl, rfl⟩, hb⟩
        exact ⟨rfl, (hb b' rfl).symm⟩

end PluginState

namespace PluginWorld

variable {world : PluginWorld} {s t : PluginState} {result : Except PluginError Unit}
  {name params : String}

theorem outside_eq (h : world.outside s = some (result, t)) :
    t = s.setOperations (s.operations + 1) := by
  simp only [outside, Option.some.injEq, Prod.mk.injEq] at h
  exact h.2.symm

/-- No function is created, or the new function is. -/
theorem createFunction_cases {code : FunctionCode} {result : Except PluginError AVSFunction}
    (h : world.createFunction name params code s = some (result, t)) :
    (∃ e n, result = .error e ∧ t = s.setOperations n) ∨
      ∃ n, result = .ok (s.newFunction name params code) ∧
        t = (s.setOperations n).setFresh (s.fresh + 1) := by
  unfold createFunction at h
  split_ifs at h with hvalid
  · obtain ⟨⟩ := Option.some.inj h
    exact Or.inl ⟨_, s.operations, rfl, rfl⟩
  · obtain ⟨⟨first, u⟩, hop, hrest⟩ := Option.bind_eq_some_iff.mp h
    obtain rfl := outside_eq hop
    cases first with
    | error e =>
      obtain ⟨⟩ := Option.some.inj hrest
      exact Or.inl ⟨e, s.operations + 1, rfl, rfl⟩
    | ok _ =>
      obtain ⟨⟩ := Option.some.inj hrest
      exact Or.inr ⟨s.operations + 1, rfl, rfl⟩

/-- The function is entered under one name or both, and under both without an
exception. -/
theorem enterFunction_cases {f : AVSFunction} (h : world.enterFunction f s = some (result, t)) :
    ∃ n both, t = (s.enter f both).setOperations n ∧ (result = .ok () → both = true) := by
  unfold enterFunction at h
  obtain ⟨⟨first, u⟩, hpush, hrest⟩ := Option.bind_eq_some_iff.mp h
  obtain ⟨⟩ := Option.some.inj hpush
  obtain ⟨⟨exported, u⟩, hop, hrest⟩ := Option.bind_eq_some_iff.mp hrest
  obtain rfl := outside_eq hop
  cases exported with
  | error e =>
    obtain ⟨⟩ := Option.some.inj hrest
    exact ⟨_, false, rfl, by simp⟩
  | ok _ =>
    obtain ⟨⟨second, u⟩, hpush, hrest⟩ := Option.bind_eq_some_iff.mp hrest
    obtain ⟨⟩ := Option.some.inj hpush
    obtain rfl := outside_eq hrest
    rw [PluginState.pushFunction_setOperations]
    exact ⟨_, true, rfl, fun _ => rfl⟩

/-- `AddFunction` does nothing, or enters a new function. -/
theorem addFunction_cases {code : FunctionCode}
    (h : world.addFunction name params code s = some (result, t)) :
    (∃ n, t = s.setOperations n) ∨
      ∃ n m both, t = ((((s.setOperations n).setFresh (s.fresh + 1)).log
        (.registered (s.newFunction name params code))).enter
          (s.newFunction name params code) both).setOperations m := by
  unfold addFunction at h
  obtain ⟨⟨created, u⟩, hcreate, hrest⟩ := Option.bind_eq_some_iff.mp h
  rcases createFunction_cases hcreate with ⟨e, n, rfl, rfl⟩ | ⟨n, rfl, rfl⟩
  · obtain ⟨⟩ := Option.some.inj hrest
    exact Or.inl ⟨n, rfl⟩
  · obtain ⟨⟨logged, u⟩, hlog, hrest⟩ := Option.bind_eq_some_iff.mp hrest
    obtain ⟨⟩ := Option.some.inj hlog
    obtain ⟨m, both, rfl, -⟩ := enterFunction_cases hrest
    exact Or.inr ⟨n, m, both, rfl⟩

/-- The state in which a session has its new binding, before the function is created. -/
def bound (session apply n : ℕ) (s : PluginState) : PluginState :=
  ((s.setOperations n).setFresh (s.fresh + 1)).addBinding session s.fresh apply

/-- What `RegisterFunction` takes back after an exception in the state `u`. -/
def takenBack (session : ℕ) (s u : PluginState) : PluginState :=
  (u.withdraw session (some s.fresh) s.toPluginTables).eraseBinding session s.fresh

/-- The function of the new binding. -/
def boundFunction (session apply n : ℕ) (name params : String) (s : PluginState) : AVSFunction :=
  (bound session apply n s).newFunction name params (.cx session s.fresh)

/-- The state in which the function of the new binding has been created. -/
def created (session apply n m : ℕ) (s : PluginState) : PluginState :=
  ((bound session apply n s).setOperations m).setFresh ((bound session apply n s).fresh + 1)

/-- `RegisterFunction` does nothing, or registers a new function with a new binding, or takes
everything back after a part of it. -/
theorem registerFunction_cases {session apply : ℕ}
    (h : world.registerFunction session name params apply s = some (result, t)) :
    (∃ n, t = s.setOperations n) ∨
      (∃ n m k, t = (((created session apply n m s).enter
        (boundFunction session apply n name params s) true).setOperations k).log
          (.registered (boundFunction session apply n name params s))) ∨
      (∃ n m, t = takenBack session s ((bound session apply n s).setOperations m)) ∨
      ∃ n m k both, t = takenBack session s (((created session apply n m s).enter
        (boundFunction session apply n name params s) both).setOperations k) := by
  unfold registerFunction at h
  split_ifs at h with hvalid
  · obtain ⟨⟩ := Option.some.inj h
    exact Or.inl ⟨s.operations, rfl⟩
  · obtain ⟨⟨first, u⟩, hop, hrest⟩ := Option.bind_eq_some_iff.mp h
    obtain rfl := outside_eq hop
    cases first with
    | error e =>
      obtain ⟨⟩ := Option.some.inj hrest
      exact Or.inl ⟨_, rfl⟩
    | ok _ =>
      right
      obtain ⟨⟨added, u⟩, hadd, hrest⟩ := Option.bind_eq_some_iff.mp hrest
      obtain ⟨⟨made, v⟩, hcreate, hmade⟩ := Option.bind_eq_some_iff.mp hadd
      rcases createFunction_cases hcreate with ⟨e, m, rfl, rfl⟩ | ⟨m, rfl, rfl⟩
      · -- the exception comes before the function
        obtain ⟨⟩ := Option.some.inj hmade
        obtain ⟨⟩ := Option.some.inj hrest
        exact Or.inr (Or.inl ⟨_, m, rfl⟩)
      · obtain ⟨⟨entered, w⟩, henter, hentered⟩ := Option.bind_eq_some_iff.mp hmade
        obtain ⟨k, both, rfl, hboth⟩ := enterFunction_cases henter
        cases entered with
        | error e =>
          obtain ⟨⟩ := Option.some.inj hentered
          obtain ⟨⟩ := Option.some.inj hrest
          exact Or.inr (Or.inr ⟨_, m, k, both, rfl⟩)
        | ok _ =>
          obtain rfl := hboth rfl
          obtain ⟨⟩ := Option.some.inj hentered
          obtain ⟨⟩ := Option.some.inj hrest
          exact Or.inl ⟨_, m, k, rfl⟩

end PluginWorld

end AviSynth
