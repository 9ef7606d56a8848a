import AviSynth.Plugins.PluginRules
import AviSynth.Plugins.Registration
import Mathlib.Order.Nat

/-!
# Attempts to load a plugin

What is known of the tables in every state, and how they grow while some code runs.
Libraries stay loaded as often as they were, and a function that is new in the tables
and whose code lies in a library is accounted for: by a function that was there
before, by the running code itself, or by a library that has been loaded once more.
-/

namespace AviSynth

open Exceptional

/-- The library in which the code of a function lies is loaded. -/
def PluginTables.CodeLoaded (tables : PluginTables) : FunctionCode → Prop
  | .script _ => True
  | .library path _ => 0 < tables.libraries path
  | .cx session _ => ∃ cx, tables.sessions session = some cx ∧ 0 < tables.libraries cx.library

/-- No function can be called whose code lies in a library that has been unloaded. -/
def PluginTables.NoDangling (tables : PluginTables) : Prop :=
  ∀ e ∈ tables.externalFunctions ++ tables.autoloadedFunctions, tables.CodeLoaded e.function.code

namespace LoadAttempt

/-- The tables are as before, but for what nested attempts have done. -/
def Restored (r : LoadAttempt) : Prop :=
  r.after.externalFunctions.filter (·.function.attempt ≤ r.number) = r.before.externalFunctions ∧
    r.after.autoloadedFunctions.filter (·.function.attempt ≤ r.number) =
      r.before.autoloadedFunctions ∧
    r.after.loadedPlugins.filter (·.attempt ≤ r.number) = r.before.loadedPlugins ∧
    r.after.autoLoadedPlugins.filter (·.attempt ≤ r.number) = r.before.autoLoadedPlugins

/-- All functions were registered through the CX session of the attempt. -/
def Withdrawn (r : LoadAttempt) : Prop :=
  ∀ f ∈ r.registered, ∃ binding, f.code = .cx r.number binding

end LoadAttempt

namespace PluginState

/-- Every failed attempt has registered functions through its CX session only. -/
def Calm (s : PluginState) : Prop :=
  ∀ r, .loadEnded r ∈ s.history → r.failed = true → r.Withdrawn

/-- There is a function whose code lies in the library. -/
def HasCode (path : String) (s : PluginState) : Prop :=
  ∃ f ∈ s.functions, ∃ apply, f.code = .library path apply

/-- There is a function of the session. -/
def HasSession (session : ℕ) (s : PluginState) : Prop :=
  ∃ f ∈ s.functions, ∃ binding, f.code = .cx session binding

/-- The attempt in progress has registered a function whose code lies in the library. -/
def HasRegistered (path : String) (s : PluginState) : Prop :=
  ∃ f, .registered f ∈ s.history ∧ f.attempt = s.attempt ∧ ∃ apply, f.code = .library path apply

/-- The code can run: its library is loaded, or its session is there. -/
def Ready (s : PluginState) : Caller → Prop
  | .script => True
  | .library path => 0 < s.libraries path
  | .cx session => (s.sessions session).isSome

theorem ready_of_runnable {s : PluginState} {code : FunctionCode} (h : s.Runnable code) :
    s.Ready code.caller := by
  cases code with
  | script => trivial
  | library path apply => exact h
  | cx session binding =>
    obtain ⟨cx, hcx, -⟩ := h
    exact Option.isSome_iff_exists.mpr ⟨cx, hcx⟩

/-- What never changes about a session. -/
def sessionKind (s : PluginState) (session : ℕ) : Option (String × Bool) :=
  (s.sessions session).map fun cx => (cx.library, cx.committed)

end PluginState

/-- What the tables satisfy. -/
structure TablesValid (s : PluginState) : Prop where
  attempt_lt : s.attempt < s.fresh
  function_lt : ∀ f ∈ s.functions, f.attempt < s.fresh
  code_lt : ∀ f ∈ s.functions, ∀ session binding, f.code = .cx session binding →
    (s.sessions session).isSome ∧ binding < s.fresh
  plugin_lt : ∀ p ∈ s.loadedPlugins ++ s.autoLoadedPlugins, p.attempt < s.fresh
  session_lt : ∀ session, (s.sessions session).isSome → session < s.fresh
  registered_lt : ∀ f, .registered f ∈ s.history → f.attempt < s.fresh
  registered : ∀ f ∈ s.functions, .registered f ∈ s.history
  sessionLoaded : ∀ session cx, s.sessions session = some cx → 0 < s.libraries cx.library
  restored_iff : ∀ r, .loadEnded r ∈ s.history → r.failed = true → (r.Restored ↔ r.Withdrawn)
  noDangling : s.Calm → ∀ r, .loadEnded r ∈ s.history → r.after.NoDangling

/-- What also holds between loads. -/
structure LoadValid (s : PluginState) : Prop extends TablesValid s where
  libraryLoaded : s.Calm → ∀ path, s.HasCode path → 0 < s.libraries path

/-- Entries are added that the attempt in progress or later ones have registered. -/
def FunctionMap.Appends (attempt fresh : ℕ) (map map' : FunctionMap) : Prop :=
  ∃ new, map' = map ++ new ∧
    ∀ e ∈ new, e.function.attempt = attempt ∨ fresh ≤ e.function.attempt

/-- Plugins are added that later attempts have loaded. -/
def PluginsAppended (fresh : ℕ) (plugins plugins' : List PluginFile) : Prop :=
  ∃ new, plugins' = plugins ++ new ∧ ∀ p ∈ new, fresh ≤ p.attempt

/-- How the state changes while code of `c` runs. -/
structure LoadExtends (c : Caller) (s t : PluginState) : Prop where
  fresh : s.fresh ≤ t.fresh
  attempt : t.attempt = s.attempt
  external : FunctionMap.Appends s.attempt s.fresh s.externalFunctions t.externalFunctions
  autoloaded : FunctionMap.Appends s.attempt s.fresh s.autoloadedFunctions t.autoloadedFunctions
  loadedPlugins : PluginsAppended s.fresh s.loadedPlugins t.loadedPlugins
  autoLoadedPlugins : PluginsAppended s.fresh s.autoLoadedPlugins t.autoLoadedPlugins
  history : s.history <+: t.history
  libraries : ∀ path, s.libraries path ≤ t.libraries path
  sessions : ∀ session < s.fresh, t.sessionKind session = s.sessionKind session
  newSession : ∀ session cx, s.fresh ≤ session → t.sessions session = some cx →
    s.libraries cx.library < t.libraries cx.library
  /-- What the attempt in progress registers stays in the tables. -/
  registered : ∀ f, .registered f ∈ t.history →
    .registered f ∈ s.history ∨ f ∈ t.functions ∨ s.fresh ≤ f.attempt
  code : t.Calm → ∀ path, t.HasCode path →
    s.HasCode path ∨ (c = .library path ∧ t.HasRegistered path) ∨
      s.libraries path < t.libraries path
  session : ∀ session, t.HasSession session →
    s.HasSession session ∨ c = .cx session ∨ s.fresh ≤ session

namespace PluginState

theorem noDangling_of {s : PluginState} (hcode : ∀ path, s.HasCode path → 0 < s.libraries path)
    (hsession : ∀ f ∈ s.functions, ∀ session binding, f.code = .cx session binding →
      (s.sessions session).isSome)
    (hloaded : ∀ session cx, s.sessions session = some cx → 0 < s.libraries cx.library) :
    s.toPluginTables.NoDangling := by
  intro e he
  have hf : e.function ∈ s.functions := List.mem_map_of_mem he
  cases hfunction : e.function.code with
  | script => trivial
  | library path apply => exact hcode path ⟨e.function, hf, apply, hfunction⟩
  | cx session binding =>
    have hlive := hsession e.function hf session binding hfunction
    obtain ⟨cx, hcx⟩ := Option.isSome_iff_exists.mp hlive
    exact ⟨cx, hcx, hloaded session cx hcx⟩

theorem Calm.of_earlier {s t : PluginState} (h : t.Calm) (hext : s.history <+: t.history) :
    s.Calm := fun r hr => h r (hext.subset hr)

end PluginState

theorem LoadValid.tables_noDangling {s : PluginState} (hs : LoadValid s) (hcalm : s.Calm) :
    s.toPluginTables.NoDangling :=
  PluginState.noDangling_of (hs.libraryLoaded hcalm)
    (fun f hf session binding hcode => (hs.code_lt f hf session binding hcode).1) hs.sessionLoaded

namespace FunctionMap.Appends

variable {attempt fresh fresh' : ℕ} {map map' map'' : FunctionMap}

theorem refl (attempt fresh : ℕ) (map : FunctionMap) : Appends attempt fresh map map :=
  ⟨[], by simp⟩

theorem trans (h : Appends attempt fresh map map') (h' : Appends attempt fresh' map' map'')
    (hfresh : fresh ≤ fresh') : Appends attempt fresh map map'' := by
  obtain ⟨first, rfl, hfirst⟩ := h
  obtain ⟨second, rfl, hsecond⟩ := h'
  use first ++ second
  constructor
  · rw [List.append_assoc]
  · rw [List.forall_mem_append]
    constructor
    · exact hfirst
    · intro e he
      rcases hsecond e he with hattempt | hnested
      · exact Or.inl hattempt
      · exact Or.inr (hfresh.trans hnested)

theorem subset (h : Appends attempt fresh map map') : map ⊆ map' := by
  obtain ⟨new, rfl, -⟩ := h
  exact List.subset_append_left map new

end FunctionMap.Appends

namespace PluginsAppended

variable {fresh fresh' : ℕ} {plugins plugins' plugins'' : List PluginFile}

theorem refl (fresh : ℕ) (plugins : List PluginFile) : PluginsAppended fresh plugins plugins :=
  ⟨[], by simp⟩

theorem trans (h : PluginsAppended fresh plugins plugins')
    (h' : PluginsAppended fresh' plugins' plugins'') (hfresh : fresh ≤ fresh') :
    PluginsAppended fresh plugins plugins'' := by
  obtain ⟨first, rfl, hfirst⟩ := h
  obtain ⟨second, rfl, hsecond⟩ := h'
  use first ++ second
  constructor
  · rw [List.append_assoc]
  · rw [List.forall_mem_append]
    exact ⟨hfirst, fun p hp => hfresh.trans (hsecond p hp)⟩

end PluginsAppended

namespace LoadExtends

variable {c : Caller} {s t u : PluginState}

theorem functions_subset (h : LoadExtends c s t) : s.functions ⊆ t.functions := by
  intro f hf
  obtain ⟨e, he, rfl⟩ := PluginState.mem_functions.mp hf
  apply PluginState.mem_functions.mpr
  rcases he with hexternal | hautoloaded
  · exact ⟨e, Or.inl (h.external.subset hexternal), rfl⟩
  · exact ⟨e, Or.inr (h.autoloaded.subset hautoloaded), rfl⟩

theorem ready (h : LoadExtends c s t) {c' : Caller} (hvalid : LoadValid s) (hready : s.Ready c') :
    t.Ready c' := by
  cases c' with
  | script => trivial
  | library path => exact lt_of_lt_of_le hready (h.libraries path)
  | cx session =>
    have hkind := h.sessions session (hvalid.session_lt session hready)
    have hlive : (s.sessionKind session).isSome := by
      rw [PluginState.sessionKind, Option.isSome_map]
      exact hready
    rw [← hkind, PluginState.sessionKind, Option.isSome_map] at hlive
    exact hlive

theorem trans (hst : LoadExtends c s t) (htu : LoadExtends c t u) : LoadExtends c s u where
  fresh := hst.fresh.trans htu.fresh
  attempt := htu.attempt.trans hst.attempt
  external := by
    have h := htu.external
    rw [hst.attempt] at h
    exact hst.external.trans h hst.fresh
  autoloaded := by
    have h := htu.autoloaded
    rw [hst.attempt] at h
    exact hst.autoloaded.trans h hst.fresh
  loadedPlugins := hst.loadedPlugins.trans htu.loadedPlugins hst.fresh
  autoLoadedPlugins := hst.autoLoadedPlugins.trans htu.autoLoadedPlugins hst.fresh
  history := hst.history.trans htu.history
  libraries path := (hst.libraries path).trans (htu.libraries path)
  sessions session hsession :=
    (htu.sessions session (hsession.trans_le hst.fresh)).trans (hst.sessions session hsession)
  newSession session cx hnew hcx := by
    by_cases hlater : t.fresh ≤ session
    · exact lt_of_le_of_lt (hst.libraries _) (htu.newSession session cx hlater hcx)
    · have hkind := htu.sessions session (Nat.lt_of_not_le hlater)
      unfold PluginState.sessionKind at hkind
      rw [hcx, Option.map_some] at hkind
      obtain ⟨cx', hcx', hsame⟩ := Option.map_eq_some_iff.mp hkind.symm
      have hlibrary : cx'.library = cx.library := congrArg Prod.fst hsame
      have hless := hst.newSession session cx' hnew hcx'
      rw [hlibrary] at hless
      exact lt_of_lt_of_le hless (htu.libraries _)
  registered f hf := by
    rcases htu.registered f hf with hold | hthere | hnested
    · rcases hst.registered f hold with holder | hthere | hnested
      · exact Or.inl holder
      · exact Or.inr (Or.inl (htu.functions_subset hthere))
      · exact Or.inr (Or.inr hnested)
    · exact Or.inr (Or.inl hthere)
    · exact Or.inr (Or.inr (hst.fresh.trans hnested))
  code hcalm path hcode := by
    rcases htu.code hcalm path hcode with hold | ⟨hself, hregistered⟩ | hloaded
    · rcases hst.code (hcalm.of_earlier htu.history) path hold with
        holder | ⟨hself, f, hf, hattempt, happly⟩ | hloaded
      · exact Or.inl holder
      · exact Or.inr (Or.inl ⟨hself, f, htu.history.subset hf, hattempt.trans htu.attempt.symm,
          happly⟩)
      · exact Or.inr (Or.inr (lt_of_lt_of_le hloaded (htu.libraries path)))
    · exact Or.inr (Or.inl ⟨hself, hregistered⟩)
    · exact Or.inr (Or.inr (lt_of_le_of_lt (hst.libraries path) hloaded))
  session session hsession := by
    rcases htu.session session hsession with hold | hself | hnested
    · exact hst.session session hold
    · exact Or.inr (Or.inl hself)
    · exact Or.inr (Or.inr (hst.fresh.trans hnested))

end LoadExtends

/-- What a request of the code of `c` does to the tables. -/
def LoadWork (c : Caller) (s t : PluginState) : Prop :=
  LoadValid s → s.Ready c → LoadValid t ∧ LoadExtends c s t

theorem LoadWork.trans {c : Caller} {s t u : PluginState} (hst : LoadWork c s t)
    (htu : LoadWork c t u) : LoadWork c s u := by
  intro hs hready
  obtain ⟨ht, hextends⟩ := hst hs hready
  obtain ⟨hu, hextends'⟩ := htu ht (hextends.ready hs hready)
  exact ⟨hu, hextends.trans hextends'⟩

end AviSynth
