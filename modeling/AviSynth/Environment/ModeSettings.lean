import AviSynth.Environment.MtModes
import Mathlib.Data.List.Induction

/-!
# Settings of filter modes

`SetFilterMTMode` is called by plugins while they load and by scripts. All settings
live in one table, whose weights only compare settings under one name; a filter has
two names there, and the canonical one is looked up first. This file follows the
table through every sequence of calls and compares it with what a setting is
documented to do: one that a script forces wins over the mode that the plugin has
registered, which wins over one that a script has not forced.
-/

namespace AviSynth

section Decisive

variable {α : Type} (marked : α → Bool)

/-- The last marked element of a list, or the last one if none is marked. -/
def decisive (l : List α) : Option α := ((l.filter marked).getLast?).or l.getLast?

/-- A new last element decides if it is marked, or if no element is. -/
theorem decisive_concat (l : List α) (a : α) :
    decisive marked (l ++ [a]) =
      if marked a = true ∨ l.filter marked = [] then some a else decisive marked l := by
  by_cases hmarked : marked a = true
  · simp [decisive, hmarked]
  · by_cases hnone : l.filter marked = []
    · simp [decisive, hmarked, hnone]
    · obtain ⟨b, hb⟩ := Option.ne_none_iff_exists'.mp (mt List.getLast?_eq_none_iff.mp hnone)
      simp [decisive, hmarked, hnone, hb]

variable {marked} {l : List α} {a : α}

/-- An element decides in every list that is not empty. -/
theorem decisive_eq_none_iff : decisive marked l = none ↔ l = [] := by
  constructor
  · intro h
    exact List.getLast?_eq_none_iff.mp (Option.or_eq_none_iff.mp h).2
  · rintro rfl
    rfl

/-- The element that decides is in the list. -/
theorem mem_of_decisive (h : decisive marked l = some a) : a ∈ l := by
  rcases Option.or_eq_some_iff.mp h with h | ⟨-, h⟩
  · exact (List.mem_filter.mp (List.mem_of_getLast? h)).1
  · exact List.mem_of_getLast? h

/-- An element that decides without being marked has no marked one beside it. -/
theorem filter_eq_nil_of_decisive (h : decisive marked l = some a)
    (ha : marked a = false) : l.filter marked = [] := by
  rcases Option.or_eq_some_iff.mp h with h | ⟨h, -⟩
  · have hmarked := (List.mem_filter.mp (List.mem_of_getLast? h)).2
    rw [ha] at hmarked
    cases hmarked
  · exact List.getLast?_eq_none_iff.mp h

/-- The element that decides is marked just if there is a marked one. -/
theorem marked_iff_of_decisive (h : decisive marked l = some a) :
    marked a = true ↔ l.filter marked ≠ [] := by
  constructor
  · intro ha
    exact List.ne_nil_of_mem (List.mem_filter.mpr ⟨mem_of_decisive h, ha⟩)
  · intro hne
    by_contra ha
    exact hne (filter_eq_nil_of_decisive h (Bool.eq_false_iff.mpr ha))

/-- A marked element that decides is the last marked one. -/
theorem getLast?_of_decisive (h : decisive marked l = some a)
    (ha : marked a = true) : (l.filter marked).getLast? = some a := by
  rcases Option.or_eq_some_iff.mp h with h | ⟨h, -⟩
  · exact h
  · exact absurd (List.getLast?_eq_none_iff.mp h) ((marked_iff_of_decisive ‹_›).mp ha)

/-- Where no element is marked the last one decides. -/
theorem decisive_of_filter_nil (h : l.filter marked = []) :
    decisive marked l = l.getLast? := by
  simp [decisive, h]

/-- The last marked element decides. -/
theorem decisive_of_marked (h : (l.filter marked).getLast? = some a) :
    decisive marked l = some a := by
  simp [decisive, h]

end Decisive

/-- A call of `SetFilterMTMode`, and the plugin that is being loaded. -/
structure ModeCall where
  filter : String
  mode : ℤ
  force : Bool
  loading : Option String
  deriving DecidableEq

namespace ModeCall

variable (c : ModeCall)

/-- Whether the mode is a valid one; for another one the call throws. -/
def isValid : Bool := 0 < c.mode && c.mode < 5

/-- Whether the call sets the default. -/
def setsDefault : Bool := c.isValid && c.filter.toLower == "default_mt_mode"

/-- The name under which the call registers its mode. -/
def nameToRegister : String := normalizeString ((c.loading.elim "" (· ++ "_")) ++ c.filter)

/-- Whether the call sets a mode under a name. -/
def registers (key : String) : Bool :=
  c.isValid && c.filter.toLower != "default_mt_mode" && c.nameToRegister == key

/-- The weight of the setting. -/
def weight : MtWeight := if c.force then .userForce else .userSpec

end ModeCall

namespace MtSettings

/-- The settings before any call. -/
def initial : MtSettings := ⟨.multiInstance, []⟩

/-- `SetFilterMTMode` with its flag. A call that throws changes nothing. -/
def setMode (s : MtSettings) (c : ModeCall) : MtSettings :=
  (s.setFilterMTMode c.filter c.mode c.weight c.loading).getD s

/-- The settings after a sequence of calls. -/
def after (calls : List ModeCall) : MtSettings := calls.foldl setMode initial

theorem after_concat (calls : List ModeCall) (c : ModeCall) :
    after (calls ++ [c]) = (after calls).setMode c := by
  simp [after, List.foldl_append]

variable (s : MtSettings) {c : ModeCall}

/-- A call that throws changes nothing. -/
theorem setMode_invalid (h : c.isValid = false) : s.setMode c = s := by
  have hmode : c.mode ≤ 0 ∨ 5 ≤ c.mode := by
    simp only [ModeCall.isValid, Bool.and_eq_false_iff, decide_eq_false_iff_not] at h
    omega
  simp only [setMode, setFilterMTMode, if_pos hmode, Option.getD_none]

/-- A call that sets the default leaves the table alone. -/
theorem setMode_default (h : c.setsDefault = true) :
    s.setMode c = { s with defaultMtMode := .ofInt c.mode } := by
  simp only [ModeCall.setsDefault, ModeCall.isValid, Bool.and_eq_true, decide_eq_true_eq,
    beq_iff_eq] at h
  have hmode : ¬(c.mode ≤ 0 ∨ 5 ≤ c.mode) := by omega
  simp only [setMode, setFilterMTMode, if_neg hmode, if_pos h.2, Option.getD_some]

/-- A call that names a filter sets the mode under its name, unless there is one of a
greater weight. -/
theorem setMode_registers {key : String} (h : c.registers key = true) :
    s.setMode c =
      if (s.mtMap.lookup key).all (fun entry => entry.2.toNat ≤ c.weight.toNat) then
        { s with mtMap := (key, .ofInt c.mode, c.weight) :: s.mtMap }
      else s := by
  simp only [ModeCall.registers, ModeCall.isValid, Bool.and_eq_true, decide_eq_true_eq,
    bne_iff_ne, ne_eq, beq_iff_eq, ModeCall.nameToRegister] at h
  obtain ⟨⟨hvalid, hname⟩, rfl⟩ := h
  have hmode : ¬(c.mode ≤ 0 ∨ 5 ≤ c.mode) := by omega
  simp only [setMode, setFilterMTMode, if_neg hmode, if_neg hname]
  cases hlookup : s.mtMap.lookup (normalizeString ((c.loading.elim "" (· ++ "_")) ++ c.filter)) with
  | none => simp
  | some entry =>
    obtain ⟨mode, registered⟩ := entry
    by_cases hweight : registered.toNat ≤ c.weight.toNat
    · simp [hweight]
    · simp [hweight]

end MtSettings

namespace ModeCall

/-- A call throws, or sets the default, or registers a mode under its name. -/
theorem cases (c : ModeCall) :
    c.isValid = false ∨ c.setsDefault = true ∨ c.registers c.nameToRegister = true := by
  cases hvalid : c.isValid with
  | false => exact Or.inl rfl
  | true =>
    by_cases hname : c.filter.toLower = "default_mt_mode"
    · simp [setsDefault, registers, hvalid, hname]
    · simp [setsDefault, registers, hvalid, hname]

/-- A call registers its mode under one name only. -/
theorem registers_eq {c : ModeCall} {key : String} (h : c.registers key = true) :
    c.nameToRegister = key := by
  simp only [registers, Bool.and_eq_true, beq_iff_eq] at h
  exact h.2

/-- A call that sets the default registers nothing. -/
theorem registers_of_setsDefault {c : ModeCall} (h : c.setsDefault = true) (key : String) :
    c.registers key = false := by
  simp only [setsDefault, Bool.and_eq_true, beq_iff_eq] at h
  simp [registers, h.2]

/-- A call that throws registers nothing. -/
theorem registers_of_invalid {c : ModeCall} (h : c.isValid = false) (key : String) :
    c.registers key = false := by
  simp [registers, h]

/-- A forced setting outweighs every other one, an unforced one only those not forced. -/
theorem weight_le_iff (c d : ModeCall) :
    d.weight.toNat ≤ c.weight.toNat ↔ c.force = true ∨ d.force = false := by
  cases hc : c.force <;> cases hd : d.force <;> simp [weight, hc, hd, MtWeight.toNat]

/-- The calls that set a mode under a name, oldest first. -/
def under (key : String) (calls : List ModeCall) : List ModeCall :=
  calls.filter (registers · key)

end ModeCall

namespace MtSettings

open ModeCall

/-- The table has under a name the last forced setting, or the last one if none is forced. -/
theorem lookup_after (key : String) (calls : List ModeCall) :
    (after calls).mtMap.lookup key =
      (decisive force (under key calls)).map fun c => (.ofInt c.mode, c.weight) := by
  induction calls using List.reverseRecOn with
  | nil => rfl
  | append_singleton calls c ih =>
    rw [after_concat]
    have hskip : c.registers key = false → under key (calls ++ [c]) = under key calls := fun h => by
      simp [under, h]
    rcases c.cases with hinvalid | hdefault | hregisters
    · rw [setMode_invalid _ hinvalid, hskip (registers_of_invalid hinvalid key), ih]
    · rw [setMode_default _ hdefault, hskip (registers_of_setsDefault hdefault key), ← ih]
    · rw [setMode_registers _ hregisters]
      by_cases hkey : c.nameToRegister = key
      · rw [hkey] at hregisters ⊢
        have hconcat : under key (calls ++ [c]) = under key calls ++ [c] := by
          simp [under, hregisters]
        rw [hconcat, decisive_concat, ih]
        cases hdecisive : decisive force (under key calls) with
        | none =>
          have hnil := decisive_eq_none_iff.mp hdecisive
          simp [hnil]
        | some d =>
          have hforced := marked_iff_of_decisive hdecisive
          by_cases hwins : c.force = true ∨ (under key calls).filter force = []
          · have hweight : d.weight.toNat ≤ c.weight.toNat := by
              rw [weight_le_iff]
              rcases hwins with hc | hnil
              · exact Or.inl hc
              · exact Or.inr (Bool.eq_false_iff.mpr fun hd => hforced.mp hd hnil)
            rw [if_pos hwins]
            simp [hweight]
          · have hweight : ¬d.weight.toNat ≤ c.weight.toNat := by
              rw [not_or] at hwins
              rw [weight_le_iff, not_or]
              exact ⟨hwins.1, by simp [hforced.mpr hwins.2]⟩
            rw [if_neg hwins]
            simp [hweight, ih, hdecisive]
      · have hother : c.registers key = false := Bool.eq_false_iff.mpr fun h =>
          hkey (registers_eq h)
        rw [hskip hother, ← ih]
        split
        · have hne : (key == c.nameToRegister) = false := beq_false_of_ne (Ne.symm hkey)
          simp only [List.lookup_cons, hne]
        · rfl

/-- The default is the one set last. -/
theorem default_after (calls : List ModeCall) :
    (after calls).defaultMtMode =
      ((calls.filter setsDefault).getLast?.map fun c => .ofInt c.mode).getD .multiInstance := by
  induction calls using List.reverseRecOn with
  | nil => rfl
  | append_singleton calls c ih =>
    rw [after_concat]
    cases hdefault : c.setsDefault with
    | true => simp [setMode_default _ hdefault, hdefault]
    | false =>
      have hsame : ((after calls).setMode c).defaultMtMode = (after calls).defaultMtMode := by
        rcases c.cases with hinvalid | hset | hregisters
        · rw [setMode_invalid _ hinvalid]
        · rw [hset] at hdefault
          cases hdefault
        · rw [setMode_registers _ hregisters]
          split <;> rfl
      simpa [hdefault, hsame] using ih

end MtSettings

section Settled

open ModeCall MtSettings

/-- The mode that a call sets. -/
def ModeCall.mtMode (c : ModeCall) : MtMode := .ofInt c.mode

/-- The two names of a filter, as they stand in the table. -/
structure FilterNames where
  canon : String
  short : String

variable (names : FilterNames) (calls : List ModeCall)

/-- The settings of a filter that scripts make, under either name. -/
def byScripts : List ModeCall := calls.filter fun c =>
  c.loading.isNone && (c.registers names.canon || c.registers names.short)

/-- The settings of a filter that its plugin makes while it is being loaded. -/
def byPlugin : List ModeCall := calls.filter fun c => c.loading.isSome && c.registers names.canon

/-- The last setting that a script forces. -/
def scriptForced : Option ModeCall := ((byScripts names calls).filter force).getLast?

/-- The setting that the calls of the plugin leave. -/
def registered : Option ModeCall := decisive force (byPlugin names calls)

/-- The last setting that a script makes without forcing it. -/
def scriptUnforced : Option ModeCall := ((byScripts names calls).filter (!·.force)).getLast?

/-- The setting of a filter that should be in effect. -/
def setting : Option ModeCall :=
  ((scriptForced names calls).or (registered names calls)).or (scriptUnforced names calls)

/-- The default that should be in effect. -/
def defaultMode : MtMode :=
  ((calls.filter setsDefault).getLast?.map mtMode).getD .multiInstance

/-- The mode that should be in effect for a filter that reports none. -/
def settledMode : MtMode := ((setting names calls).map mtMode).getD (defaultMode calls)

/-- The setting that `GetFilterMTMode` finds: the table has the canonical name first. -/
def chosen : Option ModeCall :=
  (decisive force (under names.canon calls)).or (decisive force (under names.short calls))

/-- The names of a function. -/
def FilterNames.of (name canonName : String) : FilterNames :=
  ⟨normalizeString canonName, normalizeString name⟩

/-- The mode in effect for a filter is the one of the setting that should be: for every clip
that reports none, and if the setting is a forced one for every clip. -/
def ModeMeets (name canonName : String) (isScriptFunction : Bool) : Prop :=
  (∀ clip : IClip, clip.clipSpecifiesMtMode = false →
    (after calls).getMtMode ⟨some name, canonName, isScriptFunction⟩ clip =
      settledMode (.of name canonName) calls) ∧
  ∀ c, setting (.of name canonName) calls = some c → c.force = true → ∀ clip : IClip,
    (after calls).getMtMode ⟨some name, canonName, isScriptFunction⟩ clip = c.mtMode

/-- The settings of a filter under its two names do not get in each other's way. -/
def NamesAgree : Prop :=
  match scriptForced names calls with
  | some d =>
    if under names.canon calls = [] then
      ∃ c, ((under names.short calls).filter force).getLast? = some c ∧ c.mtMode = d.mtMode
    else ∃ c, ((under names.canon calls).filter force).getLast? = some c ∧ c.mtMode = d.mtMode
  | none =>
    match registered names calls with
    | some d =>
      d.force = true ∨ ∃ c, (under names.canon calls).getLast? = some c ∧ c.mtMode = d.mtMode
    | none =>
      match scriptUnforced names calls with
      | some d =>
        if under names.canon calls = [] then
          ∃ c, decisive force (under names.short calls) = some c ∧ c.mtMode = d.mtMode
        else ∃ c, (under names.canon calls).getLast? = some c ∧ c.mtMode = d.mtMode
      | none => ∀ c, decisive force (under names.short calls) = some c →
          c.mtMode = defaultMode calls

variable {names calls}

theorem ModeCall.weight_beq (c : ModeCall) : (c.weight == .userForce) = c.force := by
  cases h : c.force <;> simp [weight, h]

/-- What `GetFilterMTMode` returns after a sequence of calls. -/
theorem getFilterMTMode_after (name canonName : String) (isScriptFunction : Bool) :
    (after calls).getFilterMTMode ⟨some name, canonName, isScriptFunction⟩ =
      match chosen (.of name canonName) calls with
      | some c => (c.mtMode, c.force)
      | none => (defaultMode calls, false) := by
  simp only [getFilterMTMode, lookup_after, default_after, chosen, FilterNames.of]
  cases decisive force (under (normalizeString canonName) calls) with
  | some c => simp [weight_beq, mtMode]
  | none =>
    cases decisive force (under (normalizeString name) calls) with
    | some c => simp [weight_beq, mtMode]
    | none => rfl

/-- A clip that reports no mode. -/
def silentClip : IClip := ⟨0, 0, 0⟩

/-- A clip that reports a mode other than the one given. -/
def otherClip : MtMode → IClip
  | .niceFilter => ⟨5, 2, 0⟩
  | _ => ⟨5, 1, 0⟩

/-- The mode in effect is right just if the setting that is found has the mode of the one
that should be, and is forced if that one is. -/
theorem modeMeets_iff (name canonName : String) (isScriptFunction : Bool) :
    ModeMeets calls name canonName isScriptFunction ↔
      ((chosen (.of name canonName) calls).map mtMode).getD (defaultMode calls) =
          settledMode (.of name canonName) calls ∧
        ∀ d, setting (.of name canonName) calls = some d → d.force = true →
          ∃ c, chosen (.of name canonName) calls = some c ∧ c.force = true ∧
            c.mtMode = d.mtMode := by
  have hget : (after calls).getFilterMTMode ⟨some name, canonName, isScriptFunction⟩ = _ :=
    getFilterMTMode_after name canonName isScriptFunction
  simp only [ModeMeets, getMtMode, hget]
  generalize setting (.of name canonName) calls = wanted
  generalize settledMode (.of name canonName) calls = mode
  cases chosen (.of name canonName) calls with
  | none =>
    constructor
    · rintro ⟨hsilent, hforced⟩
      refine ⟨hsilent silentClip rfl, fun d hd hforce => ?_⟩
      have hother := hforced d hd hforce (otherClip d.mtMode)
      cases hmode : d.mtMode <;> rw [hmode] at hother <;> cases hother
    · rintro ⟨hmode, hforced⟩
      refine ⟨fun clip hclip => ?_, fun d hd hforce => ?_⟩
      · simpa [hclip] using hmode
      · obtain ⟨c, hc, -⟩ := hforced d hd hforce
        cases hc
  | some c =>
    cases hc : c.force with
    | true =>
      constructor
      · rintro ⟨hsilent, hforced⟩
        refine ⟨by simpa [hc] using hsilent silentClip rfl, fun d hd hforce => ?_⟩
        exact ⟨c, rfl, hc, by simpa [hc] using hforced d hd hforce silentClip⟩
      · rintro ⟨hmode, hforced⟩
        refine ⟨fun clip _ => by simpa [hc] using hmode, fun d hd hforce clip => ?_⟩
        obtain ⟨c', hc', -, hsame⟩ := hforced d hd hforce
        obtain rfl := Option.some.inj hc'
        simpa [hc] using hsame
    | false =>
      constructor
      · rintro ⟨hsilent, hforced⟩
        have hreports : silentClip.clipSpecifiesMtMode = false := rfl
        refine ⟨by simpa [hc, hreports] using hsilent silentClip rfl, fun d hd hforce => ?_⟩
        have hother := hforced d hd hforce (otherClip d.mtMode)
        cases hmode : d.mtMode <;> simp [hc, hmode, otherClip] at hother <;> cases hother
      · rintro ⟨hmode, hforced⟩
        refine ⟨fun clip hclip => by simpa [hc, hclip] using hmode, fun d hd hforce => ?_⟩
        obtain ⟨c', hc', hforce', -⟩ := hforced d hd hforce
        obtain rfl := Option.some.inj hc'
        rw [hc] at hforce'
        cases hforce'

section Calls

variable {c : ModeCall}

/-- Every setting under the canonical name is the plugin's or a script's. -/
theorem mem_under_canon (h : c ∈ under names.canon calls) :
    c ∈ byPlugin names calls ∨ c ∈ byScripts names calls := by
  obtain ⟨hmem, hcanon⟩ := List.mem_filter.mp h
  cases hloading : c.loading with
  | some plugin => exact Or.inl (List.mem_filter.mpr ⟨hmem, by simp [hloading, hcanon]⟩)
  | none => exact Or.inr (List.mem_filter.mpr ⟨hmem, by simp [hloading, hcanon]⟩)

/-- A setting of the plugin is under the canonical name. -/
theorem under_of_mem_byPlugin (h : c ∈ byPlugin names calls) : c ∈ under names.canon calls := by
  obtain ⟨hmem, hplugin⟩ := List.mem_filter.mp h
  exact List.mem_filter.mpr ⟨hmem, (Bool.and_eq_true _ _ ▸ hplugin).2⟩

/-- A setting of a script is under one of the names. -/
theorem under_of_mem_byScripts (h : c ∈ byScripts names calls) :
    c ∈ under names.canon calls ∨ c ∈ under names.short calls := by
  obtain ⟨hmem, hscript⟩ := List.mem_filter.mp h
  rw [Bool.and_eq_true, Bool.or_eq_true] at hscript
  rcases hscript.2 with hcanon | hshort
  · exact Or.inl (List.mem_filter.mpr ⟨hmem, hcanon⟩)
  · exact Or.inr (List.mem_filter.mpr ⟨hmem, hshort⟩)

/-- Where no script forces the filter, the forced settings under the canonical name are
those of the plugin. -/
theorem forced_under_canon (h : scriptForced names calls = none) :
    (under names.canon calls).filter force = (byPlugin names calls).filter force := by
  have hnone := List.getLast?_eq_none_iff.mp h
  simp only [under, byPlugin, List.filter_filter]
  refine List.filter_congr fun c hc => ?_
  cases hforce : c.force with
  | false => rfl
  | true =>
    cases hcanon : c.registers names.canon with
    | false => simp
    | true =>
      cases hloading : c.loading with
      | some plugin => simp
      | none =>
        have hmem : c ∈ (byScripts names calls).filter force := by
          simp [byScripts, hc, hloading, hcanon, hforce]
        rw [hnone] at hmem
        cases hmem

end Calls

/-- The forced settings under one name decide on it. -/
theorem decisive_forced_iff {l : List ModeCall} (mode : MtMode) :
    (∃ c, decisive force l = some c ∧ c.force = true ∧ c.mtMode = mode) ↔
      ∃ c, (l.filter force).getLast? = some c ∧ c.mtMode = mode := by
  constructor
  · rintro ⟨c, hc, hforce, hmode⟩
    exact ⟨c, getLast?_of_decisive hc hforce, hmode⟩
  · rintro ⟨c, hc, hmode⟩
    have hforce := (List.mem_filter.mp (List.mem_of_getLast? hc)).2
    exact ⟨c, decisive_of_marked hc, hforce, hmode⟩

/-- The setting found is the one that decides under the canonical name, if there is any. -/
theorem chosen_of_canon (h : under names.canon calls ≠ []) :
    chosen names calls = decisive force (under names.canon calls) := by
  have hsome : decisive force (under names.canon calls) ≠ none := mt decisive_eq_none_iff.mp h
  obtain ⟨c, hc⟩ := Option.ne_none_iff_exists'.mp hsome
  simp [chosen, hc]

/-- Otherwise it is the one that decides under the short name. -/
theorem chosen_of_short (h : under names.canon calls = []) :
    chosen names calls = decisive force (under names.short calls) := by
  simp [chosen, h, decisive]

/-- A setting is found under the first of the names that has any. -/
theorem chosen_eq (names : FilterNames) (calls : List ModeCall) :
    chosen names calls = decisive force
      (if under names.canon calls = [] then under names.short calls
        else under names.canon calls) := by
  split
  · next h => exact chosen_of_short h
  · next h => exact chosen_of_canon h

/-- A script forces the filter: the setting found must be forced, and of the same mode. -/
theorem agree_forced {d : ModeCall} (h : scriptForced names calls = some d) :
    (∃ c, chosen names calls = some c ∧ c.force = true ∧ c.mtMode = d.mtMode) ↔
      NamesAgree names calls := by
  rw [chosen_eq, decisive_forced_iff]
  simp only [NamesAgree, h]
  split <;> rfl

/-- The plugin has registered a mode and no script forces one. -/
theorem agree_registered {d : ModeCall} (hforced : scriptForced names calls = none)
    (h : registered names calls = some d) :
    (((chosen names calls).map mtMode).getD (defaultMode calls) = d.mtMode ∧
      (d.force = true → ∃ c, chosen names calls = some c ∧ c.force = true ∧
        c.mtMode = d.mtMode)) ↔ NamesAgree names calls := by
  have hcanon := List.ne_nil_of_mem (under_of_mem_byPlugin (mem_of_decisive h))
  have hsame := forced_under_canon hforced
  simp only [NamesAgree, hforced, h]
  rw [chosen_of_canon hcanon]
  cases hforce : d.force with
  | true =>
    have hlast := getLast?_of_decisive h hforce
    rw [← hsame] at hlast
    have hdecisive := decisive_of_marked hlast
    simp [hdecisive, hforce]
  | false =>
    have hnone := filter_eq_nil_of_decisive h hforce
    rw [← hsame] at hnone
    obtain ⟨c, hc⟩ := Option.ne_none_iff_exists'.mp (mt List.getLast?_eq_none_iff.mp hcanon)
    rw [decisive_of_filter_nil hnone, hc]
    simp

/-- Only scripts set the mode, and they do not force it. -/
theorem agree_unforced {d : ModeCall} (hforced : scriptForced names calls = none)
    (hregistered : registered names calls = none) (h : scriptUnforced names calls = some d) :
    ((chosen names calls).map mtMode).getD (defaultMode calls) = d.mtMode ↔
      NamesAgree names calls := by
  have hsame := forced_under_canon hforced
  rw [decisive_eq_none_iff.mp hregistered, List.filter_nil] at hsame
  simp only [NamesAgree, hforced, hregistered, h]
  by_cases hcanon : under names.canon calls = []
  · have hmem := (List.mem_filter.mp (List.mem_of_getLast? h)).1
    have hshort : under names.short calls ≠ [] := by
      rcases under_of_mem_byScripts hmem with hin | hin
      · rw [hcanon] at hin
        cases hin
      · exact List.ne_nil_of_mem hin
    have hsome : decisive force (under names.short calls) ≠ none :=
      mt decisive_eq_none_iff.mp hshort
    obtain ⟨c, hc⟩ := Option.ne_none_iff_exists'.mp hsome
    rw [chosen_of_short hcanon, if_pos hcanon, hc]
    simp
  · obtain ⟨c, hc⟩ := Option.ne_none_iff_exists'.mp (mt List.getLast?_eq_none_iff.mp hcanon)
    rw [chosen_of_canon hcanon, if_neg hcanon, decisive_of_filter_nil hsame, hc]
    simp

/-- Nobody sets the mode of the filter. -/
theorem agree_default (hforced : scriptForced names calls = none)
    (hregistered : registered names calls = none) (hunforced : scriptUnforced names calls = none) :
    ((chosen names calls).map mtMode).getD (defaultMode calls) = defaultMode calls ↔
      NamesAgree names calls := by
  have hplugin := decisive_eq_none_iff.mp hregistered
  have hscripts : byScripts names calls = [] := by
    refine List.eq_nil_iff_forall_not_mem.mpr fun c hc => ?_
    cases hforce : c.force with
    | true =>
      have hmem : c ∈ (byScripts names calls).filter force := List.mem_filter.mpr ⟨hc, hforce⟩
      rw [List.getLast?_eq_none_iff.mp hforced] at hmem
      cases hmem
    | false =>
      have hmem : c ∈ (byScripts names calls).filter (!·.force) :=
        List.mem_filter.mpr ⟨hc, by simp [hforce]⟩
      rw [List.getLast?_eq_none_iff.mp hunforced] at hmem
      cases hmem
  have hcanon : under names.canon calls = [] := by
    refine List.eq_nil_iff_forall_not_mem.mpr fun c hc => ?_
    rcases mem_under_canon hc with hmem | hmem
    · rw [hplugin] at hmem
      cases hmem
    · rw [hscripts] at hmem
      cases hmem
  simp only [NamesAgree, hforced, hregistered, hunforced]
  rw [chosen_of_short hcanon]
  cases decisive force (under names.short calls) with
  | none => simp
  | some c => simp

end Settled

end AviSynth
