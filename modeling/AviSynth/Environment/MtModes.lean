import Mathlib.Data.List.Basic
import Mathlib.Data.Nat.Init

/-!
# The modes of filters in several threads

A filter can be used by several threads at once, by one thread for each instance of it,
or by one thread at a time. It says so itself, or a registration does. An
`MtModeEvaluator` counts the modes of the filters that a filter is built from.
-/

namespace AviSynth

/-- The valid values of `MtMode`. -/
inductive MtMode where
  | niceFilter
  | multiInstance
  | serialized
  | specialMt
  deriving DecidableEq

namespace MtMode

/-- The cast of a value between `MT_INVALID` and `MT_MODE_COUNT`. -/
def ofInt (val : ℤ) : MtMode :=
  if val = 1 then .niceFilter else if val = 2 then .multiInstance
  else if val = 3 then .serialized else .specialMt

/-- How restrictive a mode is. The special mode, which keeps a filter from being
guarded, is not compared with the others. -/
def restriction : MtMode → ℕ
  | .niceFilter => 1
  | .multiInstance => 2
  | .serialized => 3
  | .specialMt => 0

/-- The mode of the guard that `MTGuard::Create` makes. -/
def guard : MtMode → MtMode
  | .specialMt => .serialized
  | m => m

theorem one_le_restriction_guard (m : MtMode) : 1 ≤ m.guard.restriction := by
  cases m <;> decide

end MtMode

/-- What the environment asks of a clip: `GetVersion`, and the answer to
`CACHE_GET_MTMODE`. The number tells apart the clips that have been at one address. -/
structure IClip where
  version : ℤ
  mtMode : ℤ
  number : ℕ
  deriving DecidableEq

namespace IClip

variable (clip : IClip)

/-- `ClipSpecifiesMtMode`. -/
def clipSpecifiesMtMode : Bool := 5 ≤ clip.version && 0 < clip.mtMode && clip.mtMode < 5

/-- `GetInstanceMode`, with the mode of a clip that specifies none. -/
def getInstanceMode (defaultMode : MtMode) : MtMode :=
  if clip.clipSpecifiesMtMode then .ofInt clip.mtMode else defaultMode

end IClip

/-- `MtModeEvaluator`. -/
structure MtModeEvaluator where
  numChainedNice : ℕ
  numChainedMulti : ℕ
  numChainedSerial : ℕ
  deriving DecidableEq

namespace MtModeEvaluator

variable (e other : MtModeEvaluator) (mode : MtMode)

/-- The evaluator of a call, when it begins. -/
def zero : MtModeEvaluator := ⟨0, 0, 0⟩

/-- `GetFinalMode`. -/
def getFinalMode (topInvokeMode : MtMode) : MtMode :=
  if 0 < e.numChainedSerial then .serialized
  else if 0 < e.numChainedMulti then
    if topInvokeMode = .serialized then .serialized else .multiInstance
  else topInvokeMode

/-- `Accumulate` of another evaluator. -/
def accumulate : MtModeEvaluator where
  numChainedNice := e.numChainedNice + other.numChainedNice
  numChainedMulti := e.numChainedMulti + other.numChainedMulti
  numChainedSerial := e.numChainedSerial + other.numChainedSerial

/-- `Accumulate` of a mode. The special mode fails an assertion and is not counted. -/
def accumulateMode : MtModeEvaluator :=
  match mode with
  | .niceFilter => { e with numChainedNice := e.numChainedNice + 1 }
  | .multiInstance => { e with numChainedMulti := e.numChainedMulti + 1 }
  | .serialized => { e with numChainedSerial := e.numChainedSerial + 1 }
  | .specialMt => e

/-- `AddChainedFilter`. -/
def addChainedFilter (clip : IClip) (defaultMode : MtMode) : MtModeEvaluator :=
  e.accumulateMode (clip.getInstanceMode defaultMode)

/-- The restriction of the most restrictive mode that has been counted. -/
def level : ℕ :=
  if 0 < e.numChainedSerial then 3 else if 0 < e.numChainedMulti then 2 else 1

theorem level_accumulate : (e.accumulate other).level = max e.level other.level := by
  simp only [level, accumulate]
  grind

theorem level_le_accumulateMode : e.level ≤ (e.accumulateMode mode).level := by
  cases mode with
  | niceFilter => exact Nat.le_refl _
  | specialMt => exact Nat.le_refl _
  | multiInstance | serialized =>
    simp only [level, accumulateMode]
    grind

theorem one_le_level : 1 ≤ e.level := by
  unfold level
  grind

theorem restriction_le_accumulateMode : mode.restriction ≤ (e.accumulateMode mode).level := by
  cases mode with
  | niceFilter => exact one_le_level _
  | specialMt => exact Nat.zero_le _
  | multiInstance | serialized =>
    simp only [MtMode.restriction, level, accumulateMode]
    grind

/-- The guard of a filter is as restrictive as everything that has been counted for it. -/
theorem level_le_getFinalMode : e.level ≤ (e.getFinalMode mode).guard.restriction := by
  unfold level getFinalMode
  split_ifs
  · decide
  · decide
  · decide
  · exact mode.one_le_restriction_guard

end MtModeEvaluator

/-- `MtWeight`. -/
inductive MtWeight where
  | default
  | userSpec
  | userForce
  deriving DecidableEq

/-- The value of an `MtWeight`. -/
def MtWeight.toNat : MtWeight → ℕ
  | .default => 0
  | .userSpec => 1
  | .userForce => 2

/-- Whether a character is trimmed from a name. -/
def isBlank (c : Char) : Bool := c == ' ' || c == '\t'

/-- `NormalizeString`. Nothing is trimmed when nothing else would be left. -/
def normalizeString (str : String) : String :=
  let ret := str.toLower.toList
  if ret.all isBlank then String.ofList ret
  else String.ofList ((ret.reverse.dropWhile isBlank).reverse.dropWhile isBlank)

/-- What `Invoke` reads of a `Function`. -/
structure InvokedFunction where
  name : Option String
  canonName : String
  /-- `IsScriptFunction`. -/
  isScriptFunction : Bool
  deriving DecidableEq

/-- The modes that have been registered. -/
structure MtSettings where
  defaultMtMode : MtMode
  mtMap : List (String × MtMode × MtWeight)

namespace MtSettings

variable (s : MtSettings) (f : InvokedFunction) (clip : IClip)

/-- `SetFilterMTMode`, while the plugin `loading` is being loaded. A mode that is not
valid throws. -/
def setFilterMTMode (filter : String) (mode : ℤ) (weight : MtWeight) (loading : Option String) :
    Option MtSettings :=
  if mode ≤ 0 ∨ 5 ≤ mode then none
  else if filter.toLower = "default_mt_mode" then some { s with defaultMtMode := .ofInt mode }
  else
    let name := normalizeString ((loading.elim "" (· ++ "_")) ++ filter)
    match s.mtMap.lookup name with
    | some (_, registered) =>
      if registered.toNat ≤ weight.toNat then
        some { s with mtMap := (name, .ofInt mode, weight) :: s.mtMap }
      else some s
    | none => some { s with mtMap := (name, .ofInt mode, weight) :: s.mtMap }

/-- `FilterHasMtMode`. -/
def filterHasMtMode : Bool :=
  match f.name with
  | none => false
  | some name =>
    (s.mtMap.lookup (normalizeString f.canonName)).isSome ||
      (s.mtMap.lookup (normalizeString name)).isSome

/-- `GetFilterMTMode`, and whether the user forces this mode. -/
def getFilterMTMode : MtMode × Bool :=
  match f.name with
  | none => (s.defaultMtMode, false)
  | some name =>
    match s.mtMap.lookup (normalizeString f.canonName) with
    | some (mode, weight) => (mode, weight == .userForce)
    | none =>
      match s.mtMap.lookup (normalizeString name) with
      | some (mode, weight) => (mode, weight == .userForce)
      | none => (s.defaultMtMode, false)

/-- `GetMtMode`. -/
def getMtMode : MtMode :=
  if (s.getFilterMTMode f).2 then (s.getFilterMTMode f).1
  else if clip.clipSpecifiesMtMode then .ofInt clip.mtMode else (s.getFilterMTMode f).1

/-- `UsesDefaultMtMode`. -/
def usesDefaultMtMode : Bool := !clip.clipSpecifiesMtMode && !s.filterHasMtMode f

end MtSettings

end AviSynth
