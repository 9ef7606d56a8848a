import AviSynth.Filters.IntegerInterpolation
import AviSynth.Library.Programs
import Mathlib.Data.Rat.Floor

/-!
# The stages that `Animate` serves

Every clip of the cache was built with the arguments for the stage of its slot, as long as
no invocation of the filter throws. After one that does, the slot has the new stage with
the old clip, which the next request for that stage gets.
-/

namespace AviSynth

open MachineInt Transition

variable {D C : Type}

namespace AnimateSetup

/-- The arguments for a stage: those given for the first and the last one, or the
interpolated ones. -/
def ArgsFor (ops : AnimateDoubles D) (a : AnimateSetup D C) (stage : ℤ)
    (args : List (AnimateArg D C)) : Prop :=
  (stage = 0 ∧ args = a.argsBefore) ∨ (stage = a.last - a.first ∧ args = a.argsAfter) ∨
    args = a.argsNow ops stage

instance [DecidableEq D] [DecidableEq C] (ops : AnimateDoubles D) (a : AnimateSetup D C)
    (stage : ℤ) (args : List (AnimateArg D C)) : Decidable (a.ArgsFor ops stage args) :=
  inferInstanceAs (Decidable (_ ∨ _ ∨ _))

/-- A frame comes from a clip that was built with the arguments for the frame's stage. With
a limited range it is filtered inside of the range only. -/
def Right (ops : AnimateDoubles D) (a : AnimateSetup D C) : AnimateEvent D C → Prop
  | .delivered n source =>
    if a.rangeLimit then
      source = if n < a.first ∨ a.last < n then .unfiltered else .built a.argsBefore
    else ∃ args, source = .built args ∧
      a.ArgsFor ops (clampInt n a.first a.last - a.first) args
  | .thrown _ => True
  | .nullClip _ => False

end AnimateSetup

namespace Animate

/-- If the request leads to an invocation of the filter, that does not throw. -/
def Spared (a : Animate D C) (request : AnimateRequest) : Prop :=
  request.invokeThrows = true → a.rangeLimit ∨ (a.slot (a.stage request.n)).isSome ∨
    (a.customFn.isSome ∧ request.customThrows)
  deriving Decidable

/-- Each slot is empty or has a clip for its stage. -/
structure Valid (ops : AnimateDoubles D) (a : Animate D C) : Prop where
  ordered : a.first ≤ a.last
  fits : a.last - a.first < 2 ^ 31
  slots : a.rangeLimit = false → ∀ i, (a.cacheStage i = -1 ∧ a.cache i = none) ∨
    ∃ args, a.cache i = some args ∧ a.ArgsFor ops (a.cacheStage i) args
  filtered : a.rangeLimit = true → a.cache 0 = some a.argsBefore

variable {ops : AnimateDoubles D} {a : Animate D C}

theorem Valid.stage_eq (h : a.Valid ops) (n : ℤ) :
    a.stage n = clampInt n a.first a.last - a.first ∧ 0 ≤ a.stage n := by
  have hfits := h.fits
  obtain ⟨hlow, hhigh, -⟩ := clampInt_spec (n := n) h.ordered
  have hstage : a.stage n = clampInt n a.first a.last - a.first :=
    i32_of_range (by omega) (by omega)
  exact ⟨hstage, by omega⟩

/-- What the slot of a stage has. -/
theorem slot_eq_some {stage : ℤ} {i : Fin 3} (h : a.slot stage = some i) :
    a.cacheStage i = stage := by
  unfold slot at h
  split_ifs at h with h0 h1 h2 <;> cases h <;> assumption

@[simp] theorem getFrame_setup (a : Animate D C) (request : AnimateRequest) :
    (a.getFrame ops request).1.toAnimateSetup = a.toAnimateSetup := by
  unfold getFrame
  by_cases hrange : a.rangeLimit = true
  · rw [if_pos hrange]
    split_ifs <;> rfl
  · rw [if_neg hrange]
    dsimp only
    cases a.slot (a.stage request.n) with
    | some i => rfl
    | none =>
      dsimp only
      split_ifs <;> rfl

/-- The constructor builds the clips for the first stage and, without a limited range, for the
last one. -/
theorem construct_eq_ok {context : Option (C × AnimateSize)} {first last : ℤ}
    {argsBefore argsAfter : List (AnimateArg D C)} {rangeLimit : Bool} {customFn : Option (D → D)}
    {customChecked : Except String Unit}
    {invoke : List (AnimateArg D C) → Except String AnimateSize}
    (h : construct context first last argsBefore argsAfter rangeLimit customFn customChecked
      invoke = .ok a) :
    first ≤ last ∧ ∃ setup : AnimateSetup D C, setup.first = first ∧ setup.last = last ∧
      a = if setup.rangeLimit then firstClip setup else (firstClip setup).lastClip := by
  obtain ⟨_, hchecked, h⟩ := except_bind_eq_ok.mp h
  obtain ⟨size1, -, h⟩ := except_bind_eq_ok.mp h
  refine ⟨?_, ⟨first, last, (context.map fun c => .clip c.1).toList ++ argsBefore,
    (context.map fun c => .clip c.1).toList ++ argsAfter, rangeLimit, customFn⟩, rfl, rfl, ?_⟩
  · by_contra hlt
    rw [checkArguments, if_pos (by omega)] at hchecked
    cases hchecked
  · cases rangeLimit with
    | true =>
      obtain ⟨_, -, h⟩ := except_bind_eq_ok.mp h
      cases h
      rfl
    | false =>
      obtain ⟨size2, -, h⟩ := except_bind_eq_ok.mp h
      obtain ⟨_, -, h⟩ := except_bind_eq_ok.mp h
      cases h
      rfl

theorem Valid.firstClip {setup : AnimateSetup D C} (hle : setup.first ≤ setup.last)
    (hfits : setup.last - setup.first < 2 ^ 31) : (firstClip setup).Valid ops where
  ordered := hle
  fits := hfits
  slots _ i := by
    by_cases hi : i = 0
    · exact .inr ⟨setup.argsBefore, if_pos hi, .inl ⟨if_pos hi, rfl⟩⟩
    · exact .inl ⟨if_neg hi, if_neg hi⟩
  filtered _ := rfl

/-- A slot gets a clip for its stage. -/
theorem Valid.update (h : a.Valid ops) (hrange : a.rangeLimit = false) (i : Fin 3) {stage : ℤ}
    {args : List (AnimateArg D C)} (hargs : a.ArgsFor ops stage args) :
    Valid ops { a with
      cacheStage := Function.update a.cacheStage i stage
      cache := Function.update a.cache i (some args) } where
  ordered := h.ordered
  fits := h.fits
  slots _ j := by
    by_cases hj : j = i
    · subst hj
      refine .inr ⟨args, Function.update_self .., ?_⟩
      simpa only [Function.update_self] using hargs
    · simp only [Function.update_of_ne hj]
      exact h.slots hrange j
  filtered hlimited := by
    rw [hrange] at hlimited
    cases hlimited

theorem Valid.lastClip (h : a.Valid ops) (hrange : a.rangeLimit = false) :
    a.lastClip.Valid ops := by
  have hordered := h.ordered
  have hfits := h.fits
  have hlast : i32 (a.last - a.first) = a.last - a.first := i32_of_range (by omega) (by omega)
  exact h.update hrange 1 (.inr (.inl ⟨hlast, rfl⟩))

/-- What is delivered from a slot that has a clip for the frame's stage. -/
theorem right_serve {request : AnimateRequest} {i : Fin 3} {args : List (AnimateArg D C)}
    (hrange : a.rangeLimit = false) (hcache : a.cache i = some args)
    (hargs : a.ArgsFor ops (clampInt request.n a.first a.last - a.first) args) :
    a.Right ops (a.serve i request) := by
  rw [serve, hcache]
  cases request.frameThrows with
  | true => trivial
  | false =>
    simp only [Bool.false_eq_true, if_false, AnimateSetup.Right, hrange]
    exact ⟨args, rfl, hargs⟩

/-- A request keeps the slots, and what it delivers is right. -/
theorem Valid.getFrame (h : a.Valid ops) {request : AnimateRequest} (hspared : a.Spared request) :
    (a.getFrame ops request).1.Valid ops ∧ a.Right ops (a.getFrame ops request).2 := by
  unfold Animate.getFrame
  cases hrange : a.rangeLimit with
  | true =>
    rw [if_pos rfl]
    by_cases hout : request.n < a.first ∨ a.last < request.n
    · rw [if_pos hout]
      refine ⟨h, ?_⟩
      cases request.frameThrows with
      | true => trivial
      | false => simp [AnimateSetup.Right, hrange, hout]
    · rw [if_neg hout]
      refine ⟨h, ?_⟩
      rw [serve, h.filtered hrange]
      cases request.frameThrows with
      | true => trivial
      | false => simp [AnimateSetup.Right, hrange, hout]
  | false =>
    rw [if_neg (by simp)]
    obtain ⟨hstage, hnonneg⟩ := h.stage_eq request.n
    dsimp only
    cases hslot : a.slot (a.stage request.n) with
    | some i =>
      refine ⟨h, ?_⟩
      have hi := slot_eq_some hslot
      obtain ⟨hempty, -⟩ | ⟨args, hcache, hargs⟩ := h.slots hrange i
      · omega
      · exact right_serve hrange hcache (by rwa [hi, hstage] at hargs)
    | none =>
      dsimp only
      by_cases hcustom : a.customFn.isSome = true ∧ request.customThrows = true
      · rw [if_pos hcustom]
        exact ⟨h, trivial⟩
      · have hinvoke : request.invokeThrows = false := by
          by_contra hthrows
          obtain hlimited | hfound | hreached := hspared (by simpa using hthrows)
          · simp [hrange] at hlimited
          · simp [hslot] at hfound
          · exact hcustom hreached
        rw [if_neg hcustom, hinvoke, if_neg (by simp)]
        have hargs : a.ArgsFor ops (a.stage request.n) (a.argsNow ops (a.stage request.n)) :=
          .inr (.inr rfl)
        refine ⟨h.update hrange (a.furthest (a.stage request.n)) hargs, ?_⟩
        have hcached : Function.update a.cache (a.furthest (a.stage request.n))
            (some (a.argsNow ops (a.stage request.n))) (a.furthest (a.stage request.n)) =
              some (a.argsNow ops (a.stage request.n)) := Function.update_self ..
        exact right_serve hrange hcached (by rwa [hstage] at hargs ⊢)

end Animate

open Animate

/-- `double` on the numbers of the examples, which it holds exactly. -/
def exactDoubles : AnimateDoubles ℚ where
  ofInt n := n
  one := 1
  add x y := x + y
  sub x y := x - y
  mul x y := x * y
  div x y := x / y
  lt x y := x < y
  toFactor x := BitVec.ofInt 64 ((2 ^ 32 * x).num.tdiv (2 ^ 32 * x).den)

/-- An animation of one integer from 0 to 100. -/
def risingSetup : AnimateSetup ℚ Unit := ⟨0, 8, [.int 0], [.int 100], false, none⟩

theorem construct_rising : Animate.construct none 0 8 [.int 0] [.int 100] false none (.ok ())
    (fun _ => .ok ⟨640, 480, 0⟩) = .ok (firstClip risingSetup).lastClip := rfl

end AviSynth
