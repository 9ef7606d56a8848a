import AviSynth.Language.IntegerExpressions
import Mathlib.Data.List.Forall2
import Mathlib.Tactic.Linarith

/-!
# For loops

A for loop steps its variable in 64 bits and compares it with the limit before each round.
This file counts the rounds of a loop whose body leaves the variable alone. If the first
value behind the limit does not fit in 64 bits, the loop does not notice that it is at the
end.
-/

namespace AviSynth

namespace Language

open MachineInt Exceptional Eval

variable {F D W : Type}

/-- A for loop between two rounds: the counter, the result so far and the environment. -/
structure LoopState (F D W : Type) where
  i : Int64
  result : AVSValue F D
  env : Environment F D W

section Rounds

variable (id : String) (limit step : Int64) (body : Option (Eval F D W (AVSValue F D)))

/-- The loop comes from one state to another by as many rounds as there are values; these are
the values of the loop variable when the body starts. -/
inductive Runs : LoopState F D W → List (AVSValue F D) → LoopState F D W → Prop
  | nil (s : LoopState F D W) : Runs s [] s
  | cons {s t u : LoopState F D W} {v : AVSValue F D} {vs : List (AVSValue F D)}
      (goesOn : forGoesOn step limit s.i = true) (value : s.env.vars.get id = some v)
      (round : forRound id step body s.result s.env = some (.ok (some t.i, t.result), t.env))
      (rest : Runs t vs u) : Runs s (v :: vs) u

/-- The body ends, or is ended by a `continue`, and the loop variable is what it was. A body
whose value is a clip assigns `last`. -/
def Harmless (s : LoopState F D W) : Prop :=
  ∃ result env, loopBody body s.result s.env = some (.ok (false, result), env) ∧
    env.vars.get id = s.env.vars.get id

variable {id limit step body}

/-- Where a number of rounds leads to is determined. -/
theorem Runs.unique {s t u : LoopState F D W} {vs ws : List (AVSValue F D)}
    (hvs : Runs id limit step body s vs t) (hws : Runs id limit step body s ws u)
    (hlength : vs.length = ws.length) : vs = ws ∧ t = u := by
  induction hvs generalizing ws with
  | nil s =>
    cases hws with
    | nil => exact ⟨rfl, rfl⟩
    | cons => simp at hlength
  | @cons s t t' v vs _ value round _ ih =>
    cases hws with
    | nil => simp at hlength
    | @cons _ u' _ w ws _ value' round' rest' =>
      obtain rfl : v = w := by simpa [value] using value'
      have hnext : t = u' := by
        obtain ⟨i, result, env⟩ := t
        obtain ⟨i', result', env'⟩ := u'
        have h := round.symm.trans round'
        simp only [Option.some.injEq, Prod.mk.injEq, Except.ok.injEq] at h
        obtain ⟨⟨rfl, rfl⟩, rfl⟩ := h
        rfl
      subst hnext
      obtain ⟨rfl, rfl⟩ := ih rest' (by simpa using hlength)
      exact ⟨rfl, rfl⟩

theorem Runs.snoc {s t u : LoopState F D W} {v : AVSValue F D} {vs : List (AVSValue F D)}
    (h : Runs id limit step body s vs t) (goesOn : forGoesOn step limit t.i = true)
    (value : t.env.vars.get id = some v)
    (round : forRound id step body t.result t.env = some (.ok (some u.i, u.result), u.env)) :
    Runs id limit step body s (vs ++ [v]) u := by
  induction h with
  | nil s => exact .cons goesOn value round (.nil u)
  | cons goesOn' value' round' _ ih => exact .cons goesOn' value' round' (ih goesOn value round)

/-- A loop that has no further round after some rounds ends there. -/
theorem Runs.forRounds {s t : LoopState F D W} {vs : List (AVSValue F D)}
    (h : Runs id limit step body s vs t) (hend : forGoesOn step limit t.i = false) {rounds : ℕ}
    (hrounds : vs.length < rounds) :
    Eval.forRounds id limit step body rounds s.i s.result s.env = some (.ok t.result, t.env) := by
  induction h generalizing rounds with
  | nil s =>
    obtain _ | rounds := rounds
    · omega
    rw [Eval.forRounds, hend]
    rfl
  | @cons s t u v vs goesOn _ round _ ih =>
    obtain _ | rounds := rounds
    · omega
    rw [Eval.forRounds, if_pos goesOn]
    rw [List.length_cons] at hrounds
    exact bind_eq_ok.mpr ⟨_, _, round, ih hend (by omega)⟩

/-- A harmless round steps the variable, in 64 bits. -/
theorem Harmless.forRound {s : LoopState F D W} (h : Harmless id body s) {v : AVSValue F D}
    {m : Int64} (hv : s.env.vars.get id = some v) (hm : v.asLong = some m) :
    ∃ t : LoopState F D W, t.i = m + step ∧
      forRound id step body s.result s.env = some (.ok (some t.i, t.result), t.env) ∧
      t.env.vars.get id = some (keepSmaller (m + step)) := by
  obtain ⟨result, env, hbody, hkept⟩ := h
  rw [hv] at hkept
  refine ⟨⟨m + step, result, env.setVar id (keepSmaller (m + step))⟩, rfl, ?_, ?_⟩
  · refine bind_eq_ok.mpr ⟨_, _, hbody, ?_⟩
    have hget : getVar id env = some (.ok v, env) := by
      refine bind_eq_ok.mpr ⟨some v, env, ?_, rfl⟩
      rw [getVarTry, hkept]
    refine bind_eq_ok.mpr ⟨v, env, hget, ?_⟩
    rw [hm]
    rfl
  · exact VarTable.get_of_local (VarFrame.get_set_self _ _ _)

end Rounds

/-- The number of rounds that the loop should have. -/
def roundCount (init limit step : Int64) : ℕ :=
  (max 0 ((limit.toInt - init.toInt).fdiv step.toInt + 1)).toNat

/-- The loop should have a further round after `k` of them exactly if there are more. -/
theorem lt_roundCount_iff {init limit step : Int64} (hstep : step ≠ 0) (k : ℕ) :
    k < roundCount init limit step ↔
      if 0 < step.toInt then init.toInt + k * step.toInt ≤ limit.toInt
      else limit.toInt ≤ init.toInt + k * step.toInt := by
  have hne : step.toInt ≠ 0 := fun h => hstep (Int64.toInt_inj.mp h)
  have hcount : k < roundCount init limit step ↔
      (k : ℤ) ≤ (limit.toInt - init.toInt).fdiv step.toInt := by
    unfold roundCount
    omega
  rw [hcount]
  split
  · rename_i hpos
    rw [Int.fdiv_eq_ediv_of_nonneg _ (by omega), Int.le_ediv_iff_mul_le hpos]
    constructor <;> intro h <;> linarith
  · have hneg : 0 < -step.toInt := by omega
    have hflip : (limit.toInt - init.toInt).fdiv step.toInt =
        (init.toInt - limit.toInt).fdiv (-step.toInt) := by
      rw [← Int.neg_fdiv_neg, Int.neg_sub]
    rw [hflip, Int.fdiv_eq_ediv_of_nonneg _ (by omega), Int.le_ediv_iff_mul_le hneg]
    constructor <;> intro h <;> linarith

theorem forGoesOn_iff {step limit i : Int64} :
    forGoesOn step limit i = true ↔
      if 0 < step.toInt then i.toInt ≤ limit.toInt else limit.toInt ≤ i.toInt := by
  have hpos : 0 < step ↔ 0 < step.toInt := Int64.lt_iff_toInt_lt
  unfold forGoesOn
  simp only [hpos]
  split
  · rw [decide_eq_true_eq, Int64.le_iff_toInt_le]
  · rw [decide_eq_true_eq, Int64.le_iff_toInt_le]

/-- The values of the loop variable before the end lie between the first one and the limit. -/
theorem isInt64_of_lt_roundCount {init limit step : Int64} (hstep : step ≠ 0) {k : ℕ}
    (hk : k < roundCount init limit step) : IsInt64 (init.toInt + k * step.toInt) := by
  have hinit := isInt64_toInt init
  have hlimit := isInt64_toInt limit
  rw [lt_roundCount_iff hstep] at hk
  unfold IsInt64 at *
  split at hk
  · have hmul : 0 ≤ (k : ℤ) * step.toInt := Int.mul_nonneg (by omega) (by omega)
    omega
  · have hmul : (k : ℤ) * step.toInt ≤ 0 := Int.mul_nonpos_of_nonneg_of_nonpos (by omega) (by omega)
    omega

section Loop

variable (id : String) (init limit step : Int64) (body : Option (Eval F D W (AVSValue F D)))

/-- The loop has exactly the rounds that it should have, with the loop variable taking the
values from the first one on in turn, and comes to its end. -/
def CountsRounds (s : LoopState F D W) : Prop :=
  ∃ vs t, Runs id limit step body s vs t ∧
    List.Forall₂ AVSValue.Means vs ((List.range (roundCount init limit step)).map
      fun k : ℕ => init.toInt + k * step.toInt) ∧
    forGoesOn step limit t.i = false

variable {id init limit step body} {s : LoopState F D W}

/-- After `k` rounds the loop variable has been stepped `k` times, in 64 bits. -/
theorem exists_runs (hstep : step ≠ 0)
    (hvalue : ∃ v, s.env.vars.get id = some v ∧ v.asLong = some init) (hi : s.i = init)
    (hbody : ∀ vs t, Runs id limit step body s vs t → forGoesOn step limit t.i = true →
      Harmless id body t) (k : ℕ) (hk : k ≤ roundCount init limit step) :
    ∃ vs t, Runs id limit step body s vs t ∧
      List.Forall₂ AVSValue.Means vs ((List.range k).map
        fun k : ℕ => init.toInt + k * step.toInt) ∧
      t.i.toInt = i64 (init.toInt + k * step.toInt) ∧
      ∃ v, t.env.vars.get id = some v ∧ v.asLong = some t.i := by
  induction k with
  | zero =>
    obtain ⟨v, hv, hlong⟩ := hvalue
    refine ⟨[], s, .nil s, List.Forall₂.nil, ?_, v, hv, hi ▸ hlong⟩
    rw [hi, Nat.cast_zero, Int.zero_mul, Int.add_zero]
    exact (i64_eq_self_iff.mpr (isInt64_toInt init)).symm
  | succ k ih =>
    obtain ⟨vs, t, hruns, hmeans, ht, v, hv, hlong⟩ := ih (by omega)
    rw [i64_eq_self_iff.mpr (isInt64_of_lt_roundCount hstep hk)] at ht
    have hgoesOn : forGoesOn step limit t.i = true := by
      rw [forGoesOn_iff, ht]
      exact (lt_roundCount_iff hstep k).mp hk
    obtain ⟨u, hu, hround, hnext⟩ := (hbody vs t hruns hgoesOn).forRound hv hlong
    refine ⟨vs ++ [v], u, hruns.snoc hgoesOn hv hround, ?_, ?_, _, hnext, ?_⟩
    · rw [List.range_succ, List.map_append]
      exact List.rel_append hmeans (List.Forall₂.cons ⟨t.i, hlong, ht⟩ List.Forall₂.nil)
    · rw [hu, Int64.toInt_add, ht]
      have hsum : init.toInt + k * step.toInt + step.toInt =
          init.toInt + (k + 1 : ℕ) * step.toInt := by
        push_cast
        ring
      rw [hsum]
      rfl
    · rw [asLong_keepSmaller, hu]

/-- A loop of a body that leaves the variable alone has the right rounds exactly if there is
none, or the first value behind the limit fits in 64 bits. Otherwise that value wraps around
to the other side of the limit. -/
theorem countsRounds_iff (hstep : step ≠ 0)
    (hvalue : ∃ v, s.env.vars.get id = some v ∧ v.asLong = some init) (hi : s.i = init)
    (hbody : ∀ vs t, Runs id limit step body s vs t → forGoesOn step limit t.i = true →
      Harmless id body t) :
    CountsRounds id init limit step body s ↔
      roundCount init limit step = 0 ∨
        IsInt64 (init.toInt + roundCount init limit step * step.toInt) := by
  obtain ⟨vs, t, hruns, hmeans, ht, -⟩ :=
    exists_runs hstep hvalue hi hbody (roundCount init limit step) (Nat.le_refl _)
  have hend : CountsRounds id init limit step body s ↔ forGoesOn step limit t.i = false := by
    constructor
    · rintro ⟨ws, u, hruns', hmeans', hlast⟩
      have hlength : vs.length = ws.length := hmeans.length_eq.trans hmeans'.length_eq.symm
      rwa [(hruns.unique hruns' hlength).2]
    · exact fun hlast => ⟨vs, t, hruns, hmeans, hlast⟩
  have hpast := (lt_roundCount_iff hstep (roundCount init limit step)).not.mp (Nat.lt_irrefl _)
  rw [hend, Bool.eq_false_iff, ne_eq, forGoesOn_iff, ht]
  constructor
  · intro hstops
    by_contra hnot
    obtain ⟨hpos, hout⟩ := not_or.mp hnot
    -- the value behind the limit is less than a full turn outside of the range
    obtain ⟨k, hk⟩ : ∃ k, roundCount init limit step = k + 1 :=
      ⟨roundCount init limit step - 1, by omega⟩
    have hlastIn : k < roundCount init limit step := by omega
    have hbefore := isInt64_of_lt_roundCount hstep hlastIn
    have hlast := (lt_roundCount_iff hstep k).mp hlastIn
    have hsum : init.toInt + (roundCount init limit step : ℕ) * step.toInt =
        init.toInt + k * step.toInt + step.toInt := by
      rw [hk]
      push_cast
      ring
    have hrange := isInt64_toInt step
    apply hstops
    rw [hsum] at hout ⊢
    unfold IsInt64 at hout hbefore hrange
    split at hlast
    · rename_i hup
      rw [if_pos hup, i64_of_overflow (by omega) (by omega)]
      omega
    · rename_i hdown
      have hturn : i64 (init.toInt + k * step.toInt + step.toInt) =
          init.toInt + k * step.toInt + step.toInt + 2 ^ 64 := by
        have hcongr : i64 (init.toInt + k * step.toInt + step.toInt) =
            i64 (init.toInt + k * step.toInt + step.toInt + 2 ^ 64) := i64_congr ⟨-1, by ring⟩
        rw [hcongr]
        exact i64_of_range (by omega) (by omega)
      rw [if_neg hdown, hturn]
      omega
  · rintro (hzero | hfits)
    · have hfirst : init.toInt + (0 : ℕ) * step.toInt = init.toInt := by
        push_cast
        ring
      rw [hzero, hfirst] at hpast ⊢
      rwa [i64_eq_self_iff.mpr (isInt64_toInt init)]
    · rwa [i64_eq_self_iff.mpr hfits]

end Loop

/-- The evaluation of a for loop over integers, from a state in which its three expressions
give the values `init`, `limit` and `step`, has exactly the right rounds and a result, if and
only if there are no rounds or the first value behind the limit fits in 64 bits. It is
assumed of the body that it leaves the loop variable alone in every round that there is, and
of the model that it does not give up before the last round. -/
theorem forLoop_meets_iff [Floating F D] (calls : Calls F D W) {id : String}
    {initExp limitExp stepExp : Exp F D} {body : Option (Exp F D)}
    {initVal limitVal stepVal : AVSValue F D} {init limit step : Int64}
    {env env1 env2 env3 : Environment F D W} {rounds : ℕ}
    (hinit : evaluate calls rounds initExp env = some (.ok initVal, env1))
    (hlimit : evaluate calls rounds limitExp env1 = some (.ok limitVal, env2))
    (hstep : evaluate calls rounds stepExp env2 = some (.ok stepVal, env3))
    (hi : initVal.asLong = some init) (hl : limitVal.asLong = some limit)
    (hs : stepVal.asLong = some step) (hne : step ≠ 0)
    (hrounds : roundCount init limit step < rounds)
    (hbody : ∀ vs t, Runs id limit step (body.map (evaluate calls rounds))
      ⟨init, (env3.vars.get "last").getD .undefined, env3.setVar id initVal⟩ vs t →
      forGoesOn step limit t.i = true → Harmless id (body.map (evaluate calls rounds)) t) :
    (CountsRounds id init limit step (body.map (evaluate calls rounds))
        ⟨init, (env3.vars.get "last").getD .undefined, env3.setVar id initVal⟩ ∧
      ∃ result env', evaluate calls rounds (.forLoop id initExp limitExp stepExp body) env =
        some (.ok result, env')) ↔
      roundCount init limit step = 0 ∨
        IsInt64 (init.toInt + roundCount init limit step * step.toInt) := by
  have hvalue : (env3.setVar id initVal).vars.get id = some initVal :=
    VarTable.get_of_local (VarFrame.get_set_self _ _ _)
  rw [← countsRounds_iff hne ⟨initVal, hvalue, hi⟩ rfl hbody]
  constructor
  · exact fun h => h.1
  · intro hcounts
    refine ⟨hcounts, ?_⟩
    obtain ⟨vs, t, hruns, hmeans, hend⟩ := hcounts
    have hlength : vs.length = roundCount init limit step := by
      rw [hmeans.length_eq, List.length_map, List.length_range]
    refine ⟨t.result, t.env, ?_⟩
    rw [evaluate_forLoop, forLoop_ints _ _ hinit hlimit hstep hi hl hs hne]
    exact hruns.forRounds hend (by omega)

/-- A constant is a harmless body of a loop. -/
theorem harmless_constant [Floating F D] (calls : Calls F D W) (rounds : ℕ) (id : String)
    (t : LoopState F D W) :
    Harmless id ((some (.constant (.int 0))).map (evaluate calls rounds)) t :=
  ⟨.int 0, t.env, rfl, rfl⟩

/-- `for (i = 1, 10, 4)` has three rounds. -/
theorem forLoop_meets_three :
    (CountsRounds "i" 1 10 4 ((some (.constant (.int 0))).map (evaluate Calls.none 9))
        ⟨1, (emptyEnvironment.vars.get "last").getD .undefined,
          emptyEnvironment.setVar "i" (.int 1)⟩ ∧
      ∃ result env', evaluate Calls.none 9 (.forLoop "i" (.constant (.int 1)) (.constant (.int 10))
          (.constant (.int 4)) (some (.constant (.int 0)))) emptyEnvironment =
        some (.ok result, env')) ↔
      roundCount 1 10 4 = 0 ∨
        IsInt64 ((1 : Int64).toInt + roundCount 1 10 4 * (4 : Int64).toInt) :=
  have heval (i : Int32) : evaluate Calls.none 9 (.constant (.int i)) emptyEnvironment =
      some (.ok (.int i), emptyEnvironment) := rfl
  have hne : (4 : Int64) ≠ 0 := by decide
  have hrounds : roundCount 1 10 4 < 9 := by decide
  forLoop_meets_iff Calls.none (heval 1) (heval 10) (heval 4) rfl rfl rfl hne hrounds
    fun _ t _ _ => harmless_constant Calls.none 9 "i" t

example : roundCount 1 10 4 = 3 := by decide

/-- The loop with the largest number as its only value does not end after it. -/
theorem forLoop_misses_end :
    ¬CountsRounds "i" Int64.maxValue Int64.maxValue 1
      ((some (.constant (.int 0))).map (evaluate Calls.none 9))
      ⟨Int64.maxValue, .undefined, emptyEnvironment.setVar "i" (.long Int64.maxValue)⟩ := by
  have hne : (1 : Int64) ≠ 0 := by decide
  have hvalue : (emptyEnvironment.setVar "i" (.long Int64.maxValue)).vars.get "i" =
      some (.long Int64.maxValue) := VarTable.get_of_local (VarFrame.get_set_self _ _ _)
  intro hcounts
  have hfits := (countsRounds_iff hne ⟨_, hvalue, rfl⟩ rfl
    fun _ t _ _ => harmless_constant Calls.none 9 "i" t).mp hcounts
  revert hfits
  decide

end Language

end AviSynth
