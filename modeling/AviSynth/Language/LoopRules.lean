import AviSynth.Library.Triples
import AviSynth.Language.Interpreter

/-!
# Invariants of loops

A loop of a script has an invariant where its condition is evaluated. The body starts where the
condition holds. It ends with the invariant, after its value has been put into `last`, or by a
`continue` with the invariant, or by a `break` with what is wanted after the loop.
-/

namespace AviSynth

namespace Language

open Exceptional Eval

variable {F D W α : Type} {P I Q : Environment F D W → Prop}
  {E : ScriptError F D → Environment F D W → Prop} {body : Option (Eval F D W (AVSValue F D))}

/-- What has to hold when a body ends by an exception: a `continue` goes on with `I`, a `break`
leaves the loop with `Q`. -/
def AfterJump (I Q : Environment F D W → Prop)
    (E : ScriptError F D → Environment F D W → Prop) :
    ScriptError F D → Environment F D W → Prop
  | .continueStmt => I
  | .breakStmt => Q
  | e => E e

/-- What has to hold after a body, with its value in `last`. -/
def AfterBody (I Q : Environment F D W → Prop)
    (E : ScriptError F D → Environment F D W → Prop) :
    Except (ScriptError F D) (AVSValue F D) → Environment F D W → Prop
  | .ok value, env => I (env.setLast value)
  | .error e, env => AfterJump I Q E e env

/-- What has to hold after a condition of a loop. -/
structure AfterCondition (P Q : Environment F D W → Prop)
    (E : ScriptError F D → Environment F D W → Prop) (msg : String) (value : AVSValue F D)
    (env : Environment F D W) : Prop where
  holds : value = .bool true → P env
  fails : value = .bool false → Q env
  other : (∀ b, value ≠ .bool b) → E (.avisynthError msg) env

theorem condition_meets {p : Eval F D W (AVSValue F D)} {msg : String}
    (h : Meets I p (AfterCondition P Q E msg) E) :
    Meets I (condition p msg) (fun holds env => if holds then P env else Q env) E := by
  refine h.bind fun value => ?_
  cases value with
  | bool b =>
    refine meets_pure fun env henv => ?_
    cases b with
    | true => exact henv.holds rfl
    | false => exact henv.fails rfl
  | _ => exact meets_raise fun env henv => henv.other (fun b h => by cases h)

theorem resultAfterJump_meets (result : AVSValue F D) :
    Meets P (resultAfterJump result : Eval F D W (AVSValue F D)) (fun _ => P) E :=
  Meets.bind (Q := fun _ => P) (meets_step fun _ henv => henv) fun _ =>
    meets_pure fun _ henv => henv

/-- A body leaves the loop, or goes on to the next evaluation of the condition. Without a body
nothing happens between two evaluations. -/
theorem loopBody_meets
    (hbody : ∀ b ∈ body, Meets P b (fun value env => I (env.setLast value)) (AfterJump I Q E))
    (hempty : body = none → ∀ env, P env → I env) (result : AVSValue F D) :
    Meets P (loopBody body result) (fun next env => if next.1 then Q env else I env) E := by
  cases body with
  | none => exact meets_pure fun env henv => hempty rfl env henv
  | some body =>
    have hattempt : Meets P body.attempt (AfterBody I Q E) E :=
      (hbody body rfl).attempt (fun _ _ hvalue => hvalue) fun _ _ he => he
    refine hattempt.bind fun ended => ?_
    cases ended with
    | ok value =>
      exact Meets.bind (Q := fun _ => I) (meets_update fun _ henv => henv) fun _ =>
        meets_pure fun _ henv => henv
    | error e =>
      cases e with
      | breakStmt | continueStmt =>
        exact (resultAfterJump_meets result).bind fun _ => meets_pure fun _ henv => henv
      | _ => exact meets_raise fun _ henv => henv

theorem whileRounds_meets {cond : Eval F D W (AVSValue F D)}
    (hcond : Meets I cond (AfterCondition P Q E "while: condition must be boolean (true/false)") E)
    (hbody : ∀ b ∈ body, Meets P b (fun value env => I (env.setLast value)) (AfterJump I Q E))
    (hempty : body = none → ∀ env, P env → I env) (rounds : ℕ) (result : AVSValue F D) :
    Meets I (whileRounds cond body rounds result) (fun _ => Q) E := by
  induction rounds generalizing result with
  | zero => exact meets_diverge
  | succ rounds ih =>
    refine (condition_meets hcond).bind fun holds => ?_
    cases holds with
    | false => exact meets_pure fun _ henv => henv
    | true =>
      refine (loopBody_meets hbody hempty result).bind fun ⟨left, result⟩ => ?_
      cases left with
      | true => exact meets_pure fun _ henv => henv
      | false => exact ih result

variable [Floating F D]

/-- The rule for a `while` with an invariant, whatever its body calls or throws: whenever the loop
ends, it ends as it should. -/
theorem whileLoop_meets (calls : Calls F D W) (rounds : ℕ) {cond : Exp F D}
    {body : Option (Exp F D)}
    (hcond : Meets I (evaluate calls rounds cond)
      (AfterCondition P Q E "while: condition must be boolean (true/false)") E)
    (hbody : ∀ b ∈ body, Meets P (evaluate calls rounds b) (fun value env => I (env.setLast value))
      (AfterJump I Q E))
    (hempty : body = none → ∀ env, P env → I env) :
    Meets I (evaluate calls rounds (.whileLoop cond body)) (fun _ => Q) E := by
  rw [evaluate_whileLoop]
  refine Meets.bind (Q := fun _ => I) (meets_step fun _ henv => henv) fun result =>
    whileRounds_meets hcond ?_ (fun hnone => hempty (Option.map_eq_none_iff.mp hnone)) rounds result
  intro b hb
  obtain ⟨block, hblock, rfl⟩ := Option.map_eq_some_iff.mp hb
  exact hbody block hblock

/-- The variable `x` holds a bool. -/
def xIsBool (env : Environment Float32 Float Unit) : Prop :=
  ∃ b, env.vars.get "x" = some (.bool b)

def xFails (env : Environment Float32 Float Unit) : Prop := env.vars.get "x" = some (.bool false)

/-- An environment in which `x` is true. -/
def xTrue : Environment Float32 Float Unit := (Environment.initial ()).setVar "x" (.bool true)

/-- `while (x) { x = false }` ends there, and the variable is false then. -/
theorem whileLoop_fails : ∃ env,
    evaluate Calls.none 9 (.whileLoop (.variableReference "x")
      (some (.assignment "x" (.constant (.bool false)) false))) xTrue =
        some (.ok .undefined, env) ∧ xFails env := by
  have hcond : Meets xIsBool (evaluate Calls.none 9 (.variableReference "x"))
      (AfterCondition xIsBool xFails (fun _ _ => False)
        "while: condition must be boolean (true/false)") fun _ _ => False := by
    rintro env ended ⟨b, hb⟩ hrun
    rw [evaluate_variableReference_of_get _ _ hb] at hrun
    obtain rfl := Option.some.inj hrun
    exact ⟨fun _ => ⟨b, hb⟩, fun hfalse => hb.trans (congrArg some hfalse),
      fun hother => hother b rfl⟩
  have hbody : Meets xIsBool
      (evaluate Calls.none 9 (.assignment "x" (.constant (.bool false)) false))
      (fun value env => xIsBool (env.setLast value))
      (AfterJump xIsBool xFails fun _ _ => False) := by
    have hrun (env : Environment Float32 Float Unit) :
        evaluate Calls.none 9 (.assignment "x" (.constant (.bool false)) false) env =
          some (.ok .undefined, env.setVar "x" (.bool false)) := rfl
    intro env ended hx hend
    obtain rfl := Option.some.inj ((hrun env).symm.trans hend)
    exact ⟨false, VarTable.get_of_local (VarFrame.get_set_self _ "x" _)⟩
  have hloop := whileLoop_meets Calls.none 9 hcond (fun b hb => Option.some.inj hb ▸ hbody) nofun
  have hrun : evaluate Calls.none 9 (.whileLoop (.variableReference "x")
      (some (.assignment "x" (.constant (.bool false)) false))) xTrue =
        some (.ok .undefined, xTrue.setVar "x" (.bool false)) := by with_unfolding_all rfl
  have hx : xTrue.vars.get "x" = some (.bool true) :=
    VarTable.get_of_local (VarFrame.get_set_self _ "x" _)
  exact ⟨_, hrun, hloop _ _ ⟨true, hx⟩ hrun⟩

end Language

end AviSynth
