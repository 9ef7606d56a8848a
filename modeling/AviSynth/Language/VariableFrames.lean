import AviSynth.Language.Invocation

/-!
# Variables over an evaluation

An evaluation assigns variables of the innermost frames only. A script function runs in a
frame of its own, which is gone after the call, so that whatever is called leaves the frames
of its caller as they were, but for global variables.
-/

namespace AviSynth

namespace Language

open Exceptional Environment

variable {F D W α β : Type}

/-- The computation leaves all frames below the innermost ones as they were, and deletes no
variable of the innermost one. -/
def KeepsFrames (p : Eval F D W α) : Prop := Keeps Extends p

/-- The same for what a call does. -/
structure Calls.KeepFrames (calls : Calls F D W) : Prop where
  invoke : ∀ i, KeepsFrames (calls.invoke i)
  functionExists : ∀ name, KeepsFrames (calls.functionExists name)

namespace KeepsFrames

theorem pure (a : α) : KeepsFrames (pure a : Eval F D W α) :=
  keeps_pure .refl a

theorem raise (e : ScriptError F D) : KeepsFrames (raise e : Eval F D W α) :=
  keeps_raise .refl e

theorem raiseError (msg : String) : KeepsFrames (Eval.raiseError msg : Eval F D W α) := raise _

theorem ofResult (result : Except (ScriptError F D) α) :
    KeepsFrames (ofResult result : Eval F D W α) :=
  keeps_ofResult .refl result

theorem diverge : KeepsFrames (diverge : Eval F D W α) := keeps_diverge

theorem current : KeepsFrames (current : Eval F D W (Environment F D W)) :=
  keeps_current .refl

theorem bind {p : Eval F D W α} {next : α → Eval F D W β} (hp : KeepsFrames p)
    (hnext : ∀ a, KeepsFrames (next a)) : KeepsFrames (p >>= next) :=
  Keeps.bind Extends.trans hp hnext

theorem catching {p : Eval F D W α} {handler : ScriptError F D → Eval F D W α}
    (hp : KeepsFrames p) (hhandler : ∀ e, KeepsFrames (handler e)) :
    KeepsFrames (p.catching handler) :=
  Keeps.catching Extends.trans hp hhandler

theorem getVarTry (name : String) :
    KeepsFrames (Eval.getVarTry name : Eval F D W (Option (AVSValue F D))) :=
  keeps_observe Extends.refl fun env => .ok (env.vars.get name)

theorem getVarDef (name : String) :
    KeepsFrames (Eval.getVarDef name : Eval F D W (AVSValue F D)) :=
  keeps_observe Extends.refl fun env => .ok ((env.vars.get name).getD .undefined)

theorem getVar (name : String) : KeepsFrames (Eval.getVar name : Eval F D W (AVSValue F D)) := by
  refine (getVarTry name).bind fun found => ?_
  cases found with
  | none => exact raise _
  | some value => exact pure value

theorem setVar (name : String) (value : AVSValue F D) :
    KeepsFrames (Eval.setVar name value : Eval F D W Unit) :=
  keeps_update fun env => env.extends_setVar name value

theorem setGlobalVar (name : String) (value : AVSValue F D) :
    KeepsFrames (Eval.setGlobalVar name value : Eval F D W Unit) :=
  keeps_update fun env => env.extends_setGlobalVar name value

theorem setLast (value : AVSValue F D) : KeepsFrames (Eval.setLast value : Eval F D W Unit) :=
  keeps_update fun env => env.extends_setLast value

/-- A translated exception. -/
theorem translated {p : Eval F D W (AVSValue F D)} (hp : KeepsFrames p) :
    KeepsFrames (Eval.translated p) := by
  refine hp.catching fun e => ?_
  cases e with
  | system msg => exact raiseError _
  | unknown => exact raiseError _
  | _ => exact raise _

theorem condition {p : Eval F D W (AVSValue F D)} (hp : KeepsFrames p) (msg : String) :
    KeepsFrames (Eval.condition p msg) := by
  refine hp.bind fun value => ?_
  cases value with
  | bool b => exact pure _
  | _ => exact raiseError _

section Loops

variable {body : Option (Eval F D W (AVSValue F D))} (hbody : ∀ p ∈ body, KeepsFrames p)

theorem resultAfterJump (result : AVSValue F D) :
    KeepsFrames (Eval.resultAfterJump result : Eval F D W (AVSValue F D)) :=
  (getVarDef "last").bind fun _ => pure _

include hbody in
/-- The body of a loop. -/
theorem loopBody (result : AVSValue F D) : KeepsFrames (Eval.loopBody body result) := by
  cases body with
  | none => exact pure _
  | some p =>
    have hp : KeepsFrames p.attempt := (hbody p rfl).attempt
    refine hp.bind fun ended => ?_
    cases ended with
    | ok value => exact (setLast value).bind fun _ => pure _
    | error e =>
      cases e with
      | breakStmt | continueStmt => exact (resultAfterJump result).bind fun _ => pure _
      | _ => exact raise _

include hbody in
theorem whileRounds {cond : Eval F D W (AVSValue F D)} (hcond : KeepsFrames cond) (rounds : ℕ)
    (result : AVSValue F D) : KeepsFrames (Eval.whileRounds cond body rounds result) := by
  induction rounds generalizing result with
  | zero => exact diverge
  | succ rounds ih =>
    refine (hcond.condition _).bind fun goesOn => ?_
    cases goesOn with
    | false => exact pure _
    | true =>
      refine (loopBody hbody result).bind fun ⟨left, result⟩ => ?_
      cases left with
      | true => exact pure _
      | false => exact ih result

include hbody in
theorem forRound (id : String) (step : Int64) (result : AVSValue F D) :
    KeepsFrames (Eval.forRound id step body result) := by
  refine (loopBody hbody result).bind fun ⟨left, result⟩ => ?_
  cases left with
  | true => exact pure _
  | false =>
    refine (getVar id).bind fun value => ?_
    dsimp only
    cases value.asLong with
    | none => exact raiseError _
    | some value => exact (setVar id _).bind fun _ => pure _

include hbody in
theorem forRounds (id : String) (limit step : Int64) (rounds : ℕ) (i : Int64)
    (result : AVSValue F D) : KeepsFrames (Eval.forRounds id limit step body rounds i result) := by
  induction rounds generalizing i result with
  | zero => exact diverge
  | succ rounds ih =>
    unfold Eval.forRounds
    split
    · refine (forRound hbody id step result).bind fun ⟨next, result⟩ => ?_
      cases next with
      | none => exact pure _
      | some i => exact ih i result
    · exact pure _

include hbody in
/-- A `for` loop. -/
theorem forLoop (id : String) {init limit step : Eval F D W (AVSValue F D)}
    (hinit : KeepsFrames init) (hlimit : KeepsFrames limit) (hstep : KeepsFrames step)
    (rounds : ℕ) : KeepsFrames (Eval.forLoop id init limit step body rounds) := by
  refine hinit.bind fun initVal => hlimit.bind fun limitVal => hstep.bind fun stepVal => ?_
  split
  · exact raiseError _
  · exact raiseError _
  · exact raiseError _
  · split
    · exact (raiseError _).bind fun _ => (getVarDef "last").bind fun _ =>
        (setVar id initVal).bind fun _ => forRounds hbody _ _ _ _ _ _
    · exact (getVarDef "last").bind fun _ => (setVar id initVal).bind fun _ =>
        forRounds hbody _ _ _ _ _ _

end Loops

theorem captures (names : List String) :
    KeepsFrames (Eval.captures names : Eval F D W (List (AVSValue F D))) := by
  induction names with
  | nil => exact pure _
  | cons name names ih =>
    refine (getVarTry name).bind fun found => ?_
    cases found with
    | none => exact raiseError _
    | some value => exact ih.bind fun _ => pure _

section Calls

variable {calls : Calls F D W} (hcalls : calls.KeepFrames)

include hcalls in
theorem invokeTry (name : String) (args : AVSValue F D) :
    KeepsFrames (Eval.invokeTry calls name args) := hcalls.invoke _

include hcalls in
theorem invoke (name : String) (args : AVSValue F D) :
    KeepsFrames (Eval.invoke calls name args) := by
  refine (invokeTry hcalls name args).bind fun found => ?_
  cases found with
  | none => exact raise _
  | some value => exact pure value

include hcalls in
theorem invokeTryLast (name : String) : KeepsFrames (Eval.invokeTryLast calls name) := by
  refine (getVarTry "last").bind fun found => ?_
  cases found with
  | none => exact pure _
  | some last => exact invokeTry hcalls name last

include hcalls in
/-- An assignment reads its variable back. -/
theorem readBack (lhs : String) : KeepsFrames (Eval.readBack calls lhs) := by
  refine (invokeTryLast hcalls lhs).bind fun found => ?_
  cases found with
  | some result => exact pure _
  | none =>
    refine (getVarTry lhs).bind fun found => ?_
    cases found with
    | some result => exact pure result
    | none => exact raiseError _

include hcalls in
theorem callFailed (f : FunctionPtr) (realName : Option String) :
    KeepsFrames (Eval.callFailed calls f realName) := by
  cases realName with
  | none => exact current.bind fun _ => raiseError _
  | some name =>
    have hreport (realName : String) : KeepsFrames (do
        if ← calls.functionExists realName then
          Eval.raiseError ("Script error: Invalid arguments to function '" ++ realName ++ "'.")
        else Eval.raiseError ("Script error: There is no function named '" ++ realName ++ "'.") :
        Eval F D W (AVSValue F D)) := by
      refine (hcalls.functionExists realName).bind fun found => ?_
      cases found with
      | true => exact raiseError _
      | false => exact raiseError _
    refine (getVarTry name).bind fun found => ?_
    split
    · exact hreport _
    · exact hreport _

include hcalls in
/-- A call of a function that was found. -/
theorem call (f : FunctionPtr) (realName : Option String) (realFunc : Option (Function F D))
    (args : List (AVSValue F D)) (argNames : List (Option String)) (oopNotation : Bool) :
    KeepsFrames (Eval.call calls f realName realFunc args argNames oopNotation) := by
  have hfailed := callFailed hcalls f realName
  have hlast : KeepsFrames (Eval.implicitLastOf oopNotation : Eval F D W (AVSValue F D)) := by
    cases oopNotation with
    | true => exact pure _
    | false => exact getVarDef "last"
  refine hlast.bind fun implicitLast => ?_
  have hattempt (i : Invocation F D) : KeepsFrames (calls.invoke i).attempt :=
    (hcalls.invoke i).attempt
  refine (hattempt _).bind fun first => ?_
  split
  · exact pure _
  · exact hfailed
  · split
    · refine (hattempt _).bind fun second => ?_
      split
      · exact pure _
      · exact hfailed
      · exact hfailed
      · exact raise _
    · exact hfailed
  · exact raise _

end Calls

end KeepsFrames

variable [Floating F D] {calls : Calls F D W}

theorem keepsFrames_evaluateArithmetic (hcalls : calls.KeepFrames) (op : Arithmetic)
    (x y : AVSValue F D) :
    KeepsFrames (evaluateArithmetic calls op x y) := by
  unfold evaluateArithmetic
  split
  · exact .invoke hcalls _ _
  · exact .ofResult _

omit [Floating F D] in
/-- A new function object is no variable. -/
theorem keeps_newFunction (f : FunctionInstance F D) :
    KeepsFrames (fun env => some (.ok (.function (.object env.objects.length)),
      { env with objects := env.objects ++ [f] }) : Eval F D W (AVSValue F D)) := by
  intro env result env' h
  obtain ⟨-, rfl⟩ := Prod.ext_iff.mp (Option.some.inj h)
  exact .of_vars_eq rfl (List.prefix_append _ _)

mutual

/-- An evaluation touches the innermost frames only, if the calls in it do. -/
theorem keepsFrames_evaluate (hcalls : calls.KeepFrames) (rounds : ℕ) :
    ∀ e : Exp F D, KeepsFrames (evaluate calls rounds e)
  | .constant value => .pure value
  | .rootBlock exp => by
    refine (keepsFrames_evaluate hcalls rounds exp).catching fun e => ?_
    cases e with
    | returnExpr value => exact .pure value
    | _ => exact .raise _
  | .sequence a b =>
    (keepsFrames_evaluate hcalls rounds a).bind fun value =>
      (KeepsFrames.setLast value).bind fun _ => keepsFrames_evaluate hcalls rounds b
  | .line exp filename line => by
    refine (keepsFrames_evaluate hcalls rounds exp).translated.catching fun e => ?_
    cases e with
    | avisynthError msg => exact .raiseError _
    | _ => exact .raise _
  | .tryCatch tryBlock id catchBlock => by
    have hcatch := keepsFrames_evaluate hcalls rounds catchBlock
    refine (keepsFrames_evaluate hcalls rounds tryBlock).translated.catching fun e => ?_
    cases e with
    | avisynthError msg => exact (KeepsFrames.setVar id _).bind fun _ => hcatch
    | _ => exact .raise _
  | .negate e =>
    (keepsFrames_evaluate hcalls rounds e).bind fun _ => .ofResult _
  | .not e =>
    ((keepsFrames_evaluate hcalls rounds e).condition _).bind fun _ => .pure _
  | .arithmetic op a b =>
    (keepsFrames_evaluate hcalls rounds a).bind fun x =>
      (keepsFrames_evaluate hcalls rounds b).bind fun y =>
        keepsFrames_evaluateArithmetic hcalls op x y
  | .equal a b | .less a b =>
    (keepsFrames_evaluate hcalls rounds a).bind fun _ =>
      (keepsFrames_evaluate hcalls rounds b).bind fun _ => .ofResult _
  | .blockConditional cond thenBlock elseBlock => by
    have hcond := keepsFrames_evaluate hcalls rounds cond
    have hthen (last : AVSValue F D) :
        KeepsFrames (thenBlock.elim (pure last) (evaluate calls rounds)) :=
      match thenBlock with
      | some block => keepsFrames_evaluate hcalls rounds block
      | none => .pure last
    have helse (last : AVSValue F D) :
        KeepsFrames (elseBlock.elim (pure last) (evaluate calls rounds)) :=
      match elseBlock with
      | some block => keepsFrames_evaluate hcalls rounds block
      | none => .pure last
    rw [evaluate_blockConditional]
    refine (KeepsFrames.getVarDef "last").bind fun last => (hcond.condition _).bind fun holds => ?_
    refine KeepsFrames.bind ?_ fun result =>
      (KeepsFrames.setLast result).bind fun _ => .pure result
    cases holds with
    | true => exact hthen last
    | false => exact helse last
  | .whileLoop cond body => by
    have hcond := keepsFrames_evaluate hcalls rounds cond
    have hbody : ∀ p ∈ body.map (evaluate calls rounds), KeepsFrames p :=
      match body with
      | some block => by
        rintro p ⟨⟩
        exact keepsFrames_evaluate hcalls rounds block
      | none => nofun
    rw [evaluate_whileLoop]
    exact (KeepsFrames.getVarDef "last").bind fun result =>
      .whileRounds hbody hcond rounds result
  | .forLoop id init limit step body => by
    have hinit := keepsFrames_evaluate hcalls rounds init
    have hlimit := keepsFrames_evaluate hcalls rounds limit
    have hstep := keepsFrames_evaluate hcalls rounds step
    have hbody : ∀ p ∈ body.map (evaluate calls rounds), KeepsFrames p :=
      match body with
      | some block => by
        rintro p ⟨⟩
        exact keepsFrames_evaluate hcalls rounds block
      | none => nofun
    rw [evaluate_forLoop]
    exact .forLoop hbody id hinit hlimit hstep rounds
  | .breakStmt => .raise _
  | .continueStmt => .raise _
  | .conditional cond thenExp elseExp => by
    have hthen := keepsFrames_evaluate hcalls rounds thenExp
    have helse := keepsFrames_evaluate hcalls rounds elseExp
    refine ((keepsFrames_evaluate hcalls rounds cond).condition _).bind fun holds => ?_
    cases holds with
    | true => exact hthen
    | false => exact helse
  | .returnStmt value =>
    (keepsFrames_evaluate hcalls rounds value).bind fun _ => .raise _
  | .or a b => by
    have hb := keepsFrames_evaluate hcalls rounds b
    refine ((keepsFrames_evaluate hcalls rounds a).condition _).bind fun holds => ?_
    cases holds with
    | true => exact .pure _
    | false => exact (hb.condition _).bind fun _ => .pure _
  | .and a b => by
    have hb := keepsFrames_evaluate hcalls rounds b
    refine ((keepsFrames_evaluate hcalls rounds a).condition _).bind fun holds => ?_
    cases holds with
    | true => exact (hb.condition _).bind fun _ => .pure _
    | false => exact .pure _
  | .doublePlus a b => by
    have hb := keepsFrames_evaluate hcalls rounds b
    refine (keepsFrames_evaluate hcalls rounds a).bind fun x => hb.bind fun y => ?_
    split
    · exact .invoke hcalls _ _
    · exact .raiseError _
  | .variableReference name => by
    refine (KeepsFrames.getVarTry name).bind fun found => ?_
    cases found with
    | some result => exact .pure result
    | none =>
      refine (KeepsFrames.invokeTry hcalls name _).bind fun found => ?_
      cases found with
      | some result => exact .pure result
      | none =>
        refine (KeepsFrames.invokeTryLast hcalls name).bind fun found => ?_
        cases found with
        | some result => exact .pure result
        | none =>
          refine (KeepsFrames.getVarTry name).bind fun found => ?_
          cases found with
          | some result => exact .pure result
          | none => exact .raiseError _
  | .assignment lhs rhs withret => by
    refine (keepsFrames_evaluate hcalls rounds rhs).bind fun value =>
      (KeepsFrames.setVar lhs value).bind fun _ => ?_
    cases withret with
    | false => exact .pure _
    | true => exact .readBack hcalls lhs
  | .globalAssignment lhs rhs =>
    (keepsFrames_evaluate hcalls rounds rhs).bind fun value =>
      (KeepsFrames.setGlobalVar lhs value).bind fun _ => .pure _
  | .functionCall name func argNames args oopNotation => by
    have hargs := keepsFrames_evaluateAll hcalls rounds args
    cases name with
    | some name => exact hargs.bind fun values => .call hcalls _ _ _ _ _ _
    | none =>
      refine (keepsFrames_evaluate hcalls rounds func).bind fun value => ?_
      cases value with
      | function ptr =>
        exact KeepsFrames.current.bind fun _ => hargs.bind fun values =>
          .call hcalls _ _ _ _ _ _
      | _ => exact .raiseError _
  | .functionWrapper node name => by
    refine (KeepsFrames.getVarTry name).bind fun found => ?_
    split
    · exact .pure _
    · exact .pure _
  | .legacyFunctionDefinition => .pure _
  | .functionDefinition body paramTypes paramFloats paramNames varNames filename line =>
    (KeepsFrames.captures varNames).bind fun varData =>
      (keeps_newFunction _ : KeepsFrames _)

/-- The same for the arguments of a call. -/
theorem keepsFrames_evaluateAll (hcalls : calls.KeepFrames) (rounds : ℕ) :
    ∀ es : List (Exp F D), KeepsFrames (evaluateAll calls rounds es)
  | [] => .pure _
  | e :: es =>
    (keepsFrames_evaluate hcalls rounds e).bind fun _ =>
      (keepsFrames_evaluateAll hcalls rounds es).bind fun _ => .pure _

end

section Execution

omit [Floating F D] in
theorem keepsFrames_setVars (vars : List (String × AVSValue F D)) :
    KeepsFrames (Eval.setVars vars : Eval F D W Unit) := by
  induction vars with
  | nil => exact .pure ()
  | cons var vars ih => exact (KeepsFrames.setVar var.1 var.2).bind fun _ => ih

theorem keepsFrames_setParameters (paramNames : List String) (paramFloats : List Bool)
    (args : List (AVSValue F D)) :
    KeepsFrames (Eval.setParameters paramNames paramFloats args : Eval F D W Unit) := by
  fun_induction Eval.setParameters paramNames paramFloats args with
  | case1 => exact .pure ()
  | case2 name paramNames isFloat paramFloats arg args ih =>
    exact (KeepsFrames.setVar name _).bind fun _ => ih
  | case3 => exact .diverge

/-- The frame of a call is gone after it, and the frame of the caller is the innermost one
again, as it was. -/
structure SameFrame (env env' : Environment F D W) : Prop where
  stackFrame : env'.vars.stackFrame = env.vars.stackFrame
  below : env.vars.SameBelow env'.vars
  objects : env.objects <+: env'.objects

omit [Floating F D] in
theorem SameFrame.extends {env env' : Environment F D W} (h : SameFrame env env') :
    env.Extends env' := ⟨h.below, h.objects, fun _ hname => by rwa [h.stackFrame]⟩

omit [Floating F D] in
theorem neverRaises_setVars (vars : List (String × AVSValue F D)) :
    NeverRaises (Eval.setVars vars : Eval F D W Unit) := by
  induction vars with
  | nil => exact neverRaises_pure ()
  | cons var vars ih => exact (neverRaises_update _).bind fun _ => ih

/-- The parameters can be set. -/
theorem neverRaises_setParameters (paramNames : List String) (paramFloats : List Bool)
    (args : List (AVSValue F D)) :
    NeverRaises (Eval.setParameters paramNames paramFloats args : Eval F D W Unit) := by
  fun_induction Eval.setParameters paramNames paramFloats args with
  | case1 => exact neverRaises_pure ()
  | case2 name paramNames isFloat paramFloats arg args ih =>
    exact (neverRaises_update _).bind fun _ => ih
  | case3 => exact neverRaises_diverge

/-- The body together with the assignments before it is between the push and the pop. -/
theorem execute_eq (captured : List (String × AVSValue F D)) (paramNames : List String)
    (paramFloats : List Bool) (body : Eval F D W (AVSValue F D)) (args : List (AVSValue F D)) :
    Eval.execute captured paramNames paramFloats body args =
      update push >>= fun _ =>
        (Eval.setVars captured >>= fun _ =>
          Eval.setParameters paramNames paramFloats args >>= fun _ => body).ensuring
            pop := by
  rw [← (neverRaises_setVars captured).bind_ensuring]
  simp only [← (neverRaises_setParameters paramNames paramFloats args).bind_ensuring]
  simp only [Eval.execute, Eval.enterContext, bind_assoc]

/-- A call leaves its caller's variables as they were, but for global ones. -/
theorem keeps_execute (captured : List (String × AVSValue F D)) (paramNames : List String)
    (paramFloats : List Bool) {body : Eval F D W (AVSValue F D)} (hbody : KeepsFrames body)
    (args : List (AVSValue F D)) :
    Keeps SameFrame (Eval.execute captured paramNames paramFloats body args) := by
  have hinner : KeepsFrames (Eval.setVars captured >>= fun _ =>
      Eval.setParameters paramNames paramFloats args >>= fun _ => body) :=
    (keepsFrames_setVars captured).bind fun _ =>
      (keepsFrames_setParameters paramNames paramFloats args).bind fun _ => hbody
  rw [execute_eq]
  intro env result env' h
  obtain ⟨⟨result', inner⟩, hrun, hend⟩ := Option.map_eq_some_iff.mp h
  obtain ⟨rfl, rfl⟩ := Prod.ext_iff.mp hend
  have hextends := hinner env.push result' inner hrun
  have hbelow : VarTable.SameBelow env.vars.push inner.vars := hextends.below
  exact ⟨hbelow.pop.1, hbelow.pop.2, hextends.objects⟩

/-- The body runs in a frame of its own. -/
theorem keepsFrames_execute (captured : List (String × AVSValue F D)) (paramNames : List String)
    (paramFloats : List Bool) {body : Eval F D W (AVSValue F D)} (hbody : KeepsFrames body)
    (args : List (AVSValue F D)) :
    KeepsFrames (Eval.execute captured paramNames paramFloats body args) :=
  (keeps_execute captured paramNames paramFloats hbody args).mono fun _ _ h => h.extends

end Execution

section Natives

variable (natives : Natives F D W) {calls : Calls F D W} (hcalls : calls.KeepFrames) (rounds : ℕ)

include hcalls in
theorem keepsFrames_handle (req : Request F D W) :
    KeepsFrames (Eval.handle calls rounds req) := by
  cases req with
  | getVarTry name => exact .getVarTry name
  | setVar name value => exact (KeepsFrames.setVar name value).bind fun _ => .pure _
  | setGlobalVar name value =>
    exact (KeepsFrames.setGlobalVar name value).bind fun _ => .pure _
  | invokeTry invocation => exact hcalls.invoke invocation
  | addFunction f =>
    have hadd : KeepsFrames (update fun env => env.addFunction f : Eval F D W Unit) :=
      keeps_update fun env => env.extends_addFunction f
    change KeepsFrames (if isValidParameterString f.paramTypes then _ else _)
    split
    · exact hadd.bind fun _ => .pure _
    · exact .raiseError _
  | evaluate exp =>
    exact (keepsFrames_evaluate hcalls rounds exp).bind fun _ => .pure _
  | world act =>
    intro env result env' h
    obtain ⟨-, rfl⟩ := Prod.ext_iff.mp (Option.some.inj h)
    exact .of_vars_eq rfl (List.prefix_refl _)

include hcalls in
/-- A native is a program of requests. -/
theorem keepsFrames_native (native : Native F D W α) :
    KeepsFrames (ofProgram (Eval.handle calls rounds) native) :=
  keeps_ofProgram .refl .trans
    (keepsFrames_handle hcalls rounds) native

include hcalls in
theorem keepsFrames_autoloadPlugins :
    KeepsFrames (Eval.autoloadPlugins natives calls rounds) := by
  have hflags (executed loading : Environment F D W → Bool) :
      KeepsFrames (update fun env => { env with
        autoloadExecuted := executed env, autoloading := loading env } : Eval F D W Unit) :=
    keeps_update fun env => .of_vars_eq rfl (List.prefix_refl _)
  exact (hflags _ _).bind fun _ =>
    (keepsFrames_native hcalls rounds natives.autoload).bind fun _ => hflags _ _

omit [Floating F D] in
theorem keepsFrames_lookupVariable (name : String) (args : List (AVSValue F D))
    (argNames : List (Option String)) :
    KeepsFrames (Eval.lookupVariable name args argNames :
      Eval F D W (String × Option (Function F D × Bool))) := by
  refine (KeepsFrames.getVarTry name).bind fun found => ?_
  split
  · refine KeepsFrames.current.bind fun env => ?_
    split
    · exact .pure _
    · refine (KeepsFrames.ofResult _).bind fun strict => ?_
      cases strict with
      | some strict => exact .pure _
      | none => exact .pure _
    · exact .diverge
  · exact .pure _

omit [Floating F D] in
theorem keepsFrames_lookupLoaded (name : String) (args : List (AVSValue F D))
    (argNames : List (Option String)) :
    KeepsFrames (Eval.lookupLoaded natives name args argNames) := by
  refine (keepsFrames_lookupVariable name args argNames).bind fun ⟨name, found⟩ => ?_
  cases found with
  | some found => exact .pure _
  | none =>
    exact KeepsFrames.current.bind fun env =>
      (KeepsFrames.ofResult _).bind fun _ => .pure _

include hcalls in
/-- A lookup may load the plugins first. -/
theorem keepsFrames_lookup (name : String) (args : List (AVSValue F D))
    (argNames : List (Option String)) :
    KeepsFrames (Eval.lookup natives calls rounds name args argNames) := by
  refine (keepsFrames_lookupLoaded natives name args argNames).bind fun ⟨name, found⟩ => ?_
  cases found with
  | some found => exact .pure _
  | none =>
    refine KeepsFrames.current.bind fun env => ?_
    split
    · exact .pure _
    · exact (keepsFrames_autoloadPlugins natives hcalls rounds).bind fun _ =>
        (keepsFrames_lookupLoaded natives name args argNames).bind fun _ => .pure _

omit [Floating F D] in
theorem keepsFrames_functionExistsLoaded (name : String) :
    KeepsFrames (Eval.functionExistsLoaded natives name) :=
  KeepsFrames.current.bind fun _ => .pure _

include hcalls in
theorem keepsFrames_functionExists (name : String) :
    KeepsFrames (Eval.functionExists natives calls rounds name) := by
  refine (keepsFrames_functionExistsLoaded natives name).bind fun found => ?_
  cases found with
  | true => exact .pure _
  | false =>
    refine KeepsFrames.current.bind fun env => ?_
    split
    · exact .pure _
    · exact (keepsFrames_autoloadPlugins natives hcalls rounds).bind fun _ =>
        keepsFrames_functionExistsLoaded natives name

include hcalls in
/-- The function that was found is applied. -/
theorem keepsFrames_applyFunction (f : Function F D) (args : List (AVSValue F D)) :
    KeepsFrames (Eval.applyFunction natives calls rounds f args) := by
  unfold Eval.applyFunction
  split
  · exact keepsFrames_execute _ _ _ (keepsFrames_evaluate hcalls rounds _) _
  · refine KeepsFrames.current.bind fun env => ?_
    split
    · exact keepsFrames_execute _ _ _ (keepsFrames_evaluate hcalls rounds _) _
    · exact .diverge
  · exact keepsFrames_native hcalls rounds _

include hcalls in
theorem keepsFrames_selectFunction (i : Invocation F D) (name : String)
    (args : List (AVSValue F D)) :
    KeepsFrames (Eval.selectFunction natives calls rounds i name args) := by
  unfold Eval.selectFunction
  split
  · exact (KeepsFrames.ofResult _).bind fun _ => .pure _
  · exact keepsFrames_lookup natives hcalls rounds _ _ _

include hcalls in
theorem keepsFrames_detectFunction (i : Invocation F D) (name : String)
    (args : List (AVSValue F D)) :
    KeepsFrames (Eval.detectFunction natives calls rounds i name args) := by
  have hselect (args : List (AVSValue F D)) :=
    keepsFrames_selectFunction natives hcalls rounds i name args
  refine (hselect args).bind fun found => ?_
  cases found with
  | some found => exact .pure _
  | none =>
    change KeepsFrames (if i.implicitLast.defined then _ else _)
    split
    · exact (hselect _).bind fun _ => .pure _
    · exact .pure _

include hcalls in
/-- A call with all that is tried for it. -/
theorem keepsFrames_invokeFunction (i : Invocation F D) :
    KeepsFrames (Eval.invokeFunction natives calls rounds i) := by
  change KeepsFrames (if (flatten i.args i.argNames).length > maxArgs then _ else _)
  split
  · exact .raiseError _
  · refine (keepsFrames_detectFunction natives hcalls rounds i _ _).bind fun found => ?_
    cases found with
    | none => exact .pure _
    | some found =>
      exact (KeepsFrames.ofResult _).bind fun values =>
        (keepsFrames_applyFunction natives hcalls rounds _ values).bind fun _ =>
          .pure _

/-- Whatever is called keeps the frames below the innermost ones. -/
theorem keepFrames_callsAt (n : ℕ) : (callsAt natives n).KeepFrames := by
  induction n with
  | zero => exact ⟨fun _ => KeepsFrames.diverge, fun _ => KeepsFrames.diverge⟩
  | succ n ih =>
    exact ⟨keepsFrames_invokeFunction natives ih n, keepsFrames_functionExists natives ih n⟩

/-- An evaluation changes variables in the innermost frames only, and a call of a function of the
script not even in the innermost local one, however it ends. -/
theorem evaluation_keepsFrames (n rounds : ℕ) :
    (∀ e : Exp F D, Keeps Extends (evaluate (callsAt natives n) rounds e)) ∧
      ∀ (f : Function F D) (args : List (AVSValue F D)), (∀ k, f.code ≠ .native k) →
        Keeps SameFrame (Eval.applyFunction natives (callsAt natives n) rounds f args) := by
  have hcalls := keepFrames_callsAt natives n
  refine ⟨keepsFrames_evaluate hcalls rounds, fun f args hscript => ?_⟩
  unfold Eval.applyFunction
  split
  · exact keeps_execute _ _ _ (keepsFrames_evaluate hcalls rounds _) args
  · next p hcode =>
    intro env result env' h
    have hcurrent : (current : Eval F D W (Environment F D W)) env = some (.ok env, env) := rfl
    rw [bind_of_ok hcurrent] at h
    cases hobject : env.objects[p]? with
    | some g =>
      simp only [hobject] at h
      exact keeps_execute _ _ _ (keepsFrames_evaluate hcalls rounds _) args env result env' h
    | none =>
      simp only [hobject] at h
      cases h
  · next k hcode => exact absurd hcode (hscript k)

end Natives

end Language

end AviSynth
