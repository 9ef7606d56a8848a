import AviSynth.Language.DefinitionParsing
import AviSynth.Language.VariableFrames

/-!
# Calls of script functions

The body of a script function is evaluated in a context that has the captured variables and
the parameters. They are assigned one after the other, so that of several with one name the
last one counts. An integer for a parameter of type `float` always arrives as a `double`,
because the two branches of the conversion have the type `double` in common.
-/

namespace AviSynth

namespace Language

open Exceptional Eval

variable {F D W : Type} {env : Environment F D W} {names : List String}

/-- A name that is assigned before the body of a function, whether it is declared as `float`,
and the value that is captured or given for it. -/
structure Binding (F D : Type) where
  name : String
  isFloat : Bool
  arg : AVSValue F D

namespace Binding

/-- An integer that a `float` can hold is given for a `float`. -/
def SmallInt (b : Binding F D) : Prop :=
  b.isFloat = true ∧ ∃ value, b.arg.asLong = some value ∧ isWithinIntInFloat32Range value = true

variable [Floating F D]

/-- The value that the name is meant to have: an integer for a `float` arrives as `float` where
that is exact, and as `double` otherwise. -/
def arriving (b : Binding F D) : AVSValue F D :=
  match b.isFloat, b.arg.asLong with
  | true, some value =>
    if isWithinIntInFloat32Range value then .float (Floating.ofIntf D value)
    else .double (Floating.ofInt F value)
  | _, _ => b.arg

/-- The value that is assigned. -/
def stored (b : Binding F D) : AVSValue F D := parameterValue b.isFloat b.arg

theorem stored_eq_arriving_iff (b : Binding F D) : b.stored = b.arriving ↔ ¬b.SmallInt := by
  unfold stored arriving parameterValue SmallInt
  cases hfloat : b.isFloat with
  | false => simp
  | true =>
    cases hlong : b.arg.asLong with
    | none => simp
    | some value =>
      cases hsmall : isWithinIntInFloat32Range value with
      | true => simp [hsmall]
      | false => simp [hsmall]

/-- The binding that counts for a name: the last one of several. -/
def lastFor (name : String) : List (Binding F D) → Option (Binding F D)
  | [] => none
  | b :: bs => (lastFor name bs).or (if b.name.toLower = name.toLower then some b else none)

omit [Floating F D] in
theorem lastFor_congr {name name' : String} (h : name.toLower = name'.toLower)
    (bs : List (Binding F D)) : lastFor name bs = lastFor name' bs := by
  induction bs with
  | nil => rfl
  | cons b bs ih => simp only [lastFor, ih, h]

omit [Floating F D] in
theorem lastFor_eq_none_iff {name : String} {bs : List (Binding F D)} :
    lastFor name bs = none ↔ ∀ b ∈ bs, b.name.toLower ≠ name.toLower := by
  induction bs with
  | nil => simp [lastFor]
  | cons b bs ih =>
    simp only [lastFor, Option.or_eq_none_iff, ih, List.forall_mem_cons]
    constructor
    · rintro ⟨hrest, hfirst⟩
      exact ⟨by simpa using hfirst, hrest⟩
    · rintro ⟨hfirst, hrest⟩
      exact ⟨hrest, by simpa using hfirst⟩

omit [Floating F D] in
theorem lastFor_eq_some {name : String} {bs : List (Binding F D)} {b : Binding F D}
    (h : lastFor name bs = some b) : ∃ before after, bs = before ++ b :: after ∧
      b.name.toLower = name.toLower ∧ ∀ c ∈ after, c.name.toLower ≠ name.toLower := by
  induction bs with
  | nil => simp [lastFor] at h
  | cons c bs ih =>
    unfold lastFor at h
    cases hrest : lastFor name bs with
    | some b' =>
      rw [hrest, Option.some_or] at h
      obtain rfl := Option.some.inj h
      obtain ⟨before, after, rfl, hname, hafter⟩ := ih hrest
      exact ⟨c :: before, after, rfl, hname, hafter⟩
    | none =>
      rw [hrest, Option.none_or] at h
      split at h
      · next hname =>
        obtain rfl := Option.some.inj h
        exact ⟨[], bs, rfl, hname, lastFor_eq_none_iff.mp hrest⟩
      · simp at h

omit [Floating F D] in
theorem lastFor_append_cons {name : String} (before : List (Binding F D)) {b : Binding F D}
    {after : List (Binding F D)} (hname : b.name.toLower = name.toLower)
    (hafter : ∀ c ∈ after, c.name.toLower ≠ name.toLower) :
    lastFor name (before ++ b :: after) = some b := by
  induction before with
  | nil => simp [lastFor, lastFor_eq_none_iff.mpr hafter, hname]
  | cons c before ih => simp [lastFor, ih]

/-- Every name ends up with the value it is meant to have. -/
def AllArrive (bs : List (Binding F D)) : Prop :=
  ∀ b ∈ bs, (lastFor b.name bs).map stored = some b.arriving

/-- The bindings of one name have the same value, and the last one of them is not a small
integer for a `float`. -/
structure Agree (bs : List (Binding F D)) : Prop where
  same : ∀ b ∈ bs, ∀ c ∈ bs, b.name.toLower = c.name.toLower → b.arriving = c.arriving
  noSmallInt : ∀ before b after, bs = before ++ b :: after →
    (∀ c ∈ after, c.name.toLower ≠ b.name.toLower) → ¬b.SmallInt

/-- All values arrive if and only if the bindings agree. -/
theorem allArrive_iff_agree (bs : List (Binding F D)) : AllArrive bs ↔ Agree bs := by
  constructor
  · intro h
    constructor
    · intro b hb c hc hname
      have hvalue := h b hb
      rw [lastFor_congr hname, h c hc] at hvalue
      exact (Option.some.inj hvalue).symm
    · rintro before b after rfl hafter
      have hvalue := h b (List.mem_append_right _ List.mem_cons_self)
      rw [lastFor_append_cons before rfl hafter] at hvalue
      exact b.stored_eq_arriving_iff.mp (Option.some.inj hvalue)
  · intro h b hb
    cases hlast : lastFor b.name bs with
    | none => exact absurd rfl (lastFor_eq_none_iff.mp hlast b hb)
    | some c =>
      obtain ⟨before, after, rfl, hname, hafter⟩ := lastFor_eq_some hlast
      have hc : c ∈ before ++ c :: after := List.mem_append_right _ List.mem_cons_self
      rw [← hname] at hafter
      have hstored := c.stored_eq_arriving_iff.mpr (h.noSmallInt before c after rfl hafter)
      rw [Option.map_some, hstored, h.same c hc b hb hname]

end Binding

section Execution

variable [Floating F D]

/-- The assignments of some bindings, one after the other. -/
def assign (bs : List (Binding F D)) (env : Environment F D W) : Environment F D W :=
  bs.foldl (fun env b => env.setVar b.name b.stored) env

theorem assign_get (bs : List (Binding F D)) (env : Environment F D W) (name : String) :
    (assign bs env).vars.stackFrame.get name =
      ((Binding.lastFor name bs).map Binding.stored).or (env.vars.stackFrame.get name) := by
  induction bs generalizing env with
  | nil => rfl
  | cons b bs ih =>
    change (assign bs (env.setVar b.name b.stored)).vars.stackFrame.get name = _
    rw [ih, Binding.lastFor]
    cases Binding.lastFor name bs with
    | some c => simp
    | none =>
      by_cases hname : b.name.toLower = name.toLower
      · have hset : (env.setVar b.name b.stored).vars.stackFrame.get name = some b.stored := by
          simp [Environment.setVar, VarTable.set, VarFrame.get, VarFrame.set, hname]
        rw [hset]
        simp [hname]
      · have hset : (env.setVar b.name b.stored).vars.stackFrame.get name =
            env.vars.stackFrame.get name := VarFrame.get_set_ne _ _ (Ne.symm hname)
        rw [hset]
        simp [hname]

/-- The assignments touch the innermost local frame only. -/
theorem assign_frames (bs : List (Binding F D)) (env : Environment F D W) :
    (assign bs env).vars = { env.vars with stackFrame := (assign bs env).vars.stackFrame } := by
  induction bs generalizing env with
  | nil => rfl
  | cons b bs ih => exact ih (env.setVar b.name b.stored)

/-- The bindings of captured variables. -/
def capturedBindings (vars : List (String × AVSValue F D)) : List (Binding F D) :=
  vars.map fun var => ⟨var.1, false, var.2⟩

/-- The bindings of the parameters. -/
def argumentBindings (ds : List Declaration) (values : List (AVSValue F D)) :
    List (Binding F D) :=
  List.zipWith (fun d value => ⟨d.name, d.isFloat, value⟩) ds values

theorem setVars_run (vars : List (String × AVSValue F D)) (env : Environment F D W) :
    setVars vars env = some (.ok (), assign (capturedBindings vars) env) := by
  induction vars generalizing env with
  | nil => rfl
  | cons var vars ih => exact ih (env.setVar var.1 var.2)

theorem setParameters_run {ds : List Declaration} {values : List (AVSValue F D)}
    (h : values.length = ds.length) (env : Environment F D W) :
    setParameters (ds.map Declaration.name) (ds.map Declaration.isFloat) values env =
      some (.ok (), assign (argumentBindings ds values) env) := by
  induction ds generalizing values env with
  | nil =>
    obtain rfl := List.length_eq_zero_iff.mp h
    rfl
  | cons d ds ih =>
    cases values with
    | nil => simp at h
    | cons value values => exact ih (Nat.succ.inj h) _

/-- With a value for each parameter the context of a body has the captured variables and the
parameters. -/
theorem enterContext_run {captured : List (String × AVSValue F D)} {ds : List Declaration}
    {values : List (AVSValue F D)} (h : values.length = ds.length) (env : Environment F D W) :
    enterContext captured (ds.map Declaration.name) (ds.map Declaration.isFloat) values env =
      some (.ok (), assign (capturedBindings captured ++ argumentBindings ds values)
        env.push) := by
  have hpush : (update Environment.push : Eval F D W Unit) env = some (.ok (), env.push) := rfl
  have happend : assign (capturedBindings captured ++ argumentBindings ds values) env.push =
      assign (argumentBindings ds values) (assign (capturedBindings captured) env.push) :=
    List.foldl_append
  rw [happend]
  exact (bind_of_ok hpush).trans
    ((bind_of_ok (setVars_run captured env.push)).trans (setParameters_run h _))

end Execution

/-- The values that a definition captures are those of the variables at its time. -/
theorem captures_eq_ok {data : List (AVSValue F D)} {env env' : Environment F D W}
    (h : captures names env = some (.ok data, env')) :
    env' = env ∧ names.map env.vars.get = data.map some := by
  induction names generalizing data with
  | nil =>
    obtain ⟨rfl, rfl⟩ := pure_eq_ok.mp h
    exact ⟨rfl, rfl⟩
  | cons name names ih =>
    obtain ⟨found, env1, hget, hrest⟩ := bind_eq_ok.mp h
    obtain ⟨rfl, rfl⟩ : env.vars.get name = found ∧ env = env1 := by
      simpa [getVarTry] using hget
    cases hfound : env.vars.get name with
    | none =>
      rw [hfound] at hrest
      simp [Eval.raiseError, raise] at hrest
    | some value =>
      rw [hfound] at hrest
      obtain ⟨more, env2, hmore, hend⟩ := bind_eq_ok.mp hrest
      obtain ⟨rfl, rfl⟩ := pure_eq_ok.mp hend
      obtain ⟨rfl, hdata⟩ := ih hmore
      exact ⟨rfl, by simp [hfound, hdata]⟩

/-- The captured variables with their values in an environment. -/
def captured (names : List String) (env : Environment F D W) : List (String × AVSValue F D) :=
  names.filterMap fun name => (env.vars.get name).map fun value => (name, value)

theorem zip_eq_captured {data : List (AVSValue F D)}
    (h : names.map env.vars.get = data.map some) :
    names.zip data = captured names env := by
  induction names generalizing data with
  | nil => rfl
  | cons name names ih =>
    cases data with
    | nil => simp at h
    | cons value data =>
      obtain ⟨hvalue, hrest⟩ := List.cons.inj h
      simp only [List.zip_cons_cons, captured, List.filterMap_cons, hvalue, Option.map_some]
      exact congrArg _ (ih hrest)

/-- The function that a definition makes: the registered one, or the object that is the value
of the definition. -/
inductive Definition.IsFunction (d : Definition F D) (value : AVSValue F D) :
    Function F D → Prop where
  | legacy {name : String} (hname : d.name = some name) : IsFunction d value (d.function name)
  | object {p : ℕ} (hname : d.name = none) (hvalue : value = .function (.object p)) :
      IsFunction d value ⟨none, none, d.paramTypes, .object p⟩

/-- Everything that is assigned before the body in a call: what was captured when the function
was defined, and the values of the parameters. -/
def Definition.bindings (d : Definition F D) (defined : Environment F D W)
    (values : List (AVSValue F D)) : List (Binding F D) :=
  capturedBindings (captured d.varNames defined) ++ argumentBindings d.parameters values

variable [Floating F D]

section Call

variable (natives : Natives F D W) (n : ℕ) {f : Function F D}

/-- `Invoke_` finds the function for a call and packs the values of its parameters; `found` is
the environment after the search. -/
structure Accepts (i : Invocation F D) (env : Environment F D W) (f : Function F D)
    (values : List (AVSValue F D)) (found : Environment F D W) : Prop where
  count : (flatten i.args i.argNames).length ≤ maxArgs
  packed : ∃ strict args, detectFunction natives (callsAt natives n) n i
      (i.name.getD "<anonymous function>") (flatten i.args i.argNames) env =
        some (.ok (some (f, strict, args)), found) ∧
    packArgs (i.name.getD "<anonymous function>") f.paramTypes strict args
      (namedArgs i.args i.argNames) = .ok values

/-- An accepted call applies the function to the packed values. -/
theorem Accepts.invoke {natives : Natives F D W} {n : ℕ} {i : Invocation F D}
    {env found : Environment F D W} {values : List (AVSValue F D)}
    (h : Accepts natives n i env f values found) :
    (callsAt natives (n + 1)).invoke i env =
      (applyFunction natives (callsAt natives n) n f values >>= fun value =>
        pure (some value)) found := by
  obtain ⟨strict, args, hdetect, hpack⟩ := h.packed
  have hcount : ¬(flatten i.args i.argNames).length > maxArgs := Nat.not_lt.mpr h.count
  have hvalues : (ofResult (packArgs (i.name.getD "<anonymous function>") f.paramTypes strict args
      (namedArgs i.args i.argNames)) : Eval F D W _) found = some (.ok values, found) := by
    rw [hpack]
    rfl
  change (if (flatten i.args i.argNames).length > maxArgs then raiseError _
    else detectFunction natives (callsAt natives n) n i _ (flatten i.args i.argNames) >>= _ :
      Eval F D W (Option (AVSValue F D))) env = _
  rw [if_neg hcount]
  exact (bind_of_ok hdetect).trans (bind_of_ok hvalues)

/-- The body of a call begins in a context of its own, in which there is nothing but the
captured variables, with their values at the definition, and the parameters. -/
structure FreshContext (d : Definition F D) (defined : Environment F D W)
    (values : List (AVSValue F D)) (found inner : Environment F D W) : Prop where
  pushed : inner.vars.outerFrames = found.vars.stackFrame :: found.vars.outerFrames
  globals : inner.vars.globalFrames = found.vars.globalFrames ∧
    inner.vars.topFrame = found.vars.topFrame
  only : ∀ name, inner.vars.stackFrame.get name ≠ none →
    ∃ known ∈ d.varNames ++ d.paramNames, known.toLower = name.toLower
  captured : ∀ name ∈ d.varNames, inner.vars.stackFrame.get name = defined.vars.get name
  parameters : ∀ b ∈ argumentBindings d.parameters values,
    inner.vars.stackFrame.get b.name = some b.arriving

/-- The signature has one item for each parameter and fits its buffer, the body of the call
begins in a fresh context, and when it is done the caller's variables are what they were. -/
structure CallMeets (d : Definition F D) (defined : Environment F D W) (i : Invocation F D)
    (env : Environment F D W) (values : List (AVSValue F D)) (found : Environment F D W) :
    Prop where
  items : isValidParameterString d.paramTypes = true ∧
    itemCount .start d.paramTypes.toList = d.parameters.length
  fits : d.paramTypes.length < 4096
  body : values.length = d.parameters.length ∧
    ∃ inner, enterContext (captured d.varNames defined) d.paramNames d.paramFloats values found =
        some (.ok (), inner) ∧ FreshContext d defined values found inner ∧
      (callsAt natives (n + 1)).invoke i env =
        (evaluate (callsAt natives n) n d.body inner).map fun ended =>
          (ended.1.map some, ended.2.pop)
  restored : ∀ result env', (callsAt natives (n + 1)).invoke i env = some (result, env') →
    SameFrame found env'

/-- No quoted name has a closing bracket, and the values for one name agree. -/
structure Definition.Clear (d : Definition F D) (defined : Environment F D W)
    (values : List (AVSValue F D)) : Prop where
  plain : ∀ p ∈ d.parameters, p.Plain
  agree : Binding.Agree (d.bindings defined values)

variable {natives n} {d : Definition F D} {defined found : Environment F D W}
  {values : List (AVSValue F D)}

omit [Floating F D] in
theorem mem_capturedBindings {b : Binding F D} :
    b ∈ capturedBindings (captured names env) ↔
      ∃ name ∈ names, ∃ value, env.vars.get name = some value ∧ b = ⟨name, false, value⟩ := by
  simp only [capturedBindings, captured, List.mem_map, List.mem_filterMap, Option.map_eq_some_iff]
  constructor
  · rintro ⟨var, ⟨name, hname, value, hvalue, rfl⟩, rfl⟩
    exact ⟨name, hname, value, hvalue, rfl⟩
  · rintro ⟨name, hname, value, hvalue, rfl⟩
    exact ⟨(name, value), ⟨name, hname, value, hvalue, rfl⟩, rfl⟩

omit [Floating F D] in
theorem name_mem_of_argumentBindings {ds : List Declaration} {values : List (AVSValue F D)}
    {b : Binding F D} (h : b ∈ argumentBindings ds values) : b.name ∈ ds.map Declaration.name := by
  induction ds generalizing values with
  | nil => simp [argumentBindings] at h
  | cons d ds ih =>
    cases values with
    | nil => simp [argumentBindings] at h
    | cons value values =>
      obtain rfl | hrest := List.mem_cons.mp h
      · exact List.mem_cons_self
      · exact List.mem_cons_of_mem _ (ih hrest)

/-- The context is what it is meant to be if and only if all values arrive. -/
theorem freshContext_iff (hcaptured : ∀ name ∈ d.varNames, (defined.vars.get name).isSome) :
    FreshContext d defined values found
        (assign (d.bindings defined values) found.push) ↔
      Binding.AllArrive (d.bindings defined values) := by
  have hget (name : String) :
      (assign (d.bindings defined values) found.push).vars.stackFrame.get name =
        (Binding.lastFor name (d.bindings defined values)).map Binding.stored := by
    have hempty : found.push.vars.stackFrame.get name = none := rfl
    rw [assign_get, hempty, Option.or_none]
  have hframes := assign_frames (d.bindings defined values) found.push
  constructor
  · intro h b hb
    rw [← hget]
    obtain hvar | harg := List.mem_append.mp hb
    · obtain ⟨name, hname, value, hvalue, rfl⟩ := mem_capturedBindings.mp hvar
      exact (h.captured name hname).trans hvalue
    · exact h.parameters b harg
  · intro h
    constructor
    · rw [hframes]
      rfl
    · rw [hframes]
      exact ⟨rfl, rfl⟩
    · intro name hname
      rw [hget] at hname
      cases hlast : Binding.lastFor name (d.bindings defined values) with
      | none =>
        rw [hlast] at hname
        exact absurd rfl hname
      | some b =>
        obtain ⟨before, after, heq, hsame, -⟩ := Binding.lastFor_eq_some hlast
        have hb : b ∈ d.bindings defined values := by
          rw [heq]
          exact List.mem_append_right _ List.mem_cons_self
        refine ⟨b.name, ?_, hsame⟩
        obtain hvar | harg := List.mem_append.mp hb
        · obtain ⟨known, hknown, value, -, rfl⟩ := mem_capturedBindings.mp hvar
          exact List.mem_append_left _ hknown
        · exact List.mem_append_right _ (name_mem_of_argumentBindings harg)
    · intro name hname
      obtain ⟨value, hvalue⟩ := Option.isSome_iff_exists.mp (hcaptured name hname)
      have hb : (⟨name, false, value⟩ : Binding F D) ∈ d.bindings defined values :=
        List.mem_append_left _ (mem_capturedBindings.mpr ⟨name, hname, value, hvalue, rfl⟩)
      rw [hget, hvalue]
      exact h _ hb
    · intro b hb
      rw [hget]
      exact h b (List.mem_append_right _ hb)

/-- A call applies the function that the definition has made: it executes the body with the
values that were captured. -/
theorem applyFunction_of_isFunction {s' : ParserState F D} {exp : Exp F D}
    (hmakes : d.Makes s' exp) {calls' : Calls F D W} {loops : ℕ} {value : AVSValue F D}
    {defined' : Environment F D W}
    (hdefined : evaluate calls' loops exp defined = some (.ok value, defined'))
    (hf : d.IsFunction value f) (hlater : defined'.objects <+: found.objects) :
    f.paramTypes = d.paramTypes ∧ (∀ name ∈ d.varNames, (defined.vars.get name).isSome) ∧
      applyFunction natives (callsAt natives n) n f values found =
        execute (captured d.varNames defined) d.paramNames d.paramFloats
          (evaluate (callsAt natives n) n d.body) values found := by
  cases hmakes with
  | legacy hname hvars hfunctions =>
    cases hf with
    | legacy hname' =>
      rw [hvars]
      exact ⟨rfl, by simp, rfl⟩
    | object hname' hvalue => exact absurd (hname.symm.trans hname') (Option.some_ne_none _)
  | @anonymous filename line hname =>
    cases hf with
    | legacy hname' => exact absurd (hname'.symm.trans hname) (Option.some_ne_none _)
    | @object p hname' hvalue =>
      obtain ⟨data, env1, hcaptures, hend⟩ := bind_eq_ok.mp hdefined
      obtain ⟨rfl, hdata⟩ := captures_eq_ok hcaptures
      obtain ⟨hnew, rfl⟩ := Prod.mk.inj (Option.some.inj hend)
      obtain ⟨rfl⟩ : AVSValue.function (.object env1.objects.length) = .function (.object p) :=
        (Except.ok.inj hnew).trans hvalue
      obtain ⟨later, hobjects⟩ := hlater
      refine ⟨rfl, ?_, ?_⟩
      · intro name hname
        have hmem := List.mem_map_of_mem (f := env1.vars.get) hname
        rw [hdata] at hmem
        obtain ⟨v, -, hv⟩ := List.mem_map.mp hmem
        rw [← hv]
        rfl
      · have hfound : found.objects[env1.objects.length]? = some ⟨d.body, d.paramTypes,
            d.paramFloats, d.paramNames, d.varNames, data, filename, line⟩ := by
          rw [← hobjects]
          simp
        rw [← zip_eq_captured hdata]
        refine (bind_of_ok (t := found) (a := found) rfl).trans ?_
        rw [hfound]

/-- A call of a function that a definition has made meets everything if and only if the
definition and the values are clear. -/
theorem callMeets_iff_clear {s' : ParserState F D} {exp : Exp F D} (hmakes : d.Makes s' exp)
    (hfits : (signature d.parameters).length < 4096) {calls' : Calls F D W} {loops : ℕ}
    {value : AVSValue F D} {defined' : Environment F D W}
    (hdefined : evaluate calls' loops exp defined = some (.ok value, defined'))
    (hf : d.IsFunction value f) (hlater : defined'.objects <+: found.objects)
    {i : Invocation F D} (haccepts : Accepts natives n i env f values found) :
    CallMeets natives n d defined i env values found ↔ d.Clear defined values := by
  have happly : f.paramTypes = d.paramTypes ∧
      (∀ name ∈ d.varNames, (defined.vars.get name).isSome) ∧
        applyFunction natives (callsAt natives n) n f values found =
          execute (captured d.varNames defined) d.paramNames d.paramFloats
            (evaluate (callsAt natives n) n d.body) values found :=
    applyFunction_of_isFunction hmakes hdefined hf hlater
  obtain ⟨htypes, hcaptured, hrun⟩ := happly
  have hinvoke : (callsAt natives (n + 1)).invoke i env =
      ((execute (captured d.varNames defined) d.paramNames d.paramFloats
        (evaluate (callsAt natives n) n d.body) values) found).map fun ended =>
          (ended.1.map some, ended.2) := by
    rw [haccepts.invoke, ← hrun]
    exact bind_pure_eq_map _ _ _
  have hitems := signature_items_iff d.parameters
  have hstring : d.paramTypes.toList = signature d.parameters := String.toList_ofList
  constructor
  · intro h
    have hitem := h.items
    rw [hstring] at hitem
    obtain ⟨hlength, inner, henter, hfresh, -⟩ := h.body
    have henter' := (enterContext_run hlength found).symm.trans henter
    obtain ⟨-, rfl⟩ := Prod.ext_iff.mp (Option.some.inj henter')
    refine ⟨hitems.mp hitem, ?_⟩
    rw [← Binding.allArrive_iff_agree]
    exact (freshContext_iff hcaptured).mp hfresh
  · intro h
    obtain ⟨strict, args, -, hpack⟩ := haccepts.packed
    rw [htypes] at hpack
    have hlength := packArgs_length h.plain hpack
    have henter : enterContext (captured d.varNames defined) d.paramNames d.paramFloats values
        found = some (.ok (), _) := enterContext_run hlength found
    constructor
    · rw [hstring]
      exact hitems.mpr h.plain
    · exact (String.length_ofList).trans_lt hfits
    · refine ⟨hlength, _, henter, ?_, ?_⟩
      · exact (freshContext_iff hcaptured).mpr (Binding.allArrive_iff_agree _ |>.mpr h.agree)
      · rw [hinvoke]
        have hexecute : execute (captured d.varNames defined) d.paramNames d.paramFloats
            (evaluate (callsAt natives n) n d.body) values found = _ := bind_of_ok henter
        rw [hexecute]
        exact Option.map_map _ _ _
    · intro result env' hcall
      rw [hinvoke] at hcall
      obtain ⟨⟨result', env''⟩, hexecute, hend⟩ := Option.map_eq_some_iff.mp hcall
      obtain rfl : env'' = env' := (Prod.ext_iff.mp hend).2
      exact keeps_execute _ _ _ (keepsFrames_evaluate (keepFrames_callsAt natives n) n d.body) _
        found result' env'' hexecute

end Call

/-- For a definition that the parser accepts there are the declared names and parameters that
its tokens spell. Every call that `Invoke_` accepts of the function that it makes has a
signature with an item for each parameter, begins its body in a fresh context with the
captured values and the arguments, and restores the variables, if and only if no quoted name
has a closing bracket and the values for each name agree. -/
theorem functionDefinition_meets_iff (natives : Natives F D W) {knot : Knot F D}
    {source : Source} {rounds : ℕ} {s s' : ParserState F D} {exp : Exp F D}
    (hparse : ScriptParser.parseFunctionDefinition knot source rounds s =
      some (.ok exp, s')) :
    ∃ (d : Definition F D) (head rest : List (Token D)), d.Spelled head ∧
      s.tokens = head ++ rest ∧ d.Makes s' exp ∧
      ∀ {calls : Calls F D W} {loops n : ℕ} {defined defined' env found : Environment F D W}
        {value : AVSValue F D} {f : Function F D} {i : Invocation F D}
        {values : List (AVSValue F D)},
        evaluate calls loops exp defined = some (.ok value, defined') → d.IsFunction value f →
        defined'.objects <+: found.objects → Accepts natives n i env f values found →
        (CallMeets natives n d defined i env values found ↔ d.Clear defined values) := by
  obtain ⟨d, head, rest, hspelled, htokens, hmakes, -, -, hfits⟩ :=
    ScriptParser.parseFunctionDefinition_eq_ok hparse
  refine ⟨d, head, rest, hspelled, htokens, hmakes, ?_⟩
  intro calls loops n defined defined' env found value f i values hdefined hf hlater haccepts
  exact callMeets_iff_clear hmakes hfits hdefined hf hlater haccepts

omit [Floating F D] in
theorem Definition.Makes.of_functionDefinition {d : Definition F D} {s' : ParserState F D}
    {body : Exp F D} {paramTypes : String} {paramFloats : List Bool}
    {paramNames varNames : List String} {filename : Option String} {line : ℕ}
    (h : d.Makes s'
      (.functionDefinition body paramTypes paramFloats paramNames varNames filename line)) :
    d.name = none ∧ d.paramTypes = paramTypes := by
  cases h with
  | anonymous hname => exact ⟨hname, rfl⟩

/-- The text of a definition without a file. -/
def plainSource : Source := ⟨none, fun _ => 1, fun _ => 1⟩

/-- The tokens of an anonymous function with an empty body, behind the keyword. -/
def emptyDefinition (params : List (Token Float)) : ParserState Float32 Float where
  tokens := .operator (.single '(') :: params ++ [.operator (.single ')'),
    .operator (.single '\x7b'), .operator (.single '\x7d')]
  loopDepth := 0
  nodes := 0
  functions := []

/-- The state behind such a definition. -/
def parsedState : ParserState Float32 Float := ⟨[], 0, 0, []⟩

/-- Such a definition with one parameter. -/
def emptyFunction (d : Declaration) : Definition Float32 Float where
  name := none
  varNames := []
  parameters := [d]
  body := .rootBlock (.constant .undefined)

/-- Its expression. -/
def emptyFunctionExp (d : Declaration) : Exp Float32 Float :=
  .functionDefinition (emptyFunction d).body (emptyFunction d).paramTypes
    (emptyFunction d).paramFloats (emptyFunction d).paramNames [] none 1

/-- An environment in which the definition has been evaluated. -/
def definedEnvironment (d : Declaration) : Environment Float32 Float Unit :=
  { emptyEnvironment with
    objects := [⟨(emptyFunction d).body, (emptyFunction d).paramTypes,
      (emptyFunction d).paramFloats, (emptyFunction d).paramNames, [], [], none, 1⟩] }

/-- A call of the first function object with the argument 1. -/
def callWithOne (paramTypes : String) : Invocation Float32 Float :=
  ⟨.undefined, none, some ⟨none, none, paramTypes, .object 0⟩, .array [.int 1], []⟩

/-- Natives without functions. -/
def noNatives : Natives Float32 Float Unit where
  builtinFunctions := []
  apply _ _ := .finish (.ok .undefined)
  autoload := .finish (.ok ())

/-- The tokens of `function[y](int x) { return x + y }` behind the keyword. -/
def addingTokens : List (Token Float) :=
  [.operator (.single '['), .identifier "y", .operator (.single ']'), .operator (.single '('),
    .identifier "int", .identifier "x", .operator (.single ')'), .operator (.single '\x7b'),
    .identifier "return", .identifier "x", .operator (.single '+'), .identifier "y",
    .operator (.single '\x7d')]

/-- An environment in which `y` is 7. -/
def sevenEnvironment : Environment Float32 Float Unit := emptyEnvironment.setVar "y" (.int 7)

/-- The same with the function that has captured `y`. -/
def addingEnvironment (body : Exp Float32 Float) : Environment Float32 Float Unit :=
  { sevenEnvironment with
    objects := [⟨body, "i", [false], ["x"], ["y"], [.int 7], none, 1⟩] }

/-- A call of `function[y](int x) { return x + y }`. -/
theorem functionDefinition_meets_captured :
    ∃ (d : Definition Float32 Float) (body : Exp Float32 Float) (s' : ParserState Float32 Float),
      d.Makes s' (.functionDefinition body "i" [false] ["x"] ["y"] none 1) ∧
        (CallMeets noNatives 0 d sevenEnvironment (callWithOne d.paramTypes)
            (addingEnvironment body) [.int 1] (addingEnvironment body) ↔
          d.Clear sevenEnvironment [.int 1]) := by
  obtain ⟨body, s', hparse⟩ : ∃ body s',
      ScriptParser.parseFunctionDefinition (ScriptParser.level plainSource 9) plainSource 25
        (⟨addingTokens, 0, 0, []⟩ : ParserState Float32 Float) =
          some (.ok (.functionDefinition body "i" [false] ["x"] ["y"] none 1), s') :=
    ⟨_, _, by with_unfolding_all rfl⟩
  obtain ⟨d, head, rest, -, -, hmakes, hcall⟩ := functionDefinition_meets_iff noNatives hparse
  obtain ⟨hname, htypes⟩ := hmakes.of_functionDefinition
  refine ⟨d, body, s', hmakes, ?_⟩
  have hdefined : evaluate Calls.none 0 (.functionDefinition body "i" [false] ["x"] ["y"] none 1)
      sevenEnvironment = some (.ok (.function (.object 0)), addingEnvironment body) := by
    with_unfolding_all rfl
  have haccepts : Accepts noNatives 0 (callWithOne "i") (addingEnvironment body)
      ⟨none, none, "i", .object 0⟩ [.int 1] (addingEnvironment body) := by
    constructor
    · decide
    · exact ⟨true, [.int 1], rfl, rfl⟩
  rw [← htypes] at haccepts
  exact hcall hdefined (.object hname rfl) (List.prefix_refl _) haccepts

/-- The call of `function(float x) { }` with 1 is accepted, but 1 does not arrive as a
`float`. -/
theorem functionDefinition_misses_float :
    ScriptParser.parseFunctionDefinition (ScriptParser.level plainSource 2) plainSource 5
        (emptyDefinition [.identifier "float", .identifier "x"]) =
      some (.ok (emptyFunctionExp ⟨some "float", "x", false⟩), parsedState) ∧
    evaluate Calls.none 0 (emptyFunctionExp ⟨some "float", "x", false⟩) emptyEnvironment =
      some (.ok (.function (.object 0)), definedEnvironment ⟨some "float", "x", false⟩) ∧
    Accepts noNatives 0 (callWithOne "f") (definedEnvironment ⟨some "float", "x", false⟩)
      ⟨none, none, "f", .object 0⟩ [.int 1] (definedEnvironment ⟨some "float", "x", false⟩) ∧
    ¬CallMeets noNatives 0 (emptyFunction ⟨some "float", "x", false⟩) emptyEnvironment
      (callWithOne "f") (definedEnvironment ⟨some "float", "x", false⟩) [.int 1]
      (definedEnvironment ⟨some "float", "x", false⟩) := by
  have hdefined : evaluate Calls.none 0 (emptyFunctionExp ⟨some "float", "x", false⟩)
      emptyEnvironment =
        some (.ok (.function (.object 0)), definedEnvironment ⟨some "float", "x", false⟩) := rfl
  have haccepts : Accepts noNatives 0 (callWithOne "f")
      (definedEnvironment ⟨some "float", "x", false⟩) ⟨none, none, "f", .object 0⟩ [.int 1]
      (definedEnvironment ⟨some "float", "x", false⟩) := by
    constructor
    · decide
    · exact ⟨false, [.int 1], by with_unfolding_all rfl, by with_unfolding_all rfl⟩
  refine ⟨by with_unfolding_all rfl, hdefined, haccepts, fun hmeets => ?_⟩
  have htypes : (emptyFunction ⟨some "float", "x", false⟩).paramTypes = "f" := by decide +kernel
  have hmakes : (emptyFunction ⟨some "float", "x", false⟩).Makes parsedState
      (emptyFunctionExp ⟨some "float", "x", false⟩) := .anonymous rfl
  have hf : (emptyFunction ⟨some "float", "x", false⟩).IsFunction
      (.function (.object 0) : AVSValue Float32 Float) ⟨none, none, "f", .object 0⟩ := by
    rw [← htypes]
    exact .object rfl rfl
  have hfits : (signature (emptyFunction ⟨some "float", "x", false⟩).parameters).length < 4096 := by
    decide +kernel
  have hclear := (callMeets_iff_clear hmakes hfits hdefined hf (List.prefix_refl _) haccepts).mp
    hmeets
  refine hclear.agree.noSmallInt [] _ [] rfl nofun ⟨?_, 1, rfl, by decide⟩
  decide +kernel

end Language

end AviSynth
