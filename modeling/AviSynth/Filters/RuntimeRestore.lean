import AviSynth.Filters.RuntimeVariables

/-!
# Runs of the runtime filters

Every request keeps the frames below the one it is made in, and making a frame also
keeps the variables `last` and `current_frame`, by induction on the depth of the
requests. A run in which no exception leaves a runtime filter between setting and
restoring the variables has restored them in all calls.
-/

namespace AviSynth

open Exceptional ScriptWork

namespace RuntimeWorld

variable (world : RuntimeWorld)

/-- What is known of the answers to requests when the requests in them are answered
alike. -/
structure Handled (handle : RuntimeRequest → Runtime ScriptValue) : Prop where
  script : ∀ request, Keeps ScriptWork (handle request)
  frame : ∀ request, Keeps FrameWork (handle (.filter request))

/-- A caught error changes nothing more. -/
theorem keeps_catchingError {α : Type} {p : Runtime α} (h : Keeps ScriptWork p) :
    Keeps ScriptWork (catchingError p) := by
  apply Keeps.catching trans
  · exact h.bind trans fun _ => keeps_pure refl _
  · intro e
    cases e with
    | avisynthError msg => exact keeps_pure refl _
    | notFound => exact keeps_raise refl _
    | other => exact keeps_raise refl _

theorem keeps_outside : Keeps FrameWork world.outside := by
  intro s result t h
  simp only [outside, Option.some.injEq, Prod.mk.injEq] at h
  rw [← h.2]
  exact RuntimeAccounted.of_vars rfl (VarTable.SameBelow.refl _) (KeepsWatched.refl _)

/-- A text is drawn on a frame. -/
theorem keeps_drawn {frame : Runtime ScriptValue} (h : Keeps FrameWork frame) :
    Keeps FrameWork (world.drawn frame) := by
  apply h.bind FrameWork.trans
  intro dst
  apply world.keeps_outside.bind FrameWork.trans
  intro _
  exact keeps_pure FrameWork.refl dst

/-- The arguments of a function are assigned in its own frame. -/
theorem assign_below (args : List (String × ScriptValue)) (vars : VarTable ScriptValue) :
    vars.SameBelow (args.foldl (fun vars (name, value) => vars.set name value) vars) := by
  induction args generalizing vars with
  | nil => exact VarTable.SameBelow.refl _
  | cons arg args ih => exact (VarTable.SameBelow.set vars arg.1 arg.2).trans (ih _)

section Handlers

variable {handle : RuntimeRequest → Runtime ScriptValue} (hhandle : Handled handle)

include hhandle

/-- A script function may assign its own local variables only. -/
theorem keeps_execute (function : ℕ) (args : List (String × ScriptValue)) :
    Keeps FrameWork (world.execute handle function args) := by
  intro s result u h
  obtain ⟨⟨result', t⟩, hrun, hend⟩ := Option.map_eq_some_iff.mp h
  obtain rfl : _ = u := (Prod.ext_iff.mp hend).2
  obtain ⟨calls, hhistory, hbelow, hcalm⟩ :=
    keeps_ofProgram refl trans hhandle.script _ _ _ _ hrun
  obtain ⟨hstack, hpop⟩ := ((assign_below args s.vars.push).trans hbelow).pop
  use calls
  constructor
  · exact hhistory
  constructor
  · exact hpop
  · intro h
    simp only [hstack]
    exact ⟨(hcalm h).1, KeepsWatched.refl _⟩

/-- A script is evaluated. -/
theorem keeps_evaluate (mismatch : ScriptError) (script : RuntimeScript) :
    Keeps ScriptWork (world.evaluate handle mismatch script) := by
  cases script with
  | text parsed =>
    cases parsed with
    | ok program => exact keeps_ofProgram refl trans hhandle.script _
    | error e => exact keeps_raise refl e
  | function accepted function args =>
    cases accepted with
    | true => exact (world.keeps_execute hhandle function args).mono FrameWork.script
    | false => exact keeps_raise refl mismatch

/-- A child makes a frame. -/
theorem keeps_childFrame (clip : ℕ) (n : ℤ) : Keeps FrameWork (world.childFrame handle clip n) :=
  hhandle.frame _

/-- A frame with a message. -/
theorem keeps_messageFrame (clip : ℕ) (n : ℤ) :
    Keeps FrameWork (world.messageFrame handle clip n) :=
  world.keeps_drawn (world.keeps_childFrame hhandle clip n)

/-- A child's frame, with or without a message. -/
theorem keeps_shown (show_ : Bool) (clip : ℕ) (n : ℤ) :
    Keeps FrameWork (if show_ then world.messageFrame handle clip n
      else world.childFrame handle clip n) := by
  cases show_ with
  | true => exact world.keeps_messageFrame hhandle clip n
  | false => exact world.keeps_childFrame hhandle clip n

/-- `ConditionalSelect` restores what it found. -/
theorem keeps_conditionalSelect (child : ℕ) (script : RuntimeScript) (sources : List ℕ)
    (show_ isLocal : Bool) (n : ℤ) :
    Keeps FrameWork (world.conditionalSelect handle child script sources show_ isLocal n) := by
  apply keeps_withVariables
  · apply keeps_catchingError
    apply (world.keeps_evaluate hhandle _ script).bind trans
    rintro (_ | _ | i | _ | _)
    · exact keeps_raise refl _
    · exact keeps_raise refl _
    · exact keeps_pure refl i
    · exact keeps_raise refl _
    · exact keeps_raise refl _
  · rintro (_ | i)
    · exact world.keeps_messageFrame hhandle child n
    · exact world.keeps_shown hhandle show_ _ n

/-- So does `ConditionalFilter`. -/
theorem keeps_conditionalFilter (child source1 source2 : ℕ) (eval1 eval2 : RuntimeScript)
    (compare : ScriptValue → ScriptValue → Option Bool) (show_ isLocal : Bool) (n : ℤ) :
    Keeps FrameWork (world.conditionalFilter handle child source1 source2 eval1 eval2 compare
      show_ isLocal n) := by
  apply keeps_withVariables
  · apply Keeps.bind trans
    · apply keeps_catchingError
      apply (world.keeps_evaluate hhandle _ eval1).bind trans
      intro e1
      cases eval1 with
      | text parsed =>
        apply (world.keeps_evaluate hhandle _ eval2).bind trans
        intro e2
        exact keeps_pure refl _
      | function accepted function args => exact keeps_pure refl _
    · rintro (_ | results)
      · apply ((world.keeps_messageFrame hhandle source1 n).mono FrameWork.script).bind
          trans
        intro dst
        exact keeps_pure refl _
      · exact keeps_pure refl _
  · rintro (dst | ⟨e1, e2⟩)
    · exact keeps_pure FrameWork.refl dst
    · dsimp only
      cases compare e1 e2 with
      | none => exact world.keeps_messageFrame hhandle source1 n
      | some state => exact world.keeps_shown hhandle show_ _ n

/-- So does `ScriptClip`. -/
theorem keeps_scriptClip (child : ℕ) (script : RuntimeScript)
    (show_ onlyEval evalAfter isLocal : Bool) (n : ℤ) :
    Keeps FrameWork (world.scriptClip handle child script show_ onlyEval evalAfter isLocal n) := by
  have hframe := hhandle.frame (.frame child n)
  have hmessage := world.keeps_drawn hframe
  have hleft : Keeps ScriptWork (world.drawn (handle (.filter (.frame child n))) >>= fun dst =>
      pure (Sum.inl dst : ScriptValue ⊕ (ScriptValue × ScriptValue))) := by
    apply (hmessage.mono FrameWork.script).bind trans
    intro dst
    exact keeps_pure refl _
  have hevaluated := keeps_catchingError (world.keeps_evaluate hhandle
    (.avisynthError "ScriptClip: Invalid function parameter type") script)
  apply keeps_withVariables
  · cases show_ with
    | true => exact hleft
    | false =>
      have hreturn := hframe.mono FrameWork.script
      cases evalAfter with
      | true =>
        apply hreturn.bind trans
        intro evalReturn
        apply hevaluated.bind trans
        rintro (_ | result)
        · exact hleft
        · exact keeps_pure refl _
      | false =>
        apply (keeps_pure refl _).bind trans
        intro evalReturn
        apply hevaluated.bind trans
        rintro (_ | result)
        · exact hleft
        · exact keeps_pure refl _
  · rintro (dst | ⟨evalReturn, result⟩)
    · exact keeps_pure FrameWork.refl dst
    · dsimp only
      split_ifs with hboth honly
      · exact keeps_pure FrameWork.refl evalReturn
      · exact hframe
      · cases result with
        | clip clip =>
          dsimp only
          split_ifs with hformat
          · exact hhandle.frame _
          · exact hmessage
        | _ => exact hmessage

/-- The expressions of `Write`. -/
theorem keeps_doEval (linecheck : Bool) (exprs : List RuntimeScript) :
    Keeps ScriptWork (world.doEval handle linecheck exprs) := by
  induction exprs generalizing linecheck with
  | nil => exact keeps_pure refl true
  | cons expr exprs ih =>
    cases linecheck with
    | true =>
      apply Keeps.bind trans
      · apply keeps_catchingError
        apply (world.keeps_evaluate hhandle _ expr).bind trans
        rintro (_ | b | _ | _ | _)
        · exact keeps_pure refl true
        · exact keeps_pure refl b
        · exact keeps_raise refl _
        · exact keeps_raise refl _
        · exact keeps_raise refl _
      · rintro (_ | (_ | _))
        · exact ih false
        · exact keeps_pure refl false
        · exact ih false
    | false =>
      apply Keeps.bind trans
      · apply keeps_catchingError
        apply (world.keeps_evaluate hhandle _ expr).bind trans
        intro _
        exact world.keeps_outside.mono FrameWork.script
      · intro _
        exact ih false

/-- `Write` for each frame. -/
theorem keeps_writeFrame (child : ℕ) (exprs : List RuntimeScript) (linecheck : ℤ)
    (isLocal : Bool) (n : ℤ) :
    Keeps FrameWork (world.writeFrame handle child exprs linecheck isLocal n) := by
  apply (hhandle.frame _).bind FrameWork.trans
  intro tmpframe
  split_ifs with hend
  · exact keeps_pure FrameWork.refl tmpframe
  · apply keeps_withVariables
    · apply (world.keeps_doEval hhandle _ exprs).bind trans
      rintro (_ | _)
      · exact keeps_pure refl ()
      · exact world.keeps_outside.mono FrameWork.script
    · intro _
      exact keeps_pure FrameWork.refl tmpframe

/-- `Write` when it is made. -/
theorem keeps_writeConstructor (child : ℕ) (exprs : List RuntimeScript) (linecheck : ℤ)
    (isLocal : Bool) :
    Keeps FrameWork (world.writeConstructor handle child exprs linecheck isLocal) := by
  apply world.keeps_outside.bind FrameWork.trans
  intro _
  split_ifs with hline hstart
  · exact keeps_pure FrameWork.refl ()
  · apply keeps_withVariables
    · apply (world.keeps_doEval hhandle false exprs).bind trans
      intro _
      exact world.keeps_outside.mono FrameWork.script
    · intro _
      exact keeps_pure FrameWork.refl ()
  · apply keeps_withVariables
    · apply (world.keeps_doEval hhandle false exprs).bind trans
      intro _
      exact keeps_pure refl ()
    · intro _
      exact keeps_pure FrameWork.refl ()

/-- Each filter for a frame. -/
theorem keeps_getFrame (filter : RuntimeFilter) (n : ℤ) :
    Keeps FrameWork (world.getFrame handle filter n) := by
  cases filter with
  | conditionalSelect => exact world.keeps_conditionalSelect hhandle _ _ _ _ _ n
  | conditionalFilter => exact world.keeps_conditionalFilter hhandle _ _ _ _ _ _ _ _ n
  | scriptClip => exact world.keeps_scriptClip hhandle _ _ _ _ _ _ n
  | write => exact world.keeps_writeFrame hhandle _ _ _ _ n
  | other code => exact keeps_ofProgram FrameWork.refl FrameWork.trans hhandle.frame _

/-- Each filter when it is made. -/
theorem keeps_construct (filter : RuntimeFilter) :
    Keeps FrameWork (world.construct handle filter) := by
  cases filter with
  | write child exprs linecheck isLocal =>
    exact world.keeps_writeConstructor hhandle child exprs linecheck isLocal
  | _ => exact keeps_pure FrameWork.refl ()

end Handlers

/-- Every request keeps the frames below, and those of filters the variables. -/
theorem handled_perform (fuel : ℕ) : Handled (world.perform fuel) := by
  induction fuel with
  | zero =>
    constructor
    · intro request s result t h
      cases h
    · intro request s result t h
      cases h
  | succ fuel ih =>
    have hframe : ∀ request, Keeps FrameWork (world.perform (fuel + 1) (.filter request)) := by
      intro request
      cases request with
      | frame clip n => exact world.keeps_getFrame ih _ n
      | call function args => exact world.keeps_execute ih function args
      | setGlobalVar name value =>
        apply Keeps.bind FrameWork.trans
        · apply keeps_update
          intro s
          have hstack : (s.setGlobalVar name value).vars.stackFrame = s.vars.stackFrame := by
            unfold RuntimeState.setGlobalVar VarTable.setGlobal
            cases s.vars.globalFrames <;> rfl
          apply RuntimeAccounted.of_vars
          · rfl
          · exact VarTable.SameBelow.setGlobal _ _ _
          · rw [hstack]
            exact KeepsWatched.refl _
        · intro _
          exact keeps_pure FrameWork.refl _
    constructor
    · intro request
      cases request with
      | filter request => exact (hframe request).mono FrameWork.script
      | getVar name =>
        intro s result t h
        simp only [perform, Option.some.injEq, Prod.mk.injEq] at h
        rw [← h.2]
        exact refl s
      | setVar name value =>
        apply Keeps.bind trans
        · apply keeps_update
          intro s
          exact RuntimeAccounted.of_vars rfl (VarTable.SameBelow.set _ _ _) trivial
        · intro _
          exact keeps_pure refl _
      | construct clip =>
        apply Keeps.bind trans
        · exact (world.keeps_construct ih _).mono FrameWork.script
        · intro _
          exact keeps_pure refl _
    · exact hframe

/-- `ScriptClip` in `ScriptClip`: the outer script asks for a frame of the inner filter,
assigns `last`, and calls an unknown function. -/
def nestedScriptClips : RuntimeWorld where
  filters
    | 0 => .other fun _ => .finish (.ok (.clip 0))
    | 1 => .scriptClip 0 (.text (.ok (.request (.getVar "last") .finish))) false false true false
    | _ => .scriptClip 1 (.text (.ok (.request (.filter (.frame 1 4)) fun _ =>
        .request (.setVar "last" (.int 3)) fun _ =>
        .finish (.error (.avisynthError "There is no function named 'f'."))))) false false false
          false
  functions _ := .finish (.ok .undefined)
  numFrames _ := 10
  sameFormat _ _ := true
  operation _ := .ok ()

/-- A thread in a script that has assigned `last` and `current_frame`. -/
def inScript : RuntimeState where
  vars := ((⟨VarFrame.empty, VarFrame.empty, [], []⟩ : VarTable ScriptValue).set "last"
    (.clip 5)).set "current_frame" (.int 7)
  operations := 0
  history := []

/-- `ScriptClip` with `eval_after` whose child fails to make a frame. -/
def failingChild : RuntimeWorld where
  filters
    | 0 => .other fun _ => .finish (.error (.avisynthError "read error"))
    | _ => .scriptClip 0 (.text (.ok (.request (.getVar "last") .finish))) false false true false
  functions _ := .finish (.ok .undefined)
  numFrames _ := 10
  sameFormat _ _ := true
  operation _ := .ok ()

end RuntimeWorld

end AviSynth
