import AviSynth.Script.VarTable
import Mathlib.Data.List.Induction

/-!
# Lookups after nested scopes

What a lookup finds is read off the history of assignments, pushes and pops. The
history is read from its end; a pop leads out of a frame whose assignments are passed
over up to the push that belongs to it.
-/

namespace AviSynth

/-- What can happen to the variables. -/
inductive ScopeAction (Value : Type) where
  | set (name : String) (value : Value)
  | setGlobal (name : String) (value : Value)
  | push
  | pop
  | pushGlobal
  | popGlobal
  deriving DecidableEq

/-- The two kinds of pairs. -/
inductive Bracket where
  | stack
  | global
  deriving DecidableEq

namespace Bracket

def opening (Value : Type) : Bracket → ScopeAction Value
  | stack => .push
  | global => .pushGlobal

def closing (Value : Type) : Bracket → ScopeAction Value
  | stack => .pop
  | global => .popGlobal

/-- The open brackets after an action. A pop closes the last one, of its own kind. -/
def after {Value : Type} : List Bracket → ScopeAction Value → Option (List Bracket)
  | brackets, .set _ _ => some brackets
  | brackets, .setGlobal _ _ => some brackets
  | brackets, .push => some (stack :: brackets)
  | brackets, .pushGlobal => some (global :: brackets)
  | stack :: brackets, .pop => some brackets
  | global :: brackets, .popGlobal => some brackets
  | _, .pop => none
  | _, .popGlobal => none

/-- The open brackets after some actions, if these are well bracketed. -/
def openAfter {Value : Type} (actions : List (ScopeAction Value)) : Option (List Bracket) :=
  actions.foldlM after []

/-- The number of global frames that the open brackets have added. -/
def globals (brackets : List Bracket) : ℕ := brackets.count global

variable {Value : Type} {actions : List (ScopeAction Value)} {action : ScopeAction Value}
  {brackets rest : List Bracket}

@[simp] theorem globals_nil : globals [] = 0 := rfl

@[simp] theorem globals_global (brackets : List Bracket) :
    globals (global :: brackets) = globals brackets + 1 := List.count_cons_self

@[simp] theorem globals_stack (brackets : List Bracket) :
    globals (stack :: brackets) = globals brackets := List.count_cons_of_ne (by decide)

/-- Open brackets further out do not matter. -/
theorem after_append (h : after brackets action = some rest) (outer : List Bracket) :
    after (brackets ++ outer) action = some (rest ++ outer) := by
  cases action with
  | set | setGlobal | push | pushGlobal =>
    obtain rfl : _ = rest := by simpa [after] using h
    rfl
  | pop | popGlobal =>
    obtain _ | ⟨kind, brackets⟩ := brackets <;> [skip; cases kind] <;>
      simp only [after, reduceCtorEq, Option.some.injEq] at h
    exact h ▸ rfl

/-- Brackets that stay open do not matter. -/
theorem foldlM_after {start : List Bracket} (h : actions.foldlM after start = some brackets)
    (outer : List Bracket) :
    actions.foldlM after (start ++ outer) = some (brackets ++ outer) := by
  induction actions generalizing start with
  | nil =>
    obtain rfl : start = brackets := by simpa using h
    rfl
  | cons action actions ih =>
    rw [List.foldlM_cons, Option.bind_eq_bind, Option.bind_eq_some_iff] at h
    obtain ⟨next, hnext, hrest⟩ := h
    rw [List.foldlM_cons, after_append hnext]
    exact ih hrest

/-- What an enabled action does to the open brackets. -/
theorem after_cases (h : after brackets action = some rest) :
    (∃ name value, action = .set name value ∧ brackets = rest) ∨
      (∃ name value, action = .setGlobal name value ∧ brackets = rest) ∨
      (∃ kind, action = opening Value kind ∧ kind :: brackets = rest) ∨
      ∃ kind, action = closing Value kind ∧ brackets = kind :: rest := by
  cases action with
  | set name value => exact .inl ⟨name, value, rfl, by simpa [after] using h⟩
  | setGlobal name value => exact .inr (.inl ⟨name, value, rfl, by simpa [after] using h⟩)
  | push => exact .inr (.inr (.inl ⟨stack, rfl, by simpa [after] using h⟩))
  | pushGlobal => exact .inr (.inr (.inl ⟨global, rfl, by simpa [after] using h⟩))
  | pop =>
    obtain _ | ⟨_ | _, brackets⟩ := brackets <;> simp only [after, reduceCtorEq] at h
    exact .inr (.inr (.inr ⟨stack, rfl, by simpa using h⟩))
  | popGlobal =>
    obtain _ | ⟨_ | _, brackets⟩ := brackets <;> simp only [after, reduceCtorEq] at h
    exact .inr (.inr (.inr ⟨global, rfl, by simpa using h⟩))

/-- Well bracketed actions, from their end. -/
theorem openAfter_induction
    {motive : ∀ actions brackets, @openAfter Value actions = some brackets → Prop}
    (nil : motive [] [] rfl)
    (step : ∀ actions before action rest hbefore h, motive actions before hbefore →
      after before action = some rest → motive (actions ++ [action]) rest h)
    (h : openAfter actions = some brackets) : motive actions brackets h := by
  induction actions using List.reverseRecOn generalizing brackets with
  | nil =>
    obtain rfl : [] = brackets := by simpa [openAfter] using h
    exact nil
  | append_singleton actions action ih =>
    obtain ⟨before, hbefore, hafter⟩ : ∃ before, openAfter actions = some before ∧
        after before action = some brackets := by
      simpa [openAfter, List.foldlM_append, Option.bind_eq_some_iff] using h
    exact step actions before action brackets hbefore h (ih hbefore) hafter

end Bracket

open AviSynth.Bracket

section Histories

variable {Value : Type}

/-- The value of a local variable in a frame, of which `outer` frames are further in:
the last assignment to it since the frame was pushed. -/
def localValue (name : String) : ℕ → List (ScopeAction Value) → Option Value
  | _, [] => none
  | 0, .set other value :: past =>
    if other.toLower = name.toLower then some value else localValue name 0 past
  | 0, .push :: _ => none
  | 0, .pushGlobal :: _ => none
  | outer + 1, .push :: past => localValue name outer past
  | outer + 1, .pushGlobal :: past => localValue name outer past
  | outer, .pop :: past => localValue name (outer + 1) past
  | outer, .popGlobal :: past => localValue name (outer + 1) past
  | outer + 1, .set _ _ :: past => localValue name (outer + 1) past
  | outer, .setGlobal _ _ :: past => localValue name outer past

/-- The value of a global variable in a global frame, of which `outer` are further in,
or in the frames around it: the last assignment to it in the innermost such frame that
has one. -/
def globalValue (name : String) : ℕ → List (ScopeAction Value) → Option Value
  | _, [] => none
  | 0, .setGlobal other value :: past =>
    if other.toLower = name.toLower then some value else globalValue name 0 past
  | outer + 1, .setGlobal _ _ :: past => globalValue name (outer + 1) past
  | 0, .pushGlobal :: past => globalValue name 0 past
  | outer + 1, .pushGlobal :: past => globalValue name outer past
  | outer, .popGlobal :: past => globalValue name (outer + 1) past
  | outer, .set _ _ :: past => globalValue name outer past
  | outer, .push :: past => globalValue name outer past
  | outer, .pop :: past => globalValue name outer past

/-- The innermost visible value of a variable after a history, over the variables of
the environment. -/
def visible (topFrame : NameTable Value) (past : List (ScopeAction Value)) (name : String) :
    Option Value :=
  (localValue name 0 past).or ((globalValue name 0 past).or (topFrame.get name))

variable {actions : List (ScopeAction Value)} {brackets : List Bracket}

/-- Frames further out than the brackets that well bracketed actions open keep their
values. -/
theorem localValue_passes (h : openAfter actions = some brackets) (name : String) (outer : ℕ)
    (past : List (ScopeAction Value)) :
    localValue name (brackets.length + (outer + 1)) (actions.reverse ++ past) =
      localValue name (outer + 1) past := by
  induction h using openAfter_induction with
  | nil => simp
  | step actions before action rest _ _ ih hafter =>
    rw [List.reverse_concat, List.cons_append, ← ih, ← Nat.add_assoc, ← Nat.add_assoc]
    obtain ⟨_, _, rfl, rfl⟩ | ⟨_, _, rfl, rfl⟩ | ⟨kind, rfl, rfl⟩ | ⟨kind, rfl, rfl⟩ :=
      after_cases hafter
    · rfl
    · rfl
    · rw [List.length_cons, Nat.add_right_comm before.length 1 outer]
      cases kind <;> rfl
    · rw [List.length_cons, Nat.add_right_comm rest.length 1 outer]
      cases kind <;> rfl

/-- The same for the global frames. -/
theorem globalValue_passes (h : openAfter actions = some brackets) (name : String) (outer : ℕ)
    (past : List (ScopeAction Value)) :
    globalValue name (globals brackets + (outer + 1)) (actions.reverse ++ past) =
      globalValue name (outer + 1) past := by
  induction h using openAfter_induction with
  | nil => simp
  | step actions before action rest _ _ ih hafter =>
    rw [List.reverse_concat, List.cons_append, ← ih, ← Nat.add_assoc, ← Nat.add_assoc]
    obtain ⟨_, _, rfl, rfl⟩ | ⟨_, _, rfl, rfl⟩ | ⟨_ | _, rfl, rfl⟩ | ⟨_ | _, rfl, rfl⟩ :=
      after_cases hafter
    · rfl
    · rfl
    · rw [globals_stack]
      rfl
    · rw [globals_global, Nat.add_right_comm _ 1 outer]
      rfl
    · rfl
    · rw [globals_global, Nat.add_right_comm _ 1 outer]
      rfl

/-- In the frames that the actions opened, and in the one they started in, the actions'
own assignments come first. -/
theorem globalValue_append (h : openAfter actions = some brackets) (name : String) {outer : ℕ}
    (houter : outer ≤ globals brackets) (past : List (ScopeAction Value)) :
    globalValue name outer (actions.reverse ++ past) =
      (globalValue name outer actions.reverse).or (globalValue name 0 past) := by
  induction h using openAfter_induction generalizing outer with
  | nil =>
    obtain rfl : outer = 0 := by simpa using houter
    rfl
  | step actions before action rest _ _ ih hafter =>
    rw [List.reverse_concat, List.cons_append]
    obtain ⟨_, _, rfl, rfl⟩ | ⟨other, value, rfl, rfl⟩ | ⟨_ | _, rfl, rfl⟩ | ⟨_ | _, rfl, rfl⟩ :=
      after_cases hafter
    · simpa only [globalValue] using ih houter
    · cases outer with
      | zero =>
        by_cases hname : other.toLower = name.toLower
        · simp [globalValue, hname]
        · simpa only [globalValue, if_neg hname] using ih houter
      | succ outer => simpa only [globalValue] using ih houter
    · simpa only [opening, globalValue] using ih (by simpa using houter)
    · rw [globals_global] at houter
      cases outer with
      | zero => simpa only [opening, globalValue] using ih (Nat.zero_le _)
      | succ outer =>
        simpa only [opening, globalValue] using ih (Nat.le_of_succ_le_succ houter)
    · simpa only [closing, globalValue] using ih (by simpa using houter)
    · have hinner : outer + 1 ≤ globals (global :: rest) := by simpa using houter
      simpa only [closing, globalValue] using ih hinner

end Histories

variable {Value : Type}

/-- The action on the table. -/
def VarTable.act (vars : VarTable Value) : ScopeAction Value → VarTable Value
  | .set name value => vars.set name value
  | .setGlobal name value => vars.setGlobal name value
  | .push => vars.push
  | .pop => vars.pop
  | .pushGlobal => vars.pushGlobal
  | .popGlobal => vars.popGlobal

/-- What the frames hold is what the history says, frame by frame. -/
structure VarTable.Reflects (vars : VarTable Value) (topFrame : NameTable Value)
    (past : List (ScopeAction Value)) (brackets : List Bracket) : Prop where
  depth : vars.outerFrames.length = brackets.length
  globals : vars.globalFrames.length = globals brackets
  localValue : ∀ name outer, outer ≤ brackets.length →
    ((vars.stackFrame :: vars.outerFrames)[outer]?.bind fun frame => frame.get name) =
      localValue name outer past
  globalValue : ∀ name outer, outer ≤ Bracket.globals brackets →
    ((vars.globalFrames.drop outer).findSome? fun frame => frame.get name).or
      (vars.topFrame.get name) = (globalValue name outer past).or (topFrame.get name)

namespace VarTable.Reflects

variable {vars : VarTable Value} {topFrame : NameTable Value} {past : List (ScopeAction Value)}
  {brackets : List Bracket}

section

variable (h : vars.Reflects topFrame past brackets)
include h

theorem get (name : String) :
    vars.get name = visible topFrame past name := by
  have hlocal := h.localValue name 0 (Nat.zero_le _)
  have hglobal := h.globalValue name 0 (Nat.zero_le _)
  rw [List.drop_zero] at hglobal
  rw [VarTable.get, hglobal, visible, ← hlocal]
  rfl

theorem set (name : String) (value : Value) :
    (vars.set name value).Reflects topFrame (.set name value :: past) brackets where
  depth := h.depth
  globals := h.globals
  localValue other outer houter := by
    have hother := h.localValue other outer houter
    cases outer with
    | zero =>
      by_cases hname : name.toLower = other.toLower
      · simp [VarTable.set, AviSynth.localValue, VarFrame.get, VarFrame.set, hname]
      · simpa [VarTable.set, AviSynth.localValue, hname, VarFrame.get_set_ne, Ne.symm hname]
          using hother
    | succ outer => exact hother
  globalValue := h.globalValue

theorem setGlobal (name : String) (value : Value) :
    (vars.setGlobal name value).Reflects topFrame (.setGlobal name value :: past) brackets := by
  obtain ⟨hdepth, hglobals, hlocal, hglobal⟩ := h
  cases hframes : vars.globalFrames with
  | nil =>
    have hset : vars.setGlobal name value =
        { vars with topFrame := vars.topFrame.set name value } := by
      simp [VarTable.setGlobal, hframes]
    rw [hset]
    refine ⟨hdepth, hglobals, hlocal, fun other outer houter => ?_⟩
    obtain rfl : outer = 0 := by simpa [← hglobals, hframes] using houter
    have hother := hglobal other 0 houter
    by_cases hname : name.toLower = other.toLower
    · simp [AviSynth.globalValue, VarFrame.get, VarFrame.set, hname, hframes]
    · simpa [AviSynth.globalValue, VarFrame.get_set_ne, hname, Ne.symm hname, hframes] using hother
  | cons frame frames =>
    have hset : vars.setGlobal name value =
        { vars with globalFrames := frame.set name value :: frames } := by
      simp [VarTable.setGlobal, hframes]
    rw [hset]
    refine ⟨hdepth, by simpa [hframes] using hglobals, hlocal, fun other outer houter => ?_⟩
    have hother := hglobal other outer houter
    rw [hframes] at hother
    cases outer with
    | zero =>
      by_cases hname : name.toLower = other.toLower
      · simp [AviSynth.globalValue, VarFrame.get, VarFrame.set, hname]
      · simpa [AviSynth.globalValue, List.findSome?_cons, VarFrame.get_set_ne, hname,
          Ne.symm hname] using hother
    | succ outer => exact hother

theorem push :
    vars.push.Reflects topFrame (.push :: past) (stack :: brackets) where
  depth := by simp [VarTable.push, h.depth]
  globals := by simp [VarTable.push, h.globals]
  localValue name outer houter := by
    cases outer with
    | zero => rfl
    | succ outer => exact h.localValue name outer (Nat.le_of_succ_le_succ houter)
  globalValue name outer houter := h.globalValue name outer (by simpa using houter)

theorem pushGlobal :
    vars.pushGlobal.Reflects topFrame (.pushGlobal :: past) (global :: brackets) where
  depth := by simp [VarTable.pushGlobal, VarTable.push, h.depth]
  globals := by simp [VarTable.pushGlobal, VarTable.push, h.globals]
  localValue name outer houter := by
    cases outer with
    | zero => rfl
    | succ outer => exact h.localValue name outer (Nat.le_of_succ_le_succ houter)
  globalValue name outer houter := by
    rw [globals_global] at houter
    cases outer with
    | zero =>
      have hempty : (VarFrame.empty : VarFrame Value).get name = none := rfl
      simpa [VarTable.pushGlobal, VarTable.push, AviSynth.globalValue, hempty]
        using h.globalValue name 0 (Nat.zero_le _)
    | succ outer => exact h.globalValue name outer (Nat.le_of_succ_le_succ houter)

/-- The frames below the innermost local one. -/
theorem tail {kind : Bracket} {rest : List Bracket} (hbrackets : brackets = kind :: rest) :
    ∃ frame frames, vars.outerFrames = frame :: frames ∧ frames.length = rest.length := by
  have hdepth := h.depth
  rw [hbrackets, List.length_cons] at hdepth
  obtain ⟨frame, frames, hframes⟩ := List.exists_cons_of_length_eq_add_one hdepth
  rw [hframes, List.length_cons] at hdepth
  exact ⟨frame, frames, hframes, Nat.succ.inj hdepth⟩

end

theorem pop (h : vars.Reflects topFrame past (stack :: brackets)) :
    vars.pop.Reflects topFrame (.pop :: past) brackets := by
  obtain ⟨frame, frames, hframes, hlength⟩ := h.tail rfl
  have hpop : vars.pop = { vars with stackFrame := frame, outerFrames := frames } := by
    simp [VarTable.pop, hframes]
  rw [hpop]
  refine ⟨hlength, by simpa using h.globals, fun name outer houter => ?_,
    fun name outer houter => h.globalValue name outer (by simpa using houter)⟩
  have hlocal := h.localValue name (outer + 1) (Nat.succ_le_succ houter)
  rw [hframes, List.getElem?_cons_succ] at hlocal
  simpa only [AviSynth.localValue] using hlocal

theorem popGlobal (h : vars.Reflects topFrame past (global :: brackets)) :
    vars.popGlobal.Reflects topFrame (.popGlobal :: past) brackets := by
  obtain ⟨frame, frames, hframes, hlength⟩ := h.tail rfl
  have hglobals := h.globals
  rw [globals_global] at hglobals
  obtain ⟨inner, globalFrames, hinner⟩ := List.exists_cons_of_length_eq_add_one hglobals
  have hpop : vars.popGlobal =
      { vars with stackFrame := frame, outerFrames := frames, globalFrames := globalFrames } := by
    simp [VarTable.popGlobal, VarTable.pop, hframes, hinner]
  rw [hpop]
  rw [hinner, List.length_cons] at hglobals
  refine ⟨hlength, Nat.succ.inj hglobals, fun name outer houter => ?_, fun name outer houter => ?_⟩
  · have hlocal := h.localValue name (outer + 1) (Nat.succ_le_succ houter)
    rw [hframes, List.getElem?_cons_succ] at hlocal
    simpa only [AviSynth.localValue] using hlocal
  · have hglobal := h.globalValue name (outer + 1) (by simpa using houter)
    rw [hinner, List.drop_succ_cons] at hglobal
    simpa only [AviSynth.globalValue] using hglobal

/-- One action keeps the frames in step with the history. -/
theorem act (h : vars.Reflects topFrame past brackets) {action : ScopeAction Value}
    {rest : List Bracket} (hafter : after brackets action = some rest) :
    (vars.act action).Reflects topFrame (action :: past) rest := by
  obtain ⟨name, value, rfl, rfl⟩ | ⟨name, value, rfl, rfl⟩ | ⟨kind, rfl, rfl⟩ | ⟨kind, rfl, rfl⟩ :=
    after_cases hafter
  · exact h.set name value
  · exact h.setGlobal name value
  · cases kind with
    | stack => exact h.push
    | global => exact h.pushGlobal
  · cases kind with
    | stack => exact h.pop
    | global => exact h.popGlobal

end VarTable.Reflects

namespace VariableStacks

/-- What an action does to the stacks. -/
def act (s : VariableStacks Value) : ScopeAction Value → VariableStacks Value
  | .set name value => (s.set name value).1
  | .setGlobal name value => (s.setGlobal name value).1
  | .push => s.push
  | .pop => s.pop
  | .pushGlobal => s.pushGlobal
  | .popGlobal => s.popGlobal

/-- The stacks after some actions, over the variables of the environment. -/
def run (topFrame : NameTable Value) (actions : List (ScopeAction Value)) :
    VariableStacks Value := actions.foldl act (new topFrame)

variable {s : VariableStacks Value} {topFrame : NameTable Value}
  {past body : List (ScopeAction Value)} {brackets : List Bracket}

/-- The stacks are free of old entries, and their frames hold what the history says. -/
structure Sound (s : VariableStacks Value) (topFrame : NameTable Value)
    (past : List (ScopeAction Value)) (brackets : List Bracket) : Prop where
  clean : s.Clean
  reflects : s.table.Reflects topFrame past brackets

theorem Sound.new (topFrame : NameTable Value) :
    (VariableStacks.new topFrame).Sound topFrame [] [] where
  clean := Clean.new topFrame
  reflects :=
    { depth := rfl
      globals := rfl
      localValue := fun name outer houter => by
        obtain rfl : outer = 0 := by simpa using houter
        rfl
      globalValue := fun name outer houter => by
        obtain rfl : outer = 0 := by simpa using houter
        rfl }

/-- Inside a pair there is a local frame to go back to. -/
theorem Sound.tail_ne_nil {kind : Bracket} (h : s.Sound topFrame past (kind :: brackets)) :
    s.stackFrames.tail ≠ [] := by
  obtain ⟨frame, frames, hframes, -⟩ := h.reflects.tail rfl
  intro htail
  simp [table, htail] at hframes

/-- Inside a global pair there is a global frame. -/
theorem Sound.globalFrames_ne_nil (h : s.Sound topFrame past (global :: brackets)) :
    s.globalFrames ≠ [] := by
  have hglobals := h.reflects.globals
  intro hnil
  simp [table, hnil] at hglobals

/-- The step lemma. -/
theorem Sound.act (h : s.Sound topFrame past brackets) {action : ScopeAction Value}
    {rest : List Bracket} (hafter : after brackets action = some rest) :
    (s.act action).Sound topFrame (action :: past) rest := by
  suffices hact : (s.act action).Clean ∧ (s.act action).table = s.table.act action from
    ⟨hact.1, hact.2 ▸ h.reflects.act hafter⟩
  obtain ⟨name, value, rfl, rfl⟩ | ⟨name, value, rfl, rfl⟩ | ⟨kind, rfl, rfl⟩ | ⟨kind, rfl, rfl⟩ :=
    after_cases hafter
  · exact set_table h.clean name value
  · exact setGlobal_table h.clean name value
  · cases kind with
    | stack => exact push_table h.clean
    | global => exact pushGlobal_table h.clean
  · cases kind with
    | stack => exact pop_table h.clean h.tail_ne_nil
    | global => exact popGlobal_table h.clean h.tail_ne_nil h.globalFrames_ne_nil

/-- What any well bracketed run leads to. -/
theorem sound_run (h : openAfter past = some brackets) :
    (run topFrame past).Sound topFrame past.reverse brackets := by
  induction h using openAfter_induction with
  | nil => exact Sound.new topFrame
  | step past before action rest _ _ ih hafter =>
    rw [run, List.foldl_append, List.reverse_concat]
    exact ih.act hafter

/-- A read after a run. -/
theorem get_run (h : openAfter past = some brackets) (name : String) :
    (run topFrame past).get name = visible topFrame past.reverse name := by
  have hsound : (run topFrame past).Sound topFrame past.reverse brackets := sound_run h
  rw [← get_table hsound.clean, hsound.reflects.get]

/-- A pair with well bracketed actions in it leaves the open brackets alone. -/
theorem openAfter_pair (hpast : openAfter past = some brackets) (hbody : openAfter body = some [])
    (kind : Bracket) :
    openAfter (past ++ kind.opening Value :: (body ++ [kind.closing Value])) = some brackets := by
  have hopening : after brackets (kind.opening Value) = some (kind :: brackets) := by
    cases kind <;> rfl
  have hclosing : after (kind :: brackets) (kind.closing Value) = some brackets := by
    cases kind <;> rfl
  have hinside : body.foldlM after (kind :: brackets) = some (kind :: brackets) :=
    foldlM_after hbody (kind :: brackets)
  rw [openAfter] at hpast ⊢
  simp [List.foldlM_append, hpast, hopening, hinside, hclosing]

/-- What a pair leaves of the lookups: a global pair all of them; a local pair those of
local variables, and those of global variables that were not set in it at the level
that stays. -/
def AfterPair (before after : VariableStacks Value) (kind : Bracket)
    (past body : List (ScopeAction Value)) : Prop :=
  ∀ name, after.get name =
    match kind, globalValue name 0 body.reverse with
    | .stack, some value => (localValue name 0 past.reverse).or (some value)
    | _, _ => before.get name

/-- A pair of brackets after a run. -/
theorem afterPair_run (hpast : openAfter past = some brackets) (hbody : openAfter body = some [])
    (kind : Bracket) :
    AfterPair (run topFrame past)
      (run topFrame (past ++ kind.opening Value :: (body ++ [kind.closing Value]))) kind past
      body := by
  intro name
  rw [get_run (openAfter_pair hpast hbody kind), get_run hpast]
  have hreverse : (past ++ kind.opening Value :: (body ++ [kind.closing Value])).reverse =
      kind.closing Value :: (body.reverse ++ kind.opening Value :: past.reverse) := by simp
  rw [hreverse]
  cases kind with
  | stack =>
    have hlocal : localValue name 0
        (.pop :: (body.reverse ++ .push :: past.reverse)) = localValue name 0 past.reverse := by
      simpa [localValue] using localValue_passes hbody name 0 (.push :: past.reverse)
    have hglobal : globalValue name 0 (.pop :: (body.reverse ++ .push :: past.reverse)) =
        (globalValue name 0 body.reverse).or (globalValue name 0 past.reverse) := by
      simpa [globalValue] using
        globalValue_append hbody name (Nat.zero_le _) (.push :: past.reverse)
    simp only [visible, opening, closing, hlocal, hglobal]
    cases globalValue name 0 body.reverse with
    | none => rfl
    | some value => rfl
  | global =>
    have hlocal : localValue name 0 (.popGlobal :: (body.reverse ++ .pushGlobal :: past.reverse)) =
        localValue name 0 past.reverse := by
      simpa [localValue] using localValue_passes hbody name 0 (.pushGlobal :: past.reverse)
    have hglobal :
        globalValue name 0 (.popGlobal :: (body.reverse ++ .pushGlobal :: past.reverse)) =
          globalValue name 0 past.reverse := by
      simpa [globalValue] using globalValue_passes hbody name 0 (.pushGlobal :: past.reverse)
    simp only [visible, opening, closing, hlocal, hglobal]

/-- After any well bracketed history a lookup finds the innermost visible value, and a
pair around any well bracketed actions restores every lookup, but for the global
variables that a local pair set at the level that stays. -/
theorem variableScopes_restore (topFrame : NameTable Value)
    (past body : List (ScopeAction Value)) (hpast : openAfter past = some brackets)
    (hbody : openAfter body = some []) (kind : Bracket) :
    (∀ name, (run topFrame past).get name = visible topFrame past.reverse name) ∧
      AfterPair (run topFrame past)
        (run topFrame (past ++ kind.opening Value :: (body ++ [kind.closing Value]))) kind past
        body :=
  ⟨get_run hpast, afterPair_run hpast hbody kind⟩

/-- A function that sets a local and a global variable. -/
theorem variableScopes_restore_function :
    (∀ name, (run [] [.set "a" 1]).get name = visible [] [.set "a" 1] name) ∧
      AfterPair (run [] [.set "a" 1])
        (run [] [.set "a" 1, .push, .set "a" 2, .setGlobal "b" 3, .pop]) .stack [.set "a" 1]
        [.set "a" 2, .setGlobal "b" 3] :=
  variableScopes_restore [] [.set "a" 1] [.set "a" 2, .setGlobal "b" 3] rfl rfl .stack

end VariableStacks

end AviSynth
