

/-!
# Script variables

A variable is looked up in the innermost local frame, then in the global frames
from the innermost on, and at last among the global variables of the environment.
Entering a function adds a local frame; the runtime filters can add a local and a
global one together.
-/

namespace AviSynth

/-- Variables with their values. Upper and lower case letters are the same in names. -/
def VarFrame (Value : Type) : Type := String → Option Value

namespace VarFrame

variable {Value : Type}

def empty : VarFrame Value := fun _ => none

def get (frame : VarFrame Value) (name : String) : Option Value := frame name.toLower

def set (frame : VarFrame Value) (name : String) (value : Value) : VarFrame Value :=
  fun key => if key = name.toLower then some value else frame key

/-- A name is read back. -/
@[simp] theorem get_set_self (frame : VarFrame Value) (name : String) (value : Value) :
    (frame.set name value).get name = some value := by
  simp [get, set]

/-- Other names are not affected. -/
theorem get_set_ne (frame : VarFrame Value) {name other : String} (value : Value)
    (h : other.toLower ≠ name.toLower) : (frame.set name value).get other = frame.get other := by
  simp [get, set, h]

end VarFrame

/-- The frames of a thread over the variables of the environment: the innermost local
frame, which is always there, and the other frames with the innermost ones first. -/
structure VarTable (Value : Type) where
  topFrame : VarFrame Value
  stackFrame : VarFrame Value
  outerFrames : List (VarFrame Value)
  globalFrames : List (VarFrame Value)

namespace VarTable

variable {Value : Type}

def push (vars : VarTable Value) : VarTable Value :=
  { vars with stackFrame := VarFrame.empty, outerFrames := vars.stackFrame :: vars.outerFrames }

/-- The last local frame is never popped. -/
def pop (vars : VarTable Value) : VarTable Value :=
  match vars.outerFrames with
  | [] => vars
  | frame :: frames => { vars with stackFrame := frame, outerFrames := frames }

/-- A frame is pushed on both stacks. -/
def pushGlobal (vars : VarTable Value) : VarTable Value :=
  { vars.push with globalFrames := VarFrame.empty :: vars.globalFrames }

/-- A frame is popped from both stacks. -/
def popGlobal (vars : VarTable Value) : VarTable Value :=
  { vars.pop with globalFrames := vars.globalFrames.tail }

def set (vars : VarTable Value) (name : String) (value : Value) : VarTable Value :=
  { vars with stackFrame := vars.stackFrame.set name value }

def setGlobal (vars : VarTable Value) (name : String) (value : Value) : VarTable Value :=
  match vars.globalFrames with
  | [] => { vars with topFrame := vars.topFrame.set name value }
  | frame :: frames => { vars with globalFrames := frame.set name value :: frames }

def get (vars : VarTable Value) (name : String) : Option Value :=
  (vars.stackFrame.get name).or
    ((vars.globalFrames.findSome? fun frame => frame.get name).or (vars.topFrame.get name))

/-- A local variable hides a global one. -/
theorem get_of_local {vars : VarTable Value} {name : String} {value : Value}
    (h : vars.stackFrame.get name = some value) : vars.get name = some value := by
  simp [get, h]

@[simp] theorem setGlobal_stackFrame (vars : VarTable Value) (name : String) (value : Value) :
    (vars.setGlobal name value).stackFrame = vars.stackFrame := by
  unfold setGlobal
  cases vars.globalFrames with
  | nil => rfl
  | cons frame frames => rfl

/-- The global frames of both tables are the same below the innermost one, and the
variables of the environment are the same if there is a global frame. -/
structure SameGlobals (v w : VarTable Value) : Prop where
  length : w.globalFrames.length = v.globalFrames.length
  tail : w.globalFrames.tail = v.globalFrames.tail
  topFrame : v.globalFrames ≠ [] → w.topFrame = v.topFrame

/-- Both tables have the same frames below the innermost ones. -/
structure SameBelow (v w : VarTable Value) : Prop where
  outerFrames : w.outerFrames = v.outerFrames
  globals : SameGlobals v w

variable {u v w : VarTable Value}

namespace SameGlobals

theorem refl (v : VarTable Value) : SameGlobals v v := ⟨rfl, rfl, fun _ => rfl⟩

theorem trans (huv : SameGlobals u v) (hvw : SameGlobals v w) : SameGlobals u w where
  length := hvw.length.trans huv.length
  tail := hvw.tail.trans huv.tail
  topFrame h := by
    have hv : v.globalFrames ≠ [] := by
      intro hnil
      have hlength := huv.length
      rw [hnil, List.length_nil] at hlength
      exact h (List.length_eq_zero_iff.mp hlength.symm)
    exact (hvw.topFrame hv).trans (huv.topFrame h)

end SameGlobals

namespace SameBelow

theorem refl (v : VarTable Value) : SameBelow v v := ⟨rfl, SameGlobals.refl v⟩

theorem trans (huv : SameBelow u v) (hvw : SameBelow v w) : SameBelow u w :=
  ⟨hvw.outerFrames.trans huv.outerFrames, huv.globals.trans hvw.globals⟩

/-- Assigning a variable touches the innermost local frame only. -/
theorem set (v : VarTable Value) (name : String) (value : Value) :
    SameBelow v (v.set name value) := ⟨rfl, rfl, rfl, fun _ => rfl⟩

/-- Assigning a global variable touches the innermost global frame only. -/
theorem setGlobal (v : VarTable Value) (name : String) (value : Value) :
    SameBelow v (v.setGlobal name value) := by
  unfold VarTable.setGlobal
  cases hframes : v.globalFrames with
  | nil => exact ⟨rfl, by simp [hframes], by simp [hframes], fun h => absurd hframes h⟩
  | cons frame frames => exact ⟨rfl, by simp [hframes], by simp [hframes], fun _ => rfl⟩

/-- What happens above a pushed frame is undone by a pop, but for global variables. -/
theorem pop (h : SameBelow v.push w) :
    w.pop.stackFrame = v.stackFrame ∧ SameBelow v w.pop := by
  have houter : w.outerFrames = v.stackFrame :: v.outerFrames := h.outerFrames
  have hpop : w.pop = { w with stackFrame := v.stackFrame, outerFrames := v.outerFrames } := by
    simp [VarTable.pop, houter]
  rw [hpop]
  exact ⟨rfl, rfl, h.globals.length, h.globals.tail, h.globals.topFrame⟩

/-- What happens above a local and a global frame pushed together is undone
altogether by a pop of both. -/
theorem popGlobal (h : SameBelow v.pushGlobal w) : w.popGlobal = v := by
  have houter : w.outerFrames = v.stackFrame :: v.outerFrames := h.outerFrames
  have htop : w.topFrame = v.topFrame := h.globals.topFrame (List.cons_ne_nil _ _)
  have htail : w.globalFrames.tail = v.globalFrames := h.globals.tail
  simp [VarTable.popGlobal, VarTable.pop, houter, htop, htail]

end SameBelow

end VarTable

/-!
## The stacks of variable frames

`VarTable` keeps its frames in two stacks of hash tables. A frame that is popped is
cleared and kept in a pool, from which the next push takes it. The pools are invisible:
to lookups the stacks are the table of `VarTable`.
-/

/-- The hash table of a frame, as the list of its entries. -/
abbrev NameTable (Value : Type) : Type := List (String × Value)

namespace NameTable

variable {Value : Type}

/-- `VarFrame::Get`. -/
def get (frame : NameTable Value) (name : String) : Option Value :=
  (frame.find? fun entry => entry.1.toLower = name.toLower).map Prod.snd

/-- `VarFrame::Set`: an entry is inserted unless there is one, whose name stays; then
the value is assigned. -/
def set (frame : NameTable Value) (name : String) (value : Value) : NameTable Value :=
  match frame with
  | [] => [(name, value)]
  | (key, old) :: rest =>
    if key.toLower = name.toLower then (key, value) :: rest
    else (key, old) :: set rest name value

/-- What `VarFrame::Set` returns: whether the name is new. -/
def isNew (frame : NameTable Value) (name : String) : Bool := (get frame name).isNone

/-- The frame as a function on names in lower case. -/
def toFrame (frame : NameTable Value) : VarFrame Value :=
  fun key => (frame.find? fun entry => entry.1.toLower = key).map Prod.snd

/-- A table of names as a frame. -/
theorem toFrame_get (frame : NameTable Value) (name : String) :
    (toFrame frame).get name = get frame name := rfl

@[simp] theorem toFrame_nil : toFrame ([] : NameTable Value) = VarFrame.empty := rfl

/-- Setting a variable in the table sets it in the function. -/
theorem toFrame_set (frame : NameTable Value) (name : String) (value : Value) :
    toFrame (set frame name value) = (toFrame frame).set name value := by
  funext key
  induction frame with
  | nil => by_cases h : key = name.toLower <;> simp [set, toFrame, VarFrame.set, h, eq_comm]
  | cons entry rest ih =>
    obtain ⟨other, old⟩ := entry
    by_cases hname : other.toLower = name.toLower
    · by_cases h : key = name.toLower
      · simp [set, toFrame, VarFrame.set, hname, h]
      · simp [set, toFrame, VarFrame.set, hname, h, Ne.symm h]
    · simp only [toFrame, VarFrame.set] at ih
      by_cases h : other.toLower = key
      · have hne : key ≠ name.toLower := h ▸ hname
        simp [set, toFrame, VarFrame.set, h, hne]
      · simp [set, toFrame, VarFrame.set, hname, h, ih]

end NameTable

/-- The class `VarTable`. Stacks and pools have their last element first. -/
structure VariableStacks (Value : Type) where
  topFrame : NameTable Value
  stackFrames : List (NameTable Value)
  globalFrames : List (NameTable Value)
  stackPool : List (NameTable Value)
  globalPool : List (NameTable Value)

namespace VariableStacks

variable {Value : Type}

/-- A frame from the pool, or a new one, and the pool without it. -/
def takeFrame (pool : List (NameTable Value)) : NameTable Value × List (NameTable Value) :=
  match pool with
  | [] => ([], [])
  | frame :: rest => (frame, rest)

/-- `Push`. -/
def push (s : VariableStacks Value) : VariableStacks Value :=
  let (frame, pool) := takeFrame s.stackPool
  { s with stackFrames := frame :: s.stackFrames, stackPool := pool }

/-- `Pop`. The frame that goes to the pool has been cleared. -/
def pop (s : VariableStacks Value) : VariableStacks Value :=
  match s.stackFrames with
  | [] => s
  | _ :: rest => { s with stackFrames := rest, stackPool := [] :: s.stackPool }

/-- `PushGlobal`. -/
def pushGlobal (s : VariableStacks Value) : VariableStacks Value :=
  let s := s.push
  let (frame, pool) := takeFrame s.globalPool
  { s with globalFrames := frame :: s.globalFrames, globalPool := pool }

/-- `PopGlobal`. -/
def popGlobal (s : VariableStacks Value) : VariableStacks Value :=
  let s := s.pop
  match s.globalFrames with
  | [] => s
  | _ :: rest => { s with globalFrames := rest, globalPool := [] :: s.globalPool }

/-- `Set`, and what it returns. -/
def set (s : VariableStacks Value) (name : String) (value : Value) :
    VariableStacks Value × Bool :=
  match s.stackFrames with
  | [] => (s, false)
  | frame :: rest =>
    ({ s with stackFrames := frame.set name value :: rest }, frame.isNew name)

/-- `SetGlobal`, and what it returns. -/
def setGlobal (s : VariableStacks Value) (name : String) (value : Value) :
    VariableStacks Value × Bool :=
  match s.globalFrames with
  | [] => ({ s with topFrame := s.topFrame.set name value }, s.topFrame.isNew name)
  | frame :: rest =>
    ({ s with globalFrames := frame.set name value :: rest }, frame.isNew name)

/-- The constructor, over the variables of the environment. -/
def new (topFrame : NameTable Value) : VariableStacks Value :=
  push ⟨topFrame, [], [], [], []⟩

/-- `Get`: the innermost local frame, the global frames from the innermost on, and the
variables of the environment. -/
def get (s : VariableStacks Value) (name : String) : Option Value :=
  (s.stackFrames.head?.bind fun frame => frame.get name).or
    ((s.globalFrames.findSome? fun frame => frame.get name).or (s.topFrame.get name))

/-- The stacks without their pools. -/
def table (s : VariableStacks Value) : VarTable Value where
  topFrame := s.topFrame.toFrame
  stackFrame := ((s.stackFrames.head?).map NameTable.toFrame).getD VarFrame.empty
  outerFrames := s.stackFrames.tail.map NameTable.toFrame
  globalFrames := s.globalFrames.map NameTable.toFrame

/-- There is a local frame, and what is in the pools has been cleared. -/
structure Clean (s : VariableStacks Value) : Prop where
  stackFrames : s.stackFrames ≠ []
  stackPool : ∀ frame ∈ s.stackPool, frame = []
  globalPool : ∀ frame ∈ s.globalPool, frame = []

variable {s : VariableStacks Value}

/-- Frames from a pool of cleared frames are empty. -/
theorem takeFrame_clean {pool : List (NameTable Value)} (h : ∀ frame ∈ pool, frame = []) :
    (takeFrame pool).1 = [] ∧ ∀ frame ∈ (takeFrame pool).2, frame = [] := by
  cases pool with
  | nil => simp [takeFrame]
  | cons frame rest =>
    exact ⟨h frame List.mem_cons_self, fun f hf => h f (List.mem_cons_of_mem _ hf)⟩

theorem Clean.new (topFrame : NameTable Value) : (new topFrame).Clean :=
  ⟨List.cons_ne_nil _ _, by simp [VariableStacks.new, push, takeFrame],
    by simp [VariableStacks.new, push, takeFrame]⟩

/-- A lookup in the stacks is one in the table. -/
theorem get_table (h : s.Clean) (name : String) : s.table.get name = s.get name := by
  obtain ⟨frame, rest, hframes⟩ := List.exists_cons_of_ne_nil h.stackFrames
  simp [table, get, VarTable.get, hframes, NameTable.toFrame_get, List.findSome?_map,
    Function.comp_def]

/-- `push` pushes a frame. -/
theorem push_table (h : s.Clean) : s.push.Clean ∧ s.push.table = s.table.push := by
  obtain ⟨hframe, hpool⟩ := takeFrame_clean h.stackPool
  refine ⟨⟨List.cons_ne_nil _ _, hpool, h.globalPool⟩, ?_⟩
  obtain ⟨frame, rest, hframes⟩ := List.exists_cons_of_ne_nil h.stackFrames
  simp [table, push, VarTable.push, hframe, hframes]

/-- The last local frame is not popped. -/
theorem pop_table (h : s.Clean) (hdepth : s.stackFrames.tail ≠ []) :
    s.pop.Clean ∧ s.pop.table = s.table.pop := by
  obtain ⟨frame, rest, hframes⟩ := List.exists_cons_of_ne_nil h.stackFrames
  rw [hframes, List.tail_cons] at hdepth
  obtain ⟨outer, rest, rfl⟩ := List.exists_cons_of_ne_nil hdepth
  have hpop : s.pop = { s with stackFrames := outer :: rest, stackPool := [] :: s.stackPool } := by
    simp [pop, hframes]
  rw [hpop]
  refine ⟨⟨List.cons_ne_nil _ _, ?_, h.globalPool⟩, ?_⟩
  · simpa using h.stackPool
  · simp [table, VarTable.pop, hframes]

/-- `pushGlobal` pushes two frames. -/
theorem pushGlobal_table (h : s.Clean) :
    s.pushGlobal.Clean ∧ s.pushGlobal.table = s.table.pushGlobal := by
  obtain ⟨hclean, htable⟩ := push_table h
  obtain ⟨hframe, hpool⟩ := takeFrame_clean h.globalPool
  refine ⟨⟨hclean.stackFrames, hclean.stackPool, hpool⟩, ?_⟩
  rw [VarTable.pushGlobal, ← htable]
  simp [table, pushGlobal, hframe, push]

/-- `popGlobal` pops them. -/
theorem popGlobal_table (h : s.Clean) (hdepth : s.stackFrames.tail ≠ [])
    (hglobal : s.globalFrames ≠ []) :
    s.popGlobal.Clean ∧ s.popGlobal.table = s.table.popGlobal := by
  obtain ⟨hclean, htable⟩ := pop_table h hdepth
  obtain ⟨frame, rest, hframes⟩ := List.exists_cons_of_ne_nil hglobal
  have hpop : s.pop.globalFrames = frame :: rest := by
    rw [← hframes, pop]
    cases s.stackFrames <;> rfl
  have hpopGlobal : s.popGlobal =
      { s.pop with globalFrames := rest, globalPool := [] :: s.pop.globalPool } := by
    simp [popGlobal, hpop]
  rw [hpopGlobal]
  refine ⟨⟨hclean.stackFrames, hclean.stackPool, ?_⟩, ?_⟩
  · simpa using hclean.globalPool
  · rw [VarTable.popGlobal, ← htable]
    simp [table, hframes]

/-- `set` sets a local variable. -/
theorem set_table (h : s.Clean) (name : String) (value : Value) :
    (s.set name value).1.Clean ∧ (s.set name value).1.table = s.table.set name value := by
  obtain ⟨frame, rest, hframes⟩ := List.exists_cons_of_ne_nil h.stackFrames
  have hset : (s.set name value).1 = { s with stackFrames := frame.set name value :: rest } := by
    simp [set, hframes]
  rw [hset]
  refine ⟨⟨List.cons_ne_nil _ _, h.stackPool, h.globalPool⟩, ?_⟩
  simp [table, VarTable.set, hframes, NameTable.toFrame_set]

/-- `setGlobal` sets a global one. -/
theorem setGlobal_table (h : s.Clean) (name : String) (value : Value) :
    (s.setGlobal name value).1.Clean ∧
      (s.setGlobal name value).1.table = s.table.setGlobal name value := by
  cases hframes : s.globalFrames with
  | nil =>
    have hset : (s.setGlobal name value).1 = { s with topFrame := s.topFrame.set name value } := by
      simp [setGlobal, hframes]
    rw [hset]
    refine ⟨⟨h.stackFrames, h.stackPool, h.globalPool⟩, ?_⟩
    simp [table, VarTable.setGlobal, hframes, NameTable.toFrame_set]
  | cons frame rest =>
    have hset : (s.setGlobal name value).1 =
        { s with globalFrames := frame.set name value :: rest } := by
      simp [setGlobal, hframes]
    rw [hset]
    refine ⟨⟨h.stackFrames, h.stackPool, h.globalPool⟩, ?_⟩
    simp [table, VarTable.setGlobal, hframes, NameTable.toFrame_set]

end VariableStacks

end AviSynth
