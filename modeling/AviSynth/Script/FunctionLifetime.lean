import AviSynth.Library.Runs
import AviSynth.Script.FunctionCalls

/-!
# Functions live while their bodies are executed

A call through a value is made by an activation that holds the value, and a call
through a local variable by one whose context is not touched before it goes on.
Only the global variable through which a function was called can be assigned while
the function is being executed. Every step first takes the references that it needs
and then releases those that it no longer needs.
-/

namespace AviSynth

namespace FunctionCalls

open RefHeap Transition

theorem functionsOf_eq (vs : List AVSValue) :
    functionsOf vs = vs.flatMap AVSValue.functions := by
  induction vs with
  | nil => rfl
  | cons v vs ih => rw [functionsOf, ih, List.flatMap_cons]

variable {f : ℕ} {name : String} {v : AVSValue}

theorem mem_functionsOf {vs : List AVSValue} :
    f ∈ functionsOf vs ↔ ∃ v ∈ vs, f ∈ v.functions := by
  rw [functionsOf_eq, List.mem_flatMap]

/-- The values that a list of positions picks out are there. -/
theorem mem_of_mapM {α : Type} {temps vs : List α} {is : List ℕ}
    (h : (is.mapM fun i => temps[i]?) = some vs) : ∀ v ∈ vs, v ∈ temps := by
  induction is generalizing vs with
  | nil =>
    cases h
    exact fun v hv => nomatch hv
  | cons i is ih =>
    rw [List.mapM_cons] at h
    obtain ⟨v, hv, h⟩ := Option.bind_eq_some_iff.mp h
    obtain ⟨vs', hvs, h⟩ := Option.bind_eq_some_iff.mp h
    cases h
    intro w hw
    rcases List.mem_cons.mp hw with rfl | hw
    · exact List.mem_of_getElem? hv
    · exact ih hvs w hw

/-- The references of a frame as those of its values. -/
theorem coe_frameFunctions (frame : Frame) :
    (frameFunctions frame : Multiset ℕ) =
      frame.values.bind fun v => (v.functions : Multiset ℕ) := by
  rw [AList.values, Multiset.coe_bind, List.flatMap_map]
  rfl

/-- A variable's references are among those of its frame. -/
theorem mem_frameFunctions {frame : Frame}
    (hlookup : frame.lookup name = some v) (hf : f ∈ v.functions) : f ∈ frameFunctions frame := by
  rw [← Multiset.mem_coe, coe_frameFunctions]
  exact Multiset.mem_bind.mpr ⟨v, AList.mem_values hlookup, hf⟩

/-- The references of a frame after a variable was set. -/
theorem frameFunctions_insert (frame : Frame) (name : String) (v : AVSValue) :
    (frameFunctions (frame.insert name v) : Multiset ℕ) +
        (((frame.lookup name).map AVSValue.functions).getD [] : List ℕ) =
      (v.functions : Multiset ℕ) + (frameFunctions frame : List ℕ) := by
  rw [coe_frameFunctions, coe_frameFunctions, AList.values_insert, Multiset.cons_bind]
  cases hlookup : frame.lookup name with
  | none =>
    rw [AList.erase_of_lookup_none hlookup]
    exact Multiset.add_zero _
  | some old =>
    rw [AList.values_of_lookup hlookup, Multiset.cons_bind]
    simp only [Option.map_some, Option.getD_some]
    abel

/-- The references that the objects of the heap hold. -/
abbrev ownedBy (heap : RefHeap FunctionObject) : Multiset ℕ := heap.owned FunctionObject.children

variable {heap : RefHeap FunctionObject} {others : Multiset ℕ} {frame : Frame} {p : ℕ}
  {obj : FunctionObject}

/-- References are released. -/
theorem counted_releaseFunctions {ps : List ℕ}
    (hcounted : heap.Counted ((ps : Multiset ℕ) + (others + ownedBy heap))) :
    (releaseFunctions heap ps).Counted (others + ownedBy (releaseFunctions heap ps)) :=
  hcounted.releaseChain

/-- What an assignment does to the references, when it has copied the value. -/
theorem counted_assign_copy (name : String)
    (hcounted : heap.Counted (others + (frameFunctions frame : List ℕ) + ownedBy heap))
    (hv : ∀ f ∈ v.functions, f ∈ others + (frameFunctions frame : List ℕ) + ownedBy heap) :
    (heap.addRefs v.functions).Counted
      ((((frame.lookup name.toLower).map AVSValue.functions).getD [] : List ℕ) +
        (others + (frameFunctions (frame.insert name.toLower v) : List ℕ) +
          ownedBy (heap.addRefs v.functions))) := by
  have hcopied := hcounted.addRefs hv
  have hinsert := frameFunctions_insert frame name.toLower v
  rw [ownedBy, owned_addRefs]
  convert hcopied using 1
  calc
    _ = ((frameFunctions (frame.insert name.toLower v) : Multiset ℕ) +
          (((frame.lookup name.toLower).map AVSValue.functions).getD [] : List ℕ)) +
        (others + ownedBy heap) := by abel
    _ = _ := by
      rw [hinsert]
      abel

section

variable (hcounted : heap.Counted (others + (frameFunctions frame : List ℕ) + ownedBy heap))
include hcounted

/-- An assignment keeps the counts. -/
theorem counted_assign
    (hv : ∀ f ∈ v.functions, f ∈ others + (frameFunctions frame : List ℕ) + ownedBy heap) :
    (assign heap frame name v).1.Counted
      (others + (frameFunctions (assign heap frame name v).2 : List ℕ) +
        ownedBy (assign heap frame name v).1) :=
  counted_releaseFunctions (counted_assign_copy name hcounted hv)

/-- An assignment keeps the objects that something else refers to. -/
theorem get_assign
    (hv : ∀ f ∈ v.functions, f ∈ others + (frameFunctions frame : List ℕ) + ownedBy heap)
    (hp : p ∈ others) : (assign heap frame name v).1.get p = heap.get p := by
  have hcopied := counted_assign_copy name hcounted hv
  refine (hcopied.get_releaseChain ?_).trans (get_addRefs heap v.functions p)
  exact Multiset.mem_add.mpr (Or.inl hp)

/-- The variables of a call: captured values and arguments, which something else holds. -/
theorem counted_assignAll {bindings : List (String × AVSValue)} (hp : p ∈ others)
    (hget : heap.get p = some obj)
    (hvalues : ∀ b ∈ bindings, ∀ f ∈ b.2.functions, f ∈ others ∨ f ∈ obj.children) :
    (assignAll heap frame bindings).1.Counted
        (others + (frameFunctions (assignAll heap frame bindings).2 : List ℕ) +
          ownedBy (assignAll heap frame bindings).1) ∧
      ∀ q ∈ others, (assignAll heap frame bindings).1.get q = heap.get q := by
  induction bindings generalizing heap frame with
  | nil => exact ⟨hcounted, fun _ _ => rfl⟩
  | cons b bindings ih =>
    obtain ⟨name, v⟩ := b
    have hv : ∀ f ∈ v.functions, f ∈ others + (frameFunctions frame : List ℕ) + ownedBy heap := by
      intro f hf
      rcases hvalues (name, v) List.mem_cons_self f hf with hf | hf
      · simp only [Multiset.mem_add]
        exact Or.inl (Or.inl hf)
      · exact Multiset.mem_add.mpr (Or.inr (mem_owned hget hf))
    have hget' : (assign heap frame name v).1.get p = some obj := by
      rw [get_assign hcounted hv hp, hget]
    obtain ⟨hcounted', hkept⟩ := ih (counted_assign hcounted hv) hget'
      fun b hb => hvalues b (List.mem_cons_of_mem _ hb)
    exact ⟨hcounted', fun q hq => (hkept q hq).trans (get_assign hcounted hv hq)⟩

end

/-- The references of the temporaries, the tree and the variables of an activation. -/
def Activation.held (a : Activation) : Multiset ℕ :=
  (functionsOf a.temps : List ℕ) + (a.tree : Multiset ℕ) +
    ((a.frame.map frameFunctions).getD [] : List ℕ)

/-- The references of all activations. -/
def stackHeld : List Activation → Multiset ℕ
  | [] => 0
  | a :: rest => a.held + stackHeld rest

variable {globals : Frame} {stack : List Activation}

/-- The innermost context is part of what the activations hold. -/
theorem stackHeld_setTopFrame (htop : topFrame stack = some frame) :
    ∃ others : Multiset ℕ, stackHeld stack = others + (frameFunctions frame : List ℕ) ∧
      ∀ frame', stackHeld (setTopFrame frame' stack) =
        others + (frameFunctions frame' : List ℕ) := by
  induction stack with
  | nil => cases htop
  | cons a rest ih =>
    cases hframe : a.frame with
    | some own =>
      simp only [topFrame, hframe, Option.some.injEq] at htop
      subst htop
      refine ⟨(functionsOf a.temps : List ℕ) + (a.tree : Multiset ℕ) + stackHeld rest, ?_,
        fun frame' => ?_⟩
      · simp only [stackHeld, Activation.held, hframe, Option.map_some, Option.getD_some]
        abel
      · simp only [setTopFrame, hframe, stackHeld, Activation.held, Option.map_some,
          Option.getD_some]
        abel
    | none =>
      simp only [topFrame, hframe] at htop
      obtain ⟨others, hbefore, hafter⟩ := ih htop
      refine ⟨a.held + others, ?_, fun frame' => ?_⟩
      · rw [stackHeld, hbefore, Multiset.add_assoc]
      · simp only [setTopFrame, hframe, stackHeld, hafter, Multiset.add_assoc]

/-- How the function of a call is held while it is executed. -/
def Held (globals : Frame) (rest : List Activation) (p : ℕ) : Way → Prop
  | .value => ∃ a, rest.head? = some a ∧ p ∈ functionsOf a.temps
  | .localVariable => ∃ frame, topFrame rest = some frame ∧ p ∈ frameFunctions frame
  | .globalVariable name => ∃ v, globals.lookup name = some v ∧ p ∈ v.functions

/-- A call has a context of its own, its function is held, and is what it was. -/
structure Protects (heap : RefHeap FunctionObject) (globals : Frame) (a : Activation)
    (rest : List Activation) (call : Call) : Prop where
  context : a.frame.isSome = true
  held : Held globals rest call.p call.way
  same : heap.get call.p = some (.script call.pdef call.varData)

/-- Every call is protected. -/
def Protected (heap : RefHeap FunctionObject) (globals : Frame) : List Activation → Prop
  | [] => True
  | a :: rest =>
    (∀ call, a.executing = some call → Protects heap globals a rest call) ∧
      Protected heap globals rest

/-- The innermost activation may change its program, its temporaries and its tree. -/
theorem Protected.top {a b : Activation} {rest : List Activation}
    (h : Protected heap globals (a :: rest)) (hexecuting : b.executing = a.executing)
    (hframe : b.frame = a.frame) : Protected heap globals (b :: rest) := by
  refine ⟨fun call hb => ?_, h.2⟩
  obtain ⟨hcontext, hheld, hsame⟩ := h.1 call (hexecuting ▸ hb)
  exact ⟨hframe ▸ hcontext, hheld, hsame⟩

section

variable (h : Protected heap globals stack)
include h

/-- An assignment of a local variable touches no context that holds a called function. -/
theorem Protected.setTopFrame (frame : Frame) :
    Protected heap globals (FunctionCalls.setTopFrame frame stack) := by
  induction stack with
  | nil => trivial
  | cons a rest ih =>
    cases hframe : a.frame with
    | some own =>
      simp only [FunctionCalls.setTopFrame, hframe]
      refine ⟨fun call hexecuting => ?_, h.2⟩
      exact ⟨rfl, (h.1 call hexecuting).held, (h.1 call hexecuting).same⟩
    | none =>
      simp only [FunctionCalls.setTopFrame, hframe]
      refine ⟨fun call hexecuting => ?_, ih h.2⟩
      have hcontext := (h.1 call hexecuting).context
      rw [hframe] at hcontext
      cases hcontext

/-- An assignment of a global variable through which nothing that is being executed
was called. -/
theorem Protected.setGlobal (v : AVSValue)
    (hfree : ∀ a ∈ stack, a.executing.map Call.way ≠ some (.globalVariable name)) :
    Protected heap (globals.insert name v) stack := by
  induction stack with
  | nil => trivial
  | cons a rest ih =>
    refine ⟨fun call hexecuting => ?_, ih h.2 fun b hb => hfree b (List.mem_cons_of_mem a hb)⟩
    obtain ⟨hcontext, hheld, hsame⟩ := h.1 call hexecuting
    refine ⟨hcontext, ?_, hsame⟩
    have hown := hfree a List.mem_cons_self
    rw [hexecuting, Option.map_some] at hown
    obtain ⟨p, way, pdef, varData⟩ := call
    cases way with
    | value => exact hheld
    | localVariable => exact hheld
    | globalVariable other =>
      obtain ⟨w, hlookup, hp⟩ := hheld
      have hne : other ≠ name := by
        rintro rfl
        exact hown rfl
      exact ⟨w, by rw [AList.lookup_insert_ne hne, hlookup], hp⟩

omit h in
/-- What holds a called function refers to it. -/
theorem mem_of_held {way : Way} (hheld : Held globals stack p way) :
    p ∈ (frameFunctions globals : Multiset ℕ) + stackHeld stack := by
  apply Multiset.mem_add.mpr
  cases way with
  | value =>
    obtain ⟨a, hhead, hp⟩ := hheld
    obtain ⟨rest, rfl⟩ := List.head?_eq_some_iff.mp hhead
    right
    simp only [stackHeld, Activation.held, Multiset.mem_add, Multiset.mem_coe]
    exact Or.inl (Or.inl (Or.inl hp))
  | localVariable =>
    obtain ⟨frame, htop, hp⟩ := hheld
    obtain ⟨others, hbefore, -⟩ := stackHeld_setTopFrame htop
    right
    rw [hbefore]
    exact Multiset.mem_add.mpr (Or.inr (Multiset.mem_coe.mpr hp))
  | globalVariable name =>
    obtain ⟨v, hlookup, hp⟩ := hheld
    exact Or.inl (Multiset.mem_coe.mpr (mem_frameFunctions hlookup hp))

/-- Functions of calls are among those that variables and activations refer to. -/
theorem Protected.mem {a : Activation} (ha : a ∈ stack) {call : Call}
    (hexecuting : a.executing = some call) :
    call.p ∈ (frameFunctions globals : Multiset ℕ) + stackHeld stack := by
  induction stack with
  | nil => cases ha
  | cons b rest ih =>
    have hweaken : call.p ∈ (frameFunctions globals : Multiset ℕ) + stackHeld rest →
        call.p ∈ (frameFunctions globals : Multiset ℕ) + stackHeld (b :: rest) := by
      simp only [stackHeld, Multiset.mem_add]
      tauto
    apply hweaken
    rcases List.mem_cons.mp ha with rfl | ha
    · exact mem_of_held (h.1 call hexecuting).held
    · exact ih h.2 ha

/-- A call finds its function unchanged. -/
theorem Protected.get {a : Activation} (ha : a ∈ stack) {call : Call}
    (hexecuting : a.executing = some call) :
    heap.get call.p = some (.script call.pdef call.varData) := by
  induction stack with
  | nil => cases ha
  | cons b rest ih =>
    rcases List.mem_cons.mp ha with rfl | ha
    · exact (h.1 call hexecuting).same
    · exact ih h.2 ha

/-- The heap may change where no call finds its function. -/
theorem Protected.congr {heap' : RefHeap FunctionObject}
    (hkept : ∀ q ∈ (frameFunctions globals : Multiset ℕ) + stackHeld stack,
      heap'.get q = heap.get q) : Protected heap' globals stack := by
  induction stack with
  | nil => trivial
  | cons a rest ih =>
    have hrest : ∀ q ∈ (frameFunctions globals : Multiset ℕ) + stackHeld rest,
        heap'.get q = heap.get q := by
      intro q hq
      apply hkept
      simp only [stackHeld, Multiset.mem_add] at hq ⊢
      tauto
    refine ⟨fun call hexecuting => ?_, ih h.2 hrest⟩
    obtain ⟨hcontext, hheld, hsame⟩ := h.1 call hexecuting
    exact ⟨hcontext, hheld, (hrest _ (mem_of_held hheld)).trans hsame⟩

end

namespace Interpreter

variable {s t : Interpreter} {a : Activation} {rest : List Activation} {next : Answer → Script}
  {v : AVSValue} {args : List AVSValue} {name : String} {way : Way}

/-- All references. -/
def references (s : Interpreter) : Multiset ℕ :=
  (frameFunctions s.globals : List ℕ) + stackHeld s.stack + (s.leaked : Multiset ℕ) +
    ownedBy s.heap

/-- The counts are those of the references, and calls are protected. -/
structure Sound (s : Interpreter) : Prop where
  counted : s.heap.Counted s.references
  held : Protected s.heap s.globals s.stack

/-- References that a step no longer needs are released. -/
theorem Sound.releaseFunctions {ps : List ℕ}
    (hcounted : s.heap.Counted ((ps : Multiset ℕ) + s.references))
    (hheld : Protected s.heap s.globals s.stack) :
    Sound { s with heap := FunctionCalls.releaseFunctions s.heap ps } := by
  constructor
  · exact counted_releaseFunctions hcounted
  · apply hheld.congr
    intro q hq
    exact hcounted.get_releaseChain (Multiset.mem_add.mpr (Or.inl hq))

/-- What the innermost activation has in hand is alive. -/
theorem mem_of_temps (hstack : s.stack = a :: rest) (hv : v ∈ a.temps)
    (hf : f ∈ v.functions) : f ∈ s.references := by
  have htemps : f ∈ functionsOf a.temps := mem_functionsOf.mpr ⟨v, hv, hf⟩
  simp only [references, hstack, stackHeld, Activation.held, Multiset.mem_add, Multiset.mem_coe]
  tauto

/-- So is its tree. -/
theorem mem_of_tree (hstack : s.stack = a :: rest) (hf : f ∈ a.tree) :
    f ∈ s.references := by
  simp only [references, hstack, stackHeld, Activation.held, Multiset.mem_add, Multiset.mem_coe]
  tauto

/-- And so are the definitions in the tree of the body. -/
theorem mem_of_nodes (hstack : s.stack = a :: rest) (hf : f ∈ s.nodes a) :
    f ∈ s.references := by
  unfold nodes at hf
  split at hf
  · rename_i index inner hbody
    rcases List.mem_append.mp hf with hf | hf
    · exact mem_of_tree hstack hf
    · obtain ⟨call, -, hget⟩ := Option.bind_eq_some_iff.mp hbody
      exact Multiset.mem_add.mpr (Or.inr (mem_owned hget hf))
  · exact mem_of_tree hstack hf

/-- A variable that is found is held by its frame, in the way that the lookup says. -/
theorem held_of_lookupVar (hfound : s.lookupVar name = some (.function p, way)) :
    Held s.globals s.stack p way := by
  unfold lookupVar at hfound
  split at hfound
  · rename_i v hlocal
    obtain ⟨⟩ := Option.some.inj hfound
    obtain ⟨frame, htop, hlookup⟩ := Option.bind_eq_some_iff.mp hlocal
    exact ⟨frame, htop, mem_frameFunctions hlookup List.mem_cons_self⟩
  · obtain ⟨w, hlookup, ⟨⟩⟩ := Option.map_eq_some_iff.mp hfound
    exact ⟨_, hlookup, List.mem_cons_self⟩

/-- The value of a variable is alive. -/
theorem mem_of_lookupVar (hfound : s.lookupVar name = some (v, way))
    (hf : f ∈ v.functions) : f ∈ s.references := by
  unfold lookupVar at hfound
  simp only [references, Multiset.mem_add, Multiset.mem_coe]
  split at hfound
  · rename_i w hlocal
    obtain ⟨rfl, -⟩ := Prod.mk.inj (Option.some.inj hfound)
    obtain ⟨frame, htop, hlookup⟩ := Option.bind_eq_some_iff.mp hlocal
    obtain ⟨others, hbefore, -⟩ := stackHeld_setTopFrame htop
    rw [hbefore, Multiset.mem_add, Multiset.mem_coe]
    have hmem := mem_frameFunctions hlookup hf
    tauto
  · obtain ⟨w, hlookup, heq⟩ := Option.map_eq_some_iff.mp hfound
    obtain ⟨rfl, -⟩ := Prod.mk.inj heq
    have hmem := mem_frameFunctions hlookup hf
    tauto

/-- So are captured values. -/
theorem mem_of_capture (names : List String)
    (hf : f ∈ functionsOf (s.capture names).1) : f ∈ s.references := by
  induction names with
  | nil => cases hf
  | cons name names ih =>
    unfold capture at hf
    split at hf
    · cases hf
    · rename_i v way hfound
      rcases List.mem_append.mp hf with hf | hf
      · exact mem_of_lookupVar hfound hf
      · exact ih hf

section

variable (h : Sound s)
include h

section

variable (hstack : s.stack = a :: rest)
include hstack

/-- The program goes on without a change of references. -/
theorem Sound.goOn (answer : Answer) :
    Sound (s.goOn a rest next answer) := by
  have hheld := h.held
  rw [hstack] at hheld
  constructor
  · have hcounted := h.counted
    simp only [references, hstack] at hcounted
    exact hcounted
  · exact hheld.top rfl rfl

/-- The program gets a copy of a live value. -/
theorem Sound.give (hv : ∀ f ∈ v.functions, f ∈ s.references) : Sound (s.give a rest next v) := by
  have hheld := h.held
  rw [hstack] at hheld
  constructor
  · have hrefs : (s.give a rest next v).references =
        (v.functions : Multiset ℕ) + s.references := by
      simp only [references, Interpreter.give, ownedBy, owned_addRefs, hstack, stackHeld,
        Activation.held, functionsOf, ← Multiset.coe_add]
      abel
    rw [hrefs]
    exact h.counted.addRefs hv
  · have hprogram := Protected.congr hheld fun q _ => get_addRefs s.heap v.functions q
    exact hprogram.top rfl rfl

omit hstack in
/-- A new object that refers to live ones leaves the calls protected. -/
theorem Protected.alloc (hobj : ∀ f ∈ obj.children, f ∈ s.references) :
    Protected ((s.heap.addRefs obj.children).alloc obj) s.globals s.stack := by
  apply h.held.congr
  intro q hq
  have hq' : q ∈ (obj.children : Multiset ℕ) + s.references := by
    refine Multiset.mem_add.mpr (Or.inr ?_)
    exact Multiset.mem_add.mpr (Or.inl (Multiset.mem_add.mpr (Or.inl hq)))
  rw [(h.counted.addRefs hobj).get_alloc hq', get_addRefs]

/-- The program gets a new object that refers to live ones. -/
theorem Sound.giveNew
    (hobj : ∀ f ∈ obj.children, f ∈ s.references) : Sound (s.giveNew a rest next obj) := by
  have hheld := Protected.alloc h hobj
  rw [hstack] at hheld
  constructor
  · have hrefs : (s.giveNew a rest next obj).references =
        (s.heap.addRefs obj.children).fresh ::ₘ ((obj.children : Multiset ℕ) + s.references) := by
      rw [← Multiset.singleton_add]
      simp only [references, Interpreter.giveNew, ownedBy, owned_alloc, owned_addRefs, hstack,
        stackHeld, Activation.held, functionsOf, AVSValue.functions, ← Multiset.coe_add,
        Multiset.coe_singleton]
      abel
    rw [hrefs]
    exact (h.counted.addRefs hobj).alloc obj
  · exact hheld.top rfl rfl

/-- The tree of the program gets a new definition. -/
theorem Sound.giveNode
    (hobj : ∀ f ∈ obj.children, f ∈ s.references) : Sound (s.giveNode a rest next obj) := by
  have hheld := Protected.alloc h hobj
  rw [hstack] at hheld
  constructor
  · have hrefs : (s.giveNode a rest next obj).references =
        (s.heap.addRefs obj.children).fresh ::ₘ ((obj.children : Multiset ℕ) + s.references) := by
      rw [← Multiset.singleton_add]
      simp only [references, Interpreter.giveNode, ownedBy, owned_alloc, owned_addRefs, hstack,
        stackHeld, Activation.held, ← Multiset.cons_coe, ← Multiset.singleton_add]
      abel
    rw [hrefs]
    exact (h.counted.addRefs hobj).alloc obj
  · exact hheld.top rfl rfl

/-- A temporary goes away. -/
theorem Sound.drop {i : ℕ} (hv : a.temps[i]? = some v) :
    Sound { s with
      heap := FunctionCalls.releaseFunctions s.heap v.functions
      stack := { a with program := next .done, temps := a.temps.eraseIdx i } :: rest } := by
  have hheld := h.held
  rw [hstack] at hheld
  obtain ⟨hi, rfl⟩ := List.getElem?_eq_some_iff.mp hv
  have hperm := (List.getElem_cons_eraseIdx_perm hi).flatMap_right AVSValue.functions
  have htemps : (functionsOf a.temps : Multiset ℕ) =
      (a.temps[i].functions : Multiset ℕ) + (functionsOf (a.temps.eraseIdx i) : List ℕ) := by
    rw [functionsOf_eq, functionsOf_eq, ← Multiset.coe_eq_coe.mpr hperm, List.flatMap_cons,
      Multiset.coe_add]
  let u : Interpreter :=
    { s with stack := { a with program := next .done, temps := a.temps.eraseIdx i } :: rest }
  have hcounted : u.heap.Counted ((a.temps[i].functions : Multiset ℕ) + u.references) := by
    convert h.counted using 1
    simp only [u, references, hstack, stackHeld, Activation.held, htemps]
    abel
  have hprogram : Protected u.heap u.globals u.stack := hheld.top rfl rfl
  exact Sound.releaseFunctions hcounted hprogram

/-- A local variable is set. -/
theorem Sound.setVar {frame : Frame} (htop : topFrame s.stack = some frame)
    (hv : ∀ f ∈ v.functions, f ∈ s.references) :
    Sound { s with
      heap := (assign s.heap frame name v).1
      stack := setTopFrame (assign s.heap frame name v).2
        ({ a with program := next .done } :: rest) } := by
  have hheld := h.held
  rw [hstack] at hheld htop
  have htop' : topFrame ({ a with program := next .done } :: rest) = some frame := htop
  obtain ⟨others, hbefore, hafter⟩ := stackHeld_setTopFrame htop'
  have hstackHeld : stackHeld s.stack = others + (frameFunctions frame : List ℕ) := by
    rw [hstack, ← hbefore]
    rfl
  have hrefs : s.references = ((frameFunctions s.globals : Multiset ℕ) + others + s.leaked) +
      (frameFunctions frame : List ℕ) + ownedBy s.heap := by
    rw [references, hstackHeld]
    abel
  have hcounted := h.counted
  rw [hrefs] at hcounted hv
  let u : Interpreter :=
    { s with
      heap := s.heap.addRefs v.functions
      stack := setTopFrame (frame.insert name.toLower v)
        ({ a with program := next .done } :: rest) }
  have hcopied : u.heap.Counted
      ((((frame.lookup name.toLower).map AVSValue.functions).getD [] : List ℕ) +
        u.references) := by
    convert counted_assign_copy name hcounted hv using 1
    simp only [u, references, hafter]
    abel
  have hprogram : Protected s.heap s.globals ({ a with program := next .done } :: rest) :=
    hheld.top rfl rfl
  have hset : Protected u.heap u.globals u.stack :=
    (hprogram.setTopFrame _).congr fun q _ => get_addRefs s.heap v.functions q
  exact Sound.releaseFunctions hcopied hset

/-- A global variable is set through which no executed function was called. -/
theorem Sound.setGlobalVar (hv : ∀ f ∈ v.functions, f ∈ s.references)
    (hfree : ∀ b ∈ s.stack, b.executing.map Call.way ≠ some (.globalVariable name.toLower)) :
    Sound { s with
      heap := (assign s.heap s.globals name v).1
      globals := (assign s.heap s.globals name v).2
      stack := { a with program := next .done } :: rest } := by
  have hheld := h.held.setGlobal v hfree
  rw [hstack] at hheld
  have hrefs : s.references = (stackHeld s.stack + (s.leaked : Multiset ℕ)) +
      (frameFunctions s.globals : List ℕ) + ownedBy s.heap := by
    rw [references]
    abel
  have hcounted := h.counted
  rw [hrefs] at hcounted hv
  let u : Interpreter :=
    { s with
      heap := s.heap.addRefs v.functions
      globals := s.globals.insert name.toLower v
      stack := { a with program := next .done } :: rest }
  have hcopied : u.heap.Counted
      ((((s.globals.lookup name.toLower).map AVSValue.functions).getD [] : List ℕ) +
        u.references) := by
    convert counted_assign_copy name hcounted hv using 1
    simp only [u, references, hstack, stackHeld, Activation.held]
    abel
  have hprogram := Protected.congr hheld fun q _ => get_addRefs s.heap v.functions q
  have hset : Protected u.heap u.globals u.stack := hprogram.top rfl rfl
  exact Sound.releaseFunctions hcopied hset

/-- A constructor of a function throws and leaves copies of captured values behind. -/
theorem Sound.leak (hargs : ∀ f ∈ functionsOf args, f ∈ s.references) :
    Sound { s.goOn a rest next .thrown with
      heap := s.heap.addRefs (functionsOf args)
      leaked := functionsOf args ++ s.leaked } := by
  have hgoOn : Sound (s.goOn a rest next .thrown) := h.goOn hstack .thrown
  constructor
  · have hcounted := h.counted.addRefs hargs
    convert hcounted using 1
    simp only [references, Interpreter.goOn, ownedBy, owned_addRefs, hstack, stackHeld,
      Activation.held, ← Multiset.coe_add]
    abel
  · exact Protected.congr hgoOn.held fun q _ => get_addRefs s.heap (functionsOf args) q

end

/-- A function that is held is executed with live arguments. -/
theorem Sound.execute {d : Definition} {call : Call}
    (hget : s.heap.get call.p = some (.script call.pdef call.varData))
    (hheld : Held s.globals s.stack call.p call.way)
    (hargs : ∀ f ∈ functionsOf args, f ∈ s.references) : Sound (s.execute d call args) := by
  have hcopied := h.counted.addRefs hargs
  have hothers : (functionsOf args : Multiset ℕ) + s.references =
      ((functionsOf args : Multiset ℕ) + (frameFunctions s.globals + stackHeld s.stack) +
        s.leaked) + (frameFunctions ∅ : List ℕ) + ownedBy (s.heap.addRefs (functionsOf args)) := by
    rw [ownedBy, owned_addRefs, references]
    rw [show ((frameFunctions ∅ : List ℕ) : Multiset ℕ) = 0 from rfl]
    abel
  rw [hothers] at hcopied
  have hmem : ∀ q ∈ (frameFunctions s.globals : Multiset ℕ) + stackHeld s.stack,
      q ∈ (functionsOf args : Multiset ℕ) + (frameFunctions s.globals + stackHeld s.stack) +
        s.leaked := fun q hq =>
    Multiset.mem_add.mpr (Or.inl (Multiset.mem_add.mpr (Or.inr hq)))
  have hget' : (s.heap.addRefs (functionsOf args)).get call.p =
      some (.script call.pdef call.varData) := by
    rw [get_addRefs, hget]
  let bindings := d.varNames.zip call.varData ++ d.paramNames.zip args
  have hbindings : ∀ b ∈ bindings, ∀ f ∈ b.2.functions,
      f ∈ (functionsOf args : Multiset ℕ) + (frameFunctions s.globals + stackHeld s.stack) +
        s.leaked ∨ f ∈ (FunctionObject.script call.pdef call.varData).children := by
    intro b hb f hf
    rcases List.mem_append.mp hb with hb | hb
    · right
      apply List.mem_cons_of_mem
      exact mem_functionsOf.mpr ⟨b.2, (List.of_mem_zip hb).2, hf⟩
    · left
      simp only [Multiset.mem_add, Multiset.mem_coe]
      exact Or.inl (Or.inl (mem_functionsOf.mpr ⟨b.2, (List.of_mem_zip hb).2, hf⟩))
  obtain ⟨hvars, hkept⟩ := counted_assignAll hcopied (hmem _ (mem_of_held hheld)) hget' hbindings
  have hsame : ∀ q ∈ (frameFunctions s.globals : Multiset ℕ) + stackHeld s.stack,
      (s.execute d call args).heap.get q = s.heap.get q := by
    intro q hq
    exact (hkept q (hmem q hq)).trans (get_addRefs s.heap (functionsOf args) q)
  let vars := assignAll (s.heap.addRefs (functionsOf args)) ∅ bindings
  have hrefs : (s.execute d call args).references =
      ((functionsOf args : Multiset ℕ) + (frameFunctions s.globals + stackHeld s.stack) +
        s.leaked) + (frameFunctions vars.2 : List ℕ) + ownedBy vars.1 := by
    simp only [references, Interpreter.execute, stackHeld, Activation.held, Option.map_some,
      Option.getD_some, vars, bindings, Multiset.coe_nil]
    abel
  constructor
  · rw [hrefs]
    exact hvars
  · refine ⟨fun other hexecuting => ?_, h.held.congr hsame⟩
    obtain rfl := Option.some.inj hexecuting
    exact ⟨rfl, hheld, (hsame _ (mem_of_held hheld)).trans hget⟩

end

variable {definitions : ℕ → Definition} {builtins : String → List AVSValue → Option Script}

/-- A built-in function is called, or not found. -/
theorem Sound.callBuiltin (h : Sound s) (hstack : s.stack = a :: rest)
    (hargs : ∀ f ∈ functionsOf args, f ∈ s.references) :
    Sound (s.callBuiltin a rest next builtins name args) := by
  unfold Interpreter.callBuiltin
  split
  · exact h.goOn hstack .thrown
  · constructor
    · have hcounted := h.counted.addRefs hargs
      convert hcounted using 1
      simp only [references, ownedBy, owned_addRefs, stackHeld, Activation.held, Option.map_none,
        Option.getD_none, Multiset.coe_nil, Multiset.add_zero]
      abel
    · refine ⟨fun call hexecuting => (nomatch hexecuting), ?_⟩
      exact h.held.congr fun q _ => get_addRefs s.heap (functionsOf args) q

/-- A call by name. The variable holds the function. -/
theorem Sound.callName (h : Sound s) (hstack : s.stack = a :: rest)
    (hargs : ∀ f ∈ functionsOf args, f ∈ s.references)
    (hcall : s.callName a rest next definitions builtins name args = some t) : Sound t := by
  unfold Interpreter.callName at hcall
  split at hcall
  · rename_i p way hfound
    split at hcall
    · cases hcall
      exact h.callBuiltin hstack hargs
    · rename_i pdef varData hget
      obtain ⟨d, -, rfl⟩ := Option.map_eq_some_iff.mp hcall
      split
      · exact h.execute hget (held_of_lookupVar hfound) hargs
      · exact h.callBuiltin hstack hargs
    · cases hcall
  · cases hcall
    exact h.callBuiltin hstack hargs

/-- A call through a value. The caller holds the function. -/
theorem Sound.callFunction (h : Sound s) (hstack : s.stack = a :: rest) (hv : v ∈ a.temps)
    (hargs : ∀ f ∈ functionsOf args, f ∈ s.references)
    (hcall : s.callFunction a rest next definitions builtins v args = some t) : Sound t := by
  unfold Interpreter.callFunction at hcall
  split at hcall
  · rename_i p
    split at hcall
    · exact h.callName hstack hargs hcall
    · rename_i pdef varData hget
      obtain ⟨d, -, rfl⟩ := Option.map_eq_some_iff.mp hcall
      split
      · have hp : p ∈ functionsOf a.temps := mem_functionsOf.mpr ⟨_, hv, List.mem_cons_self⟩
        have hheld : Held s.globals s.stack p .value := by
          rw [hstack]
          exact ⟨a, rfl, hp⟩
        exact h.execute hget hheld hargs
      · exact h.goOn hstack .thrown
    · cases hcall
  · cases hcall
    exact h.goOn hstack .thrown

/-- The end of an activation. -/
theorem Sound.finish (h : Sound s) (hstack : s.stack = a :: rest) {out : Finish}
    (hfinish : s.finish a rest out = some t) : Sound t := by
  have hheld := h.held
  rw [hstack] at hheld
  unfold Interpreter.finish at hfinish
  split at hfinish
  · rename_i req next temps tree frame executing below
    have hcaller : Protected s.heap s.globals
        (⟨.request req next, temps, tree, frame, executing⟩ :: below) := hheld.2
    cases out with
    | thrown =>
      cases hfinish
      let u : Interpreter :=
        { s with stack := ⟨next .thrown, temps, tree, frame, executing⟩ :: below }
      have hcounted : u.heap.Counted
          ((functionsOf a.temps ++ a.tree ++ (a.frame.map frameFunctions).getD [] : List ℕ) +
            u.references) := by
        convert h.counted using 1
        simp only [u, references, hstack, stackHeld, Activation.held, ← Multiset.coe_add]
        abel
      have hprogram : Protected u.heap u.globals u.stack := hcaller.top rfl rfl
      exact Sound.releaseFunctions hcounted hprogram
    | value i =>
      obtain ⟨v, hv, rfl⟩ := Option.map_eq_some_iff.mp hfinish
      have hlive : ∀ f ∈ v.functions, f ∈ s.references := fun f hf =>
        mem_of_temps hstack (List.mem_of_getElem? hv) hf
      let u : Interpreter :=
        { s with
          heap := s.heap.addRefs v.functions
          stack := ⟨next (.value v), v :: temps, tree, frame, executing⟩ :: below }
      have hcounted : u.heap.Counted
          ((functionsOf a.temps ++ a.tree ++ (a.frame.map frameFunctions).getD [] : List ℕ) +
            u.references) := by
        have hcopied := h.counted.addRefs hlive
        convert hcopied using 1
        simp only [u, references, hstack, stackHeld, Activation.held, functionsOf, ownedBy,
          owned_addRefs, ← Multiset.coe_add]
        abel
      have hkept := Protected.congr hcaller fun q _ => get_addRefs s.heap v.functions q
      have hprogram : Protected u.heap u.globals u.stack := hkept.top rfl rfl
      exact Sound.releaseFunctions hcounted hprogram
  · cases hfinish

/-- The next step does not assign a global variable through which a function was
called that is still being executed. -/
def Regular (s : Interpreter) : Prop :=
  match s.stack with
  | ⟨.request (.setGlobalVar name _) _, _, _, _, _⟩ :: _ =>
    ∀ b ∈ s.stack, b.executing.map Call.way ≠ some (.globalVariable name.toLower)
  | _ => True

instance (s : Interpreter) : Decidable (Regular s) := by
  unfold Regular
  split
  · infer_instance
  · infer_instance

/-- A request of the innermost activation. -/
theorem Sound.handle (h : Sound s) (hstack : s.stack = a :: rest) {req : Request}
    (hregular : ∀ name i, req = .setGlobalVar name i →
      ∀ b ∈ s.stack, b.executing.map Call.way ≠ some (.globalVariable name.toLower))
    (hhandle : s.handle a rest next definitions builtins req = some t) : Sound t := by
  have hpicked : ∀ {is : List ℕ} {vs : List AVSValue},
      (is.mapM fun i => a.temps[i]?) = some vs → ∀ f ∈ functionsOf vs, f ∈ s.references := by
    intro is vs hvs f hf
    obtain ⟨v, hv, hf⟩ := mem_functionsOf.mp hf
    exact mem_of_temps hstack (mem_of_mapM hvs v hv) hf
  cases req with
  | literal text =>
    cases hhandle
    exact h.give hstack fun f hf => nomatch hf
  | makeArray is =>
    obtain ⟨vs, hvs, rfl⟩ := Option.map_eq_some_iff.mp hhandle
    exact h.give hstack (hpicked hvs)
  | element i j =>
    simp only [Interpreter.handle] at hhandle
    split at hhandle
    · rename_i elements hi
      obtain ⟨v, hj, rfl⟩ := Option.map_eq_some_iff.mp hhandle
      refine h.give hstack fun f hf => mem_of_temps hstack (List.mem_of_getElem? hi) ?_
      exact mem_functionsOf.mpr ⟨v, List.mem_of_getElem? hj, hf⟩
    · cases hhandle
  | drop i =>
    obtain ⟨v, hv, rfl⟩ := Option.map_eq_some_iff.mp hhandle
    exact h.drop hstack hv
  | getVar name =>
    simp only [Interpreter.handle] at hhandle
    split at hhandle
    · cases hhandle
      exact h.goOn hstack .missing
    · rename_i v way hfound
      cases hhandle
      exact h.give hstack fun f hf => mem_of_lookupVar hfound hf
  | setVar name i =>
    obtain ⟨v, hv, hhandle⟩ := Option.bind_eq_some_iff.mp hhandle
    obtain ⟨frame, htop, rfl⟩ := Option.map_eq_some_iff.mp hhandle
    exact h.setVar hstack htop fun f hf => mem_of_temps hstack (List.mem_of_getElem? hv) hf
  | setGlobalVar name i =>
    obtain ⟨v, hv, rfl⟩ := Option.map_eq_some_iff.mp hhandle
    exact h.setGlobalVar hstack
      (fun f hf => mem_of_temps hstack (List.mem_of_getElem? hv) hf) (hregular name i rfl)
  | parse index is =>
    obtain ⟨inner, hinner, rfl⟩ := Option.map_eq_some_iff.mp hhandle
    exact h.giveNode hstack fun f hf => mem_of_tree hstack (mem_of_mapM hinner f hf)
  | newFunction i =>
    obtain ⟨pdef, hnode, hhandle⟩ := Option.bind_eq_some_iff.mp hhandle
    obtain ⟨d, -, rfl⟩ := Option.map_eq_some_iff.mp hhandle
    have hpdef := mem_of_nodes hstack (List.mem_of_getElem? hnode)
    have hcaptured : ∀ f ∈ functionsOf (s.capture d.varNames).1, f ∈ s.references :=
      fun f hf => mem_of_capture d.varNames hf
    split
    · rename_i varData hcapture
      rw [hcapture] at hcaptured
      apply h.giveNew hstack
      intro f hf
      rcases List.mem_cons.mp hf with rfl | hf
      · exact hpdef
      · exact hcaptured f hf
    · rename_i varData hcapture
      rw [hcapture] at hcaptured
      exact h.leak hstack hcaptured
  | wrapFunction name =>
    cases hhandle
    exact h.giveNew hstack fun f hf => nomatch hf
  | call name is =>
    obtain ⟨args, hargs, hcall⟩ := Option.bind_eq_some_iff.mp hhandle
    exact h.callName hstack (hpicked hargs) hcall
  | callValue f is =>
    obtain ⟨v, hv, hhandle⟩ := Option.bind_eq_some_iff.mp hhandle
    obtain ⟨args, hargs, hcall⟩ := Option.bind_eq_some_iff.mp hhandle
    exact h.callFunction hstack (List.mem_of_getElem? hv) (hpicked hargs) hcall

/-- A regular step. -/
theorem Sound.step (h : Sound s) (hregular : Regular s)
    (hstep : Interpreter.step definitions builtins s = some t) : Sound t := by
  unfold Interpreter.step at hstep
  split at hstep
  · cases hstep
  · rename_i a rest hstack
    split at hstep
    · exact h.finish hstack hstep
    · rename_i req next hprogram
      refine h.handle hstack (fun name i hreq b hb => ?_) hstep
      subst hreq
      rcases a with ⟨program, temps, tree, frame, executing⟩
      subst hprogram
      unfold Regular at hregular
      rw [hstack] at hregular hb
      exact hregular b hb

/-- One object refers to another, or to one that refers to it, and so on. -/
def Reaches (s : Interpreter) : ℕ → ℕ → Prop :=
  Relation.ReflTransGen fun p q => ∃ obj, s.heap.get p = some obj ∧ q ∈ obj.children

/-- The function of a call is what was called. It is referred to, and so are its
definition, the definitions in its body and the functions that it captured. -/
structure Lives (s : Interpreter) (call : Call) : Prop where
  same : s.heap.get call.p = some (.script call.pdef call.varData)
  positive : ∀ q, s.Reaches call.p q → ∃ c, s.heap.lookup q = some c ∧ 0 < c.refcount

/-- What a referenced object reaches is referred to. -/
theorem mem_of_reaches (hp : p ∈ s.references) {q : ℕ} (hreaches : s.Reaches p q) :
    q ∈ s.references := by
  induction hreaches with
  | refl => exact hp
  | tail _ hchild _ =>
    obtain ⟨obj, hget, hchild⟩ := hchild
    exact Multiset.mem_add.mpr (Or.inr (mem_owned hget hchild))

/-- In a sound state the function of every call lives. -/
theorem Sound.lives (h : Sound s) (ha : a ∈ s.stack) {call : Call}
    (hexecuting : a.executing = some call) : s.Lives call := by
  have hp : call.p ∈ s.references :=
    Multiset.mem_add.mpr (Or.inl (Multiset.mem_add.mpr (Or.inl (h.held.mem ha hexecuting))))
  constructor
  · exact h.held.get ha hexecuting
  · intro q hreaches
    have hq := mem_of_reaches hp hreaches
    obtain ⟨c, hlookup⟩ := h.counted.alive q hq
    refine ⟨c, hlookup, ?_⟩
    rw [h.counted.count q c hlookup]
    exact Int.natCast_pos.mpr (Multiset.count_pos.mpr hq)

/-- A script is about to be run. Variables may have values already. -/
structure Starts (s : Interpreter) : Prop where
  counted : s.heap.Counted s.references
  idle : ∀ a ∈ s.stack, a.executing = none

theorem Starts.sound (h : Starts s) : Sound s where
  counted := h.counted
  held := by
    have hidle := h.idle
    revert hidle
    induction s.stack with
    | nil => exact fun _ => trivial
    | cons a rest ih =>
      intro hidle
      refine ⟨fun call hexecuting => ?_, ih fun b hb => hidle b (List.mem_cons_of_mem a hb)⟩
      rw [hidle a List.mem_cons_self] at hexecuting
      cases hexecuting

/-- The evaluation of a script, step by step. -/
def evaluate (definitions : ℕ → Definition) (builtins : String → List AVSValue → Option Script)
    (s : Interpreter) (_ : Unit) : Option (Interpreter × Unit) :=
  (Interpreter.step definitions builtins s).map (·, ())

/-- In every evaluation that never assigns a global variable while a function is being
executed that was called through it, every function lives until its call has ended. -/
theorem functions_live {start : Interpreter} {history : List Unit} (hstart : Starts start)
    (hrun : Run (evaluate definitions builtins) (fun s _ => Regular s) start history s) :
    ∀ a ∈ s.stack, ∀ call, a.executing = some call → s.Lives call := by
  have hsound : Sound s := by
    apply hrun.invariant (fun _ => Sound) hstart.sound
    intro _ s t _ _ h hregular hstep
    obtain ⟨u, hnext, heq⟩ := Option.map_eq_some_iff.mp hstep
    cases heq
    exact h.step hregular hnext
  exact fun a ha call hexecuting => hsound.lives ha hexecuting

/-- A function without parameters that overwrites the global variable `f`. -/
def overwrites (_ : ℕ) : Definition where
  varNames := []
  paramNames := []
  accepts := fun args => args.isEmpty
  body :=
    .request (.literal "0") fun _ => .request (.setGlobalVar "f" 0) fun _ => .finish (.value 0)

/-- There are no built-in functions. -/
def noBuiltins (_ : String) (_ : List AVSValue) : Option Script := none

/-- A script that makes the function, stores it in `f` and goes on with `call`. -/
def scriptWith (call : Script) : Interpreter where
  heap := ∅
  globals := ∅
  stack :=
    [⟨.request (.parse 0 []) fun _ => .request (.newFunction 0) fun _ =>
      .request (.setGlobalVar "f" 0) fun _ => call, [], [], none, none⟩]
  leaked := []

theorem scriptWith_starts (call : Script) : Starts (scriptWith call) where
  counted := Counted.empty
  idle := by
    intro a ha
    obtain rfl := List.mem_singleton.mp ha
    rfl

/-- A function that is called through a value overwrites the variable that held it. -/
theorem functions_live_value : ∃ (s : Interpreter) (call : Call),
    (frameFunctions s.globals = [] ∧ call.p = 2) ∧ s.Lives call := by
  obtain ⟨_, s, hrun, hcheck⟩ := exists_run (evaluate overwrites noBuiltins)
    (fun s _ => Regular s) (scriptWith (.request (.callValue 0 []) fun _ => .finish .thrown))
    [(), (), (), (), (), ()]
    (fun _ s => frameFunctions s.globals = [] ∧
      (s.stack.head?.bind Activation.executing).map Call.p = some 2) (by decide +kernel)
  obtain ⟨hglobals, hp⟩ := of_decide_eq_true hcheck
  obtain ⟨call, hcall, hp⟩ := Option.map_eq_some_iff.mp hp
  obtain ⟨a, ha, hexecuting⟩ := Option.bind_eq_some_iff.mp hcall
  have hmem : a ∈ s.stack := List.mem_of_mem_head? ha
  exact ⟨s, call, ⟨hglobals, hp⟩,
    functions_live (scriptWith_starts _) hrun a hmem call hexecuting⟩

/-- A function that is called by its name overwrites the variable: it is gone before
the call has ended. -/
theorem functionCall_overwritten :
    ¬∀ (definitions : ℕ → Definition) (builtins : String → List AVSValue → Option Script)
      (start s : Interpreter) (history : List Unit), Starts start →
        Run (evaluate definitions builtins) always start history s →
          ∀ a ∈ s.stack, ∀ call, a.executing = some call → s.Lives call := by
  intro h
  obtain ⟨_, s, hrun, hcheck⟩ := exists_run (evaluate overwrites noBuiltins) always
    (scriptWith (.request (.drop 0) fun _ => .request (.call "F" []) fun _ => .finish .thrown))
    [(), (), (), (), (), (), ()]
    (fun _ s => (s.heap.lookup 2).isNone ∧
      (s.stack.head?.bind Activation.executing).map Call.p = some 2) (by decide +kernel)
  obtain ⟨hgone, hp⟩ := of_decide_eq_true hcheck
  obtain ⟨call, hcall, hp⟩ := Option.map_eq_some_iff.mp hp
  obtain ⟨a, ha, hexecuting⟩ := Option.bind_eq_some_iff.mp hcall
  have hlives := h _ _ _ _ _ (scriptWith_starts _) hrun a (List.mem_of_mem_head? ha) call hexecuting
  obtain ⟨c, hlookup, -⟩ := hlives.positive call.p .refl
  rw [hp, Option.isNone_iff_eq_none.mp hgone] at hlookup
  cases hlookup

end Interpreter

end FunctionCalls

end AviSynth
