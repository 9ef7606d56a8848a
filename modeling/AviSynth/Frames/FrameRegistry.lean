import Mathlib.Algebra.GroupWithZero.Nat
import Mathlib.Data.List.Sort

/-!
# Frame buffers and the registry that recycles them

A frame is a view of a frame buffer. Frames and buffers each count references: a
frame counts the pointers to it, and its buffer counts the frames with a pointer.
The registry keeps every buffer with all frames made on it, ordered by the size
and the address of the buffer. It is the only owner of both: a buffer that no
frame uses stays there until it is recycled or collected.
-/

namespace AviSynth

/-- The address of a frame buffer. -/
abbrev VfbPtr := ℕ

/-- The address of a frame. -/
abbrev FramePtr := ℕ

/-- `VFBStorage`: a buffer with its memory block (`D` is the type of devices). -/
structure VideoFrameBuffer (D : Type) where
  data : ℕ
  dataSize : ℕ
  margin : ℕ
  device : D
  refcount : ℤ
  freeCount : ℤ

/-- `VideoFrame`, as far as the counts go. -/
structure VideoFrame where
  vfb : VfbPtr
  refcount : ℤ

/-- One buffer of the registry, under its size, with the frames made on it. -/
structure RegistryEntry where
  vfbSize : ℕ
  vfb : VfbPtr
  frames : List FramePtr

/-- The buffers and frames that are allocated, and the registry with the memory
each device has in use. -/
structure FrameStore (D : Type) where
  vfbs : VfbPtr → Option (VideoFrameBuffer D)
  frames : FramePtr → Option VideoFrame
  frameRegistry : List RegistryEntry
  memoryUsed : D → ℕ
  framePropertiesClosing : Bool

namespace RegistryEntry

/-- The order of the registry's two nested maps. -/
def Before (a b : RegistryEntry) : Prop :=
  a.vfbSize < b.vfbSize ∨ a.vfbSize = b.vfbSize ∧ a.vfb ≤ b.vfb

instance : DecidableRel Before := fun _ _ => inferInstanceAs (Decidable (_ ∨ _))

/-- The entry is the one under these two keys. -/
def HasKey (vfbSize : ℕ) (vfb : VfbPtr) (e : RegistryEntry) : Prop :=
  e.vfbSize = vfbSize ∧ e.vfb = vfb
  deriving Decidable

/-- `FrameRegistry2[vfb_size][vfb]` inserts an empty list under a new key. -/
def touch (registry : List RegistryEntry) (vfbSize : ℕ) (vfb : VfbPtr) : List RegistryEntry :=
  if registry.any (fun e => HasKey vfbSize vfb e) then registry
  else registry.orderedInsert Before ⟨vfbSize, vfb, []⟩

/-- Change the frame list under one key. -/
def modify (registry : List RegistryEntry) (vfbSize : ℕ) (vfb : VfbPtr)
    (f : List FramePtr → List FramePtr) : List RegistryEntry :=
  registry.map fun e => if HasKey vfbSize vfb e then { e with frames := f e.frames } else e

/-- The frame list under one key. -/
def framesAt (registry : List RegistryEntry) (vfbSize : ℕ) (vfb : VfbPtr) : List FramePtr :=
  ((registry.find? (fun e => HasKey vfbSize vfb e)).map frames).getD []

variable {registry : List RegistryEntry} {vfbSize : ℕ} {vfb : VfbPtr}
  {f : List FramePtr → List FramePtr}

/-- The entries after a change are those before it, one of them changed. -/
theorem mem_modify {e' : RegistryEntry} : e' ∈ modify registry vfbSize vfb f ↔
    ∃ e ∈ registry, (if HasKey vfbSize vfb e then { e with frames := f e.frames } else e) = e' :=
  List.mem_map

/-- A change of a frame list changes no key. -/
theorem map_vfb_modify : (modify registry vfbSize vfb f).map (·.vfb) = registry.map (·.vfb) := by
  simp only [modify, List.map_map]
  refine List.map_congr_left fun e _ => ?_
  simp only [Function.comp_apply]
  split_ifs <;> rfl

/-- Nor does it change a sum over the keys. -/
theorem sum_modify (registry : List RegistryEntry) (vfbSize : ℕ) (vfb : VfbPtr)
    (f : List FramePtr → List FramePtr) (g : ℕ → VfbPtr → ℕ) :
    ((modify registry vfbSize vfb f).map fun e => g e.vfbSize e.vfb).sum =
      (registry.map fun e => g e.vfbSize e.vfb).sum := by
  simp only [modify, List.map_map]
  refine congrArg List.sum (List.map_congr_left fun e _ => ?_)
  simp only [Function.comp_apply]
  split_ifs <;> rfl

/-- The frame list under the key of an entry is the entry's. -/
theorem framesAt_eq (hkeys : (registry.map (·.vfb)).Nodup) {e : RegistryEntry}
    (he : e ∈ registry) : framesAt registry e.vfbSize e.vfb = e.frames := by
  have hfind : registry.find? (fun e' => HasKey e.vfbSize e.vfb e') = some e := by
    have hsome : (registry.find? (fun e' => HasKey e.vfbSize e.vfb e')).isSome := by
      rw [List.find?_isSome]
      exact ⟨e, he, decide_eq_true (And.intro rfl rfl)⟩
    obtain ⟨e', he'⟩ := Option.isSome_iff_exists.mp hsome
    have hkey : HasKey e.vfbSize e.vfb e' := by simpa using List.find?_some he'
    rw [he', List.inj_on_of_nodup_map hkeys (List.mem_of_find?_eq_some he') he hkey.2]
  rw [framesAt, hfind]
  rfl

/-- The key of an entry is there already. -/
theorem touch_eq {e : RegistryEntry} (he : e ∈ registry) :
    touch registry e.vfbSize e.vfb = registry :=
  if_pos (List.any_eq_true.mpr ⟨e, he, decide_eq_true (And.intro rfl rfl)⟩)

/-- A new buffer gets an entry of its own with its first frame. -/
theorem modify_touch_perm (hvfb : ∀ e ∈ registry, e.vfb ≠ vfb) (p : FramePtr) :
    (modify (touch registry vfbSize vfb) vfbSize vfb (· ++ [p])).Perm
      (⟨vfbSize, vfb, [p]⟩ :: registry) := by
  have htouch : touch registry vfbSize vfb = registry.orderedInsert Before ⟨vfbSize, vfb, []⟩ := by
    refine if_neg fun hany => ?_
    obtain ⟨e, he, hkey⟩ := List.any_eq_true.mp hany
    exact hvfb e he (of_decide_eq_true hkey).2
  have hold : modify registry vfbSize vfb (· ++ [p]) = registry := by
    refine (List.map_congr_left fun e he => ?_).trans (List.map_id _)
    exact if_neg fun hkey => hvfb e he hkey.2
  rw [htouch]
  refine ((List.perm_orderedInsert Before _ registry).map _).trans ?_
  rw [List.map_cons]
  refine List.Perm.of_eq (congrArg₂ List.cons ?_ hold)
  exact if_pos ⟨rfl, rfl⟩

end RegistryEntry

namespace FrameStore

open RegistryEntry

variable {D : Type} {s : FrameStore D}

/-- Write to the fields of a buffer. -/
def modifyVfb (s : FrameStore D) (v : VfbPtr) (f : VideoFrameBuffer D → VideoFrameBuffer D) :
    FrameStore D :=
  { s with vfbs := Function.update s.vfbs v ((s.vfbs v).map f) }

/-- Every other buffer stays as it is. -/
theorem modifyVfb_vfbs (s : FrameStore D) (v w : VfbPtr)
    (f : VideoFrameBuffer D → VideoFrameBuffer D) :
    (s.modifyVfb v f).vfbs w = (s.vfbs w).map fun b => if w = v then f b else b := by
  by_cases hw : w = v
  · subst hw
    simp [modifyVfb]
  · simp [modifyVfb, hw]

/-- Add to the reference count of a buffer. -/
def addVfbRef (s : FrameStore D) (v : VfbPtr) (n : ℤ) : FrameStore D :=
  s.modifyVfb v fun b => { b with refcount := b.refcount + n }

/-- Add to the reference count of a frame. -/
def addFrameRef (s : FrameStore D) (p : FramePtr) (n : ℤ) : FrameStore D :=
  { s with
    frames := Function.update s.frames p
      ((s.frames p).map fun x => { x with refcount := x.refcount + n }) }

/-- The constructor `VideoFrame(vfb, …)`: nothing points to the frame yet, and
the buffer counts it already. -/
def newFrame (s : FrameStore D) (p : FramePtr) (v : VfbPtr) : FrameStore D :=
  { s.addVfbRef v 1 with frames := Function.update s.frames p (some ⟨v, 0⟩) }

/-- `delete frame`. The destructor calls `Release`, which lets go of the buffer
if the count drops to zero. -/
def deleteFrame (s : FrameStore D) (p : FramePtr) : FrameStore D :=
  match s.frames p with
  | none => s
  | some x =>
    let s := if x.refcount - 1 = 0 then s.addVfbRef x.vfb (-1) else s
    { s with frames := Function.update s.frames p none }

/-- Delete several frames, one after the other. -/
def deleteFrames (s : FrameStore D) (ps : List FramePtr) : FrameStore D := ps.foldl deleteFrame s

/-- A frame that nothing points to is deleted and its buffer is not touched. -/
theorem deleteFrame_eq {p : FramePtr} (h : ∀ x, s.frames p = some x → x.refcount = 0) :
    s.deleteFrame p = { s with frames := fun q => if q = p then none else s.frames q } := by
  cases hp : s.frames p with
  | none =>
    have hsame : (fun q => if q = p then none else s.frames q) = s.frames := by
      funext q
      split_ifs with hq
      · rw [hq, hp]
      · rfl
    simp only [deleteFrame, hp, hsame]
  | some x =>
    have hne : ¬x.refcount - 1 = 0 := by
      have := h x hp
      omega
    have hupdate : Function.update s.frames p none =
        fun q => if q = p then none else s.frames q := by
      funext q
      simp only [Function.update_apply]
    simp only [deleteFrame, hp, hne, if_false, hupdate]

/-- The same for several frames. -/
theorem deleteFrames_eq {ps : List FramePtr}
    (h : ∀ p ∈ ps, ∀ x, s.frames p = some x → x.refcount = 0) :
    s.deleteFrames ps = { s with frames := fun q => if q ∈ ps then none else s.frames q } := by
  induction ps generalizing s with
  | nil => simp [deleteFrames]
  | cons p ps ih =>
    have hp := deleteFrame_eq (h p List.mem_cons_self)
    change (s.deleteFrame p).deleteFrames ps = _
    rw [hp, ih]
    · simp only [List.mem_cons]
      congr 1
      funext q
      by_cases hq : q = p <;> simp [hq]
    · intro q hq x hx
      by_cases hqp : q = p
      · simp [hqp] at hx
      · exact h q (List.mem_cons_of_mem _ hq) x (by simpa [hqp] using hx)

variable [DecidableEq D]

/-- `AllocateFrame`, when the memory for the buffer `v` and the frame `p` was there. -/
def allocateFrame (s : FrameStore D) (vfbSize margin : ℕ) (device : D) (v : VfbPtr)
    (p : FramePtr) (data : ℕ) : FrameStore D :=
  let s : FrameStore D := { s with
    vfbs := Function.update s.vfbs v (some ⟨data, vfbSize, margin, device, 0, 0⟩) }
  let s := s.newFrame p v
  { s with
    memoryUsed := Function.update s.memoryUsed device (s.memoryUsed device + vfbSize)
    frameRegistry := modify (touch s.frameRegistry vfbSize v) vfbSize v (· ++ [p]) }

/-- The new buffer counts the new frame. -/
theorem allocateFrame_vfbs (s : FrameStore D) (vfbSize margin : ℕ) (device : D) (v : VfbPtr)
    (p : FramePtr) (data : ℕ) : (s.allocateFrame vfbSize margin device v p data).vfbs =
      Function.update s.vfbs v (some ⟨data, vfbSize, margin, device, 1, 0⟩) := by
  simp [allocateFrame, newFrame, addVfbRef, modifyVfb]

omit [DecidableEq D] in
/-- The inner loop of `GetFrameFromRegistry` on an unused buffer: its first frame
is kept, the others are deleted. -/
def occupy (s : FrameStore D) (e : RegistryEntry) : Option (FramePtr × FrameStore D) :=
  match e.frames with
  | [] => none
  | first :: others =>
    let s := s.modifyVfb e.vfb fun b => { b with refcount := b.refcount + 1, freeCount := 0 }
    let s := s.deleteFrames others
    some (first, { s with
      frameRegistry := modify s.frameRegistry e.vfbSize e.vfb fun _ => [first] })

/-- The body of a collecting loop on the buffer at position `i`: the buffer is
deleted, then the frames `ps`, then the entry. -/
def collect (s : FrameStore D) (i : ℕ) (v : VfbPtr) (b : VideoFrameBuffer D)
    (ps : List FramePtr) : FrameStore D :=
  let s : FrameStore D := { s with
    memoryUsed := Function.update s.memoryUsed b.device (s.memoryUsed b.device - b.dataSize)
    vfbs := Function.update s.vfbs v none }
  let s := s.deleteFrames ps
  { s with frameRegistry := s.frameRegistry.eraseIdx i }

/-- Collecting a buffer whose frames have no pointer. -/
theorem collect_eq (i : ℕ) (v : VfbPtr) (b : VideoFrameBuffer D) {ps : List FramePtr}
    (h : ∀ p ∈ ps, ∀ x, s.frames p = some x → x.refcount = 0) :
    s.collect i v b ps =
      { vfbs := Function.update s.vfbs v none
        frames := fun q => if q ∈ ps then none else s.frames q
        frameRegistry := s.frameRegistry.eraseIdx i
        memoryUsed := Function.update s.memoryUsed b.device (s.memoryUsed b.device - b.dataSize)
        framePropertiesClosing := s.framePropertiesClosing } := by
  simp only [collect]
  rw [deleteFrames_eq (by exact h)]

omit [DecidableEq D] in
/-- The frame is allocated and its count is zero. -/
def Unreferenced (s : FrameStore D) (p : FramePtr) : Prop :=
  (s.frames p).any (fun x => x.refcount = 0) = true
  deriving Decidable

omit [DecidableEq D] in
/-- `IsPropertyWritable`: exactly one pointer to the frame. -/
def IsPropertyWritable (s : FrameStore D) (p : FramePtr) : Prop :=
  (s.frames p).any (fun x => x.refcount = 1) = true
  deriving Decidable

/-- The size of the registered buffers of a device. -/
def registeredBytes (s : FrameStore D) (d : D) : ℕ :=
  (s.frameRegistry.map fun e =>
    if (s.vfbs e.vfb).any (fun b => b.device = d) then e.vfbSize else 0).sum

/-- The registered bytes depend on the registry and on the devices of its buffers. -/
theorem registeredBytes_congr {s t : FrameStore D} (hregistry : t.frameRegistry = s.frameRegistry)
    (hdevice : ∀ e ∈ s.frameRegistry,
      (t.vfbs e.vfb).map (·.device) = (s.vfbs e.vfb).map (·.device))
    (d : D) : t.registeredBytes d = s.registeredBytes d := by
  simp only [registeredBytes, hregistry]
  refine congrArg List.sum (List.map_congr_left fun e he => ?_)
  have h := congrArg (fun o => o.any (fun d' => d' = d)) (hdevice e he)
  simp only [Option.any_map] at h
  rw [h]

end FrameStore

end AviSynth
