import AviSynth.Frames.FrameRegistry
import AviSynth.Library.Counting
import AviSynth.Library.Runs

/-!
# Threads that create, share and release frames

Reference counts change by atomic increments and decrements of any thread, while
the registry is read and changed under one mutex only. A call is cut into the
steps another thread can get in between: the two decrements of `Release`, the
construction of a derived frame and its registration, and inside the mutex every
test of a reference count and what is done after it.
-/

namespace AviSynth

open RegistryEntry

/-- The arguments of `GetNewFrame`. -/
structure FrameRequest (D : Type) where
  vfbSize : ℕ
  margin : ℕ
  device : D
  deriving DecidableEq

/-- A frame that `GetNewFrame` returned and no `PVideoFrame` points to yet. -/
structure Reservation where
  frame : FramePtr
  vfb : VfbPtr
  deriving DecidableEq

/-- A `Subframe` or `MakePropertyWritable` in progress: it holds a reference to
the source and has constructed a frame on the same buffer. -/
structure Derivation where
  src : FramePtr
  vfb : VfbPtr
  sub : FramePtr
  deriving DecidableEq

/-- The calls of `AllocateFrame` in `GetNewFrame`. -/
inductive Attempt where
  /-- While the environment shuts down. -/
  | closing
  /-- While the device is below its limit. -/
  | first
  /-- After the caches have been shrunk. -/
  | second
  /-- After all unused buffers have been collected. -/
  | third
  deriving DecidableEq

/-- The loops that collect unused buffers. -/
inductive Pass where
  /-- In `ShrinkCache`: buffers found unused more often than the device's threshold. -/
  | shrinkCache
  /-- In `GetNewFrame`: all that are not larger than the request. -/
  | reallocation
  deriving DecidableEq

/-- How far the thread that holds `memory_mutex` has got. A position `i` is an
index into the registry, or into the frame list of a buffer. -/
inductive Critical (D : Type) where
  /-- `GetFrameFromRegistry` is about to test a buffer; `again` after `ShrinkCache`. -/
  | search (request : FrameRequest D) (again : Bool) (i : ℕ)
  /-- It has seen the count zero at `i`. -/
  | occupy (request : FrameRequest D) (again : Bool) (i : ℕ)
  | allocate (request : FrameRequest D) (attempt : Attempt)
  /-- `ShrinkCache` is about to shrink the caches. -/
  | shrink (request : FrameRequest D)
  /-- A collecting loop is about to test a buffer. -/
  | inspect (request : FrameRequest D) (pass : Pass) (i : ℕ)
  /-- It has chosen the buffer at `i`. -/
  | collect (request : FrameRequest D) (pass : Pass) (i : ℕ)
  /-- `RegisterSubFrameInRegistry` is about to test a frame. -/
  | purge (op : Derivation) (i : ℕ)
  /-- It has seen the count zero at `i`. -/
  | erase (op : Derivation) (i : ℕ)
  /-- It is about to add the new frame. -/
  | append (op : Derivation)
  /-- The new frame is registered, and is about to be assigned to a `PVideoFrame`. -/
  | assign (op : Derivation)

/-- What the steps inside the mutex depend on beyond the state. -/
structure Memory where
  /-- `ShrinkCache` found a cache that is not empty. -/
  cachesShrunk : Bool
  /-- The addresses of a new buffer, its memory block and a new frame, unless the
  system is out of memory. -/
  storage : Option (VfbPtr × ℕ × FramePtr)

/-- The limits of the devices. -/
structure DeviceLimits (D : Type) where
  memoryMax : D → ℕ
  freeThresh : D → ℤ
  /-- The test `used < max * 0.85f` in single precision. -/
  belowReserve : ℕ → ℕ → Bool

/-- The frames, what the threads hold of them, and the mutex. -/
structure FrameSystem (D : Type) extends FrameStore D where
  /-- The frames that `PVideoFrame`s point to, once for each of them. -/
  handles : List FramePtr
  /-- The buffers that a `Release` has yet to let go of. -/
  releasing : List VfbPtr
  reserved : List Reservation
  pending : List Derivation
  lock : Option (Critical D)

/-- What a thread does next. -/
inductive FrameAction (D : Type) where
  /-- A `PVideoFrame` is copied. -/
  | addRef (p : FramePtr)
  /-- A `PVideoFrame` is destroyed or reassigned: the decrement of the frame's count. -/
  | release (p : FramePtr)
  /-- The second half of a `Release`: the decrement of the buffer's count. -/
  | releaseVfb (v : VfbPtr)
  /-- A frame returned by `GetNewFrame` is assigned to a `PVideoFrame`. -/
  | assignNew (r : Reservation)
  /-- `Subframe` constructs a frame at the address `sub`. -/
  | subframe (src sub : FramePtr)
  /-- `MakePropertyWritable`, which constructs a frame if the source is shared. -/
  | makePropertyWritable (src sub : FramePtr)
  /-- A thread enters `GetNewFrame`. -/
  | getNewFrame (request : FrameRequest D)
  /-- A thread enters `RegisterSubFrameInRegistry`. -/
  | registerSubFrame (op : Derivation)
  /-- The environment starts to shut down. -/
  | close
  /-- The thread inside the mutex goes on. -/
  | advance (memory : Memory)

/-- What a step reports. -/
inductive FrameEvent (D : Type) where
  /-- `GetNewFrame` returns a frame for the request. -/
  | handedOut (request : FrameRequest D) (r : Reservation)
  /-- `GetNewFrame` throws. -/
  | outOfMemory (request : FrameRequest D)
  | quiet

namespace FrameSystem

variable {D : Type}

/-- `AddRef`, for a new pointer to the frame. -/
def copyHandle (s : FrameSystem D) (p : FramePtr) : FrameSystem D :=
  { s with toFrameStore := s.addFrameRef p 1, handles := p :: s.handles }

/-- The first half of `Release`. The thread remembers the buffer if the frame's
count has dropped to zero. -/
def dropHandle (s : FrameSystem D) (p : FramePtr) (x : VideoFrame) : FrameSystem D :=
  { s with
    toFrameStore := s.addFrameRef p (-1)
    handles := s.handles.erase p
    releasing := if x.refcount - 1 = 0 then x.vfb :: s.releasing else s.releasing }

/-- The second half of `Release`. -/
def dropVfb (s : FrameSystem D) (v : VfbPtr) : FrameSystem D :=
  { s with toFrameStore := s.addVfbRef v (-1), releasing := s.releasing.erase v }

/-- `PVideoFrame(res)`, for a frame returned by `GetNewFrame`. -/
def assignReserved (s : FrameSystem D) (r : Reservation) : FrameSystem D :=
  { s with
    toFrameStore := s.addFrameRef r.frame 1
    handles := r.frame :: s.handles
    reserved := s.reserved.erase r }

/-- A derivation takes a pointer to its source and constructs the new frame. -/
def beginDerivation (s : FrameSystem D) (op : Derivation) : FrameSystem D :=
  { s with
    toFrameStore := s.newFrame op.sub op.vfb
    handles := s.handles.erase op.src
    pending := op :: s.pending }

/-- It returns a pointer to the registered frame and leaves the mutex. -/
def finishDerivation (s : FrameSystem D) (op : Derivation) : FrameSystem D :=
  { s with
    toFrameStore := s.addFrameRef op.sub 1
    handles := op.sub :: op.src :: s.handles
    pending := s.pending.erase op
    lock := none }

/-- Small requests are rounded up. -/
def roundVfbSize (vfbSize : ℕ) : ℕ :=
  if vfbSize < 64 then 64
  else if vfbSize < 256 then 256
  else if vfbSize < 512 then 512
  else if vfbSize < 1024 then 1024
  else if vfbSize < 2048 then 2048
  else if vfbSize < 4096 then 4096
  else vfbSize

variable [DecidableEq D]

/-- The buffer is one that the request may be given: on its device, and at most
half as large again as needed. -/
def Suits (request : FrameRequest D) (e : RegistryEntry) (b : VideoFrameBuffer D) : Prop :=
  request.vfbSize ≤ e.vfbSize ∧ e.vfbSize ≤ request.vfbSize * 3 / 2 ∧ request.device = b.device ∧
    b.refcount = 0

instance (request : FrameRequest D) (e : RegistryEntry) (b : VideoFrameBuffer D) :
    Decidable (Suits request e b) := inferInstanceAs (Decidable (_ ∧ _))

/-- The buffer is one that a collecting loop looks at more closely. -/
def Idle (request : FrameRequest D) (pass : Pass) (e : RegistryEntry) (b : VideoFrameBuffer D) :
    Prop :=
  (pass = .reallocation → e.vfbSize ≤ request.vfbSize) ∧ request.device = b.device ∧ b.refcount = 0

instance (request : FrameRequest D) (pass : Pass) (e : RegistryEntry) (b : VideoFrameBuffer D) :
    Decidable (Idle request pass e b) := inferInstanceAs (Decidable (_ ∧ _))

/-- `GetNewFrame` returns: the mutex is free and the frame not yet pointed to. -/
def handOut (s : FrameSystem D) (request : FrameRequest D) (r : Reservation) :
    FrameSystem D × FrameEvent D :=
  ({ s with reserved := r :: s.reserved, lock := none }, .handedOut request r)

/-- Go on inside the mutex. -/
def goto (s : FrameSystem D) (next : Critical D) : FrameSystem D × FrameEvent D :=
  ({ s with lock := some next }, .quiet)

variable (limits : DeviceLimits D)

/-- `GetFrameFromRegistry` at the position `i`. -/
def search (s : FrameSystem D) (request : FrameRequest D) (again : Bool) (i : ℕ) :
    Option (FrameSystem D × FrameEvent D) :=
  match s.frameRegistry[i]? with
  | some e => (s.vfbs e.vfb).map fun b =>
      s.goto (if Suits request e b then .occupy request again i else .search request again (i + 1))
  | none =>
    some <| s.goto <|
      if again then .allocate request .second
      else if limits.belowReserve (s.memoryUsed request.device + request.vfbSize)
          (limits.memoryMax request.device) then .allocate request .first
      else .shrink request

/-- What `GetNewFrame` does after `AllocateFrame` has returned no frame. -/
def retry (s : FrameSystem D) (request : FrameRequest D) :
    Attempt → FrameSystem D × FrameEvent D
  | .first => s.goto (.shrink request)
  | .second => s.goto (.inspect request .reallocation 0)
  | .closing | .third => ({ s with lock := none }, .outOfMemory request)

/-- `AllocateFrame`, which throws at once if the size does not fit an `int`. -/
def allocate (s : FrameSystem D) (request : FrameRequest D) (attempt : Attempt)
    (memory : Memory) : Option (FrameSystem D × FrameEvent D) :=
  if 2 ^ 31 - 1 < request.vfbSize then some ({ s with lock := none }, .outOfMemory request)
  else
    match memory.storage with
    | none => some (s.retry request attempt)
    | some (v, data, p) =>
      if (s.vfbs v).isNone ∧ (s.frames p).isNone then
        let store := s.allocateFrame request.vfbSize request.margin request.device v p data
        some (handOut { s with toFrameStore := store } request ⟨p, v⟩)
      else none

/-- A collecting loop tests the buffer at `i`. The loop of `ShrinkCache` counts
how often it has found the buffer unused. -/
def inspect (s : FrameSystem D) (request : FrameRequest D) (pass : Pass) (i : ℕ) :
    Option (FrameSystem D × FrameEvent D) :=
  match s.frameRegistry[i]? with
  | some e => (s.vfbs e.vfb).map fun b =>
      if Idle request pass e b then
        match pass with
        | .reallocation => s.goto (.collect request pass i)
        | .shrinkCache =>
          let store := s.modifyVfb e.vfb fun b => { b with freeCount := b.freeCount + 1 }
          goto { s with toFrameStore := store }
            (if b.freeCount ≥ limits.freeThresh request.device then .collect request pass i
            else .inspect request pass (i + 1))
      else s.goto (.inspect request pass (i + 1))
  | none =>
    some <| s.goto <|
      match pass with
      | .shrinkCache => .search request true 0
      | .reallocation => .allocate request .third

/-- The next step of the thread inside the mutex. -/
def advance (s : FrameSystem D) (memory : Memory) :
    Critical D → Option (FrameSystem D × FrameEvent D)
  | .search request again i => s.search limits request again i
  | .occupy request again i =>
    s.frameRegistry[i]?.map fun e =>
      match s.toFrameStore.occupy e with
      | none => s.goto (.search request again (i + 1))
      | some (p, store) => handOut { s with toFrameStore := store } request ⟨p, e.vfb⟩
  | .allocate request attempt => s.allocate request attempt memory
  | .shrink request =>
    some <| s.goto <|
      if memory.cachesShrunk then .inspect request .shrinkCache 0 else .search request true 0
  | .inspect request pass i => s.inspect limits request pass i
  | .collect request pass i =>
    s.frameRegistry[i]?.bind fun e => (s.vfbs e.vfb).map fun b =>
      let frames := match pass with
        | .shrinkCache => e.frames.filter s.Unreferenced
        | .reallocation => e.frames
      goto { s with toFrameStore := s.toFrameStore.collect i e.vfb b frames }
        (.inspect request pass i)
  | .purge op i =>
    (s.vfbs op.vfb).map fun b =>
      match (framesAt s.frameRegistry b.dataSize op.vfb)[i]? with
      | none => s.goto (.append op)
      | some p => s.goto (if s.Unreferenced p then .erase op i else .purge op (i + 1))
  | .erase op i =>
    (s.vfbs op.vfb).bind fun b =>
      (framesAt s.frameRegistry b.dataSize op.vfb)[i]?.map fun p =>
        let store := s.deleteFrame p
        let registry := modify store.frameRegistry b.dataSize op.vfb (·.eraseIdx i)
        goto { s with toFrameStore := { store with frameRegistry := registry } } (.purge op i)
  | .append op =>
    (s.vfbs op.vfb).map fun b =>
      goto { s with frameRegistry := modify s.frameRegistry b.dataSize op.vfb (· ++ [op.sub]) }
        (.assign op)
  | .assign op =>
    some (s.finishDerivation op, .quiet)

/-- `VideoFrame::Subframe` on a frame that a `PVideoFrame` of the caller points to. -/
def derive (s : FrameSystem D) (src sub : FramePtr) : Option (FrameSystem D × FrameEvent D) :=
  if src ∈ s.handles ∧ (s.frames sub).isNone then
    (s.frames src).map fun x => (s.beginDerivation ⟨src, x.vfb, sub⟩, .quiet)
  else none

/-- One step. The reference a derivation holds goes back to its thread when it is
done; `MakePropertyWritable` then releases it, as a step of its own. -/
def step (s : FrameSystem D) : FrameAction D → Option (FrameSystem D × FrameEvent D)
  | .addRef p =>
    if p ∈ s.handles then
      some (s.copyHandle p, .quiet)
    else none
  | .release p =>
    if p ∈ s.handles then
      (s.frames p).map fun x => (s.dropHandle p x, .quiet)
    else none
  | .releaseVfb v =>
    if v ∈ s.releasing then
      some (s.dropVfb v, .quiet)
    else none
  | .assignNew r =>
    if r ∈ s.reserved then
      some (s.assignReserved r, .quiet)
    else none
  | .subframe src sub => s.derive src sub
  | .makePropertyWritable src sub =>
    if s.IsPropertyWritable src then
      if src ∈ s.handles then some (s, .quiet) else none
    else s.derive src sub
  | .getNewFrame request =>
    if s.lock.isNone then
      let request := { request with vfbSize := roundVfbSize request.vfbSize }
      some <| s.goto <|
        if s.framePropertiesClosing then .allocate request .closing else .search request false 0
    else none
  | .registerSubFrame op =>
    if s.lock.isNone ∧ op ∈ s.pending then
      (s.vfbs op.vfb).map fun b =>
        goto { s with frameRegistry := touch s.frameRegistry b.dataSize op.vfb }
          (if s.framePropertiesClosing then .append op else .purge op 0)
    else none
  | .close =>
    if s.lock.isNone then some ({ s with framePropertiesClosing := true }, .quiet) else none
  | .advance memory => s.lock.bind fun position => s.advance limits memory position

/-- A new environment. -/
def start : FrameSystem D where
  vfbs _ := none
  frames _ := none
  frameRegistry := []
  memoryUsed _ := 0
  framePropertiesClosing := false
  handles := []
  releasing := []
  reserved := []
  pending := []
  lock := none

end FrameSystem

/-!
## What the reference counts count

The count of a frame is the number of pointers to it. The count of a buffer is
the number of its frames that are pointed to, of frames on it that have been
constructed and not yet assigned, and of unfinished releases. Whatever the
thread inside the mutex has learned from a count of zero stays true, because
only it can change such a count.
-/

namespace FrameSystem

variable {D : Type}

/-- The pointers to a frame, those that a derivation in progress holds included. -/
def references (s : FrameSystem D) (p : FramePtr) : ℕ :=
  s.handles.count p + (s.pending.map (·.src)).count p

/-- The frames of an entry that are pointed to. -/
def liveOn (s : FrameSystem D) (e : RegistryEntry) : ℕ :=
  e.frames.countP fun p => 0 < s.references p

/-- The frames constructed on a buffer that nothing points to yet. -/
def reservedOn (s : FrameSystem D) (v : VfbPtr) : ℕ :=
  (s.reserved.map (·.vfb)).count v + (s.pending.map (·.vfb)).count v

/-- Everything that keeps the buffer of an entry in use. -/
def claimsOn (s : FrameSystem D) (e : RegistryEntry) : ℕ :=
  s.liveOn e + s.reservedOn e.vfb + s.releasing.count e.vfb

/-- An entry lists frames of its buffer, once each, and the buffer's count is right. -/
structure EntryOk (s : FrameSystem D) (e : RegistryEntry) : Prop where
  nodup : e.frames.Nodup
  frames : ∀ p ∈ e.frames, ∃ x, s.frames p = some x ∧ x.vfb = e.vfb
  buffer : ∃ b, s.vfbs e.vfb = some b ∧ b.dataSize = e.vfbSize ∧ b.refcount = s.claimsOn e

/-- A frame returned by `GetNewFrame` is registered and alone in keeping its buffer. -/
structure ReservedOk (s : FrameSystem D) (r : Reservation) : Prop where
  registered : ∃ e ∈ s.frameRegistry, e.vfb = r.vfb ∧ r.frame ∈ e.frames
  buffer : ∃ b, s.vfbs r.vfb = some b ∧ b.refcount = 1

/-- A derivation has its source and its new frame on one buffer. Nothing points
to the new frame, and only its own thread registers it. -/
structure DerivationOk (s : FrameSystem D) (op : Derivation) : Prop where
  src : ∃ x, s.frames op.src = some x ∧ x.vfb = op.vfb
  sub : ∃ x, s.frames op.sub = some x ∧ x.vfb = op.vfb
  unreferenced : s.references op.sub = 0
  unregistered : s.lock ≠ some (.assign op) → ∀ e ∈ s.frameRegistry, op.sub ∉ e.frames

/-- The entry at a position has an unused buffer. -/
def UnusedAt (s : FrameSystem D) (i : ℕ) : Prop :=
  ∃ e b, s.frameRegistry[i]? = some e ∧ s.vfbs e.vfb = some b ∧ b.refcount = 0

/-- What the thread inside the mutex relies on. -/
def PositionOk (s : FrameSystem D) : Critical D → Prop
  | .occupy request _ i => s.UnusedAt i ∧
      ∀ e, s.frameRegistry[i]? = some e → request.vfbSize ≤ e.vfbSize
  | .collect _ _ i => s.UnusedAt i
  | .purge op _ => op ∈ s.pending
  | .erase op i => op ∈ s.pending ∧ ∃ e ∈ s.frameRegistry, e.vfb = op.vfb ∧
      ∃ p, e.frames[i]? = some p ∧ s.references p = 0
  | .append op => op ∈ s.pending
  | .assign op => op ∈ s.pending ∧ ∃ e ∈ s.frameRegistry, op.sub ∈ e.frames
  | _ => True

variable {s t : FrameSystem D} {e : RegistryEntry} {r : Reservation} {op : Derivation}

/-- A frame that is pointed to counts among the claims on its buffer. -/
theorem liveOn_pos {p : FramePtr}
    (hp : p ∈ e.frames) (hrefs : 0 < s.references p) : 0 < s.liveOn e :=
  List.countP_pos_iff.mpr ⟨p, hp, by simpa using hrefs⟩

/-- A derivation counts among the claims on its buffer. -/
theorem pending_count_pos (hop : op ∈ s.pending) :
    0 < (s.pending.map (·.vfb)).count op.vfb :=
  List.count_pos_iff.mpr (List.mem_map_of_mem hop)

/-- So does a frame returned by `GetNewFrame`. -/
theorem reserved_count_pos (hr : r ∈ s.reserved) :
    0 < (s.reserved.map (·.vfb)).count r.vfb :=
  List.count_pos_iff.mpr (List.mem_map_of_mem hr)

/-- A buffer without a claim is none that a returned frame is on. -/
theorem reserved_ne (hclaims : s.claimsOn e = 0) (hr : r ∈ s.reserved) : r.vfb ≠ e.vfb := by
  intro heq
  have hpos := reserved_count_pos hr
  simp only [claimsOn, reservedOn, ← heq] at hclaims
  omega

/-- The source of a derivation is pointed to. -/
theorem src_references_pos (hop : op ∈ s.pending) :
    0 < s.references op.src := by
  have h := List.count_pos_iff.mpr (List.mem_map_of_mem (f := (·.src)) hop)
  simp only [references]
  omega

/-- An entry stays right when its buffer's count follows the claims on it. -/
theorem EntryOk.recount (h : EntryOk s e) (δ : ℤ)
    (hframes : ∀ p x, s.frames p = some x → ∃ y, t.frames p = some y ∧ y.vfb = x.vfb)
    (hbuffer : ∀ b, s.vfbs e.vfb = some b → ∃ b', t.vfbs e.vfb = some b' ∧
      b'.dataSize = b.dataSize ∧ b'.refcount = b.refcount + δ)
    (hclaims : (t.claimsOn e : ℤ) = s.claimsOn e + δ) : EntryOk t e := by
  obtain ⟨b, hb, hsize, hcount⟩ := h.buffer
  obtain ⟨b', hb', hsize', hcount'⟩ := hbuffer b hb
  refine ⟨h.nodup, ?_, b', hb', hsize'.trans hsize, by omega⟩
  intro p hp
  obtain ⟨x, hx, hvfb⟩ := h.frames p hp
  obtain ⟨y, hy, hvfb'⟩ := hframes p x hx
  exact ⟨y, hy, hvfb'.trans hvfb⟩

/-- A derivation stays right while its frames stay and nothing points to the new one. -/
theorem DerivationOk.mono (h : DerivationOk s op)
    (hframes : ∀ p x, s.frames p = some x → ∃ y, t.frames p = some y ∧ y.vfb = x.vfb)
    (hrefs : t.references op.sub = 0) (hlock : t.lock = s.lock)
    (hregistry : t.frameRegistry = s.frameRegistry) : DerivationOk t op := by
  obtain ⟨⟨x, hx, hsrc⟩, ⟨y, hy, hsub⟩, -, hout⟩ := h
  obtain ⟨x', hx', hvfb⟩ := hframes _ _ hx
  obtain ⟨y', hy', hvfb'⟩ := hframes _ _ hy
  refine ⟨⟨x', hx', hvfb.trans hsrc⟩, ⟨y', hy', hvfb'.trans hsub⟩, hrefs, ?_⟩
  rwa [hlock, hregistry]

/-- A reserved frame stays alone while its buffer is not written to. -/
theorem ReservedOk.mono (h : ReservedOk s r) (hvfb : t.vfbs r.vfb = s.vfbs r.vfb)
    (hregistry : t.frameRegistry = s.frameRegistry) :
    ReservedOk t r :=
  ⟨hregistry ▸ h.registered, hvfb ▸ h.buffer⟩

/-- What the thread inside the mutex relies on survives the steps of the others. -/
theorem PositionOk.mono {c : Critical D} (h : PositionOk s c)
    (hregistry : t.frameRegistry = s.frameRegistry)
    (hvfbs : ∀ v b, s.vfbs v = some b → b.refcount = 0 → t.vfbs v = some b)
    (hpending : ∀ op ∈ s.pending, op ∈ t.pending)
    (hrefs : ∀ op ∈ s.pending, ∀ e ∈ s.frameRegistry, e.vfb = op.vfb → ∀ p ∈ e.frames,
      s.references p = 0 → t.references p = 0) : PositionOk t c := by
  have hunused : ∀ i, s.UnusedAt i → t.UnusedAt i := by
    rintro i ⟨e, b, he, hb, hzero⟩
    exact ⟨e, b, hregistry ▸ he, hvfbs _ b hb hzero, hzero⟩
  cases c with
  | occupy request again i => exact ⟨hunused i h.1, hregistry ▸ h.2⟩
  | collect request pass i => exact hunused i h
  | purge op i => exact hpending op h
  | append op => exact hpending op h
  | erase op i =>
    obtain ⟨hop, e, he, hvfb, p, hp, hzero⟩ := h
    exact ⟨hpending op hop, e, hregistry ▸ he, hvfb, p, hp,
      hrefs op hop e he hvfb p (List.mem_of_getElem? hp) hzero⟩
  | assign op => exact ⟨hpending op h.1, hregistry ▸ h.2⟩
  | _ => trivial

variable [DecidableEq D]

/-- The invariant. -/
structure Consistent (s : FrameSystem D) : Prop where
  keys : (s.frameRegistry.map (·.vfb)).Nodup
  entries : ∀ e ∈ s.frameRegistry, EntryOk s e
  counts : ∀ p x, s.frames p = some x → x.refcount = s.references p
  referenced : ∀ p, 0 < s.references p → ∃ e ∈ s.frameRegistry, p ∈ e.frames
  reserved : ∀ r ∈ s.reserved, ReservedOk s r
  pending : ∀ op ∈ s.pending, DerivationOk s op
  subs : (s.pending.map (·.sub)).Nodup
  registered : ∀ v b, s.vfbs v = some b → ∃ e ∈ s.frameRegistry, e.vfb = v
  releasing : ∀ v ∈ s.releasing, ∃ e ∈ s.frameRegistry, e.vfb = v
  memory : ∀ d, s.memoryUsed d = s.registeredBytes d
  position : ∀ c, s.lock = some c → PositionOk s c

/-- A new environment has nothing to count. -/
theorem consistent_start : Consistent (start : FrameSystem D) where
  keys := List.nodup_nil
  entries := by simp [start]
  counts := by simp [start]
  referenced := by simp [start, references]
  reserved := by simp [start]
  pending := by simp [start]
  subs := List.nodup_nil
  registered := by simp [start]
  releasing := by simp [start]
  memory := by simp [start, FrameStore.registeredBytes]
  position := by simp [start]

section

variable (h : Consistent s)
include h

/-- Two entries with one buffer are the same entry. -/
theorem Consistent.entry_unique {e e' : RegistryEntry}
    (he : e ∈ s.frameRegistry) (he' : e' ∈ s.frameRegistry) (hvfb : e.vfb = e'.vfb) : e = e' :=
  List.inj_on_of_nodup_map h.keys he he' hvfb

/-- The buffer of an entry has its size, and counts the claims on it. -/
theorem Consistent.buffer_eq (he : e ∈ s.frameRegistry) {b : VideoFrameBuffer D}
    (hb : s.vfbs e.vfb = some b) :
    b.dataSize = e.vfbSize ∧ b.refcount = s.claimsOn e := by
  obtain ⟨b', hb', hok⟩ := (h.entries e he).buffer
  obtain rfl := Option.some.inj (hb.symm.trans hb')
  exact hok

/-- A listed frame is on the buffer of its entry. -/
theorem Consistent.frame_vfb (he : e ∈ s.frameRegistry) {p : FramePtr} (hp : p ∈ e.frames)
    {x : VideoFrame} (hx : s.frames p = some x) :
    x.vfb = e.vfb := by
  obtain ⟨x', hx', hvfb⟩ := (h.entries e he).frames p hp
  obtain rfl := Option.some.inj (hx.symm.trans hx')
  exact hvfb

/-- A registered frame is listed under its buffer and nowhere else. -/
theorem Consistent.mem_frames_iff {e e' : RegistryEntry} {p : FramePtr}
    (he : e ∈ s.frameRegistry) (hp : p ∈ e.frames) (he' : e' ∈ s.frameRegistry) :
    p ∈ e'.frames ↔ e'.vfb = e.vfb := by
  constructor
  · intro hp'
    obtain ⟨x, hx, hvfb⟩ := (h.entries e he).frames p hp
    exact (h.frame_vfb he' hp' hx).symm.trans hvfb
  · intro hvfb
    rwa [h.entry_unique he' he hvfb]

/-- A reserved frame leaves no room for another claim on its buffer. -/
theorem Consistent.reserved_alone (hr : r ∈ s.reserved) :
    ∃ e ∈ s.frameRegistry, e.vfb = r.vfb ∧ r.frame ∈ e.frames ∧ s.liveOn e = 0 ∧
      (s.reserved.map (·.vfb)).count r.vfb = 1 ∧ (s.pending.map (·.vfb)).count r.vfb = 0 ∧
      s.releasing.count r.vfb = 0 := by
  obtain ⟨⟨e, he, hvfb, hmem⟩, b, hb, hone⟩ := h.reserved r hr
  have hcount := (h.buffer_eq he (hvfb ▸ hb)).2
  have hpos := reserved_count_pos hr
  simp only [claimsOn, reservedOn, hvfb] at hcount
  refine ⟨e, he, hvfb, hmem, ?_⟩
  omega

/-- Nothing points to a reserved frame. -/
theorem Consistent.reserved_unreferenced (hr : r ∈ s.reserved) : s.references r.frame = 0 := by
  obtain ⟨e, -, -, hmem, hlive, -⟩ := h.reserved_alone hr
  by_contra hrefs
  have := liveOn_pos hmem (Nat.pos_of_ne_zero hrefs)
  omega

/-- An unused buffer has no claim on it. -/
theorem Consistent.unused (he : e ∈ s.frameRegistry) {b : VideoFrameBuffer D}
    (hb : s.vfbs e.vfb = some b) (hzero : b.refcount = 0) :
    s.claimsOn e = 0 := by
  have hcount := (h.buffer_eq he hb).2
  omega

end

end FrameSystem

end AviSynth
