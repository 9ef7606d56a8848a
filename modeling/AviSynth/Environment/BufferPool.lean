import AviSynth.Library.Memory
import AviSynth.Library.Runs
import Mathlib.Algebra.BigOperators.Group.List.Basic
import Mathlib.Algebra.GroupWithZero.Nat
import Mathlib.Data.List.Pairwise

/-!
# The buffer pool

`BufferPool` puts five words in front of every buffer: two guards, the descriptor of a
pooled buffer, the size and the address of the block that `malloc` returned. Pooled
buffers stay in a multimap by their size, and are handed out again. The callers write
into the buffers they hold and into memory that is not the pool's.
-/

open Memory

namespace AviSynth

/-- `IS_POWER2`. -/
def IsPower2 (n : ℕ) : Prop := n ≠ 0 ∧ n &&& (n - 1) = 0
  deriving Decidable

/-- A descriptor of a pooled buffer, with the address it has itself. -/
structure BufferDesc where
  address : ℕ
  ptr : ℕ
  size : ℕ
  alignment : ℕ
  inUse : Bool
  deriving DecidableEq, Repr

/-- What a caller asked for and received. -/
structure Allocation where
  ptr : ℕ
  nBytes : ℕ
  alignment : ℕ
  deriving DecidableEq, Repr

namespace Allocation

/-- The bytes of an allocation. -/
def span (a : Allocation) : Span := ⟨a.ptr, a.nBytes⟩

end Allocation

/-- The pool, the memory with the blocks that `malloc` returned and that were not freed,
the counter of the environment, and the buffers that the callers hold. -/
structure BufferPool where
  map : List (ℕ × BufferDesc)
  memory : ℕ → UInt8
  heap : List Span
  memoryUsed : UInt64
  live : List Allocation

namespace BufferPool

/-- A pool without blocks. -/
def new (memory : ℕ → UInt8) (memoryUsed : UInt64) : BufferPool :=
  ⟨[], memory, [], memoryUsed, []⟩

/-- `BUFFER_GUARD_VALUE`. -/
def guardValue : ℕ := 0x55555555

/-- `NUM_EXTRA_FIELDS`. -/
def numExtraFields : ℕ := 5

/-- Where the extra fields of a buffer begin. -/
def fields (ptr : ℕ) : ℕ := ptr - sizeofPointer * numExtraFields

/-- The extra field `i` of a buffer. The lowest has number 0, which is index -5 of the
source. -/
def field (p : BufferPool) (ptr i : ℕ) : ℕ := readWord p.memory (fields ptr + sizeofPointer * i)

/-- `CheckGuards`. -/
def CheckGuards (p : BufferPool) (ptr : ℕ) : Prop :=
  p.field ptr 0 = guardValue ∧ p.field ptr 4 = guardValue
  deriving Decidable

/-- A field of the header of a block. -/
def getUserData (p : BufferPool) (ptr : ℕ) : ℕ := p.field ptr 1

def getRealSize (p : BufferPool) (ptr : ℕ) : ℕ := p.field ptr 2

def getRealPtr (p : BufferPool) (ptr : ℕ) : ℕ := p.field ptr 3

/-- The extra bytes that `PrivateAlloc` asks for. -/
def allocOffset (alignment : ℕ) : ℕ :=
  numExtraFields * sizeofPointer + max alignment sizeofPointer - 1

/-- The size that `PrivateAlloc` passes to `malloc`. -/
def realSize (nBytes alignment : ℕ) : ℕ := (nBytes + allocOffset alignment) % 2 ^ 64

/-- Where the buffer begins in a block at `orig`. -/
def alignedIn (orig alignment : ℕ) : ℕ :=
  let behind := (orig + allocOffset alignment) % 2 ^ 64
  behind - behind % max alignment sizeofPointer

/-- `PrivateAlloc`, with the answer of `malloc`. -/
def privateAlloc (p : BufferPool) (nBytes alignment user : ℕ) (malloc : Option ℕ) :
    BufferPool × Option ℕ :=
  if IsPower2 (max alignment sizeofPointer) then
    match malloc with
    | none => (p, none)
    | some orig =>
      let nBytes := realSize nBytes alignment
      let aligned := alignedIn orig alignment
      ({ p with
          memory := writeWords p.memory (fields aligned)
            [guardValue, user, nBytes, orig, guardValue]
          heap := ⟨orig, nBytes⟩ :: p.heap
          memoryUsed := p.memoryUsed + .ofNat nBytes }, some aligned)
  else (p, none)

/-- `PrivateFree`. `free` gives up the block that begins at its argument. -/
def privateFree (p : BufferPool) (buffer : ℕ) : BufferPool :=
  { p with
    memoryUsed := p.memoryUsed - .ofNat (p.getRealSize buffer)
    heap := p.heap.filter (·.start ≠ p.getRealPtr buffer) }

/-- The loop over the map from `lower_bound` on. -/
def findUnused (map : List (ℕ × BufferDesc)) (nBytes alignment : ℕ) : Option BufferDesc :=
  ((map.dropWhile (·.1 < nBytes)).find? fun e => !e.2.inUse && alignment ≤ e.2.alignment).map
    Prod.snd

/-- The descriptor at `address` is marked. -/
def setInUse (map : List (ℕ × BufferDesc)) (address : ℕ) (inUse : Bool) :
    List (ℕ × BufferDesc) :=
  map.map fun e => if e.2.address = address then (e.1, { e.2 with inUse := inUse }) else e

/-- `emplace` of a multimap: behind the entries that are not greater. -/
def emplace (e : ℕ × BufferDesc) : List (ℕ × BufferDesc) → List (ℕ × BufferDesc)
  | [] => [e]
  | first :: rest => if first.1 ≤ e.1 then first :: emplace e rest else e :: first :: rest

/-- What the allocators answer in one call: `malloc`, `new` for a descriptor, and whether
there is a node for the map. -/
structure Answers where
  malloc : Option ℕ
  desc : Option ℕ
  node : Bool
  deriving DecidableEq, Repr

/-- `Allocate`. There is no pointer if it returns `NULL` or an exception leaves it. -/
def allocate (p : BufferPool) (nBytes alignment : ℕ) (pool : Bool) (answers : Answers) :
    BufferPool × Option ℕ :=
  if pool then
    match findUnused p.map nBytes alignment with
    | some desc => ({ p with map := setInUse p.map desc.address true }, some desc.ptr)
    | none =>
      match answers.desc with
      | none => (p, none)
      | some address =>
        match p.privateAlloc nBytes alignment address answers.malloc with
        | (p, none) => (p, none)
        | (p, some ptr) =>
          if answers.node then
            ({ p with map := emplace (nBytes, ⟨address, ptr, nBytes, alignment, true⟩) p.map },
              some ptr)
          else (p, none)
  else p.privateAlloc nBytes alignment 0 answers.malloc

/-- `Free`. -/
def free (p : BufferPool) (ptr : ℕ) : BufferPool :=
  if ptr = 0 then p
  else if p.getUserData ptr ≠ 0 then
    { p with map := setInUse p.map (p.getUserData ptr) false }
  else p.privateFree ptr

/-- `~BufferPool`. -/
def destroy (p : BufferPool) : BufferPool := p.map.foldl (fun p e => p.privateFree e.2.ptr) p

/-- What the allocators may answer: blocks in the lower half of the address space, apart
from those in use, and descriptors apart from the others. -/
def MayAnswer (p : BufferPool) (nBytes alignment : ℕ) (answers : Answers) : Prop :=
  (∀ orig ∈ answers.malloc, 0 < orig ∧ orig + realSize nBytes alignment ≤ 2 ^ 63 ∧
    ∀ b ∈ p.heap, b.Apart ⟨orig, realSize nBytes alignment⟩) ∧
  ∀ address ∈ answers.desc, 0 < address ∧ address < 2 ^ 63 ∧
    ∀ e ∈ p.map, e.2.address ≠ address
  deriving Decidable

/-- The calls of a pool. -/
inductive BufferCall where
  | allocate (nBytes alignment : ℕ) (pool : Bool) (answers : Answers)
  | free (ptr : ℕ)
  | writeByte (address : ℕ) (byte : UInt8)
  deriving DecidableEq, Repr

/-- What can be observed. -/
inductive BufferEvent where
  | allocated (nBytes alignment : ℕ) (ptr : Option ℕ)
  | freed
  | written
  deriving DecidableEq, Repr

/-- The callers free what they hold, and write into what they hold or what is not the
pool's. A failed guard check stops the program. -/
def step (p : BufferPool) : BufferCall → Option (BufferPool × BufferEvent)
  | .allocate nBytes alignment pool answers =>
    if nBytes < 2 ^ 64 ∧ alignment < 2 ^ 64 ∧ IsPower2 alignment ∧
        p.MayAnswer nBytes alignment answers then
      match p.allocate nBytes alignment pool answers with
      | (next, some ptr) =>
        some ({ next with live := ⟨ptr, nBytes, alignment⟩ :: next.live },
          .allocated nBytes alignment (some ptr))
      | (next, none) => some (next, .allocated nBytes alignment none)
    else none
  | .free ptr =>
    if ptr = 0 ∨ (∃ a ∈ p.live, a.ptr = ptr) ∧ p.CheckGuards ptr then
      some ({ p.free ptr with live := p.live.filter (·.ptr ≠ ptr) }, .freed)
    else none
  | .writeByte address byte =>
    if (∃ a ∈ p.live, Span.Within ⟨address, 1⟩ a.span) ∨ ∀ b ∈ p.heap, b.Apart ⟨address, 1⟩ then
      some ({ p with memory := write p.memory address [byte] }, .written)
    else none

/-- The size with the extra bytes is a size. -/
def Representable (nBytes alignment : ℕ) : Prop := nBytes + allocOffset alignment < 2 ^ 64
  deriving Decidable

/-- The sum that the call forms for `malloc` does not wrap, and there is a node for a new
entry of the map. -/
def Fits (p : BufferPool) : BufferCall → Prop
  | .allocate nBytes alignment pool answers =>
    pool = false ∨ findUnused p.map nBytes alignment = none →
      Representable nBytes alignment ∧ (pool = true → answers.node = true)
  | .free _ => True
  | .writeByte _ _ => True

instance (p : BufferPool) : (call : BufferCall) → Decidable (p.Fits call)
  | .allocate _ _ _ _ => inferInstanceAs (Decidable (_ → _))
  | .free _ => inferInstanceAs (Decidable True)
  | .writeByte _ _ => inferInstanceAs (Decidable True)

/-- What the callers rely on: buffers of their own that are as large and as aligned as they
asked for, whose fields are whole, no pointer for a size that cannot be represented, and
a counter that goes back to its start. -/
structure ServesCallers (memoryUsed : UInt64) (history : List BufferEvent) (p : BufferPool) :
    Prop where
  apart : p.live.Pairwise fun a b => a.span.Apart b.span ∧ a.ptr ≠ b.ptr
  owned : ∀ a ∈ p.live, ∃ b ∈ p.heap, a.span.Within b
  aligned : ∀ a ∈ p.live, a.ptr % a.alignment = 0
  guarded : ∀ a ∈ p.live, p.CheckGuards a.ptr
  refuses : ∀ nBytes alignment ptr, .allocated nBytes alignment (some ptr) ∈ history →
    Representable nBytes alignment
  returned : p.live = [] → p.destroy.memoryUsed = memoryUsed ∧ p.destroy.heap = []

end BufferPool

/-!
## The blocks of the buffer pool

Every block that `malloc` returned holds one buffer behind its five fields. The blocks
lie apart, the counter is the sum of their sizes, and the fields of each say what the
block is, whatever is written into the buffers.
-/

namespace BufferPool

variable {p : BufferPool} {memory memory' : ℕ → UInt8} {memoryUsed : UInt64}

/-- A block with its buffer: the descriptor if it is pooled, and who holds it. -/
structure PoolBlock where
  orig : ℕ
  size : ℕ
  ptr : ℕ
  capacity : ℕ
  alignment : ℕ
  desc : Option ℕ
  holder : Option Allocation

namespace PoolBlock

variable {b c : PoolBlock}

/-- The bytes of a block. -/
def span (b : PoolBlock) : Span := ⟨b.orig, b.size⟩

/-- The place of the extra fields. -/
def fieldSpan (b : PoolBlock) : Span := ⟨fields b.ptr, sizeofPointer * numExtraFields⟩

/-- What the extra fields hold. -/
def words (b : PoolBlock) : List ℕ := [guardValue, b.desc.getD 0, b.size, b.orig, guardValue]

/-- What the map has about the block. -/
def entry (b : PoolBlock) : Option (ℕ × BufferDesc) :=
  b.desc.map fun address =>
    (b.capacity, ⟨address, b.ptr, b.capacity, b.alignment, b.holder.isSome⟩)

/-- The buffer lies in its block behind the fields, which are as `PrivateAlloc` wrote them.
A holder asked for no more than the buffer has, and only pooled buffers have none. -/
structure Valid (memory : ℕ → UInt8) (b : PoolBlock) : Prop where
  start : b.orig + sizeofPointer * numExtraFields ≤ b.ptr
  finish : b.ptr + b.capacity ≤ b.orig + b.size
  half : b.orig + b.size ≤ 2 ^ 63
  size_eq : b.size = b.capacity + allocOffset b.alignment
  power : IsPower2 b.alignment
  aligned : max b.alignment sizeofPointer ∣ b.ptr
  words : ∀ i, (hi : i < b.words.length) →
    readWord memory (fields b.ptr + sizeofPointer * i) = b.words[i]
  desc : ∀ address ∈ b.desc, 0 < address
  plain : b.desc = none → b.holder.isSome
  holder : ∀ a ∈ b.holder,
    a.ptr = b.ptr ∧ a.nBytes ≤ b.capacity ∧ a.alignment ≤ b.alignment ∧ IsPower2 a.alignment

theorem fieldSpan_size (b : PoolBlock) : 0 < b.fieldSpan.size := by
  simp [fieldSpan, sizeofPointer, numExtraFields]

@[simp] theorem length_words (b : PoolBlock) : b.words.length = 5 := rfl

theorem Valid.fieldSpan_within (h : b.Valid memory) : b.fieldSpan.Within b.span := by
  have hstart := h.start
  have hfinish := h.finish
  simp only [fieldSpan, span, fields, Span.Within, Span.finish, sizeofPointer, numExtraFields]
    at hstart ⊢
  omega

/-- What a holder received lies in the block, behind the fields. -/
theorem Valid.holder_span (h : b.Valid memory) {a : Allocation} (ha : b.holder = some a) :
    a.span.Within b.span ∧ b.fieldSpan.Apart a.span := by
  obtain ⟨hptr, hroom, -⟩ := h.holder a ha
  have hstart := h.start
  have hfinish := h.finish
  simp only [Allocation.span, fieldSpan, span, fields, Span.Within, Span.Apart, Span.finish,
    sizeofPointer, numExtraFields] at hstart ⊢
  omega

/-- Memory that reads the same fields. -/
theorem Valid.congr (h : b.Valid memory)
    (hsame : ∀ s : Span, s.Within b.fieldSpan →
      read memory' s.start s.size = read memory s.start s.size) : b.Valid memory' where
  start := h.start
  finish := h.finish
  half := h.half
  size_eq := h.size_eq
  power := h.power
  aligned := h.aligned
  words i hi := by
    have hwithin : Span.Within ⟨fields b.ptr + sizeofPointer * i, sizeofPointer⟩ b.fieldSpan := by
      have hlt : i < 5 := hi
      simp only [fieldSpan, Span.Within, Span.finish, sizeofPointer, numExtraFields]
      omega
    rw [readWord, hsame _ hwithin]
    exact h.words i hi
  desc := h.desc
  plain := h.plain
  holder := h.holder

/-- Buffers in blocks that are apart have different addresses. -/
theorem Valid.ptr_ne (hb : b.Valid memory) (hc : c.Valid memory') (h : b.span.Apart c.span) :
    b.ptr ≠ c.ptr := by
  have hbs := hb.fieldSpan_within
  have hcs := hc.fieldSpan_within
  have hfields := (h.mono hbs hcs).start_ne (fieldSpan_size b) (fieldSpan_size c)
  intro heq
  exact hfields (congrArg fields heq)

theorem Valid.size_pos (h : b.Valid memory) : 0 < b.span.size := by
  have hsize := h.size_eq
  simp only [allocOffset, sizeofPointer, numExtraFields] at hsize
  simp only [span]
  omega

end PoolBlock

open PoolBlock

instance : Std.Symm Span.Apart where
  symm _ _ h := h.symm

instance : Std.Symm fun b c : PoolBlock => b.span.Apart c.span where
  symm _ _ h := Span.Apart.symm h

/-- The heap of the pool consists of these blocks. -/
structure HoldsBlocks (memoryUsed : UInt64) (p : BufferPool) (blocks : List PoolBlock) :
    Prop where
  valid : ∀ b ∈ blocks, b.Valid p.memory
  heap : p.heap.Perm (blocks.map PoolBlock.span)
  apart : blocks.Pairwise fun b c => b.span.Apart c.span
  used : p.memoryUsed = memoryUsed + .ofNat (blocks.map PoolBlock.size).sum

variable {b c : PoolBlock} {blocks rest : List PoolBlock}

theorem HoldsBlocks.perm (h : HoldsBlocks memoryUsed p blocks) (hperm : blocks.Perm rest) :
    HoldsBlocks memoryUsed p rest where
  valid b hb := h.valid b (hperm.mem_iff.mpr hb)
  heap := h.heap.trans (hperm.map _)
  apart := (hperm.pairwise_iff fun hab => Span.Apart.symm hab).mp h.apart
  used := h.used.trans (by rw [(hperm.map PoolBlock.size).sum_eq])

/-- A block of the heap comes first in some order of the blocks. -/
theorem exists_perm_cons (hb : b ∈ blocks) : ∃ rest, blocks.Perm (b :: rest) := by
  obtain ⟨before, behind, rfl⟩ := List.append_of_mem hb
  exact ⟨before ++ behind, List.perm_middle⟩

theorem HoldsBlocks.ptr_ne (h : HoldsBlocks memoryUsed p (b :: rest)) (hc : c ∈ rest) :
    b.ptr ≠ c.ptr :=
  (h.valid b List.mem_cons_self).ptr_ne (h.valid c (List.mem_cons_of_mem _ hc))
    ((List.pairwise_cons.mp h.apart).1 c hc)

/-- The functions that look behind a pointer read the fields. -/
theorem HoldsBlocks.field (h : HoldsBlocks memoryUsed p blocks) (hb : b ∈ blocks) :
    p.getUserData b.ptr = b.desc.getD 0 ∧ p.getRealSize b.ptr = b.size ∧
      p.getRealPtr b.ptr = b.orig ∧ p.CheckGuards b.ptr := by
  have hwords := (h.valid b hb).words
  exact ⟨hwords 1 (by simp), hwords 2 (by simp), hwords 3 (by simp),
    hwords 0 (by simp), hwords 4 (by simp)⟩

/-- Freeing a buffer gives up its block, and no other. -/
theorem HoldsBlocks.privateFree (h : HoldsBlocks memoryUsed p (b :: rest)) :
    HoldsBlocks memoryUsed (p.privateFree b.ptr) rest := by
  obtain ⟨-, hsize, horig, -⟩ := h.field List.mem_cons_self
  obtain ⟨hfirst, hapart⟩ := List.pairwise_cons.mp h.apart
  constructor
  case valid => exact fun c hc => h.valid c (List.mem_cons_of_mem _ hc)
  case heap =>
    have hkept : (rest.map PoolBlock.span).filter (·.start ≠ b.orig) =
        rest.map PoolBlock.span := by
      refine List.filter_eq_self.mpr fun s hs => ?_
      obtain ⟨c, hc, rfl⟩ := List.mem_map.mp hs
      have hne := (hfirst c hc).start_ne (h.valid b List.mem_cons_self).size_pos
        (h.valid c (List.mem_cons_of_mem _ hc)).size_pos
      exact decide_eq_true hne.symm
    have hheap := h.heap.filter (·.start ≠ b.orig)
    rw [List.map_cons, List.filter_cons_of_neg (by simp [PoolBlock.span]), hkept] at hheap
    simpa only [BufferPool.privateFree, horig] using hheap
  case apart => exact hapart
  case used =>
    simp only [BufferPool.privateFree, hsize, h.used, List.map_cons, List.sum_cons,
      UInt64.ofNat_add]
    rw [UInt64.add_comm (.ofNat b.size), ← UInt64.add_assoc, UInt64.add_sub_cancel]

/-- A new block is added. -/
theorem HoldsBlocks.privateAlloc (h : HoldsBlocks memoryUsed p blocks)
    (hvalid : b.Valid (writeWords p.memory (fields b.ptr) b.words))
    (hapart : ∀ s ∈ p.heap, s.Apart b.span) :
    HoldsBlocks memoryUsed
      { p with
        memory := writeWords p.memory (fields b.ptr) b.words
        heap := b.span :: p.heap
        memoryUsed := p.memoryUsed + .ofNat b.size } (b :: blocks) := by
  have hblocks : ∀ c ∈ blocks, c.span.Apart b.span := fun c hc =>
    hapart _ (h.heap.mem_iff.mpr (List.mem_map_of_mem hc))
  constructor
  case valid =>
    intro c hc
    obtain rfl | hc := List.mem_cons.mp hc
    · exact hvalid
    · refine (h.valid c hc).congr fun s hs => ?_
      have hs' := hs.trans (h.valid c hc).fieldSpan_within
      exact read_writeWords_apart (((hblocks c hc).mono hs' hvalid.fieldSpan_within).symm)
  case heap => exact h.heap.cons b.span
  case apart => exact List.pairwise_cons.mpr ⟨fun c hc => (hblocks c hc).symm, h.apart⟩
  case used =>
    simp only [h.used, List.map_cons, List.sum_cons, UInt64.ofNat_add]
    rw [UInt64.add_assoc, UInt64.add_comm (.ofNat b.size)]

/-- The loop of the destructor gives up all blocks if the map has all buffers. -/
theorem HoldsBlocks.destroy {entries : List (ℕ × BufferDesc)}
    (h : HoldsBlocks memoryUsed p blocks)
    (hentries : (entries.map (·.2.ptr)).Perm (blocks.map PoolBlock.ptr)) :
    let q := entries.foldl (fun p e => p.privateFree e.2.ptr) p
    q.memoryUsed = memoryUsed ∧ q.heap = [] := by
  induction entries generalizing p blocks with
  | nil =>
    obtain rfl : blocks = [] := by simpa using hentries.symm
    exact ⟨by simpa using h.used, by simpa using h.heap⟩
  | cons e entries ih =>
    obtain ⟨b, hb, hptr⟩ : ∃ b ∈ blocks, b.ptr = e.2.ptr :=
      List.mem_map.mp (hentries.subset List.mem_cons_self)
    obtain ⟨rest, hperm⟩ := exists_perm_cons hb
    have hrest : (entries.map (·.2.ptr)).Perm (rest.map PoolBlock.ptr) := by
      have hcons := hentries.trans (hperm.map PoolBlock.ptr)
      rw [List.map_cons, List.map_cons, hptr] at hcons
      exact hcons.cons_inv
    rw [List.foldl_cons, ← hptr]
    exact ih (h.perm hperm).privateFree hrest

end BufferPool

end AviSynth
