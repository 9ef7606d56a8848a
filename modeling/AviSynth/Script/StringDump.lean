import AviSynth.Library.Memory
import AviSynth.Library.Runs
import AviSynth.Script.Tokenizer
import Mathlib.Data.List.Pairwise

/-!
# The string store

`StringDump` carves strings out of blocks and hands out the same pointer for a string
that it already has. Its cache is keyed by pointer and length. The allocator, which
may refuse a block, answers with any addresses apart from the blocks of the store.
Other code may write anywhere but into these blocks.
-/

open Memory

namespace AviSynth

/-- `CompositeKeyDjb2Hash`: the bytes are signed characters. -/
def djb2Hash (text : Bytes) : ℕ :=
  text.foldl (fun hash c =>
    ((hash <<< 5) + hash + (c.toNat + if c.toNat < 128 then 0 else 2 ^ 64 - 256)) % 2 ^ 64) 5381

/-- `AlignNumber` for sizes and powers of two. -/
def alignSize (n align : ℕ) : ℕ :=
  (n + (align - 1)) % 2 ^ 64 - (n + (align - 1)) % 2 ^ 64 % align

/-- A key of the cache. Its value is its pointer. -/
structure CompositeKey where
  hash : ℕ
  keyStr : ℕ
  keyLen : ℕ
  deriving DecidableEq, Repr

/-- The current block, and the strings that are kept. -/
structure StringDump where
  currentBlock : ℕ
  blockPos : ℕ
  blockSize : ℕ
  cache : List CompositeKey

namespace StringDump

/-- `BLOCK_SIZE`. -/
def standardSize : ℕ := 32768

def new : StringDump := ⟨0, standardSize, standardSize, []⟩

/-- The test of `ensure_length`. -/
def needsBlock (d : StringDump) (len : ℕ) : Prop := d.blockSize < (d.blockPos + len + 1) % 2 ^ 64
  deriving Decidable

/-- The size of the block that `ensure_length` asks for. -/
def nextSize (d : StringDump) (len : ℕ) : ℕ :=
  max d.blockSize ((len + 1 + sizeofPointer) % 2 ^ 64)

end StringDump

/-- The store, with the memory that it lies in and the blocks that it has allocated,
the newest first. -/
structure StringMemory where
  dump : StringDump
  memory : ℕ → UInt8
  blocks : List Span

namespace StringMemory

def new (memory : ℕ → UInt8) : StringMemory := ⟨StringDump.new, memory, []⟩

/-- `get_string`: a key is equal if its length is and the bytes that it points to are. -/
def getString (s : StringMemory) (text : Bytes) : Option ℕ :=
  (s.dump.cache.find? fun key =>
    key.hash == djb2Hash text && key.keyLen == text.length &&
      read s.memory key.keyStr key.keyLen == text).map CompositeKey.keyStr

/-- `add_string`. -/
def addString (s : StringMemory) (keyStr : ℕ) (text : Bytes) : StringMemory :=
  { s with dump.cache := ⟨djb2Hash text, keyStr, text.length⟩ :: s.dump.cache }

/-- `ensure_length`, with the answer of the allocator. The size is set before the
allocator is called. -/
def ensureLength (s : StringMemory) (len : ℕ) (block : Option ℕ) : StringMemory × Bool :=
  if s.dump.needsBlock len then
    let size := s.dump.nextSize len
    match block with
    | none => ({ s with dump.blockSize := size }, false)
    | some newBlock =>
      ({ dump := { s.dump with
            currentBlock := newBlock, blockPos := sizeofPointer, blockSize := size }
         memory := writeWords s.memory newBlock [s.dump.currentBlock]
         blocks := ⟨newBlock, size⟩ :: s.blocks }, true)
  else (s, true)

/-- The text and a zero are written behind what the block holds. -/
def place (s : StringMemory) (text : Bytes) : StringMemory × ℕ :=
  let result := s.dump.currentBlock + s.dump.blockPos
  ({ s with
      memory := write s.memory result (text ++ [0])
      dump.blockPos :=
        (s.dump.blockPos + alignSize (text.length + 1) sizeofPointer) % 2 ^ 64 }, result)

/-- `SaveString` for the decoded text. There is no pointer if an allocation fails, be it
that of a block or that of a node of the cache. -/
def save (s : StringMemory) (text : Bytes) (block : Option ℕ) (node : Bool) :
    StringMemory × Option ℕ :=
  match s.getString text with
  | some pointer => (s, some pointer)
  | none =>
    match s.ensureLength text.length block with
    | (s, false) => (s, none)
    | (s, true) =>
      let (s, result) := s.place text
      if node then (s.addString result text, some result) else (s, none)

/-- What the allocator may answer: addresses in the lower half of the address space,
aligned, and apart from the blocks that are in use. -/
def MayAllocate (s : StringMemory) (len newBlock : ℕ) : Prop :=
  0 < newBlock ∧ newBlock % 16 = 0 ∧ newBlock + s.dump.nextSize len ≤ 2 ^ 63 ∧
    ∀ b ∈ s.blocks, b.Apart ⟨newBlock, s.dump.nextSize len⟩
  deriving Decidable

/-- A string that was saved, and the pointer that its caller received. -/
structure SavedText where
  text : Bytes
  pointer : ℕ
  deriving DecidableEq, Repr

namespace SavedText

/-- The bytes of the text and its zero. -/
def span (t : SavedText) : Span := ⟨t.pointer, t.text.length + 1⟩

/-- The key under which the cache has the text. -/
def key (t : SavedText) : CompositeKey := ⟨djb2Hash t.text, t.pointer, t.text.length⟩

end SavedText

/-- The calls. -/
inductive DumpAction where
  | save (string : Bytes) (len : ℤ) (escape : Bool) (block : Option ℕ) (node : Bool)
  | writeElsewhere (address : ℕ) (byte : UInt8)
  deriving DecidableEq, Repr

/-- What can be observed. -/
inductive DumpEvent where
  | saved (t : SavedText)
  | failed
  | written
  deriving DecidableEq, Repr

/-- No text is longer than an object of the language can be. -/
def step (s : StringMemory) : DumpAction → Option (StringMemory × DumpEvent)
  | .save string len escape block node =>
    let text := saveString string len escape
    if text.length < 2 ^ 63 ∧ ∀ newBlock ∈ block, s.MayAllocate text.length newBlock then
      match s.save text block node with
      | (next, some pointer) => some (next, .saved ⟨text, pointer⟩)
      | (next, none) => some (next, .failed)
    else none
  | .writeElsewhere address byte =>
    if ∀ b ∈ s.blocks, b.Apart ⟨address, 1⟩ then
      some ({ s with memory := write s.memory address [byte] }, .written)
    else none

/-- The allocator does not refuse a block that is greater than those before it. -/
def GetsBlock (s : StringMemory) : DumpAction → Prop
  | .save string len escape block _ =>
    let text := saveString string len escape
    s.getString text = none → s.dump.needsBlock text.length → block = none →
      s.dump.nextSize text.length = s.dump.blockSize
  | .writeElsewhere _ _ => True

instance (s : StringMemory) : (action : DumpAction) → Decidable (s.GetsBlock action)
  | .save _ _ _ _ _ => inferInstanceAs (Decidable (_ → _ → _ → _))
  | .writeElsewhere _ _ => inferInstanceAs (Decidable True)

/-- What the clients of the store rely on: their strings stay, do not overlap, and are
the same pointer when they are the same text. -/
structure KeepsTexts (history : List DumpEvent) (s : StringMemory) : Prop where
  denotes : ∀ t, .saved t ∈ history →
    read s.memory t.pointer (t.text.length + 1) = t.text ++ [0]
  apart : ∀ t t', .saved t ∈ history → .saved t' ∈ history →
    t.pointer ≠ t'.pointer → t.span.Apart t'.span
  shared : ∀ t t', .saved t ∈ history → .saved t' ∈ history →
    (t.pointer = t'.pointer ↔ t.text = t'.text)

end StringMemory

/-!
## Saved strings stay

The store represents a table of texts with their pointers. Every text lies in a block
and apart from the free end of the current block, and no two texts are the same. A run
keeps this up as long as the size it goes by is the size of the current block, which a
refused greater block would change.
-/

open Transition

namespace StringMemory

variable {s next : StringMemory} {table : List SavedText} {history : List DumpEvent}
  {text : Bytes} {block : Option ℕ} {node : Bool} {len : ℕ}

/-- Different texts in different places. -/
def SavedText.Differ (t t' : SavedText) : Prop := t.span.Apart t'.span ∧ t.text ≠ t'.text

instance : Std.Symm SavedText.Differ where
  symm _ _ h := ⟨h.1.symm, h.2.symm⟩

/-- The rest of the current block. -/
def freeSpan (s : StringMemory) : Span :=
  ⟨s.dump.currentBlock + s.dump.blockPos, s.dump.blockSize - s.dump.blockPos⟩

/-- The store has the texts of the table, and these only. -/
structure Represents (s : StringMemory) (table : List SavedText) : Prop where
  cache : s.dump.cache = table.map SavedText.key
  denotes : ∀ t ∈ table, read s.memory t.pointer (t.text.length + 1) = t.text ++ [0]
  inBlock : ∀ t ∈ table, ∃ b ∈ s.blocks, t.span.Within b
  free : s.dump.blockPos ≤ s.dump.blockSize → ∀ t ∈ table, t.span.Apart s.freeSpan
  apart : table.Pairwise SavedText.Differ
  current : s.dump.blockPos < s.dump.blockSize →
    ⟨s.dump.currentBlock, s.dump.blockSize⟩ ∈ s.blocks
  position : s.dump.blockPos < s.dump.blockSize + sizeofPointer
  size : s.dump.blockSize + 16 ≤ 2 ^ 63

/-- A new store has no text. -/
theorem represents_new (memory : ℕ → UInt8) : (new memory).Represents [] where
  cache := rfl
  denotes _ ht := by simp at ht
  inBlock _ ht := by simp at ht
  free _ _ ht := by simp at ht
  apart := .nil
  current h := absurd h (lt_irrefl _)
  position := by simp [new, StringDump.new, sizeofPointer]
  size := by simp [new, StringDump.new, StringDump.standardSize]

section

variable (h : s.Represents table)
include h

/-- The text and its zero are read apart. -/
theorem Represents.read_text {t : SavedText} (ht : t ∈ table) :
    read s.memory t.pointer t.text.length = t.text := by
  have hdenotes := h.denotes t ht
  rw [read_succ] at hdenotes
  exact (List.append_inj' hdenotes rfl).1

/-- A lookup that finds a key finds the text. -/
theorem Represents.getString_some {pointer : ℕ}
    (hget : s.getString text = some pointer) : ⟨text, pointer⟩ ∈ table := by
  obtain ⟨key, hfind, rfl⟩ := Option.map_eq_some_iff.mp hget
  obtain ⟨t, ht, rfl⟩ : ∃ t ∈ table, t.key = key := by
    simpa [h.cache] using List.mem_of_find?_eq_some hfind
  have hequal := List.find?_some hfind
  simp only [SavedText.key, h.read_text ht, Bool.and_eq_true, beq_iff_eq] at hequal
  obtain rfl : t.text = text := hequal.2
  exact ht

/-- A lookup that finds no key misses no text. -/
theorem Represents.getString_none (hget : s.getString text = none) :
    ∀ t ∈ table, t.text ≠ text := by
  rintro t ht rfl
  have hnone : ∀ key ∈ s.dump.cache, _ := List.find?_eq_none.mp (Option.map_eq_none_iff.mp hget)
  have hkey : t.key ∈ s.dump.cache := by
    rw [h.cache]
    exact List.mem_map_of_mem ht
  have hmiss := hnone _ hkey
  simp [SavedText.key, h.read_text ht] at hmiss

/-- Writing apart from the texts changes none of them. -/
theorem Represents.write {a : ℕ} {cells : Bytes}
    (hapart : ∀ t ∈ table, t.span.Apart ⟨a, cells.length⟩) :
    Represents { s with memory := Memory.write s.memory a cells } table where
  cache := h.cache
  denotes t ht := (read_write_apart (hapart t ht).symm).trans (h.denotes t ht)
  inBlock := h.inBlock
  free := h.free
  apart := h.apart
  current := h.current
  position := h.position
  size := h.size

/-- A text lies apart from what lies apart from the blocks. -/
theorem Represents.apart_of_blocks {a : Span}
    (ha : ∀ b ∈ s.blocks, b.Apart a) : ∀ t ∈ table, t.span.Apart a := by
  intro t ht
  obtain ⟨b, hb, hwithin⟩ := h.inBlock t ht
  exact (ha b hb).mono hwithin ⟨le_rfl, le_rfl⟩

theorem not_needsBlock (hlen : len < 2 ^ 63)
    (hblock : ¬s.dump.needsBlock len) : s.dump.blockPos + len + 1 ≤ s.dump.blockSize := by
  have hposition := h.position
  have hsize := h.size
  simp only [StringDump.needsBlock, sizeofPointer] at hblock hposition
  omega

omit h in
theorem nextSize_eq (hlen : len < 2 ^ 63) :
    s.dump.nextSize len = max s.dump.blockSize (len + 9) := by
  have hfits : (len + 1 + sizeofPointer) % 2 ^ 64 = len + 9 := by
    simp only [sizeofPointer]
    omega
  rw [StringDump.nextSize, hfits]

/-- Whether the allocator answers or not, the table stays, and after its answer there is
room for the text. -/
theorem Represents.ensureLength (hlen : len < 2 ^ 63)
    (hmay : ∀ newBlock ∈ block, s.MayAllocate len newBlock)
    (hgets : s.dump.needsBlock len → block = none → s.dump.nextSize len = s.dump.blockSize)
    {done : Bool} (hensure : s.ensureLength len block = (next, done)) :
    next.Represents table ∧
      (done = true → next.dump.blockPos + len + 1 ≤ next.dump.blockSize) := by
  unfold StringMemory.ensureLength at hensure
  by_cases hneeds : s.dump.needsBlock len
  · rw [if_pos hneeds] at hensure
    have hnextSize := nextSize_eq (s := s) hlen
    cases block with
    | none =>
      obtain ⟨rfl, rfl⟩ := Prod.mk.inj hensure
      have hsame : s.dump.nextSize len = s.dump.blockSize := hgets hneeds rfl
      simpa [hsame] using h
    | some newBlock =>
      obtain ⟨rfl, rfl⟩ := Prod.mk.inj hensure
      obtain ⟨hpos, haligned, hhalf, hblocks⟩ := hmay newBlock rfl
      have hnew : ∀ t ∈ table, t.span.Apart ⟨newBlock, s.dump.nextSize len⟩ :=
        h.apart_of_blocks hblocks
      refine ⟨?_, fun _ => ?_⟩
      · exact {
          cache := h.cache
          denotes := fun t ht => by
            have hapart : t.span.Apart ⟨newBlock, sizeofPointer * [s.dump.currentBlock].length⟩ :=
              (hnew t ht).mono ⟨le_rfl, le_rfl⟩ ⟨le_rfl, by
                simp only [Span.finish, sizeofPointer, List.length_singleton]
                omega⟩
            exact (read_writeWords_apart hapart.symm).trans (h.denotes t ht)
          inBlock := fun t ht => by
            obtain ⟨b, hb, hwithin⟩ := h.inBlock t ht
            exact ⟨b, List.mem_cons_of_mem _ hb, hwithin⟩
          free := fun _ t ht => (hnew t ht).mono ⟨le_rfl, le_rfl⟩ (by
            simp only [freeSpan, Span.Within, Span.finish, sizeofPointer]
            omega)
          apart := h.apart
          current := fun _ => List.mem_cons_self
          position := by
            simp only [sizeofPointer]
            omega
          size := by
            simp only
            omega }
      · simp only [sizeofPointer]
        omega
  · rw [if_neg hneeds] at hensure
    obtain ⟨rfl, rfl⟩ := Prod.mk.inj hensure
    exact ⟨h, fun _ => not_needsBlock h hlen hneeds⟩

omit h in
/-- Rounding a length up to pointers. -/
theorem alignSize_bounds (hlen : len < 2 ^ 63) :
    len + 1 ≤ alignSize (len + 1) sizeofPointer ∧
      alignSize (len + 1) sizeofPointer < len + 1 + sizeofPointer := by
  simp only [alignSize, sizeofPointer]
  omega

/-- A new text is placed in the free span. -/
theorem Represents.place (hlen : text.length < 2 ^ 63)
    (hroom : s.dump.blockPos + text.length + 1 ≤ s.dump.blockSize)
    (hfresh : ∀ t ∈ table, t.text ≠ text) :
    (s.place text).1.Represents table ∧
      ((s.place text).1.addString (s.place text).2 text).Represents
        (⟨text, (s.place text).2⟩ :: table) := by
  let new : SavedText := ⟨text, s.dump.currentBlock + s.dump.blockPos⟩
  obtain ⟨hlow, hhigh⟩ := alignSize_bounds hlen
  have hsize := h.size
  have hposition : (s.dump.blockPos + alignSize (text.length + 1) sizeofPointer) % 2 ^ 64 =
      s.dump.blockPos + alignSize (text.length + 1) sizeofPointer := by
    simp only [sizeofPointer] at hhigh ⊢
    omega
  have hblock := h.current (by omega)
  have hinFree : new.span.Within s.freeSpan := by
    simp only [new, SavedText.span, freeSpan, Span.Within, Span.finish]
    omega
  have hnewApart : ∀ t ∈ table, t.span.Apart new.span := fun t ht =>
    (h.free (by omega) t ht).mono ⟨le_rfl, le_rfl⟩ hinFree
  have hwritten :
      Represents { s with memory := Memory.write s.memory new.pointer (text ++ [0]) } table :=
    h.write fun t ht => by simpa [new, SavedText.span] using hnewApart t ht
  have hafter : ∀ t : SavedText, s.dump.blockPos + alignSize (text.length + 1) sizeofPointer ≤
      s.dump.blockSize → t.span.Apart s.freeSpan → t.span.Apart (s.place text).1.freeSpan := by
    intro t hle hapart
    refine hapart.mono ⟨le_rfl, le_rfl⟩ ?_
    simp only [StringMemory.place, freeSpan, Span.Within, Span.finish, hposition]
    omega
  have hplaced : (s.place text).1.Represents table := {
    cache := h.cache
    denotes := hwritten.denotes
    inBlock := h.inBlock
    free := fun hle t ht => hafter t (by rwa [← hposition]) (h.free (by omega) t ht)
    apart := h.apart
    current := fun _ => hblock
    position := by
      simp only [StringMemory.place, hposition]
      omega
    size := h.size }
  refine ⟨hplaced, ?_⟩
  exact {
    cache := by simp [addString, hplaced.cache, SavedText.key]
    denotes := fun t ht => by
      obtain rfl | ht := List.mem_cons.mp ht
      · have hread := read_write_self s.memory (s.dump.currentBlock + s.dump.blockPos)
          (text ++ [0])
        simpa [addString, StringMemory.place] using hread
      · exact hplaced.denotes t ht
    inBlock := fun t ht => by
      obtain rfl | ht := List.mem_cons.mp ht
      · refine ⟨_, hblock, ?_⟩
        simp only [StringMemory.place, SavedText.span, Span.Within, Span.finish]
        omega
      · exact h.inBlock t ht
    free := fun hle t ht => by
      obtain rfl | ht := List.mem_cons.mp ht
      · refine Or.inl ?_
        simp only [addString, StringMemory.place, SavedText.span, freeSpan, Span.finish, hposition]
        omega
      · exact hplaced.free hle t ht
    apart := List.pairwise_cons.mpr ⟨fun t ht =>
      ⟨(hnewApart t ht).symm, (hfresh t ht).symm⟩, h.apart⟩
    current := fun _ => hblock
    position := hplaced.position
    size := h.size }

/-- One save adds its text, if it returns a pointer to it. -/
theorem Represents.save (hlen : text.length < 2 ^ 63)
    (hmay : ∀ newBlock ∈ block, s.MayAllocate text.length newBlock)
    (hgets : s.getString text = none → s.dump.needsBlock text.length → block = none →
      s.dump.nextSize text.length = s.dump.blockSize) {result : Option ℕ}
    (hsave : s.save text block node = (next, result)) :
    ∃ table', next.Represents table' ∧ table ⊆ table' ∧
      ∀ pointer ∈ result, ⟨text, pointer⟩ ∈ table' := by
  unfold StringMemory.save at hsave
  cases hget : s.getString text with
  | some pointer =>
    rw [hget] at hsave
    obtain ⟨rfl, rfl⟩ := Prod.mk.inj hsave
    refine ⟨table, h, List.Subset.refl _, fun p hp => ?_⟩
    obtain rfl : pointer = p := Option.some.inj hp
    exact h.getString_some hget
  | none =>
    simp only [hget] at hsave
    cases hensure : s.ensureLength text.length block with
    | mk t done =>
      obtain ⟨ht, hroom⟩ := h.ensureLength hlen hmay (hgets hget) hensure
      rw [hensure] at hsave
      cases done with
      | false =>
        obtain ⟨rfl, rfl⟩ := Prod.mk.inj hsave
        exact ⟨table, ht, List.Subset.refl _, fun p hp => absurd hp (by simp)⟩
      | true =>
        obtain ⟨hplaced, hadded⟩ := ht.place hlen (hroom rfl) (h.getString_none hget)
        cases node with
        | false =>
          obtain ⟨rfl, rfl⟩ := Prod.mk.inj hsave
          exact ⟨table, hplaced, List.Subset.refl _, fun p hp => absurd hp (by simp)⟩
        | true =>
          obtain ⟨rfl, rfl⟩ := Prod.mk.inj hsave
          refine ⟨_, hadded, List.subset_cons_self _ _, fun p hp => ?_⟩
          obtain rfl : (t.place text).2 = p := Option.some.inj hp
          exact List.mem_cons_self

end

/-- The texts that were saved are in the table. -/
def Records (history : List DumpEvent) (s : StringMemory) : Prop :=
  ∃ table, s.Represents table ∧ ∀ t, .saved t ∈ history → t ∈ table

theorem Records.step (h : s.Records history) {action : DumpAction} {event : DumpEvent}
    (hok : s.GetsBlock action) (hstep : s.step action = some (next, event)) :
    next.Records (event :: history) := by
  obtain ⟨table, hs, hsaved⟩ := h
  cases action with
  | save string len escape block node =>
    simp only [StringMemory.step, Option.ite_none_right_eq_some] at hstep
    obtain ⟨⟨hlen, hmay⟩, hstep⟩ := hstep
    cases hsave : s.save (saveString string len escape) block node with
    | mk t result =>
      obtain ⟨table', ht, hsubset, hresult⟩ := hs.save hlen hmay hok hsave
      rw [hsave] at hstep
      cases result with
      | none =>
        obtain ⟨⟩ := Option.some.inj hstep
        exact ⟨table', ht, fun u hu => hsubset (hsaved u (by simpa using hu))⟩
      | some pointer =>
        obtain ⟨⟩ := Option.some.inj hstep
        refine ⟨table', ht, fun u hu => ?_⟩
        obtain heq | hu := List.mem_cons.mp hu
        · obtain rfl := DumpEvent.saved.inj heq
          exact hresult pointer rfl
        · exact hsubset (hsaved u hu)
  | writeElsewhere address byte =>
    simp only [StringMemory.step, Option.ite_none_right_eq_some] at hstep
    obtain ⟨hapart, hstep⟩ := hstep
    obtain ⟨⟩ := Option.some.inj hstep
    exact ⟨table, hs.write (hs.apart_of_blocks hapart), fun u hu => hsaved u (by simpa using hu)⟩

/-- A table keeps the promise to the clients. -/
theorem Records.keepsTexts (h : s.Records history) : KeepsTexts history s := by
  obtain ⟨table, hs, hsaved⟩ := h
  have hpair : ∀ t t', .saved t ∈ history → .saved t' ∈ history → t ≠ t' → t.Differ t' :=
    fun t t' ht ht' hne => hs.apart.forall (hsaved t ht) (hsaved t' ht') hne
  constructor
  case denotes => exact fun t ht => hs.denotes t (hsaved t ht)
  case apart =>
    intro t t' ht ht' hpointer
    exact (hpair t t' ht ht' fun heq => hpointer (by rw [heq])).1
  case shared =>
    intro t t' ht ht'
    by_cases heq : t = t'
    · simp [heq]
    · obtain ⟨hapart, htext⟩ := hpair t t' ht ht' heq
      have hpointer := hapart.start_ne (Nat.succ_pos _) (Nat.succ_pos _)
      exact iff_of_false hpointer htext

/-- Unless a block greater than those before it is refused, saved strings stay, do not
overlap, and are shared exactly when they are equal. -/
theorem stringDump_keepsTexts (memory : ℕ → UInt8)
    (hrun : Run step GetsBlock (new memory) history s) : KeepsTexts history s :=
  (hrun.invariant (fun history s => s.Records history)
    ⟨[], represents_new memory, fun _ ht => by simp at ht⟩
    fun h hok hstep => h.step hok hstep).keepsTexts

/-- A text is saved twice, once with an escape, and another one between. -/
theorem stringDump_keepsTexts_shared :
    ∃ history s, Run step GetsBlock (new fun _ => 0) history s ∧
      history = [.saved ⟨[0x61, newline], 4104⟩, .saved ⟨[0x61], 4112⟩,
        .saved ⟨[0x61, newline], 4104⟩] ∧
      KeepsTexts history s := by
  obtain ⟨history, s, hrun, hcheck⟩ := exists_run step GetsBlock (new fun _ => 0)
    [.save [0x61, newline] (-1) false (some 4096) true, .save [0x61] 1 false none true,
      .save [0x61, backslash, 0x6E] 3 true none true]
    (fun history _ => history = [.saved ⟨[0x61, newline], 4104⟩, .saved ⟨[0x61], 4112⟩,
        .saved ⟨[0x61, newline], 4104⟩]) (by decide +kernel)
  exact ⟨history, s, hrun, of_decide_eq_true hcheck, stringDump_keepsTexts _ hrun⟩

/-- A long string finds no memory. The next one is written where the store has no block,
and other code may write there. -/
theorem stringDump_refusedBlock :
    ¬∀ (memory : ℕ → UInt8) (history : List DumpEvent) (s : StringMemory),
      Run step always (new memory) history s → KeepsTexts history s := by
  intro hall
  let refused : StringMemory := ⟨⟨0, 32768, 40009, []⟩, fun _ => 0, []⟩
  let saved : StringMemory :=
    ⟨⟨0, 32776, 40009, [⟨djb2Hash [0x61], 32768, 1⟩]⟩, write (fun _ => 0) 32768 [0x61, 0], []⟩
  obtain ⟨long, hlong⟩ : ∃ long : Bytes, long.length = 40000 :=
    ⟨List.replicate 40000 0x61, List.length_replicate⟩
  have hrefused : step (new fun _ => 0) (.save long 40000 false none true) =
      some (refused, .failed) := by
    simp [step, saveString, save, getString, new, StringDump.new, ensureLength, refused, hlong,
      StringDump.needsBlock, StringDump.nextSize, StringDump.standardSize, sizeofPointer]
  have hsaved : step refused (.save [0x61] 1 false none true) =
      some (saved, .saved ⟨[0x61], 32768⟩) := by
    simp [step, saveString, save, getString, ensureLength, refused, saved, place, addString,
      StringDump.needsBlock, sizeofPointer, alignSize]
  have hwritten : step saved (.writeElsewhere 32768 0) =
      some ({ saved with memory := write saved.memory 32768 [0] }, .written) := by
    simp [step, saved]
  have hkept := hall _ _ _ (((Run.init.step trivial hrefused).step trivial hsaved).step trivial
    hwritten)
  have hdenotes := hkept.denotes ⟨[0x61], 32768⟩ (by simp)
  revert hdenotes
  decide

end StringMemory

end AviSynth
