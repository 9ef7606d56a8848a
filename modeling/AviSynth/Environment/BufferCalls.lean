import AviSynth.Environment.BufferPool

/-!
# Calls of the buffer pool

The map has an entry for every pooled block, and marks those that someone holds. A call
changes one block: it adds it, hands it out, takes it back or gives it up.
-/

open Memory Transition

namespace AviSynth

/-- The test of the macro finds the powers of two. -/
theorem isPower2_iff {n : ℕ} : IsPower2 n ↔ ∃ k, n = 2 ^ k :=
  Nat.ne_zero_and_sub_one_eq_zero_iff_isPowerOfTwo

/-- A power of two divides the greater ones. -/
theorem IsPower2.dvd_of_le {m n : ℕ} (hm : IsPower2 m) (hn : IsPower2 n) (h : m ≤ n) :
    m ∣ n := by
  obtain ⟨j, rfl⟩ := isPower2_iff.mp hm
  obtain ⟨k, rfl⟩ := isPower2_iff.mp hn
  exact Nat.pow_dvd_pow 2 ((Nat.pow_le_pow_iff_right (by decide)).mp h)

theorem IsPower2.max {m n : ℕ} (hm : IsPower2 m) (hn : IsPower2 n) : IsPower2 (max m n) := by
  obtain h | h := Nat.le_total m n
  · rwa [Nat.max_eq_right h]
  · rwa [Nat.max_eq_left h]

namespace BufferPool

open PoolBlock

variable {p next : BufferPool} {memoryUsed : UInt64} {b : PoolBlock}
  {blocks rest : List PoolBlock} {nBytes alignment address orig : ℕ} {answers : Answers}
  {map : List (ℕ × BufferDesc)}

/-- An entry that the loop chooses has room. -/
theorem mem_of_findUnused {desc : BufferDesc} (hsorted : map.Pairwise fun e f => e.1 ≤ f.1)
    (hfind : findUnused map nBytes alignment = some desc) :
    ∃ key, (key, desc) ∈ map ∧ nBytes ≤ key ∧ desc.inUse = false ∧ alignment ≤ desc.alignment := by
  obtain ⟨⟨key, desc⟩, hfound, rfl⟩ := Option.map_eq_some_iff.mp hfind
  have hmem := List.mem_of_find?_eq_some hfound
  have htest := List.find?_some hfound
  simp only [Bool.and_eq_true, Bool.not_eq_true', decide_eq_true_eq] at htest
  refine ⟨key, (List.dropWhile_sublist _).mem hmem, ?_, htest⟩
  clear hfound hfind htest
  induction map with
  | nil => simp at hmem
  | cons e map ih =>
    obtain ⟨hfirst, hrest⟩ := List.pairwise_cons.mp hsorted
    rw [List.dropWhile_cons] at hmem
    split at hmem
    · exact ih hrest hmem
    · rename_i htest
      have hlow : nBytes ≤ e.1 := by
        rw [decide_eq_true_eq] at htest
        omega
      obtain rfl | hmem := List.mem_cons.mp hmem
      · exact hlow
      · exact Nat.le_trans hlow (hfirst _ hmem)

theorem emplace_perm (e : ℕ × BufferDesc) (map : List (ℕ × BufferDesc)) :
    (emplace e map).Perm (e :: map) := by
  induction map with
  | nil => rfl
  | cons first map ih =>
    rw [emplace]
    split
    · exact (ih.cons first).trans (List.Perm.swap e first map)
    · rfl

theorem emplace_sorted (e : ℕ × BufferDesc) (h : map.Pairwise fun e f => e.1 ≤ f.1) :
    (emplace e map).Pairwise fun e f => e.1 ≤ f.1 := by
  induction map with
  | nil => exact List.pairwise_singleton _ _
  | cons first map ih =>
    obtain ⟨hfirst, hrest⟩ := List.pairwise_cons.mp h
    rw [emplace]
    split
    · rename_i hle
      refine List.pairwise_cons.mpr ⟨fun f hf => ?_, ih hrest⟩
      obtain rfl | hf := List.mem_cons.mp ((emplace_perm e map).subset hf)
      · exact hle
      · exact hfirst f hf
    · rename_i hlt
      refine List.pairwise_cons.mpr ⟨fun f hf => ?_, h⟩
      obtain rfl | hf := List.mem_cons.mp hf
      · omega
      · have := hfirst f hf
        omega

theorem setInUse_sorted (h : map.Pairwise fun e f => e.1 ≤ f.1) (inUse : Bool) :
    (setInUse map address inUse).Pairwise fun e f => e.1 ≤ f.1 := by
  refine h.map _ fun e f hle => ?_
  split_ifs <;> exact hle

/-- Blocks under other addresses are not marked. -/
theorem setInUse_entries (h : some address ∉ blocks.map PoolBlock.desc) (inUse : Bool) :
    setInUse (blocks.filterMap entry) address inUse = blocks.filterMap entry := by
  have hsame : ∀ e ∈ blocks.filterMap entry, e.2.address ≠ address := by
    rintro e he rfl
    obtain ⟨c, hc, hentry⟩ := List.mem_filterMap.mp he
    obtain ⟨own, hown, rfl⟩ := Option.map_eq_some_iff.mp hentry
    exact h (List.mem_map.mpr ⟨c, hc, hown⟩)
  refine Eq.trans (List.map_congr_left fun e he => ?_) (List.map_id _)
  exact if_neg (hsame e he)

/-- The pool consists of these blocks, and those that have a holder are what is live. -/
structure Represents (memoryUsed : UInt64) (p : BufferPool) (blocks : List PoolBlock) : Prop
    extends HoldsBlocks memoryUsed p blocks where
  map : p.map.Perm (blocks.filterMap entry)
  sorted : p.map.Pairwise fun e f => e.1 ≤ f.1
  live : p.live.Perm (blocks.filterMap holder)
  addresses : (blocks.filterMap PoolBlock.desc).Nodup

theorem represents_new (memory : ℕ → UInt8) (memoryUsed : UInt64) :
    Represents memoryUsed (new memory memoryUsed) [] where
  valid _ hb := by simp at hb
  heap := .nil
  apart := .nil
  used := by simp [new]
  map := .nil
  sorted := .nil
  live := .nil
  addresses := .nil

theorem Represents.perm (h : Represents memoryUsed p blocks) (hperm : blocks.Perm rest) :
    Represents memoryUsed p rest where
  toHoldsBlocks := h.toHoldsBlocks.perm hperm
  map := h.map.trans (hperm.filterMap _)
  sorted := h.sorted
  live := h.live.trans (hperm.filterMap _)
  addresses := (hperm.filterMap _).nodup_iff.mp h.addresses

/-- A pooled block gets or loses its holder. -/
theorem Represents.mark (h : Represents memoryUsed p (b :: rest)) (hdesc : b.desc = some address)
    (holder : Option Allocation) {live : List Allocation}
    (hholder : ∀ a ∈ holder,
      a.ptr = b.ptr ∧ a.nBytes ≤ b.capacity ∧ a.alignment ≤ b.alignment ∧ IsPower2 a.alignment)
    (hlive : live.Perm (({ b with holder := holder } :: rest).filterMap PoolBlock.holder)) :
    Represents memoryUsed
      { p with map := setInUse p.map address holder.isSome, live := live }
      ({ b with holder := holder } :: rest) := by
  have hvalid := h.valid b List.mem_cons_self
  have hother : some address ∉ rest.map PoolBlock.desc := by
    intro hmem
    have hnodup := h.addresses
    rw [List.filterMap_cons_some hdesc, List.nodup_cons] at hnodup
    obtain ⟨c, hc, hcdesc⟩ := List.mem_map.mp hmem
    exact hnodup.1 (List.mem_filterMap.mpr ⟨c, hc, hcdesc⟩)
  constructor
  case toHoldsBlocks =>
    constructor
    case valid =>
      intro c hc
      obtain rfl | hc := List.mem_cons.mp hc
      · exact { hvalid with
          plain := fun hnone => by simp [hdesc] at hnone
          holder := hholder }
      · exact h.valid c (List.mem_cons_of_mem _ hc)
    case heap => exact h.heap
    case apart => exact List.pairwise_cons.mpr (List.pairwise_cons.mp h.apart)
    case used => exact h.used
  case map =>
    have hmap := h.map.map fun e : ℕ × BufferDesc =>
      if e.2.address = address then (e.1, { e.2 with inUse := holder.isSome }) else e
    refine hmap.trans ?_
    have hentries := setInUse_entries hother holder.isSome
    rw [setInUse] at hentries
    simp [entry, hdesc, hentries]
  case sorted => exact setInUse_sorted h.sorted _
  case live => exact hlive
  case addresses => exact h.addresses

/-- The block of a live allocation. -/
theorem Represents.exists_block (h : Represents memoryUsed p blocks) {a : Allocation}
    (ha : a ∈ p.live) : ∃ b rest, b.holder = some a ∧ Represents memoryUsed p (b :: rest) := by
  obtain ⟨b, hb, hholder⟩ := List.mem_filterMap.mp (h.live.mem_iff.mp ha)
  obtain ⟨rest, hperm⟩ := exists_perm_cons hb
  exact ⟨b, rest, hholder, h.perm hperm⟩

/-- A buffer of the pool is handed out again only if nobody holds it. -/
theorem Represents.reuse (h : Represents memoryUsed p blocks) {desc : BufferDesc}
    (hpower : IsPower2 alignment) (hfind : findUnused p.map nBytes alignment = some desc) :
    Representable nBytes alignment ∧ ∃ blocks', Represents memoryUsed
      { p with
        map := setInUse p.map desc.address true
        live := ⟨desc.ptr, nBytes, alignment⟩ :: p.live } blocks' := by
  obtain ⟨key, hmem, hroom, hunused, halignment⟩ := mem_of_findUnused h.sorted hfind
  obtain ⟨b, hb, hentry⟩ := List.mem_filterMap.mp (h.map.mem_iff.mp hmem)
  obtain ⟨address, hdesc, hsame⟩ := Option.map_eq_some_iff.mp hentry
  obtain ⟨rfl, rfl⟩ := Prod.mk.inj hsame
  have hnone : b.holder = none := by simpa using hunused
  obtain ⟨rest, hperm⟩ := exists_perm_cons hb
  have hfirst := h.perm hperm
  have hvalid := hfirst.valid b List.mem_cons_self
  constructor
  · have hsize := hvalid.size_eq
    have hhalf := hvalid.half
    simp only [Representable, allocOffset] at halignment hroom hsize ⊢
    omega
  · refine ⟨_, hfirst.mark hdesc (some ⟨b.ptr, nBytes, alignment⟩) ?_ ?_⟩
    · rintro a ha
      obtain rfl := Option.some.inj ha
      exact ⟨rfl, hroom, halignment, hpower⟩
    · have hlive := hfirst.live
      rw [List.filterMap_cons_none hnone] at hlive
      simpa using hlive

/-- The block that `malloc` returned for a buffer. -/
def newBlock (orig nBytes alignment : ℕ) (desc : Option ℕ) : PoolBlock where
  orig := orig
  size := realSize nBytes alignment
  ptr := alignedIn orig alignment
  capacity := nBytes
  alignment := alignment
  desc := desc
  holder := some ⟨alignedIn orig alignment, nBytes, alignment⟩

@[simp] theorem holder_newBlock (orig nBytes alignment : ℕ) (desc : Option ℕ) :
    (newBlock orig nBytes alignment desc).holder =
      some ⟨alignedIn orig alignment, nBytes, alignment⟩ := rfl

@[simp] theorem desc_newBlock (orig nBytes alignment : ℕ) (desc : Option ℕ) :
    (newBlock orig nBytes alignment desc).desc = desc := rfl

@[simp] theorem entry_newBlock (orig nBytes alignment : ℕ) (desc : Option ℕ) :
    (newBlock orig nBytes alignment desc).entry = desc.map fun address =>
      (nBytes, ⟨address, alignedIn orig alignment, nBytes, alignment, true⟩) := rfl

theorem newBlock_valid (memory : ℕ → UInt8) {desc : Option ℕ} (hpower : IsPower2 alignment)
    (hfits : Representable nBytes alignment) (horig : 0 < orig)
    (hhalf : orig + realSize nBytes alignment ≤ 2 ^ 63)
    (hdesc : ∀ address ∈ desc, 0 < address ∧ address < 2 ^ 63) :
    let b := newBlock orig nBytes alignment desc
    b.Valid (writeWords memory (fields b.ptr) b.words) := by
  have hsize : realSize nBytes alignment = nBytes + allocOffset alignment :=
    Nat.mod_eq_of_lt hfits
  have hbehind : (orig + allocOffset alignment) % 2 ^ 64 = orig + allocOffset alignment :=
    Nat.mod_eq_of_lt (by omega)
  have hpos : 0 < max alignment sizeofPointer := by
    simp only [sizeofPointer]
    omega
  have hmod := Nat.mod_lt (orig + allocOffset alignment) hpos
  have hle := Nat.mod_le (orig + allocOffset alignment) (max alignment sizeofPointer)
  have hoffset : allocOffset alignment = 39 + max alignment sizeofPointer := by
    simp only [allocOffset, numExtraFields, sizeofPointer]
    omega
  have hptr : alignedIn orig alignment = orig + allocOffset alignment -
      (orig + allocOffset alignment) % max alignment sizeofPointer := by
    rw [alignedIn, hbehind]
  constructor
  case start =>
    have hfields : sizeofPointer * numExtraFields = 40 := rfl
    simp only [newBlock, hptr, hfields]
    omega
  case finish =>
    simp only [newBlock, hptr, hsize]
    omega
  case half => exact hhalf
  case size_eq => exact hsize
  case power => exact hpower
  case aligned =>
    simp only [newBlock, hptr]
    exact Nat.dvd_sub_mod _
  case words =>
    intro i hi
    refine readWord_writeWords ?_ hi
    simp only [PoolBlock.words, newBlock, List.forall_mem_cons, List.not_mem_nil, false_imp_iff,
      implies_true, and_true, guardValue]
    refine ⟨by decide, ?_, by omega, by omega, by decide⟩
    cases desc with
    | none => decide
    | some address =>
      have := (hdesc address rfl).2
      simp only [Option.getD_some]
      omega
  case desc => exact fun address haddress => (hdesc address haddress).1
  case plain => exact fun _ => rfl
  case holder =>
    rintro a ha
    obtain rfl := Option.some.inj ha
    exact ⟨rfl, Nat.le_refl _, Nat.le_refl _, hpower⟩

section

variable (h : Represents memoryUsed p blocks)
include h

/-- `PrivateAlloc` adds a block, or does nothing. -/
theorem Represents.privateAlloc (hpower : IsPower2 alignment)
    (hfits : Representable nBytes alignment) (hmay : p.MayAnswer nBytes alignment answers)
    (desc : Option ℕ) (hdesc : ∀ address ∈ desc, 0 < address ∧ address < 2 ^ 63)
    {result : Option ℕ}
    (halloc : p.privateAlloc nBytes alignment (desc.getD 0) answers.malloc = (next, result)) :
    next.map = p.map ∧ next.live = p.live ∧ (result = none → next = p) ∧
      ∀ ptr ∈ result, ∃ orig, ptr = alignedIn orig alignment ∧
        HoldsBlocks memoryUsed next (newBlock orig nBytes alignment desc :: blocks) := by
  have hmax : IsPower2 (max alignment sizeofPointer) := hpower.max (by decide)
  unfold BufferPool.privateAlloc at halloc
  rw [if_pos hmax] at halloc
  cases hmalloc : answers.malloc with
  | none =>
    rw [hmalloc] at halloc
    obtain ⟨rfl, rfl⟩ := Prod.mk.inj halloc
    exact ⟨rfl, rfl, fun _ => rfl, fun _ hptr => by simp at hptr⟩
  | some orig =>
    rw [hmalloc] at halloc
    obtain ⟨rfl, rfl⟩ := Prod.mk.inj halloc
    obtain ⟨hpos, hhalf, hapart⟩ := hmay.1 orig hmalloc
    refine ⟨rfl, rfl, fun hnone => by simp at hnone, fun ptr hptr => ?_⟩
    obtain rfl := Option.some.inj hptr
    have hvalid := newBlock_valid p.memory hpower hfits hpos hhalf hdesc
    have hadd := h.toHoldsBlocks.privateAlloc hvalid hapart
    exact ⟨orig, rfl, hadd⟩

/-- A buffer that is not pooled. -/
theorem Represents.addPlain
    (hnext : HoldsBlocks memoryUsed next (newBlock orig nBytes alignment none :: blocks))
    (hmap : next.map = p.map) (hlive : next.live = p.live) :
    Represents memoryUsed
      { next with live := ⟨alignedIn orig alignment, nBytes, alignment⟩ :: next.live }
      (newBlock orig nBytes alignment none :: blocks) where
  toHoldsBlocks := ⟨hnext.valid, hnext.heap, hnext.apart, hnext.used⟩
  map := by
    rw [List.filterMap_cons_none (entry_newBlock _ _ _ _), hmap]
    exact h.map
  sorted := by simpa [hmap] using h.sorted
  live := by simpa [hlive] using h.live
  addresses := by
    rw [List.filterMap_cons_none (desc_newBlock _ _ _ _)]
    exact h.addresses

/-- A new buffer of the pool. -/
theorem Represents.addPooled
    (hnext : HoldsBlocks memoryUsed next (newBlock orig nBytes alignment (some address) :: blocks))
    (hmap : next.map = p.map) (hlive : next.live = p.live)
    (hfresh : ∀ e ∈ p.map, e.2.address ≠ address) :
    Represents memoryUsed
      { next with
        map := emplace (nBytes, ⟨address, alignedIn orig alignment, nBytes, alignment, true⟩)
          next.map
        live := ⟨alignedIn orig alignment, nBytes, alignment⟩ :: next.live }
      (newBlock orig nBytes alignment (some address) :: blocks) where
  toHoldsBlocks := ⟨hnext.valid, hnext.heap, hnext.apart, hnext.used⟩
  map := (emplace_perm _ _).trans (by simpa [hmap] using h.map)
  sorted := emplace_sorted _ (by simpa [hmap] using h.sorted)
  live := by simpa [hlive] using h.live
  addresses := by
    have hnew : address ∉ blocks.filterMap PoolBlock.desc := by
      intro hmem
      obtain ⟨c, hc, hdesc⟩ := List.mem_filterMap.mp hmem
      have hentry : c.entry = some (c.capacity,
          ⟨address, c.ptr, c.capacity, c.alignment, c.holder.isSome⟩) := by
        rw [entry, hdesc, Option.map_some]
      exact hfresh _ (h.map.mem_iff.mpr (List.mem_filterMap.mpr ⟨c, hc, hentry⟩)) rfl
    rw [List.filterMap_cons_some (desc_newBlock _ _ _ _)]
    exact List.nodup_cons.mpr ⟨hnew, h.addresses⟩

/-- What a call to `Allocate` leads to: a pointer comes with a block that its caller holds. -/
theorem Represents.allocate (hpower : IsPower2 alignment) {pool : Bool}
    (hmay : p.MayAnswer nBytes alignment answers)
    (hfits : p.Fits (.allocate nBytes alignment pool answers)) {result : Option ℕ}
    (halloc : p.allocate nBytes alignment pool answers = (next, result)) :
    (result = none → Represents memoryUsed next blocks) ∧
      ∀ ptr ∈ result, Representable nBytes alignment ∧ ∃ blocks', Represents memoryUsed
        { next with live := ⟨ptr, nBytes, alignment⟩ :: next.live } blocks' := by
  cases pool with
  | false =>
    obtain ⟨hfits, -⟩ := hfits (Or.inl rfl)
    simp only [BufferPool.allocate, Bool.false_eq_true, if_false] at halloc
    obtain ⟨hmap, hlive, hnone, hsome⟩ := h.privateAlloc hpower hfits hmay none (by simp) halloc
    refine ⟨fun hresult => hnone hresult ▸ h, fun ptr hptr => ?_⟩
    obtain ⟨orig, rfl, hnext⟩ := hsome ptr hptr
    exact ⟨hfits, _, h.addPlain hnext hmap hlive⟩
  | true =>
    simp only [BufferPool.allocate, if_true] at halloc
    cases hfind : findUnused p.map nBytes alignment with
    | some desc =>
      rw [hfind] at halloc
      obtain ⟨rfl, rfl⟩ := Prod.mk.inj halloc
      refine ⟨fun hnone => by simp at hnone, fun ptr hptr => ?_⟩
      obtain rfl := Option.some.inj hptr
      exact h.reuse hpower hfind
    | none =>
      obtain ⟨hfits, hnode⟩ := hfits (Or.inr hfind)
      rw [hfind] at halloc
      cases hdesc : answers.desc with
      | none =>
        rw [hdesc] at halloc
        obtain ⟨rfl, rfl⟩ := Prod.mk.inj halloc
        exact ⟨fun _ => h, fun _ hptr => by simp at hptr⟩
      | some address =>
        obtain ⟨hpos, hhalf, hfresh⟩ := hmay.2 address hdesc
        simp only [hdesc] at halloc
        cases hprivate : p.privateAlloc nBytes alignment address answers.malloc with
        | mk q ptr =>
          obtain ⟨hmap, hlive, hnone, hsome⟩ := h.privateAlloc hpower hfits hmay (some address)
            (by simpa using ⟨hpos, hhalf⟩) hprivate
          rw [hprivate] at halloc
          cases ptr with
          | none =>
            obtain ⟨rfl, rfl⟩ := Prod.mk.inj halloc
            exact ⟨fun _ => hnone rfl ▸ h, fun _ hptr => by simp at hptr⟩
          | some ptr =>
            simp only [hnode rfl, if_true] at halloc
            obtain ⟨rfl, rfl⟩ := Prod.mk.inj halloc
            refine ⟨fun hnone => by simp at hnone, fun ptr' hptr => ?_⟩
            obtain rfl := Option.some.inj hptr
            obtain ⟨orig, rfl, hnext⟩ := hsome ptr rfl
            exact ⟨hfits, _, h.addPooled hnext hmap hlive hfresh⟩

/-- No buffer begins at the null pointer. -/
theorem Represents.ptr_ne_zero {a : Allocation}
    (ha : a ∈ p.live) : a.ptr ≠ 0 := by
  obtain ⟨b, hb, hholder⟩ := List.mem_filterMap.mp (h.live.mem_iff.mp ha)
  obtain ⟨hptr, -⟩ := (h.valid b hb).holder a hholder
  have hstart := (h.valid b hb).start
  simp only [sizeofPointer, numExtraFields] at hstart
  omega

omit h in
/-- Nothing else is live at the address of the first block. -/
theorem Represents.live_without (h : Represents memoryUsed p (b :: rest)) :
    (p.live.filter (·.ptr ≠ b.ptr)).Perm (rest.filterMap holder) := by
  have hother : ∀ a ∈ rest.filterMap holder, a.ptr ≠ b.ptr := by
    intro a ha
    obtain ⟨c, hc, hholder⟩ := List.mem_filterMap.mp ha
    obtain ⟨hptr, -⟩ := (h.valid c (List.mem_cons_of_mem _ hc)).holder a hholder
    exact hptr ▸ (h.toHoldsBlocks.ptr_ne hc).symm
  have hkept : (rest.filterMap holder).filter (·.ptr ≠ b.ptr) = rest.filterMap holder :=
    List.filter_eq_self.mpr fun a ha => decide_eq_true (hother a ha)
  have hlive := h.live.filter (·.ptr ≠ b.ptr)
  cases hholder : b.holder with
  | none => rwa [List.filterMap_cons_none hholder, hkept] at hlive
  | some a =>
    obtain ⟨hptr, -⟩ := (h.valid b List.mem_cons_self).holder a hholder
    rwa [List.filterMap_cons_some hholder, List.filter_cons_of_neg (by simp [hptr]), hkept]
      at hlive

/-- A buffer that is freed goes back to the pool, or its block is given up. -/
theorem Represents.free {a : Allocation} (ha : a ∈ p.live) :
    ∃ blocks', Represents memoryUsed
      { p.free a.ptr with live := p.live.filter (·.ptr ≠ a.ptr) } blocks' := by
  obtain ⟨b, rest, hholder, hfirst⟩ := h.exists_block ha
  have hvalid := hfirst.valid b List.mem_cons_self
  obtain ⟨hptr, -⟩ := hvalid.holder a hholder
  obtain ⟨huser, -⟩ := hfirst.toHoldsBlocks.field List.mem_cons_self
  have hpos : b.ptr ≠ 0 := hptr ▸ h.ptr_ne_zero ha
  have hlive := hfirst.live_without
  rw [hptr, BufferPool.free, if_neg hpos, huser]
  cases hdesc : b.desc with
  | none =>
    rw [if_neg (by simp)]
    refine ⟨rest, ?_⟩
    constructor
    case toHoldsBlocks =>
      obtain ⟨hvalid, hheap, hapart, hused⟩ := hfirst.toHoldsBlocks.privateFree
      exact ⟨hvalid, hheap, hapart, hused⟩
    case map =>
      have hentry : b.entry = none := by rw [entry, hdesc, Option.map_none]
      have hmap := hfirst.map
      rwa [List.filterMap_cons_none hentry] at hmap
    case sorted => exact hfirst.sorted
    case live => exact hlive
    case addresses =>
      have haddresses := hfirst.addresses
      rwa [List.filterMap_cons_none hdesc] at haddresses
  | some address =>
    have haddress : address ≠ 0 := Nat.ne_of_gt (hvalid.desc address hdesc)
    rw [Option.getD_some, if_pos haddress]
    exact ⟨_, hfirst.mark hdesc none (fun _ hnone => by simp at hnone) hlive⟩

/-- A write into a buffer that is held, or outside the pool, hits no field. -/
theorem Represents.writeByte {a : ℕ} {byte : UInt8}
    (hwhere : (∃ l ∈ p.live, Span.Within ⟨a, 1⟩ l.span) ∨ ∀ s ∈ p.heap, s.Apart ⟨a, 1⟩) :
    Represents memoryUsed { p with memory := write p.memory a [byte] } blocks := by
  have hapart : ∀ c ∈ blocks, c.fieldSpan.Apart ⟨a, 1⟩ := by
    intro c hc
    have hfields := (h.valid c hc).fieldSpan_within
    obtain ⟨l, hl, hwithin⟩ | houtside := hwhere
    · obtain ⟨b, hb, hholder⟩ := List.mem_filterMap.mp (h.live.mem_iff.mp hl)
      obtain ⟨hinside, hbehind⟩ := (h.valid b hb).holder_span hholder
      by_cases hcb : c = b
      · exact hcb ▸ hbehind.mono ⟨Nat.le_refl _, Nat.le_refl _⟩ hwithin
      · exact (h.apart.forall hc hb hcb).mono hfields (hwithin.trans hinside)
    · exact (houtside _ (h.heap.mem_iff.mpr (List.mem_map_of_mem hc))).mono hfields
        ⟨Nat.le_refl _, Nat.le_refl _⟩
  constructor
  case toHoldsBlocks =>
    refine ⟨fun c hc => (h.valid c hc).congr fun s hs => ?_, h.heap, h.apart, h.used⟩
    exact read_write_apart ((hapart c hc).mono hs ⟨Nat.le_refl _, Nat.le_refl _⟩).symm
  case map => exact h.map
  case sorted => exact h.sorted
  case live => exact h.live
  case addresses => exact h.addresses

end

variable {history : List BufferEvent}

/-- The pool consists of some blocks, and returned pointers for representable sizes only. -/
def Keeps (memoryUsed : UInt64) (history : List BufferEvent) (p : BufferPool) : Prop :=
  (∃ blocks, Represents memoryUsed p blocks) ∧
    ∀ nBytes alignment ptr, .allocated nBytes alignment (some ptr) ∈ history →
      Representable nBytes alignment

theorem Keeps.step (h : Keeps memoryUsed history p) {call : BufferCall} {event : BufferEvent}
    (hok : p.Fits call) (hstep : p.step call = some (next, event)) :
    Keeps memoryUsed (event :: history) next := by
  obtain ⟨⟨blocks, hp⟩, hrefuses⟩ := h
  cases call with
  | allocate nBytes alignment pool answers =>
    simp only [BufferPool.step, Option.ite_none_right_eq_some] at hstep
    obtain ⟨⟨-, -, hpower, hmay⟩, hstep⟩ := hstep
    cases halloc : p.allocate nBytes alignment pool answers with
    | mk q result =>
      obtain ⟨hnone, hsome⟩ := hp.allocate hpower hmay hok halloc
      rw [halloc] at hstep
      cases result with
      | none =>
        obtain ⟨⟩ := Option.some.inj hstep
        exact ⟨⟨blocks, hnone rfl⟩, fun n a ptr hmem => hrefuses n a ptr (by simpa using hmem)⟩
      | some ptr =>
        obtain ⟨hfits, blocks', hnext⟩ := hsome ptr rfl
        obtain ⟨⟩ := Option.some.inj hstep
        refine ⟨⟨blocks', hnext⟩, fun n a ptr' hmem => ?_⟩
        obtain heq | hmem := List.mem_cons.mp hmem
        · obtain ⟨rfl, rfl, -⟩ := BufferEvent.allocated.inj heq
          exact hfits
        · exact hrefuses n a ptr' hmem
  | free ptr =>
    simp only [BufferPool.step, Option.ite_none_right_eq_some] at hstep
    obtain ⟨hwhich, hstep⟩ := hstep
    obtain ⟨⟩ := Option.some.inj hstep
    refine ⟨?_, fun n a ptr' hmem => hrefuses n a ptr' (by simpa using hmem)⟩
    obtain rfl | ⟨⟨a, ha, rfl⟩, -⟩ := hwhich
    · have hlive : p.live.filter (·.ptr ≠ 0) = p.live := by
        refine List.filter_eq_self.mpr fun a ha => decide_eq_true ?_
        exact hp.ptr_ne_zero ha
      exact ⟨blocks, by simpa only [BufferPool.free, if_true, hlive] using hp⟩
    · exact hp.free ha
  | writeByte a byte =>
    simp only [BufferPool.step, Option.ite_none_right_eq_some] at hstep
    obtain ⟨hwhere, hstep⟩ := hstep
    obtain ⟨⟩ := Option.some.inj hstep
    exact ⟨⟨blocks, hp.writeByte hwhere⟩,
      fun n a ptr hmem => hrefuses n a ptr (by simpa using hmem)⟩

/-- If every block is pooled, the map knows all buffers. -/
theorem entries_ptr (h : ∀ b ∈ blocks, b.desc.isSome) :
    (blocks.filterMap entry).map (·.2.ptr) = blocks.map PoolBlock.ptr := by
  induction blocks with
  | nil => rfl
  | cons b blocks ih =>
    obtain ⟨address, hdesc⟩ := Option.isSome_iff_exists.mp (h b List.mem_cons_self)
    have hentry : b.entry = some (b.capacity,
        ⟨address, b.ptr, b.capacity, b.alignment, b.holder.isSome⟩) := by
      rw [entry, hdesc, Option.map_some]
    rw [List.filterMap_cons_some hentry, List.map_cons, List.map_cons,
      ih fun c hc => h c (List.mem_cons_of_mem _ hc)]

/-- With nothing live the destructor gives up every block. -/
theorem Represents.destroy (h : Represents memoryUsed p blocks) (hlive : p.live = []) :
    p.destroy.memoryUsed = memoryUsed ∧ p.destroy.heap = [] := by
  have hpooled : ∀ b ∈ blocks, b.desc.isSome := by
    intro b hb
    have hfree : b.holder = none := by
      have hnil : blocks.filterMap holder = [] := by simpa [hlive] using h.live.symm
      exact List.filterMap_eq_nil_iff.mp hnil b hb
    by_contra hnone
    have hheld := (h.valid b hb).plain (by simpa using hnone)
    simp [hfree] at hheld
  have hentries := h.map.map (·.2.ptr)
  rw [entries_ptr hpooled] at hentries
  exact h.toHoldsBlocks.destroy hentries

/-- Two live allocations are in two blocks. -/
theorem Represents.live_apart (h : Represents memoryUsed p blocks) :
    p.live.Pairwise fun a b => a.span.Apart b.span ∧ a.ptr ≠ b.ptr := by
  refine (h.live.pairwise_iff fun hab => ⟨hab.1.symm, hab.2.symm⟩).mpr ?_
  refine List.pairwise_filterMap.mpr (h.apart.imp_of_mem ?_)
  intro b c hb hc hapart a ha a' ha'
  have hvalid := h.valid b hb
  have hvalid' := h.valid c hc
  obtain ⟨hptr, -⟩ := hvalid.holder a ha
  obtain ⟨hptr', -⟩ := hvalid'.holder a' ha'
  refine ⟨hapart.mono (hvalid.holder_span ha).1 (hvalid'.holder_span ha').1, ?_⟩
  rw [hptr, hptr']
  exact hvalid.ptr_ne hvalid' hapart

/-- Unless a size wraps, the callers are served. -/
theorem Keeps.serves (h : Keeps memoryUsed history p) : ServesCallers memoryUsed history p := by
  obtain ⟨⟨blocks, hp⟩, hrefuses⟩ := h
  have hblock : ∀ a ∈ p.live, ∃ b ∈ blocks, b.holder = some a := fun a ha =>
    List.mem_filterMap.mp (hp.live.mem_iff.mp ha)
  constructor
  case apart => exact hp.live_apart
  case owned =>
    intro a ha
    obtain ⟨b, hb, hholder⟩ := hblock a ha
    exact ⟨b.span, hp.heap.mem_iff.mpr (List.mem_map_of_mem hb),
      ((hp.valid b hb).holder_span hholder).1⟩
  case aligned =>
    intro a ha
    obtain ⟨b, hb, hholder⟩ := hblock a ha
    have hvalid := hp.valid b hb
    obtain ⟨hptr, -, halignment, hpower⟩ := hvalid.holder a hholder
    have hmax : IsPower2 (max b.alignment sizeofPointer) := hvalid.power.max (by decide)
    have hdvd : a.alignment ∣ max b.alignment sizeofPointer := hpower.dvd_of_le hmax (by omega)
    exact hptr ▸ Nat.mod_eq_zero_of_dvd (hdvd.trans hvalid.aligned)
  case guarded =>
    intro a ha
    obtain ⟨b, hb, hholder⟩ := hblock a ha
    obtain ⟨hptr, -⟩ := (hp.valid b hb).holder a hholder
    exact hptr ▸ (hp.toHoldsBlocks.field hb).2.2.2
  case refuses => exact hrefuses
  case returned => exact hp.destroy

/-- In a run whose calls form no size that wraps, and find a node for the map, live buffers
lie apart, are large and aligned enough and are held once, and the counter comes back. -/
theorem bufferPool_serves (memory : ℕ → UInt8) (memoryUsed : UInt64)
    (hrun : Run step Fits (new memory memoryUsed) history p) :
    ServesCallers memoryUsed history p :=
  (hrun.invariant (Keeps memoryUsed) ⟨⟨[], represents_new memory memoryUsed⟩, by simp⟩
    fun h hok hstep => h.step hok hstep).serves

/-- A buffer of the pool is freed and handed out again for less, beside a plain one. -/
theorem bufferPool_serves_reused :
    ∃ history p, Run step Fits (new (fun _ => 0) 0) history p ∧
      p.live = [⟨4160, 50, 16⟩, ⟨8232, 10, 8⟩] ∧ ServesCallers 0 history p := by
  obtain ⟨history, p, hrun, hcheck⟩ := exists_run step Fits (new (fun _ => 0) 0)
    [.allocate 100 32 true ⟨some 4096, some 16, true⟩, .writeByte 4160 7,
      .allocate 10 8 false ⟨some 8192, none, false⟩, .free 4160,
      .allocate 50 16 true ⟨none, none, false⟩]
    (fun _ p => p.live = [⟨4160, 50, 16⟩, ⟨8232, 10, 8⟩]) (by decide)
  exact ⟨history, p, hrun, of_decide_eq_true hcheck, bufferPool_serves _ _ hrun⟩

/-- The size of the block for the greatest of all buffers wraps to 46 bytes. -/
theorem bufferPool_wraps :
    ¬∀ (memory : ℕ → UInt8) (memoryUsed : UInt64) (history : List BufferEvent) (p : BufferPool),
      Run step always (new memory memoryUsed) history p → ServesCallers memoryUsed history p := by
  intro hall
  obtain ⟨history, p, hrun, hcheck⟩ := exists_run step always (new (fun _ => 0) 0)
    [.allocate (2 ^ 64 - 1) 8 false ⟨some 4096, none, false⟩]
    (fun history _ => history = [.allocated (2 ^ 64 - 1) 8 (some 4136)]) (by decide)
  obtain rfl := of_decide_eq_true hcheck
  have hrefuses := (hall _ _ _ _ hrun).refuses (2 ^ 64 - 1) 8 4136 (by simp)
  revert hrefuses
  decide

end BufferPool

end AviSynth
