import AviSynth.Codecs.SemiPacked
import AviSynth.Codecs.V210Decoder

/-!
# Packed pixels of 4:4:4

In `Y416` a pixel has four samples: U, Y, V and alpha. In `Y410` it is a word with ten bits of U,
of Y and of V, and two bits of alpha.
-/

namespace AviSynth

open MachineInt Samples CountedLoop

/-- Pointers to the samples of four planes. -/
structure YuvaPtrs where
  y : ReadPtr
  u : ReadPtr
  v : ReadPtr
  a : ReadPtr

/-- The pitches of four planes. The chroma planes have the same. -/
structure YuvaPitches where
  y : ℤ
  uv : ℤ
  a : ℤ

/-- The pointers after `row` rounds of the outer loop. -/
def YuvaPtrs.row (p : YuvaPtrs) (pitch : YuvaPitches) (row : ℤ) : YuvaPtrs :=
  ⟨⟨p.y.memory, p.y.pos + pitch.y * row⟩, ⟨p.u.memory, p.u.pos + pitch.uv * row⟩,
    ⟨p.v.memory, p.v.pos + pitch.uv * row⟩, ⟨p.a.memory, p.a.pos + pitch.a * row⟩⟩

/-- A sample of a row. -/
def ReadPtr.sample (p : ReadPtr) (x : ℤ) : BitVec 16 := load16 p.memory (p.pos + 2 * x)

/-- The memory of four planes that are written. -/
@[ext]
structure YuvaMemory where
  y : ℤ → UInt8
  u : ℤ → UInt8
  v : ℤ → UInt8
  a : ℤ → UInt8

/-- Where the planes that are written are. -/
structure YuvaPositions where
  y : ℤ
  u : ℤ
  v : ℤ
  a : ℤ

/-- The pointers `row` rows further. -/
def YuvaPositions.row (p : YuvaPositions) (pitch : YuvaPitches) (row : ℤ) : YuvaPositions :=
  ⟨p.y + pitch.y * row, p.u + pitch.uv * row, p.v + pitch.uv * row, p.a + pitch.a * row⟩

/-- `pitch / sizeof(uint32_t)`, which is computed in `size_t`. -/
def wordPitch (pitch : ℤ) : ℤ := i32 (pitch % 2 ^ 64 / 4)

section Y416

variable (hasAlpha : Bool)

/-- The loop body of `ToY416_c`, and of the rest in the other version. -/
def uyvaSample (outbuf : ℤ) (src : YuvaPtrs) (x : ℤ) (dst : ℤ → UInt8) : ℤ → UInt8 :=
  let dst := store16 dst (outbuf + 2 * (x * 4 + 0)) (src.u.sample x)
  let dst := store16 dst (outbuf + 2 * (x * 4 + 1)) (src.y.sample x)
  let dst := store16 dst (outbuf + 2 * (x * 4 + 2)) (src.v.sample x)
  store16 dst (outbuf + 2 * (x * 4 + 3)) (if hasAlpha then src.a.sample x else 0xFFFF)

/-- Packing into Y416, a pixel at a time. -/
def toY416C (dst : ℤ → UInt8) (outbuf outPitch : ℤ) (src : YuvaPtrs) (pitch : YuvaPitches)
    (width height : ℤ) : ℤ → UInt8 :=
  forLoop 0 height 1 (fun y dst =>
    forLoop 0 width 1 (uyvaSample hasAlpha (outbuf + 2 * samplePitch outPitch * y)
      (src.row pitch y)) dst) dst

/-- Four pixels. -/
def uyvaBlock (outbuf : ℤ) (src : YuvaPtrs) (x : ℤ) (dst : ℤ → UInt8) : ℤ → UInt8 :=
  let u := mmLoadl src.u.memory (src.u.pos + 2 * x)
  let y := mmLoadl src.y.memory (src.y.pos + 2 * x)
  let v := mmLoadl src.v.memory (src.v.pos + 2 * x)
  let a := if hasAlpha then mmLoadl src.a.memory (src.a.pos + 2 * x) else mmSet1Epi16 0xFFFF
  let uy := mmUnpackloEpi16 u y
  let va := mmUnpackloEpi16 v a
  let dst := mmStore dst (outbuf + 8 * x) (mmUnpackloEpi32 uy va)
  mmStore dst (outbuf + 16 + 8 * x) (mmUnpackhiEpi32 uy va)

/-- Packing into Y416, four pixels at a time. -/
def toY416Sse2 (dst : ℤ → UInt8) (outbuf outPitch : ℤ) (src : YuvaPtrs) (pitch : YuvaPitches)
    (width height : ℤ) : ℤ → UInt8 :=
  let wmod4 := width.tdiv 4 * 4
  forLoop 0 height 1 (fun y dst =>
    forLoop wmod4 width 1 (uyvaSample hasAlpha (outbuf + outPitch * y) (src.row pitch y))
      (forLoop 0 wmod4 4 (uyvaBlock hasAlpha (outbuf + outPitch * y) (src.row pitch y)) dst)) dst

/-- The loop body of `FromY416_c`. -/
def fromUyvaSample (dst : YuvaPositions) (src : ReadPtr) (x : ℤ) (memory : YuvaMemory) :
    YuvaMemory where
  u := store16 memory.u (dst.u + 2 * x) (src.sample (x * 4 + 0))
  y := store16 memory.y (dst.y + 2 * x) (src.sample (x * 4 + 1))
  v := store16 memory.v (dst.v + 2 * x) (src.sample (x * 4 + 2))
  a := if hasAlpha then store16 memory.a (dst.a + 2 * x) (src.sample (x * 4 + 3)) else memory.a

/-- Unpacking from Y416. -/
def fromY416C (memory : YuvaMemory) (dst : YuvaPositions) (pitch : YuvaPitches) (src : ReadPtr)
    (srcpitch width height : ℤ) : YuvaMemory :=
  forLoop 0 height 1 (fun y memory =>
    forLoop 0 width 1 (fromUyvaSample hasAlpha (dst.row pitch y)
      ⟨src.memory, src.pos + 2 * samplePitch srcpitch * y⟩) memory) memory

end Y416

section Y410

variable (hasAlpha : Bool)

/-- The word of a pixel. -/
def y410Word (y u v a : BitVec 16) : BitVec 32 :=
  let uyva := u.setWidth 32 + y.setWidth 32 <<< 10 + v.setWidth 32 <<< 20
  if hasAlpha then uyva + (a >>> 8).setWidth 32 <<< 30 else uyva + 3#32 <<< 30

/-- Packing into Y410. -/
def toY410C (dst : ℤ → UInt8) (outbuf outPitch : ℤ) (src : YuvaPtrs) (pitch : YuvaPitches)
    (width height : ℤ) : ℤ → UInt8 :=
  forLoop 0 height 1 (fun y dst =>
    forLoop 0 width 1 (fun x dst =>
      let src := src.row pitch y
      store32 dst (outbuf + 4 * wordPitch outPitch * y + 4 * x)
        (y410Word hasAlpha (src.y.sample x) (src.u.sample x) (src.v.sample x) (src.a.sample x)))
      dst) dst

/-- The alpha of a word: 3 is the alpha of an opaque pixel. -/
def y410Alpha (uyva : BitVec 32) : BitVec 16 :=
  let alpha := uyva >>> 30 &&& 3#32
  if alpha = 3 then 0x3FF else (alpha <<< 8).setWidth 16

/-- The loop body of `FromY410_c`. -/
def fromY410Word (dst : YuvaPositions) (src : ReadPtr) (x : ℤ) (memory : YuvaMemory) :
    YuvaMemory :=
  let uyva := load32 src.memory (src.pos + 4 * x)
  { u := store16 memory.u (dst.u + 2 * x) (v210Field uyva 0)
    y := store16 memory.y (dst.y + 2 * x) (v210Field uyva 10)
    v := store16 memory.v (dst.v + 2 * x) (v210Field uyva 20)
    a := if hasAlpha then store16 memory.a (dst.a + 2 * x) (y410Alpha uyva) else memory.a }

/-- Unpacking from Y410. -/
def fromY410C (memory : YuvaMemory) (dst : YuvaPositions) (pitch : YuvaPitches) (src : ReadPtr)
    (srcpitch width height : ℤ) : YuvaMemory :=
  forLoop 0 height 1 (fun y memory =>
    forLoop 0 width 1 (fromY410Word hasAlpha (dst.row pitch y)
      ⟨src.memory, src.pos + 4 * wordPitch srcpitch * y⟩) memory) memory

end Y410

/-!
## The rows of packed pixels

Both versions of the encoder of `Y416` write one sequence of samples into a row. A decoder writes
a plane by its rows.
-/

/-! ### Rows of `Y416` -/

section Y416

variable {hasAlpha : Bool} {outbuf outPitch : ℤ} {src : YuvaPtrs} {pitch : YuvaPitches}

/-- The alpha of a pixel. -/
def alphaSample (hasAlpha : Bool) (src : YuvaPtrs) (x : ℤ) : BitVec 16 :=
  if hasAlpha then src.a.sample x else 0xFFFF

/-- The samples of a row. -/
def uyvaRow (hasAlpha : Bool) (src : YuvaPtrs) : ℤ → BitVec 16 := fun i =>
  if i % 4 = 0 then src.u.sample (i / 4)
  else if i % 4 = 1 then src.y.sample (i / 4)
  else if i % 4 = 2 then src.v.sample (i / 4)
  else alphaSample hasAlpha src (i / 4)

theorem uyvaRow_eq (hasAlpha : Bool) (src : YuvaPtrs) (x : ℤ) :
    uyvaRow hasAlpha src (x * 4 + 0) = src.u.sample x ∧
      uyvaRow hasAlpha src (x * 4 + 1) = src.y.sample x ∧
      uyvaRow hasAlpha src (x * 4 + 2) = src.v.sample x ∧
      uyvaRow hasAlpha src (x * 4 + 3) = alphaSample hasAlpha src x := by
  have hdiv (i : ℤ) (hi : 0 ≤ i ∧ i < 4) : (x * 4 + i) / 4 = x := by omega
  have hmod (i : ℤ) (hi : 0 ≤ i ∧ i < 4) : (x * 4 + i) % 4 = i := by omega
  refine ⟨?_, ?_, ?_, ?_⟩ <;>
    simp [uyvaRow, hdiv, hmod]

theorem uyvaSample_eq (hasAlpha : Bool) (outbuf : ℤ) (src : YuvaPtrs) (x : ℤ) (dst : ℤ → UInt8) :
    uyvaSample hasAlpha outbuf src x dst =
      Buffer.copy dst (outbuf + 8 * x) (sampleBytes (uyvaRow hasAlpha src)) (8 * x) 8 := by
  obtain ⟨hu, hy, hv, ha⟩ := uyvaRow_eq hasAlpha src x
  have hstore (memory : ℤ → UInt8) (i : ℤ) :
      store16 memory (outbuf + 2 * (x * 4 + i)) (uyvaRow hasAlpha src (x * 4 + i)) =
        Buffer.copy memory (outbuf + 8 * x + 2 * i) (sampleBytes (uyvaRow hasAlpha src))
          (8 * x + 2 * i) 2 := by
    have hpos : outbuf + 2 * (x * 4 + i) = outbuf + 8 * x + 2 * i := by ring
    have hfrom : 2 * (x * 4 + i) = 8 * x + 2 * i := by ring
    rw [store16_eq, hpos, hfrom]
  -- Four samples one after the other are one block of eight bytes.
  have happend (m : ℤ) (hm : 0 ≤ m) := Buffer.copy_append dst (outbuf + 8 * x)
    (sampleBytes (uyvaRow hasAlpha src)) (8 * x) hm (by decide : (0 : ℤ) ≤ 2)
  have htwo := happend 2 (by decide)
  have hthree := happend 4 (by decide)
  have hfour := happend 6 (by decide)
  unfold uyvaSample
  rw [← alphaSample, ← hu, ← hy, ← hv, ← ha]
  simp only [hstore]
  norm_num at htwo hthree hfour ⊢
  rw [htwo, hthree, hfour]

/-- Four samples of each plane, and the row. -/
theorem uyvaRow_lane (hasAlpha : Bool) (src : YuvaPtrs) {u y v a : M128i} {x k : ℤ}
    (hu : ∀ i, i < 4 → u i = src.u.sample (x + i)) (hy : ∀ i, i < 4 → y i = src.y.sample (x + i))
    (hv : ∀ i, i < 4 → v i = src.v.sample (x + i))
    (ha : ∀ i, i < 4 → a i = alphaSample hasAlpha src (x + i)) (hk : k = 0 ∨ k = 2) {i : ℤ}
    (hi : 0 ≤ i ∧ i < 8) :
    (if i / 2 % 2 = 0 then mmUnpackloEpi16 u y (2 * (k + i / 2 / 2) + i % 2)
      else mmUnpackloEpi16 v a (2 * (k + i / 2 / 2) + i % 2)) =
        uyvaRow hasAlpha src (4 * (x + k) + i) := by
  have hlane : (2 * (k + i / 2 / 2) + i % 2) / 2 = k + i / 4 := by omega
  have hparity : (2 * (k + i / 2 / 2) + i % 2) % 2 = i % 2 := by omega
  have hpixel : (4 * (x + k) + i) / 4 = x + (k + i / 4) := by omega
  have hmember : (4 * (x + k) + i) % 4 = i % 4 := by omega
  have hlt : k + i / 4 < 4 := by omega
  simp only [mmUnpackloEpi16, uyvaRow, hlane, hparity, hpixel, hmember, hu _ hlt, hy _ hlt,
    hv _ hlt, ha _ hlt]
  obtain h | h | h | h : i % 4 = 0 ∨ i % 4 = 1 ∨ i % 4 = 2 ∨ i % 4 = 3 := by omega
  · rw [if_pos (by omega), if_pos (by omega), if_pos h]
  · rw [if_pos (by omega), if_neg (by omega), if_neg (by omega), if_pos h]
  · rw [if_neg (by omega), if_pos (by omega), if_neg (by omega), if_neg (by omega), if_pos h]
  · rw [if_neg (by omega), if_neg (by omega), if_neg (by omega), if_neg (by omega),
      if_neg (by omega)]

theorem uyvaBlock_eq (hasAlpha : Bool) (outbuf : ℤ) (src : YuvaPtrs) (x : ℤ) (dst : ℤ → UInt8) :
    uyvaBlock hasAlpha outbuf src x dst =
      Buffer.copy dst (outbuf + 8 * x) (sampleBytes (uyvaRow hasAlpha src)) (8 * x) (8 * 4) := by
  have hload (p : ReadPtr) (i : ℤ) (hi : i < 4) :
      mmLoadl p.memory (p.pos + 2 * x) i = p.sample (x + i) := by
    have hpos : p.pos + 2 * x + 2 * i = p.pos + 2 * (x + i) := by ring
    rw [mmLoadl, if_pos hi, ReadPtr.sample, hpos]
  have halpha (i : ℤ) (hi : i < 4) :
      (if hasAlpha then mmLoadl src.a.memory (src.a.pos + 2 * x) else mmSet1Epi16 0xFFFF) i =
        alphaSample hasAlpha src (x + i) := by
    cases hasAlpha with
    | true => exact hload src.a i hi
    | false => rfl
  have hlane (k : ℤ) (hk : k = 0 ∨ k = 2) (i : ℤ) (hi : 0 ≤ i ∧ i < 8) :=
    uyvaRow_lane hasAlpha src (hload src.u) (hload src.y) (hload src.v) halpha hk hi
  have hjoin := Buffer.copy_append dst (outbuf + 8 * x) (sampleBytes (uyvaRow hasAlpha src))
    (8 * x) (by decide : (0 : ℤ) ≤ 16) (by decide : (0 : ℤ) ≤ 16)
  unfold uyvaBlock
  dsimp only
  rw [mmStore_eq dst (outbuf + 8 * x) (4 * x) (w := uyvaRow hasAlpha src),
    mmStore_eq _ (outbuf + 16 + 8 * x) (4 * (x + 2)) (w := uyvaRow hasAlpha src)]
  · have hpos : outbuf + 16 + 8 * x = outbuf + 8 * x + 16 := by ring
    have hfirst : 2 * (4 * x) = 8 * x := by ring
    have hsecond : 2 * (4 * (x + 2)) = 8 * x + 16 := by ring
    rw [hpos, hfirst, hsecond]
    exact hjoin
  · intro i h0 h8
    rw [mmUnpackhiEpi32_apply]
    exact hlane 2 (Or.inr rfl) i ⟨h0, h8⟩
  · intro i h0 h8
    rw [mmUnpackloEpi32_apply]
    simpa using hlane 0 (Or.inl rfl) i ⟨h0, h8⟩

theorem toY416C_eq (hasAlpha : Bool) (dst : ℤ → UInt8) (outbuf outPitch : ℤ) (src : YuvaPtrs)
    (pitch : YuvaPitches) (width height : ℤ) :
    toY416C hasAlpha dst outbuf outPitch src pitch width height =
      forLoop 0 height 1 (copyRow outbuf (2 * samplePitch outPitch) (8 * width) fun y =>
        sampleBytes (uyvaRow hasAlpha (src.row pitch y))) dst := by
  unfold toY416C
  refine forLoop_congr fun y dst => ?_
  exact forLoop_all (by decide) (fun x dst => uyvaSample_eq hasAlpha _ _ x dst) dst

/-- The pitch in units of rows that begin at a unit. -/
theorem unitPitch_eq {unit pitch : ℤ} (hunit : unit = 2 ∨ unit = 4) (haligned : pitch % unit = 0)
    (hlow : -2 ^ 31 ≤ pitch) (hhigh : pitch < 2 ^ 31) :
    unit * i32 (pitch % 2 ^ 64 / unit) = pitch := by
  have hdvd : unit * (pitch / unit) = pitch :=
    Int.mul_ediv_cancel' (Int.dvd_of_emod_eq_zero haligned)
  have hrange : -2 ^ 31 ≤ pitch / unit ∧ pitch / unit < 2 ^ 31 := by
    obtain rfl | rfl := hunit <;> omega
  obtain hneg | hpos := lt_or_ge pitch 0
  · have hwrap : pitch % 2 ^ 64 = pitch + 2 ^ 64 := by omega
    have hunits : (pitch + 2 ^ 64) / unit = pitch / unit + 2 ^ 32 * (2 ^ 32 / unit) := by
      obtain rfl | rfl := hunit <;> omega
    have hword : i32 (pitch / unit + 2 ^ 32 * (2 ^ 32 / unit)) = i32 (pitch / unit) :=
      Int.add_mul_bmod_self_left _ (2 ^ 32) _
    rw [hwrap, hunits, hword, i32_of_range hrange.1 hrange.2, hdvd]
  · rw [Int.emod_eq_of_lt hpos (by omega), i32_of_range hrange.1 hrange.2, hdvd]

theorem samplePitch_even {pitch : ℤ} (heven : pitch % 2 = 0) (hlow : -2 ^ 31 ≤ pitch)
    (hhigh : pitch < 2 ^ 31) : 2 * samplePitch pitch = pitch :=
  unitPitch_eq (Or.inl rfl) heven hlow hhigh

theorem wordPitch_aligned {pitch : ℤ} (haligned : pitch % 4 = 0) (hlow : -2 ^ 31 ≤ pitch)
    (hhigh : pitch < 2 ^ 31) : 4 * wordPitch pitch = pitch :=
  unitPitch_eq (Or.inr rfl) haligned hlow hhigh

theorem toY416Sse2_eq (hasAlpha : Bool) (dst : ℤ → UInt8) (outbuf : ℤ) {outPitch : ℤ}
    (src : YuvaPtrs) (pitch : YuvaPitches) (width height : ℤ) (heven : outPitch % 2 = 0)
    (hlow : -2 ^ 31 ≤ outPitch) (hhigh : outPitch < 2 ^ 31) :
    toY416Sse2 hasAlpha dst outbuf outPitch src pitch width height =
      toY416C hasAlpha dst outbuf outPitch src pitch width height := by
  rw [toY416C_eq, samplePitch_even heven hlow hhigh]
  unfold toY416Sse2
  refine forLoop_congr fun y dst => ?_
  exact forLoop_parts (by decide) (by decide) (fun x dst => uyvaBlock_eq hasAlpha _ _ x dst)
    (fun x dst => uyvaSample_eq hasAlpha _ _ x dst) dst

end Y416

/-! ### Rows of `Y410` -/

section Y410

variable {hasAlpha : Bool} {src : YuvaPtrs} {y u v a : BitVec 16}

theorem v210Field_toNat (block : BitVec 32) (shift : ℕ) :
    (v210Field block shift).toNat = block.toNat / 2 ^ shift % 2 ^ 10 := by
  have hmask : (0x3FF#32).toNat = 2 ^ 10 - 1 := rfl
  rw [v210Field, BitVec.toNat_setWidth, BitVec.toNat_and, hmask, Nat.and_two_pow_sub_one_eq_mod,
    BitVec.toNat_ushiftRight, Nat.shiftRight_eq_div_pow]
  omega

/-- The two bits of alpha in a word. -/
def alphaBits (hasAlpha : Bool) (a : BitVec 16) : ℕ := if hasAlpha then a.toNat / 2 ^ 8 else 3

theorem alphaBits_lt {a : BitVec 16} (h : hasAlpha → IsTenBit a) : alphaBits hasAlpha a < 4 := by
  unfold alphaBits IsTenBit at *
  split_ifs with halpha
  · have hten := h halpha
    omega
  · decide

/-- Fields that do not overlap are added. -/
theorem fields_toNat {y u v : BitVec 16} {k : BitVec 32} (hy : IsTenBit y) (hu : IsTenBit u)
    (hv : IsTenBit v) (hk : k.toNat < 4) :
    (u.setWidth 32 + y.setWidth 32 <<< 10 + v.setWidth 32 <<< 20 + k <<< 30).toNat =
      u.toNat + y.toNat * 2 ^ 10 + v.toNat * 2 ^ 20 + k.toNat * 2 ^ 30 := by
  unfold IsTenBit at hy hu hv
  simp only [BitVec.toNat_add, BitVec.toNat_shiftLeft, BitVec.toNat_setWidth, Nat.shiftLeft_eq]
  omega

theorem y410Word_toNat (hy : IsTenBit y) (hu : IsTenBit u) (hv : IsTenBit v)
    (ha : hasAlpha → IsTenBit a) :
    (y410Word hasAlpha y u v a).toNat =
      u.toNat + y.toNat * 2 ^ 10 + v.toNat * 2 ^ 20 + alphaBits hasAlpha a * 2 ^ 30 := by
  have hlt := alphaBits_lt ha
  cases hasAlpha with
  | true =>
    have hbits : ((a >>> 8).setWidth 32).toNat = alphaBits true a := by
      have ha16 := a.isLt
      rw [BitVec.toNat_setWidth, BitVec.toNat_ushiftRight, Nat.shiftRight_eq_div_pow, alphaBits,
        if_pos rfl]
      omega
    rw [← hbits] at hlt ⊢
    exact fields_toNat hy hu hv hlt
  | false => exact fields_toNat (k := 3#32) hy hu hv hlt

/-- Luma and chroma of a word. -/
theorem y410Word_fields (hy : IsTenBit y) (hu : IsTenBit u) (hv : IsTenBit v)
    (ha : hasAlpha → IsTenBit a) :
    v210Field (y410Word hasAlpha y u v a) 0 = u ∧
      v210Field (y410Word hasAlpha y u v a) 10 = y ∧
      v210Field (y410Word hasAlpha y u v a) 20 = v := by
  have hword := y410Word_toNat hy hu hv ha
  have hlt := alphaBits_lt ha
  unfold IsTenBit at hy hu hv
  refine ⟨BitVec.eq_of_toNat_eq ?_, BitVec.eq_of_toNat_eq ?_, BitVec.eq_of_toNat_eq ?_⟩ <;>
    rw [v210Field_toNat, hword] <;> omega

theorem y410Word_alpha (hy : IsTenBit y) (hu : IsTenBit u) (hv : IsTenBit v)
    (ha : hasAlpha → IsTenBit a) :
    (y410Word hasAlpha y u v a).toNat / 2 ^ 30 = alphaBits hasAlpha a := by
  rw [y410Word_toNat hy hu hv ha]
  unfold IsTenBit at hy hu hv
  omega

/-- The alpha of a word is the one of ten bits that has the two bits of the word. -/
theorem y410Alpha_bits (uyva : BitVec 32) :
    IsTenBit (y410Alpha uyva) ∧ alphaBits true (y410Alpha uyva) = uyva.toNat / 2 ^ 30 := by
  have hlt : uyva.toNat / 2 ^ 30 < 4 := by
    have huyva := uyva.isLt
    omega
  have hmask : (3#32).toNat = 2 ^ 2 - 1 := rfl
  have halpha : (uyva >>> 30 &&& 3#32).toNat = uyva.toNat / 2 ^ 30 := by
    rw [BitVec.toNat_and, hmask, Nat.and_two_pow_sub_one_eq_mod, BitVec.toNat_ushiftRight,
      Nat.shiftRight_eq_div_pow]
    omega
  unfold IsTenBit alphaBits y410Alpha
  dsimp only
  rw [if_pos rfl]
  split_ifs with hthree
  · rw [hthree] at halpha
    rw [← halpha]
    decide
  · have hbits : ((uyva >>> 30 &&& 3#32) <<< 8).toNat = uyva.toNat / 2 ^ 30 * 2 ^ 8 := by
      rw [BitVec.toNat_shiftLeft, halpha, Nat.shiftLeft_eq]
      omega
    have hneThree : uyva.toNat / 2 ^ 30 ≠ 3 := by
      intro h
      refine hthree (BitVec.eq_of_toNat_eq ?_)
      rw [halpha, h]
      rfl
    rw [BitVec.toNat_setWidth, hbits]
    omega

/-- A word whose samples are packed again. An encoder without alpha writes the alpha of opaque
pixels. -/
theorem y410Word_fields_eq (uyva : BitVec 32) {a : BitVec 16} (ha : hasAlpha → IsTenBit a)
    (hbits : alphaBits hasAlpha a = uyva.toNat / 2 ^ 30) :
    y410Word hasAlpha (v210Field uyva 10) (v210Field uyva 0) (v210Field uyva 20) a = uyva := by
  have huyva := uyva.isLt
  apply BitVec.eq_of_toNat_eq
  rw [y410Word_toNat (isTenBit_v210Field _ _) (isTenBit_v210Field _ _) (isTenBit_v210Field _ _) ha,
    v210Field_toNat, v210Field_toNat, v210Field_toNat, hbits]
  omega

/-- The words of a row. -/
def y410Row (hasAlpha : Bool) (src : YuvaPtrs) : ℤ → BitVec 32 := fun x =>
  y410Word hasAlpha (src.y.sample x) (src.u.sample x) (src.v.sample x) (src.a.sample x)

theorem toY410C_eq (hasAlpha : Bool) (dst : ℤ → UInt8) (outbuf outPitch : ℤ) (src : YuvaPtrs)
    (pitch : YuvaPitches) (width height : ℤ) :
    toY410C hasAlpha dst outbuf outPitch src pitch width height =
      forLoop 0 height 1 (copyRow outbuf (4 * wordPitch outPitch) (4 * width) fun y =>
        sampleBytes (wordSamples (y410Row hasAlpha (src.row pitch y)))) dst := by
  unfold toY410C
  refine forLoop_congr fun y dst => ?_
  exact forLoop_all (by decide)
    (fun x dst => store32_wordSamples dst _ x (y410Row hasAlpha (src.row pitch y))) dst

end Y410

/-! ### Planes -/

section Planes

variable {part : YuvaMemory → ℤ → UInt8} {body : ℤ → ℤ → YuvaMemory → YuvaMemory}
  {pos pitch : ℤ} {lines : ℤ → ℤ → BitVec 16}

/-- A plane whose samples are written one by one. -/
theorem planeRows_eq (h : ∀ y x memory, part (body y x memory) =
      store16 (part memory) (pos + pitch * y + 2 * x) (lines y x)) (width height : ℤ)
    (memory : YuvaMemory) :
    part (forLoop 0 height 1 (fun y memory => forLoop 0 width 1 (body y) memory) memory) =
      forLoop 0 height 1 (copyRow pos pitch (2 * width) fun y => sampleBytes (lines y))
        (part memory) := by
  refine forLoop_part part fun y memory => ?_
  have hline : part (forLoop 0 width 1 (body y) memory) = forLoop 0 width 1
      (fun x dst => store16 dst (pos + pitch * y + 2 * x) (lines y x)) (part memory) :=
    forLoop_part part (h y)
  rw [hline]
  exact forLoop_all (by decide) (fun x dst => store16_eq dst _ (lines y) x) (part memory)

end Planes

end AviSynth
