import AviSynth.Library.IntegerText
import Mathlib.Data.BitVec
import Mathlib.Data.List.Range

/-!
# Channel layouts

The channels of a sound track are a mask of speaker positions. `audio.cpp` names
the positions and the common layouts, reads a mask from names joined with `+` or
`|`, and writes a mask as the text that is shown for it.
-/

namespace AviSynth

/-! ## Speakers and layouts -/

/-- `AvsChannelMask` -/
abbrev ChannelMask := BitVec 32

namespace Speaker

/-! The bits of the speakers. -/

def frontLeft : ChannelMask := 0x1
def frontRight : ChannelMask := 0x2
def frontCenter : ChannelMask := 0x4
def lowFrequency : ChannelMask := 0x8
def backLeft : ChannelMask := 0x10
def backRight : ChannelMask := 0x20
def frontLeftOfCenter : ChannelMask := 0x40
def frontRightOfCenter : ChannelMask := 0x80
def backCenter : ChannelMask := 0x100
def sideLeft : ChannelMask := 0x200
def sideRight : ChannelMask := 0x400
def topCenter : ChannelMask := 0x800
def topFrontLeft : ChannelMask := 0x1000
def topFrontCenter : ChannelMask := 0x2000
def topFrontRight : ChannelMask := 0x4000
def topBackLeft : ChannelMask := 0x8000
def topBackCenter : ChannelMask := 0x10000
def topBackRight : ChannelMask := 0x20000
/-- `MASK_SPEAKER_ALL` -/
def all : ChannelMask := 0x80000000

end Speaker

namespace Layout

open Speaker

/-! The named layouts. -/

def mono : ChannelMask := frontCenter
def stereo : ChannelMask := frontLeft ||| frontRight
def twoPoint1 : ChannelMask := stereo ||| lowFrequency
def two1 : ChannelMask := stereo ||| backCenter
def surround : ChannelMask := stereo ||| frontCenter
def threePoint1 : ChannelMask := surround ||| lowFrequency
def fourPoint0 : ChannelMask := surround ||| backCenter
def fourPoint1 : ChannelMask := fourPoint0 ||| lowFrequency
def two2 : ChannelMask := stereo ||| sideLeft ||| sideRight
def quad : ChannelMask := stereo ||| backLeft ||| backRight
def fivePoint0 : ChannelMask := surround ||| sideLeft ||| sideRight
def fivePoint1 : ChannelMask := fivePoint0 ||| lowFrequency
def fivePoint0Back : ChannelMask := surround ||| backLeft ||| backRight
def fivePoint1Back : ChannelMask := fivePoint0Back ||| lowFrequency
def sixPoint0 : ChannelMask := fivePoint0 ||| backCenter
def sixPoint0Front : ChannelMask := two2 ||| frontLeftOfCenter ||| frontRightOfCenter
def hexagonal : ChannelMask := fivePoint0Back ||| backCenter
def sixPoint1 : ChannelMask := fivePoint1 ||| backCenter
def sixPoint1Back : ChannelMask := fivePoint1Back ||| backCenter
def sixPoint1Front : ChannelMask := sixPoint0Front ||| lowFrequency
def sevenPoint0 : ChannelMask := fivePoint0 ||| backLeft ||| backRight
def sevenPoint0Front : ChannelMask := fivePoint0 ||| frontLeftOfCenter ||| frontRightOfCenter
def sevenPoint1 : ChannelMask := fivePoint1 ||| backLeft ||| backRight
def sevenPoint1Wide : ChannelMask := fivePoint1 ||| frontLeftOfCenter ||| frontRightOfCenter
def sevenPoint1WideBack : ChannelMask :=
  fivePoint1Back ||| frontLeftOfCenter ||| frontRightOfCenter
def sevenPoint1TopBack : ChannelMask := fivePoint1Back ||| topFrontLeft ||| topFrontRight
def octagonal : ChannelMask := fivePoint0 ||| backLeft ||| backCenter ||| backRight
def cube : ChannelMask :=
  quad ||| topFrontLeft ||| topFrontRight ||| topBackLeft ||| topBackRight

end Layout

/-- `channel_names`: the name of the channel of each bit. -/
def channelNames : List String :=
  ["FL", "FR", "FC", "LFE", "BL", "BR", "FLC", "FRC", "BC", "SL", "SR", "TC", "TFL", "TFC", "TFR",
    "TBL", "TBC", "TBR"]

/-- `channel_layout_name` with its `ChannelLayoutDescriptor_t`. -/
structure ChannelLayout where
  name : String
  nbChannels : ℤ
  mask : ChannelMask
  deriving DecidableEq, Repr

/-- `channel_layout_map` -/
def channelLayoutMap : List ChannelLayout :=
  [⟨"mono", 1, Layout.mono⟩, ⟨"stereo", 2, Layout.stereo⟩, ⟨"2.1", 3, Layout.twoPoint1⟩,
    ⟨"3.0", 3, Layout.surround⟩, ⟨"3.0(back)", 3, Layout.two1⟩, ⟨"4.0", 4, Layout.fourPoint0⟩,
    ⟨"quad", 4, Layout.quad⟩, ⟨"quad(side)", 4, Layout.two2⟩, ⟨"3.1", 4, Layout.threePoint1⟩,
    ⟨"5.0", 5, Layout.fivePoint0Back⟩, ⟨"5.0(side)", 5, Layout.fivePoint0⟩,
    ⟨"4.1", 5, Layout.fourPoint1⟩, ⟨"5.1", 6, Layout.fivePoint1Back⟩,
    ⟨"5.1(side)", 6, Layout.fivePoint1⟩, ⟨"6.0", 6, Layout.sixPoint0⟩,
    ⟨"6.0(front)", 6, Layout.sixPoint0Front⟩, ⟨"hexagonal", 6, Layout.hexagonal⟩,
    ⟨"6.1", 7, Layout.sixPoint1⟩, ⟨"6.1(back)", 7, Layout.sixPoint1Back⟩,
    ⟨"6.1(front)", 7, Layout.sixPoint1Front⟩, ⟨"7.0", 7, Layout.sevenPoint0⟩,
    ⟨"7.0(front)", 7, Layout.sevenPoint0Front⟩, ⟨"7.1", 8, Layout.sevenPoint1⟩,
    ⟨"7.1(wide)", 8, Layout.sevenPoint1WideBack⟩, ⟨"7.1(wide-side)", 8, Layout.sevenPoint1Wide⟩,
    ⟨"7.1(top)", 8, Layout.sevenPoint1TopBack⟩, ⟨"octagonal", 8, Layout.octagonal⟩,
    ⟨"cube", 8, Layout.cube⟩]

/-! ## Reading a mask -/

/-- `av_get_default_channel_layout`: the first layout with this many channels. -/
def avGetDefaultChannelLayout (nbChannels : ℤ) : ChannelMask :=
  match channelLayoutMap.find? (nbChannels == ·.nbChannels) with
  | some layout => layout.mask
  | none => 0

/-- The width of `long`, which the platform chooses. -/
inductive LongWidth
  | bits32
  | bits64
  deriving DecidableEq, Repr

def LongWidth.bits : LongWidth → ℕ
  | .bits32 => 32
  | .bits64 => 64

/-- The `strlen` and `memcmp` test of a table's name. -/
def isName (entry : String) (name : List Char) (nameLen : ℕ) : Bool :=
  entry.toList.length == nameLen && entry.toList == name.take nameLen

/-- The forms that are no name: a number of channels that ends in `c`, else the
mask itself. Both conversions read on past `nameLen`. -/
def layoutOfNumber (long : LongWidth) (name : List Char) (nameLen : ℕ) : ChannelMask :=
  let count := strtol long.bits 10 name
  -- `long` is passed as an `int`
  if !count.rangeError && count.taken.length + 1 == nameLen && name[count.taken.length]? == some 'c'
  then avGetDefaultChannelLayout (BitVec.ofInt 32 count.value).toInt
  else
    let layout := strtol 64 0 name
    if !layout.rangeError && layout.taken.length == nameLen then
      if layout.value > 0xFFFFFFFF then 0 else BitVec.ofInt 32 (max layout.value 0)
    else 0

/-- `get_channel_layout_single` -/
def getChannelLayoutSingle (long : LongWidth) (name : List Char) (nameLen : ℕ) : ChannelMask :=
  match channelLayoutMap.find? (isName ·.name name nameLen) with
  | some layout => layout.mask
  | none =>
    match channelNames.findIdx? (isName · name nameLen) with
    | some i => 1#32 <<< i
    | none => layoutOfNumber long name nameLen

def isSeparator (c : Char) : Bool := c == '+' || c == '|'

/-- The loop over the names between separators; every round takes a character at
least, so the length of the text is fuel enough. -/
def layoutLoop (long : LongWidth) : ℕ → List Char → ChannelMask → ChannelMask
  | 0, _, layout => layout
  | _ + 1, [], layout => layout
  | fuel + 1, c :: text, layout =>
      let name := (c :: text).takeWhile (!isSeparator ·)
      let layoutSingle := getChannelLayoutSingle long (c :: text) name.length
      if layoutSingle = 0 then 0
      else layoutLoop long fuel ((c :: text).drop (name.length + 1)) (layout ||| layoutSingle)

/-- `av_get_channel_layout` -/
def avGetChannelLayout (long : LongWidth) (name : List Char) : ChannelMask :=
  -- `_stricmp(name, "speaker_all")`
  if name.map Char.toLower = "speaker_all".toList then Speaker.all
  else layoutLoop long name.length name 0

/-! ## Writing a mask -/

/-- `channelcount_from_mask` -/
def channelcountFromMask (mask : ChannelMask) : ℕ :=
  let y := mask.setWidth 64 * 0x0002000400080010#64
  let y := y &&& 0x1111111111111111#64
  let y := y * 0x1111111111111111#64
  (y >>> 60).toNat

/-- The scan of `av_channel_layout_channel_from_index` over the bits that are left. -/
def channelFromIndexLoop (mask : ChannelMask) : List ℕ → ℕ → Option ℕ
  | [], _ => none
  | i :: bits, idx =>
      if mask.getLsbD i then
        if idx = 0 then some i else channelFromIndexLoop mask bits (idx - 1)
      else channelFromIndexLoop mask bits idx

/-- `av_channel_layout_channel_from_index`, `none` for `AVS_CHAN_IDX_NONE`. -/
def avChannelLayoutChannelFromIndex (mask : ChannelMask) (idx : ℕ) : Option ℕ :=
  if channelcountFromMask mask ≤ idx then none else channelFromIndexLoop mask (List.range 32) idx

/-- The name that the text of a mask has for its channel number `i`. -/
def channelText (mask : ChannelMask) (i : ℕ) : List Char :=
  (avChannelLayoutChannelFromIndex mask i).elim "NONE".toList fun ch =>
    (channelNames[ch]?.getD "").toList

/-- `channel_layout_to_str` -/
def channelLayoutToStr (mask : ChannelMask) : List Char :=
  if mask = Speaker.all then "speaker_all".toList
  else
    match channelLayoutMap.find? (mask == ·.mask) with
    | some layout => layout.name.toList
    | none =>
      let nbChannels := channelcountFromMask mask
      if nbChannels ≠ 0 then
        Nat.toDigits 10 nbChannels ++ " channels (".toList ++
          (List.range nbChannels).flatMap (fun i =>
            (if i ≠ 0 then ['+'] else []) ++ channelText mask i) ++ [')']
      else "(Error. Mask=".toList ++ Nat.toDigits 10 mask.toNat ++ [')']

/-!
## Counting the channels of a mask

`channelcount_from_mask` copies the mask four times, keeps every fourth bit and
adds the nibbles by a multiplication. The copies of a mask of fifteen bits do not
meet, so each channel is counted in a nibble of its own.
-/

/-- The channels of a mask, by the numbers of their bits. -/
def setBits (mask : ChannelMask) : List ℕ :=
  (List.range 32).filter (mask.getLsbD ·)

/-- The channels of a mask below a bit. -/
def bitsBelow (mask : ChannelMask) (bound : ℕ) : ℕ :=
  (List.range bound).countP (mask.getLsbD ·)

/-- The mask with its copies at every fourth bit. -/
def nibbles (mask : ChannelMask) : BitVec 64 :=
  mask.setWidth 64 * 0x0002000400080010#64 &&& 0x1111111111111111#64

theorem channelcountFromMask_eq (mask : ChannelMask) :
    channelcountFromMask mask = (nibbles mask * 0x1111111111111111#64).toNat / 2 ^ 60 := by
  unfold channelcountFromMask nibbles
  dsimp only
  rw [BitVec.toNat_ushiftRight, Nat.shiftRight_eq_div_pow]

variable {mask : ChannelMask}

theorem getLsbD_lt_fifteen (h : mask.toNat < 2 ^ 15) {i : ℕ}
    (hi : mask.getLsbD i) : i < 15 := by
  by_contra hle
  have hpow : 2 ^ 15 ≤ 2 ^ i := Nat.pow_le_pow_right (by decide) (by omega)
  rw [BitVec.getLsbD, Nat.testBit_lt_two_pow (by omega)] at hi
  exact Bool.false_ne_true hi

variable {left right : ChannelMask} {shifts : List ℕ}

/-- Two copies of a mask at least fifteen bits apart do not meet, nor do copies
of two masks that have no channel in common. -/
theorem shifted_and_shifted (hleft : left.toNat < 2 ^ 15) (hright : right.toNat < 2 ^ 15) {m n : ℕ}
    (h : m = n ∧ left &&& right = 0 ∨ m + 15 ≤ n ∨ n + 15 ≤ m) :
    left.setWidth 64 <<< m &&& right.setWidth 64 <<< n = 0#64 := by
  apply BitVec.eq_of_getLsbD_eq
  intro i hi
  rw [BitVec.getLsbD_and, BitVec.getLsbD_zero, Bool.and_eq_false_iff, or_iff_not_imp_left]
  intro hbit
  rw [Bool.not_eq_false] at hbit
  simp only [BitVec.getLsbD_shiftLeft, BitVec.getLsbD_setWidth, Bool.and_eq_true,
    decide_eq_true_eq, Bool.not_eq_true', decide_eq_false_iff_not] at hbit
  obtain ⟨⟨-, hm⟩, -, hbitLeft⟩ := hbit
  have hlow := getLsbD_lt_fifteen hleft hbitLeft
  rw [← Bool.not_eq_true]
  intro hbitRight
  simp only [BitVec.getLsbD_shiftLeft, BitVec.getLsbD_setWidth, Bool.and_eq_true,
    decide_eq_true_eq, Bool.not_eq_true', decide_eq_false_iff_not] at hbitRight
  obtain ⟨⟨-, hn⟩, -, hbitRight⟩ := hbitRight
  have hhigh := getLsbD_lt_fifteen hright hbitRight
  obtain ⟨rfl, hdisjoint⟩ | hfar | hfar := h
  · have := congrArg (·.getLsbD (i - m)) hdisjoint
    simp [hbitLeft, hbitRight] at this
  · omega
  · omega

/-- The copies of a mask at some bits. -/
def copiesAt (mask : ChannelMask) : List ℕ → BitVec 64
  | [] => 0#64
  | shift :: shifts => mask.setWidth 64 <<< shift ||| copiesAt mask shifts

/-- The factor that makes the copies. -/
def factorOf : List ℕ → BitVec 64
  | [] => 0#64
  | shift :: shifts => BitVec.twoPow 64 shift + factorOf shifts

theorem shifted_and_copiesAt (hleft : left.toNat < 2 ^ 15) (hright : right.toNat < 2 ^ 15) {m : ℕ}
    (h : ∀ n ∈ shifts, m + 15 ≤ n) :
    left.setWidth 64 <<< m &&& copiesAt right shifts = 0#64 := by
  induction shifts with
  | nil => exact BitVec.and_zero
  | cons n shifts ih =>
      rw [copiesAt, BitVec.and_or_distrib_left,
        shifted_and_shifted hleft hright (.inr (.inl (h n (List.mem_cons_self ..)))),
        ih fun k hk => h k (List.mem_cons_of_mem _ hk), BitVec.or_self]

/-- Copies that do not meet come from a multiplication. -/
theorem mul_factorOf (hmask : mask.toNat < 2 ^ 15) (h : shifts.Pairwise (fun m n => m + 15 ≤ n)) :
    mask.setWidth 64 * factorOf shifts = copiesAt mask shifts := by
  induction shifts with
  | nil => exact BitVec.mul_zero
  | cons n shifts ih =>
      obtain ⟨hn, hrest⟩ := List.pairwise_cons.1 h
      rw [factorOf, BitVec.mul_add, BitVec.mul_twoPow_eq_shiftLeft, ih hrest,
        BitVec.add_eq_or_of_and_eq_zero _ _ (shifted_and_copiesAt hmask hmask hn), copiesAt]

theorem copiesAt_or (left right : ChannelMask) (shifts : List ℕ) :
    copiesAt (left ||| right) shifts = copiesAt left shifts ||| copiesAt right shifts := by
  induction shifts with
  | nil => exact BitVec.or_self.symm
  | cons n shifts ih =>
      rw [copiesAt, copiesAt, copiesAt, ih, BitVec.setWidth_or, BitVec.shiftLeft_or_distrib]
      ac_rfl

theorem copiesAt_and (hleft : left.toNat < 2 ^ 15) (hright : right.toNat < 2 ^ 15)
    (h : left &&& right = 0) (hshifts : shifts.Pairwise (fun m n => m + 15 ≤ n)) :
    copiesAt left shifts &&& copiesAt right shifts = 0#64 := by
  induction shifts with
  | nil => exact BitVec.and_self
  | cons n shifts ih =>
      obtain ⟨hn, hrest⟩ := List.pairwise_cons.1 hshifts
      rw [copiesAt, copiesAt, BitVec.and_or_distrib_left, BitVec.and_or_distrib_right,
        BitVec.and_or_distrib_right, shifted_and_shifted hleft hright (.inl ⟨rfl, h⟩),
        shifted_and_copiesAt hleft hright hn, ih hrest, BitVec.and_comm (copiesAt left shifts),
        shifted_and_copiesAt hright hleft hn]
      rfl

theorem nibbles_eq (h : mask.toNat < 2 ^ 15) :
    nibbles mask = copiesAt mask [4, 19, 34, 49] &&& 0x1111111111111111#64 := by
  rw [← mul_factorOf h (by decide)]
  rfl

/-- The nibbles of masks without a common channel add up. -/
theorem nibbles_or (hleft : left.toNat < 2 ^ 15) (hright : right.toNat < 2 ^ 15)
    (h : left &&& right = 0) :
    nibbles (left ||| right) = nibbles left + nibbles right := by
  have hboth : (left ||| right).toNat < 2 ^ 15 := by
    rw [BitVec.toNat_or]
    exact Nat.or_lt_two_pow hleft hright
  have hapart : copiesAt left [4, 19, 34, 49] &&& copiesAt right [4, 19, 34, 49] = 0#64 :=
    copiesAt_and hleft hright h (by decide)
  rw [nibbles_eq hleft, nibbles_eq hright, nibbles_eq hboth, copiesAt_or,
    BitVec.and_or_distrib_right, BitVec.add_eq_or_of_and_eq_zero]
  calc copiesAt left [4, 19, 34, 49] &&& 0x1111111111111111#64 &&&
        (copiesAt right [4, 19, 34, 49] &&& 0x1111111111111111#64)
      = copiesAt left [4, 19, 34, 49] &&& copiesAt right [4, 19, 34, 49] &&&
          0x1111111111111111#64 := by
        rw [BitVec.and_assoc, BitVec.and_comm 0x1111111111111111#64, BitVec.and_assoc,
          BitVec.and_self, BitVec.and_assoc]
    _ = 0#64 := by rw [hapart, BitVec.zero_and]

/-! ## The sum of the nibbles -/

theorem bitsBelow_succ (mask : ChannelMask) (k : ℕ) :
    bitsBelow mask (k + 1) = bitsBelow mask k + (mask.getLsbD k).toNat := by
  rw [bitsBelow, List.range_succ, List.countP_append, List.countP_singleton, bitsBelow]
  cases mask.getLsbD k <;> rfl

theorem bitsBelow_congr {k : ℕ}
    (h : ∀ i < k, left.getLsbD i = right.getLsbD i) : bitsBelow left k = bitsBelow right k :=
  List.countP_congr fun i hi => by rw [h i (List.mem_range.1 hi)]

theorem bitsBelow_le (mask : ChannelMask) (k : ℕ) : bitsBelow mask k ≤ k :=
  (List.countP_le_length (p := (mask.getLsbD ·))).trans_eq (List.length_range ..)

/-- The sum for one channel: a one in the top nibble, ones at most below it. -/
theorem nibbles_twoPow : ∀ k < 15,
    2 ^ 60 ≤ (nibbles (BitVec.twoPow 32 k) * 0x1111111111111111#64).toNat ∧
      (nibbles (BitVec.twoPow 32 k) * 0x1111111111111111#64).toNat ≤
        2 ^ 60 + 0x111111111111111 := by
  decide

/-- A mask is its top channel and a mask of the channels below. -/
theorem exists_rest {k : ℕ} (hmask : mask.toNat < 2 ^ (k + 1)) (hbit : mask.getLsbD k) :
    ∃ rest : ChannelMask, rest.toNat < 2 ^ k ∧ rest &&& BitVec.twoPow 32 k = 0 ∧
      rest ||| BitVec.twoPow 32 k = mask ∧ bitsBelow rest k = bitsBelow mask k := by
  have hrestNat : (BitVec.ofNat 32 (mask.toNat % 2 ^ k)).toNat = mask.toNat % 2 ^ k := by
    rw [BitVec.toNat_ofNat, Nat.mod_eq_of_lt ((Nat.mod_le _ _).trans_lt mask.isLt)]
  generalize BitVec.ofNat 32 (mask.toNat % 2 ^ k) = rest at hrestNat
  have hrestBit (i : ℕ) : rest.getLsbD i = (decide (i < k) && mask.getLsbD i) := by
    rw [BitVec.getLsbD, hrestNat, Nat.testBit_mod_two_pow, BitVec.getLsbD]
  refine ⟨rest, hrestNat ▸ Nat.mod_lt _ (Nat.two_pow_pos k), ?_, ?_, ?_⟩
  · apply BitVec.eq_of_getLsbD_eq
    intro i hi
    rw [BitVec.getLsbD_and, hrestBit, BitVec.getLsbD_twoPow]
    obtain hne | rfl := ne_or_eq k i
    · simp [hne]
    · simp
  · apply BitVec.eq_of_getLsbD_eq
    intro i hi
    rw [BitVec.getLsbD_or, hrestBit, BitVec.getLsbD_twoPow]
    obtain hlt | rfl | hgt := lt_trichotomy i k
    · simp [hlt, hlt.ne']
    · simp [hi, hbit]
    · have hzero : mask.getLsbD i = false :=
        Nat.testBit_lt_two_pow (hmask.trans_le (Nat.pow_le_pow_right (by decide) hgt))
      simp [hzero, hgt.ne]
  · exact bitsBelow_congr fun i hi => by rw [hrestBit, decide_eq_true hi, Bool.true_and]

/-- The sum for a mask: the number of channels in the top nibble, and below it at
most that many in every nibble. The induction is on the bound of the bits. -/
theorem nibbles_sum {k : ℕ} (hk : k ≤ 15) (hmask : mask.toNat < 2 ^ k) :
    bitsBelow mask k * 2 ^ 60 ≤ (nibbles mask * 0x1111111111111111#64).toNat ∧
      (nibbles mask * 0x1111111111111111#64).toNat ≤
        bitsBelow mask k * (2 ^ 60 + 0x111111111111111) := by
  induction k generalizing mask with
  | zero =>
      obtain rfl : mask = 0 := BitVec.eq_of_toNat_eq (by simpa using hmask)
      decide
  | succ k ih =>
      rw [bitsBelow_succ]
      cases hbit : mask.getLsbD k with
      | false =>
          have hlow : mask.toNat < 2 ^ k := by
            refine Nat.lt_pow_two_of_testBit _ fun i hi => ?_
            obtain rfl | hlt := hi.eq_or_lt
            · exact hbit
            · exact Nat.testBit_lt_two_pow (hmask.trans_le (Nat.pow_le_pow_right (by decide) hlt))
          exact ih (by omega) hlow
      | true =>
          obtain ⟨rest, hrest, hdisjoint, rfl, hcount⟩ := exists_rest hmask hbit
          have hone : (BitVec.twoPow 32 k).toNat < 2 ^ 15 := by
            rw [BitVec.toNat_twoPow_of_lt (by omega)]
            exact Nat.pow_lt_pow_right (by decide) (by omega)
          have hrest15 : rest.toNat < 2 ^ 15 :=
            hrest.trans_le (Nat.pow_le_pow_right (by decide) (by omega))
          have hsum := nibbles_or hrest15 hone hdisjoint
          obtain ⟨hlow, hup⟩ := ih (by omega) hrest
          obtain ⟨honeLow, honeUp⟩ := nibbles_twoPow k (by omega)
          have hle := bitsBelow_le rest k
          rw [hsum, BitVec.add_mul, BitVec.toNat_add, ← hcount, Bool.toNat_true, Nat.mod_eq_of_lt]
          · omega
          · omega

theorem length_setBits (mask : ChannelMask) : (setBits mask).length = bitsBelow mask 32 :=
  (List.countP_eq_length_filter ..).symm

/-- The channels of a mask of fifteen bits are counted right. -/
theorem channelcountFromMask_of_lt (h : mask.toNat < 2 ^ 15) :
    channelcountFromMask mask = (setBits mask).length := by
  have hhigh : ∀ k, bitsBelow mask (15 + k) = bitsBelow mask 15 := fun k => by
    induction k with
    | zero => rfl
    | succ k ih =>
        have hbit : mask.getLsbD (15 + k) = false :=
          Nat.testBit_lt_two_pow (h.trans_le (Nat.pow_le_pow_right (by decide) (by omega)))
        rw [← Nat.add_assoc, bitsBelow_succ, ih, hbit, Bool.toNat_false, Nat.add_zero]
  obtain ⟨hlow, hup⟩ := nibbles_sum le_rfl h
  have hle := bitsBelow_le mask 15
  rw [channelcountFromMask_eq, length_setBits, show (32 : ℕ) = 15 + 17 from rfl, hhigh]
  omega

end AviSynth
