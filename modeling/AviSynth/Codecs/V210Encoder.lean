import AviSynth.AviFile.StreamFormat
import AviSynth.Library.Loops

/-!
# The packing `v210`

Six pixels of 4:2:2 in 10 bits are packed into four words: a word has three samples.
-/

namespace AviSynth

open MachineInt BoundedCells CountedLoop

/-- The samples of three planes. -/
structure SamplePlanes where
  y : BoundedCells (BitVec 16)
  u : BoundedCells (BitVec 16)
  v : BoundedCells (BitVec 16)

/-- Positions in the planes. -/
structure PlanePositions where
  y : ℤ
  u : ℤ
  v : ℤ

namespace PlanePositions

/-- The positions of the next pixels. -/
def advance (p : PlanePositions) (luma chroma : ℤ) : PlanePositions :=
  ⟨p.y + luma, p.u + chroma, p.v + chroma⟩

/-- The positions of a row. -/
def row (p : PlanePositions) (ppitchY ppitchUV row : ℤ) : PlanePositions :=
  p.advance (row * ppitchY) (row * ppitchUV)

variable {p : PlanePositions} {ppitchY ppitchUV : ℤ}

@[simp] theorem row_zero : p.row ppitchY ppitchUV 0 = p := by simp [row, advance]

theorem row_succ (row : ℕ) : p.row ppitchY ppitchUV (row + 1 : ℕ) =
    (p.advance ppitchY ppitchUV).row ppitchY ppitchUV row := by
  simp only [PlanePositions.row, advance, mk.injEq]
  push_cast
  refine ⟨?_, ?_, ?_⟩ <;> ring

end PlanePositions

/-- `pitch / sizeof(uint16_t)`, which is computed in `size_t`. -/
def samplePitch (pitch : ℤ) : ℤ := i32 (pitch % 2 ^ 64 / 2)

/-- The bytes of a row in `v210`. -/
def v210Pitch (width : ℤ) : ℤ :=
  let row := i32 (i32 (16 * (i32 (width + 5) / 6)) + 127)
  row - row % 128

theorem samplePitch_of_range {pitch : ℤ} (hlow : 0 ≤ pitch) (hhigh : pitch < 2 ^ 31) :
    samplePitch pitch = pitch / 2 := by
  rw [samplePitch, Int.emod_eq_of_lt hlow (by omega), i32_of_range (by omega) (by omega)]

/-- The encoder makes one group more than a row has. -/
theorem rounds_v210 {width : ℤ} (hpos : 0 < width) (hwidth : width < 2 ^ 31 - 5)
    (heven : width % 2 = 0) : (rounds 0 (i32 (width + 5)) 6 : ℤ) = (width + 5) / 6 + 1 := by
  rw [rounds, i32_of_range (by omega) (by omega)]
  omega

theorem v210Pitch_of_range {width : ℤ} (hpos : 0 < width) (hwidth : width ≤ 805306320) :
    v210Pitch width = 128 * ((width + 47) / 48) := by
  rw [v210Pitch, i32_of_range (x := width + 5) (by omega) (by omega),
    i32_of_range (x := 16 * ((width + 5) / 6)) (by omega) (by omega),
    i32_of_range (by omega) (by omega)]
  omega

/-- Three samples in a word, the first one in the lowest bits. -/
def v210Word (a b c : BitVec 16) : BitVec 32 :=
  a.setWidth 32 ||| b.setWidth 32 <<< 10 ||| c.setWidth 32 <<< 20

section Encoder

variable (src : SamplePlanes)

/-- The body of the inner loop: six pixels. -/
def packGroup (line : PlanePositions) (outLine : ℤ) (out : BoundedCells (BitVec 32)) :
    Option (BoundedCells (BitVec 32)) := do
  let out ← out.set? outLine
    (v210Word (← src.u.get? line.u) (← src.y.get? line.y) (← src.v.get? line.v))
  let out ← out.set? (outLine + 1) (v210Word (← src.y.get? (line.y + 1))
    (← src.u.get? (line.u + 1)) (← src.y.get? (line.y + 2)))
  let out ← out.set? (outLine + 2) (v210Word (← src.v.get? (line.v + 1))
    (← src.y.get? (line.y + 3)) (← src.u.get? (line.u + 2)))
  out.set? (outLine + 3) (v210Word (← src.y.get? (line.y + 4)) (← src.v.get? (line.v + 2))
    (← src.y.get? (line.y + 5)))

/-- The inner loop. -/
def packLine : ℕ → PlanePositions → ℤ → BoundedCells (BitVec 32) →
    Option (BoundedCells (BitVec 32))
  | 0, _, _, out => some out
  | groups + 1, line, outLine, out => do
    let out ← packGroup src line outLine out
    packLine groups (line.advance 6 3) (outLine + 4) out

/-- The outer loop. -/
def packRows (ppitchY ppitchUV outPitch : ℤ) (groups : ℕ) : ℕ → PlanePositions → ℤ →
    BoundedCells (BitVec 32) → Option (BoundedCells (BitVec 32))
  | 0, _, _, out => some out
  | rows + 1, ptr, outbuf, out => do
    let out ← packLine src groups ptr outbuf out
    packRows ppitchY ppitchUV outPitch groups rows (ptr.advance ppitchY ppitchUV)
      (outbuf + outPitch) out

/-- `yuv422p10_to_v210`. The planes and the words of the destination begin at position zero. -/
def yuv422p10ToV210 (out : BoundedCells (BitVec 32)) (srcpitch srcpitchUV width height : ℤ) :
    Option (BoundedCells (BitVec 32)) :=
  packRows src (samplePitch srcpitch) (samplePitch srcpitchUV) (v210Pitch width / 4)
    (rounds 0 (i32 (width + 5)) 6) height.toNat ⟨0, 0, 0⟩ 0 out

variable {src} {line : PlanePositions} {outLine : ℤ} {out out' : BoundedCells (BitVec 32)}

/-- The ranges that `groups` groups use are inside. -/
structure GroupsInside (src : SamplePlanes) (out : BoundedCells (BitVec 32))
    (line : PlanePositions) (outLine groups : ℤ) : Prop where
  y : src.y.Has line.y (6 * groups)
  u : src.u.Has line.u (3 * groups)
  v : src.v.Has line.v (3 * groups)
  out : out.Has outLine (4 * groups)

/-- The words of a group. -/
def packedWords (src : SamplePlanes) (line : PlanePositions) : List (BitVec 32) :=
  let y i := src.y.cell (line.y + i)
  let u i := src.u.cell (line.u + i)
  let v i := src.v.cell (line.v + i)
  [v210Word (u 0) (y 0) (v 0), v210Word (y 1) (u 1) (y 2), v210Word (v 1) (y 3) (u 2),
    v210Word (y 4) (v 2) (y 5)]

theorem packGroup_of_inside (h : GroupsInside src out line outLine 1) :
    packGroup src line outLine out = some (out.setAll outLine (packedWords src line)) := by
  obtain ⟨hy, hu, hv, ho⟩ := h
  unfold Has at *
  rw [packGroup, get?_bind, get?_bind, get?_bind, set?_bind, get?_bind, get?_bind, get?_bind,
    set?_bind, get?_bind, get?_bind, get?_bind, set?_bind, get?_bind, get?_bind, get?_bind,
    set?_inside]
  · simp only [setAll, packedWords, add_assoc, add_zero, Int.reduceAdd]
  all_goals try simp only [length_put]
  all_goals omega

theorem inside_of_packGroup (h : (packGroup src line outLine out).isSome) :
    GroupsInside src out line outLine 1 := by
  obtain ⟨out', h⟩ := Option.isSome_iff_exists.mp h
  simp only [packGroup, Option.bind_eq_bind, Option.bind_eq_some_iff, get?_eq_some, set?_eq_some,
    length_put, and_assoc, exists_eq_left, exists_and_left, exists_eq_left'] at h
  refine ⟨?_, ?_, ?_, ?_⟩
  all_goals
    unfold Has
    omega

theorem groupsInside_add {groups : ℤ} (hgroups : 0 ≤ groups) :
    GroupsInside src out line outLine (groups + 1) ↔
      GroupsInside src out line outLine 1 ∧
        GroupsInside src out (line.advance 6 3) (outLine + 4) groups := by
  constructor
  · rintro ⟨hy, hu, hv, ho⟩
    unfold Has at *
    constructor
    · constructor <;> unfold Has <;> omega
    · constructor <;> simp only [Has, PlanePositions.advance] <;> omega
  · rintro ⟨⟨hy, hu, hv, ho⟩, ⟨hy', hu', hv', ho'⟩⟩
    unfold Has PlanePositions.advance at *
    dsimp only at *
    constructor <;> unfold Has <;> omega

theorem GroupsInside.congr {groups : ℤ} (h : GroupsInside src out line outLine groups)
    (hlength : out'.length = out.length) : GroupsInside src out' line outLine groups :=
  ⟨h.y, h.u, h.v, h.out.congr hlength⟩

/-- What the inner loop has written. -/
structure PackedLine (src : SamplePlanes) (line : PlanePositions) (outLine : ℤ) (groups : ℕ)
    (out out' : BoundedCells (BitVec 32)) : Prop where
  words : ∀ k < groups, out'.Lists (outLine + 4 * k)
    (packedWords src (line.advance (6 * k) (3 * k)))
  writesOnly : out.WritesOnly out' outLine (4 * groups)

theorem packLine_of_inside {groups : ℕ} (h : GroupsInside src out line outLine groups) :
    ∃ out', packLine src groups line outLine out = some out' ∧
      PackedLine src line outLine groups out out' := by
  induction groups generalizing line outLine out with
  | zero => exact ⟨out, rfl, fun k hk => absurd hk (Nat.not_lt_zero k), .refl out outLine _⟩
  | succ groups ih =>
    push_cast at h
    obtain ⟨hfirst, hrest⟩ := (groupsInside_add (by omega)).mp h
    have hgroup := writesOnly_setAll out outLine (packedWords src line)
    have hwords : ((packedWords src line).length : ℤ) = 4 := rfl
    rw [hwords] at hgroup
    obtain ⟨out', hout', hline⟩ := ih (hrest.congr hgroup.length_eq)
    refine ⟨out', ?_, fun k hk => ?_, hgroup.trans hline.writesOnly (by omega) (by omega)⟩
    · rw [packLine, packGroup_of_inside hfirst]
      exact hout'
    · cases k with
      | zero =>
        have hlists := hline.writesOnly.lists (by omega) (lists_setAll out outLine _)
        simpa [PlanePositions.advance] using hlists
      | succ k =>
        have hlists := hline.words k (by omega)
        have hpos : outLine + 4 + 4 * (k : ℤ) = outLine + 4 * (k + 1 : ℕ) := by omega
        have hadvance : (line.advance 6 3).advance (6 * k) (3 * k) =
            line.advance (6 * (k + 1 : ℕ)) (3 * (k + 1 : ℕ)) := by
          simp only [PlanePositions.advance, PlanePositions.mk.injEq]
          omega
        rwa [hpos, hadvance] at hlists

theorem packGroup_length (h : packGroup src line outLine out = some out') :
    out'.length = out.length := by
  have hinside := inside_of_packGroup (Option.isSome_iff_exists.mpr ⟨out', h⟩)
  rw [packGroup_of_inside hinside] at h
  obtain rfl := Option.some.inj h
  exact (writesOnly_setAll out outLine _).length_eq

theorem inside_of_packLine {groups : ℕ} (h : packLine src groups line outLine out = some out') :
    GroupsInside src out line outLine groups := by
  induction groups generalizing line outLine out with
  | zero => constructor <;> exact Or.inl (by simp)
  | succ groups ih =>
    rw [packLine, Option.bind_eq_bind, Option.bind_eq_some_iff] at h
    obtain ⟨mid, hgroup, hrest⟩ := h
    push_cast
    exact (groupsInside_add (by omega)).mpr
      ⟨inside_of_packGroup (Option.isSome_iff_exists.mpr ⟨mid, hgroup⟩),
        (ih hrest).congr (packGroup_length hgroup).symm⟩

variable {ppitchY ppitchUV outPitch outbuf : ℤ} {ptr : PlanePositions} {groups rows : ℕ}

/-- The rows that the outer loop goes through are inside. -/
def RowsInside (src : SamplePlanes) (out : BoundedCells (BitVec 32)) (ppitchY ppitchUV outPitch : ℤ)
    (groups rows : ℕ) (ptr : PlanePositions) (outbuf : ℤ) : Prop :=
  ∀ row : ℕ, row < rows →
    GroupsInside src out (ptr.row ppitchY ppitchUV row) (outbuf + row * outPitch) groups

theorem rowsInside_succ :
    RowsInside src out ppitchY ppitchUV outPitch groups (rows + 1) ptr outbuf ↔
      GroupsInside src out ptr outbuf groups ∧
        RowsInside src out ppitchY ppitchUV outPitch groups rows (ptr.advance ppitchY ppitchUV)
          (outbuf + outPitch) := by
  have hsucc (row : ℕ) :
      outbuf + outPitch + row * outPitch = outbuf + (row + 1 : ℕ) * outPitch := by
    push_cast
    ring
  constructor
  · intro h
    refine ⟨by simpa using h 0 (by omega), fun row hrow => ?_⟩
    have hnext := h (row + 1) (by omega)
    rwa [PlanePositions.row_succ, ← hsucc] at hnext
  · rintro ⟨hfirst, hrest⟩ row hrow
    cases row with
    | zero => simpa using hfirst
    | succ row =>
      have hnext := hrest row (by omega)
      rwa [PlanePositions.row_succ, ← hsucc]

/-- What the outer loop has written. The words of a row behind its pitch are those of the rows
after it. -/
structure PackedRows (src : SamplePlanes) (ppitchY ppitchUV outPitch : ℤ) (groups rows : ℕ)
    (ptr : PlanePositions) (outbuf : ℤ) (out out' : BoundedCells (BitVec 32)) : Prop where
  words : ∀ row < rows, ∀ k < groups, 4 * (k + 1 : ℤ) ≤ outPitch →
    out'.Lists (outbuf + row * outPitch + 4 * k)
      (packedWords src ((ptr.row ppitchY ppitchUV row).advance (6 * k) (3 * k)))
  before : ∀ i < outbuf, out'.cell i = out.cell i
  length_eq : out'.length = out.length

theorem packRows_of_inside (hpitch : 0 ≤ outPitch)
    (h : RowsInside src out ppitchY ppitchUV outPitch groups rows ptr outbuf) :
    ∃ out', packRows src ppitchY ppitchUV outPitch groups rows ptr outbuf out = some out' ∧
      PackedRows src ppitchY ppitchUV outPitch groups rows ptr outbuf out out' := by
  induction rows generalizing ptr outbuf out with
  | zero =>
    exact ⟨out, rfl, fun row hrow => absurd hrow (Nat.not_lt_zero row), fun _ _ => rfl, rfl⟩
  | succ rows ih =>
    obtain ⟨hfirst, hrest⟩ := rowsInside_succ.mp h
    obtain ⟨mid, hmid, hline⟩ := packLine_of_inside hfirst
    obtain ⟨out', hout', hrows⟩ :=
      ih (fun row hrow => (hrest row hrow).congr hline.writesOnly.length_eq)
    refine ⟨out', ?_, fun row hrow k hk hinside => ?_, fun i hi => ?_, ?_⟩
    · rw [packRows, hmid]
      exact hout'
    · cases row with
      | zero =>
        have hlists : out'.Lists (outbuf + 4 * k)
            (packedWords src (ptr.advance (6 * k) (3 * k))) := by
          intro j hj
          have hfour : (packedWords src (ptr.advance (6 * k) (3 * k))).length = 4 := rfl
          -- The later rows begin behind the words of this group.
          rw [hrows.before (outbuf + 4 * k + j) (by omega)]
          exact hline.words k hk j hj
        simpa using hlists
      | succ row =>
        have hlists := hrows.words row (by omega) k hk hinside
        have hsucc : outbuf + outPitch + row * outPitch = outbuf + (row + 1 : ℕ) * outPitch := by
          push_cast
          ring
        rwa [hsucc, ← PlanePositions.row_succ] at hlists
    · rw [hrows.before i (by omega), hline.writesOnly.cell_eq i (by omega)]
    · rw [hrows.length_eq, hline.writesOnly.length_eq]

theorem inside_of_packRows
    (h : packRows src ppitchY ppitchUV outPitch groups rows ptr outbuf out = some out') :
    RowsInside src out ppitchY ppitchUV outPitch groups rows ptr outbuf := by
  induction rows generalizing ptr outbuf out with
  | zero => exact fun row hrow => absurd hrow (Nat.not_lt_zero row)
  | succ rows ih =>
    rw [packRows, Option.bind_eq_bind, Option.bind_eq_some_iff] at h
    obtain ⟨mid, hline, hrest⟩ := h
    have hfirst := inside_of_packLine hline
    obtain ⟨mid', hmid', hlength⟩ := packLine_of_inside hfirst
    obtain rfl : mid = mid' := Option.some.inj (hline.symm.trans hmid')
    exact rowsInside_succ.mpr
      ⟨hfirst, fun row hrow => (ih hrest row hrow).congr hlength.writesOnly.length_eq.symm⟩

/-- The encoder succeeds where its rows are inside. -/
theorem isSome_packRows_iff (hpitch : 0 ≤ outPitch) :
    (packRows src ppitchY ppitchUV outPitch groups rows ptr outbuf out).isSome ↔
      RowsInside src out ppitchY ppitchUV outPitch groups rows ptr outbuf := by
  constructor
  · intro h
    obtain ⟨out', hout'⟩ := Option.isSome_iff_exists.mp h
    exact inside_of_packRows hout'
  · intro h
    obtain ⟨out', hout', -⟩ := packRows_of_inside hpitch h
    exact Option.isSome_iff_exists.mpr ⟨out', hout'⟩

/-- From the beginning of the memory downwards, the last row decides. -/
theorem rowsInside_iff (hY : 0 ≤ ppitchY) (hUV : 0 ≤ ppitchUV) (hpitch : 0 ≤ outPitch)
    (hgroups : 0 < groups) :
    RowsInside src out ppitchY ppitchUV outPitch groups (rows + 1) ⟨0, 0, 0⟩ 0 ↔
      rows * ppitchY + 6 * groups ≤ src.y.length ∧
        rows * ppitchUV + 3 * groups ≤ src.u.length ∧
        rows * ppitchUV + 3 * groups ≤ src.v.length ∧
        rows * outPitch + 4 * groups ≤ out.length := by
  constructor
  · intro h
    obtain ⟨hy, hu, hv, ho⟩ := h rows (by omega)
    simp only [Has, PlanePositions.row, PlanePositions.advance] at hy hu hv ho
    omega
  · rintro ⟨hy, hu, hv, ho⟩ row hrow
    have hle : (row : ℤ) ≤ rows := by omega
    have hrowY : row * ppitchY ≤ rows * ppitchY := Int.mul_le_mul_of_nonneg_right hle hY
    have hrowUV : row * ppitchUV ≤ rows * ppitchUV := Int.mul_le_mul_of_nonneg_right hle hUV
    have hrowOut : row * outPitch ≤ rows * outPitch := Int.mul_le_mul_of_nonneg_right hle hpitch
    have hposY : 0 ≤ row * ppitchY := Int.mul_nonneg (by omega) hY
    have hposUV : 0 ≤ row * ppitchUV := Int.mul_nonneg (by omega) hUV
    have hposOut : 0 ≤ row * outPitch := Int.mul_nonneg (by omega) hpitch
    constructor <;> simp only [Has, PlanePositions.row, PlanePositions.advance] <;> omega

end Encoder

/-!
## The memory that the encoder of `v210` uses

A row has a group for every six pixels, and the encoder makes one more. Whether this group is
inside depends on what is left of the rows of the planes and of the destination.
-/

open PixelType Alignment

/-- The size of a bitmap in `v210`. -/
theorem imageSize_v210 {width : ℤ} (height : ℤ) (aviPadScanlines : Bool) (hpos : 0 < width)
    (hwidth : width < 2 ^ 31 - 5) :
    aviHelperImageSize i32 ⟨width, height, csYUV422P10⟩ aviPadScanlines { v210 := true } =
      .ok (i32 (v210Pitch width * height)) := by
  rw [v210Pitch, i32_of_range (x := width + 5) (by omega) (by omega)]
  rfl

/-- There is room for the group that is too many: in the rows of the three planes and of the
bitmap, whose size is an int. -/
def V210Fits (width height : ℤ) : Prop :=
  let r := width % 96
  (2 ≤ r ∧ r ≤ 24 ∨ 34 ≤ r ∧ r ≤ 42 ∨ 50 ≤ r ∧ r ≤ 54 ∨ 66 ≤ r ∧ r ≤ 90) ∧
    128 * ((width + 47) / 48) * height < 2 ^ 31

variable {src : SamplePlanes} {out : BoundedCells (BitVec 32)} {width height size : ℤ}

/-- The last group is in the rows. -/
theorem lastGroup_iff (heven : width % 2 = 0) :
    6 * ((width + 5) / 6 + 1) ≤ roundUp (2 * width) 64 / 2 ∧
        3 * ((width + 5) / 6 + 1) ≤ roundUp width 64 / 2 ∧
        4 * ((width + 5) / 6 + 1) ≤ 32 * ((width + 47) / 48) ↔
      (2 ≤ width % 96 ∧ width % 96 ≤ 24 ∨ 34 ≤ width % 96 ∧ width % 96 ≤ 42 ∨
        50 ≤ width % 96 ∧ width % 96 ≤ 54 ∨ 66 ≤ width % 96 ∧ width % 96 ≤ 90) := by
  unfold roundUp
  omega

/-- A product that 31 bits do not hold is reduced by a full turn at least. -/
theorem i32_le_of_overflow {x : ℤ} (h : 2 ^ 31 ≤ x) : i32 x ≤ x - 2 ^ 32 := by
  have hdvd : (2 ^ 32 : ℤ) ∣ i32 x - x := Int.dvd_bmod_sub_self
  have hlt := i32_lt x
  omega

/-- The samples of rows that have whole samples. -/
theorem samples_of_rows {pitch rows : ℤ} (heven : pitch % 2 = 0) :
    pitch * (rows + 1) / 2 = rows * (pitch / 2) + pitch / 2 := by
  obtain ⟨m, rfl⟩ : ∃ m, pitch = 2 * m := ⟨pitch / 2, by omega⟩
  rw [mul_assoc, Int.mul_ediv_cancel_left _ (by decide), Int.mul_ediv_cancel_left _ (by decide)]
  ring

/-- Rows of an int, in a bitmap of an int. -/
theorem words_inside_iff {units words : ℤ} {rows : ℕ} (hunits : 0 ≤ units)
    (hpitch : 128 * units < 2 ^ 31) (hwords : 0 ≤ words) :
    rows * (32 * units) + words ≤ i32 (128 * units * (rows + 1)) / 4 ↔
      words ≤ 32 * units ∧ 128 * units * (rows + 1) < 2 ^ 31 := by
  have hbytes : 128 * units * (rows + 1) = 4 * (rows * (32 * units)) + 128 * units := by ring
  have hrows : 0 ≤ (rows : ℤ) * (32 * units) := Int.mul_nonneg (by omega) (by omega)
  by_cases hfits : 128 * units * (rows + 1) < 2 ^ 31
  · rw [i32_of_range (by omega) hfits]
    omega
  · have hover := i32_le_of_overflow (x := 128 * units * (rows + 1)) (by omega)
    omega

/-- A row of more words than an int counts bytes is in no bitmap. -/
theorem not_inside_of_overflow (hwidth : 805306320 < width) (hmax : width ≤ 2 ^ 30 - 32)
    (height : ℤ) : i32 (v210Pitch width * height) / 4 < 4 * ((width + 5) / 6 + 1) := by
  have hunits : (128 : ℤ) ∣ v210Pitch width := Int.dvd_self_sub_emod
  have hrows : (128 : ℤ) ∣ v210Pitch width * height := hunits.mul_right height
  have hturns : (2 ^ 32 : ℤ) ∣ i32 (v210Pitch width * height) - v210Pitch width * height :=
    Int.dvd_bmod_sub_self
  have hlt := i32_lt (v210Pitch width * height)
  omega

/-- The encoder stays inside of planes with rows of whole 64 bytes, and of a bitmap of the
announced size, exactly where the group that is too many has room. -/
theorem v210_inside_iff (hpos : 0 < width) (heven : width % 2 = 0)
    (hpitch : roundUp (2 * width) 64 < 2 ^ 31) (hheight : 0 < height)
    (aviPadScanlines : Bool)
    (hsize : aviHelperImageSize i32 ⟨width, height, csYUV422P10⟩ aviPadScanlines
      { v210 := true } = .ok size)
    (hy : src.y.length = roundUp (2 * width) 64 * height / 2)
    (hu : src.u.length = roundUp width 64 * height / 2)
    (hv : src.v.length = roundUp width 64 * height / 2) (hout : out.length = size / 4) :
    (yuv422p10ToV210 src out (roundUp (2 * width) 64) (roundUp width 64) width height).isSome ↔
      V210Fits width height := by
  have hwidth : width ≤ 2 ^ 30 - 32 := by
    unfold roundUp at hpitch
    omega
  rw [imageSize_v210 height aviPadScanlines hpos (by omega)] at hsize
  obtain rfl := Except.ok.inj hsize
  obtain ⟨rows, hrows⟩ : ∃ rows : ℕ, height = rows + 1 := ⟨(height - 1).toNat, by omega⟩
  have hgroups := rounds_v210 hpos (by omega) heven
  have hpitchY : samplePitch (roundUp (2 * width) 64) = roundUp (2 * width) 64 / 2 :=
    samplePitch_of_range (by unfold roundUp; omega) (by omega)
  have hpitchUV : samplePitch (roundUp width 64) = roundUp width 64 / 2 :=
    samplePitch_of_range (by unfold roundUp; omega) (by unfold roundUp at *; omega)
  have hevenY : roundUp (2 * width) 64 % 2 = 0 := by
    unfold roundUp
    omega
  have hevenUV : roundUp width 64 % 2 = 0 := by
    unfold roundUp
    omega
  rw [hrows, samples_of_rows hevenY] at hy
  rw [hrows, samples_of_rows hevenUV] at hu hv
  have hheight' : height.toNat = rows + 1 := by omega
  have hfits : V210Fits width height ↔
      (6 * ((width + 5) / 6 + 1) ≤ roundUp (2 * width) 64 / 2 ∧
        3 * ((width + 5) / 6 + 1) ≤ roundUp width 64 / 2 ∧
        4 * ((width + 5) / 6 + 1) ≤ 32 * ((width + 47) / 48)) ∧
      128 * ((width + 47) / 48) * (rows + 1) < 2 ^ 31 := by
    rw [V210Fits, lastGroup_iff heven, hrows]
  unfold yuv422p10ToV210
  rw [hfits, hheight', hpitchY, hpitchUV]
  by_cases hsmall : width ≤ 805306320
  · have hpitch' : v210Pitch width / 4 = 32 * ((width + 47) / 48) := by
      rw [v210Pitch_of_range hpos hsmall]
      omega
    rw [hpitch', isSome_packRows_iff (by omega), rowsInside_iff (by unfold roundUp; omega)
      (by unfold roundUp; omega) (by omega) (by omega), hgroups, hy, hu, hv, hout, hrows,
      v210Pitch_of_range hpos hsmall, words_inside_iff (by omega) (by omega) (by omega)]
    omega
  · have hover := not_inside_of_overflow (by omega) hwidth height
    constructor
    · intro hsome
      obtain ⟨out', hout'⟩ := Option.isSome_iff_exists.mp hsome
      obtain ⟨-, -, -, ho⟩ := inside_of_packRows hout' 0 (by omega)
      rw [Has] at ho
      omega
    · rintro ⟨-, hbytes⟩
      have hrow : 128 * ((width + 47) / 48) * 1 ≤ 128 * ((width + 47) / 48) * (rows + 1) :=
        Int.mul_le_mul_of_nonneg_left (by omega) (by omega)
      omega

/-- The encoder in three rows of eight pixels. -/
theorem v210_inside_eight :
    (yuv422p10ToV210 ⟨⟨96, fun _ => 0⟩, ⟨96, fun _ => 0⟩, ⟨96, fun _ => 0⟩⟩ ⟨96, fun _ => 0⟩
      64 64 8 3).isSome ↔ V210Fits 8 3 := by
  have hY : roundUp (2 * 8) 64 = 64 := by decide
  have hUV : roundUp 8 64 = 64 := by decide
  have hsize : aviHelperImageSize i32 ⟨8, 3, csYUV422P10⟩ false { v210 := true } = .ok 384 := rfl
  have hinside := @v210_inside_iff ⟨⟨96, fun _ => 0⟩, ⟨96, fun _ => 0⟩, ⟨96, fun _ => 0⟩⟩
    ⟨96, fun _ => 0⟩ 8 3 384 (by decide) (by decide) (by decide) (by decide) false hsize
    (by decide) (by decide) (by decide) (by decide)
  rwa [hY, hUV] at hinside

/-- 48 pixels fill a row of the bitmap: the group that is too many is written behind it. -/
theorem not_v210_inside_48 :
    aviHelperImageSize i32 ⟨48, 1, csYUV422P10⟩ false { v210 := true } = .ok 128 ∧
      (yuv422p10ToV210 ⟨⟨64, fun _ => 0⟩, ⟨32, fun _ => 0⟩, ⟨32, fun _ => 0⟩⟩
        ⟨128 / 4, fun _ => 0⟩ 128 64 48 1).isSome = false :=
  ⟨rfl, by decide +kernel⟩

end AviSynth
