import AviSynth.Filters.FrameClip
import Mathlib.Data.Finset.Card
import Mathlib.Data.List.Sort

/-!
# Lists of frames to delete or to duplicate

`DeleteFrame` and `DuplicateFrame` take a list of frames, which they sort in place and then
delete or duplicate one by one, from the last to the first. The sort of `DeleteFrame` puts
`INT_MAX` for a frame that is listed again and counts it out. An `INT_MAX` that a later
frame pushes onto another one is counted out once more, so that frames at the end of the
list are kept.
-/

namespace AviSynth

open MachineInt

variable {F : Type*} {rest : List ℤ}

def intMax : ℤ := 2 ^ 31 - 1

/-- The inner loop of `DeleteFrame::Create`, where the entry that goes through the sorted ones
is the last one. The second result tells whether it was equal to one of them. -/
def bubbleDistinct : List ℤ → ℤ → List ℤ × Bool
  | [], entry => ([entry], false)
  | x :: rest, entry =>
    if entry = x then (x :: rest ++ [intMax], true)
    else if entry < x then (entry :: (bubbleDistinct rest x).1, (bubbleDistinct rest x).2)
    else (x :: (bubbleDistinct rest entry).1, (bubbleDistinct rest entry).2)

/-- A round of the outer loop, with `m`. -/
def insertDistinct (sorted : List ℤ × ℤ) (entry : ℤ) : List ℤ × ℤ :=
  ((bubbleDistinct sorted.1 entry).1,
    if (bubbleDistinct sorted.1 entry).2 then sorted.2 - 1 else sorted.2)

/-- `DeleteFrame::Create`. -/
def deleteFrames (child : FrameClip F) (listed : List ℤ) : Except String (FrameClip F) :=
  if listed.any fun f => f < 0 ∨ child.numFrames ≤ f then
    .error "DeleteFrame: frame index out of bounds"
  else
    let (frames, m) := listed.foldl insertDistinct ([], listed.length - 1)
    if child.numFrames - (m + 1) ≤ 0 then
      .error "DeleteFrame: cannot delete all frames from a clip"
    else .ok ((frames.take (m + 1).toNat).foldr deleteFrame child)

/-- The inner loop of `DuplicateFrame::Create`. -/
def bubble : List ℤ → ℤ → List ℤ
  | [], entry => [entry]
  | x :: rest, entry => if entry < x then entry :: bubble rest x else x :: bubble rest entry

/-- `DuplicateFrame::Create`. -/
def duplicateFrames (child : FrameClip F) (listed : List ℤ) : Except String (FrameClip F) :=
  if listed.any fun f => f < 0 ∨ child.numFrames ≤ f then
    .error "DuplicateFrame: frame index out of bounds"
  else .ok ((listed.foldl bubble []).foldr duplicateFrame child)

/-! ### What the results are to be -/

/-- The frames that are not listed. -/
def remaining (count : ℕ) (listed : List ℤ) : List ℕ :=
  (List.range count).filter fun n : ℕ => (n : ℤ) ∉ listed

/-- Each frame, and once more for each time that it is listed. -/
def repeated (count : ℕ) (listed : List ℤ) : List ℕ :=
  (List.range count).flatMap fun n : ℕ => List.replicate (1 + listed.count (n : ℤ)) n

/-- The listed frames are deleted, unless that would leave no frame. -/
def Deletes (child : FrameClip F) (listed : List ℤ) (result : Except String (FrameClip F)) :
    Prop :=
  if remaining child.numFrames.toNat listed = [] then
    result = .error "DeleteFrame: cannot delete all frames from a clip"
  else ∃ clip, result = .ok clip ∧
    clip.content = (remaining child.numFrames.toNat listed).map fun n : ℕ => child.getFrame n

/-- The listed frames are duplicated. -/
def Duplicates (child : FrameClip F) (listed : List ℤ) (result : Except String (FrameClip F)) :
    Prop :=
  ∃ clip, result = .ok clip ∧
    clip.content = (repeated child.numFrames.toNat listed).map fun n : ℕ => child.getFrame n

/-- At most one repetition comes before a frame that is listed for the first time. -/
def RepeatsLate (listed : List ℤ) : Prop :=
  ∀ n, (h : n < listed.length) → listed[n] ∉ listed.take n →
    n ≤ (listed.take n).toFinset.card + 1

/-! ### One frame after the other -/

theorem range_split {d count : ℕ} (h : d < count) :
    List.range count = List.range d ++ d :: List.range' (d + 1) (count - d - 1) := by
  have hcount : count = d + (count - d - 1 + 1) := by omega
  calc List.range count = List.range' 0 (d + (count - d - 1 + 1)) := by
        rw [← hcount, List.range_eq_range']
    _ = List.range' 0 d ++ List.range' (0 + d) (count - d - 1 + 1) :=
        List.range'_append_1.symm
    _ = _ := by rw [List.range_eq_range', Nat.zero_add, List.range'_succ]

/-- The least listed frame goes after the others. -/
theorem remaining_cons {d count : ℕ} (hd : d < count) (hrest : ∀ x ∈ rest, (d : ℤ) < x) :
    remaining count (d :: rest) = (remaining count rest).eraseIdx d := by
  have hnot : (d : ℤ) ∉ rest := fun h => lt_irrefl _ (hrest _ h)
  have hbefore : ∀ listed : List ℤ, (∀ x ∈ listed, (d : ℤ) ≤ x) →
      (List.range d).filter (fun n : ℕ => (n : ℤ) ∉ listed) = List.range d := by
    intro listed hlisted
    refine List.filter_eq_self.mpr fun n hn => decide_eq_true fun hmem => ?_
    have hle := hlisted _ hmem
    have hlt := List.mem_range.mp hn
    omega
  have hbehind : (List.range' (d + 1) (count - d - 1)).filter
        (fun n : ℕ => (n : ℤ) ∉ ↑d :: rest) =
      (List.range' (d + 1) (count - d - 1)).filter (fun n : ℕ => (n : ℤ) ∉ rest) := by
    refine List.filter_congr fun n hn => ?_
    have hlt := (List.mem_range'_1.mp hn).1
    simp only [List.mem_cons, not_or, decide_eq_decide, and_iff_right_iff_imp]
    omega
  have hle : ∀ x ∈ rest, (d : ℤ) ≤ x := fun x hx => (hrest x hx).le
  rw [remaining, remaining, range_split hd, List.filter_append, List.filter_append,
    hbefore rest hle, hbefore (d :: rest) (by simpa using hle),
    List.filter_cons_of_neg (by simp), List.filter_cons_of_pos (by simpa using hnot), hbehind,
    List.eraseIdx_append_of_length_le (by simp)]
  simp

theorem insertIdx_length_append {α : Type*} (l l' : List α) (x : α) :
    (l ++ l').insertIdx l.length x = l ++ x :: l' := by
  induction l with
  | nil => rfl
  | cons y l ih => rw [List.cons_append, List.length_cons, List.insertIdx_succ_cons, ih]; rfl

/-- The least listed frame is duplicated after the others. -/
theorem repeated_cons {d count : ℕ} (hd : d < count) (hrest : ∀ x ∈ rest, (d : ℤ) ≤ x) :
    repeated count (d :: rest) = (repeated count rest).insertIdx d d := by
  have hbefore : ∀ listed : List ℤ, (∀ x ∈ listed, (d : ℤ) ≤ x) →
      (List.range d).flatMap (fun n : ℕ => List.replicate (1 + listed.count (n : ℤ)) n) =
        List.range d := by
    intro listed hlisted
    calc (List.range d).flatMap (fun n : ℕ => List.replicate (1 + listed.count (n : ℤ)) n)
        = (List.range d).flatMap (fun n => [n]) := by
          refine List.flatMap_congr fun n hn => ?_
          have hcount : listed.count (n : ℤ) = 0 := by
            refine List.count_eq_zero.mpr fun hmem => ?_
            have hle := hlisted _ hmem
            have hlt := List.mem_range.mp hn
            omega
          rw [hcount]
          rfl
      _ = List.range d := by simp
  have hbehind : (List.range' (d + 1) (count - d - 1)).flatMap
        (fun n : ℕ => List.replicate (1 + (↑d :: rest).count (n : ℤ)) n) =
      (List.range' (d + 1) (count - d - 1)).flatMap
        (fun n : ℕ => List.replicate (1 + rest.count (n : ℤ)) n) := by
    refine List.flatMap_congr fun n hn => ?_
    have hlt := (List.mem_range'_1.mp hn).1
    rw [List.count_cons_of_ne (by omega)]
  rw [repeated, repeated, range_split hd, List.flatMap_append, List.flatMap_append,
    hbefore rest hrest, hbefore (d :: rest) (by simpa using hrest), List.flatMap_cons,
    List.flatMap_cons, hbehind, List.count_cons_self]
  have hinsert := insertIdx_length_append (List.range d)
    (List.replicate (1 + rest.count (d : ℤ)) d ++ (List.range' (d + 1) (count - d - 1)).flatMap
      fun n : ℕ => List.replicate (1 + rest.count (n : ℤ)) n) d
  rw [List.length_range] at hinsert
  rw [hinsert, ← Nat.add_assoc, List.replicate_succ, List.cons_append]

/-- Frames in order leave room for those behind them. -/
theorem add_length_lt {d N : ℤ} (hsorted : (d :: rest).Pairwise (· < ·))
    (hrange : ∀ x ∈ d :: rest, x < N) : d + rest.length < N := by
  induction rest generalizing d with
  | nil => simpa using hrange d (by simp)
  | cons x rest ih =>
    obtain ⟨hd, hrest⟩ := List.pairwise_cons.mp hsorted
    have hx := hd x (by simp)
    have hlt := ih hrest fun y hy => hrange y (by simp [List.mem_cons.mp hy])
    rw [List.length_cons]
    push_cast
    omega

variable {child : FrameClip F} {ds : List ℤ} {listed : List ℤ}

/-- Frames deleted from the last to the first. -/
theorem foldr_deleteFrame (hcount : child.numFrames < 2 ^ 31) (hsorted : ds.Pairwise (· < ·))
    (hrange : ∀ x ∈ ds, 0 ≤ x ∧ x < child.numFrames) :
    (ds.foldr deleteFrame child).numFrames = child.numFrames - ds.length ∧
      (ds.foldr deleteFrame child).content =
        (remaining child.numFrames.toNat ds).map fun n : ℕ => child.getFrame n := by
  induction ds with
  | nil => simp [remaining, FrameClip.content]
  | cons d rest ih =>
    obtain ⟨hlow, hhigh⟩ := hrange d (by simp)
    obtain ⟨hd, hrest⟩ := List.pairwise_cons.mp hsorted
    have hroom := add_length_lt hsorted fun x hx => (hrange x hx).2
    obtain ⟨hnum, hcontent⟩ := ih hrest fun x hx => hrange x (by simp [hx])
    obtain ⟨d, rfl⟩ := Int.eq_ofNat_of_zero_le hlow
    constructor
    · change i32 ((rest.foldr deleteFrame child).numFrames - 1) = _
      rw [hnum, i32_of_range (by omega) (by omega), List.length_cons]
      push_cast
      omega
    · rw [List.foldr_cons, FrameClip.content_deleteFrame (by omega) hlow (by omega), hcontent,
        remaining_cons (by omega) hd, List.eraseIdx_map]
      rfl

theorem numFrames_duplicated (child : FrameClip F) (hlow : 0 ≤ child.numFrames)
    (hcount : child.numFrames < 2 ^ 31) (ds : List ℤ) :
    (ds.foldr duplicateFrame child).numFrames = i32 (child.numFrames + ds.length) := by
  induction ds with
  | nil => exact (i32_of_range (by simp; omega) (by simpa using hcount)).symm.trans (by simp)
  | cons d rest ih =>
    change i32 ((rest.foldr duplicateFrame child).numFrames + 1) = _
    rw [ih, i32_i32_add, List.length_cons]
    push_cast
    rw [add_assoc]

/-- Up to the first frame that is duplicated, frames keep their numbers. -/
theorem getFrame_duplicated {d : ℤ} (hlow : 0 ≤ d) (hhigh : d < 2 ^ 31)
    (hds : ∀ x ∈ ds, d ≤ x) : (ds.foldr duplicateFrame child).getFrame d = child.getFrame d := by
  induction ds with
  | nil => rfl
  | cons x rest ih =>
    have hx := hds x (by simp)
    change (rest.foldr duplicateFrame child).getFrame (i32 (d - if x < d then 1 else 0)) = _
    rw [if_neg (by omega), sub_zero, i32_of_range (by omega) hhigh]
    exact ih fun y hy => hds y (by simp [hy])

theorem length_repeated {count : ℕ} (hsorted : ds.Pairwise (· ≤ ·))
    (hrange : ∀ x ∈ ds, 0 ≤ x ∧ x < count) : (repeated count ds).length = count + ds.length := by
  induction ds with
  | nil => simp [repeated]
  | cons d rest ih =>
    obtain ⟨hlow, hhigh⟩ := hrange d (by simp)
    obtain ⟨hd, hrest⟩ := List.pairwise_cons.mp hsorted
    obtain ⟨d, rfl⟩ := Int.eq_ofNat_of_zero_le hlow
    have hlength := ih hrest fun x hx => hrange x (by simp [hx])
    rw [repeated_cons (by omega) hd, List.length_insertIdx_of_le_length (by omega), hlength,
      List.length_cons, Nat.add_assoc]

/-- Frames duplicated from the last to the first. -/
theorem foldr_duplicateFrame (hcount : child.numFrames + ds.length < 2 ^ 31)
    (hnonneg : 0 ≤ child.numFrames) (hsorted : ds.Pairwise (· ≤ ·))
    (hrange : ∀ x ∈ ds, 0 ≤ x ∧ x < child.numFrames) :
    (ds.foldr duplicateFrame child).content =
      (repeated child.numFrames.toNat ds).map fun n : ℕ => child.getFrame n := by
  induction ds with
  | nil => simp [repeated, FrameClip.content]
  | cons d rest ih =>
    rw [List.length_cons] at hcount
    push_cast at hcount
    obtain ⟨hlow, hhigh⟩ := hrange d (by simp)
    obtain ⟨hd, hrest⟩ := List.pairwise_cons.mp hsorted
    have hnum := numFrames_duplicated child hnonneg (by omega) rest
    rw [i32_of_range (by omega) (by omega)] at hnum
    have hcontent := ih (by omega) hrest fun x hx => hrange x (by simp [hx])
    obtain ⟨d, rfl⟩ := Int.eq_ofNat_of_zero_le hlow
    rw [List.foldr_cons, FrameClip.content_duplicateFrame (by omega) hlow (by omega), hcontent,
      getFrame_duplicated hlow (by omega) hd, repeated_cons (by omega) hd, List.map_insertIdx]
    rfl

/-! ### The sorts -/

theorem bubble_perm (sorted : List ℤ) (entry : ℤ) :
    (bubble sorted entry).Perm (entry :: sorted) := by
  induction sorted generalizing entry with
  | nil => exact .refl _
  | cons x rest ih =>
    rw [bubble]
    split_ifs
    · exact (ih x).cons entry
    · exact ((ih entry).cons x).trans (.swap entry x rest)

theorem bubble_pairwise {sorted : List ℤ} (h : sorted.Pairwise (· ≤ ·)) (entry : ℤ) :
    (bubble sorted entry).Pairwise (· ≤ ·) := by
  induction sorted generalizing entry with
  | nil => exact List.pairwise_singleton _ _
  | cons x rest ih =>
    obtain ⟨hx, hrest⟩ := List.pairwise_cons.mp h
    rw [bubble]
    split_ifs with hlt
    · refine List.pairwise_cons.mpr ⟨fun y hy => ?_, ih hrest x⟩
      obtain rfl | hy := List.mem_cons.mp ((bubble_perm rest x).subset hy)
      · exact hlt.le
      · exact hlt.le.trans (hx y hy)
    · refine List.pairwise_cons.mpr ⟨fun y hy => ?_, ih hrest entry⟩
      obtain rfl | hy := List.mem_cons.mp ((bubble_perm rest entry).subset hy)
      · exact not_lt.mp hlt
      · exact hx y hy

/-- The sort of `DuplicateFrame`. -/
theorem foldl_bubble (listed : List ℤ) :
    (listed.foldl bubble []).Perm listed ∧ (listed.foldl bubble []).Pairwise (· ≤ ·) := by
  induction listed using List.reverseRecOn with
  | nil => exact ⟨.refl _, .nil⟩
  | append_singleton listed entry ih =>
    rw [List.foldl_append, List.foldl_cons, List.foldl_nil]
    refine ⟨(bubble_perm _ entry).trans ((ih.1.cons entry).trans ?_), bubble_pairwise ih.2 entry⟩
    exact (List.perm_append_singleton entry listed).symm

/-- Among the markers a frame takes the place of the first one, and that one ends up behind
the others. If there are others, it is taken for a repetition. -/
theorem bubbleDistinct_markers {entry : ℤ} (h : entry < intMax) (k : ℕ) :
    bubbleDistinct (List.replicate k intMax) entry =
      (entry :: List.replicate k intMax, decide (2 ≤ k)) := by
  cases k with
  | zero => rfl
  | succ k =>
    rw [List.replicate_succ, bubbleDistinct, if_neg h.ne, if_pos h]
    cases k with
    | zero => rfl
    | succ k =>
      rw [List.replicate_succ, bubbleDistinct, if_pos rfl, List.cons_append,
        ← List.replicate_succ']
      simp [List.replicate_succ]

/-- A new frame among the sorted ones. -/
theorem bubbleDistinct_new (hsorted : ds.Pairwise (· < ·)) (hds : ∀ x ∈ ds, x < intMax) {entry : ℤ}
    (hentry : entry < intMax) (hnew : entry ∉ ds) (k : ℕ) :
    ∃ ds', ds'.Pairwise (· < ·) ∧ (∀ y, y ∈ ds' ↔ y = entry ∨ y ∈ ds) ∧
      bubbleDistinct (ds ++ List.replicate k intMax) entry =
        (ds' ++ List.replicate k intMax, decide (2 ≤ k)) := by
  induction ds generalizing entry with
  | nil =>
    exact ⟨[entry], List.pairwise_singleton _ _, by simp, bubbleDistinct_markers hentry k⟩
  | cons x rest ih =>
    obtain ⟨hx, hrest⟩ := List.pairwise_cons.mp hsorted
    have hne : entry ≠ x := fun h => hnew (by simp [h])
    have hbound : ∀ y ∈ rest, y < intMax := fun y hy => hds y (by simp [hy])
    by_cases hlt : entry < x
    · obtain ⟨ds', hsorted', hmem, heq⟩ := ih hrest hbound (hds x (by simp))
        fun h => lt_irrefl _ (hx x h)
      refine ⟨entry :: ds', List.pairwise_cons.mpr ⟨fun y hy => ?_, hsorted'⟩, fun y => ?_, ?_⟩
      · obtain rfl | hy := (hmem y).mp hy
        · exact hlt
        · exact hlt.trans (hx y hy)
      · rw [List.mem_cons, hmem, List.mem_cons]
      · rw [List.cons_append, bubbleDistinct, if_neg hne, if_pos hlt, heq, List.cons_append]
    · obtain ⟨ds', hsorted', hmem, heq⟩ := ih hrest hbound hentry fun h => hnew (by simp [h])
      refine ⟨x :: ds', List.pairwise_cons.mpr ⟨fun y hy => ?_, hsorted'⟩, fun y => ?_, ?_⟩
      · obtain rfl | hy := (hmem y).mp hy
        · omega
        · exact hx y hy
      · rw [List.mem_cons, hmem, List.mem_cons]
        tauto
      · rw [List.cons_append, bubbleDistinct, if_neg hne, if_neg hlt, heq, List.cons_append]

/-- A frame that is there already. -/
theorem bubbleDistinct_old (hsorted : ds.Pairwise (· < ·)) {entry : ℤ} (hold : entry ∈ ds) (k : ℕ) :
    bubbleDistinct (ds ++ List.replicate k intMax) entry =
      (ds ++ List.replicate (k + 1) intMax, true) := by
  induction ds with
  | nil => simp at hold
  | cons x rest ih =>
    obtain ⟨hx, hrest⟩ := List.pairwise_cons.mp hsorted
    rw [List.cons_append, bubbleDistinct]
    by_cases heq : entry = x
    · rw [if_pos heq, List.cons_append, List.append_assoc, ← List.replicate_succ']
      rfl
    · have hmem : entry ∈ rest := (List.mem_cons.mp hold).resolve_left heq
      rw [if_neg heq, if_neg (hx entry hmem).not_gt, ih hrest hmem]
      rfl

theorem repeatsLate_append_singleton (listed : List ℤ) (entry : ℤ) :
    RepeatsLate (listed ++ [entry]) ↔ RepeatsLate listed ∧
      (entry ∉ listed → listed.length ≤ listed.toFinset.card + 1) := by
  constructor
  · intro h
    refine ⟨fun n hn hnew => ?_, fun hnew => ?_⟩
    · have hlate := h n (by rw [List.length_append]; omega)
      rw [List.getElem_append_left hn, List.take_append_of_le_length hn.le] at hlate
      exact hlate hnew
    · have hlate := h listed.length (by simp)
      rw [List.getElem_concat_length rfl, List.take_left] at hlate
      exact hlate hnew
  · rintro ⟨hlisted, hentry⟩ n hn hnew
    rw [List.length_append, List.length_singleton] at hn
    obtain hlt | rfl := Nat.lt_succ_iff_lt_or_eq.mp hn
    · rw [List.getElem_append_left hlt, List.take_append_of_le_length hlt.le] at hnew
      rw [List.take_append_of_le_length hlt.le]
      exact hlisted n hlt hnew
    · rw [List.getElem_concat_length rfl, List.take_left] at hnew
      rw [List.take_left]
      exact hentry hnew

/-- The sort of `DeleteFrame`: the frames without repetitions, then the markers. The frames
that are counted out beyond the repetitions are none just if the repetitions come late. -/
theorem foldl_insertDistinct (hlisted : ∀ x ∈ listed, x < intMax) (m : ℤ) :
    ∃ ds : List ℤ, ∃ lost : ℕ, ds.Pairwise (· < ·) ∧ (∀ y, y ∈ ds ↔ y ∈ listed) ∧
      ds.length ≤ listed.length ∧ (lost = 0 ↔ RepeatsLate listed) ∧
      listed.foldl insertDistinct ([], m) =
        (ds ++ List.replicate (listed.length - ds.length) intMax,
          m - ((listed.length - ds.length + lost : ℕ) : ℤ)) := by
  induction listed using List.reverseRecOn with
  | nil => exact ⟨[], 0, .nil, by simp, le_refl _, by simp [RepeatsLate], by simp⟩
  | append_singleton listed entry ih =>
    obtain ⟨ds, lost, hsorted, hmem, hlength, hlost, hfold⟩ :=
      ih fun x hx => hlisted x (by simp [hx])
    have hcard : listed.toFinset.card = ds.length := by
      rw [← List.toFinset_card_of_nodup (hsorted.imp fun h => h.ne)]
      congr 1
      ext y
      rw [List.mem_toFinset, List.mem_toFinset, hmem]
    rw [repeatsLate_append_singleton, hcard, List.foldl_append, List.foldl_cons, List.foldl_nil,
      hfold, insertDistinct, List.length_append, List.length_singleton]
    dsimp only
    by_cases hold : entry ∈ ds
    · -- a repetition
      rw [bubbleDistinct_old hsorted hold, if_pos rfl,
        show listed.length - ds.length + 1 = listed.length + 1 - ds.length by omega]
      refine ⟨ds, lost, hsorted, fun y => ?_, by omega, ?_, ?_⟩
      · rw [hmem, List.mem_append, List.mem_singleton, iff_self_or]
        rintro rfl
        exact (hmem y).mp hold
      · rw [hlost, ← hmem]
        tauto
      · rw [Prod.mk.injEq]
        exact ⟨rfl, by omega⟩
    · -- a new frame
      obtain ⟨ds', hsorted', hmem', hbubble⟩ := bubbleDistinct_new hsorted
        (fun x hx => hlisted x (by simp [(hmem x).mp hx])) (hlisted entry (by simp)) hold
        (listed.length - ds.length)
      have hlength' : ds'.length = ds.length + 1 := by
        have hperm : ds'.Perm (entry :: ds) := by
          refine (List.perm_ext_iff_of_nodup (hsorted'.imp fun h => h.ne)
            (List.nodup_cons.mpr ⟨hold, hsorted.imp fun h => h.ne⟩)).mpr fun y => ?_
          rw [hmem', List.mem_cons]
        exact hperm.length_eq
      rw [hbubble]
      refine ⟨ds', if 2 ≤ listed.length - ds.length then lost + 1 else lost, hsorted',
        fun y => ?_, by omega, ?_, ?_⟩
      · rw [hmem', hmem, List.mem_append, List.mem_singleton, or_comm]
      · rw [← hlost, ← hmem]
        split_ifs with htwo
        · constructor
          · exact False.elim
          · rintro ⟨-, hone⟩
            have hle := hone hold
            omega
        · constructor
          · exact fun h => ⟨h, fun _ => by omega⟩
          · exact And.left
      · rw [Prod.mk.injEq, show listed.length + 1 - ds'.length = listed.length - ds.length by omega]
        refine ⟨rfl, ?_⟩
        simp only [decide_eq_true_eq]
        split_ifs <;> omega

/-! ### The filters -/

theorem any_outOfBounds {child : FrameClip F} (hrange : ∀ f ∈ listed, 0 ≤ f ∧ f < child.numFrames) :
    (listed.any fun f => f < 0 ∨ child.numFrames ≤ f) = false := by
  refine List.any_eq_false.mpr fun f hf => ?_
  have hf := hrange f hf
  simp only [decide_eq_true_eq]
  omega

theorem length_le_of_pairwise {N : ℤ} (hnonneg : 0 ≤ N)
    (hsorted : ds.Pairwise (· < ·)) (hds : ∀ x ∈ ds, 0 ≤ x ∧ x < N) : (ds.length : ℤ) ≤ N := by
  cases ds with
  | nil => exact hnonneg
  | cons d rest =>
    have hroom := add_length_lt hsorted fun x hx => (hds x hx).2
    have hlow := (hds d (by simp)).1
    rw [List.length_cons]
    push_cast
    omega

theorem deletes_iff (hnonneg : 0 ≤ child.numFrames) (hcount : child.numFrames < 2 ^ 31)
    (hlisted : listed ≠ []) (hrange : ∀ f ∈ listed, 0 ≤ f ∧ f < child.numFrames) :
    Deletes child listed (deleteFrames child listed) ↔ RepeatsLate listed := by
  obtain ⟨ds, lost, hsorted, hmem, hlength, hlost, hfold⟩ :=
    foldl_insertDistinct (fun x hx => by have hx := hrange x hx; rw [intMax]; omega)
      ((listed.length : ℤ) - 1)
  have hds : ∀ x ∈ ds, 0 ≤ x ∧ x < child.numFrames := fun x hx => hrange x ((hmem x).mp hx)
  have hremaining : remaining child.numFrames.toNat listed =
      remaining child.numFrames.toNat ds := by
    simp only [remaining, hmem]
  obtain ⟨hnum, hcontent⟩ := foldr_deleteFrame hcount hsorted hds
  have hleft : (remaining child.numFrames.toNat ds).length =
      (child.numFrames - ds.length).toNat := by
    have hlength := FrameClip.length_content (ds.foldr deleteFrame child)
    rwa [hcontent, List.length_map, hnum] at hlength
  have hpos : 0 < ds.length := by
    obtain ⟨x, hx⟩ := List.exists_mem_of_ne_nil _ hlisted
    exact List.length_pos_of_mem ((hmem x).mpr hx)
  have hroom := length_le_of_pairwise hnonneg hsorted hds
  -- the frames that are deleted
  have htake : (ds ++ List.replicate (listed.length - ds.length) intMax).take
      (ds.length - lost) = ds.take (ds.length - lost) :=
    List.take_append_of_le_length (by omega)
  have hm : ((listed.length : ℤ) - 1 - ((listed.length - ds.length + lost : ℕ) : ℤ) + 1) =
      ds.length - lost := by omega
  rw [Deletes, hremaining, deleteFrames, any_outOfBounds hrange, hfold, ← hlost]
  simp only [Bool.false_eq_true, if_false, hm]
  rw [show ((ds.length : ℤ) - lost).toNat = ds.length - lost by omega, htake]
  constructor
  · intro h
    by_contra hne
    have hkept : ¬child.numFrames - ((ds.length : ℤ) - lost) ≤ 0 := by omega
    rw [if_neg hkept] at h
    split_ifs at h with hempty
    obtain ⟨clip, hclip, hshown⟩ := h
    cases hclip
    have hshort : ((ds.take (ds.length - lost)).foldr deleteFrame child).numFrames =
        child.numFrames - (ds.take (ds.length - lost)).length :=
      (foldr_deleteFrame hcount (hsorted.sublist (List.take_sublist _ _))
        fun x hx => hds x (List.mem_of_mem_take hx)).1
    have hcontents := congrArg List.length hshown
    rw [FrameClip.length_content, List.length_map, hleft, hshort, List.length_take] at hcontents
    omega
  · rintro rfl
    rw [Nat.sub_zero, List.take_length]
    by_cases hempty : remaining child.numFrames.toNat ds = []
    · have hzero := hleft
      rw [hempty, List.length_nil] at hzero
      rw [if_pos hempty, if_pos (by omega)]
    · have hzero : (child.numFrames - ds.length).toNat ≠ 0 := by
        rw [← hleft]
        exact fun h => hempty (List.eq_nil_of_length_eq_zero h)
      rw [if_neg hempty, if_neg (by omega)]
      exact ⟨_, rfl, hcontent⟩

theorem duplicates_iff (hnonneg : 0 ≤ child.numFrames) (hcount : child.numFrames < 2 ^ 31)
    (hrange : ∀ f ∈ listed, 0 ≤ f ∧ f < child.numFrames) :
    Duplicates child listed (duplicateFrames child listed) ↔
      child.numFrames + listed.length < 2 ^ 31 := by
  obtain ⟨hperm, hsorted⟩ := foldl_bubble listed
  have hds : ∀ x ∈ listed.foldl bubble [], 0 ≤ x ∧ x < child.numFrames :=
    fun x hx => hrange x (hperm.subset hx)
  have hrepeated : repeated child.numFrames.toNat listed =
      repeated child.numFrames.toNat (listed.foldl bubble []) := by
    simp only [repeated, hperm.count_eq]
  have hlength : (repeated child.numFrames.toNat (listed.foldl bubble [])).length =
      child.numFrames.toNat + (listed.foldl bubble []).length :=
    length_repeated hsorted fun x hx => by
      have hx := hds x hx
      omega
  have hnum := numFrames_duplicated child hnonneg hcount (listed.foldl bubble [])
  rw [hperm.length_eq] at hlength hnum
  rw [Duplicates, hrepeated, duplicateFrames, any_outOfBounds hrange]
  simp only [Bool.false_eq_true, if_false]
  constructor
  · rintro ⟨clip, hclip, hshown⟩
    cases hclip
    have hlt := i32_lt (child.numFrames + listed.length)
    have hcontents := congrArg List.length hshown
    rw [FrameClip.length_content, List.length_map, hlength, hnum] at hcontents
    omega
  · intro hfits
    exact ⟨_, rfl, foldr_duplicateFrame (by rw [hperm.length_eq]; exact hfits) hnonneg hsorted hds⟩

/-- `DeleteFrame` deletes the listed frames just if at most one repetition comes before a
frame that is listed for the first time, and `DuplicateFrame` duplicates them just if the
number of frames does not overflow. -/
theorem frameLists_meet_iff (child : FrameClip F) (hnonneg : 0 ≤ child.numFrames)
    (hcount : child.numFrames < 2 ^ 31) (listed : List ℤ) (hlisted : listed ≠ [])
    (hrange : ∀ f ∈ listed, 0 ≤ f ∧ f < child.numFrames) :
    (Deletes child listed (deleteFrames child listed) ↔ RepeatsLate listed) ∧
      (Duplicates child listed (duplicateFrames child listed) ↔
        child.numFrames + listed.length < 2 ^ 31) :=
  ⟨deletes_iff hnonneg hcount hlisted hrange, duplicates_iff hnonneg hcount hrange⟩

/-- A clip of ten frames, with a list that repeats one of them. -/
theorem frameLists_meet_ten :
    Deletes ⟨10, id⟩ [4, 7, 4, 2] (deleteFrames ⟨10, id⟩ [4, 7, 4, 2]) ∧
      Duplicates ⟨10, id⟩ [4, 7, 4, 2] (duplicateFrames ⟨10, id⟩ [4, 7, 4, 2]) := by
  obtain ⟨hdeletes, hduplicates⟩ := frameLists_meet_iff (⟨10, id⟩ : FrameClip ℤ) (by decide)
    (by decide) [4, 7, 4, 2] (by decide) (by decide)
  exact ⟨hdeletes.mpr (by unfold RepeatsLate; decide), hduplicates.mpr (by decide)⟩

/-- Frame 1 is listed three times and then frame 0: frame 1 is not deleted. -/
theorem deleteFrame_keeps_listed :
    ¬Deletes ⟨10, id⟩ [1, 1, 1, 0] (deleteFrames ⟨10, id⟩ [1, 1, 1, 0]) := by
  intro h
  have hlate : RepeatsLate [1, 1, 1, 0] :=
    (deletes_iff (by decide) (by decide) (by decide) (by decide)).mp h
  have hlast := hlate 3 (by decide) (by decide)
  revert hlast
  decide

end AviSynth
