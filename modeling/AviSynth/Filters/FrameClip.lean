import AviSynth.Library.MachineInt
import Mathlib.Data.List.InsertIdx
import Mathlib.Data.List.Range

/-!
# Clips as sequences of frames

A filter that edits a clip answers a request for a frame by a request to its child for
another one. What a clip shows is the list of its frames, from the first to the last.
-/

namespace AviSynth

open MachineInt

/-- A clip, by its number of frames and what it gets for a request. `F` stands for the
frames, with their parity. -/
structure FrameClip (F : Type*) where
  numFrames : ℤ
  getFrame : ℤ → F

namespace FrameClip

variable {F : Type*}

/-- The frames of the clip. -/
def content (c : FrameClip F) : List F :=
  (List.range c.numFrames.toNat).map fun n : ℕ => c.getFrame n

@[simp] theorem length_content (c : FrameClip F) : c.content.length = c.numFrames.toNat := by
  simp [content]

theorem getElem?_content (c : FrameClip F) (n : ℕ) :
    c.content[n]? = if (n : ℤ) < c.numFrames then some (c.getFrame n) else none := by
  rw [content, List.getElem?_map]
  split_ifs with h
  · rw [List.getElem?_range (by omega), Option.map_some]
  · rw [List.getElem?_eq_none (by rw [List.length_range]; omega), Option.map_none]

end FrameClip

/-- `DeleteFrame`. -/
def deleteFrame {F : Type*} (frame : ℤ) (child : FrameClip F) : FrameClip F where
  numFrames := i32 (child.numFrames - 1)
  getFrame n := child.getFrame (i32 (n + if frame ≤ n then 1 else 0))

/-- `DuplicateFrame`. -/
def duplicateFrame {F : Type*} (frame : ℤ) (child : FrameClip F) : FrameClip F where
  numFrames := i32 (child.numFrames + 1)
  getFrame n := child.getFrame (i32 (n - if frame < n then 1 else 0))

namespace FrameClip

variable {F : Type*} {c : FrameClip F} {frame : ℤ}

/-- A deleted frame is gone. -/
theorem content_deleteFrame (hcount : c.numFrames < 2 ^ 31) (hlow : 0 ≤ frame)
    (hhigh : frame < c.numFrames) :
    (deleteFrame frame c).content = c.content.eraseIdx frame.toNat := by
  have hnum : (deleteFrame frame c).numFrames = c.numFrames - 1 :=
    i32_of_range (by omega) (by omega)
  refine List.ext_getElem? fun n => ?_
  rw [getElem?_content, hnum, List.getElem?_eraseIdx, getElem?_content, getElem?_content]
  by_cases hbefore : n < frame.toNat
  · have hget : (deleteFrame frame c).getFrame n = c.getFrame n := by
      change c.getFrame (i32 (n + if frame ≤ n then 1 else 0)) = _
      rw [if_neg (by omega), i32_of_range (by omega) (by omega), add_zero]
    rw [if_pos (by omega), if_pos hbefore, if_pos (by omega), hget]
  · rw [if_neg hbefore]
    by_cases hin : (n : ℤ) < c.numFrames - 1
    · have hget : (deleteFrame frame c).getFrame n = c.getFrame ((n + 1 : ℕ) : ℤ) := by
        change c.getFrame (i32 (n + if frame ≤ n then 1 else 0)) = _
        rw [if_pos (by omega), i32_of_range (by omega) (by omega)]
        rfl
      rw [if_pos hin, if_pos (by omega), hget]
    · rw [if_neg hin, if_neg (by omega)]

/-- A duplicated frame is there once more. -/
theorem content_duplicateFrame (hcount : c.numFrames + 1 < 2 ^ 31) (hlow : 0 ≤ frame)
    (hhigh : frame < c.numFrames) :
    (duplicateFrame frame c).content = c.content.insertIdx frame.toNat (c.getFrame frame) := by
  have hnum : (duplicateFrame frame c).numFrames = c.numFrames + 1 :=
    i32_of_range (by omega) (by omega)
  refine List.ext_getElem? fun n => ?_
  rw [getElem?_content, hnum, List.getElem?_insertIdx, getElem?_content, getElem?_content,
    length_content]
  by_cases hupto : (n : ℤ) ≤ frame
  · have hget : (duplicateFrame frame c).getFrame n = c.getFrame n := by
      change c.getFrame (i32 (n - if frame < n then 1 else 0)) = _
      rw [if_neg (by omega), i32_of_range (by omega) (by omega), sub_zero]
    rw [if_pos (by omega), hget]
    by_cases hbefore : n < frame.toNat
    · rw [if_pos hbefore, if_pos (by omega)]
    · have hn : (n : ℤ) = frame := by omega
      rw [if_neg hbefore, if_pos (by omega), if_pos (by omega), hn]
  · by_cases hin : (n : ℤ) < c.numFrames + 1
    · have hget : (duplicateFrame frame c).getFrame n = c.getFrame ((n - 1 : ℕ) : ℤ) := by
        change c.getFrame (i32 (n - if frame < n then 1 else 0)) = _
        rw [if_pos (by omega), i32_of_range (by omega) (by omega)]
        congr 1
        omega
      rw [if_pos hin, if_neg (by omega), if_neg (by omega), if_pos (by omega), hget]
    · rw [if_neg hin, if_neg (by omega), if_neg (by omega), if_neg (by omega)]

end FrameClip

end AviSynth
