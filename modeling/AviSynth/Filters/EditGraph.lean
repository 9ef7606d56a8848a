import AviSynth.Filters.FrameLists
import AviSynth.Filters.Loop
import AviSynth.Filters.Trim

/-!
# Edits of edits

A script edits clips that are edited already, so a request for a frame goes through a graph of
filters that all move it. What the graph shows is computed here from the lists of frames that the
sources show.
-/

namespace AviSynth

open MachineInt

variable {F : Type*}

/-! ### The other filters -/

/-- `FreezeFrame`. -/
def freezeFrame (first last source : ℤ) (child : FrameClip F) : Except String (FrameClip F) :=
  if first < 0 ∨ child.numFrames ≤ first ∨ last < 0 ∨ child.numFrames ≤ last ∨ source < 0 ∨
      child.numFrames ≤ source then
    .error "FreezeFrame: frame index out of bounds"
  else .ok
    { numFrames := child.numFrames
      getFrame := fun n => child.getFrame (if first ≤ n ∧ n ≤ last then source else n) }

/-- The frames of `Splice`, behind the checks that the clips are of one kind. -/
def splice (child child2 : FrameClip F) : Except String (FrameClip F) :=
  let videoSwitchoverPoint := child.numFrames
  let numFrames := i32 (child.numFrames + child2.numFrames)
  if numFrames < 0 then .error "Splice: Maximum number of frames exceeded."
  else .ok
    { numFrames
      getFrame := fun n =>
        if n < videoSwitchoverPoint then child.getFrame n
        else child2.getFrame (i32 (n - videoSwitchoverPoint)) }

/-- `Reverse`. -/
def reverse (child : FrameClip F) : FrameClip F where
  numFrames := child.numFrames
  getFrame n := child.getFrame (i32 (i32 (child.numFrames - n) - 1))

/-- The frames of `Loop`. -/
def Loop.clip (l : Loop) (child : FrameClip F) : FrameClip F where
  numFrames := l.viNumFrames
  getFrame n := child.getFrame (l.convert n)

/-- A clip with nothing to be heard. -/
def FrameClip.silent (c : FrameClip F) : FilmClip F Unit where
  toFrameClip := c
  vi := ⟨true, 0, 0, 1⟩
  numAudioSamples := 0
  audio := .source fun _ => ()

/-! ### Graphs -/

/-- What a script writes. -/
inductive EditGraph (F : Type*)
  | source (clip : FrameClip F)
  | trim (first last : ℤ) (padaudio : Bool) (mode : TrimMode) (child : EditGraph F)
  | freezeFrame (first last source : ℤ) (child : EditGraph F)
  | deleteFrame (listed : List ℤ) (child : EditGraph F)
  | duplicateFrame (listed : List ℤ) (child : EditGraph F)
  | splice (child child2 : EditGraph F)
  | reverse (child : EditGraph F)
  | loop (times first last : ℤ) (child : EditGraph F)

namespace EditGraph

/-- The filters of the graph accept their clips, and this one comes out. -/
inductive Opens : EditGraph F → FrameClip F → Prop
  | source (clip : FrameClip F) : Opens (.source clip) clip
  | trim {g c first last padaudio mode film} : Opens g c →
      AviSynth.trim first last padaudio c.silent mode = .ok film →
      Opens (.trim first last padaudio mode g) film.toFrameClip
  | freezeFrame {g c c' first last source} : Opens g c →
      AviSynth.freezeFrame first last source c = .ok c' →
      Opens (.freezeFrame first last source g) c'
  | deleteFrame {g c c' listed} : Opens g c → listed ≠ [] →
      deleteFrames c listed = .ok c' → Opens (.deleteFrame listed g) c'
  | duplicateFrame {g c c' listed} : Opens g c → listed ≠ [] →
      duplicateFrames c listed = .ok c' → Opens (.duplicateFrame listed g) c'
  | splice {g g2 c c2 c'} : Opens g c → Opens g2 c2 →
      AviSynth.splice c c2 = .ok c' → Opens (.splice g g2) c'
  | reverse {g c} : Opens g c → Opens (.reverse g) (AviSynth.reverse c)
  | loop {g c} (l : Loop) : Opens g c → l.numFrames = c.numFrames →
      Opens (.loop l.times l.argStart l.argEnd g) (l.clip c)

/-! ### What a graph shows -/

/-- The frames from `first` to `last`. -/
def range (first last : ℤ) (xs : List F) : List F :=
  (xs.drop first.toNat).take (last + 1 - first).toNat

/-- The frames at some places. -/
def pick (places : List ℕ) (xs : List F) : List F := places.filterMap fun n => xs[n]?

/-- The places where a range is repeated; forever stands for ten million frames. -/
def looped (times first length : ℤ) (count : ℕ) : List ℕ :=
  (List.range (if times < 0 then 10000000 else count + (times - 1) * length).toNat).map
    fun n : ℕ => (Loop.sourceIndex times first length n).toNat

/-- The frames that the graph shows. -/
def frames : EditGraph F → List F
  | .source clip => clip.content
  | .trim first last _ mode child =>
    let xs := child.frames
    let firstframe := clampInt first 0 (xs.length - 1)
    range firstframe (min (mode.asked xs.length firstframe last) (xs.length - 1)) xs
  | .freezeFrame first last frozen child =>
    let xs := child.frames
    xs.mapIdx fun n x => if first ≤ n ∧ n ≤ last then (xs[frozen.toNat]?).getD x else x
  | .deleteFrame listed child => pick (remaining child.frames.length listed) child.frames
  | .duplicateFrame listed child => pick (repeated child.frames.length listed) child.frames
  | .splice child child2 => child.frames ++ child2.frames
  | .reverse child => child.frames.reverse
  | .loop times first last child =>
    let xs := child.frames
    let start := clampInt first 0 (xs.length - 1)
    let rangeEnd := clampInt last start (xs.length - 1)
    pick (looped times start (rangeEnd - start + 1) xs.length) xs

/-- The numbers of frames can be computed in 32 bits, frames to delete are not repeated early, and
what is looped is not empty. -/
def Exact : EditGraph F → Prop
  | .source clip => 0 ≤ clip.numFrames ∧ clip.numFrames < 2 ^ 31
  | .trim first last _ mode child => child.Exact ∧ (-2 ^ 31 ≤ last ∧ last < 2 ^ 31) ∧
    mode.Exact child.frames.length (clampInt first 0 (child.frames.length - 1)) last
  | .freezeFrame _ _ _ child => child.Exact
  | .deleteFrame listed child => child.Exact ∧ RepeatsLate listed
  | .duplicateFrame listed child =>
    child.Exact ∧ (child.frames.length + listed.length : ℤ) < 2 ^ 31
  | .splice child child2 => child.Exact ∧ child2.Exact
  | .reverse child => child.Exact
  | .loop times first last child =>
    let count : ℤ := child.frames.length
    let start := clampInt first 0 (count - 1)
    let rangeEnd := clampInt last start (count - 1)
    child.Exact ∧ child.frames ≠ [] ∧
      (times < 0 ∨ count + (times - 1) * (rangeEnd - start + 1) < 2 ^ 31)

end EditGraph

/-! ### One filter -/

namespace FrameClip

variable {c c' : FrameClip F} {xs ys : List F} {listed : List ℤ}

/-- The clip shows these frames, and their number is an integer. -/
structure Shows (c : FrameClip F) (xs : List F) : Prop where
  content : c.content = xs
  nonneg : 0 ≤ c.numFrames
  lt : c.numFrames < 2 ^ 31

theorem Shows.count (h : c.Shows xs) : (xs.length : ℤ) = c.numFrames := by
  have hnonneg := h.nonneg
  rw [← h.content, length_content]
  omega

theorem Shows.getElem? (h : c.Shows xs) {n : ℕ} (hn : n < xs.length) :
    xs[n]? = some (c.getFrame n) := by
  have hcount := h.count
  rw [← h.content, getElem?_content, if_pos (by omega)]

/-- A clip shows the frames that it gets. -/
theorem shows_of_getElem? (hcount : c.numFrames = xs.length) (hlt : (xs.length : ℤ) < 2 ^ 31)
    (hget : ∀ n < xs.length, xs[n]? = some (c.getFrame n)) : c.Shows xs := by
  refine ⟨List.ext_getElem? fun n => ?_, by omega, by omega⟩
  rw [getElem?_content]
  by_cases hn : n < xs.length
  · rw [if_pos (by omega), hget n hn]
  · rw [if_neg (by omega), List.getElem?_eq_none (by omega)]

/-- Every kept frame of a range is there. -/
theorem Shows.trim {first last : ℤ} {padaudio : Bool} {mode : TrimMode} {film : FilmClip F Unit}
    (h : c.Shows xs) (hok : AviSynth.trim first last padaudio c.silent mode = .ok film)
    (hlast : -2 ^ 31 ≤ last ∧ last < 2 ^ 31)
    (hexact : mode.Exact xs.length (clampInt first 0 (xs.length - 1)) last) :
    film.toFrameClip.Shows (EditGraph.range (clampInt first 0 (xs.length - 1))
      (min (mode.asked xs.length (clampInt first 0 (xs.length - 1)) last) (xs.length - 1)) xs) := by
  have hcount := h.count
  have hnonneg := h.nonneg
  have hlt := h.lt
  rw [hcount] at hexact ⊢
  obtain ⟨hf, hfN⟩ := clampInt_spec_of_nonneg (n := first) hnonneg
  have hnum : c.silent.numFrames = c.numFrames := rfl
  have hvideo : ¬c.silent.vi.hasVideo = false := by simp [FrameClip.silent]
  rw [AviSynth.trim, if_neg hvideo, hnum,
    i32_of_range (x := c.numFrames - 1) (by omega) (by omega)] at hok
  generalize clampInt first 0 (c.numFrames - 1) = f at hf hfN hok hexact ⊢
  dsimp only at hok
  cases hmode : trimLastframe c.numFrames f last mode with
  | error message =>
    rw [hmode] at hok
    cases hok
  | ok lastframe =>
    rw [hmode] at hok
    have hframes : i32 (i32 (lastframe + 1) - f) =
        min (mode.asked c.numFrames f last) (c.numFrames - 1) + 1 - f ∧
          0 ≤ i32 (i32 (lastframe + 1) - f) := by
      cases mode with
      | invalid => cases hmode
      | default => exact (count_default hnonneg hlt hf hfN hlast hmode).mpr hexact
      | length => exact (count_length hnonneg hlt hf hfN hlast.2 hmode).mpr hexact
      | endFrame => exact count_endFrame hnonneg hlt hf hfN hmode
    cases hok
    obtain ⟨hlength, hsome⟩ := hframes
    have hrange : (EditGraph.range f (min (mode.asked c.numFrames f last) (c.numFrames - 1))
        xs).length = (i32 (i32 (lastframe + 1) - f)).toNat := by
      rw [EditGraph.range, List.length_take, List.length_drop]
      omega
    refine shows_of_getElem? ?_ ?_ fun n hn => ?_
    · rw [hrange]
      exact (Int.toNat_of_nonneg hsome).symm
    · omega
    · rw [hrange] at hn
      have hframe : i32 ((n : ℤ) + f) = (f.toNat + n : ℕ) := by
        rw [i32_of_range (by omega) (by omega)]
        omega
      rw [EditGraph.range, List.getElem?_take_of_lt (by omega), List.getElem?_drop,
        h.getElem? (by omega)]
      change _ = some (c.getFrame (i32 (n + f)))
      rw [hframe]

/-- The frozen frames show another one. -/
theorem Shows.freezeFrame {first last source : ℤ} (h : c.Shows xs)
    (hok : AviSynth.freezeFrame first last source c = .ok c') :
    c'.Shows (xs.mapIdx fun n x =>
      if first ≤ n ∧ n ≤ last then (xs[source.toNat]?).getD x else x) := by
  have hcount := h.count
  rw [AviSynth.freezeFrame] at hok
  split_ifs at hok with hbounds
  cases hok
  refine shows_of_getElem? ?_ ?_ fun n hn => ?_
  · rw [List.length_mapIdx]
    exact hcount.symm
  · rw [List.length_mapIdx, hcount]
    exact h.lt
  · rw [List.length_mapIdx] at hn
    rw [List.getElem?_mapIdx, h.getElem? hn, Option.map_some]
    split_ifs with hfrozen
    · have hsource : ((source.toNat : ℕ) : ℤ) = source := by omega
      rw [h.getElem? (by omega), hsource, Option.getD_some]
      exact congrArg (some <| c.getFrame ·) (if_pos hfrozen).symm
    · exact congrArg (some <| c.getFrame ·) (if_neg hfrozen).symm

/-- The frames at places of the clip. -/
theorem Shows.pick (h : c.Shows xs) {places : List ℕ} (hplaces : ∀ n ∈ places, n < xs.length) :
    EditGraph.pick places xs = places.map fun n : ℕ => c.getFrame n := by
  rw [EditGraph.pick, ← List.filterMap_eq_map]
  exact List.filterMap_congr fun n hn => h.getElem? (hplaces n hn)

/-- A clip with frames shows what it gets. -/
theorem shows_of_content (hcontent : c.content = xs) (hsome : xs ≠ [])
    (hlt : (xs.length : ℤ) < 2 ^ 31) : c.Shows xs := by
  have hlength := length_content c
  have hpos := List.length_pos_iff.mpr hsome
  rw [hcontent] at hlength
  exact ⟨hcontent, by omega, by omega⟩

/-- The lists that pass the checks. -/
theorem range_of_any (h : ¬listed.any (fun f => f < 0 ∨ c.numFrames ≤ f) = true) :
    ∀ f ∈ listed, 0 ≤ f ∧ f < c.numFrames := by
  intro f hf
  by_contra hout
  exact h (List.any_eq_true.mpr ⟨f, hf, decide_eq_true (by omega)⟩)

/-- The frames that are not listed stay. -/
theorem Shows.deleteFrame (h : c.Shows xs) (hlisted : listed ≠ [])
    (hok : deleteFrames c listed = .ok c') (hlate : RepeatsLate listed) :
    c'.Shows (EditGraph.pick (remaining xs.length listed) xs) := by
  have hcount := h.count
  have hlt := h.lt
  have hrange : ∀ f ∈ listed, 0 ≤ f ∧ f < c.numFrames := by
    refine range_of_any fun hany => ?_
    rw [deleteFrames, if_pos hany] at hok
    cases hok
  have hdeletes := (deletes_iff h.nonneg h.lt hlisted hrange).mpr hlate
  have hlength : c.numFrames.toNat = xs.length := by omega
  rw [Deletes, hok, hlength] at hdeletes
  split_ifs at hdeletes with hnone
  obtain ⟨clip, hclip, hcontent⟩ := hdeletes
  obtain rfl : c' = clip := Except.ok.inj hclip
  have hpick : EditGraph.pick (remaining xs.length listed) xs =
      (remaining xs.length listed).map fun n : ℕ => c.getFrame n :=
    h.pick fun n hn => List.mem_range.mp (List.mem_of_mem_filter hn)
  have hfew : (remaining xs.length listed).length ≤ xs.length := by
    have hle := List.length_filter_le (fun n : ℕ => (n : ℤ) ∉ listed) (List.range xs.length)
    rwa [List.length_range] at hle
  rw [hpick]
  refine shows_of_content hcontent (by simpa using hnone) ?_
  rw [List.length_map]
  omega

/-- The listed frames are there once more. -/
theorem Shows.duplicateFrame (h : c.Shows xs) (hok : duplicateFrames c listed = .ok c')
    (hfits : (xs.length + listed.length : ℤ) < 2 ^ 31) :
    c'.Shows (EditGraph.pick (repeated xs.length listed) xs) := by
  have hcount := h.count
  have hlt := h.lt
  have hrange : ∀ f ∈ listed, 0 ≤ f ∧ f < c.numFrames := by
    refine range_of_any fun hany => ?_
    rw [duplicateFrames, if_pos hany] at hok
    cases hok
  obtain ⟨clip, hclip, hcontent⟩ :=
    (duplicates_iff h.nonneg h.lt hrange).mpr (by omega : c.numFrames + listed.length < 2 ^ 31)
  have hlength : c.numFrames.toNat = xs.length := by omega
  have hnum : c'.numFrames = c.numFrames + listed.length := by
    rw [duplicateFrames, any_outOfBounds hrange] at hok
    cases hok
    rw [numFrames_duplicated c h.nonneg h.lt, (foldl_bubble listed).1.length_eq,
      i32_of_range (by omega) (by omega)]
  obtain rfl : c' = clip := Except.ok.inj (hok.symm.trans hclip)
  rw [hlength] at hcontent
  have hpick : EditGraph.pick (repeated xs.length listed) xs =
      (repeated xs.length listed).map fun n : ℕ => c.getFrame n := by
    refine h.pick fun n hn => ?_
    obtain ⟨m, hm, hrep⟩ := List.mem_flatMap.mp hn
    rw [List.eq_of_mem_replicate hrep]
    exact List.mem_range.mp hm
  rw [hpick]
  exact ⟨hcontent, by omega, by omega⟩

/-- One clip comes behind the other. -/
theorem Shows.splice {c2 : FrameClip F} (h : c.Shows xs) (h2 : c2.Shows ys)
    (hok : AviSynth.splice c c2 = .ok c') : c'.Shows (xs ++ ys) := by
  have hcount := h.count
  have hcount2 := h2.count
  have hlt := h.lt
  have hlt2 := h2.lt
  simp only [AviSynth.splice] at hok
  split_ifs at hok with hmany
  have hfits : c.numFrames + c2.numFrames < 2 ^ 31 := by
    by_contra hover
    rw [i32_of_overflow (by omega) (by omega)] at hmany
    omega
  cases hok
  refine shows_of_getElem? ?_ ?_ fun n hn => ?_
  · refine (i32_of_range (by omega) (by omega)).trans ?_
    rw [List.length_append]
    omega
  · rw [List.length_append]
    omega
  · rw [List.length_append] at hn
    dsimp only
    by_cases hfirst : n < xs.length
    · rw [List.getElem?_append_left hfirst, h.getElem? hfirst, if_pos (by omega)]
    · have hframe : i32 ((n : ℤ) - c.numFrames) = (n - xs.length : ℕ) := by
        rw [i32_of_range (by omega) (by omega)]
        omega
      rw [List.getElem?_append_right (by omega), h2.getElem? (by omega), if_neg (by omega), hframe]

/-- The last frame comes first. -/
theorem Shows.reverse (h : c.Shows xs) : (AviSynth.reverse c).Shows xs.reverse := by
  have hcount := h.count
  have hlt := h.lt
  refine shows_of_getElem? ?_ ?_ fun n hn => ?_
  · rw [List.length_reverse]
    exact hcount.symm
  · rw [List.length_reverse]
    omega
  · rw [List.length_reverse] at hn
    have hframe : i32 (i32 (c.numFrames - n) - 1) = (xs.length - 1 - n : ℕ) := by
      rw [i32_of_range (x := c.numFrames - n) (by omega) (by omega),
        i32_of_range (by omega) (by omega)]
      omega
    rw [List.getElem?_reverse hn, h.getElem? (by omega)]
    change _ = some (c.getFrame (i32 (i32 (c.numFrames - n) - 1)))
    rw [hframe]

/-- What a repeated frame shows is there. -/
theorem convert_mem (l : Loop) (hsome : 0 < l.numFrames)
    (hfits : l.times < 0 ∨ l.repeatedFrames < 2 ^ 31) {n : ℤ} (hn : 0 ≤ n)
    (hlt : n < l.viNumFrames) : 0 ≤ l.convert n ∧ l.convert n < l.numFrames := by
  obtain ⟨hstart, hend, hlast⟩ := l.range_spec
  have hframes := l.frames_eq
  obtain ⟨hvi, hconvert⟩ := l.framesExact_iff.mpr hfits
  rw [hconvert n hn hlt, Loop.sourceIndex]
  split_ifs with hhead hloop
  · omega
  · have hnonneg := Int.emod_nonneg (n - l.start) (by omega : l.frames ≠ 0)
    have hless := Int.emod_lt_of_pos (n - l.start) (by omega : 0 < l.frames)
    omega
  · rw [if_neg (by omega)] at hvi
    have hsplit : (l.times - 1) * l.frames = l.times * l.frames - l.frames := by ring
    omega

/-- The range is there so many times. -/
theorem Shows.loop (l : Loop) (h : c.Shows xs) (hnum : l.numFrames = c.numFrames) (hsome : xs ≠ [])
    (hfits : l.times < 0 ∨ l.repeatedFrames < 2 ^ 31) :
    (l.clip c).Shows (EditGraph.pick (EditGraph.looped l.times l.start l.frames xs.length) xs) := by
  have hcount := h.count
  have hpos := List.length_pos_iff.mpr hsome
  obtain ⟨hvi, hconvert⟩ := l.framesExact_iff.mpr hfits
  have hmem {n : ℕ} (hn : n ∈ List.range l.viNumFrames.toNat) :=
    have hlt := List.mem_range.mp hn
    convert_mem l (by omega) hfits (Int.natCast_nonneg n) (by omega)
  have hplace {n : ℕ} (hn : n ∈ List.range l.viNumFrames.toNat) :
      Loop.sourceIndex l.times l.start l.frames n = l.convert n := by
    have hlt := List.mem_range.mp hn
    exact (hconvert n (Int.natCast_nonneg n) (by omega)).symm
  have hlooped : EditGraph.looped l.times l.start l.frames xs.length =
      (List.range l.viNumFrames.toNat).map fun n : ℕ => (l.convert n).toNat := by
    rw [EditGraph.looped, hcount, ← hnum, ← hvi]
    exact List.map_congr_left fun n hn => congrArg Int.toNat (hplace hn)
  have hplaces : ∀ n ∈ EditGraph.looped l.times l.start l.frames xs.length, n < xs.length := by
    intro n hn
    rw [hlooped] at hn
    obtain ⟨m, hm, rfl⟩ := List.mem_map.mp hn
    have hin := hmem hm
    omega
  rw [h.pick hplaces, hlooped, List.map_map]
  refine ⟨List.map_congr_left fun n hn => ?_, ?_, ?_⟩
  · have hin := hmem hn
    exact congrArg c.getFrame (Int.toNat_of_nonneg hin.1).symm
  · change 0 ≤ l.viNumFrames
    rcases l.accepted with hforever | haccepted
    · rw [hvi, if_pos hforever]
      decide
    · exact haccepted
  · change l.viNumFrames < 2 ^ 31
    rw [hvi]
    split_ifs with hforever
    · decide
    · exact hfits.resolve_left hforever

end FrameClip

namespace EditGraph

/-- Every graph of edits shows the frames that its lists give: whatever frames the sources show,
and wherever they are moved. -/
theorem opens_shows {g : EditGraph F} {c : FrameClip F} (h : g.Opens c) (hexact : g.Exact) :
    c.Shows g.frames := by
  induction h with
  | source clip => exact ⟨rfl, hexact.1, hexact.2⟩
  | trim _ hok ih =>
    obtain ⟨hchild, hlast, htrim⟩ := hexact
    exact (ih hchild).trim hok hlast htrim
  | freezeFrame _ hok ih => exact (ih hexact).freezeFrame hok
  | deleteFrame _ hlisted hok ih => exact (ih hexact.1).deleteFrame hlisted hok hexact.2
  | duplicateFrame _ _ hok ih => exact (ih hexact.1).duplicateFrame hok hexact.2
  | splice _ _ hok ih ih2 => exact (ih hexact.1).splice (ih2 hexact.2) hok
  | reverse _ ih => exact (ih hexact).reverse
  | loop l _ hnum ih =>
    obtain ⟨hchild, hsome, hfits⟩ := hexact
    have hshows := ih hchild
    have hcount := hshows.count
    have hnonneg := l.numFrames_nonneg
    have hlt := l.numFrames_lt
    have hend : i32 (l.numFrames - 1) = l.numFrames - 1 := i32_of_range (by omega) (by omega)
    have hframes := l.frames_eq
    rw [LoopArgs.rangeEnd, LoopArgs.start, hend, hnum, ← hcount] at hframes
    have hloop := hshows.loop l hnum hsome (by
      rw [LoopArgs.repeatedFrames, hframes, hnum, ← hcount]
      exact hfits)
    rw [LoopArgs.start, hend, hframes, hnum, ← hcount] at hloop
    exact hloop

/-- Three frames of ten backwards, and behind them two of three. -/
def backwardsAndRest : EditGraph ℤ :=
  .splice (.reverse (.trim 2 4 true .endFrame (.source ⟨10, id⟩)))
    (.deleteFrame [1] (.source ⟨3, id⟩))

theorem opens_shows_backwards : ∃ c, backwardsAndRest.Opens c ∧ c.content = [4, 3, 2, 0, 2] := by
  have hopens : backwardsAndRest.Opens _ :=
    .splice (.reverse (.trim (.source _) rfl)) (.deleteFrame (.source _) (by decide) rfl) rfl
  have hexact : backwardsAndRest.Exact :=
    ⟨⟨⟨by decide, by decide⟩, by decide, by unfold TrimMode.Exact; decide⟩,
      ⟨by decide, by decide⟩, by unfold RepeatsLate; decide⟩
  exact ⟨_, hopens, (opens_shows hopens hexact).content.trans (by decide)⟩

end EditGraph

end AviSynth
