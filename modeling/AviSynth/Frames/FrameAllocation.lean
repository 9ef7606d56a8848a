import AviSynth.Frames.LayoutSound
import AviSynth.Frames.FrameBlocks

/-!
# Frames laid out in recycled buffers

Requests for frames go through `GetNewFrame` while other threads share and release
frames. A request computes its size, waits inside the mutex for a buffer, and lays
the frame out in the buffer that it is given, which may have been allocated for a
request with another alignment.
-/

namespace AviSynth

open Transition MachineInt Alignment FrameSystem

/-- A request that waits for its buffer, with what it has computed. -/
structure CurrentRequest where
  request : NewFrameRequest
  shape : FrameShape
  plan : FramePlan

/-- The frames with the state of the environment that their layout depends on. -/
structure AllocationSystem (D : Type) where
  frames : FrameSystem D
  planarChromaAlignmentState : Bool
  current : Option CurrentRequest

/-- What a thread does next. -/
inductive AllocationAction (D : Type) where
  /-- `NewVideoFrame` or `NewPlanarVideoFrame` up to `GetNewFrame`. -/
  | newVideoFrame (request : {request : NewFrameRequest // request.Valid}) (device : D)
  /-- `PlanarChromaAlignment`. -/
  | planarChromaAlignment (on : Bool)
  /-- Everything else, the steps inside `GetNewFrame` included. -/
  | frames (a : FrameAction D)

/-- What a step reports. -/
inductive AllocationEvent where
  /-- A frame laid out in the `bytes` bytes from `data` on. -/
  | returned (request : NewFrameRequest) (layout : FrameLayout) (data bytes : ℕ)
  /-- An error is raised. -/
  | failed
  | quiet

/-- The memory that `Allocate` has obtained for a buffer. -/
def VideoFrameBuffer.allocated {D : Type} (b : VideoFrameBuffer D) : ℕ :=
  b.dataSize + b.margin + 16

namespace AllocationSystem

variable {D : Type} [DecidableEq D] (settings : AlignmentSettings) (limits : DeviceLimits D)

/-- A new environment aligns chroma planes. -/
def start : AllocationSystem D := ⟨FrameSystem.start, true, none⟩

/-- One step. -/
def step (s : AllocationSystem D) :
    AllocationAction D → Option (AllocationSystem D × AllocationEvent)
  | .newVideoFrame request device =>
    match request.1.resolve with
    | .error _ => some (s, .failed)
    | .ok shape =>
      let plan := shape.plan settings s.planarChromaAlignmentState request.1.align
      let getNewFrame := FrameAction.getNewFrame ⟨plan.size, (plan.align - 1).toNat, device⟩
      (s.frames.step limits getNewFrame).map fun next =>
        ({ s with frames := next.1, current := some ⟨request, shape, plan⟩ }, .quiet)
  | .planarChromaAlignment on => some ({ s with planarChromaAlignmentState := on }, .quiet)
  | .frames a =>
    (s.frames.step limits a).bind fun next =>
      match next.2, s.current with
      | .quiet, _ => some ({ s with frames := next.1 }, .quiet)
      | .outOfMemory _, _ => some ({ s with frames := next.1, current := none }, .failed)
      | .handedOut _ _, none => some ({ s with frames := next.1 }, .quiet)
      | .handedOut _ r, some c =>
        (next.1.vfbs r.vfb).map fun b =>
          ({ s with frames := next.1, current := none },
            .returned c.request (c.shape.layout c.plan b.data) b.data b.allocated)

/-- The buffer that the current request is about to reuse has room for the planes
from its first aligned address on. -/
def RoomToReuse (s : AllocationSystem D) : Prop :=
  match s.frames.lock, s.current with
  | some (.occupy _ _ i), some c =>
    (s.frames.frameRegistry[i]?.bind fun e => s.frames.vfbs e.vfb).all (fun b =>
      roundUp b.data c.plan.align - b.data + c.plan.size ≤ b.allocated) = true
  | _, _ => True

instance (s : AllocationSystem D) : Decidable s.RoomToReuse := by
  unfold RoomToReuse
  split <;> infer_instance

end AllocationSystem

namespace NewFrameRequest

/-- The rows, pitches and planes of the request fit an `int`, and the chroma planes
keep the alignment, also if their rows are packed. -/
def Fits (settings : AlignmentSettings) (chromaAlignment : Bool) (request : NewFrameRequest) :
    Prop :=
  match request, request.resolve with
  | _, .error _ => True
  | video vi align, .ok shape => vi.exactRowSize < 2 ^ 31 ∧
      shape.Fits settings chromaAlignment (settings.effective align) ∧
      |align| ∣ shape.exactSizeUV settings chromaAlignment (settings.effective align)
  | sizes _ align, .ok shape => shape.Fits settings chromaAlignment (settings.effective align) ∧
      |align| ∣ shape.exactSizeUV settings chromaAlignment (settings.effective align)

end NewFrameRequest

instance (settings : AlignmentSettings) (chromaAlignment : Bool) (align : ℤ) (shape : FrameShape) :
    Decidable (shape.Fits settings chromaAlignment align) := by
  cases shape <;> simp only [FrameShape.Fits] <;> infer_instance

instance (settings : AlignmentSettings) (chromaAlignment : Bool) (request : NewFrameRequest) :
    Decidable (request.Fits settings chromaAlignment) := by
  unfold NewFrameRequest.Fits
  split <;> infer_instance

/-- A frame that is returned is what was asked for, where it should be. -/
def AllocationEvent.Sound : AllocationEvent → Prop
  | returned request layout data bytes => layout.Sound |request.align| request.wanted data bytes
  | failed | quiet => True

/-- The request is laid out soundly in every block with room for it. -/
structure CurrentRequest.Ready (c : CurrentRequest) : Prop where
  align_pow2 : IsPow2 c.plan.align
  sound : ∀ data bytes : ℕ, c.plan.size < 2 ^ 31 →
    roundUp data c.plan.align - data + c.plan.size ≤ bytes →
    (c.shape.layout c.plan data).Sound |c.request.align| c.request.wanted data bytes

/-- A request that fits is ready. -/
theorem NewFrameRequest.ready {settings : AlignmentSettings} {chromaAlignment : Bool}
    {request : NewFrameRequest} {shape : FrameShape} (hvalid : request.Valid)
    (hfits : request.Fits settings chromaAlignment) (hresolve : request.resolve = .ok shape) :
    CurrentRequest.Ready
      ⟨request, shape, shape.plan settings chromaAlignment request.align⟩ := by
  obtain ⟨⟨hpow, hle⟩, hvalid⟩ := hvalid
  have halign : (shape.plan settings chromaAlignment request.align).align =
      settings.effective request.align := by
    cases shape <;> rfl
  have hall : shape.Positive ∧ shape.wanted = request.wanted ∧
      shape.Fits settings chromaAlignment (settings.effective request.align) ∧
      |request.align| ∣ shape.exactSizeUV settings chromaAlignment
        (settings.effective request.align) := by
    cases request with
    | video vi align =>
      simp only [Fits, hresolve] at hfits
      obtain ⟨hwidth, hheight⟩ := hvalid
      obtain ⟨hpos, hwanted⟩ := vi.newVideoFrameOnDevice_shape hwidth hheight hfits.1 hresolve
      exact ⟨hpos, hwanted, hfits.2⟩
    | sizes shape' align =>
      simp only [Fits, hresolve] at hfits
      obtain rfl := Except.ok.inj hresolve
      exact ⟨hvalid, rfl, hfits⟩
  obtain ⟨hpos, hwanted, hfits, hchroma⟩ := hall
  refine ⟨halign ▸ (settings.effective_spec hpow hle).1, fun data bytes htotal hroom => ?_⟩
  have hsound := shape.layout_sound hpow hle hpos hfits hchroma rfl htotal hroom
  rwa [hwanted] at hsound

namespace AllocationSystem

variable {D : Type} [DecidableEq D] (settings : AlignmentSettings) (limits : DeviceLimits D)

/-- The condition on a step: a request fits, and a buffer that is reused has room. -/
def Meets (s : AllocationSystem D) : AllocationAction D → Prop
  | .newVideoFrame request _ => request.1.Fits settings s.planarChromaAlignmentState
  | .frames (.advance _) => s.RoomToReuse
  | _ => True

instance (s : AllocationSystem D) (a : AllocationAction D) : Decidable (s.Meets settings a) := by
  unfold Meets
  split <;> infer_instance

/-- The invariant: buffers are not larger than an `int` can say, and the thread inside
the mutex works on the current request, if there is one. -/
structure Tracked (s : AllocationSystem D) : Prop where
  consistent : s.frames.Consistent
  sizes : ∀ v b, s.frames.vfbs v = some b → b.dataSize < 2 ^ 31
  current : ∀ c, s.current = some c → c.Ready ∧ ∃ device,
    s.frames.lock.bind Critical.request = some
      ⟨roundVfbSize c.plan.size, (c.plan.align - 1).toNat, device⟩

/-- Small requests are rounded up. -/
theorem le_roundVfbSize (n : ℕ) : n ≤ roundVfbSize n := by
  unfold roundVfbSize
  split_ifs <;> omega

variable {settings limits} {s t : AllocationSystem D} {e : AllocationEvent}

/-- The buffers of a later state are not larger. -/
theorem Tracked.sizes_of_blocks (h : Tracked s) {frames : FrameSystem D}
    (hblocks : FrameStore.KeepsBlocks s.frames.toFrameStore frames.toFrameStore) :
    ∀ v b, frames.vfbs v = some b → b.dataSize < 2 ^ 31 := by
  intro v b hb
  obtain ⟨b', hb', -, hsize, -⟩ := hblocks v b hb
  exact hsize ▸ h.sizes v b' hb'

/-- A request enters `GetNewFrame`. -/
theorem Tracked.newVideoFrame (h : Tracked s) {request : NewFrameRequest} (hvalid : request.Valid)
    {device : D} (hfits : request.Fits settings s.planarChromaAlignmentState)
    (hstep : s.step settings limits (.newVideoFrame ⟨request, hvalid⟩ device) = some (t, e)) :
    Tracked t ∧ e.Sound := by
  simp only [step] at hstep
  split at hstep
  · obtain ⟨⟩ := Option.some.inj hstep
    exact ⟨h, trivial⟩
  · rename_i shape hresolve
    obtain ⟨next, hnext, ⟨⟩⟩ := Option.map_eq_some_iff.mp hstep
    obtain ⟨hblocks, -⟩ := quiet_step limits (by simp) hnext
    refine ⟨⟨(sound_step limits h.consistent hnext).consistent,
      h.sizes_of_blocks hblocks, ?_⟩, trivial⟩
    rintro c hc
    obtain rfl := Option.some.inj hc
    refine ⟨NewFrameRequest.ready hvalid hfits hresolve, device, ?_⟩
    obtain ⟨-, ⟨⟩⟩ := Option.ite_none_right_eq_some.mp hnext
    simp only [goto, Option.bind_some]
    split_ifs <;> rfl

omit [DecidableEq D] in
/-- A new buffer has room: its margin is the alignment that was asked for. -/
theorem new_buffer_room {c : CurrentRequest} (hready : c.Ready) {b : VideoFrameBuffer D}
    (hsize : b.dataSize = roundVfbSize c.plan.size)
    (hmargin : b.margin = (c.plan.align - 1).toNat) :
    roundUp b.data c.plan.align - b.data + c.plan.size ≤ b.allocated := by
  obtain ⟨-, hlt, -⟩ := FrameShape.alignPointer_spec hready.align_pow2 b.data
  have hpos := hready.align_pow2.pos
  have hle := le_roundVfbSize c.plan.size
  simp only [VideoFrameBuffer.allocated, hsize, hmargin]
  push_cast
  rw [Int.toNat_of_nonneg (by omega)]
  omega

/-- A step inside the mutex. -/
theorem Tracked.advance (h : Tracked s) {memory : Memory} (hroom : s.RoomToReuse)
    (hstep : s.step settings limits (.frames (.advance memory)) = some (t, e)) :
    Tracked t ∧ e.Sound := by
  simp only [step, Option.bind_eq_some_iff] at hstep
  obtain ⟨next, hnext, hstep⟩ := hstep
  have hconsistent := (sound_step limits h.consistent hnext).consistent
  obtain ⟨position, hlock, hadvance⟩ := Option.bind_eq_some_iff.mp hnext
  cases progress_advance limits hadvance with
  | goes hblocks hquiet hrequest =>
    simp only [hquiet, Option.some.injEq, Prod.mk.injEq] at hstep
    obtain ⟨rfl, rfl⟩ := hstep
    refine ⟨⟨hconsistent, h.sizes_of_blocks hblocks, fun c hc => ?_⟩, trivial⟩
    obtain ⟨hready, device, hdevice⟩ := h.current c hc
    rw [hlock, Option.bind_some] at hdevice
    exact ⟨hready, device, hrequest.trans hdevice⟩
  | throws request hblocks hposition hevent =>
    simp only [hevent, Option.some.injEq, Prod.mk.injEq] at hstep
    obtain ⟨rfl, rfl⟩ := hstep
    exact ⟨⟨hconsistent, h.sizes_of_blocks hblocks, fun _ hc => nomatch hc⟩, trivial⟩
  | reuses request again i entry p hposition hfound hevent hblocks =>
    have hsizes := h.sizes_of_blocks hblocks
    cases hcurrent : s.current with
    | none =>
      simp only [hevent, hcurrent, Option.some.injEq, Prod.mk.injEq] at hstep
      obtain ⟨rfl, rfl⟩ := hstep
      exact ⟨⟨hconsistent, hsizes, by simp⟩, trivial⟩
    | some c =>
      simp only [hevent, hcurrent] at hstep
      obtain ⟨b, hb, ⟨⟩⟩ := Option.map_eq_some_iff.mp hstep
      refine ⟨⟨hconsistent, hsizes, fun _ hc => nomatch hc⟩, ?_⟩
      subst hposition
      obtain ⟨hready, device, hdevice⟩ := h.current c hcurrent
      rw [hlock] at hdevice
      obtain rfl := Option.some.inj hdevice
      obtain ⟨-, hle⟩ := h.consistent.position _ hlock
      obtain ⟨b₀, hb₀, hdata, hsize, hmargin⟩ := hblocks _ _ hb
      obtain ⟨b₁, hb₁, hsize', -⟩ :=
        (h.consistent.entries entry (List.mem_of_getElem? hfound)).buffer
      obtain rfl := Option.some.inj (hb₀.symm.trans hb₁)
      have hfits := hsizes _ _ hb
      have hround := le_roundVfbSize c.plan.size
      have hentry := hle entry hfound
      simp only at hentry
      apply hready.sound _ _ (by omega)
      simp only [RoomToReuse, hlock, hcurrent, hfound, Option.bind_some, hb₀, Option.all_some,
        decide_eq_true_eq, VideoFrameBuffer.allocated, hdata, hsize, hmargin] at hroom
      exact hroom
  | allocates request attempt v p data hposition hfits hevent hvfbs =>
    have hsizes : ∀ w b, next.1.vfbs w = some b → b.dataSize < 2 ^ 31 := by
      intro w b hb
      rw [hvfbs] at hb
      by_cases hw : w = v
      · rw [hw, Function.update_self] at hb
        obtain rfl := Option.some.inj hb
        exact hfits
      · rw [Function.update_of_ne hw] at hb
        exact h.sizes w b hb
    cases hcurrent : s.current with
    | none =>
      simp only [hevent, hcurrent, Option.some.injEq, Prod.mk.injEq] at hstep
      obtain ⟨rfl, rfl⟩ := hstep
      exact ⟨⟨hconsistent, hsizes, by simp⟩, trivial⟩
    | some c =>
      simp only [hevent, hcurrent] at hstep
      obtain ⟨b, hb, ⟨⟩⟩ := Option.map_eq_some_iff.mp hstep
      refine ⟨⟨hconsistent, hsizes, fun _ hc => nomatch hc⟩, ?_⟩
      subst hposition
      obtain ⟨hready, device, hdevice⟩ := h.current c hcurrent
      rw [hlock] at hdevice
      obtain rfl := Option.some.inj hdevice
      simp only [hvfbs, Function.update_self, Option.some.injEq] at hb
      have hround := le_roundVfbSize c.plan.size
      simp only at hfits
      apply hready.sound _ _ (by omega)
      subst hb
      exact new_buffer_room hready rfl rfl

/-- The step lemma. -/
theorem tracked_step (h : Tracked s) {a : AllocationAction D} (hmeets : s.Meets settings a)
    (hstep : s.step settings limits a = some (t, e)) : Tracked t ∧ e.Sound := by
  cases a with
  | newVideoFrame request device => exact h.newVideoFrame request.2 hmeets hstep
  | planarChromaAlignment on =>
    obtain ⟨⟩ := Option.some.inj hstep
    exact ⟨⟨h.consistent, h.sizes, h.current⟩, trivial⟩
  | frames a =>
    by_cases hadvance : ∃ memory, a = .advance memory
    · obtain ⟨memory, rfl⟩ := hadvance
      exact h.advance hmeets hstep
    · simp only [step, Option.bind_eq_some_iff] at hstep
      obtain ⟨next, hnext, hstep⟩ := hstep
      obtain ⟨hblocks, hquiet, hlock⟩ :=
        quiet_step limits (fun memory heq => hadvance ⟨memory, heq⟩) hnext
      simp only [hquiet, Option.some.injEq, Prod.mk.injEq] at hstep
      obtain ⟨rfl, rfl⟩ := hstep
      refine ⟨⟨(sound_step limits h.consistent hnext).consistent,
        h.sizes_of_blocks hblocks, fun c hc => ?_⟩, trivial⟩
      obtain ⟨hready, device, hdevice⟩ := h.current c hc
      refine ⟨hready, device, ?_⟩
      rw [← hdevice, hlock]
      cases hnone : s.frames.lock with
      | none => simp [hnone] at hdevice
      | some position => rfl

/-- Over every run whose requests fit an `int` and that reuses a buffer only if it has
room from its first aligned address on: each frame that is returned has the planes that
were asked for, aligned as requested, apart from each other and inside the memory of
its buffer. -/
theorem layouts_run {history : List AllocationEvent}
    (hrun : Run (step settings limits) (Meets settings) start history s) :
    AllEvents (fun _ e => e.Sound) history := by
  apply hrun.allEvents fun _ s => Tracked s
  · exact ⟨FrameSystem.consistent_start, by simp [start, FrameSystem.start], by simp [start]⟩
  · intro history s t a e h hmeets hstep
    exact tracked_step h hmeets hstep

/-- An environment without other devices than the CPU. -/
def cpuAlignment : AlignmentSettings where
  frameAlign := 64
  planeAlign := 64
  frameAlign_pow2 := ⟨6, by decide⟩
  planeAlign_pow2 := ⟨6, by decide⟩
  frameAlign_ge := by decide
  frameAlign_le := by decide
  planeAlign_le := by decide

/-- A device with a limit of a gigabyte. -/
def cpuDevice : DeviceLimits Unit where
  memoryMax _ := 2 ^ 30
  freeThresh _ := 0
  belowReserve used max := decide (100 * used < 85 * max)

/-- A request for a greyscale frame. -/
def greyscaleFrame (width height : ℤ) (k : ℕ) (hk : k ≤ 30)
    (hsize : (0 < width ∧ width < 2 ^ 31) ∧ 0 < height ∧ height < 2 ^ 31) :
    {request : NewFrameRequest // request.Valid} :=
  ⟨.video ⟨width, height, PixelType.csY8⟩ (2 ^ k), by
    have habs : |(2 : ℤ) ^ k| = 2 ^ k := abs_of_nonneg (by positivity)
    exact ⟨⟨⟨k, habs⟩, habs.trans_le (pow_le_pow_right₀ (by decide) hk)⟩, hsize⟩⟩

instance : DecidablePred AllocationEvent.Sound := fun e => by
  cases e <;> simp only [AllocationEvent.Sound] <;> infer_instance

/-- A frame is created, released, and its buffer reused for a smaller frame. -/
theorem layouts_run_reused : ∃ (history : List AllocationEvent) (s : AllocationSystem Unit),
    Run (step cpuAlignment cpuDevice) (Meets cpuAlignment) start history s ∧
      (history.countP fun e => e matches .returned ..) = 2 ∧
      AllEvents (fun _ e => e.Sound) history := by
  obtain ⟨history, s, hrun, hcheck⟩ := exists_run (step cpuAlignment cpuDevice)
    (Meets cpuAlignment) start
    [.newVideoFrame (greyscaleFrame 100 64 6 (by decide) (by decide)) (),
      .frames (.advance ⟨false, none⟩), .frames (.advance ⟨false, some (1, 16, 1)⟩),
      .frames (.assignNew ⟨1, 1⟩), .frames (.release 1), .frames (.releaseVfb 1),
      .newVideoFrame (greyscaleFrame 64 100 6 (by decide) (by decide)) (),
      .frames (.advance ⟨false, none⟩), .frames (.advance ⟨false, none⟩)]
    (fun history _ => (history.countP fun e => e matches .returned ..) == 2) (by decide)
  exact ⟨history, s, hrun, eq_of_beq hcheck, layouts_run hrun⟩

/-- A buffer allocated for rows aligned to 64 bytes is reused for rows aligned to 4096:
the frame ends beyond the buffer. And a frame of 65536 by 65537 bytes gets a buffer of
65536 bytes. -/
theorem layouts_outside : (∃ (history : List AllocationEvent) (s : AllocationSystem Unit),
    Run (step cpuAlignment cpuDevice) always start history s ∧ ∃ e ∈ history, ¬e.Sound) ∧
    ∃ (history : List AllocationEvent) (s : AllocationSystem Unit),
      Run (step cpuAlignment cpuDevice) always start history s ∧ ∃ e ∈ history, ¬e.Sound := by
  constructor
  · obtain ⟨history, s, hrun, hcheck⟩ := exists_run (step cpuAlignment cpuDevice) always start
      [.newVideoFrame (greyscaleFrame 4096 64 6 (by decide) (by decide)) (),
        .frames (.advance ⟨false, none⟩), .frames (.advance ⟨false, some (1, 16, 1)⟩),
        .frames (.assignNew ⟨1, 1⟩), .frames (.release 1), .frames (.releaseVfb 1),
        .newVideoFrame (greyscaleFrame 64 64 12 (by decide) (by decide)) (),
        .frames (.advance ⟨false, none⟩), .frames (.advance ⟨false, none⟩)]
      (fun history _ => history.any fun e => ¬e.Sound) (by decide)
    obtain ⟨e, he, hbad⟩ := List.any_eq_true.mp hcheck
    exact ⟨history, s, hrun, e, he, of_decide_eq_true hbad⟩
  · obtain ⟨history, s, hrun, hcheck⟩ := exists_run (step cpuAlignment cpuDevice) always start
      [.newVideoFrame (greyscaleFrame 65536 65537 6 (by decide) (by decide)) (),
        .frames (.advance ⟨false, none⟩), .frames (.advance ⟨false, some (1, 0, 1)⟩)]
      (fun history _ => history.any fun e => ¬e.Sound) (by decide)
    obtain ⟨e, he, hbad⟩ := List.any_eq_true.mp hcheck
    exact ⟨history, s, hrun, e, he, of_decide_eq_true hbad⟩

end AllocationSystem

end AviSynth
