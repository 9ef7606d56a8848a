import AviSynth.Library.Programs
import Mathlib.Tactic.Common
import Mathlib.Data.Int.Notation

/-!
# The current device of a thread

Each thread of the environment has a current device. The filter `OnDevice` makes
another device current while its child works; a transfer engine then brings the
frame to the device of the caller. Other filters are programs that request frames
and audio of their children, go on after an exception or pass it on, and may
have a frame computed with another device current for the time of the call.

What a transfer engine finds in its cache, and whether a copy succeeds, depends
on other threads and on the device. It is an input of the model, given
separately for each call of an engine.
-/

namespace AviSynth

/-- The `LRU_LOOKUP_` results. -/
inductive LookupResult
  | notFound
  | foundAndReady
  | foundButNotAvail
  | noCache
  deriving DecidableEq, Repr

/-- What is asked of a clip. -/
inductive ClipRequest
  | frame (n : ℤ)
  | audio (start count : ℤ)
  deriving DecidableEq, Repr

/-- A request of a filter to one of its `count` children. `device` is given when the
request goes through a `DeviceSetter`. -/
structure ChildRequest (count : ℕ) (Device : Type) where
  child : Fin count
  request : ClipRequest
  device : Option Device := none

/-- The code of a filter between the requests to its `count` children. -/
abbrev FilterCode (count : ℕ) (Device : Type) := Program (ChildRequest count Device) Outcome Outcome

/-- `next` is run if the first part returns; its exception is passed on. -/
def FilterCode.andThen {count : ℕ} {Device : Type} (first next : FilterCode count Device) :
    FilterCode count Device :=
  first.bind fun
    | .returned => next
    | .thrown => .finish .thrown

/-! ### Prefetching and transfer -/

/-- What one call of the prefetcher of `OnDevice` meets: the lookup in its cache,
whether a worker has left an exception, and how the scheduling of further
frames ends. -/
structure PrefetcherCall where
  lookup : LookupResult
  workerExceptionPresent : Bool
  schedulePrefetch : Outcome

namespace QueuePrefetcher

variable {Device : Type}

/-- The child's frame, requested on the calling thread. -/
def childFrame (n : ℤ) : FilterCode 1 Device := .ask { child := 0, request := .frame n }

/-- `GetFrame` of the prefetcher; `suppressed` says that an `Invoke` is running. -/
def getFrame (prefetchFrames : ℤ) (suppressed : Bool) (call : PrefetcherCall) (n : ℤ) :
    FilterCode 1 Device :=
  if prefetchFrames = 0 ∨ suppressed then childFrame n
  else
    match call.lookup with
    | .foundAndReady => .finish call.schedulePrefetch
    | .notFound =>
      if call.workerExceptionPresent then .finish .thrown
      else FilterCode.andThen (childFrame n) (.finish call.schedulePrefetch)
    | .noCache => FilterCode.andThen (childFrame n) (.finish call.schedulePrefetch)
    | .foundButNotAvail => .finish .thrown

end QueuePrefetcher

/-- What one call of a transfer engine meets. `created` says whether the engine is
there or can be made, `finished` and `waited` how the pending transfers end,
`scheduled i` what the `i`-th round of scheduling finds, `copied` how the copy of
the requested frame to the other device ends. -/
structure TransferCall where
  suppressed : Bool
  created : Outcome
  finished : Outcome
  scheduled : ℕ → LookupResult × PrefetcherCall × Outcome
  lookup : LookupResult
  source : PrefetcherCall
  copied : Outcome
  waited : Outcome

namespace CUDAFrameTransferEngine

variable {Device : Type}

/-- The frames that the prefetcher behind the engine is set up for. -/
def childPrefetchFrames (prefetchFrames : ℤ) : ℤ := if 2 ≤ prefetchFrames then 2 else 0

/-- A frame of the source and its copy. -/
def getFrameImmediate (prefetchFrames : ℤ) (call : TransferCall) (n : ℤ) : FilterCode 1 Device :=
  (QueuePrefetcher.getFrame (childPrefetchFrames prefetchFrames) call.suppressed call.source
    n).andThen (.finish call.copied)

/-- `rounds` rounds of the loop of `SchedulePrefetch`, from the one with number `i`
for the frame `n`. -/
def schedulePrefetch (prefetchFrames : ℤ) (call : TransferCall) :
    ℕ → ℕ → ℤ → FilterCode 1 Device
  | 0, _, _ => .finish .returned
  | rounds + 1, i, n =>
    let next := schedulePrefetch prefetchFrames call rounds (i + 1) (n + 1)
    match call.scheduled i with
    | (.notFound, source, setupTransfer) =>
      FilterCode.andThen
        (FilterCode.andThen
          (QueuePrefetcher.getFrame (childPrefetchFrames prefetchFrames) call.suppressed source n)
          (.finish setupTransfer))
        next
    | (.foundAndReady, _) | (.noCache, _) | (.foundButNotAvail, _) => next

/-- `GetFrame` of the engine of a filter with `prefetchFrames` frames of prefetch. -/
def getFrame (prefetchFrames numFrames : ℤ) (call : TransferCall) (n : ℤ) : FilterCode 1 Device :=
  let transferPrefetch := if prefetchFrames = 1 then 2 else prefetchFrames
  if transferPrefetch = 0 ∨ call.suppressed then getFrameImmediate prefetchFrames call n
  else
    let rounds := (min (n + transferPrefetch) numFrames - n).toNat
    FilterCode.andThen (.finish call.finished)
      (FilterCode.andThen (schedulePrefetch prefetchFrames call rounds 0 n)
        (match call.lookup with
        | .foundAndReady => .finish .returned
        | .noCache => getFrameImmediate prefetchFrames call n
        | .foundButNotAvail => .finish call.waited
        | .notFound => .finish .thrown))

end CUDAFrameTransferEngine

/-! ### Filters and their calls -/

/-- A clip with the clips behind it. `OnDevice` knows the number of frames of its
child. -/
inductive Filter (Device : Type)
  | plain (count : ℕ) (children : Fin count → Filter Device)
    (code : ClipRequest → FilterCode count Device)
  | onDevice (child : Filter Device) (upstreamDevice : Device) (prefetchFrames numFrames : ℤ)

/-- The places of the code that make another device current. -/
inductive DeviceSwitch
  | getFrame
  | getAudio
  | setter
  deriving DecidableEq, Repr

/-- A switch to another device that has ended: the current device before and after
it, and whether an exception left the transfer behind it. -/
structure SwitchRecord (Device : Type) where
  switch : DeviceSwitch
  upstreamDevice : Device
  before : Option Device
  transfer : Outcome
  after : Option Device
  deriving DecidableEq, Repr

/-- A thread: its current device, which may be null, the number of engine calls it
has made, and the switches that have ended. -/
structure DeviceThread (Device : Type) where
  currentDevice : Option Device
  transfers : ℕ
  history : List (SwitchRecord Device)

namespace DeviceThread

variable {Device : Type}

/-- The device of the thread is assigned. -/
def setCurrentDevice (s : DeviceThread Device) (device : Option Device) : DeviceThread Device :=
  { s with currentDevice := device }

/-- The end of a switch is written down with the device that it leaves current. -/
def record (s : DeviceThread Device) (switch : DeviceSwitch) (upstreamDevice : Device)
    (before : Option Device) (transfer : Outcome) : DeviceThread Device :=
  { s with history := s.history ++ [⟨switch, upstreamDevice, before, transfer, s.currentDevice⟩] }

/-- A request, with a `DeviceSetter` around it when it names a device. The
constructor of the setter throws on a thread without a current device; its
destructor is then not run. -/
def withSetter (device : Option Device)
    (call : DeviceThread Device → Outcome × DeviceThread Device) (s : DeviceThread Device) :
    Outcome × DeviceThread Device :=
  match device with
  | none => call s
  | some upstreamDevice =>
    let downstreamDevice := s.currentDevice
    let s := s.setCurrentDevice (some upstreamDevice)
    match downstreamDevice with
    | none => (.thrown, s.record .setter upstreamDevice none .returned)
    | some _ =>
      let result := call s
      (result.1, (result.2.setCurrentDevice downstreamDevice).record .setter upstreamDevice
        downstreamDevice .returned)

end DeviceThread

namespace OnDevice

variable {Device : Type} [DecidableEq Device]

/-- `GetFrame`, with the code `transfer` for making the engine and asking it. -/
def getFrame (upstreamDevice : Device)
    (child transfer : DeviceThread Device → Outcome × DeviceThread Device)
    (s : DeviceThread Device) : Outcome × DeviceThread Device :=
  let downstreamDevice := s.currentDevice
  let s := s.setCurrentDevice (some upstreamDevice)
  if downstreamDevice = none then (.thrown, s.record .getFrame upstreamDevice none .returned)
  else if downstreamDevice = some upstreamDevice then
    let result := child s
    (result.1, result.2.record .getFrame upstreamDevice downstreamDevice .returned)
  else
    match transfer s with
    | (.returned, s) => (.returned,
        (s.setCurrentDevice downstreamDevice).record .getFrame upstreamDevice downstreamDevice
          .returned)
    | (.thrown, s) => (.thrown, s.record .getFrame upstreamDevice downstreamDevice .thrown)

/-- `GetAudio`: the device is set back after the child, also on an exception. -/
def getAudio (upstreamDevice : Device)
    (child : DeviceThread Device → Outcome × DeviceThread Device)
    (s : DeviceThread Device) : Outcome × DeviceThread Device :=
  let downstreamDevice := s.currentDevice
  let result := child (s.setCurrentDevice (some upstreamDevice))
  (result.1, (result.2.setCurrentDevice downstreamDevice).record .getAudio upstreamDevice
    downstreamDevice .returned)

end OnDevice

variable {Device : Type} [DecidableEq Device]

/-- A request to a clip. `calls` tells what the engine calls of the thread meet. -/
def Filter.call (calls : ℕ → TransferCall) :
    Filter Device → ClipRequest → DeviceThread Device → Outcome × DeviceThread Device
  | .plain _ children code, request, s =>
    (code request).run (fun r => DeviceThread.withSetter r.device
      ((children r.child).call calls r.request)) s
  | .onDevice child upstreamDevice prefetchFrames numFrames, .frame n, s =>
    OnDevice.getFrame upstreamDevice (child.call calls (.frame n))
      (fun s =>
        let call := calls s.transfers
        let s := { s with transfers := s.transfers + 1 }
        match call.created with
        | .thrown => (.thrown, s)
        | .returned =>
          (CUDAFrameTransferEngine.getFrame prefetchFrames numFrames call n).run
            (fun r : ChildRequest 1 Device => child.call calls r.request) s) s
  | .onDevice child upstreamDevice _ _, .audio start count, s =>
    OnDevice.getAudio upstreamDevice (child.call calls (.audio start count)) s

/-!
## Restoring the current device

Each switch to another device should leave current what was current before it.
`OnDevice::GetFrame` does so only on its normal path: an exception of the transfer
leaves the upstream device current. Over all nestings of switches, each of them
restores the device exactly when no transfer ends with an exception and the
thread has a current device to begin with.
-/

variable {Device : Type}

/-- The switch has left the device current that it found. -/
def SwitchRecord.Restored (r : SwitchRecord Device) : Prop := r.after = r.before

/-- The thread had a current device, and no exception left the transfer of the
frame. -/
def SwitchRecord.Calm (r : SwitchRecord Device) : Prop :=
  match r.switch with
  | .getFrame => r.before ≠ none ∧ r.transfer = .returned
  | .setter => r.before ≠ none
  | .getAudio => True

/-- What a piece of a thread's work adds to its history: the current device is kept
if all the switches were calm, and all of them were calm just when each of them
has restored the device. -/
def Accounted (s t : DeviceThread Device) : Prop :=
  ∃ switches, t.history = s.history ++ switches ∧
    ((∀ r ∈ switches, r.Calm) → t.currentDevice = s.currentDevice) ∧
    ((∀ r ∈ switches, r.Restored) ↔ ∀ r ∈ switches, r.Calm)

namespace Accounted

theorem refl (s : DeviceThread Device) : Accounted s s := by
  use []
  simp

/-- Work that only touches the other parts of the thread. -/
theorem of_eq {s t : DeviceThread Device} (hhistory : t.history = s.history)
    (hdevice : t.currentDevice = s.currentDevice) : Accounted s t := by
  use []
  simp [hhistory, hdevice]

theorem trans {s t u : DeviceThread Device} (hst : Accounted s t) (htu : Accounted t u) :
    Accounted s u := by
  obtain ⟨first, hfirst, hkept, hiff⟩ := hst
  obtain ⟨second, hsecond, hkept', hiff'⟩ := htu
  use first ++ second
  simp only [List.forall_mem_append]
  constructor
  · rw [hsecond, hfirst, List.append_assoc]
  constructor
  · rintro ⟨hcalm, hcalm'⟩
    rw [hkept' hcalm', hkept hcalm]
  · rw [hiff, hiff']

/-- A switch around accounted work. It is enough that the switch has restored the
device just when it was calm, provided the work inside was. -/
theorem switch {s inner t : DeviceThread Device} {upstreamDevice : Device} {r : SwitchRecord Device}
    (hinner : Accounted (s.setCurrentDevice (some upstreamDevice)) inner)
    (hhistory : t.history = inner.history ++ [r]) (hbefore : r.before = s.currentDevice)
    (hafter : r.after = t.currentDevice)
    (hiff : inner.currentDevice = some upstreamDevice → (r.Restored ↔ r.Calm)) :
    Accounted s t := by
  obtain ⟨switches, hswitches, hkept, hrestored⟩ := hinner
  use switches ++ [r]
  simp only [List.forall_mem_append, List.forall_mem_singleton]
  constructor
  · rw [hhistory, hswitches, List.append_assoc]
    rfl
  constructor
  · rintro ⟨hcalm, hr⟩
    rw [← hafter, ← hbefore]
    exact (hiff (hkept hcalm)).mpr hr
  · rw [hrestored]
    constructor
    · rintro ⟨hcalm, hr⟩
      exact ⟨hcalm, (hiff (hkept hcalm)).mp hr⟩
    · rintro ⟨hcalm, hr⟩
      exact ⟨hcalm, (hiff (hkept hcalm)).mpr hr⟩

end Accounted

variable {call : DeviceThread Device → Outcome × DeviceThread Device}

/-- A setter puts back the device whatever happens inside. -/
theorem withSetter_accounted (hcall : ∀ s, Accounted s (call s).2) (device : Option Device)
    (s : DeviceThread Device) : Accounted s (DeviceThread.withSetter device call s).2 := by
  cases device with
  | none => exact hcall s
  | some upstreamDevice =>
    cases hdevice : s.currentDevice with
    | none =>
      -- the constructor throws and leaves the upstream device current
      simp only [DeviceThread.withSetter, hdevice]
      apply Accounted.switch (Accounted.refl _) rfl hdevice.symm rfl
      intro _
      simp [SwitchRecord.Restored, SwitchRecord.Calm, DeviceThread.setCurrentDevice]
    | some downstreamDevice =>
      simp only [DeviceThread.withSetter, hdevice]
      apply Accounted.switch (hcall _) rfl hdevice.symm rfl
      intro _
      simp [SwitchRecord.Restored, SwitchRecord.Calm, DeviceThread.setCurrentDevice]

/-- `GetAudio` puts back the device whatever happens inside. -/
theorem getAudio_accounted (hcall : ∀ s, Accounted s (call s).2) (upstreamDevice : Device)
    (s : DeviceThread Device) : Accounted s (OnDevice.getAudio upstreamDevice call s).2 := by
  apply Accounted.switch (hcall _) rfl rfl rfl
  intro _
  simp [SwitchRecord.Restored, SwitchRecord.Calm, DeviceThread.setCurrentDevice]

variable [DecidableEq Device] {transfer : DeviceThread Device → Outcome × DeviceThread Device}

/-- `GetFrame` puts back the device on its normal paths only. -/
theorem getFrame_accounted (hcall : ∀ s, Accounted s (call s).2)
    (htransfer : ∀ s, Accounted s (transfer s).2) (upstreamDevice : Device)
    (s : DeviceThread Device) :
    Accounted s (OnDevice.getFrame upstreamDevice call transfer s).2 := by
  unfold OnDevice.getFrame
  by_cases hnull : s.currentDevice = none
  · simp only [hnull, if_true]
    apply Accounted.switch (Accounted.refl _) rfl hnull.symm rfl
    intro _
    simp [SwitchRecord.Restored, SwitchRecord.Calm, DeviceThread.setCurrentDevice]
  simp only [hnull, if_false]
  by_cases hsame : s.currentDevice = some upstreamDevice
  · simp only [hsame, if_true]
    apply Accounted.switch (hcall _) rfl hsame.symm rfl
    intro hinner
    simpa [SwitchRecord.Restored, SwitchRecord.Calm, DeviceThread.record] using hinner
  simp only [hsame, if_false]
  have hwork := htransfer (s.setCurrentDevice (some upstreamDevice))
  cases hresult : transfer (s.setCurrentDevice (some upstreamDevice)) with
  | mk outcome inner =>
    rw [hresult] at hwork
    cases outcome with
    | returned =>
      apply Accounted.switch hwork rfl rfl rfl
      intro _
      simp [SwitchRecord.Restored, SwitchRecord.Calm, DeviceThread.setCurrentDevice, hnull]
    | thrown =>
      -- the upstream device is still current
      apply Accounted.switch hwork rfl rfl rfl
      intro hinner
      have hleft : ¬inner.currentDevice = s.currentDevice := by
        intro heq
        exact hsame (heq.symm.trans hinner)
      simpa [SwitchRecord.Restored, SwitchRecord.Calm] using hleft

/-- Every call of every clip is accounted for. -/
theorem Filter.call_accounted (calls : ℕ → TransferCall) (filter : Filter Device)
    (request : ClipRequest) (s : DeviceThread Device) :
    Accounted s (filter.call calls request s).2 := by
  induction filter generalizing request s with
  | plain count children code ih =>
    apply Program.run_respects Accounted.refl (fun _ _ _ => Accounted.trans)
    intro r s
    exact withSetter_accounted (ih r.child r.request) r.device s
  | onDevice child upstreamDevice prefetchFrames numFrames ih =>
    cases request with
    | audio start count => exact getAudio_accounted (ih _) upstreamDevice s
    | frame n =>
      apply getFrame_accounted (ih _)
      intro s
      cases hcreated : (calls s.transfers).created with
      | thrown =>
        simp only [hcreated]
        exact Accounted.of_eq rfl rfl
      | returned =>
        simp only [hcreated]
        apply Accounted.trans (Accounted.of_eq rfl rfl)
        apply Program.run_respects Accounted.refl (fun _ _ _ => Accounted.trans)
        intro r s
        exact ih r.request s

/-- A thread before its first request. -/
def DeviceThread.start (device : Option Device) : DeviceThread Device := ⟨device, 0, []⟩

/-- The request leaves the current device of the thread as it was, and so does
every switch of the device on the way. -/
def Filter.RestoresDevice (filter : Filter Device) (calls : ℕ → TransferCall)
    (request : ClipRequest) (device : Option Device) : Prop :=
  let after := (filter.call calls request (.start device)).2
  after.currentDevice = device ∧ ∀ r ∈ after.history, r.Restored

/-- No exception leaves a transfer on the way, and there always is a current device. -/
def Filter.TransfersCalmly (filter : Filter Device) (calls : ℕ → TransferCall)
    (request : ClipRequest) (device : Option Device) : Prop :=
  ∀ r ∈ (filter.call calls request (.start device)).2.history, r.Calm

/-- The device is restored everywhere in a nesting of switches exactly when no
exception leaves a transfer. -/
theorem Filter.restoresDevice_iff (filter : Filter Device) (calls : ℕ → TransferCall)
    (request : ClipRequest) (device : Option Device) :
    filter.RestoresDevice calls request device ↔ filter.TransfersCalmly calls request device := by
  obtain ⟨switches, hhistory, hkept, hiff⟩ := filter.call_accounted calls request (.start device)
  have hall : (filter.call calls request (.start device)).2.history = switches := hhistory
  simp only [RestoresDevice, TransfersCalmly, hall]
  constructor
  · rintro ⟨-, hrestored⟩
    exact hiff.mp hrestored
  · intro hcalm
    exact ⟨hkept hcalm, hiff.mpr hcalm⟩

/-- A source whose frames cannot be read. -/
def failingSource : Filter ℕ := .plain 0 (fun i => i.elim0) fun _ => .finish .thrown

/-- An engine that is there, has no prefetch and finds nothing in its way. -/
def directTransfer : TransferCall where
  suppressed := false
  created := .returned
  finished := .returned
  scheduled _ := (.noCache, ⟨.noCache, false, .returned⟩, .returned)
  lookup := .noCache
  source := ⟨.noCache, false, .returned⟩
  copied := .returned
  waited := .returned

/-- The failing source behind `OnDevice` for device 1, asked by a thread on device 0. -/
theorem failingSource_leavesDevice :
    ¬(Filter.onDevice failingSource 1 0 10).RestoresDevice (fun _ => directTransfer) (.frame 3)
      (some 0) := by
  rintro ⟨hdevice, -⟩
  revert hdevice
  decide

end AviSynth
