import AviSynth.Cache.AudioCache
import AviSynth.Cache.CacheManager

/-!
# The guard of the caches of a clip

A `CacheGuard` has one cache for each device, which it makes when the first request
comes from that device. A hint goes to the caches that are there already. For those
that are made later the guard keeps the last value of each hint, and gives it to them
where it is not the default.
-/

namespace AviSynth

open MachineInt

namespace AudioPolicy

/-- The policy with a value of `CachePolicyHint`. -/
def ofInt (value : ℤ) : Option AudioPolicy :=
  if value = 50 then some .audio
  else if value = 51 then some .audioNothing
  else if value = 52 then some .audioAutoStartOff
  else if value = 53 then some .audioAutoStartOn
  else none

/-- Whether the hint makes a buffer. -/
def starts : AudioPolicy → Bool
  | .audio | .audioAutoStartOn => true
  | .audioNothing | .audioAutoStartOff => false

end AudioPolicy

/-- The hints that a guard acts on. The first three are those of version 2.5. -/
inductive CacheHint where
  | audio25
  | audioNone25
  | audioAuto25
  | setMinCapacity
  | setMaxCapacity
  | audio (policy : AudioPolicy)
  | other
  deriving DecidableEq

/-- `CacheGuard::CacheHints`. -/
structure CacheHints where
  min : ℕ
  max : ℕ
  audioPolicy : AudioPolicy
  audioSize : Int32
  deriving DecidableEq

/-- What a clip answers when it is asked how its audio should be cached. -/
structure ChildAudio where
  version : ℤ
  /-- The answer to `CACHE_GETCHILD_AUDIO_MODE`. -/
  audioMode : ℤ
  /-- The answer to `CACHE_GETCHILD_AUDIO_SIZE`. -/
  audioSize : Int32

/-- An `AvsCache` in the list of a guard. -/
structure DeviceCache (D V α : Type) where
  device : D
  video : LruCache ℕ V
  audio : AudioCache α

variable {D V α : Type} (vi : AudioInfo) (undef : ℤ → α) (mode : CacheMode) (child : ChildAudio)

namespace DeviceCache

/-- `AvsCache::SetCacheHints`. -/
def setCacheHints (c : DeviceCache D V α) (hint : CacheHint) (frameRange : Int32) :
    DeviceCache D V α :=
  match hint with
  | .setMinCapacity =>
    { c with video :=
        c.video.setLimits (sizeOfInt frameRange.toInt) c.video.mainCache.maxCapacity }
  | .setMaxCapacity =>
    { c with video :=
        c.video.setLimits c.video.mainCache.minCapacity (sizeOfInt frameRange.toInt) }
  | .audio policy => { c with audio := c.audio.setCacheHints vi undef policy frameRange.toInt }
  | .audio25 | .audioNone25 | .audioAuto25 | .other => c

/-- The constructor of `AvsCache`, which asks the child for its policy. It throws when
the child answers with none. -/
def new (device : D) : Option (DeviceCache D V α) :=
  let c : DeviceCache D V α := ⟨device, LruCache.new 0 mode, AudioCache.new vi undef⟩
  let overAvs25 := 5 ≤ child.version
  let childAudioPolicy := if overAvs25 then child.audioMode else 0
  let size := if overAvs25 then child.audioSize else 0
  let policy := if childAudioPolicy = 0 then some c.audio.audioPolicy
    else AudioPolicy.ofInt childAudioPolicy
  policy.map fun policy => c.setCacheHints vi undef (.audio policy) size

end DeviceCache

/-- The fields of `CacheGuard` that hints change. -/
structure CacheGuard (D V α : Type) where
  hints : CacheHints
  deviceCaches : List (DeviceCache D V α)

namespace CacheGuard

/-- The policy of a guard or a cache that nobody has given one. -/
def defaultPolicy : AudioPolicy := if vi.HasAudio then .audioAutoStartOff else .audioNothing

/-- The constructor. -/
def new : CacheGuard D V α := ⟨⟨0, sizeMax, defaultPolicy vi, 0⟩, []⟩

/-- Whether the last audio hint is not the default. -/
def Changed (hints : CacheHints) : Prop :=
  hints.audioPolicy ≠ defaultPolicy vi ∨ hints.audioSize ≠ 0
  deriving Decidable

/-- The hints that `GetCache` gives to a new cache. -/
def replay (hints : CacheHints) (c : DeviceCache D V α) : DeviceCache D V α :=
  let c := if hints.min ≠ 0 then
    c.setCacheHints vi undef .setMinCapacity (Int32.ofInt hints.min) else c
  let c := if hints.max ≠ sizeMax then
    c.setCacheHints vi undef .setMaxCapacity (Int32.ofInt hints.max) else c
  if Changed vi hints then c.setCacheHints vi undef (.audio hints.audioPolicy) hints.audioSize
  else c

/-- `GetCache` for the current device. The constructor of a cache can throw. -/
def getCache [DecidableEq D] (g : CacheGuard D V α) (device : D) (useChildIfNotFound : Bool) :
    CacheGuard D V α :=
  if g.deviceCaches.any (fun c => c.device = device) then g
  else if useChildIfNotFound then g
  else match DeviceCache.new vi undef mode child device with
    | some c => { g with deviceCaches := g.deviceCaches ++ [replay vi undef g.hints c] }
    | none => g

/-- `ApplyHints`. -/
def applyHints (g : CacheGuard D V α) (hint : CacheHint) (frameRange : Int32) :
    CacheGuard D V α :=
  { g with deviceCaches := g.deviceCaches.map fun c => c.setCacheHints vi undef hint frameRange }

/-- The translation of the hints of version 2.5. -/
def translate (hint : CacheHint) (frameRange : Int32) : CacheHint × Int32 :=
  match hint with
  | .audio25 => (.audio .audio, frameRange)
  | .audioNone25 => (.audio .audioAutoStartOff, 0)
  | .audioAuto25 => (.audio .audioAutoStartOn, frameRange)
  | hint => (hint, frameRange)

/-- `SetCacheHints`. -/
def setCacheHints (g : CacheGuard D V α) (hint : CacheHint) (frameRange : Int32) :
    CacheGuard D V α :=
  match translate hint frameRange with
  | (.setMinCapacity, frameRange) =>
    { g with hints := { g.hints with min := sizeOfInt frameRange.toInt } }.applyHints vi undef
      .setMinCapacity frameRange
  | (.setMaxCapacity, frameRange) =>
    { g with hints := { g.hints with max := sizeOfInt frameRange.toInt } }.applyHints vi undef
      .setMaxCapacity frameRange
  | (.audio policy, frameRange) =>
    { g with hints := { g.hints with audioPolicy := policy, audioSize := frameRange } }.applyHints
      vi undef (.audio policy) frameRange
  | _ => g

/-- What happens to a guard. -/
inductive Action (D : Type) where
  /-- A hint is given. -/
  | hint (hint : CacheHint) (frameRange : Int32)
  /-- A request comes from a device; the flag says that it comes from inside `Invoke`. -/
  | getCache (device : D) (useChildIfNotFound : Bool)
  deriving DecidableEq

/-- One step of a guard, which is seen from outside. -/
def step [DecidableEq D] (g : CacheGuard D V α) (a : Action D) :
    Option (CacheGuard D V α × Action D) :=
  match a with
  | .hint hint frameRange => some (g.setCacheHints vi undef hint frameRange, a)
  | .getCache device useChild => some (g.getCache vi undef mode child device useChild, a)

end CacheGuard

end AviSynth
