import AviSynth.Library.Runs

/-!
# Global locks

Plugins acquire and release locks by name. The mutexes are in a map, whose entries count
their users; the map and the counts are accessed under the registry lock, while a thread
waits for a mutex without it. A step is what a thread does between two accesses to what
the threads share.
-/

namespace AviSynth

/-- The registry has an entry for each name in use: `LockEntry`, in the map node at an
address of its own. -/
structure LockEntry (Thread : Type) where
  node : ℕ
  /-- Who holds the mutex. -/
  owner : Option Thread
  users : ℕ

/-- How far a thread is with one `acquire` and the `release` that belongs to it. An
iterator leads to a map node. -/
inductive LockStage where
  /-- In `acquire`, before the registry lock. -/
  | acquiring
  /-- With the registry lock, before the lookup. -/
  | reserving
  /-- It has counted itself, still with the registry lock. -/
  | reserved (it : ℕ)
  /-- In `lock` of the mutex. -/
  | waiting (it : ℕ)
  /-- That has thrown; before the registry lock. -/
  | failed (it : ℕ)
  /-- There with the registry lock. -/
  | withdrawing (it : ℕ)
  /-- `acquire` has returned. -/
  | holding
  /-- In `release`, before the registry lock. -/
  | releasing
  /-- With the registry lock, before the lookup. -/
  | finding
  /-- It has unlocked the mutex, still with the registry lock. -/
  | unlocked (it : ℕ)
  deriving DecidableEq

namespace LockStage

/-- It has counted itself among the users. -/
def counted : LockStage → Bool
  | acquiring | reserving => false
  | _ => true

/-- It has the mutex. -/
def holds : LockStage → Bool
  | holding | releasing | finding => true
  | _ => false

/-- It waits for the mutex, or has been told that it will not get it. -/
def waits : LockStage → Bool
  | waiting _ | failed _ => true
  | _ => false

/-- It has the registry lock. -/
def inRegistry : LockStage → Bool
  | reserving | reserved _ | withdrawing _ | finding | unlocked _ => true
  | _ => false

/-- The map node that it goes on with. -/
def node : LockStage → Option ℕ
  | reserved it | waiting it | failed it | withdrawing it | unlocked it => some it
  | _ => none

end LockStage

/-- The use of a lock by a thread. -/
structure LockUse (Thread Name : Type) where
  thread : Thread
  name : Name
  stage : LockStage
  deriving DecidableEq

/-- The statics of `GlobalLockManager`, and what the threads do with them. -/
structure GlobalLocks (Thread Name : Type) where
  namedMutexes : Name → Option (LockEntry Thread)
  /-- The registry lock is taken. -/
  mutexMapLock : Bool
  nextNode : ℕ
  uses : List (LockUse Thread Name)

/-- What a step does apart from changing the state. -/
inductive LockEvent where
  | quiet
  /-- Access to an entry that has been erased, or a mutex unlocked by another thread than
  its owner. -/
  | fault
  deriving DecidableEq

/-- What a thread can do. -/
inductive LockAction (Thread Name : Type) where
  | acquire (thread : Thread) (name : Name)
  /-- `release` of a name that is not in use. -/
  | release (name : Name)
  /-- A thread goes on, or what it calls throws. -/
  | goOn (use : LockUse Thread Name) (throws : Bool)

namespace GlobalLocks

variable {Thread Name : Type} [DecidableEq Thread] [DecidableEq Name]

/-- No name is locked. -/
def initial : GlobalLocks Thread Name := ⟨fun _ => none, false, 0, []⟩

/-- What an iterator leads to. -/
def entryAt (s : GlobalLocks Thread Name) (name : Name) (it : ℕ) : Option (LockEntry Thread) :=
  (s.namedMutexes name).filter fun entry => entry.node = it

/-- A thread goes on to another stage, or is done, with the entry of its name changed. -/
def move (s : GlobalLocks Thread Name) (use : LockUse Thread Name) (stage : Option LockStage)
    (entry : Option (LockEntry Thread)) (mutexMapLock : Bool) : GlobalLocks Thread Name where
  namedMutexes := Function.update s.namedMutexes use.name entry
  mutexMapLock := mutexMapLock
  nextNode := s.nextNode
  uses := (stage.map fun stage => { use with stage := stage }).toList ++ s.uses.erase use

/-- The thread has the registry lock or gives it up; the entry stays. -/
def pass (s : GlobalLocks Thread Name) (use : LockUse Thread Name) (stage : LockStage)
    (mutexMapLock : Bool) : GlobalLocks Thread Name :=
  s.move use (some stage) (s.namedMutexes use.name) mutexMapLock

/-- A user less; the entry is erased with the last one. The registry lock is given up. -/
def dropUser (s : GlobalLocks Thread Name) (use : LockUse Thread Name)
    (entry : LockEntry Thread) : GlobalLocks Thread Name :=
  let users := entry.users - 1
  s.move use none (if users = 0 then none else some { entry with users := users }) false

/-- The next step of a thread, if it can go on. -/
def goOn (s : GlobalLocks Thread Name) (use : LockUse Thread Name) (throws : Bool) :
    Option (GlobalLocks Thread Name × LockEvent) :=
  match use.stage with
  | .acquiring =>
    if s.mutexMapLock then none else some (s.pass use .reserving true, .quiet)
  | .reserving =>
    match s.namedMutexes use.name with
    | none =>
      if throws then some (s.move use none none false, .quiet)
      else
        some ({ s.move use (some (.reserved s.nextNode)) (some ⟨s.nextNode, none, 1⟩) true with
          nextNode := s.nextNode + 1 }, .quiet)
    | some entry =>
      some (s.move use (some (.reserved entry.node))
        (some { entry with users := entry.users + 1 }) true, .quiet)
  | .reserved it => some (s.pass use (.waiting it) false, .quiet)
  | .waiting it =>
    if throws then some (s.pass use (.failed it) s.mutexMapLock, .quiet)
    else
      match s.entryAt use.name it with
      | none => some (s, .fault)
      | some entry =>
        if entry.owner.isNone then
          some (s.move use (some .holding) (some { entry with owner := some use.thread })
            s.mutexMapLock, .quiet)
        else none
  | .failed it =>
    if s.mutexMapLock then none else some (s.pass use (.withdrawing it) true, .quiet)
  | .withdrawing it =>
    match s.entryAt use.name it with
    | none => some (s, .fault)
    | some entry => some (s.dropUser use entry, .quiet)
  | .holding => some (s.pass use .releasing s.mutexMapLock, .quiet)
  | .releasing =>
    if s.mutexMapLock then none else some (s.pass use .finding true, .quiet)
  | .finding =>
    match s.namedMutexes use.name with
    | none => some (s.move use none none false, .quiet)
    | some entry =>
      if entry.owner = some use.thread then
        some (s.move use (some (.unlocked entry.node)) (some { entry with owner := none }) true,
          .quiet)
      else some (s, .fault)
  | .unlocked it =>
    match s.entryAt use.name it with
    | none => some (s, .fault)
    | some entry => some (s.dropUser use entry, .quiet)

/-- One step. Threads release what they have acquired; the release of a name that is not
in use only looks it up. -/
def step (s : GlobalLocks Thread Name) :
    LockAction Thread Name → Option (GlobalLocks Thread Name × LockEvent)
  | .acquire thread name =>
    some ({ s with uses := ⟨thread, name, .acquiring⟩ :: s.uses }, .quiet)
  | .release name =>
    if s.mutexMapLock ∨ (s.namedMutexes name).isSome then none else some (s, .quiet)
  | .goOn use throws => if use ∈ s.uses then s.goOn use throws else none

/-- How many threads hold a lock. -/
def holders (s : GlobalLocks Thread Name) (name : Name) : ℕ :=
  s.uses.countP fun use => use.name = name ∧ use.stage.holds

/-- How many threads wait for a lock. -/
def waiters (s : GlobalLocks Thread Name) (name : Name) : ℕ :=
  s.uses.countP fun use => use.name = name ∧ use.stage.waits

/-- The user count of a name. -/
def users (s : GlobalLocks Thread Name) (name : Name) : ℕ :=
  (s.namedMutexes name).elim 0 LockEntry.users

end GlobalLocks

end AviSynth
