import AviSynth.Environment.GlobalLocks
import AviSynth.Library.Counting

/-!
# What the registry of global locks knows

The entry of a name counts the threads that have reserved it, so it stays as long as one
of them holds the lock or waits for it, and their iterators stay valid.
-/

namespace AviSynth

open Transition Counting LockStage

variable {Thread Name : Type} [DecidableEq Thread] [DecidableEq Name] {stage : LockStage}

namespace LockUse

/-- The thread is counted in the entry of a name. -/
def counts (name : Name) (use : LockUse Thread Name) : Bool :=
  use.name = name && use.stage.counted

/-- The thread holds the lock of a name. -/
def holds (name : Name) (use : LockUse Thread Name) : Bool :=
  use.name = name && use.stage.holds

end LockUse

/-- Where a thread goes on with an iterator, it is counted. -/
theorem LockStage.counted_of_node {it : ℕ} (h : stage.node = some it) :
    stage.counted = true := by
  cases stage <;> simp_all [LockStage.node, counted]

/-- A thread that holds a lock is counted. -/
theorem LockStage.counted_of_holds (h : stage.holds = true) :
    stage.counted = true := by
  cases stage <;> simp_all [holds, counted]

namespace GlobalLocks

variable {s : GlobalLocks Thread Name} {use : LockUse Thread Name}

/-- The users of a name are the threads that are counted; iterators are valid, owners
are holders, and at most one thread has the registry lock. -/
structure Accounted (s : GlobalLocks Thread Name) : Prop where
  users : ∀ name, s.users name = s.uses.countP (LockUse.counts name)
  used : ∀ name, ∀ entry ∈ s.namedMutexes name, 0 < entry.users
  node : ∀ use ∈ s.uses, ∀ it ∈ use.stage.node, ∃ entry ∈ s.namedMutexes use.name, entry.node = it
  owners : ∀ name, s.uses.countP (LockUse.holds name) =
    ((s.namedMutexes name).bind LockEntry.owner).isSome.toNat
  owned : ∀ use ∈ s.uses, use.stage.holds = true →
    ∃ entry ∈ s.namedMutexes use.name, entry.owner = some use.thread
  registry : s.uses.countP (fun use => use.stage.inRegistry) = s.mutexMapLock.toNat

section

variable (h : s.Accounted)
include h

section

variable (huse : use ∈ s.uses)
include huse

/-- A change of the entry of one name by one thread that is counted there keeps the
accounts. -/
theorem Accounted.move {stage : Option LockStage}
    {entry : Option (LockEntry Thread)} {mutexMapLock : Bool}
    (husers : entry.elim 0 LockEntry.users + use.stage.counted.toNat =
      s.users use.name + (stage.elim false counted).toNat)
    (hused : ∀ e ∈ entry, 0 < e.users)
    (hnodes : ∀ e ∈ s.namedMutexes use.name, ∀ e' ∈ entry, e'.node = e.node)
    (hnode : ∀ it ∈ stage.bind LockStage.node, ∃ e ∈ entry, e.node = it)
    (howners : (entry.bind LockEntry.owner).isSome.toNat + use.stage.holds.toNat =
      ((s.namedMutexes use.name).bind LockEntry.owner).isSome.toNat +
        (stage.elim false holds).toNat)
    (hkept : use.stage.holds = false → ∀ e ∈ s.namedMutexes use.name, ∀ e' ∈ entry,
      ∀ thread ∈ e.owner, e'.owner = some thread)
    (howned : stage.elim false holds = true →
      ∃ e ∈ entry, e.owner = some use.thread)
    (hregistry : mutexMapLock.toNat + use.stage.inRegistry.toNat =
      s.mutexMapLock.toNat + (stage.elim false LockStage.inRegistry).toNat) :
    (s.move use stage entry mutexMapLock).Accounted := by
  obtain ⟨s', hs'⟩ : ∃ s', s' = s.move use stage entry mutexMapLock := ⟨_, rfl⟩
  rw [← hs']
  have hentry : s'.namedMutexes use.name = entry := by
    rw [hs']
    exact Function.update_self _ _ _
  have hother : ∀ name, name ≠ use.name → s'.namedMutexes name = s.namedMutexes name := by
    rintro name hne
    rw [hs']
    exact Function.update_of_ne hne _ _
  have huses : s'.uses = (stage.map fun stage => { use with stage := stage }).toList ++
      s.uses.erase use := by rw [hs', GlobalLocks.move]
  have hcount := fun p : LockUse Thread Name → Bool =>
    countP_goesOn huse (stage.map fun stage => { use with stage := stage }) p
  simp only [goesOn, ← huses] at hcount
  have husers' : ∀ name, s'.users name = s'.uses.countP (LockUse.counts name) := by
    intro name
    have hname := hcount (LockUse.counts name)
    rw [← h.users] at hname
    by_cases hne : name = use.name
    · subst hne
      rw [GlobalLocks.users, hentry]
      cases stage <;> simp_all [LockUse.counts] <;> omega
    · rw [GlobalLocks.users, hother name hne, ← GlobalLocks.users]
      cases stage <;> simp_all [LockUse.counts, Ne.symm hne]
  -- The others that are counted keep the entry.
  have hothers : ∀ d ∈ s.uses.erase use, d.name = use.name → d.stage.counted = true →
      ∃ e, entry = some e := by
    rintro d hd hname hcounted
    have hpos : 0 < s'.uses.countP (LockUse.counts use.name) := by
      rw [List.countP_pos_iff]
      exact ⟨d, by simp [huses, hd], by simp [LockUse.counts, hname, hcounted]⟩
    rw [← husers', GlobalLocks.users, hentry] at hpos
    cases entry with
    | none => simp at hpos
    | some e => exact ⟨e, rfl⟩
  exact {
    users := husers'
    used := by
      intro name e he
      by_cases hne : name = use.name
      · subst hne
        exact hused e (hentry ▸ he)
      · exact h.used name e (hother name hne ▸ he)
    node := by
      intro d hd it hit
      rw [huses, List.mem_append] at hd
      obtain hd | hd := hd
      · cases stage with
        | none => simp at hd
        | some stage =>
          obtain rfl : d = { use with stage := stage } := by simpa using hd
          rw [hentry]
          exact hnode it hit
      · obtain ⟨e, he, hnode'⟩ := h.node d (List.mem_of_mem_erase hd) it hit
        by_cases hne : d.name = use.name
        · obtain ⟨e', rfl⟩ := hothers d hd hne (counted_of_node hit)
          rw [hne, hentry]
          exact ⟨e', rfl, (hnodes e (hne ▸ he) e' rfl).trans hnode'⟩
        · rw [hother _ hne]
          exact ⟨e, he, hnode'⟩
    owners := by
      intro name
      have hname := hcount (LockUse.holds name)
      rw [h.owners] at hname
      by_cases hne : name = use.name
      · subst hne
        rw [hentry]
        cases stage <;> simp_all [LockUse.holds] <;> omega
      · rw [hother name hne]
        cases stage <;> simp_all [LockUse.holds, Ne.symm hne]
    owned := by
      intro d hd hholds
      rw [huses, List.mem_append] at hd
      obtain hd | hd := hd
      · cases stage with
        | none => simp at hd
        | some stage =>
          obtain rfl : d = { use with stage := stage } := by simpa using hd
          rw [hentry]
          exact howned hholds
      · obtain ⟨e, he, howner⟩ := h.owned d (List.mem_of_mem_erase hd) hholds
        by_cases hne : d.name = use.name
        · obtain ⟨e', rfl⟩ := hothers d hd hne (counted_of_holds hholds)
          have hnotUse : use.stage.holds = false := by
            by_contra htrue
            rw [Bool.not_eq_false] at htrue
            have hperm := (List.perm_cons_erase huse).countP_eq (LockUse.holds use.name)
            have hpos : 0 < (s.uses.erase use).countP (LockUse.holds use.name) :=
              List.countP_pos_iff.mpr ⟨d, hd, by simp [LockUse.holds, hne, hholds]⟩
            rw [h.owners, List.countP_cons_of_pos (by simp [LockUse.holds, htrue])] at hperm
            have hle := Bool.toNat_le
              ((s.namedMutexes use.name).bind LockEntry.owner).isSome
            omega
          rw [hne, hentry]
          exact ⟨e', rfl, hkept hnotUse e (hne ▸ he) e' rfl _ howner⟩
        · rw [hother _ hne]
          exact ⟨e, he, howner⟩
    registry := by
      have hall := hcount fun use => use.stage.inRegistry
      rw [h.registry] at hall
      have hlock : s'.mutexMapLock = mutexMapLock := by rw [hs', GlobalLocks.move]
      have hstage : ((stage.map fun stage => { use with stage := stage }).elim false
          fun use => use.stage.inRegistry) = stage.elim false LockStage.inRegistry := by
        cases stage <;> rfl
      rw [hstage] at hall
      rw [hlock]
      omega }

omit [DecidableEq Thread] in
/-- A thread in a critical section has the registry lock. -/
theorem Accounted.registry_taken
    (hregistry : use.stage.inRegistry = true) : s.mutexMapLock = true := by
  have hin : 0 < s.uses.countP (fun use => use.stage.inRegistry) :=
    List.countP_pos_iff.mpr ⟨use, huse, hregistry⟩
  rw [h.registry] at hin
  exact Bool.toNat_eq_one.mp (Nat.le_antisymm (Bool.toNat_le _) hin)

/-- A thread that only goes on keeps the accounts. -/
theorem Accounted.pass {mutexMapLock : Bool} (hcounted : stage.counted = use.stage.counted)
    (hholds : stage.holds = use.stage.holds) (hnode : ∀ it ∈ stage.node, it ∈ use.stage.node)
    (hregistry : mutexMapLock.toNat + use.stage.inRegistry.toNat =
      s.mutexMapLock.toNat + stage.inRegistry.toNat) :
    (s.pass use stage mutexMapLock).Accounted := by
  refine h.move huse ?_ (h.used use.name) ?_ ?_ ?_ ?_ ?_ hregistry
  · rw [Option.elim_some, hcounted]
    rfl
  · rintro e he e' he'
    rw [Option.mem_unique he he']
  · rintro it hit
    exact h.node use huse it (hnode it hit)
  · rw [Option.elim_some, hholds]
  · rintro - e he e' he' thread howner
    rw [Option.mem_unique he' he]
    exact howner
  · rintro hlocked
    exact h.owned use huse (hholds ▸ hlocked)

omit [DecidableEq Thread] in
/-- The iterator of a thread is valid. -/
theorem Accounted.entryAt {it : ℕ} (hit : use.stage.node = some it) :
    ∃ entry, s.namedMutexes use.name = some entry ∧ s.entryAt use.name it = some entry := by
  obtain ⟨entry, hentry, hnode⟩ := h.node use huse it hit
  refine ⟨entry, hentry, ?_⟩
  rw [GlobalLocks.entryAt, Option.mem_def.mp hentry]
  simp [hnode]

variable {entry : LockEntry Thread}

/-- The last user of an entry takes it away, the others leave it to the rest. -/
theorem Accounted.dropUser (hentry : s.namedMutexes use.name = some entry)
    (hcounted : use.stage.counted = true) (hholds : use.stage.holds = false)
    (hregistry : use.stage.inRegistry = true) : (s.dropUser use entry).Accounted := by
  have hpos : 0 < entry.users := h.used use.name entry hentry
  have hlock := h.registry_taken huse hregistry
  -- Without other users nobody owns the mutex.
  have hlast : entry.users - 1 = 0 → entry.owner = none := by
    intro hzero
    by_contra howner
    have hsome : entry.owner.isSome = true := by
      rwa [Option.isSome_iff_ne_none]
    have howners := h.owners use.name
    rw [hentry, Option.bind_some, hsome] at howners
    have hone : 0 < s.uses.countP (LockUse.holds use.name) := by
      rw [howners]
      decide
    obtain ⟨d, hd, hdholds⟩ := List.countP_pos_iff.mp hone
    simp only [LockUse.holds, Bool.and_eq_true, decide_eq_true_eq] at hdholds
    have hne : d ≠ use := by
      rintro rfl
      rw [hholds] at hdholds
      exact absurd hdholds.2 (by decide)
    have hperm := (List.perm_cons_erase huse).countP_eq (LockUse.counts use.name)
    rw [← h.users, GlobalLocks.users, hentry, Option.elim_some,
      List.countP_cons_of_pos (by simp [LockUse.counts, hcounted])] at hperm
    have hother : 0 < (s.uses.erase use).countP (LockUse.counts use.name) :=
      List.countP_pos_iff.mpr ⟨d, (List.mem_erase_of_ne hne).mpr hd,
        by simp [LockUse.counts, hdholds.1, counted_of_holds hdholds.2]⟩
    omega
  refine h.move huse ?_ ?_ ?_ ?_ ?_ ?_ ?_ ?_
  · simp only [GlobalLocks.users, hentry, hcounted, Option.elim_some, Option.elim_none]
    split
    · next hzero =>
      simp only [Option.elim_none, Bool.toNat_true, Bool.toNat_false]
      omega
    · simp only [Option.elim_some, Bool.toNat_true, Bool.toNat_false]
      omega
  · rintro e he
    split at he
    · simp at he
    · obtain rfl : { entry with users := entry.users - 1 } = e := by simpa using he
      exact Nat.pos_of_ne_zero ‹_›
  · rintro e he e' he'
    obtain rfl : entry = e := Option.some.inj (hentry.symm.trans he)
    split at he'
    · simp at he'
    · obtain rfl : { entry with users := entry.users - 1 } = e' := by simpa using he'
      rfl
  · rintro it hit
    simp at hit
  · rw [hentry, Option.bind_some, hholds]
    split
    · next hzero => rw [hlast hzero]; rfl
    · rfl
  · rintro - e he e' he' thread howner
    obtain rfl : entry = e := Option.some.inj (hentry.symm.trans he)
    split at he'
    · simp at he'
    · obtain rfl : { entry with users := entry.users - 1 } = e' := by simpa using he'
      exact howner
  · rintro hfalse
    simp at hfalse
  · simp [hregistry, hlock]

/-- A release that has unlocked the mutex can go on. It gives up the registry lock and is
done, and the entry goes with the last user. -/
theorem Accounted.release_ends {it : ℕ} (hstage : use.stage = .unlocked it) (throws : Bool) :
    ∃ t, s.goOn use throws = some (t, .quiet) ∧ t.mutexMapLock = false ∧
      t.uses = s.uses.erase use ∧ (t.namedMutexes use.name = none ↔ s.users use.name = 1) := by
  obtain ⟨entry, hentry, hat⟩ := h.entryAt huse (by rw [hstage]; rfl)
  refine ⟨s.dropUser use entry, by simp only [GlobalLocks.goOn, hstage, hat], rfl, rfl, ?_⟩
  have hpos : 0 < entry.users := h.used use.name entry hentry
  simp only [GlobalLocks.dropUser, GlobalLocks.move, Function.update_self, GlobalLocks.users,
    hentry, Option.elim_some, ite_eq_left_iff, reduceCtorEq, imp_false, not_not]
  omega

omit huse h in
omit [DecidableEq Thread] [DecidableEq Name] in
/-- The mutex of a name stays the one that it is. -/
theorem same_node {name : Name} {entry entry' : LockEntry Thread}
    (hentry : s.namedMutexes name = some entry) (hnode : entry'.node = entry.node) :
    ∀ e ∈ s.namedMutexes name, ∀ e' ∈ some entry', e'.node = e.node := by
  rintro e he e' he'
  obtain rfl := Option.some.inj (hentry.symm.trans he)
  obtain rfl := Option.some.inj he'
  exact hnode

/-- The first thread that reserves a name makes its entry. -/
theorem Accounted.reserveNew (hstage : use.stage = .reserving)
    (hentry : s.namedMutexes use.name = none) (node : ℕ) :
    (s.move use (some (.reserved node)) (some ⟨node, none, 1⟩) true).Accounted := by
  have hlock := h.registry_taken huse (by simp [hstage, LockStage.inRegistry])
  refine h.move huse ?_ ?_ ?_ ?_ ?_ ?_ ?_ ?_
  · simp [GlobalLocks.users, hentry, hstage, counted]
  · rintro e he
    obtain rfl := Option.some.inj he
    exact Nat.one_pos
  · rintro e he
    simp [hentry] at he
  · rintro it hit
    exact ⟨_, rfl, Option.some.inj hit⟩
  · simp [hentry, hstage, holds]
  · rintro - e he
    simp [hentry] at he
  · rintro hfalse
    simp [holds] at hfalse
  · simp [hstage, LockStage.inRegistry, hlock]

/-- The others count themselves in the entry. -/
theorem Accounted.reserve (hstage : use.stage = .reserving)
    (hentry : s.namedMutexes use.name = some entry) :
    (s.move use (some (.reserved entry.node)) (some { entry with users := entry.users + 1 })
      true).Accounted := by
  have hlock := h.registry_taken huse (by simp [hstage, LockStage.inRegistry])
  refine h.move huse ?_ ?_ ?_ ?_ ?_ ?_ ?_ ?_
  · simp [GlobalLocks.users, hentry, hstage, counted]
  · rintro e he
    obtain rfl := Option.some.inj he
    exact Nat.succ_pos _
  · exact same_node hentry rfl
  · rintro it hit
    exact ⟨_, rfl, Option.some.inj hit⟩
  · simp [hentry, hstage, holds]
  · rintro - e he e' he' thread howner
    obtain rfl := Option.some.inj (hentry.symm.trans he)
    obtain rfl := Option.some.inj he'
    exact howner
  · rintro hfalse
    simp [holds] at hfalse
  · simp [hstage, LockStage.inRegistry, hlock]

/-- Without memory for the entry, `acquire` leaves nothing behind. -/
theorem Accounted.leave (hstage : use.stage = .reserving)
    (hentry : s.namedMutexes use.name = none) :
    (s.move use none none false).Accounted := by
  have hlock := h.registry_taken huse (by simp [hstage, LockStage.inRegistry])
  refine h.move huse ?_ ?_ ?_ ?_ ?_ ?_ ?_ ?_
  · simp [GlobalLocks.users, hentry, hstage, counted]
  · simp
  · simp
  · simp
  · simp [hentry, hstage, holds]
  · simp
  · simp
  · simp [hstage, LockStage.inRegistry, hlock]

/-- A thread locks a mutex that nobody owns. -/
theorem Accounted.lock {it : ℕ} (hstage : use.stage = .waiting it)
    (hentry : s.namedMutexes use.name = some entry) (howner : entry.owner = none) :
    (s.move use (some .holding) (some { entry with owner := some use.thread })
      s.mutexMapLock).Accounted := by
  refine h.move huse ?_ ?_ ?_ ?_ ?_ ?_ ?_ ?_
  · simp [GlobalLocks.users, hentry, hstage, counted]
  · rintro e he
    obtain rfl := Option.some.inj he
    exact h.used use.name entry hentry
  · exact same_node hentry rfl
  · simp [LockStage.node]
  · simp [hentry, hstage, holds, howner]
  · rintro - e he e' he' thread hthread
    obtain rfl := Option.some.inj (hentry.symm.trans he)
    simp [howner] at hthread
  · rintro -
    exact ⟨_, rfl, rfl⟩
  · simp [hstage, LockStage.inRegistry]

/-- The owner unlocks the mutex. -/
theorem Accounted.unlock (hstage : use.stage = .finding)
    (hentry : s.namedMutexes use.name = some entry) (howner : entry.owner = some use.thread) :
    (s.move use (some (.unlocked entry.node)) (some { entry with owner := none })
      true).Accounted := by
  have hlock := h.registry_taken huse (by simp [hstage, LockStage.inRegistry])
  refine h.move huse ?_ ?_ ?_ ?_ ?_ ?_ ?_ ?_
  · simp [GlobalLocks.users, hentry, hstage, counted]
  · rintro e he
    obtain rfl := Option.some.inj he
    exact h.used use.name entry hentry
  · exact same_node hentry rfl
  · rintro it hit
    exact ⟨_, rfl, Option.some.inj hit⟩
  · simp [hentry, hstage, holds, howner]
  · rintro hfalse
    simp [hstage, holds] at hfalse
  · simp [holds]
  · simp [hstage, LockStage.inRegistry, hlock]

omit huse in
omit [DecidableEq Thread] in
/-- A further thread changes nothing before it has the registry lock. -/
theorem Accounted.acquire (thread : Thread) (name : Name) :
    ({ s with uses := ⟨thread, name, .acquiring⟩ :: s.uses } :
      GlobalLocks Thread Name).Accounted where
  users other := by
    rw [List.countP_cons_of_neg (by simp [LockUse.counts, counted])]
    exact h.users other
  used := h.used
  node d hd it hit := by
    obtain rfl | hd := List.mem_cons.mp hd
    · simp [LockStage.node] at hit
    · exact h.node d hd it hit
  owners other := by
    rw [List.countP_cons_of_neg (by simp [LockUse.holds, holds])]
    exact h.owners other
  owned d hd hholds := by
    obtain rfl | hd := List.mem_cons.mp hd
    · simp [holds] at hholds
    · exact h.owned d hd hholds
  registry := by
    rw [List.countP_cons_of_neg (by simp [LockStage.inRegistry])]
    exact h.registry

/-- A step of a thread keeps the accounts and finds everything in its place. -/
theorem Accounted.goOn {throws : Bool}
    {t : GlobalLocks Thread Name} {event : LockEvent}
    (hstep : s.goOn use throws = some (t, event)) : t.Accounted ∧ event = .quiet := by
  unfold GlobalLocks.goOn at hstep
  cases hstage : use.stage with
  | acquiring | failed | releasing =>
    simp only [hstage, Option.ite_none_left_eq_some, Option.some.injEq, Prod.mk.injEq] at hstep
    obtain ⟨hlock, rfl, rfl⟩ := hstep
    refine ⟨h.pass huse ?_ ?_ ?_ ?_, rfl⟩ <;> simp_all [counted, holds,
      LockStage.node, LockStage.inRegistry]
  | reserving =>
    simp only [hstage] at hstep
    cases hentry : s.namedMutexes use.name with
    | none =>
      simp only [hentry] at hstep
      split at hstep
      · obtain ⟨⟩ := Option.some.inj hstep
        exact ⟨h.leave huse hstage hentry, rfl⟩
      · obtain ⟨⟩ := Option.some.inj hstep
        obtain ⟨husers, hused, hnode, howners, howned, hregistry⟩ :=
          h.reserveNew huse hstage hentry s.nextNode
        exact ⟨⟨husers, hused, hnode, howners, howned, hregistry⟩, rfl⟩
    | some entry =>
      simp only [hentry] at hstep
      obtain ⟨⟩ := Option.some.inj hstep
      exact ⟨h.reserve huse hstage hentry, rfl⟩
  | reserved it =>
    have hlock := h.registry_taken huse (by simp [hstage, LockStage.inRegistry])
    simp only [hstage] at hstep
    obtain ⟨⟩ := Option.some.inj hstep
    refine ⟨h.pass huse ?_ ?_ ?_ ?_, rfl⟩ <;> simp_all [counted, holds,
      LockStage.node, LockStage.inRegistry]
  | waiting it =>
    obtain ⟨entry, hentry, hat⟩ := h.entryAt huse (by rw [hstage]; rfl)
    simp only [hstage, hat] at hstep
    split at hstep
    · obtain ⟨⟩ := Option.some.inj hstep
      refine ⟨h.pass huse ?_ ?_ ?_ ?_, rfl⟩ <;> simp_all [counted, holds,
        LockStage.node, LockStage.inRegistry]
    · split at hstep
      · next howner =>
        obtain ⟨⟩ := Option.some.inj hstep
        exact ⟨h.lock huse hstage hentry (Option.isNone_iff_eq_none.mp howner), rfl⟩
      · simp at hstep
  | withdrawing it | unlocked it =>
    obtain ⟨entry, hentry, hat⟩ := h.entryAt huse (by rw [hstage]; rfl)
    simp only [hstage, hat] at hstep
    obtain ⟨⟩ := Option.some.inj hstep
    refine ⟨h.dropUser huse hentry ?_ ?_ ?_, rfl⟩ <;> simp [hstage, counted,
      holds, LockStage.inRegistry]
  | holding =>
    simp only [hstage] at hstep
    obtain ⟨⟩ := Option.some.inj hstep
    refine ⟨h.pass huse ?_ ?_ ?_ ?_, rfl⟩ <;> simp_all [counted, holds,
      LockStage.node, LockStage.inRegistry]
  | finding =>
    obtain ⟨entry, hentry, howner⟩ := h.owned use huse (by simp [hstage, holds])
    rw [Option.mem_def] at hentry
    simp only [hstage, hentry, howner, if_true] at hstep
    obtain ⟨⟩ := Option.some.inj hstep
    exact ⟨h.unlock huse hstage hentry howner, rfl⟩

end

theorem Accounted.step {a : LockAction Thread Name} {t : GlobalLocks Thread Name}
    {event : LockEvent} (hstep : s.step a = some (t, event)) :
    t.Accounted ∧ event = .quiet := by
  cases a with
  | acquire thread name =>
    obtain ⟨⟩ := Option.some.inj hstep
    exact ⟨h.acquire thread name, rfl⟩
  | release name =>
    simp only [GlobalLocks.step, Option.ite_none_left_eq_some, Option.some.injEq,
      Prod.mk.injEq] at hstep
    obtain ⟨-, rfl, rfl⟩ := hstep
    exact ⟨h, rfl⟩
  | goOn use throws =>
    simp only [GlobalLocks.step, Option.ite_none_right_eq_some] at hstep
    exact h.goOn hstep.1 hstep.2

end

omit [DecidableEq Thread] in
theorem Accounted.initial : (initial : GlobalLocks Thread Name).Accounted where
  users _ := rfl
  used _ _ he := by simp [GlobalLocks.initial] at he
  node _ hd := by simp [GlobalLocks.initial] at hd
  owners _ := rfl
  owned _ hd := by simp [GlobalLocks.initial] at hd
  registry := rfl

/-- The accounts are kept in every run. -/
theorem accounted_run {history : List LockEvent} (hrun : Run step always initial history s) :
    s.Accounted :=
  hrun.invariant (fun _ s => s.Accounted) Accounted.initial
    fun hs _ hstep => (Accounted.step hs hstep).1

/-- What users of the registry rely on. The counts are looked at under the registry lock. -/
structure Sound (s : GlobalLocks Thread Name) : Prop where
  exclusive : ∀ name, s.holders name ≤ 1
  counted : s.mutexMapLock = false → ∀ name, s.users name = s.holders name + s.waiters name
  reclaimed : s.mutexMapLock = false → (∀ name, s.holders name + s.waiters name = 0) →
    ∀ name, s.namedMutexes name = none

omit [DecidableEq Thread] in
/-- Without an entry nobody holds a lock or waits for it. -/
theorem Accounted.unused (h : s.Accounted) {name : Name} (hentry : s.namedMutexes name = none) :
    s.holders name = 0 ∧ s.waiters name = 0 := by
  have hzero : s.uses.countP (LockUse.counts name) = 0 := by
    rw [← h.users, GlobalLocks.users, hentry, Option.elim_none]
  rw [List.countP_eq_zero] at hzero
  constructor
  · refine List.countP_eq_zero.mpr fun d hd hholds => hzero d hd ?_
    simp only [decide_eq_true_eq] at hholds
    simp [LockUse.counts, hholds.1, counted_of_holds hholds.2]
  · refine List.countP_eq_zero.mpr fun d hd hwaits => hzero d hd ?_
    simp only [decide_eq_true_eq] at hwaits
    obtain ⟨hname, hstage⟩ := hwaits
    cases hd : d.stage <;> simp_all [waits, counted, LockUse.counts]

omit [DecidableEq Thread] in
/-- Outside of critical sections, who is counted holds the lock or waits for it. -/
theorem Accounted.sound (h : s.Accounted) : s.Sound := by
  have hholders : ∀ name, s.holders name = s.uses.countP (LockUse.holds name) := by
    intro name
    exact List.countP_congr fun d _ => by simp [LockUse.holds]
  have hcounted : s.mutexMapLock = false → ∀ name,
      s.users name = s.holders name + s.waiters name := by
    intro hfree name
    have hnobody := h.registry
    rw [hfree, Bool.toNat_false, List.countP_eq_zero] at hnobody
    rw [h.users]
    refine countP_add fun d hd => ?_
    have hstage := hnobody d hd
    by_cases hname : d.name = name
    · cases hd : d.stage <;> simp_all [LockUse.counts, counted, holds,
        waits, LockStage.inRegistry]
    · simp [LockUse.counts, hname]
  refine ⟨fun name => ?_, hcounted, fun hfree hnobody name => ?_⟩
  · rw [hholders, h.owners]
    exact Bool.toNat_le _
  · have husers := hcounted hfree name
    rw [hnobody] at husers
    cases hentry : s.namedMutexes name with
    | none => rfl
    | some entry =>
      rw [GlobalLocks.users, hentry, Option.elim_some] at husers
      have hpos : 0 < entry.users := h.used name entry hentry
      omega

end GlobalLocks

open GlobalLocks

/-- In every interleaving at most one thread holds a name, the user count of a name is
the number of its holder and its waiters, and the registry is empty when no lock is held
or awaited. No step goes wrong, and one that erases an entry leaves nobody who holds the
lock or waits for it. -/
theorem globalLocks_sound {history : List LockEvent} {s : GlobalLocks Thread Name}
    (hrun : Run GlobalLocks.step always initial history s) :
    s.Sound ∧ ∀ a t event, s.step a = some (t, event) → event = .quiet ∧
      ∀ name, s.namedMutexes name ≠ none → t.namedMutexes name = none →
        t.holders name = 0 ∧ t.waiters name = 0 := by
  have haccounted := accounted_run hrun
  refine ⟨haccounted.sound, fun a t event hstep => ?_⟩
  obtain ⟨hnext, hquiet⟩ := haccounted.step hstep
  exact ⟨hquiet, fun name _ herased => hnext.unused herased⟩

/-- A thread waits for a lock that another one holds, gets it and gives it up; the step that
ends its release erases the entry. -/
theorem globalLocks_sound_contended :
    ∃ s t : GlobalLocks ℕ ℕ, s.step (.goOn ⟨2, 7, .unlocked 0⟩ false) = some (t, .quiet) ∧
      s.Sound ∧ t.holders 7 = 0 ∧ t.waiters 7 = 0 ∧ t.mutexMapLock = false ∧ t.uses = [] := by
  obtain ⟨history, s, hrun, hcheck⟩ := exists_run GlobalLocks.step always
    (initial : GlobalLocks ℕ ℕ)
    [.acquire 1 7, .goOn ⟨1, 7, .acquiring⟩ false, .goOn ⟨1, 7, .reserving⟩ false,
      .goOn ⟨1, 7, .reserved 0⟩ false, .goOn ⟨1, 7, .waiting 0⟩ false,
      .acquire 2 7, .goOn ⟨2, 7, .acquiring⟩ false, .goOn ⟨2, 7, .reserving⟩ false,
      .goOn ⟨2, 7, .reserved 0⟩ false, .goOn ⟨1, 7, .holding⟩ false,
      .goOn ⟨1, 7, .releasing⟩ false, .goOn ⟨1, 7, .finding⟩ false,
      .goOn ⟨1, 7, .unlocked 0⟩ false, .goOn ⟨2, 7, .waiting 0⟩ false,
      .goOn ⟨2, 7, .holding⟩ false, .goOn ⟨2, 7, .releasing⟩ false, .goOn ⟨2, 7, .finding⟩ false]
    (fun _ s => s.uses = [⟨2, 7, .unlocked 0⟩] ∧ s.users 7 = 1) (by decide +kernel)
  obtain ⟨huses, husers⟩ := of_decide_eq_true hcheck
  obtain ⟨hsound, hsteps⟩ := globalLocks_sound hrun
  have huse : (⟨2, 7, .unlocked 0⟩ : LockUse ℕ ℕ) ∈ s.uses := huses ▸ List.mem_cons_self
  obtain ⟨t, hstep, hlock, hrest, hentry⟩ := (accounted_run hrun).release_ends huse rfl false
  have hgoOn : s.step (.goOn ⟨2, 7, .unlocked 0⟩ false) = some (t, .quiet) :=
    (if_pos huse).trans hstep
  have herased : t.namedMutexes 7 = none := hentry.mpr husers
  have hused : s.namedMutexes 7 ≠ none := by
    intro hnone
    rw [GlobalLocks.users, hnone] at husers
    cases husers
  obtain ⟨hholders, hwaiters⟩ := (hsteps _ _ _ hgoOn).2 7 hused herased
  exact ⟨s, t, hgoOn, hsound, hholders, hwaiters, hlock, by rw [hrest, huses]; rfl⟩

end AviSynth
