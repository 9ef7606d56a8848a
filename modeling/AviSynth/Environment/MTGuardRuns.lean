import AviSynth.Environment.MTGuard
import Mathlib.Data.List.Nodup
import Mathlib.Data.Nat.Basic

/-!
# Guards over whole runs

Two things are kept by every step: what the array of children and the counts are,
with what the `EnableMT` calls under way are about to put there, and where the
calls of the children are. The second needs that an array is replaced only while
no call refers to it.
-/

namespace AviSynth

namespace MTGuard

open Counting Transition EnableCall ChildCall

/-! ## Steps -/

/-- What a step can do. -/
inductive Moves (s : MTGuard) : GuardAction → MTGuard → Prop
  | enableMT {nThreads} (hpos : 1 ≤ nThreads) : Moves s (.enableMT nThreads) (s.enableMT nThreads)
  | instantiateFilter {call newchilds} (hcall : call ∈ s.enabling)
      (hprogress : call.progress = .building newchilds) (hlt : newchilds.length < call.nThreads) :
      Moves s (.instantiateFilter call) { s with
        enabling := goesOn s.enabling call
          (some { call with progress := .building (newchilds ++ [s.nextFilter]) })
        nextFilter := s.nextFilter + 1 }
  | fail {call} (hcall : call ∈ s.enabling) (hprogress : call.progress ≠ .counting true) :
      Moves s (.fail call) { s with enabling := goesOn s.enabling call none }
  | replace {call newchilds} (hcall : call ∈ s.enabling)
      (hprogress : call.progress = .building newchilds) (hle : call.nThreads ≤ newchilds.length) :
      Moves s (.replace call) { s with
        guard := { s.guard with array := s.nextArray, childFilters := newchilds }
        enabling := goesOn s.enabling call (some { call with progress := .counting true })
        nextArray := s.nextArray + 1 }
  | setCounts {call replaced} (hcall : call ∈ s.enabling)
      (hprogress : call.progress = .counting replaced) :
      Moves s (.setCounts call) { s with
        guard := s.guard.setCounts call.nThreads
        enabling := goesOn s.enabling call none }
  | request {request threadId index} (hindex : s.guard.clipIndex threadId = some index) :
      Moves s (.request request threadId)
        { s with calls := ⟨request, threadId, index, .indexed⟩ :: s.calls }
  | refer {call} (hcall : call ∈ s.calls) (hprogress : call.progress = .indexed) :
      Moves s (.refer call) { s with
        calls := goesOn s.calls call (some { call with progress := .waiting s.guard.array }) }
  | enter {call array} (hcall : call ∈ s.calls) (hprogress : call.progress = .waiting array)
      (hfree : s.guard.Locks → s.calls.countP (isInsideAt array call.index) = 0) :
      Moves s (.enter call) { s with
        calls := goesOn s.calls call (some { call with
          progress := .inside array
            (if array = s.guard.array then s.guard.childFilters[call.index]? else none) }) }
  | leave {call array child} (hcall : call ∈ s.calls)
      (hprogress : call.progress = .inside array child) :
      Moves s (.leave call) { s with calls := goesOn s.calls call none }

variable {action : GuardAction} {first bound : ℕ} {s t : MTGuard} {filters : List ℕ}

/-- What a step does. -/
theorem moves_next (h : s.next action = some t) :
    Moves s action t := by
  cases action with
  | enableMT nThreads =>
      obtain ⟨hpos, rfl⟩ := by simpa [next] using h
      exact .enableMT hpos
  | instantiateFilter call =>
      obtain ⟨hcall, h⟩ := by simpa only [next, Option.ite_none_right_eq_some] using h
      unfold instantiateFilter at h
      split at h
      · next newchilds hprogress =>
        obtain ⟨hlt, h⟩ := by simpa only [Option.ite_none_right_eq_some] using h
        cases h
        exact .instantiateFilter hcall hprogress hlt
      · cases h
  | fail call =>
      obtain ⟨hcall, h⟩ := by simpa only [next, Option.ite_none_right_eq_some] using h
      obtain ⟨hprogress, h⟩ := by simpa only [fail, Option.ite_none_left_eq_some] using h
      cases h
      exact .fail hcall hprogress
  | replace call =>
      obtain ⟨hcall, h⟩ := by simpa only [next, Option.ite_none_right_eq_some] using h
      unfold replace at h
      split at h
      · next newchilds hprogress =>
        obtain ⟨hle, h⟩ := by simpa only [Option.ite_none_left_eq_some] using h
        cases h
        exact .replace hcall hprogress (Nat.le_of_not_lt hle)
      · cases h
  | setCounts call =>
      obtain ⟨hcall, h⟩ := by simpa only [next, Option.ite_none_right_eq_some] using h
      unfold setCounts at h
      split at h
      · cases h
      · next replaced hprogress =>
        cases h
        exact .setCounts hcall hprogress
  | request request threadId =>
      obtain ⟨index, hindex, rfl⟩ := Option.map_eq_some_iff.1 h
      exact .request hindex
  | refer call =>
      obtain ⟨hcall, h⟩ := by simpa only [next, Option.ite_none_right_eq_some] using h
      obtain ⟨hprogress, h⟩ := by simpa only [refer, Option.ite_none_right_eq_some] using h
      cases h
      exact .refer hcall hprogress
  | enter call =>
      obtain ⟨hcall, h⟩ := by simpa only [next, Option.ite_none_right_eq_some] using h
      unfold enter at h
      split at h
      · next array hprogress =>
        obtain ⟨hfree, h⟩ := by simpa only [Option.ite_none_left_eq_some] using h
        cases h
        refine .enter hcall hprogress fun hlocks => List.countP_eq_zero.2 fun other hother hin => ?_
        exact hfree ⟨hlocks, List.any_eq_true.2 ⟨other, hother, hin⟩⟩
      · cases h
  | leave call =>
      obtain ⟨hcall, h⟩ := by simpa only [next, Option.ite_none_right_eq_some] using h
      unfold leave at h
      split at h
      · next array child hprogress =>
        cases h
        exact .leave hcall hprogress
      · cases h

/-- What a step does, and what it records. -/
theorem step_moves {e : GuardStep} (h : s.step action = some (t, e)) :
    Moves s action t ∧
      e = ⟨s.enableOf action, isFail action, s.guard, t.guard⟩ := by
  obtain ⟨t', hnext, heq⟩ := Option.map_eq_some_iff.1 h
  obtain ⟨rfl, rfl⟩ := Prod.mk.inj heq
  exact ⟨moves_next hnext, rfl⟩

/-! ## The array and the counts -/

/-- Instances that can stand in an array: the first one first, all different. -/
structure Instances (first bound : ℕ) (filters : List ℕ) : Prop where
  head : filters[0]? = some first
  nodup : filters.Nodup
  lt : ∀ filter ∈ filters, filter < bound

/-- What an `EnableMT` call under way is about to make of the guard. -/
def Fits (first : ℕ) (g : Guard) (bound : ℕ) (call : EnableCall) : Prop :=
  match call.progress with
  | .building newchilds =>
      g.mode = .multiInstance ∧ g.nThreads = 1 ∧ Instances first bound newchilds
  | .counting true => call.nThreads ≤ g.childFilters.length
  | .counting false => g.mode = .multiInstance → call.nThreads ≤ 1 ∨ g.mtEnabled = true

/-- The guard has the instances for its count of threads, and keeps them whatever
the `EnableMT` calls under way do. -/
structure Supplied (first : ℕ) (g : Guard) (enabling : List EnableCall) (bound : ℕ) : Prop where
  pos : 1 ≤ g.nThreads
  le : g.mode = .multiInstance → g.nThreads ≤ g.childFilters.length
  children : Instances first bound g.childFilters
  disabled : g.mtEnabled = false → g.nThreads = 1
  builders : enabling.countP isBuilder ≤ 1
  fits : ∀ call ∈ enabling, Fits first g bound call

theorem Instances.mono {first bound bound' : ℕ} (h : Instances first bound filters)
    (hle : bound ≤ bound') :
    Instances first bound' filters :=
  ⟨h.head, h.nodup, fun filter hmem => (h.lt filter hmem).trans_le hle⟩

theorem Instances.length_pos (h : Instances first bound filters) : 0 < filters.length :=
  (List.getElem?_eq_some_iff.1 h.head).1

/-- One more instance, made after all others. -/
theorem Instances.concat (h : Instances first bound filters) :
    Instances first (bound + 1) (filters ++ [bound]) where
  head := by rw [List.getElem?_append_left h.length_pos, h.head]
  nodup := by
    refine List.nodup_append'.2 ⟨h.nodup, List.nodup_singleton _, fun filter hmem hnew => ?_⟩
    rw [List.mem_singleton.1 hnew] at hmem
    exact (h.lt bound hmem).false
  lt filter hmem := by
    obtain hmem | hmem := List.mem_append.1 hmem
    · exact (h.lt filter hmem).trans (Nat.lt_succ_self _)
    · rw [List.mem_singleton.1 hmem]
      exact Nat.lt_succ_self _

variable {enabling : List EnableCall}

/-- Two builders are one. -/
theorem eq_of_builders (h : enabling.countP isBuilder ≤ 1) {call other : EnableCall}
    (hcall : call ∈ enabling) (hother : other ∈ enabling) (hbuilds : call.isBuilder)
    (hbuilds' : other.isBuilder) : other = call := by
  by_contra hne
  have herase : other ∈ enabling.erase call := (List.mem_erase_of_ne hne).2 hother
  have hpos : 0 < (enabling.erase call).countP isBuilder :=
    List.countP_pos_iff.2 ⟨other, herase, hbuilds'⟩
  have hcount := (List.perm_cons_erase hcall).countP_eq isBuilder
  rw [List.countP_cons_of_pos hbuilds] at hcount
  omega

theorem countP_goesOn_builder {call other : EnableCall} (hcall : call ∈ enabling)
    (hbuilder : call.isBuilder = true) (hother : other.isBuilder = true) :
    (goesOn enabling call (some other)).countP isBuilder =
      enabling.countP isBuilder := by
  have hcount := countP_goesOn hcall (some other) isBuilder
  rw [Option.elim_some, hbuilder, hother] at hcount
  omega

/-- A new guard. -/
theorem supplied_start (mode : MtMode) (first : ℕ) :
    Supplied first (start mode first).guard [] (start mode first).nextFilter where
  pos := le_rfl
  le _ := le_rfl
  children := ⟨rfl, List.nodup_singleton _, fun filter hmem => by
    rw [List.mem_singleton.1 hmem]
    exact Nat.lt_succ_self _⟩
  disabled _ := rfl
  builders := Nat.zero_le _
  fits _ hmem := absurd hmem List.not_mem_nil

/-- The first instance is copied into the new array, and only this one. -/
theorem Supplied.take {g : Guard} (h : Supplied first g enabling bound)
    (hdisabled : g.mtEnabled = false) :
    Instances first bound (g.childFilters.take g.nThreads) := by
  have hhead := h.children.head
  obtain ⟨rest, hrest⟩ := List.head?_eq_some_iff.1 ((List.head?_eq_getElem? ..).trans hhead)
  have hlt := h.children.lt first (List.mem_of_getElem? hhead)
  rw [h.disabled hdisabled, hrest, List.take_succ_cons, List.take_zero]
  exact ⟨rfl, List.nodup_singleton _, fun filter hmem => List.mem_singleton.1 hmem ▸ hlt⟩

variable {call : EnableCall} {newchilds : List ℕ}

theorem Fits.mono {first bound bound' : ℕ} {g : Guard}
    (h : Fits first g bound call) (hle : bound ≤ bound') : Fits first g bound' call := by
  unfold Fits at h ⊢
  split at h
  · exact ⟨h.1, h.2.1, h.2.2.mono hle⟩
  · exact h
  · exact h

theorem fits_building {g : Guard} (hprogress : call.progress = .building newchilds) :
    Fits first g bound call ↔
      g.mode = .multiInstance ∧ g.nThreads = 1 ∧ Instances first bound newchilds := by
  rw [Fits, hprogress]

section

variable {first : ℕ} {s : MTGuard}

section

variable (h : Supplied first s.guard s.enabling s.nextFilter)
include h

/-- A call of `EnableMT` begins. -/
theorem Supplied.enableMT (nThreads : ℕ) (hok : s.Permitted (.enableMT nThreads)) :
    Supplied first s.guard (s.enableMT nThreads).enabling s.nextFilter := by
  by_cases hbuilds : s.guard.Builds nThreads
  · have hnone : s.enabling.countP isBuilder = 0 := by
      refine List.countP_eq_zero.2 fun call hmem => ?_
      simpa using List.all_eq_true.1 (hok hbuilds) call hmem
    simp only [MTGuard.enableMT, if_pos hbuilds]
    exact { h with
      builders := by
        rw [List.countP_cons_of_pos rfl, hnone]
      fits := List.forall_mem_cons.2
        ⟨⟨hbuilds.2.1, h.disabled hbuilds.2.2, h.take hbuilds.2.2⟩, h.fits⟩ }
  · simp only [MTGuard.enableMT, if_neg hbuilds]
    exact { h with
      builders := by
        rw [List.countP_cons_of_neg Bool.false_ne_true]
        exact h.builders
      fits := List.forall_mem_cons.2 ⟨fun hmode => by
        unfold Guard.Builds at hbuilds
        cases henabled : s.guard.mtEnabled with
        | true => exact .inr rfl
        | false => exact .inl (Nat.le_of_not_lt fun hlt => hbuilds ⟨hlt, hmode, henabled⟩),
        h.fits⟩ }

/-- It makes one more instance. -/
theorem Supplied.instantiateFilter (hcall : call ∈ s.enabling)
    (hprogress : call.progress = .building newchilds) :
    Supplied first s.guard (goesOn s.enabling call
      (some { call with progress := .building (newchilds ++ [s.nextFilter]) }))
      (s.nextFilter + 1) := by
  obtain ⟨hmode, hone, hnew⟩ := (fits_building hprogress).1 (h.fits call hcall)
  have hbuilder : call.isBuilder = true := by rw [isBuilder, hprogress]
  exact { h with
    children := h.children.mono (Nat.le_succ _)
    builders := (countP_goesOn_builder hcall hbuilder rfl).trans_le h.builders
    fits := forall_goesOn (fun other hother => (h.fits other hother).mono (Nat.le_succ _))
      fun other hother => by
        obtain rfl := Option.mem_some_iff.1 hother
        exact ⟨hmode, hone, hnew.concat⟩ }

/-- It throws. -/
theorem Supplied.fail (hcall : call ∈ s.enabling) :
    Supplied first s.guard (goesOn s.enabling call none) s.nextFilter where
  pos := h.pos
  le := h.le
  children := h.children
  disabled := h.disabled
  builders := by
    have hcount := countP_goesOn hcall none isBuilder
    have hone := h.builders
    simp only [Option.elim_none, Bool.toNat_false] at hcount
    omega
  fits := forall_goesOn h.fits (by simp)

/-- It replaces the array. -/
theorem Supplied.replace (hcall : call ∈ s.enabling)
    (hprogress : call.progress = .building newchilds) (hle : call.nThreads ≤ newchilds.length) :
    Supplied first { s.guard with array := s.nextArray, childFilters := newchilds }
      (goesOn s.enabling call (some { call with progress := .counting true })) s.nextFilter := by
  obtain ⟨hmode, hone, hnew⟩ := (fits_building hprogress).1 (h.fits call hcall)
  have hbuilder : call.isBuilder = true := by rw [isBuilder, hprogress]
  exact {
    pos := h.pos
    le := fun _ => hone.trans_le hnew.length_pos
    children := hnew
    disabled := h.disabled
    builders := (countP_goesOn_builder hcall hbuilder rfl).trans_le h.builders
    fits := forall_goesOn
      (fun other hother => by
        have hfits := h.fits other hother
        -- the array of an earlier builder would be in the way
        have hother' : other.progress ≠ .counting true := fun hreplaced => by
          have hsame := eq_of_builders h.builders hcall hother hbuilder
            (by rw [isBuilder, hreplaced])
          rw [hsame, hprogress] at hreplaced
          cases hreplaced
        unfold Fits at hfits ⊢
        split at hfits
        · exact hfits
        · next hreplaced => exact absurd hreplaced hother'
        · exact hfits)
      fun other hother => by
        obtain rfl := Option.mem_some_iff.1 hother
        exact hle }

/-- It sets the counts. -/
theorem Supplied.setCounts {replaced : Bool} (hcall : call ∈ s.enabling)
    (hprogress : call.progress = .counting replaced) :
    Supplied first (s.guard.setCounts call.nThreads) (goesOn s.enabling call none)
      s.nextFilter := by
  have hleave := h.fail hcall
  unfold Guard.setCounts
  split_ifs with henabled
  · exact hleave
  have hfits := h.fits call hcall
  have hdisabled : s.guard.mtEnabled = false := by simpa using henabled
  have hplain (hmode : s.guard.mode = .multiInstance) (hreplaced : replaced = false) :
      call.nThreads ≤ 1 := by
    subst hreplaced
    rw [Fits, hprogress] at hfits
    exact (hfits hmode).resolve_right henabled
  have hle (hmode : s.guard.mode = .multiInstance) :
      call.nThreads ≤ s.guard.childFilters.length := by
    cases replaced with
    | false => exact (hplain hmode rfl).trans h.children.length_pos
    | true =>
        rw [Fits, hprogress] at hfits
        exact hfits
  exact {
    pos := h.pos.trans (Nat.le_max_left _ _)
    le := fun hmode => Nat.max_le.2 ⟨h.le hmode, hle hmode⟩
    children := h.children
    disabled := fun hfalse => absurd hfalse (by simp)
    builders := hleave.builders
    fits := fun other hother => by
      have hother' := hleave.fits other hother
      unfold Fits at hother' ⊢
      split at hother'
      · next newchilds hbuilding =>
        obtain ⟨hmode, hone, hnew⟩ := hother'
        -- beside a builder only a call without an array can end
        have hreplaced : replaced = false := by
          by_contra htrue
          rw [Bool.not_eq_false] at htrue
          have hmem := (mem_of_mem_goesOn hother).resolve_left (by simp)
          have hsame := eq_of_builders h.builders hcall hmem
            (by rw [isBuilder, hprogress, htrue])
            (by rw [isBuilder, hbuilding])
          rw [hsame, hprogress] at hbuilding
          cases hbuilding
        exact ⟨hmode, by
          have := hplain hmode hreplaced
          change max s.guard.nThreads call.nThreads = 1
          omega, hnew⟩
      · exact hother'
      · exact fun _ => .inr rfl }

end

end

/-! ## The calls of the children -/

/-- Where the `GetFrame` and `GetAudio` calls are. -/
structure Called (g : Guard) (calls : List ChildCall) : Prop where
  index : ∀ call ∈ calls, (g.mode = .multiInstance → call.index < g.nThreads) ∧
    (g.mode ≠ .multiInstance → call.index = 0)
  waiting : ∀ call ∈ calls, ∀ array, call.progress = .waiting array → array = g.array
  inside : ∀ call ∈ calls, ∀ array child, call.progress = .inside array child →
    array = g.array ∧ child = g.childFilters[call.index]?
  exclusive : g.Locks → ∀ index, calls.countP (isInsideAt g.array index) ≤ 1

theorem called_nil (g : Guard) : Called g [] where
  index _ hmem := absurd hmem List.not_mem_nil
  waiting _ hmem := absurd hmem List.not_mem_nil
  inside _ hmem := absurd hmem List.not_mem_nil
  exclusive _ _ := Nat.zero_le _

namespace Called

variable {g : Guard} {calls : List ChildCall} {call : ChildCall}

section

variable (h : Called g calls)
include h

/-- The counts at the end of `EnableMT` move no call. -/
theorem setCounts (nThreads : ℕ) : Called (g.setCounts nThreads) calls := by
  unfold Guard.setCounts
  split_ifs
  · exact h
  · exact { h with
      index := fun call hmem => ⟨fun hmode => ((h.index call hmem).1 hmode).trans_le
        (Nat.le_max_left _ _), (h.index call hmem).2⟩ }

/-- An array that no call refers to can be replaced. -/
theorem replace (hfree : calls.all (!·.holdsArray)) (array : ℕ) (childFilters : List ℕ) :
    Called { g with array := array, childFilters := childFilters } calls := by
  have hindexed : ∀ call ∈ calls, call.progress = .indexed := fun call hmem => by
    have := List.all_eq_true.1 hfree call hmem
    unfold holdsArray at this
    split at this
    · next hprogress => exact hprogress
    · cases this
  exact {
    index := h.index
    waiting := fun call hmem array hwaiting => by
      rw [hindexed call hmem] at hwaiting
      cases hwaiting
    inside := fun call hmem array child hinside => by
      rw [hindexed call hmem] at hinside
      cases hinside
    exclusive := fun _ index => by
      refine (List.countP_eq_zero.2 fun call hmem hin => ?_).trans_le (Nat.zero_le _)
      rw [isInsideAt, hindexed call hmem] at hin
      cases hin }

/-- A new call, which is nowhere yet. -/
theorem request (hpos : 1 ≤ g.nThreads) {threadId : ℤ} {index : ℕ}
    (hindex : g.clipIndex threadId = some index) (request : GuardRequest) :
    Called g (⟨request, threadId, index, .indexed⟩ :: calls) where
  index := by
    refine List.forall_mem_cons.2 ⟨?_, h.index⟩
    unfold Guard.clipIndex at hindex
    split at hindex
    · next hmode =>
      cases hindex
      exact ⟨fun hmulti => (by rw [hmode] at hmulti; cases hmulti), fun _ => rfl⟩
    · next hmode =>
      cases hindex
      exact ⟨fun _ => Nat.mod_lt _ hpos, fun hmulti => absurd hmode hmulti⟩
    · next hmode =>
      cases hindex
      exact ⟨fun hmulti => (by rw [hmode] at hmulti; cases hmulti), fun _ => rfl⟩
    · cases hindex
  waiting := List.forall_mem_cons.2 ⟨(fun _ hwaiting => nomatch hwaiting), h.waiting⟩
  inside := List.forall_mem_cons.2 ⟨(fun _ _ hinside => nomatch hinside), h.inside⟩
  exclusive hlocks index := by
    rw [List.countP_cons_of_neg Bool.false_ne_true]
    exact h.exclusive hlocks index

theorem refer (hcall : call ∈ calls) :
    Called g (goesOn calls call (some { call with progress := .waiting g.array })) where
  index := forall_goesOn h.index (by
    simpa using h.index call hcall)
  waiting := forall_goesOn h.waiting (by simp)
  inside := forall_goesOn h.inside (by simp)
  exclusive hlocks index := by
    have hcount := countP_goesOn hcall (some { call with progress := .waiting g.array })
      (isInsideAt g.array index)
    have hle := h.exclusive hlocks index
    simp only [Option.elim_some, isInsideAt, Bool.toNat_false] at hcount
    omega

theorem enter (hcall : call ∈ calls) {array : ℕ} (hprogress : call.progress = .waiting array)
    (hfree : g.Locks → calls.countP (isInsideAt array call.index) = 0) :
    Called g (goesOn calls call (some { call with
      progress := .inside array
        (if array = g.array then g.childFilters[call.index]? else none) })) := by
  obtain rfl := h.waiting call hcall array hprogress
  rw [if_pos rfl]
  exact {
    index := forall_goesOn h.index (by simpa using h.index call hcall)
    waiting := forall_goesOn h.waiting (by simp)
    inside := forall_goesOn h.inside fun other hother array child hinside => by
      obtain rfl := Option.mem_some_iff.1 hother
      obtain ⟨rfl, rfl⟩ := CallProgress.inside.inj hinside
      exact ⟨rfl, rfl⟩
    exclusive := fun hlocks index => by
      have hcount := countP_goesOn hcall (some { call with
        progress := .inside g.array g.childFilters[call.index]? })
        (isInsideAt g.array index)
      have hle := h.exclusive hlocks index
      have hbefore : call.isInsideAt g.array index = false := by
        rw [isInsideAt, hprogress]
      rw [hbefore, Option.elim_some, Bool.toNat_false] at hcount
      by_cases hindex : call.index = index
      · have hnone := hfree hlocks
        rw [hindex] at hnone
        have hone := Bool.toNat_le (isInsideAt g.array index { call with
          progress := .inside g.array g.childFilters[call.index]? })
        omega
      · have hafter : isInsideAt g.array index { call with
            progress := .inside g.array g.childFilters[call.index]? } = false := by
          simp [isInsideAt, hindex]
        rw [hafter, Bool.toNat_false] at hcount
        omega }

theorem leave (hcall : call ∈ calls) :
    Called g (goesOn calls call none) where
  index := forall_goesOn h.index (by simp)
  waiting := forall_goesOn h.waiting (by simp)
  inside := forall_goesOn h.inside (by simp)
  exclusive hlocks index := by
    have hcount := countP_goesOn hcall none (isInsideAt g.array index)
    have hle := h.exclusive hlocks index
    simp only [Option.elim_none, Bool.toNat_false] at hcount
    omega

end

end Called

/-! ## Runs -/

/-- What every state of a run keeps. -/
structure Guarded (first : ℕ) (s : MTGuard) : Prop where
  supplied : Supplied first s.guard s.enabling s.nextFilter
  called : Called s.guard s.calls

/-- The step lemma. -/
theorem Guarded.moves {first : ℕ} (h : Guarded first s)
    (hok : s.Permitted action) (hmoves : Moves s action t) : Guarded first t := by
  obtain ⟨hsupplied, hcalled⟩ := h
  cases hmoves with
  | enableMT _ => exact ⟨hsupplied.enableMT _ hok, hcalled⟩
  | instantiateFilter hcall hprogress _ =>
      exact ⟨hsupplied.instantiateFilter hcall hprogress, hcalled⟩
  | fail hcall _ => exact ⟨hsupplied.fail hcall, hcalled⟩
  | replace hcall hprogress hle =>
      exact ⟨hsupplied.replace hcall hprogress hle, hcalled.replace hok _ _⟩
  | setCounts hcall hprogress =>
      exact ⟨hsupplied.setCounts hcall hprogress, hcalled.setCounts _⟩
  | request hindex => exact ⟨hsupplied, hcalled.request hsupplied.pos hindex _⟩
  | refer hcall _ => exact ⟨hsupplied, hcalled.refer hcall⟩
  | enter hcall hprogress hfree => exact ⟨hsupplied, hcalled.enter hcall hprogress hfree⟩
  | leave hcall _ => exact ⟨hsupplied, hcalled.leave hcall⟩

/-- Calls run on instances of the guard, the first instance is in its place, and
where calls lock the mutex no instance is entered twice. -/
structure Safe (first : ℕ) (s : MTGuard) : Prop where
  refers : ∀ call ∈ s.calls, call.index < s.guard.childFilters.length
  runs : ∀ call ∈ s.calls, ∀ array child, call.progress = .inside array child →
    ∃ filter ∈ s.guard.childFilters, child = some filter
  first : s.guard.childFilters[0]? = some first
  exclusive : s.guard.Locks → ∀ filter, s.calls.countP (isInside filter) ≤ 1

/-- A call stays within the array. -/
theorem Guarded.index_lt {first : ℕ} {s : MTGuard} (h : Guarded first s) {call : ChildCall}
    (hcall : call ∈ s.calls) : call.index < s.guard.childFilters.length := by
  obtain ⟨hmulti, hother⟩ := h.called.index call hcall
  by_cases hmode : s.guard.mode = .multiInstance
  · exact (hmulti hmode).trans_le (h.supplied.le hmode)
  · rw [hother hmode]
    exact h.supplied.children.length_pos

/-- What the invariant says of a state. -/
theorem Guarded.safe {first : ℕ} {s : MTGuard} (h : Guarded first s) : Safe first s where
  refers call hcall := h.index_lt hcall
  runs call hcall array child hinside := by
    obtain ⟨-, rfl⟩ := h.called.inside call hcall array child hinside
    exact ⟨_, List.getElem_mem (h.index_lt hcall), List.getElem?_eq_getElem (h.index_lt hcall)⟩
  first := h.supplied.children.head
  exclusive hlocks filter := by
    have hinside : ∀ call ∈ s.calls, call.isInside filter = true →
        s.guard.childFilters[call.index]? = some filter ∧
          call.isInsideAt s.guard.array call.index = true := fun call hcall hin => by
      unfold isInside at hin
      split at hin
      · next array child hprogress =>
        obtain ⟨rfl, rfl⟩ := h.called.inside call hcall array child hprogress
        refine ⟨beq_iff_eq.1 hin, ?_⟩
        simp [isInsideAt, hprogress]
      · cases hin
    -- an instance has one index, and the mutex of this index is locked once
    by_cases hmem : filter ∈ s.guard.childFilters
    · obtain ⟨index, hindex, rfl⟩ := List.getElem_of_mem hmem
      refine le_trans (List.countP_mono_left fun call hcall hin => ?_)
        (h.called.exclusive hlocks index)
      obtain ⟨hat, hin⟩ := hinside call hcall hin
      obtain ⟨hlt, heq⟩ := List.getElem?_eq_some_iff.1 hat
      rw [h.supplied.children.nodup.getElem_inj_iff] at heq
      rw [← heq]
      exact hin
    · refine (List.countP_eq_zero.2 fun call hcall hin => hmem ?_).trans_le (Nat.zero_le _)
      exact List.mem_of_getElem? (hinside call hcall hin).1

/-- An `EnableMT` call that throws has left the guard as it was, in all its steps. -/
def FailsClean (earlier : List GuardStep) (e : GuardStep) : Prop :=
  e.threw = true → e.after = e.before ∧
    ∀ step ∈ earlier, step.enable = e.enable → step.after = step.before

/-- What the history says of the `EnableMT` calls under way. -/
structure Recorded (history : List GuardStep) (enabling : List EnableCall) (bound : ℕ) : Prop where
  nodup : (enabling.map EnableCall.id).Nodup
  lt : ∀ call ∈ enabling, call.id < bound
  past : ∀ step ∈ history, ∀ id, step.enable = some id → id < bound
  unchanged : ∀ call ∈ enabling, call.progress ≠ .counting true →
    ∀ step ∈ history, step.enable = some call.id → step.after = step.before

theorem id_ne_of_mem_erase
    (h : (enabling.map EnableCall.id).Nodup) {call other : EnableCall} (hcall : call ∈ enabling)
    (hother : other ∈ enabling.erase call) : other.id ≠ call.id := by
  have hperm := (List.perm_cons_erase hcall).map EnableCall.id
  have hnot := (List.nodup_cons.1 (hperm.nodup_iff.1 h)).1
  exact fun heq => hnot (heq ▸ List.mem_map_of_mem hother)

/-- The numbers of the calls stay distinct. -/
theorem nodup_goesOn (h : (enabling.map EnableCall.id).Nodup) (hcall : call ∈ enabling)
    {other : Option EnableCall} (hid : ∀ c ∈ other, c.id = call.id) :
    ((goesOn enabling call other).map EnableCall.id).Nodup := by
  have hperm := (List.perm_cons_erase hcall).map EnableCall.id
  have hcons := hperm.nodup_iff.1 h
  cases other with
  | none => exact (List.nodup_cons.1 hcons).2
  | some c =>
      rw [List.map_cons, ← hid c rfl] at hcons
      exact hcons

theorem recorded_nil (bound : ℕ) : Recorded [] [] bound where
  nodup := List.nodup_nil
  lt _ hmem := absurd hmem List.not_mem_nil
  past _ hmem := absurd hmem List.not_mem_nil
  unchanged _ hmem := absurd hmem List.not_mem_nil

section

variable {history : List GuardStep} {enabling : List EnableCall} {bound : ℕ}

/-- A step of an `EnableMT` call that goes on, or ends, with what is seen of it. -/
theorem Recorded.goesOn (h : Recorded history enabling bound)
    (hcall : call ∈ enabling) {other : Option EnableCall} (hid : ∀ c ∈ other, c.id = call.id)
    {threw : Bool} {before after : Guard}
    (hsame : ∀ c ∈ other, c.progress ≠ .counting true →
      call.progress ≠ .counting true ∧ after = before) :
    Recorded (⟨some call.id, threw, before, after⟩ :: history)
      (Counting.goesOn enabling call other) bound where
  nodup := nodup_goesOn h.nodup hcall hid
  lt := forall_goesOn h.lt fun c hc => hid c hc ▸ h.lt call hcall
  past := by
    refine List.forall_mem_cons.2 ⟨fun id hcallId => ?_, h.past⟩
    obtain rfl := Option.some.inj hcallId
    exact h.lt call hcall
  unchanged c hc hprogress := by
    obtain hc | hc := List.mem_append.1 hc
    · rw [Option.mem_toList] at hc
      obtain ⟨hbefore, hguard⟩ := hsame c hc hprogress
      rw [hid c hc]
      exact List.forall_mem_cons.2 ⟨fun _ => hguard, h.unchanged call hcall hbefore⟩
    · have hne := id_ne_of_mem_erase h.nodup hcall hc
      refine List.forall_mem_cons.2 ⟨fun heq => absurd (Option.some.inj heq).symm hne, ?_⟩
      exact h.unchanged c (List.mem_of_mem_erase hc) hprogress

/-- A step of a call of the children. -/
theorem Recorded.other (h : Recorded history enabling bound) {threw : Bool}
    {before after : Guard} :
    Recorded (⟨none, threw, before, after⟩ :: history) enabling bound where
  nodup := h.nodup
  lt := h.lt
  past := List.forall_mem_cons.2 ⟨(fun _ hnone => nomatch hnone), h.past⟩
  unchanged c hc hprogress := List.forall_mem_cons.2
    ⟨(fun hnone => nomatch hnone), h.unchanged c hc hprogress⟩

/-- An `EnableMT` call that begins has a number of its own. -/
theorem Recorded.enableMT (h : Recorded history enabling bound) (nThreads : ℕ)
    (progress : EnableProgress) (g : Guard) :
    Recorded (⟨some bound, false, g, g⟩ :: history) (⟨bound, nThreads, progress⟩ :: enabling)
      (bound + 1) where
  nodup := by
    refine List.nodup_cons.2 ⟨fun hmem => ?_, h.nodup⟩
    obtain ⟨c, hc, heq⟩ := List.mem_map.1 hmem
    exact Nat.lt_irrefl _ (heq ▸ h.lt c hc)
  lt := List.forall_mem_cons.2
    ⟨Nat.lt_succ_self _, fun c hc => Nat.lt_succ_of_lt (h.lt c hc)⟩
  past := by
    refine List.forall_mem_cons.2 ⟨fun id heq => ?_, fun step hstep id heq =>
      Nat.lt_succ_of_lt (h.past step hstep id heq)⟩
    obtain rfl := Option.some.inj heq
    exact Nat.lt_succ_self _
  unchanged := by
    refine List.forall_mem_cons.2 ⟨fun _ => List.forall_mem_cons.2 ⟨fun _ => rfl,
      fun step hstep heq => absurd (h.past step hstep _ heq) (Nat.lt_irrefl _)⟩, ?_⟩
    exact fun c hc hprogress => List.forall_mem_cons.2
      ⟨fun _ => rfl, h.unchanged c hc hprogress⟩

end

/-- One step keeps the record, and a call that throws has changed nothing. -/
theorem Recorded.step {history : List GuardStep} (h : Recorded history s.enabling s.nextEnable)
    {e : GuardStep} (hstep : s.step action = some (t, e)) :
    Recorded (e :: history) t.enabling t.nextEnable ∧ FailsClean history e := by
  obtain ⟨hmoves, rfl⟩ := step_moves hstep
  cases hmoves with
  | enableMT _ => exact ⟨h.enableMT _ _ _, fun hthrew => nomatch hthrew⟩
  | @instantiateFilter call newchilds hcall hprogress _ =>
      have hbefore : call.progress ≠ .counting true := by
        rw [hprogress]
        exact EnableProgress.noConfusion
      refine ⟨h.goesOn hcall (fun c hc => ?_) fun _ _ _ => ⟨hbefore, rfl⟩,
        fun hthrew => nomatch hthrew⟩
      obtain rfl := Option.mem_some_iff.1 hc
      rfl
  | @fail call hcall hprogress =>
      exact ⟨h.goesOn hcall (by simp) (by simp), fun _ => ⟨rfl, h.unchanged call hcall hprogress⟩⟩
  | @replace call newchilds hcall hprogress _ =>
      refine ⟨h.goesOn hcall (fun c hc => ?_) (fun c hc hreplaced => ?_),
        fun hthrew => nomatch hthrew⟩
      · obtain rfl := Option.mem_some_iff.1 hc
        rfl
      · obtain rfl := Option.mem_some_iff.1 hc
        exact absurd rfl hreplaced
  | @setCounts call replaced hcall hprogress =>
      exact ⟨h.goesOn hcall (by simp) (by simp), fun hthrew => nomatch hthrew⟩
  | request | refer | enter | leave => exact ⟨h.other, fun hthrew => nomatch hthrew⟩

/-- In every run in which no second array is made beside another and an array is
replaced only while no call refers to it, every call runs on an instance of the
guard, the first instance stays, no instance is entered twice where its mutex is
locked, and an `EnableMT` call that throws has changed nothing. -/
theorem mtGuard_safe (mode : MtMode) (first : ℕ) {history : List GuardStep} {s : MTGuard}
    (hrun : Run step Permitted (start mode first) history s) :
    Safe first s ∧ AllEvents FailsClean history := by
  constructor
  · have hguarded : Guarded first s :=
      hrun.invariant (fun _ s => Guarded first s) ⟨supplied_start mode first, called_nil _⟩
        fun h hok hstep => h.moves hok (step_moves hstep).1
    exact hguarded.safe
  · exact hrun.allEvents (fun history s => Recorded history s.enabling s.nextEnable)
      (recorded_nil _) fun h _ hstep => h.step hstep

/-- An `EnableMT` call fails, another makes a second instance, and two threads
run on the two instances. -/
def twoThreads : List GuardAction :=
  [.enableMT 3, .instantiateFilter ⟨0, 3, .building [0]⟩, .fail ⟨0, 3, .building [0, 1]⟩,
    .enableMT 2, .instantiateFilter ⟨1, 2, .building [0]⟩, .replace ⟨1, 2, .building [0, 2]⟩,
    .setCounts ⟨1, 2, .counting true⟩, .request .getFrame 1, .refer ⟨.getFrame, 1, 1, .indexed⟩,
    .enter ⟨.getFrame, 1, 1, .waiting 1⟩, .request .getAudio 2,
    .refer ⟨.getAudio, 2, 0, .indexed⟩, .enter ⟨.getAudio, 2, 0, .waiting 1⟩]

theorem mtGuard_safe_twoThreads :
    ∃ history s, s.guard.childFilters = [0, 2] ∧ s.calls.length = 2 ∧ Safe 0 s ∧
      AllEvents FailsClean history := by
  obtain ⟨history, s, hrun, hcheck⟩ := exists_run step Permitted (start .multiInstance 0)
    twoThreads (fun _ s => s.guard.childFilters = [0, 2] ∧ s.calls.length = 2) (by decide)
  obtain ⟨hfilters, hcalls⟩ := of_decide_eq_true hcheck
  exact ⟨history, s, hfilters, hcalls, mtGuard_safe .multiInstance 0 hrun⟩

/-- A call is inside the only instance while `EnableMT` replaces the array. The
mutex of the first element is a new one, so a second thread enters the instance. -/
def replacedMutex : List GuardAction :=
  [.request .getFrame 0, .refer ⟨.getFrame, 0, 0, .indexed⟩, .enter ⟨.getFrame, 0, 0, .waiting 0⟩,
    .enableMT 2, .instantiateFilter ⟨0, 2, .building [0]⟩, .replace ⟨0, 2, .building [0, 1]⟩,
    .setCounts ⟨0, 2, .counting true⟩, .request .getFrame 2, .refer ⟨.getFrame, 2, 0, .indexed⟩,
    .enter ⟨.getFrame, 2, 0, .waiting 1⟩]

theorem mtGuard_entered_twice :
    ∃ history s, Run step always (start .multiInstance 0) history s ∧ ¬Safe 0 s := by
  obtain ⟨history, s, hrun, hcheck⟩ := exists_run step always (start .multiInstance 0)
    replacedMutex (fun _ s => s.guard.Locks ∧ s.calls.countP (isInside 0) = 2)
    (by decide)
  obtain ⟨hlocks, htwice⟩ := of_decide_eq_true hcheck
  refine ⟨history, s, hrun, fun hsafe => ?_⟩
  have hone := hsafe.exclusive hlocks 0
  omega

end MTGuard

end AviSynth
