import AviSynth.Cx.FrameWrappers

/-!
# Interleavings of wrapping, copying and releasing

Every step keeps the counts, the index and the ownership of the host references
consistent. There are four kinds of steps: calls that only pass on what they hold,
counts that change and do not become zero, wrappers that are constructed, and
wrappers that lose their last reference or are deleted.
-/

namespace AviSynth.Cx

open Call Wrappers

variable {history : List Event} {s t : Wrappers} {p : FramePtr} {f : Frame}

theorem references_of_lookup (h : s.frames.lookup p = some f) :
    references s.frames p = f.references := by
  rw [references, h, Option.elim_some]

theorem unheld_of_lookup (h : s.frames.lookup p = some f) :
    unheld s.frames p = decide (f.references = 0) := by
  rw [unheld, h, Option.any_some]

theorem liveKey_of_lookup (h : s.frames.lookup p = some f) (hpos : 0 < f.references) :
    liveKey s.frames p = some f.key := by
  rw [liveKey, h, Option.bind_some, if_pos hpos]

namespace Consistent

theorem initial : Consistent [] .initial where
  counted _ := rfl
  deletions _ := rfl
  indexed i k p := by simp [Wrappers.initial, liveKey]
  settled n := by simp [Wrappers.initial, owners, AList.values]

section

variable (h : Consistent history s)
include h

/-- What the index has is alive. -/
theorem pos_of_entry {i : ℕ} {k : FrameKey} (hentry : s.frameIndices i k = some p)
    (hlookup : s.frames.lookup p = some f) :
    0 < f.references := by
  have hlive := ((h.indexed i k p).mp hentry).2
  rw [liveKey, hlookup, Option.bind_some] at hlive
  by_contra hzero
  rw [if_neg hzero] at hlive
  cases hlive

/-- A call that passes on what it holds. -/
theorem pass {event : Event} (hframes : t.frames = s.frames)
    (hindices : t.frameIndices = s.frameIndices) (hheld : ∀ q, t.held q = s.held q)
    (hdeletions : ∀ q, t.calls.count (.delete q) = s.calls.count (.delete q))
    (hsettled : ∀ n,
      t.calls.countP (carries n) + (if event = .released n then 1 else 0) +
          (if n < s.handed then 1 else 0) =
        s.calls.countP (carries n) + if n < t.handed then 1 else 0) :
    Consistent (event :: history) t where
  counted q := by rw [hheld, hframes, h.counted]
  deletions q := by rw [hdeletions, hframes, h.deletions]
  indexed i k q := by rw [hindices, hframes, h.indexed]
  settled n := by
    have hold := h.settled n
    have hnew := hsettled n
    rw [hframes, List.count_cons]
    simp only [beq_iff_eq]
    omega

/-- A wrapper that is written. -/
theorem write {new : Frame} (hframes : t.frames = s.frames.insert p new)
    (hindexed : ∀ i k q, t.frameIndices i k = some q ↔
      i = index k ∧ liveKey (s.frames.insert p new) q = some k)
    (hheld : ∀ q, t.held q + (if q = p then references s.frames p else 0) =
      s.held q + if q = p then new.references else 0)
    (hdeletions : ∀ q, t.calls.count (.delete q) +
        (if q = p ∧ unheld s.frames p = true then 1 else 0) =
      s.calls.count (.delete q) + if q = p ∧ new.references = 0 then 1 else 0)
    (hcarried : ∀ n, t.calls.countP (carries n) + owners (s.frames.insert p new) n =
      s.calls.countP (carries n) + owners s.frames n)
    (hhanded : t.handed = s.handed) : Consistent (.quiet :: history) t where
  counted q := by
    have hold := h.counted q
    have hnew := hheld q
    rw [hframes, references_insert]
    by_cases hq : q = p
    · subst hq
      simp only [if_true] at hnew ⊢
      omega
    · simp only [hq, if_false] at hnew ⊢
      omega
  deletions q := by
    have hold := h.deletions q
    have hnew := hdeletions q
    rw [hframes, unheld_insert]
    by_cases hq : q = p
    · subst hq
      simp only [true_and, if_true, decide_eq_true_eq] at hnew ⊢
      omega
    · simp only [hq, false_and, if_false, Nat.add_zero] at hnew ⊢
      rw [hnew, hold]
  indexed := hframes ▸ hindexed
  settled n := by
    rw [hframes, hcarried, hhanded]
    exact h.settled n

/-- The index is right if the key that is alive at the address is the same as before. -/
theorem indexed_same {new : Frame}
    (hlive : liveKey s.frames p = if 0 < new.references then some new.key else none) (i : ℕ)
    (k : FrameKey) (q : FramePtr) :
    s.frameIndices i k = some q ↔ i = index k ∧ liveKey (s.frames.insert p new) q = some k := by
  rw [h.indexed, liveKey_insert]
  by_cases hq : q = p
  · rw [hq, if_pos rfl, hlive]
  · rw [if_neg hq]

/-- A count that changes and does not become zero. -/
theorem recount (hlookup : s.frames.lookup p = some f) {r : ℕ}
    (hpos : 0 < f.references) (hr : 0 < r)
    (hframes : t.frames = s.frames.insert p { f with references := r })
    (hindices : t.frameIndices = s.frameIndices)
    (hheld : ∀ q, t.held q + (if q = p then f.references else 0) =
      s.held q + if q = p then r else 0)
    (hdeletions : ∀ q, t.calls.count (.delete q) = s.calls.count (.delete q))
    (hcarried : ∀ n, t.calls.countP (carries n) = s.calls.countP (carries n))
    (hhanded : t.handed = s.handed) : Consistent (.quiet :: history) t := by
  have hlive := liveKey_of_lookup hlookup hpos
  refine h.write hframes ?_ (fun q => ?_) (fun q => ?_) (fun n => ?_) hhanded
  · rw [hindices]
    exact h.indexed_same (hlive.trans (if_pos hr).symm)
  · rw [references_of_lookup hlookup]
    exact hheld q
  · simp [hdeletions, unheld_of_lookup hlookup, Nat.ne_of_gt hpos, Nat.ne_of_gt hr]
  · rw [hcarried, owners_insert_old hlookup { f with references := r } rfl]

/-- A wrapper that is constructed: its count says whether it is put into the index. -/
theorem construct (hlookup : s.frames.lookup p = none) {new : Frame}
    (hframes : t.frames = s.frames.insert p new)
    (hindexed : ∀ i k q, t.frameIndices i k = some q ↔
      i = index k ∧ liveKey (s.frames.insert p new) q = some k)
    (hheld : ∀ q, t.held q = s.held q + if q = p then new.references else 0)
    (hdeletions : ∀ q, t.calls.count (.delete q) =
      s.calls.count (.delete q) + if q = p ∧ new.references = 0 then 1 else 0)
    (hcarried : ∀ n, t.calls.countP (carries n) + (if new.ref.number = n then 1 else 0) =
      s.calls.countP (carries n))
    (hhanded : t.handed = s.handed) : Consistent (.quiet :: history) t := by
  refine h.write hframes hindexed (fun q => ?_) (fun q => ?_) (fun n => ?_) hhanded
  · simp [references, hlookup, hheld]
  · simp [unheld, hlookup, hdeletions]
  · have hnew := hcarried n
    rw [owners_insert_new hlookup]
    omega

/-- The index after a wrapper with a key that it has not yet is put in. -/
theorem indexed_put (hlookup : s.frames.lookup p = none) (new : Frame)
    (hpos : 0 < new.references) (hnone : s.frameIndices (index new.key) new.key = none) (i : ℕ)
    (k : FrameKey) (q : FramePtr) :
    (s.setEntry new.key (some p)).frameIndices i k = some q ↔
      i = index k ∧ liveKey (s.frames.insert p new) q = some k := by
  have hlive : ∀ q, liveKey s.frames q ≠ some new.key := by
    intro q hq
    have hentry := (h.indexed _ _ q).mpr ⟨rfl, hq⟩
    rw [hnone] at hentry
    cases hentry
  have hdead : liveKey s.frames p = none := by simp [liveKey, hlookup]
  rw [liveKey_insert, if_pos hpos]
  simp only [setEntry_frameIndices, Function.update_apply]
  by_cases hi : i = index new.key <;> by_cases hk : k = new.key <;> by_cases hq : q = p <;>
    grind [h.indexed]

/-- The index after the key of a wrapper is taken out. -/
theorem indexed_drop (hlookup : s.frames.lookup p = some f) (hpos : 0 < f.references) (i : ℕ)
    (k : FrameKey) (q : FramePtr) :
    (s.setEntry f.key none).frameIndices i k = some q ↔
      i = index k ∧ liveKey (s.frames.insert p { f with references := 0 }) q = some k := by
  have hlive := liveKey_of_lookup hlookup hpos
  have hentry := (h.indexed _ _ p).mpr ⟨rfl, hlive⟩
  have honly : ∀ q, liveKey s.frames q = some f.key → q = p := by
    intro q hq
    have hentry' := (h.indexed _ _ q).mpr ⟨rfl, hq⟩
    exact Option.some.inj (hentry'.symm.trans hentry)
  rw [liveKey_insert, if_neg (Nat.lt_irrefl 0)]
  simp only [setEntry_frameIndices, Function.update_apply]
  by_cases hi : i = index f.key <;> by_cases hk : k = f.key <;> by_cases hq : q = p <;>
    grind [h.indexed]

/-- A wrapper that is deleted, with the host reference it owns. -/
theorem delete (hlookup : s.frames.lookup p = some f)
    (hzero : f.references = 0) (hframes : t.frames = s.frames.erase p)
    (hindices : t.frameIndices = s.frameIndices) (hheld : ∀ q, t.held q = s.held q)
    (hdeletions : ∀ q, t.calls.count (.delete q) + (if q = p then 1 else 0) =
      s.calls.count (.delete q))
    (hcarried : ∀ n, t.calls.countP (carries n) = s.calls.countP (carries n))
    (hhanded : t.handed = s.handed) :
    Consistent (.released f.ref.number :: history) t where
  counted q := by
    rw [hheld, h.counted, hframes, references, references, lookup_erase_eq]
    by_cases hq : q = p
    · subst hq
      simp [hlookup, hzero]
    · rw [if_neg hq]
  deletions q := by
    have hold := h.deletions q
    have hnew := hdeletions q
    rw [hframes, unheld, lookup_erase_eq]
    by_cases hq : q = p
    · subst hq
      simp only [unheld_of_lookup hlookup, hzero] at hold
      simp at hnew hold ⊢
      omega
    · simp only [hq, if_false] at hnew ⊢
      rw [← unheld]
      omega
  indexed i k q := by
    rw [hindices, h.indexed, hframes, liveKey, liveKey, lookup_erase_eq]
    by_cases hq : q = p
    · subst hq
      simp [hlookup, hzero]
    · rw [if_neg hq]
  settled n := by
    have hold := h.settled n
    rw [owners_of_lookup hlookup] at hold
    rw [hframes, hcarried, hhanded, ← hold, List.count_cons]
    simp
    omega

/-- The critical section of `Wrap`. -/
theorem wrap {owned : HostFrame} {sdk : ℕ} {memory : Memory} (hcall : .wrap owned sdk ∈ s.calls)
    (hwrap : s.wrap owned sdk memory = some t) :
    Consistent (.quiet :: history) t := by
  simp only [Wrappers.wrap] at hwrap
  cases hentry : s.frameIndices (index (key owned.ref sdk)) (key owned.ref sdk) with
  | some p =>
    rw [hentry] at hwrap
    obtain ⟨u, hretain, rfl⟩ := Option.map_eq_some_iff.mp hwrap
    obtain ⟨f, hlookup, rfl⟩ := Option.map_eq_some_iff.mp hretain
    have hpos := h.pos_of_entry hentry hlookup
    refine h.recount hlookup hpos (Nat.succ_pos _) rfl rfl (fun q => ?_) (fun q => ?_)
      (fun n => ?_) rfl
    · have hcalls := countP_goOn hcall [.unwind owned (some p)] (holds q)
      simp [held, holds] at hcalls ⊢
      grind
    · simp
    · have hcalls := countP_goOn hcall [.unwind owned (some p)] (carries n)
      simp [carries] at hcalls ⊢
      omega
  | none =>
    rw [hentry] at hwrap
    cases hframe : memory.frame with
    | none =>
      rw [hframe] at hwrap
      cases hwrap
      refine h.pass rfl rfl (fun q => ?_) (fun q => ?_) (fun n => ?_)
      · have hcalls := countP_goOn hcall [.unwind owned none] (holds q)
        simp [held, holds] at hcalls ⊢
        omega
      · simp
      · have hcalls := countP_goOn hcall [.unwind owned none] (carries n)
        simp [carries] at hcalls ⊢
        omega
    | some p =>
      rw [hframe] at hwrap
      obtain ⟨hfree, hwrap⟩ := Option.ite_none_left_eq_some.mp hwrap
      have hlookup := AList.lookup_eq_none.mpr hfree
      split at hwrap
      · cases hwrap
        have hindexed := h.indexed_put hlookup ⟨1, owned, sdk⟩ Nat.one_pos hentry
        refine h.construct hlookup rfl hindexed (fun q => ?_) (fun q => ?_) (fun n => ?_) rfl
        · have hcalls := countP_goOn hcall [] (holds q)
          simp [held, holds] at hcalls ⊢
          grind
        · simp
        · have hcalls := countP_goOn hcall [] (carries n)
          simpa [carries] using hcalls
      · cases hwrap
        have hdead : liveKey s.frames p = none := by simp [liveKey, hlookup]
        refine h.construct hlookup rfl (h.indexed_same hdead) (fun q => ?_) (fun q => ?_)
          (fun n => ?_) rfl
        · have hcalls := countP_goOn hcall [.delete p] (holds q)
          simp [held, holds] at hcalls ⊢
          omega
        · have hcalls := count_goOn hcall [.delete p] (.delete q)
          simp at hcalls ⊢
          grind
        · have hcalls := countP_goOn hcall [.delete p] (carries n)
          simpa [carries] using hcalls

/-- The critical section of `ReleaseFrame`. -/
theorem releaseFrame (hcall : .releaseFrame p ∈ s.calls)
    (hrelease : s.releaseFrame p = some t) : Consistent (.quiet :: history) t := by
  obtain ⟨f, hlookup, ht⟩ := Option.map_eq_some_iff.mp hrelease
  have hpos : 0 < f.references := by
    have hcount := h.counted p
    have hmem : 0 < s.calls.countP (holds p) :=
      List.countP_pos_iff.mpr ⟨_, hcall, by simp [holds]⟩
    rw [references_of_lookup hlookup, held] at hcount
    omega
  split at ht
  · rename_i hlast
    subst ht
    have hframes : s.frames.insert p { f with references := f.references - 1 } =
        s.frames.insert p { f with references := 0 } := by rw [hlast]
    refine h.write hframes (h.indexed_drop hlookup hpos) (fun q => ?_) (fun q => ?_) (fun n => ?_)
      rfl
    · have hcalls := countP_goOn hcall [.delete p] (holds q)
      simp [held, holds, references_of_lookup hlookup, hlast] at hcalls ⊢
      grind
    · have hcalls := count_goOn hcall [.delete p] (.delete q)
      simp [unheld_of_lookup hlookup, hlast] at hcalls ⊢
      grind
    · have hcalls := countP_goOn hcall [.delete p] (carries n)
      rw [owners_insert_old hlookup { f with references := 0 } rfl]
      simpa [carries] using hcalls
  · rename_i hshared
    subst ht
    have hr : 0 < f.references - 1 := by omega
    refine h.recount hlookup hpos hr rfl rfl (fun q => ?_) (fun q => ?_) (fun n => ?_) rfl
    · have hcalls := countP_goOn hcall [] (holds q)
      simp [held, holds] at hcalls ⊢
      grind
    · simp
    · have hcalls := countP_goOn hcall [] (carries n)
      simpa [carries] using hcalls

/-- The next step of a call. -/
theorem advance {call : Call} {memory : Memory} {event : Event} (hcall : call ∈ s.calls)
    (hadvance : s.advance memory call = some (t, event)) :
    Consistent (event :: history) t := by
  cases call with
  | wrap owned sdk =>
    obtain ⟨u, hwrap, heq⟩ := Option.map_eq_some_iff.mp hadvance
    cases heq
    exact h.wrap hcall hwrap
  | unwind owned result =>
    have hcalls := countP_goOn hcall []
    cases result with
    | none =>
      cases hadvance
      refine h.pass rfl rfl (fun q => ?_) (fun q => ?_) (fun n => ?_)
      · have hholds := hcalls (holds q)
        simpa [held, holds] using hholds
      · simp
      · have hcarries := hcalls (carries n)
        simp [carries] at hcarries ⊢
        omega
    | some p =>
      cases hadvance
      refine h.pass rfl rfl (fun q => ?_) (fun q => ?_) (fun n => ?_)
      · have hholds := hcalls (holds q)
        simp [held, holds, List.count_cons] at hholds ⊢
        omega
      · simp
      · have hcarries := hcalls (carries n)
        simp [carries] at hcarries ⊢
        omega
  | releaseFrame p =>
    obtain ⟨u, hrelease, heq⟩ := Option.map_eq_some_iff.mp hadvance
    cases heq
    exact h.releaseFrame hcall hrelease
  | delete p =>
    obtain ⟨f, hlookup, heq⟩ := Option.map_eq_some_iff.mp hadvance
    cases heq
    have hzero : f.references = 0 := by
      have hcount := h.deletions p
      have hmem : 0 < s.calls.count (.delete p) := List.count_pos_iff.mpr hcall
      rw [unheld_of_lookup hlookup] at hcount
      by_contra hpos
      rw [if_neg (by simpa using hpos)] at hcount
      omega
    refine h.delete hlookup hzero rfl rfl (fun q => ?_) (fun q => ?_) (fun n => ?_) rfl
    · have hcalls := countP_goOn hcall [] (holds q)
      simpa [held, holds] using hcalls
    · have hcalls := count_goOn hcall [] (.delete q)
      simp at hcalls ⊢
      grind
    · have hcalls := countP_goOn hcall [] (carries n)
      simpa [carries] using hcalls

/-- Every step of a thread. -/
theorem step {a : Action} {event : Event}
    (hstep : s.step a = some (t, event)) : Consistent (event :: history) t := by
  cases a with
  | callWrap r sdk =>
    cases hstep
    refine h.pass rfl rfl (fun q => ?_) (fun q => ?_) (fun n => ?_)
    · simp [held, holds]
    · simp
    · simp [carries, List.countP_cons]
      grind
  | copy p =>
    obtain ⟨hheld, hretain⟩ := Option.ite_none_right_eq_some.mp hstep
    obtain ⟨u, hretain, heq⟩ := Option.map_eq_some_iff.mp hretain
    obtain ⟨f, hlookup, rfl⟩ := Option.map_eq_some_iff.mp hretain
    cases heq
    have hpos : 0 < f.references := by
      have hcount := h.counted p
      have hmem : 0 < s.handles.count p := List.count_pos_iff.mpr hheld
      rw [references_of_lookup hlookup, held] at hcount
      omega
    refine h.recount hlookup hpos (Nat.succ_pos _) rfl rfl (fun q => ?_) (fun _ => rfl)
      (fun _ => rfl) rfl
    simp [held, List.count_cons]
    grind
  | drop p =>
    obtain ⟨hheld, heq⟩ := Option.ite_none_right_eq_some.mp hstep
    cases heq
    refine h.pass rfl rfl (fun q => ?_) (fun q => ?_) (fun n => ?_)
    · have hcount := (List.perm_cons_erase hheld).count_eq q
      simp [held, holds, List.count_cons, List.countP_cons] at hcount ⊢
      omega
    · simp
    · simp [carries]
  | advance call memory =>
    obtain ⟨hcall, hadvance⟩ := Option.ite_none_right_eq_some.mp hstep
    exact h.advance hcall hadvance

end

/-- Every state that an interleaving of threads reaches. -/
theorem of_run (hrun : Transition.Run Wrappers.step Transition.always .initial history s) :
    Consistent history s :=
  hrun.invariant Consistent initial fun h _ hs => h.step hs

end Consistent
end AviSynth.Cx
