import AviSynth.Script.NestedComments

/-!
# Where a nestable comment ends

Read from left to right, a nestable comment ends where its marks balance for the first
time. The tokenizer ends it at the first closing mark that overtakes the opening marks
before it. The two places differ where the comment has a `[*]` in it.
-/

namespace AviSynth

open Occurrences

/-- The opening marks of a text less its closing marks, read from left to right. -/
def nesting : Bytes → ℤ
  | 0x5B :: 0x2A :: rest => nesting rest + 1
  | 0x2A :: 0x5D :: rest => nesting rest - 1
  | _ :: rest => nesting rest
  | [] => 0

/-- The prefix of `n` bytes of a text that begins with an opening mark is a whole comment. -/
def BalancesAt (pc : Bytes) (n : ℕ) : Prop := 2 ≤ n ∧ n ≤ strlen pc ∧ nesting (pc.take n) = 0

/-- At a place where a nestable comment opens, the tokenizer skips the shortest prefix in which
the marks balance, and fails exactly if there is none. -/
def SkipsBalanced (pc : Bytes) : Prop :=
  (∀ n, skipNestableComment pc = .ok n ↔ IsLeast {n | BalancesAt pc n} n) ∧
    ((∃ msg, skipNestableComment pc = .error msg) ↔ ∀ n, ¬BalancesAt pc n)

/-- A closing mark whose asterisk does not belong to an opening mark. -/
def ReadsClosingAt (c : Bytes) (i : ℕ) : Prop :=
  OccursAt closingMark c i ∧ (i = 0 ∨ ¬OccursAt openingMark c (i - 1))
  deriving Decidable

variable {rest : Bytes}

theorem readsClosingAt_cons {b : UInt8} (h : ¬OccursAt openingMark (b :: rest) 0)
    (i : ℕ) : ReadsClosingAt (b :: rest) (i + 1) ↔ ReadsClosingAt rest i := by
  cases i <;> simp [ReadsClosingAt, h]

theorem readsClosingAt_cons_cons {a b : UInt8} (h : ¬OccursAt openingMark (b :: rest) 0) (i : ℕ) :
    ReadsClosingAt (a :: b :: rest) (i + 1 + 1) ↔ ReadsClosingAt rest i := by
  rw [← readsClosingAt_cons h]
  simp [ReadsClosingAt]

theorem count_readsClosingAt_cons {b : UInt8} (h : ¬OccursAt openingMark (b :: rest) 0) :
    Nat.count (ReadsClosingAt (b :: rest)) (rest.length + 1) =
      Nat.count (ReadsClosingAt rest) rest.length +
        if ReadsClosingAt (b :: rest) 0 then 1 else 0 := by
  rw [Nat.count_succ']
  congr 1
  exact count_congr fun i _ => readsClosingAt_cons h i

theorem count_readsClosingAt_cons_cons {a b : UInt8} (h : ¬OccursAt openingMark (b :: rest) 0) :
    Nat.count (ReadsClosingAt (a :: b :: rest)) (rest.length + 1 + 1) =
      Nat.count (ReadsClosingAt rest) rest.length +
        (if ReadsClosingAt (a :: b :: rest) 1 then 1 else 0) +
        if ReadsClosingAt (a :: b :: rest) 0 then 1 else 0 := by
  rw [Nat.count_succ', Nat.count_succ']
  congr 2
  exact count_congr fun i _ => readsClosingAt_cons_cons h i

theorem nesting_eq_count (c : Bytes) :
    nesting c = Nat.count (OccursAt openingMark c) c.length -
      Nat.count (ReadsClosingAt c) c.length := by
  induction c using nesting.induct with
  | case1 rest ih =>
    have hopen : OccursAt openingMark (0x5B :: 0x2A :: rest) 0 := ⟨rest, rfl⟩
    have hinner : ¬OccursAt openingMark (0x2A :: rest) 0 := by
      simp [OccursAt, openingMark, openBracket]
    have hzero : ¬ReadsClosingAt (0x5B :: 0x2A :: rest) 0 := by
      simp [ReadsClosingAt, OccursAt, closingMark, asterisk]
    have hone : ¬ReadsClosingAt (0x5B :: 0x2A :: rest) 1 := by
      simp [ReadsClosingAt, hopen]
    simp only [List.length_cons, count_readsClosingAt_cons_cons hinner, nesting, ih, if_neg hzero,
      if_neg hone]
    rw [← List.length_cons, count_occursAt_cons, List.length_cons, count_occursAt_cons,
      if_pos hopen, if_neg hinner]
    omega
  | case2 rest ih =>
    have hclose : OccursAt closingMark (0x2A :: 0x5D :: rest) 0 := ⟨rest, rfl⟩
    have hopen : ¬OccursAt openingMark (0x2A :: 0x5D :: rest) 0 := by
      simp [OccursAt, openingMark, openBracket]
    have hinner : ¬OccursAt openingMark (0x5D :: rest) 0 := by
      simp [OccursAt, openingMark, openBracket]
    have hzero : ReadsClosingAt (0x2A :: 0x5D :: rest) 0 := ⟨hclose, Or.inl rfl⟩
    have hone : ¬ReadsClosingAt (0x2A :: 0x5D :: rest) 1 := by
      simp [ReadsClosingAt, OccursAt, closingMark, asterisk]
    simp only [List.length_cons, count_readsClosingAt_cons_cons hinner, nesting, ih, if_pos hzero,
      if_neg hone]
    rw [← List.length_cons, count_occursAt_cons, List.length_cons, count_occursAt_cons,
      if_neg hopen, if_neg hinner]
    omega
  | case3 b rest hopening hclosing ih =>
    have hopen : ¬OccursAt openingMark (b :: rest) 0 := by
      intro h
      obtain ⟨tail, h⟩ := h
      simp only [openingMark, openBracket, asterisk, List.cons_append, List.nil_append,
        List.drop_zero, List.cons.injEq] at h
      exact hopening tail h.1.symm h.2.symm
    have hclose : ¬ReadsClosingAt (b :: rest) 0 := by
      rintro ⟨⟨tail, h⟩, -⟩
      simp only [closingMark, closeBracket, asterisk, List.cons_append, List.nil_append,
        List.drop_zero, List.cons.injEq] at h
      exact hclosing tail h.1.symm h.2.symm
    rw [nesting.eq_3 _ _ hopening hclosing, List.length_cons, count_occursAt_cons,
      count_readsClosingAt_cons hopen, if_neg hopen, if_neg hclose]
    exact ih
  | case4 => rfl
/-- In a prefix the marks count that end in it. -/
theorem readsClosingAt_take {c : Bytes} {n i : ℕ} :
    ReadsClosingAt (c.take n) i ↔ ReadsClosingAt c i ∧ i + 2 ≤ n := by
  simp only [ReadsClosingAt, closingMark, openingMark, occursAt_take]
  constructor
  · rintro ⟨⟨hclose, hn⟩, hfirst | hopen⟩
    · exact ⟨⟨hclose, Or.inl hfirst⟩, hn⟩
    · exact ⟨⟨hclose, Or.inr fun h => hopen ⟨h, by omega⟩⟩, hn⟩
  · rintro ⟨⟨hclose, hread⟩, hn⟩
    exact ⟨⟨hclose, hn⟩, hread.imp_right fun hopen h => hopen h.1⟩

theorem nesting_take {c : Bytes} {n : ℕ} (hn : n ≤ c.length) :
    nesting (c.take n) = Nat.count (OccursAt openingMark c) (n - 1) -
      Nat.count (ReadsClosingAt c) (n - 1) := by
  have hopens : Nat.count (OccursAt openingMark (c.take n)) n =
      Nat.count (OccursAt openingMark c) (n - 1) := count_occursAt_take n
  have hcloses : Nat.count (ReadsClosingAt (c.take n)) n =
      Nat.count (ReadsClosingAt c) (n - 1) := by
    cases n with
    | zero => rfl
    | succ n =>
      have hlast : ¬ReadsClosingAt (c.take (n + 1)) n := fun h => by
        have hend := (readsClosingAt_take.mp h).2
        omega
      rw [Nat.count_succ, if_neg hlast]
      exact count_congr fun i hi => readsClosingAt_take.trans (and_iff_left (by omega))
  rw [nesting_eq_count, List.length_take_of_le hn, hopens, hcloses]

section Reading

variable {s : Bytes}

/-- At this mark the text read from left to right has as many closing marks as opening ones. -/
def ReadsEndAt (s : Bytes) (i : ℕ) : Prop :=
  ReadsClosingAt (cString s) i ∧
    Nat.count (OpensAt s) i ≤ Nat.count (ReadsClosingAt (cString s)) i

/-- What a whole comment is, in the text behind its opening mark. -/
theorem balancesAt_iff {n : ℕ} :
    BalancesAt (openingMark ++ s) n ↔ ∃ m ≤ (cString s).length, n = m + 2 ∧
      Nat.count (ReadsClosingAt (cString s)) (m - 1) = Nat.count (OpensAt s) (m - 1) + 1 := by
  have hlength : strlen (openingMark ++ s) = (cString s).length + 2 := rfl
  have hdepth {m : ℕ} (hm : m ≤ (cString s).length) :
      nesting ((openingMark ++ s).take (m + 2)) = nesting ((cString s).take m) + 1 := by
    have htake : s.take m = (cString s).take m := by
      obtain ⟨rest, hrest⟩ : cString s <+: s := List.takeWhile_prefix _
      calc s.take m = (cString s ++ rest).take m := by rw [hrest]
        _ = (cString s).take m := List.take_append_of_le_length hm
    rw [← htake]
    rfl
  constructor
  · rintro ⟨htwo, hn, hzero⟩
    obtain ⟨m, rfl⟩ := Nat.exists_eq_add_of_le' htwo
    have hm : m ≤ (cString s).length := by omega
    rw [hdepth hm, nesting_take hm] at hzero
    refine ⟨m, hm, rfl, ?_⟩
    change _ = Nat.count (OccursAt openingMark (cString s)) (m - 1) + 1
    omega
  · rintro ⟨m, hm, rfl, hcount⟩
    refine ⟨by omega, by omega, ?_⟩
    rw [hdepth hm, nesting_take hm]
    change _ = Nat.count (OccursAt openingMark (cString s)) (m - 1) + 1 at hcount
    omega

/-- Before the end that the reading finds, no closing marks are left over. -/
theorem count_le_of_not_ends {n : ℕ} (h : ∀ i < n, ¬ReadsEndAt s i) :
    Nat.count (ReadsClosingAt (cString s)) n ≤ Nat.count (OpensAt s) n := by
  induction n with
  | zero => simp
  | succ n ih =>
    have hle := ih fun i hi => h i (by omega)
    rw [Nat.count_succ, Nat.count_succ]
    by_cases hread : ReadsClosingAt (cString s) n
    · have hlt : Nat.count (ReadsClosingAt (cString s)) n < Nat.count (OpensAt s) n := by
        by_contra hnot
        exact h n (by omega) ⟨hread, by omega⟩
      rw [if_pos hread]
      omega
    · rw [if_neg hread]
      omega

/-- The shortest whole comment is the one up to the end that the reading finds. -/
theorem isLeast_of_reading {e : ℕ} (h : First (ReadsEndAt s) (some e)) :
    IsLeast {n | BalancesAt (openingMark ++ s) n} (e + 4) := by
  obtain ⟨⟨hread, hopens⟩, hbefore⟩ := h
  have hle := count_le_of_not_ends hbefore
  have hclose : ClosesAt s e := hread.1
  have hlength := OccursAt.lt_length hclose
  have hopen : ¬OpensAt s e := fun hopen => hopen.not_closesAt hclose
  constructor
  · refine balancesAt_iff.mpr ⟨e + 2, by omega, rfl, ?_⟩
    change Nat.count _ (e + 1) = Nat.count _ (e + 1) + 1
    rw [Nat.count_succ, Nat.count_succ, if_pos hread, if_neg hopen]
    omega
  · intro n hn
    obtain ⟨m, -, rfl, hcount⟩ := balancesAt_iff.mp hn
    by_contra hlt
    have hle := count_le_of_not_ends (n := m - 1) fun i hi => hbefore i (by omega)
    omega

theorem not_balancesAt_of_reading (h : First (ReadsEndAt s) none) (n : ℕ) :
    ¬BalancesAt (openingMark ++ s) n := by
  intro hn
  obtain ⟨m, -, -, hcount⟩ := balancesAt_iff.mp hn
  have hle := count_le_of_not_ends (n := m - 1) fun i _ => h i
  omega

theorem skipNestableComment_eq_ok {n : ℕ} :
    skipNestableComment (openingMark ++ s) = .ok n ↔ (nestedEnd s).map (· + 4) = some n := by
  have hdrop : (openingMark ++ s).drop 2 = s := rfl
  unfold skipNestableComment
  rw [hdrop]
  cases nestedEnd s with
  | none => exact ⟨nofun, nofun⟩
  | some e => simp [pure, Except.pure]

theorem skipNestableComment_eq_error :
    (∃ msg, skipNestableComment (openingMark ++ s) = .error msg) ↔ nestedEnd s = none := by
  have hdrop : (openingMark ++ s).drop 2 = s := rfl
  unfold skipNestableComment
  rw [hdrop]
  cases nestedEnd s with
  | none => exact ⟨fun _ => rfl, fun _ => ⟨_, rfl⟩⟩
  | some e => exact ⟨nofun, nofun⟩

/-- The tokenizer meets the reading where both find the same end. -/
theorem skipsBalanced_iff_end {found : Option ℕ} (h : First (ReadsEndAt s) found) :
    SkipsBalanced (openingMark ++ s) ↔ nestedEnd s = found := by
  unfold SkipsBalanced
  simp only [skipNestableComment_eq_ok, skipNestableComment_eq_error]
  cases found with
  | none =>
    have hspec := not_balancesAt_of_reading h
    constructor
    · exact fun hmeets => hmeets.2.mpr hspec
    · rintro hend
      rw [hend]
      exact ⟨fun n => ⟨nofun, fun hleast => absurd hleast.1 (hspec n)⟩, by simpa using hspec⟩
  | some e =>
    have hspec := isLeast_of_reading h
    constructor
    · intro hmeets
      simpa using (hmeets.1 (e + 4)).mpr hspec
    · intro hend
      rw [hend]
      refine ⟨fun n => ⟨fun hn => ?_, fun hleast => ?_⟩, ?_⟩
      · obtain rfl : e + 4 = n := by simpa using hn
        exact hspec
      · exact congrArg some (hspec.unique hleast)
      · exact ⟨nofun, fun hnone => absurd hspec.1 (hnone _)⟩

/-- A mark that closes the text read from left to right overtakes the opening marks. -/
theorem ReadsEndAt.overtakes {i : ℕ} (h : ReadsEndAt s i) : Overtakes s i := by
  have hopens := Nat.count_monotone (OpensAt s) (Nat.sub_le i 1)
  have hcloses : Nat.count (ReadsClosingAt (cString s)) i ≤ Nat.count (ClosesAt s) i :=
    Nat.count_mono_left fun j _ hread => hread.1
  have hle := h.2
  exact ⟨h.1.1, by omega⟩

/-- Up to a place before which no mark overlaps with another one, both find the same ends. -/
theorem readsEndAt_iff_overtakes {i : ℕ}
    (h : ∀ j < i, OpensAt s j → ¬ClosesAt s (j + 1)) : ReadsEndAt s i ↔ Overtakes s i := by
  have hread {j : ℕ} (hj : j ≤ i) : ReadsClosingAt (cString s) j ↔ ClosesAt s j := by
    refine ⟨And.left, fun hclose => ⟨hclose, ?_⟩⟩
    cases j with
    | zero => exact Or.inl rfl
    | succ j => exact Or.inr fun hopen => h j (by omega) hopen hclose
  have hcloses : Nat.count (ReadsClosingAt (cString s)) i = Nat.count (ClosesAt s) i :=
    count_congr fun j hj => hread hj.le
  rw [ReadsEndAt, Overtakes, hread le_rfl, hcloses, and_congr_right_iff]
  intro hclose
  cases i with
  | zero => rfl
  | succ i =>
    have hopen : ¬OpensAt s i := fun hopen => h i (by omega) hopen hclose
    rw [Nat.add_sub_cancel, Nat.count_succ, if_neg hopen]
    rfl

/-- Every opening mark whose asterisk is also one of a closing mark lies behind a whole
comment. -/
def OverlapsBehind (s : Bytes) : Prop :=
  ∀ i, OpensAt s i → ClosesAt s (i + 1) → ∃ n ≤ i + 2, BalancesAt (openingMark ++ s) n

/-- At no closing mark, those in a `[*]` counted, are there more closing marks than opening marks
before it. -/
def NeverOvertaken (s : Bytes) : Prop :=
  ∀ i, ClosesAt s i → Nat.count (ClosesAt s) (i + 1) ≤ Nat.count (OpensAt s) (i - 1)

theorem neverOvertaken_iff : NeverOvertaken s ↔ ∀ i, ¬Overtakes s i := by
  refine forall_congr' fun i => ?_
  rw [Overtakes, not_and, Nat.not_le]
  refine forall_congr' fun hclose => ?_
  rw [Nat.count_succ, if_pos hclose]
  omega

/-- A `[*]` before the end that the reading finds makes an earlier mark overtake. -/
theorem exists_overtakes {i e : ℕ} (hopen : OpensAt s i) (hclose : ClosesAt s (i + 1))
    (hlt : i + 1 < e) (hend : ReadsEndAt s e) : ∃ j < e, Overtakes s j := by
  have hread : ¬ReadsClosingAt (cString s) (i + 1) := fun hread =>
    hread.2.elim (by omega) fun hnot => hnot hopen
  have hfewer : Nat.count (ReadsClosingAt (cString s)) e < Nat.count (ClosesAt s) e :=
    count_lt_count (fun j hj => hj.1) hlt hclose hread
  obtain ⟨j, hj, hclosej, hcount⟩ := exists_last (p := ClosesAt s) (b := e) (by omega)
  have hmono := Nat.count_monotone (OpensAt s) (show j - 1 ≤ e by omega)
  have hends := hend.2
  exact ⟨j, hj, hclosej, by omega⟩

/-- The tokenizer skips the shortest prefix in which the marks balance, exactly if each `[*]` lies
behind that prefix or no closing mark overtakes. -/
theorem skipsBalanced_iff (s : Bytes) :
    SkipsBalanced (openingMark ++ s) ↔ OverlapsBehind s ∨ NeverOvertaken s := by
  obtain ⟨found, hfound⟩ := exists_first (ReadsEndAt s)
  have hfirst := nestedEnd_first s
  rw [skipsBalanced_iff_end hfound]
  constructor
  · rintro hend
    rw [hend] at hfirst
    cases found with
    | none => exact Or.inr (neverOvertaken_iff.mpr hfirst)
    | some e =>
      refine Or.inl fun i hopen hclose => ⟨e + 4, ?_, (isLeast_of_reading hfound).1⟩
      by_contra hlt
      obtain hie | rfl | rfl | rfl : i + 1 < e ∨ e = i + 1 ∨ e = i ∨ i = e + 1 := by omega
      · obtain ⟨j, hj, hover⟩ := exists_overtakes hopen hclose hie hfound.1
        exact hfirst.2 j hj hover
      · exact hfound.1.1.2.elim (by omega) fun hnot => hnot hopen
      · exact hopen.not_closesAt hfirst.1.1
      · have heq := (occursAt_pair.mp hfirst.1.1).2.symm.trans (occursAt_pair.mp hopen).1
        exact absurd heq (by decide)
  · rintro (hbehind | hnever)
    · refine hfirst.unique (hfound.congr fun i hi => readsEndAt_iff_overtakes ?_)
      intro j hj hopen hclose
      obtain ⟨n, hn, hbalances⟩ := hbehind j hopen hclose
      cases found with
      | none => exact not_balancesAt_of_reading hfound n hbalances
      | some e =>
        have hie := hi e rfl
        have hle := (isLeast_of_reading hfound).2 hbalances
        omega
    · have hnone := neverOvertaken_iff.mp hnever
      have hover : First (Overtakes s) none := hnone
      exact (hfirst.unique hover).trans
        ((show First (ReadsEndAt s) none from fun i hi => hnone i hi.overtakes).unique hfound)

end Reading

end AviSynth
