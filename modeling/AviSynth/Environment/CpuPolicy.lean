import AviSynth.Environment.MaxCpu

/-!
# The policy of `SetMaxCPU`

The requests of a list are read off its trimmed tokens and applied from left to
right. The function follows them for every list that is not empty.
-/

namespace AviSynth

open Cpuf

/-! ## Levels as rungs of a ladder -/

/-- The flags that belong to the levels above a rank. -/
def flagsAbove (rungs : List CpuFlagsEx) (rank : ℕ) : CpuFlagsEx :=
  (rungs.drop (rank + 1)).foldr (· ||| ·) 0

/-- The levels of an architecture in their order, each with the flags that belong
to it. A limit clears what belongs to a higher level and nothing else. -/
structure CpuLadder (T : CpuTarget) where
  lowest : T.CPUlevel
  rank : T.CPUlevel → ℕ
  rungs : List CpuFlagsEx
  named_empty : T.cpulevel? [] = some lowest
  limit_eq : ∀ cpulevel flags,
    T.limit cpulevel flags = flags &&& ~~~flagsAbove rungs (rank cpulevel)

/-- A test as a mask. -/
theorem switchOff_eq (c : Prop) [Decidable c] (mask flags : CpuFlagsEx) :
    switchOff c mask flags = flags &&& ~~~(if c then mask else 0) := by
  unfold switchOff
  split
  · rfl
  · exact (BitVec.and_allOnes).symm

/-- Two masks in turn are one mask. -/
theorem clear_clear (flags mask mask' : CpuFlagsEx) :
    flags &&& ~~~mask &&& ~~~mask' = flags &&& ~~~(mask ||| mask') := by
  rw [BitVec.and_assoc, BitVec.not_or]

/-- The tests of ARM clear the rungs above the level. -/
theorem ArmLevel.limit_eq (cpulevel : ArmLevel) (flags : CpuFlagsEx) :
    limit cpulevel flags = flags &&& ~~~flagsAbove [0, ARM_NEON, ARM_DOTPROD,
      ARM_SVE2, ARM_I8MM, ARM_SVE2_1] cpulevel.ctorIdx := by
  simp only [limit, switchOff_eq, clear_clear]
  cases cpulevel <;> exact congrArg (fun mask => flags &&& ~~~mask) (by decide)

/-- The ladder of 64-bit ARM. -/
def armLadder : CpuLadder arm64Target where
  lowest := ArmLevel.none
  rank := ArmLevel.ctorIdx
  rungs := [0, ARM_NEON, ARM_DOTPROD, ARM_SVE2, ARM_I8MM, ARM_SVE2_1]
  named_empty := rfl
  limit_eq := ArmLevel.limit_eq

/-- The last rung holds the features that no level names. -/
def x86Rungs : List CpuFlagsEx :=
  [0, MMX, SSE ||| INTEGER_SSE, SSE2, SSE3, SSSE3, SSE4_1,
    SSE4_2, AVX, AVX2 ||| FMA3 ||| FMA4 ||| F16C,
    AVX512_BASE_ALL, AVX512_FAST_ALL &&& ~~~AVX512_BASE_ALL,
    AVX512_MASK &&& ~~~AVX512_FAST_ALL]

/-- The tests of x86 clear the rungs above the level. -/
theorem X86Level.limit_eq (cpulevel : X86Level) (flags : CpuFlagsEx) :
    limit cpulevel flags = flags &&& ~~~flagsAbove x86Rungs cpulevel.ctorIdx := by
  simp only [limit, switchOff_eq, clear_clear]
  cases cpulevel <;> exact congrArg (fun mask => flags &&& ~~~mask) (by decide)

/-- The ladder of x86. -/
def x86Ladder : CpuLadder x86Target where
  lowest := X86Level.none
  rank := X86Level.ctorIdx
  rungs := x86Rungs
  named_empty := rfl
  limit_eq := X86Level.limit_eq

/-- Every flag stands above the only level. -/
def otherLadder : CpuLadder otherTarget where
  lowest := ()
  rank _ := 0
  rungs := [0, BitVec.allOnes 64]
  named_empty := rfl
  limit_eq _ flags := by simp [otherTarget, flagsAbove]

/-- The ladder of each architecture. -/
def Architecture.ladder : (a : Architecture) → CpuLadder a.target
  | arm64 => armLadder
  | x86 => x86Ladder
  | other => otherLadder

/-! ## Requests -/

/-- What a token asks for. -/
inductive CpuRequest (Level : Type)
  | limit (cpulevel : Level)
  | add (cpulevel : Level)
  | remove (cpulevel : Level)

/-- The trimmed tokens of a list; pieces with nothing in them are no tokens, but
the empty string is one. -/
def cpuTokens (features : List Char) : List (List Char) :=
  if features = [] then [[]] else ((features.splitOn ',').map Strings.trim).filter (· ≠ [])

/-- What a token asks for, if it names a level. -/
def CpuTarget.requestOf (T : CpuTarget) (token : List Char) : Option (CpuRequest T.CPUlevel) :=
  match CpuMode.ofToken token with
  | .limit => (T.cpulevel? token).map .limit
  | .add => (T.cpulevel? token.dropLast).map .add
  | .remove => (T.cpulevel? token.dropLast).map .remove

namespace CpuLadder

variable {T : CpuTarget} (ladder : CpuLadder T)

/-- The flags that belong to a higher level. -/
def above (cpulevel : T.CPUlevel) : CpuFlagsEx := flagsAbove ladder.rungs (ladder.rank cpulevel)

/-- The flags after a request. -/
def apply (flags : CpuFlagsEx) : CpuRequest T.CPUlevel → CpuFlagsEx
  | .limit cpulevel => flags &&& ~~~ladder.above cpulevel
  | .add cpulevel => flags ||| T.currentFlag cpulevel
  | .remove cpulevel => flags &&& ~~~T.currentFlag cpulevel

/-- The flags that the requests of a list lead to, if all its tokens are known. -/
def policy (features : List Char) (flags : CpuFlagsEx) : Option CpuFlagsEx :=
  ((cpuTokens features).mapM T.requestOf).map (·.foldl ladder.apply flags)

end CpuLadder

/-! ## The tokens of the loop -/

/-- A letter in upper case becomes one in lower case, and any other character stays. -/
theorem toLower_cases (c : Char) :
    (c.isAlpha ∧ 97 ≤ c.toLower.toNat ∧ c.toLower.toNat ≤ 122) ∨ c.toLower = c := by
  by_cases hupper : c.val ≥ 'A'.val ∧ c.val ≤ 'Z'.val
  · have hlow : 65 ≤ c.toNat := UInt32.le_iff_toNat_le.1 hupper.1
    have hhigh : c.toNat ≤ 90 := UInt32.le_iff_toNat_le.1 hupper.2
    have htoNat : c.toLower.toNat = c.toNat + 32 := by
      have hlower : c.toLower.val = c.val + 32 := congrArg Char.val (dif_pos hupper)
      rw [← Char.toNat_val, hlower]
      rw [UInt32.toNat_add, Char.toNat_val, show (32 : UInt32).toNat = 32 from rfl]
      exact Nat.mod_eq_of_lt (by omega)
    exact .inl ⟨isAlpha_iff.2 (.inl ⟨hlow, hhigh⟩), by omega, by omega⟩
  · exact .inr (dif_neg hupper)

theorem isAlpha_toLower {c : Char} (h : c.isAlpha) : c.toLower.isAlpha := by
  obtain ⟨-, hlow, hhigh⟩ | hsame := toLower_cases c
  · exact isAlpha_iff.2 (.inr ⟨hlow, hhigh⟩)
  · rwa [hsame]

/-- A letter in lower case is no other character. -/
theorem toLower_eq_iff {c d : Char} (h : d.isAlpha = false) : c.toLower = d ↔ c = d := by
  obtain ⟨hletter, -⟩ | hsame := toLower_cases c
  · have hnot {e : Char} (he : e.isAlpha) : e ≠ d := by
      rintro rfl
      rw [h] at he
      exact Bool.false_ne_true he
    exact iff_of_false (hnot (isAlpha_toLower hletter)) (hnot hletter)
  · rw [hsame]

theorem toLower_toLower (c : Char) : c.toLower.toLower = c.toLower := by
  obtain ⟨-, hlow, -⟩ | hsame := toLower_cases c
  · refine dif_neg fun hupper => ?_
    have hhigh : c.toLower.toNat ≤ 90 := UInt32.le_iff_toNat_le.1 hupper.2
    omega
  · rw [hsame, hsame]

theorem isSpace_toLower (c : Char) : isSpace c.toLower = isSpace c := by
  obtain ⟨hletter, -⟩ | hsame := toLower_cases c
  · rw [not_isSpace_of_isAlpha hletter, not_isSpace_of_isAlpha (isAlpha_toLower hletter)]
  · rw [hsame]

/-- The blanks do not depend on the case. -/
theorem trim_map_toLower (s : List Char) :
    Strings.trim (s.map Char.toLower) = (Strings.trim s).map Char.toLower := by
  have hspace : isSpace ∘ Char.toLower = isSpace := funext isSpace_toLower
  simp only [Strings.trim, List.dropWhile_map, ← List.map_reverse, hspace]

theorem splitOn_cons (c : Char) (s : List Char) :
    (c :: s).splitOn ',' =
      if c = ',' then [] :: s.splitOn ',' else (s.splitOn ',').modifyHead (c :: ·) := by
  rw [List.splitOn, List.splitOn, List.splitOnP_cons_eq_if_modifyHead]
  simp only [beq_iff_eq]

/-- The commas do not depend on the case. -/
theorem splitTokens_map_toLower (s piece : List Char) :
    splitTokens (piece.map Char.toLower) (s.map Char.toLower) =
      (splitTokens piece s).map (List.map Char.toLower) := by
  induction s generalizing piece with
  | nil => rfl
  | cons c s ih =>
    simp only [List.map_cons, splitTokens, toLower_eq_iff (d := ',') (by decide)]
    by_cases hc : c = ','
    · have hrest := ih []
      rw [List.map_nil] at hrest
      by_cases hpiece : piece = []
      · simpa [hc, hpiece] using hrest
      · simpa [hc, hpiece] using hrest
    · simpa [hc] using ih (piece ++ [c])

/-- The cut pieces and the pieces between commas differ in empty ones alone. -/
theorem splitTokens_tokens (s piece : List Char) :
    ((splitTokens piece s).map Strings.trim).filter (· ≠ []) =
      (((s.splitOn ',').modifyHead (piece ++ ·)).map Strings.trim).filter (· ≠ []) := by
  induction s generalizing piece with
  | nil => simp [splitTokens]
  | cons c s ih =>
    rw [splitTokens, splitOn_cons]
    by_cases hc : c = ','
    · rw [if_pos hc, if_pos hc, List.modifyHead_cons, List.append_nil]
      have hrest := ih []
      rw [show ([] ++ · : List Char → List Char) = id from rfl, List.modifyHead_id, id] at hrest
      split
      next => rw [List.map_cons, List.filter_cons, hrest, List.map_cons, List.filter_cons]
      next hpiece =>
        rw [not_not.mp hpiece, hrest]
        rfl
    · rw [if_neg hc, if_neg hc, ih, List.modifyHead_modifyHead]
      congr 3
      funext rest
      simp

namespace CpuTarget

variable (T : CpuTarget)

/-- The mode does not depend on the case. -/
theorem ofToken_map_toLower (token : List Char) :
    CpuMode.ofToken (token.map Char.toLower) = CpuMode.ofToken token := by
  have hlast (d : Char) (hd : d.isAlpha = false) :
      (token.map Char.toLower).getLast? = some d ↔ token.getLast? = some d := by
    rw [List.getLast?_map]
    cases token.getLast? with
    | none => simp
    | some c => simp [toLower_eq_iff hd]
  simp only [CpuMode.ofToken, hlast '-' (by decide), hlast '+' (by decide)]

/-- The level does not depend on the case. -/
theorem cpulevel?_map_toLower (t : List Char) :
    T.cpulevel? (t.map Char.toLower) = T.cpulevel? t := by
  have hmap : (t.map Char.toLower).map Char.toLower = t.map Char.toLower := by
    rw [List.map_map]
    exact List.map_congr_left fun c _ => toLower_toLower c
  simp only [cpulevel?, streqi, hmap]

/-- One token of the loop is one request; letter case does not matter. -/
theorem applyToken_eq (ladder : CpuLadder T) (flags : CpuFlagsEx) {piece : List Char}
    (hpiece : Strings.trim piece ≠ []) :
    (∀ request, T.requestOf (Strings.trim piece) = some request →
      T.applyToken flags (piece.map Char.toLower) = .ok (ladder.apply flags request)) ∧
    (T.requestOf (Strings.trim piece) = none →
      ∃ e, T.applyToken flags (piece.map Char.toLower) = .error e) := by
  have hlower : (Strings.trim piece).map Char.toLower ≠ [] :=
    fun h => hpiece (List.map_eq_nil_iff.mp h)
  rw [applyToken, trim_map_toLower, if_neg hlower]
  simp only [ofToken_map_toLower, ← List.map_dropLast, requestOf]
  cases CpuMode.ofToken (Strings.trim piece) with
  | limit =>
    simp only [ne_eq, not_true_eq_false, if_false, cpulevel?_map_toLower]
    cases T.cpulevel? (Strings.trim piece) with
    | none => simp
    | some cpulevel => simp [CpuLadder.apply, CpuLadder.above, ladder.limit_eq]
  | add =>
    simp only [ne_eq, reduceCtorEq, not_false_eq_true, if_true, cpulevel?_map_toLower]
    cases T.cpulevel? (Strings.trim piece).dropLast with
    | none => simp
    | some cpulevel => simp [CpuLadder.apply]
  | remove =>
    simp only [ne_eq, reduceCtorEq, not_false_eq_true, if_true, cpulevel?_map_toLower]
    cases T.cpulevel? (Strings.trim piece).dropLast with
    | none => simp
    | some cpulevel =>
      by_cases hflag : T.currentFlag cpulevel = 0
      · have hall : flags &&& BitVec.allOnes 64 = flags := BitVec.and_allOnes
        simpa [CpuLadder.apply, hflag] using hall.symm
      · simp only [if_pos hflag, CpuLadder.apply, Option.map_some, Option.some.injEq, forall_eq',
          reduceCtorEq, false_implies, and_true]

/-- The loop over pieces in lower case applies the requests of their tokens. -/
theorem foldlM_applyToken (ladder : CpuLadder T) (pieces : List (List Char)) (flags : CpuFlagsEx) :
    (∀ requests, ((pieces.map Strings.trim).filter (· ≠ [])).mapM T.requestOf = some requests →
      (pieces.map (List.map Char.toLower)).foldlM T.applyToken flags =
        .ok (requests.foldl ladder.apply flags)) ∧
    (((pieces.map Strings.trim).filter (· ≠ [])).mapM T.requestOf = none →
      ∃ e, (pieces.map (List.map Char.toLower)).foldlM T.applyToken flags = .error e) := by
  induction pieces generalizing flags with
  | nil => simp [pure, Except.pure]
  | cons piece pieces ih =>
    by_cases hpiece : Strings.trim piece = []
    · have hskip : T.applyToken flags (piece.map Char.toLower) = .ok flags := by
        rw [applyToken, trim_map_toLower, hpiece, List.map_nil, if_pos rfl]
      rw [List.map_cons, List.map_cons, List.filter_cons_of_neg (by simpa using hpiece),
        List.foldlM_cons, hskip]
      exact ih flags
    · obtain ⟨hsome, hnone⟩ := T.applyToken_eq ladder flags hpiece
      rw [List.map_cons, List.map_cons, List.filter_cons_of_pos (by simpa using hpiece),
        List.mapM_cons, List.foldlM_cons]
      cases hrequest : T.requestOf (Strings.trim piece) with
      | none =>
        obtain ⟨e, he⟩ := hnone hrequest
        exact ⟨by simp, fun _ => ⟨e, by rw [he]; rfl⟩⟩
      | some request =>
        rw [hsome request hrequest]
        obtain ⟨hok, herror⟩ := ih (ladder.apply flags request)
        cases hrest : ((pieces.map Strings.trim).filter (· ≠ [])).mapM T.requestOf with
        | none =>
          obtain ⟨e, he⟩ := herror hrest
          exact ⟨by simp, fun _ => ⟨e, he⟩⟩
        | some rest =>
          refine ⟨fun requests h => ?_, by simp⟩
          obtain rfl : request :: rest = requests := by simpa using h
          exact hok rest hrest

/-- What the function leaves of the flags: those of the policy, or all of them
with an error. -/
def FollowsPolicy (ladder : CpuLadder T) (features : List Char) (flags : CpuFlagsEx) : Prop :=
  (∀ flags', ladder.policy features flags = some flags' →
    T.SetMaxCPU features flags = (.ok (), flags')) ∧
  (ladder.policy features flags = none → ∃ e, T.SetMaxCPU features flags = (.error e, flags))

/-- A list that is not empty is followed. -/
theorem followsPolicy_of_ne_nil (ladder : CpuLadder T) {features : List Char} (h : features ≠ [])
    (flags : CpuFlagsEx) : T.FollowsPolicy ladder features flags := by
  have hmodify : (features.splitOn ',').modifyHead ([] ++ ·) = features.splitOn ',' :=
    congrFun List.modifyHead_id _
  have htokens : cpuTokens features =
      ((splitTokens [] features).map Strings.trim).filter (· ≠ []) := by
    rw [cpuTokens, if_neg h, splitTokens_tokens, hmodify]
  have hpieces : splitTokens [] (features.map Char.toLower) =
      (splitTokens [] features).map (List.map Char.toLower) := splitTokens_map_toLower features []
  obtain ⟨hok, herror⟩ := T.foldlM_applyToken ladder (splitTokens [] features) flags
  rw [← htokens, ← hpieces] at hok herror
  constructor
  · intro flags' hpolicy
    obtain ⟨requests, hrequests, rfl⟩ := Option.map_eq_some_iff.mp hpolicy
    rw [SetMaxCPU, hok requests hrequests]
  · intro hpolicy
    obtain ⟨e, he⟩ := herror (Option.map_eq_none_iff.mp hpolicy)
    exact ⟨e, by rw [SetMaxCPU, he]⟩

/-- The one token of the empty string is skipped. -/
theorem setMaxCPU_nil (flags : CpuFlagsEx) : T.SetMaxCPU [] flags = (.ok (), flags) := rfl

end CpuTarget

/-! ## Requests and flags -/

theorem map_eq_of_mapM {α β : Type} {f : α → Option β} {l : List α} {l' : List β}
    (h : l.mapM f = some l') : l.map f = l'.map some := by
  induction l generalizing l' with
  | nil =>
    obtain rfl : [] = l' := by simpa using h
    rfl
  | cons a l ih =>
    rw [List.mapM_cons] at h
    cases ha : f a with
    | none => simp [ha] at h
    | some b =>
      cases hl : l.mapM f with
      | none => simp [ha, hl] at h
      | some rest =>
        obtain rfl : b :: rest = l' := by simpa [ha, hl] using h
        rw [List.map_cons, ha, ih hl, List.map_cons]

namespace CpuLadder

variable {T : CpuTarget} (ladder : CpuLadder T) {features : List Char}

/-- An empty list asks for the lowest level. -/
theorem policy_nil (flags : CpuFlagsEx) :
    ladder.policy [] flags = some (flags &&& ~~~ladder.above ladder.lowest) := by
  have hrequest : T.requestOf [] = some (.limit ladder.lowest) := by
    rw [CpuTarget.requestOf, CpuMode.ofToken]
    simp [ladder.named_empty]
  simp [policy, cpuTokens, hrequest, apply]

/-- A request that does not add turns no flag on. -/
theorem apply_off {request : CpuRequest T.CPUlevel} (h : ∀ cpulevel, request ≠ .add cpulevel)
    {flags mask : CpuFlagsEx} (hmask : flags &&& mask = 0) :
    ladder.apply flags request &&& mask = 0 := by
  have hclear (other : CpuFlagsEx) : flags &&& ~~~other &&& mask = 0 := by
    rw [BitVec.and_assoc, BitVec.and_comm _ mask, ← BitVec.and_assoc, hmask]
    exact BitVec.zero_and
  cases request with
  | limit cpulevel => exact hclear _
  | add cpulevel => exact absurd rfl (h cpulevel)
  | remove cpulevel => exact hclear _

/-- What is off stays off unless it is added. -/
theorem foldl_apply_off {requests : List (CpuRequest T.CPUlevel)}
    (h : ∀ request ∈ requests, ∀ cpulevel, request ≠ .add cpulevel) {flags mask : CpuFlagsEx}
    (hmask : flags &&& mask = 0) : requests.foldl ladder.apply flags &&& mask = 0 := by
  induction requests generalizing flags with
  | nil => exact hmask
  | cons request requests ih =>
    exact ih (fun r hr => h r (List.mem_cons_of_mem _ hr))
      (ladder.apply_off (h request List.mem_cons_self) hmask)

/-- A limit with no request behind it that adds leaves no flag of a higher level. -/
theorem foldl_apply_limit (before after : List (CpuRequest T.CPUlevel)) (cpulevel : T.CPUlevel)
    (h : ∀ request ∈ after, ∀ other, request ≠ .add other) (flags : CpuFlagsEx) :
    (before ++ .limit cpulevel :: after).foldl ladder.apply flags &&& ladder.above cpulevel =
      0 := by
  rw [List.foldl_append, List.foldl_cons]
  refine ladder.foldl_apply_off h ?_
  rw [apply, BitVec.and_assoc, BitVec.not_and_self]
  exact BitVec.and_zero

/-- An unknown token leaves no policy. -/
theorem policy_eq_none (h : ∃ token ∈ cpuTokens features, T.requestOf token = none)
    (flags : CpuFlagsEx) :
    ladder.policy features flags = none := by
  obtain ⟨token, hmem, hnone⟩ := h
  rw [policy, Option.map_eq_none_iff, Option.eq_none_iff_forall_ne_some]
  intro requests hrequests
  have hmap : none ∈ requests.map some := by
    rw [← map_eq_of_mapM hrequests, ← hnone]
    exact List.mem_map_of_mem hmem
  obtain ⟨request, -, hrequest⟩ := List.mem_map.mp hmap
  exact absurd hrequest (by simp)

/-- Without a request to add, a policy turns no flag on. -/
theorem policy_off
    (h : ∀ token ∈ cpuTokens features, ∀ cpulevel, T.requestOf token ≠ some (.add cpulevel))
    {flags flags' : CpuFlagsEx} (hpolicy : ladder.policy features flags = some flags') :
    flags' &&& ~~~flags = 0 := by
  obtain ⟨requests, hrequests, rfl⟩ := Option.map_eq_some_iff.mp hpolicy
  refine ladder.foldl_apply_off ?_ (by rw [BitVec.and_not_self])
  rintro _ hrequest cpulevel rfl
  have hmem : some (.add cpulevel) ∈ (cpuTokens features).map T.requestOf := by
    rw [map_eq_of_mapM hrequests]
    exact List.mem_map_of_mem hrequest
  obtain ⟨token, htoken, hadd⟩ := List.mem_map.mp hmem
  exact h token htoken cpulevel hadd

/-- What the settings of a list of features are to do with the flags. -/
structure IsMet (features : List Char) (flags : CpuFlagsEx) : Prop where
  follows : T.FollowsPolicy ladder features flags
  turns_off : (∀ token ∈ cpuTokens features, ∀ cpulevel,
      T.requestOf token ≠ some (.add cpulevel)) →
    (T.SetMaxCPU features flags).2 &&& ~~~flags = 0
  limits : ∀ before cpulevel after,
    (cpuTokens features).mapM T.requestOf = some (before ++ .limit cpulevel :: after) →
    (∀ request ∈ after, ∀ other, request ≠ .add other) →
    (T.SetMaxCPU features flags).2 &&& ladder.above cpulevel = 0
  unknown : (∃ token ∈ cpuTokens features, T.requestOf token = none) →
    ∃ e, T.SetMaxCPU features flags = (.error e, flags)

/-- A list that is followed meets the rest. -/
theorem isMet_of_follows {flags : CpuFlagsEx}
    (h : T.FollowsPolicy ladder features flags) : ladder.IsMet features flags := by
  refine ⟨h, fun hoff => ?_, fun before cpulevel after hrequests hafter => ?_,
    fun hunknown => h.2 (ladder.policy_eq_none hunknown flags)⟩
  · cases hpolicy : ladder.policy features flags with
    | none =>
      obtain ⟨e, he⟩ := h.2 hpolicy
      rw [he]
      exact BitVec.and_not_self _
    | some flags' =>
      rw [h.1 flags' hpolicy]
      exact ladder.policy_off hoff hpolicy
  · have hpolicy := congrArg (Option.map (·.foldl ladder.apply flags)) hrequests
    rw [h.1 _ hpolicy]
    exact ladder.foldl_apply_limit before after cpulevel hafter flags

/-- The empty string is followed where its limit changes nothing. -/
theorem followsPolicy_nil_iff (flags : CpuFlagsEx) :
    T.FollowsPolicy ladder [] flags ↔ flags &&& ladder.above ladder.lowest = 0 := by
  rw [CpuTarget.FollowsPolicy, ladder.policy_nil, T.setMaxCPU_nil]
  have hsplit : flags &&& ladder.above ladder.lowest = 0 ↔
      flags = flags &&& ~~~ladder.above ladder.lowest := by
    constructor
    · intro h
      refine BitVec.eq_of_getLsbD_eq fun i hi => ?_
      have hbit := congrArg (·.getLsbD i) h
      simp only [BitVec.getLsbD_and, BitVec.getLsbD_not, hi, decide_true,
        Bool.true_and] at hbit ⊢
      revert hbit
      cases flags.getLsbD i <;> simp
    · intro h
      rw [h, BitVec.and_assoc, BitVec.not_and_self]
      exact BitVec.and_zero
  rw [hsplit]
  simp

end CpuLadder

/-- `SetMaxCPU` meets the policy for every list of features but the empty
string, which changes nothing where it should switch off every level. -/
theorem setMaxCPU_policy_iff (a : Architecture) (features : List Char) (flags : CpuFlagsEx) :
    a.ladder.IsMet features flags ↔
      features ≠ [] ∨ flags &&& a.ladder.above a.ladder.lowest = 0 := by
  constructor
  · intro h
    by_cases hfeatures : features = []
    · subst hfeatures
      exact .inr ((a.ladder.followsPolicy_nil_iff flags).mp h.follows)
    · exact .inl hfeatures
  · intro h
    refine a.ladder.isMet_of_follows ?_
    by_cases hfeatures : features = []
    · subst hfeatures
      exact (a.ladder.followsPolicy_nil_iff flags).mpr (h.resolve_left (by simp))
    · exact a.target.followsPolicy_of_ne_nil a.ladder hfeatures flags

/-- On a processor with SSE2 the empty string leaves the flag set. -/
theorem setMaxCPU_empty_keeps_sse2 :
    x86Target.SetMaxCPU "".toList (MMX ||| SSE2) = (.ok (), MMX ||| SSE2) ∧
      ¬x86Ladder.IsMet "".toList (MMX ||| SSE2) := by
  refine ⟨rfl, fun h => ?_⟩
  have hfollows := h.follows.1 _ (x86Ladder.policy_nil _)
  exact absurd (congrArg Prod.snd hfollows) (by decide)

end AviSynth
