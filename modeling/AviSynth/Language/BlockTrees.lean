import Mathlib.Data.Nat.Log
import AviSynth.Language.Parser

/-!
# The tree of a block

The statements of a block are put together to a balanced tree while they are parsed. This
file compares the tree with the list of the statements. The tree has 20 slots for its parts,
and the statements that run over the last slot are lost.
-/

namespace AviSynth

namespace Language

open Exceptional Eval CarryTrees

variable {F D W : Type} {found : List (Exp F D × Bool)} {es : List (Exp F D)}

/-- The evaluation of statements one after the other, each of them once. A clip becomes the
variable `last` for the statements behind it. -/
def evaluateStatements [Floating F D] (calls : Calls F D W) (rounds : ℕ) :
    List (Exp F D) → Eval F D W (AVSValue F D)
  | [] => pure .undefined
  | [e] => evaluate calls rounds e
  | e :: e' :: es => do
    setLast (← evaluate calls rounds e)
    evaluateStatements calls rounds (e' :: es)

/-- The statements up to the first `return`. The parser drops what comes after it. -/
def upToReturn : List (Exp F D × Bool) → List (Exp F D)
  | [] => []
  | (e, true) :: _ => [e]
  | (e, false) :: statements => e :: upToReturn statements

/-- A statement is followed by the rest of a block. -/
theorem evaluateStatements_cons [Floating F D] (calls : Calls F D W) (rounds : ℕ) (e : Exp F D)
    (hes : es ≠ []) :
    evaluateStatements calls rounds (e :: es) =
      evaluate calls rounds e >>= fun v => setLast v >>= fun _ =>
        evaluateStatements calls rounds es := by
  cases es with
  | nil => exact absurd rfl hes
  | cons e' es => rfl

/-- The two parts of a block are evaluated one after the other, as by an `ExpSequence`. -/
theorem evaluateStatements_append [Floating F D] (calls : Calls F D W) (rounds : ℕ)
    {xs ys : List (Exp F D)} (hxs : xs ≠ []) (hys : ys ≠ []) :
    evaluateStatements calls rounds (xs ++ ys) =
      evaluateStatements calls rounds xs >>= fun v => setLast v >>= fun _ =>
        evaluateStatements calls rounds ys := by
  induction xs with
  | nil => exact absurd rfl hxs
  | cons x xs ih =>
    cases xs with
    | nil => exact evaluateStatements_cons calls rounds x hys
    | cons x' xs =>
      rw [List.cons_append, evaluateStatements_cons calls rounds x (by simp),
        evaluateStatements_cons calls rounds x (by simp), ih (by simp)]
      simp only [bind_assoc]

/-- A tree of statements is evaluated as the statements in their order, each of them once. -/
theorem evaluate_isTree [Floating F D] (calls : Calls F D W) (rounds : ℕ) {tree : Exp F D}
    {d : ℕ} (h : IsTree .sequence tree es d) :
    evaluate calls rounds tree = evaluateStatements calls rounds es := by
  induction h with
  | leaf e => rfl
  | node left right ihl ihr =>
    rw [evaluateStatements_append calls rounds left.leaves_ne_nil right.leaves_ne_nil, ← ihl, ← ihr,
      evaluate_sequence]

/-- The statements of a tree are the parts of its `ExpSequence`s. -/
theorem leaves_isTree {tree : Exp F D} {d : ℕ}
    (h : IsTree .sequence tree es d) : tree.leaves = es.flatMap Exp.leaves := by
  induction h with
  | leaf e => simp
  | node _ _ ihl ihr => simp [Exp.leaves, ihl, ihr]

/-- A statement whose evaluation never comes to its end. -/
def IsReturn (e : Exp F D) : Prop :=
  ∃ v, e = .returnStmt v ∨ ∃ filename line, e = .line (.returnStmt v) filename line

theorem evaluate_isReturn [Floating F D] (calls : Calls F D W) (rounds : ℕ) {e : Exp F D}
    (h : IsReturn e) : Returns (fun _ => False) (evaluate calls rounds e) := by
  obtain ⟨v, hv⟩ := h
  have hreturn : Returns (fun _ => False) (evaluate calls rounds (.returnStmt v)) := by
    rw [evaluate_returnStmt]
    exact returns_bind _ fun _ => returns_raise _ _
  rcases hv with rfl | ⟨filename, line, rfl⟩
  · exact hreturn
  · rw [evaluate_line]
    refine (hreturn.catching fun error => ?_).catching fun error => ?_
    all_goals
      split
      all_goals exact returns_raise _ _

/-- What comes after a `return` is never evaluated. -/
theorem evaluateStatements_upToReturn [Floating F D] (calls : Calls F D W) (rounds : ℕ)
    (hfound : ∀ e, (e, true) ∈ found → IsReturn e) :
    evaluateStatements calls rounds (found.map Prod.fst) =
      evaluateStatements calls rounds (upToReturn found) := by
  induction found with
  | nil => rfl
  | cons statement found ih =>
    obtain ⟨e, stop⟩ := statement
    cases found with
    | nil => cases stop <;> rfl
    | cons next found =>
      rw [List.map_cons, evaluateStatements_cons calls rounds e (by simp)]
      cases stop with
      | true =>
        have hreturn := evaluate_isReturn calls rounds (hfound e (by simp))
        have hend : evaluate calls rounds e = evaluate calls rounds e >>= pure := by simp
        refine Eq.trans ?_ hend.symm
        exact hreturn.bind_congr fun _ hfalse => hfalse.elim
      | false =>
        rw [ih fun e he => hfound e (List.mem_cons_of_mem _ he)]
        refine (evaluateStatements_cons calls rounds e ?_).symm
        obtain ⟨e', stop'⟩ := next
        cases stop' <;> simp [upToReturn]

namespace ScriptParser

variable (knot : Knot F D) (source : Source)

/-- The statements of a block in the order of the source, each with its place and with
whether it is a `return`. Null statements are not among them, nor are legacy function
definitions at the top of the script. -/
def statements (braced : Bool) : ℕ → Parser F D (List (Exp F D × Bool))
  | 0 => diverge
  | rounds + 1 => do
    if (← token).isNewline then
      nextToken
      statements braced rounds
    else if ← atBlockEnd braced then pure []
    else
      let (exp, stop) ← parseStatement knot source rounds
      match kept braced exp with
      | some exp =>
        let exp ← located source exp
        return (exp, stop) :: (← statements braced rounds)
      | none => statements braced rounds

/-- The statements of a block, as `ParseBlock` comes upon them. -/
def blockStatements (braced : Bool) (rounds : ℕ) : Parser F D (List (Exp F D × Bool)) := do
  if braced then
    skipNewlines rounds
    expect '\x7b'
  statements knot source braced rounds

/-- Only a `return` statement ends a block. -/
theorem parseStatement_stop (rounds : ℕ) :
    Returns (fun result => result.2 = true → ∃ e, result.1 = some (.returnStmt e))
      (parseStatement knot source rounds) := by
  unfold parseStatement
  refine returns_bind _ fun t => returns_bind _ fun t' => ?_
  split
  · exact returns_pure (by simp)
  · refine returns_bind _ fun isTry => ?_
    split
    · exact returns_bind _ fun e => returns_pure (by simp)
    refine returns_bind _ fun isIf => ?_
    split
    · exact returns_bind _ fun e => returns_pure (by simp)
    refine returns_bind _ fun isWhile => ?_
    split
    · exact returns_bind _ fun e => returns_pure (by simp)
    refine returns_bind _ fun isFor => ?_
    split
    · exact returns_bind _ fun e => returns_pure (by simp)
    refine returns_bind _ fun isReturn => ?_
    split
    · exact returns_bind _ fun _ => returns_bind _ fun e => returns_pure fun _ => ⟨e, rfl⟩
    refine returns_bind _ fun isBreak => ?_
    split
    · exact returns_bind _ fun e => returns_pure (by simp)
    refine returns_bind _ fun isContinue => ?_
    split
    · exact returns_bind _ fun e => returns_pure (by simp)
    · exact returns_bind _ fun e => returns_pure (by simp)

/-- The tree of a block: what `ParseBlock` makes of its statements. -/
def blockTree (exps : List (Exp F D)) : Option (Exp F D) :=
  merge .sequence (collect .sequence treesSize exps)

/-- The loop goes through the statements of the block, and carries each of them into the
trees unless a `return` came before. -/
theorem parseStatements_eq (braced : Bool) (rounds : ℕ) (block : BlockState F D) :
    parseStatements knot source braced rounds block =
      (fun found => merge .sequence
        ((if block.ignoreRemainder then [] else upToReturn found).foldl
          (fun slots x => carry .sequence x slots) block.trees)) <$>
        statements knot source braced rounds := by
  induction rounds generalizing block with
  | zero => rfl
  | succ rounds ih =>
    simp only [parseStatements, statements, map_bind]
    refine congrArg _ (funext fun t => ?_)
    split
    · rw [map_bind]
      exact congrArg _ (funext fun _ => ih block)
    rw [map_bind]
    refine congrArg _ (funext fun isEnd => ?_)
    split
    · simp [upToReturn]
    rw [map_bind]
    refine (parseStatement_stop knot source rounds).bind_congr ?_
    rintro ⟨exp, stop⟩ hstop
    cases hkept : kept braced exp with
    | none =>
      have hstop' : stop = false := by
        cases stop with
        | false => rfl
        | true =>
          obtain ⟨e, he⟩ := hstop rfl
          simp only at he
          simp [he, kept] at hkept
      simp only [hstop', Bool.or_false]
      exact ih block
    | some exp =>
      cases hignore : block.ignoreRemainder with
      | false =>
        simp only [map_bind]
        refine congrArg _ (funext fun e => ?_)
        rw [ih]
        cases stop <;> simp [upToReturn]
      | true =>
        simp only [map_bind, Bool.true_or]
        rw [ih]
        simp only [if_true]
        rfl

/-- `ParseBlock` makes a tree of the statements of the block. -/
theorem parseBlock_eq (braced : Bool) (rounds : ℕ) :
    parseBlock knot source braced rounds =
      (fun found => blockTree (upToReturn found)) <$>
        blockStatements knot source braced rounds := by
  simp only [parseBlock, blockStatements]
  split
  · simp only [map_bind, parseStatements_eq, blockTree, collect]
    rfl
  · simp only [parseStatements_eq, blockTree, collect]
    rfl

/-- The statements that end a block are `return` statements. -/
theorem statements_stop (braced : Bool) (rounds : ℕ) :
    Returns (fun found => ∀ e, (e, true) ∈ found → IsReturn e)
      (statements knot source braced rounds) := by
  induction rounds with
  | zero => exact returns_diverge _
  | succ rounds ih =>
    unfold statements
    refine returns_bind _ fun t => ?_
    split
    · exact returns_bind _ fun _ => ih
    refine returns_bind _ fun isEnd => ?_
    split
    · exact returns_pure (by simp)
    refine (parseStatement_stop knot source rounds).bind ?_
    rintro ⟨exp, stop⟩ hstop
    dsimp only
    cases hkept : kept braced exp with
    | none => exact ih
    | some e =>
      have hlocated : Returns (fun located => stop = true → IsReturn located)
          (located source e) := by
        unfold located
        refine returns_bind _ fun line => returns_pure fun htrue => ?_
        obtain ⟨v, hv⟩ := hstop htrue
        simp only at hv
        simp only [hv, kept, Option.some.injEq] at hkept
        cases source.filename with
        | none => exact ⟨v, Or.inl hkept.symm⟩
        | some filename => exact ⟨v, Or.inr ⟨filename, line, by rw [hkept]⟩⟩
      refine hlocated.bind fun e' he' => ih.bind fun found hfound => returns_pure ?_
      intro e'' hmem
      rcases List.mem_cons.mp hmem with heq | hmem
      · obtain ⟨rfl, rfl⟩ := Prod.ext_iff.mp heq
        exact he' rfl
      · exact hfound e'' hmem

theorem blockStatements_stop (braced : Bool) (rounds : ℕ) :
    Returns (fun found => ∀ e, (e, true) ∈ found → IsReturn e)
      (blockStatements knot source braced rounds) := by
  unfold blockStatements
  split
  · exact returns_bind _ fun _ => returns_bind _ fun _ => statements_stop knot source braced rounds
  · exact statements_stop knot source braced rounds

/-- What the tree of a block has to be: made of the statements, each of them once and in
their order, with a logarithmic depth, and evaluated like the statements of the block. -/
def Meets [Floating F D] (found : List (Exp F D × Bool)) (result : Option (Exp F D)) : Prop :=
  (match result with
    | none => upToReturn found = []
    | some tree => ∃ d ≤ Nat.log 2 (upToReturn found).length + 1,
        IsTree .sequence tree (upToReturn found) d) ∧
  ∀ (W : Type) (calls : Calls F D W) (rounds : ℕ),
    evaluate calls rounds (result.getD (.constant .undefined)) =
      evaluateStatements calls rounds (found.map Prod.fst)

/-- The tree of a block is what it has to be if and only if the counter of its trees did not
run over. -/
theorem blockTree_meets_iff [Floating F D] (hfound : ∀ e, (e, true) ∈ found → IsReturn e) :
    Meets found (blockTree (upToReturn found)) ↔ (upToReturn found).length < 2 ^ treesSize := by
  have hmerged := merged_collect (@Exp.sequence F D) treesSize (upToReturn found)
  change Merged _ _ (blockTree (upToReturn found)) _ at hmerged
  constructor
  · rintro ⟨hmeets, -⟩
    by_contra hge
    have hmod : (upToReturn found).length % 2 ^ treesSize < 2 ^ treesSize :=
      Nat.mod_lt _ (Nat.two_pow_pos _)
    cases hresult : blockTree (upToReturn found) with
    | none =>
      rw [hresult] at hmeets
      simp only at hmeets
      simp [hmeets] at hge
    | some tree =>
      rw [hresult] at hmeets hmerged
      obtain ⟨d, -, htree⟩ := hmeets
      obtain ⟨d', -, hlast, -⟩ := hmerged
      -- the leaves of the tree would be those of all statements and those of the last ones
      have hleaves := (leaves_isTree htree).symm.trans (leaves_isTree hlast)
      have hsplit := List.take_append_drop
        ((upToReturn found).length - (upToReturn found).length % 2 ^ treesSize) (upToReturn found)
      rw [← hsplit, List.flatMap_append, hsplit] at hleaves
      have hnil := List.append_left_eq_self.mp hleaves
      have hempty := List.flatMap_eq_nil_iff.mp hnil
      cases hall : upToReturn found with
      | nil => simp [hall] at hge
      | cons e es =>
        refine Exp.leaves_ne_nil e (hempty e ?_)
        rw [hall]
        obtain ⟨k, hk⟩ : ∃ k, (e :: es).length - (e :: es).length % 2 ^ treesSize = k + 1 := by
          rw [hall] at hge hmod
          exact ⟨_, (Nat.sub_add_cancel (by omega)).symm⟩
        rw [hk]
        simp
  · intro hlt
    rw [Nat.mod_eq_of_lt hlt, Nat.sub_self, List.drop_zero] at hmerged
    have hafter {W : Type} (calls : Calls F D W) (rounds : ℕ) :=
      evaluateStatements_upToReturn calls rounds hfound
    cases hresult : blockTree (upToReturn found) with
    | none =>
      rw [hresult] at hmerged
      have hnil : upToReturn found = [] := hmerged
      refine ⟨hnil, fun W calls rounds => ?_⟩
      rw [hafter, hnil]
      exact evaluate_constant calls rounds .undefined
    | some tree =>
      rw [hresult] at hmerged
      obtain ⟨d, -, htree, hdepth⟩ := hmerged
      refine ⟨⟨d, ?_, htree⟩, fun W calls rounds => ?_⟩
      · have hpos : 0 < (upToReturn found).length :=
          List.length_pos_iff.mpr htree.leaves_ne_nil
        have hlog := @Nat.log_mono_right 2 _ _ hdepth
        rwa [Nat.log_pow (by omega), Nat.mul_comm,
          Nat.log_mul_base (by omega) (by omega)] at hlog
      · rw [hafter]
        exact evaluate_isTree calls rounds htree

/-- Whenever a block is parsed, its tree is made of all its statements up to a `return`, in
their order and with a logarithmic depth, and is evaluated like the statements, if and only
if there are fewer than 2^20 of them. -/
theorem parseBlock_meets_iff [Floating F D] {braced : Bool} {rounds : ℕ} {s t : ParserState F D}
    {result : Option (Exp F D)}
    (h : parseBlock knot source braced rounds s = some (.ok result, t)) :
    ∃ found, blockStatements knot source braced rounds s = some (.ok found, t) ∧
      (Meets found result ↔ (upToReturn found).length < 2 ^ 20) := by
  rw [parseBlock_eq, map_eq_pure_bind, bind_eq_ok] at h
  obtain ⟨found, t', hfound, hresult⟩ := h
  obtain ⟨rfl, rfl⟩ : blockTree (upToReturn found) = result ∧ t' = t := by
    simpa [pure] using hresult
  have hstop := blockStatements_stop knot source braced rounds _ _ _ hfound
  exact ⟨found, hfound, blockTree_meets_iff hstop⟩

/-- A script of `n` statements, each of which is a zero on a line of its own. -/
def zeros (D : Type) (n : ℕ) : List (Token D) := (List.replicate n [.int 0, .newline]).flatten

/-- A script without a name. -/
def unnamed : Source := ⟨none, fun _ => 0, fun _ => 0⟩

/-- The parser takes one zero after the other. -/
theorem statements_zero (knot : Knot F D) (k : ℕ) {rest : List (Token D)} {t : ParserState F D}
    (h : statements knot unnamed false (k + 8) ⟨rest, 0, 0, []⟩ = some (.ok found, t)) :
    statements knot unnamed false (k + 10) ⟨.int 0 :: .newline :: rest, 0, 0, []⟩ =
      some (.ok ((.constant (.int 0), false) :: found), t) := by
  have hstatement : parseStatement knot unnamed (k + 9) ⟨.int 0 :: .newline :: rest, 0, 0, []⟩ =
      some (.ok (some (.constant (.int 0)), false), ⟨.newline :: rest, 0, 0, []⟩) := rfl
  have hnewline : statements knot unnamed false (k + 9) ⟨.newline :: rest, 0, 0, []⟩ =
      some (.ok found, t) := by
    rw [statements]
    refine bind_eq_ok.mpr ⟨.newline, _, rfl, ?_⟩
    exact bind_eq_ok.mpr ⟨(), _, rfl, h⟩
  rw [statements]
  refine bind_eq_ok.mpr ⟨.int 0, _, rfl, ?_⟩
  refine bind_eq_ok.mpr ⟨false, _, rfl, ?_⟩
  refine bind_eq_ok.mpr ⟨_, _, hstatement, ?_⟩
  refine bind_eq_ok.mpr ⟨_, _, rfl, ?_⟩
  exact bind_eq_ok.mpr ⟨found, t, hnewline, rfl⟩

/-- The parser goes through all zeros. -/
theorem statements_zeros (knot : Knot F D) (n rounds : ℕ) (h : 2 * n + 10 ≤ rounds) :
    statements knot unnamed false rounds ⟨zeros D n, 0, 0, []⟩ =
      some (.ok (List.replicate n (.constant (.int 0), false)), ⟨[], 0, 0, []⟩) := by
  induction n generalizing rounds with
  | zero =>
    obtain _ | k := rounds
    · omega
    rfl
  | succ n ih =>
    obtain ⟨k, rfl⟩ : ∃ k, rounds = k + 10 := ⟨rounds - 10, by omega⟩
    exact statements_zero knot k (ih (k + 8) (by omega))

/-- A block of two statements has a tree of both. -/
theorem parseBlock_meets_small :
    ∃ found, blockStatements (level unnamed 4) unnamed false 14 ⟨zeros Float 2, 0, 0, []⟩ =
        some (.ok found, (⟨[], 0, 0, []⟩ : ParserState Float32 Float)) ∧
      (Meets found (some (.sequence (.constant (.int 0)) (.constant (.int 0)))) ↔
        (upToReturn found).length < 2 ^ 20) :=
  parseBlock_meets_iff (level unnamed 4) unnamed rfl

/-- A script of zeros has no tree at all when the counter has come back to its start. -/
theorem parseBlock_zeros [Floating F D] {n : ℕ} (hn : n % 2 ^ treesSize = 0) (hpos : 0 < n) :
    ∃ found, blockStatements (level unnamed 0) unnamed false (2 * n + 10) ⟨zeros D n, 0, 0, []⟩ =
        some (.ok found, (⟨[], 0, 0, []⟩ : ParserState F D)) ∧
      (upToReturn found).length = n ∧
      parseBlock (level unnamed 0) unnamed false (2 * n + 10) ⟨zeros D n, 0, 0, []⟩ =
        some (.ok none, (⟨[], 0, 0, []⟩ : ParserState F D)) ∧
      ¬Meets found none := by
  have hfound := statements_zeros (level unnamed 0 : Knot F D) n _ (Nat.le_refl _)
  have hall : upToReturn (List.replicate n ((.constant (.int 0) : Exp F D), false)) =
      List.replicate n (.constant (.int 0)) := by
    clear hfound hn hpos
    induction n with
    | zero => rfl
    | succ n ih => simp [List.replicate_succ, upToReturn, ih]
  have hmerged := merged_collect (@Exp.sequence F D) treesSize
    (List.replicate n (.constant (.int 0)))
  rw [List.length_replicate, hn, Nat.sub_zero, List.drop_of_length_le (by simp)] at hmerged
  have hnone : blockTree (List.replicate n (.constant (.int 0) : Exp F D)) = none := by
    change Merged _ _ (blockTree _) _ at hmerged
    cases hresult : blockTree (List.replicate n (.constant (.int 0) : Exp F D)) with
    | none => rfl
    | some tree =>
      rw [hresult] at hmerged
      obtain ⟨d, -, htree, -⟩ := hmerged
      exact absurd rfl htree.leaves_ne_nil
  refine ⟨_, hfound, by rw [hall, List.length_replicate], ?_, ?_⟩
  · rw [parseBlock_eq, map_eq_pure_bind]
    refine bind_eq_ok.mpr ⟨_, _, hfound, ?_⟩
    rw [hall, hnone]
    rfl
  · rintro ⟨hmeets, -⟩
    rw [hall] at hmeets
    have hzero := congrArg List.length hmeets
    rw [List.length_replicate, List.length_nil] at hzero
    omega

/-- All statements of a script of 2^20 zeros are lost. -/
theorem parseBlock_loses_all :
    ∃ found, blockStatements (level unnamed 0) unnamed false (2 * 2 ^ 20 + 10)
          ⟨zeros Float (2 ^ 20), 0, 0, []⟩ =
        some (.ok found, (⟨[], 0, 0, []⟩ : ParserState Float32 Float)) ∧
      (upToReturn found).length = 2 ^ 20 ∧
      parseBlock (level unnamed 0) unnamed false (2 * 2 ^ 20 + 10)
          ⟨zeros Float (2 ^ 20), 0, 0, []⟩ =
        some (.ok none, (⟨[], 0, 0, []⟩ : ParserState Float32 Float)) ∧
      ¬Meets found none :=
  parseBlock_zeros (Nat.mod_self _) (Nat.two_pow_pos _)

end ScriptParser

end Language

end AviSynth
