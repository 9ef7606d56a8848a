import AviSynth.Library.Occurrences
import AviSynth.Script.Tokenizer
import Mathlib.Order.Bounds.Basic

/-!
# Nestable comments

Behind an opening mark the tokenizer looks for the next closing mark and for the next
opening mark, and goes on to the next ones of both kinds while the opening mark comes
first. The marks of the two kinds are looked for separately, so that the asterisk of
`[*]` belongs to a mark of either kind. Read from left to right it belongs to the
opening mark alone.
-/

namespace AviSynth

open Occurrences

def asterisk : UInt8 := 0x2A

def openBracket : UInt8 := 0x5B

def closeBracket : UInt8 := 0x5D

def openingMark : Bytes := [openBracket, asterisk]

def closingMark : Bytes := [asterisk, closeBracket]

/-- The bytes before the terminating zero. -/
def cString (s : Bytes) : Bytes := s.takeWhile (· != 0)

/-- `strstr`: the distance to the first occurrence. -/
def strstr (needle s : Bytes) : Option ℕ := Tokenizer.findClosing needle false 0 s

theorem cString_cons {b : UInt8} (hb : b ≠ 0) (rest : Bytes) :
    cString (b :: rest) = b :: cString rest := by
  simp [cString, hb]

theorem cString_drop {s : Bytes} {n : ℕ} (hn : n ≤ (cString s).length) :
    cString (s.drop n) = (cString s).drop n := by
  induction n generalizing s with
  | zero => rfl
  | succ n ih =>
    cases s with
    | nil => simp [cString]
    | cons b rest =>
      by_cases hb : b = 0
      · simp [cString, hb] at hn
      · rw [cString_cons hb, List.length_cons] at hn
        rw [cString_cons hb, List.drop_succ_cons, List.drop_succ_cons]
        exact ih (by omega)

/-- A needle without a zero occurs before the terminating zero. -/
theorem prefix_cString {needle : Bytes} (hneedle : 0 ∉ needle) (s : Bytes) :
    needle <+: cString s ↔ needle <+: s := by
  constructor
  · exact fun h => h.trans (List.takeWhile_prefix _)
  · intro h
    induction needle generalizing s with
    | nil => exact List.nil_prefix
    | cons a needle ih =>
      obtain ⟨rest, rfl⟩ := h
      simp only [List.mem_cons, not_or] at hneedle
      rw [List.cons_append, cString_cons (Ne.symm hneedle.1), List.cons_prefix_cons]
      exact ⟨rfl, ih hneedle.2 _ (List.prefix_append ..)⟩

/-- A search without escapes finds the first occurrence. -/
theorem Tokenizer.findClosing_first {needle : Bytes} (hempty : needle ≠ []) (hneedle : 0 ∉ needle)
    (previous : UInt8) (s : Bytes) :
    First (OccursAt needle (cString s)) (findClosing needle false previous s) := by
  induction s generalizing previous with
  | nil => exact fun i h => hempty (by simpa [OccursAt, cString] using h)
  | cons b rest ih =>
    rw [findClosing]
    by_cases hb : b = 0
    · rw [if_pos hb]
      exact fun i h => hempty (by simpa [OccursAt, cString, hb] using h)
    · have hhead : needle.isPrefixOf (b :: rest) = true ↔
          OccursAt needle (cString (b :: rest)) 0 := by
        rw [List.isPrefixOf_iff_prefix, OccursAt, List.drop_zero, prefix_cString hneedle]
      have hih := ih b
      rw [if_neg hb]
      by_cases hstarts : needle.isPrefixOf (b :: rest) = true
      · rw [if_pos (by simp [hstarts])]
        exact ⟨hhead.mp hstarts, fun i hi => by omega⟩
      · rw [if_neg (by simp [hstarts])]
        rw [hhead] at hstarts
        rw [cString_cons hb] at hstarts ⊢
        cases hfound : findClosing needle false b rest with
        | none =>
          rw [hfound] at hih
          intro i
          cases i with
          | zero => exact hstarts
          | succ i => exact hih i
        | some n =>
          rw [hfound] at hih
          refine ⟨hih.1, fun i hi => ?_⟩
          cases i with
          | zero => exact hstarts
          | succ i => exact hih.2 i (Nat.lt_of_succ_lt_succ hi)

/-- The next mark at or behind a place. -/
def nextMark (mark s : Bytes) (i : ℕ) : Option ℕ := (strstr mark (s.drop i)).map (i + ·)

/-- From a place inside the text the first mark is found. -/
theorem nextMark_first {mark s : Bytes} (hempty : mark ≠ []) (hmark : 0 ∉ mark) {n : ℕ}
    (hn : n ≤ (cString s).length) :
    First (fun i => n ≤ i ∧ OccursAt mark (cString s) i) (nextMark mark s n) := by
  have hfirst := Tokenizer.findClosing_first hempty hmark 0 (s.drop n)
  rw [cString_drop hn] at hfirst
  unfold nextMark strstr
  cases hfound : Tokenizer.findClosing mark false 0 (s.drop n) with
  | none =>
    rw [hfound] at hfirst
    rintro i ⟨hi, hoccurs⟩
    obtain ⟨k, rfl⟩ := Nat.exists_eq_add_of_le hi
    exact hfirst k ((occursAt_drop ..).mpr hoccurs)
  | some m =>
    rw [hfound] at hfirst
    refine ⟨⟨Nat.le_add_right n m, (occursAt_drop ..).mp hfirst.1⟩, ?_⟩
    rintro i hi ⟨hni, hoccurs⟩
    obtain ⟨k, rfl⟩ := Nat.exists_eq_add_of_le hni
    exact hfirst.2 k (by simpa using hi) ((occursAt_drop ..).mpr hoccurs)

theorem nextMark_lt {mark s : Bytes} {i n : ℕ} (h : nextMark mark s i = some n) :
    i ≤ n ∧ n < s.length := by
  obtain ⟨m, hm, rfl⟩ := Option.map_eq_some_iff.mp h
  have hlt := Tokenizer.findClosing_lt hm
  rw [List.length_drop] at hlt
  omega

/-- The loop of a nestable comment: `end_` is the closing mark that is at hand, and `nest` the
opening mark. -/
def closeNested (s : Bytes) (end_ nest : Option ℕ) : Option ℕ :=
  match end_, nest with
  | some e, some n =>
    if n + 1 < e then
      closeNested s (nextMark closingMark s (e + 2)) (nextMark openingMark s (n + 2))
    else some e
  | end_, _ => end_
termination_by nest.elim 0 fun n => s.length - n + 1
decreasing_by
  cases hnext : nextMark openingMark s (n + 2) with
  | none => simp
  | some m =>
    obtain ⟨hle, hlt⟩ := nextMark_lt hnext
    simp only [Option.elim_some]
    omega

/-- The place of the mark that closes a comment, in the text behind its opening mark. -/
def nestedEnd (s : Bytes) : Option ℕ :=
  closeNested s (nextMark closingMark s 0) (nextMark openingMark s 0)

/-- What `NextToken` does at the opening mark of a nestable comment: the number of bytes that it
skips. -/
def skipNestableComment (pc : Bytes) : Except String ℕ :=
  match nestedEnd (pc.drop 2) with
  | none => throw "Parse error: nestable block comment missing closing *]"
  | some e => return e + 4

/-- An opening mark of the text. -/
def OpensAt (s : Bytes) : ℕ → Prop := OccursAt openingMark (cString s)

/-- A closing mark of the text, also where its asterisk belongs to an opening mark. -/
def ClosesAt (s : Bytes) : ℕ → Prop := OccursAt closingMark (cString s)

instance (s : Bytes) : DecidablePred (OpensAt s) :=
  inferInstanceAs (DecidablePred (OccursAt openingMark (cString s)))

instance (s : Bytes) : DecidablePred (ClosesAt s) :=
  inferInstanceAs (DecidablePred (OccursAt closingMark (cString s)))

section Marks

variable {s : Bytes} {i : ℕ}

theorem OpensAt.not_closesAt (h : OpensAt s i) : ¬ClosesAt s i := by
  intro hclose
  have heq := (occursAt_pair.mp h).1.symm.trans (occursAt_pair.mp hclose).1
  exact absurd heq (by decide)

theorem OpensAt.not_opensAt_succ (h : OpensAt s i) : ¬OpensAt s (i + 1) := by
  intro hopen
  have heq := (occursAt_pair.mp h).2.symm.trans (occursAt_pair.mp hopen).1
  exact absurd heq (by decide)

theorem ClosesAt.not_closesAt_succ (h : ClosesAt s i) : ¬ClosesAt s (i + 1) := by
  intro hclose
  have heq := (occursAt_pair.mp h).2.symm.trans (occursAt_pair.mp hclose).1
  exact absurd heq (by decide)

/-- At this mark the closing marks outnumber the opening marks that lie before it. -/
def Overtakes (s : Bytes) (i : ℕ) : Prop :=
  ClosesAt s i ∧ Nat.count (OpensAt s) (i - 1) ≤ Nat.count (ClosesAt s) i

/-- The first closing mark behind `b` is the one that the loop looks for, if no more opening
marks than closing marks lie before it. -/
theorem first_overtakes {b e : ℕ} (hpast : ∀ i < b, ¬Overtakes s i)
    (he : First (fun i => b ≤ i ∧ ClosesAt s i) (some e))
    (hopens : Nat.count (OpensAt s) (e - 1) ≤ Nat.count (ClosesAt s) b) :
    First (Overtakes s) (some e) := by
  obtain ⟨⟨hbe, hclose⟩, hnone⟩ := he
  have hcount : Nat.count (ClosesAt s) e = Nat.count (ClosesAt s) b :=
    count_eq_of_none hbe fun i hi hie hat => hnone i hie ⟨hi, hat⟩
  refine ⟨⟨hclose, by omega⟩, fun i hi hover => ?_⟩
  by_cases hib : i < b
  · exact hpast i hib hover
  · exact hnone i hi ⟨by omega, hover.1⟩

/-- From places before which there are as many marks of either kind, the loop finds the first
closing mark that overtakes the opening marks. -/
theorem closeNested_first {a b : ℕ} (ha : a ≤ (cString s).length) (hb : b ≤ (cString s).length)
    (heq : Nat.count (OpensAt s) a = Nat.count (ClosesAt s) b)
    (hpast : ∀ i < b, ¬Overtakes s i) :
    First (Overtakes s) (closeNested s (nextMark closingMark s b) (nextMark openingMark s a)) := by
  have hends : First (fun i => b ≤ i ∧ ClosesAt s i) (nextMark closingMark s b) :=
    nextMark_first (by decide) (by decide) hb
  have hnests : First (fun i => a ≤ i ∧ OpensAt s i) (nextMark openingMark s a) :=
    nextMark_first (by decide) (by decide) ha
  induction hleft : (cString s).length - a using Nat.strong_induction_on generalizing a b with
  | _ left ih =>
  cases he : nextMark closingMark s b with
  | none =>
    rw [he] at hends
    rw [closeNested.eq_2 _ _ _ (by simp)]
    intro i hover
    by_cases hib : i < b
    · exact hpast i hib hover
    · exact hends i ⟨by omega, hover.1⟩
  | some e =>
    rw [he] at hends
    cases hn : nextMark openingMark s a with
    | none =>
      rw [hn] at hnests
      rw [closeNested.eq_2 _ _ _ (by simp)]
      refine first_overtakes hpast hends ?_
      have hmax : Nat.count (OpensAt s) (max a (e - 1)) = Nat.count (OpensAt s) a :=
        count_eq_of_none (Nat.le_max_left ..) fun i hi _ hat => hnests i ⟨hi, hat⟩
      have hle := Nat.count_monotone (OpensAt s) (Nat.le_max_right a (e - 1))
      omega
    | some n =>
      rw [hn] at hnests
      obtain ⟨⟨han, hopen⟩, hbetween⟩ := hnests
      have hcount : Nat.count (OpensAt s) n = Nat.count (OpensAt s) a :=
        count_eq_of_none han fun i hi hin hat => hbetween i hin ⟨hi, hat⟩
      rw [closeNested.eq_1]
      split_ifs with hlt
      · obtain ⟨⟨hbe, hclose⟩, hnone⟩ := hends
        have hcloses : Nat.count (ClosesAt s) e = Nat.count (ClosesAt s) b :=
          count_eq_of_none hbe fun i hi hie hat => hnone i hie ⟨hi, hat⟩
        have hopens : Nat.count (OpensAt s) (n + 2) = Nat.count (OpensAt s) a + 1 := by
          rw [Nat.count_succ, Nat.count_succ, if_pos hopen, if_neg hopen.not_opensAt_succ, hcount]
        have hcloses' : Nat.count (ClosesAt s) (e + 2) = Nat.count (ClosesAt s) b + 1 := by
          rw [Nat.count_succ, Nat.count_succ, if_pos hclose, if_neg hclose.not_closesAt_succ,
            hcloses]
        have hlength := OccursAt.lt_length hopen
        have hlength' := OccursAt.lt_length hclose
        have hpast' : ∀ i < e + 2, ¬Overtakes s i := by
          intro i hi hover
          obtain hib | hib | hie | hie : i < b ∨ (b ≤ i ∧ i < e) ∨ i = e ∨ i = e + 1 := by omega
          · exact hpast i hib hover
          · exact hnone i hib.2 ⟨hib.1, hover.1⟩
          · have hmono := Nat.count_monotone (OpensAt s) (show n + 1 ≤ e - 1 by omega)
            have hat := hover.2
            rw [Nat.count_succ, if_pos hopen] at hmono
            subst hie
            omega
          · exact hclose.not_closesAt_succ (hie ▸ hover.1)
        exact ih _ (by omega) (by omega) (by omega) (by omega) hpast'
          (nextMark_first (by decide) (by decide) (by omega))
          (nextMark_first (by decide) (by decide) (by omega)) rfl
      · refine first_overtakes hpast hends ?_
        have hmono := Nat.count_monotone (OpensAt s) (show e - 1 ≤ n by omega)
        omega

/-- A nestable comment is closed by the first closing mark that overtakes the opening marks. -/
theorem nestedEnd_first (s : Bytes) : First (Overtakes s) (nestedEnd s) :=
  closeNested_first (Nat.zero_le _) (Nat.zero_le _) (by simp) (by simp)

end Marks

end AviSynth
