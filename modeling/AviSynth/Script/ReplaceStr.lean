import AviSynth.Script.NestedComments
import Mathlib.Data.BitVec
import Mathlib.Data.List.TakeWhile

/-!
# `ReplaceStr`

A first loop counts the occurrences of the pattern, from which the length of the result is
computed as a `size_t`; a second loop writes the result. Without case the occurrences are
those of the lower-case pattern in a lower-case copy, and what is copied is the original.
-/

namespace AviSynth

open Occurrences

/-- What `ReplaceStr` comes to. An overrun is a write behind the buffer of the result. -/
inductive ReplaceOutcome
  | returned (text : Bytes)
  | failed (message : String)
  | overrun

theorem drop_found_lt {pattern s : Bytes} {skip : ℕ} (h : strstr pattern s = some skip) :
    (s.drop (skip + pattern.length)).length < s.length ∨ pattern = [] := by
  have hlt := Tokenizer.findClosing_lt h
  cases pattern with
  | nil => exact .inr rfl
  | cons b rest =>
    left
    rw [List.length_drop, List.length_cons]
    omega

/-- The first loop. -/
def patternCount (pattern : Bytes) (hpattern : pattern ≠ []) (origPtr : Bytes) : ℕ :=
  match hfound : strstr pattern origPtr with
  | none => 0
  | some skip => patternCount pattern hpattern (origPtr.drop (skip + pattern.length)) + 1
termination_by origPtr.length
decreasing_by exact (drop_found_lt hfound).resolve_right hpattern

/-- The bytes that `strncpy` writes. -/
def strncpy (source : Bytes) (n : ℕ) : Bytes :=
  (cString source).take n ++ List.replicate (n - (cString source).length) 0

/-- More bytes behind those that are written, if the buffer has room for them. -/
def putBytes (size : ℕ) (result bytes : Bytes) : Option Bytes :=
  if result.length + bytes.length ≤ size then some (result ++ bytes) else none

/-- The second loop, from two pointers at the same distance from the starts of their strings,
with what is written so far. -/
def fillResult (size : ℕ) (pattern : Bytes) (hpattern : pattern ≠ []) (replacement : Bytes)
    (origPtr origUpperPtr result : Bytes) : Option Bytes :=
  match hfound : strstr pattern origUpperPtr with
  | none => putBytes size result (cString origPtr ++ [0])
  | some skiplen =>
    (putBytes size result (strncpy origPtr skiplen)).bind fun result =>
    (putBytes size result (strncpy replacement replacement.length)).bind fun result =>
      fillResult size pattern hpattern replacement (origPtr.drop (skiplen + pattern.length))
        (origUpperPtr.drop (skiplen + pattern.length)) result
termination_by origUpperPtr.length
decreasing_by exact (drop_found_lt hfound).resolve_right hpattern

/-- `retlen + 1`, where a `size_t` has `w` bits. -/
def resultSize (w origLen count replaceLen patternLen : ℕ) : ℕ :=
  (BitVec.ofNat w origLen + BitVec.ofNat w count *
    (BitVec.ofNat w replaceLen - BitVec.ofNat w patternLen) + 1).toNat

/-- Both loops, with the answer of the allocator between them. The first byte of the buffer
is set to zero before the second loop. -/
def replaceIn (w : ℕ) (granted : Bool) (pattern : Bytes) (hpattern : pattern ≠ [])
    (replacement original upper : Bytes) : ReplaceOutcome :=
  let size := resultSize w original.length (patternCount pattern hpattern upper)
    replacement.length pattern.length
  if granted = false then .failed "ReplaceStr: malloc failure!"
  else
    match (putBytes size [] [0]).bind fun _ =>
        fillResult size pattern hpattern replacement original upper [] with
    | none => .overrun
    | some result => .returned (cString result)

/-- `ReplaceStr`. `lower` is what `_strlwr` makes of a byte, `granted` tells whether the
allocations succeed, one after the other. -/
def replaceStr (w : ℕ) (lower : UInt8 → UInt8) (granted : ℕ → Bool)
    (original pattern replacement : Bytes) (caseInsensitive : Bool) : ReplaceOutcome :=
  if hpattern : pattern = [] then .returned original
  else if caseInsensitive then
    if granted 0 = false then .failed "ReplaceStr: malloc failure!"
    else if granted 1 = false then .failed "ReplaceStr: malloc failure!"
    else replaceIn w (granted 2) (pattern.map lower) (by simpa using hpattern) replacement original
      (original.map lower)
  else replaceIn w (granted 0) pattern hpattern replacement original original

/-! ### The loops -/

theorem cString_eq_self {s : Bytes} (hs : 0 ∉ s) : cString s = s :=
  List.takeWhile_eq_self_iff.mpr fun b hb => by
    simpa using fun h : b = 0 => hs (h ▸ hb)

theorem strstr_first {pattern s : Bytes} (hpattern : pattern ≠ []) (hzero : 0 ∉ pattern)
    (hs : 0 ∉ s) : First (OccursAt pattern s) (strstr pattern s) := by
  have hfirst := Tokenizer.findClosing_first hpattern hzero 0 s
  rwa [cString_eq_self hs] at hfirst

theorem strncpy_of_le {source : Bytes} (hsource : 0 ∉ source) {n : ℕ} (hn : n ≤ source.length) :
    strncpy source n = source.take n := by
  rw [strncpy, cString_eq_self hsource, Nat.sub_eq_zero_of_le hn, List.replicate_zero,
    List.append_nil]

theorem putBytes_bind {α : Type*} (size : ℕ) (result bytes : Bytes) (next : Bytes → Option α) :
    (putBytes size result bytes).bind next =
      if result.length + bytes.length ≤ size then next (result ++ bytes) else none := by
  rw [putBytes]
  split_ifs <;> rfl

section Loops

variable {fold : UInt8 → UInt8} {pattern : Bytes} (hpattern : pattern.map fold ≠ [])
  (hzero : 0 ∉ pattern.map fold)
include hzero

/-- The first loop counts the occurrences. -/
theorem patternCount_eq {s : Bytes} (hs : 0 ∉ s.map fold) :
    patternCount (pattern.map fold) hpattern (s.map fold) = countAll fold pattern s := by
  induction hlength : s.length using Nat.strong_induction_on generalizing s with
  | h length ih =>
    have hfirst := strstr_first hpattern hzero hs
    rw [patternCount]
    split
    · next hfound =>
      rw [hfound] at hfirst
      exact (countAll_of_none hfirst).symm
    · next skip hfound =>
      rw [hfound] at hfirst
      have hlt := (drop_found_lt hfound).resolve_right hpattern
      rw [← List.map_drop, List.length_map, List.length_map, List.length_map] at hlt
      rw [← List.map_drop, List.length_map, countAll_of_some (by simpa using hpattern) hfirst,
        ih _ (by omega) (fun h => hs (List.map_subset _ (List.drop_subset ..) h)) rfl]

/-- The second loop writes the result and its terminating zero if there is room for them. -/
theorem fillResult_eq (size : ℕ) {replacement s : Bytes} (hreplacement : 0 ∉ replacement)
    (horiginal : 0 ∉ s) (hs : 0 ∉ s.map fold) (result : Bytes) :
    fillResult size (pattern.map fold) hpattern replacement s (s.map fold) result =
      putBytes size result (replaceAll fold pattern replacement s ++ [0]) := by
  induction hlength : s.length using Nat.strong_induction_on generalizing s result with
  | h length ih =>
    have hfirst := strstr_first hpattern hzero hs
    rw [fillResult]
    split
    · next hfound =>
      rw [hfound] at hfirst
      rw [replaceAll_of_none _ hfirst, cString_eq_self horiginal]
    · next skip hfound =>
      rw [hfound] at hfirst
      have hlt := (drop_found_lt hfound).resolve_right hpattern
      have hskip := hfirst.1.add_length_le hpattern
      rw [← List.map_drop, List.length_map, List.length_map, List.length_map] at hlt
      rw [List.length_map, List.length_map] at hskip
      rw [replaceAll_of_some (by simpa using hpattern) _ hfirst,
        strncpy_of_le horiginal (by omega), strncpy_of_le hreplacement le_rfl, List.take_length,
        putBytes_bind, putBytes_bind, ← List.map_drop, List.length_map,
        ih _ (by omega) (fun h => horiginal (List.drop_subset _ _ h))
          (fun h => hs (List.map_subset _ (List.drop_subset ..) h)) _ rfl]
      simp only [putBytes, List.length_append, List.append_assoc]
      split_ifs <;> first | rfl | omega

end Loops

/-- The computed length is right up to full turns of a `size_t`. -/
theorem resultSize_eq {w origLen count replaceLen patternLen length : ℕ}
    (hlength : length + count * patternLen = origLen + count * replaceLen) :
    resultSize w origLen count replaceLen patternLen = (length + 1) % 2 ^ w := by
  have hwords := congrArg (BitVec.ofNat w) hlength
  rw [BitVec.ofNat_add, BitVec.ofNat_add, BitVec.ofNat_mul, BitVec.ofNat_mul] at hwords
  have hsum : BitVec.ofNat w origLen + BitVec.ofNat w count *
      (BitVec.ofNat w replaceLen - BitVec.ofNat w patternLen) + 1 =
        BitVec.ofNat w (length + 1) := by
    rw [BitVec.ofNat_add, mul_sub, ← add_sub_assoc, ← hwords, add_sub_cancel_right]
    rfl
  rw [resultSize, hsum, BitVec.toNat_ofNat]

theorem cString_append_zero {s : Bytes} (hs : 0 ∉ s) : cString (s ++ [0]) = s := by
  rw [cString, List.takeWhile_append_of_pos]
  · exact List.append_nil s
  · exact fun b hb => by simpa using fun h : b = 0 => hs (h ▸ hb)

/-- What the two loops come to. -/
theorem replaceIn_eq (w : ℕ) (granted : Bool) {fold : UInt8 → UInt8} {pattern : Bytes}
    (hpattern : pattern.map fold ≠ []) (hzero : 0 ∉ pattern.map fold) {replacement s : Bytes}
    (hreplacement : 0 ∉ replacement) (horiginal : 0 ∉ s) (hs : 0 ∉ s.map fold) :
    replaceIn w granted (pattern.map fold) hpattern replacement s (s.map fold) =
      if granted = false then .failed "ReplaceStr: malloc failure!"
      else if (replaceAll fold pattern replacement s).length + 1 < 2 ^ w then
        .returned (replaceAll fold pattern replacement s)
      else .overrun := by
  have hsize : resultSize w s.length (countAll fold pattern s) replacement.length
      (pattern.map fold).length = ((replaceAll fold pattern replacement s).length + 1) % 2 ^ w := by
    rw [List.length_map]
    exact resultSize_eq (length_replaceAll (by simpa using hpattern) replacement s)
  have htext : 0 ∉ replaceAll fold pattern replacement s := fun h =>
    (mem_replaceAll (by simpa using hpattern) h).elim horiginal hreplacement
  rw [replaceIn, patternCount_eq hpattern hzero hs, hsize, putBytes_bind,
    fillResult_eq hpattern hzero _ hreplacement horiginal hs, putBytes]
  cases granted with
  | false => rfl
  | true =>
    by_cases hfits : (replaceAll fold pattern replacement s).length + 1 < 2 ^ w
    · simp [Nat.mod_eq_of_lt hfits, hfits, cString_append_zero htext]
    · have hlt := Nat.mod_lt ((replaceAll fold pattern replacement s).length + 1)
        (Nat.two_pow_pos w)
      have hroom : ¬(replaceAll fold pattern replacement s).length + 1 ≤
          ((replaceAll fold pattern replacement s).length + 1) % 2 ^ w := by omega
      simp [hfits, hroom]

/-! ### `ReplaceStr` -/

/-- The text is returned, unless an allocation fails, and nothing is written elsewhere. -/
def ReplaceOutcome.Replaces (granted : ℕ → Bool) (text : Bytes) : ReplaceOutcome → Prop
  | .returned result => result = text
  | .failed _ => ∃ i, granted i = false
  | .overrun => False

/-- What is compared of a byte. -/
def folding (lower : UInt8 → UInt8) (caseInsensitive : Bool) : UInt8 → UInt8 :=
  if caseInsensitive then lower else id

/-- The allocations that are made succeed. -/
def allGranted (granted : ℕ → Bool) (caseInsensitive : Bool) : Bool :=
  if caseInsensitive then granted 0 && granted 1 && granted 2 else granted 0

section

variable (w : ℕ) {lower : UInt8 → UInt8} (hlower : ∀ b, b ≠ 0 → lower b ≠ 0)
  {original pattern replacement : Bytes} (horiginal : 0 ∉ original) (hzero : 0 ∉ pattern)
  (hreplacement : 0 ∉ replacement) (hpattern : pattern ≠ []) (caseInsensitive : Bool)
include hlower horiginal hzero hreplacement hpattern

/-- Both forms come to the same loops. -/
theorem replaceStr_eq (granted : ℕ → Bool) :
    let text := replaceAll (folding lower caseInsensitive) pattern replacement original
    replaceStr w lower granted original pattern replacement caseInsensitive =
      if allGranted granted caseInsensitive = false then .failed "ReplaceStr: malloc failure!"
      else if text.length + 1 < 2 ^ w then .returned text else .overrun := by
  intro text
  rw [replaceStr, dif_neg hpattern]
  cases caseInsensitive with
  | false =>
    have hloops := replaceIn_eq w (granted 0) (by simpa using hpattern) (by simpa using hzero)
      hreplacement horiginal (by simpa using horiginal : 0 ∉ original.map id)
    simp only [List.map_id] at hloops
    rw [if_neg (by decide), hloops]
    rfl
  | true =>
    have hfold : ∀ t : Bytes, 0 ∉ t → 0 ∉ t.map lower := by
      intro t ht hmem
      obtain ⟨b, hb, hb0⟩ := List.mem_map.mp hmem
      exact hlower b (fun h => ht (h ▸ hb)) hb0
    have hloops := replaceIn_eq w (granted 2) (by simpa using hpattern) (hfold _ hzero)
      hreplacement horiginal (hfold _ horiginal)
    rw [if_pos rfl, hloops, allGranted, if_pos rfl]
    cases granted 0 with
    | false => rfl
    | true => cases granted 1 <;> rfl

/-- Whatever the strings and the answers of the allocator, `ReplaceStr` returns the original
with its leftmost occurrences replaced, and writes nowhere but into its buffer, just if the
length of that text with its terminating zero is a `size_t`. -/
theorem replaceStr_replaces_iff :
    (∀ granted, (replaceStr w lower granted original pattern replacement caseInsensitive).Replaces
        granted (replaceAll (folding lower caseInsensitive) pattern replacement original)) ↔
      original.length + countAll (folding lower caseInsensitive) pattern original *
          replacement.length + 1 <
        2 ^ w + countAll (folding lower caseInsensitive) pattern original * pattern.length := by
  have hlength : (replaceAll (folding lower caseInsensitive) pattern replacement original).length +
        countAll (folding lower caseInsensitive) pattern original * pattern.length =
      original.length +
        countAll (folding lower caseInsensitive) pattern original * replacement.length :=
    length_replaceAll hpattern replacement original
  have heq := replaceStr_eq w hlower horiginal hzero hreplacement hpattern caseInsensitive
  constructor
  · intro h
    have hall := h fun _ => true
    have hgranted : allGranted (fun _ => true) caseInsensitive = true := by
      cases caseInsensitive <;> rfl
    rw [heq, hgranted, if_neg (by decide)] at hall
    split_ifs at hall with hfits
    · omega
    · exact hall.elim
  · intro hfits granted
    have hshort : (replaceAll (folding lower caseInsensitive) pattern replacement
        original).length + 1 < 2 ^ w := by omega
    rw [heq, if_pos hshort]
    split_ifs with hdenied
    · cases caseInsensitive with
      | false => exact ⟨0, hdenied⟩
      | true =>
        simp only [allGranted, if_true, Bool.and_eq_false_iff] at hdenied
        obtain (h0 | h1) | h2 := hdenied
        · exact ⟨0, h0⟩
        · exact ⟨1, h1⟩
        · exact ⟨2, h2⟩
    · rfl

end

/-- The lower-case letter of an ASCII letter. -/
def tolower (b : UInt8) : UInt8 := if 65 ≤ b ∧ b ≤ 90 then b + 32 else b

theorem tolower_ne_zero (b : UInt8) (hb : b ≠ 0) : tolower b ≠ 0 := by
  rw [tolower]
  split_ifs with hletter
  · obtain ⟨hlow, hhigh⟩ := hletter
    rw [UInt8.le_iff_toNat_le] at hlow hhigh
    intro h
    have hsum := congrArg UInt8.toNat h
    rw [UInt8.toNat_add] at hsum
    simp only [UInt8.reduceToNat] at hlow hhigh hsum
    omega
  · exact hb

/-- `ReplaceStr("aXbx", "x", "yy", true)` is `"ayybyy"`. -/
theorem replaceStr_replaces_ayybyy :
    (replaceStr 64 tolower (fun _ => true) [97, 88, 98, 120] [120] [121, 121] true).Replaces
      (fun _ => true) [97, 121, 121, 98, 121, 121] := by
  have horiginal : (0 : UInt8) ∉ ([97, 88, 98, 120] : Bytes) := by decide
  have hpattern : (0 : UInt8) ∉ ([120] : Bytes) := by decide
  have hreplacement : (0 : UInt8) ∉ ([121, 121] : Bytes) := by decide
  have hiff := replaceStr_replaces_iff 64 tolower_ne_zero horiginal hpattern hreplacement
    (by decide) true
  have hall := hiff.mpr (by simp [countAll, splitAll, OccursAt, folding, tolower])
  simpa [replaceAll, splitAll, OccursAt, folding, tolower] using hall fun _ => true

theorem countAll_replicate (a : UInt8) (n : ℕ) : countAll id [a] (List.replicate n a) = n := by
  have hlength : (splitAll id [a] (List.replicate n a)).length = n + 1 := by
    induction n with
    | zero => simp [splitAll]
    | succ n ih =>
      rw [List.replicate_succ, splitAll, if_pos (by simp [OccursAt]), List.length_cons]
      exact congrArg (· + 1) ih
  rw [countAll, hlength, Nat.add_sub_cancel]

/-- As many replacements as they are long, where a `size_t` has twice the bits. -/
theorem replaceStr_square (k : ℕ) :
    replaceStr (2 * k) id (fun _ => true) (List.replicate (2 ^ k) 97) [97]
      (List.replicate (2 ^ k) 98) false = .overrun := by
  let original : Bytes := List.replicate (2 ^ k) 97
  let replacement : Bytes := List.replicate (2 ^ k) 98
  have hlength : (replaceAll id [97] replacement original).length +
      countAll id [97] original * ([97] : Bytes).length =
        original.length + countAll id [97] original * replacement.length :=
    length_replaceAll (List.cons_ne_nil _ _) _ _
  rw [countAll_replicate, List.length_replicate, List.length_replicate, List.length_singleton,
    ← pow_add, ← two_mul] at hlength
  have hid : ∀ b : UInt8, b ≠ 0 → id b ≠ 0 := fun _ h => h
  have horiginal : 0 ∉ original := by simp [original, List.mem_replicate]
  have hreplacement : 0 ∉ replacement := by simp [replacement, List.mem_replicate]
  have heq := replaceStr_eq (2 * k) hid horiginal (by decide : (0 : UInt8) ∉ ([97] : Bytes))
    hreplacement (by decide) false fun _ => true
  have hlong : ¬(replaceAll id [97] replacement original).length + 1 < 2 ^ (2 * k) := by omega
  rw [heq, if_neg (by decide)]
  exact if_neg hlong

/-- In a process of 32 bits the result of 65536 replacements of 65536 bytes overruns its
buffer of one byte. -/
theorem replaceStr_overruns :
    replaceStr 32 id (fun _ => true) (List.replicate 65536 97) [97] (List.replicate 65536 98)
      false = .overrun := replaceStr_square 16

end AviSynth
