/-
# Decimal numbers

`parse_uint` of `nghttp2_http.c` reads a content-length, and `parse_uint` of `util.cc` reads the
same text once more in nghttpx.  The results of the `int64_t` arithmetic are checked, so that an
overflow would be seen.

* `pushDigit_eq`: one digit, in both loops;
* `parseUint_eq`: both functions read the decimal value if it is below `2 ^ 63`.
-/
import Mathlib

namespace Nghttp2.Decimal

/-- `INT64_MAX`. -/
def int64Max : ℤ := 2 ^ 63 - 1

/-- A result of type `int64_t`; none if it overflows. -/
def int64 (n : ℤ) : Option ℤ := if -2 ^ 63 ≤ n ∧ n ≤ int64Max then some n else none

/-- `'0' <= c && c <= '9'`. -/
def isDigit (c : UInt8) : Bool := 48 ≤ c && c ≤ 57

/-- `c - '0'`. -/
def digit (c : UInt8) : ℤ := c.toNat - 48

/-- The part that the two loops have in common: the number with one more digit, or `some none`
if it would be too large. -/
def pushDigit (n : ℤ) (c : UInt8) : Option (Option ℤ) :=
  if n > int64Max / 10 then some none
  else
    (int64 (n * 10)).bind fun n =>
      if n > int64Max - digit c then some none else (int64 (n + digit c)).map some

/-- The loop of `parse_uint` in `nghttp2_http.c`. -/
def parseUintLoop (n : ℤ) : List UInt8 → Option ℤ
  | [] => some n
  | c :: s =>
    if isDigit c then
      (pushDigit n c).bind fun
        | none => some (-1)
        | some n => parseUintLoop n s
    else some (-1)

/-- `parse_uint` of `nghttp2_http.c`. -/
def parseUint (s : List UInt8) : Option ℤ := if s = [] then some (-1) else parseUintLoop 0 s

/-- The loop of `parse_uint_digits` in `util.cc`, with the number of digits that were read. -/
def parseUintDigitsLoop (n : ℤ) (i : ℕ) : List UInt8 → Option (ℤ × ℕ)
  | [] => some (n, i)
  | c :: s =>
    if isDigit c then
      (pushDigit n c).bind fun
        | none => some (-1, 0)
        | some n => parseUintDigitsLoop n (i + 1) s
    else some (n, i)

/-- `parse_uint_digits` of `util.cc`. -/
def parseUintDigits (s : List UInt8) : Option (ℤ × ℕ) :=
  if s = [] then some (-1, 0)
  else (parseUintDigitsLoop 0 0 s).map fun (n, i) => if i = 0 then (-1, 0) else (n, i)

/-- `util::parse_uint`. -/
def utilParseUint (s : List UInt8) : Option ℤ :=
  (parseUintDigits s).map fun (n, i) => if n = -1 ∨ i ≠ s.length then -1 else n

/-! ## The value -/

/-- The number `n` with the digits `s` behind it. -/
def value (n : ℤ) (s : List UInt8) : ℤ := s.foldl (fun n c => n * 10 + digit c) n

/-- The decimal value of a text of digits that is not too large, or -1. -/
def decimal (s : List UInt8) : ℤ :=
  if s ≠ [] ∧ (∀ c ∈ s, isDigit c) ∧ value 0 s ≤ int64Max then value 0 s else -1

variable {n : ℤ} {c : UInt8} {s : List UInt8}

theorem digit_bounds (hc : isDigit c) : 0 ≤ digit c ∧ digit c ≤ 9 := by
  simp only [isDigit, Bool.and_eq_true, decide_eq_true_eq, UInt8.le_iff_toNat_le,
    UInt8.reduceToNat] at hc
  unfold digit
  omega

theorem pushDigit_eq (hn : 0 ≤ n) (hc : isDigit c) :
    pushDigit n c =
      some (if n * 10 + digit c ≤ int64Max then some (n * 10 + digit c) else none) := by
  obtain ⟨hlow, hhigh⟩ := digit_bounds hc
  have hmax : int64Max = 9223372036854775807 := rfl
  unfold pushDigit
  by_cases hten : n > int64Max / 10
  · rw [if_pos hten, if_neg (by omega)]
  · have hmul : int64 (n * 10) = some (n * 10) := if_pos (by omega)
    rw [if_neg hten, hmul, Option.bind_some]
    by_cases hadd : n * 10 + digit c ≤ int64Max
    · have hsum : int64 (n * 10 + digit c) = some (n * 10 + digit c) := if_pos (by omega)
      rw [if_neg (by omega), if_pos hadd, hsum, Option.map_some]
    · rw [if_pos (by omega), if_neg hadd]

/-- More digits do not make a number smaller. -/
theorem le_value (hn : 0 ≤ n) (hs : ∀ c ∈ s, isDigit c) : n ≤ value n s := by
  induction s generalizing n with
  | nil => exact le_rfl
  | cons c s ih =>
    obtain ⟨hc, hs⟩ := List.forall_mem_cons.1 hs
    have hlow := (digit_bounds hc).1
    have hle : n * 10 + digit c ≤ value n (c :: s) := ih (by omega) hs
    omega

theorem parseUintLoop_eq (hn : 0 ≤ n) (hmax : n ≤ int64Max) :
    parseUintLoop n s =
      some (if (∀ c ∈ s, isDigit c) ∧ value n s ≤ int64Max then value n s else -1) := by
  induction s generalizing n with
  | nil => simp [parseUintLoop, value, hmax]
  | cons c s ih =>
    unfold parseUintLoop
    by_cases hc : isDigit c
    · have hlow := (digit_bounds hc).1
      rw [if_pos hc, pushDigit_eq hn hc, Option.bind_some]
      by_cases hle : n * 10 + digit c ≤ int64Max
      · simp only [hle, List.forall_mem_cons, hc, true_and]
        exact ih (by omega) hle
      · -- the digits that follow do not make it smaller
        rw [if_neg hle, if_neg fun h => hle ?_]
        exact (le_value (by omega) (List.forall_mem_cons.1 h.1).2).trans h.2
    · rw [if_neg hc, if_neg fun h => hc (h.1 c List.mem_cons_self)]

/-- The two loops agree. -/
theorem parseUintDigitsLoop_eq {i : ℕ} (hn : 0 ≤ n) :
    (parseUintDigitsLoop n i s).map (fun (m, j) => if m = -1 ∨ j ≠ i + s.length then -1 else m) =
      parseUintLoop n s := by
  induction s generalizing n i with
  | nil => simp [parseUintDigitsLoop, parseUintLoop, show n ≠ -1 by omega]
  | cons c s ih =>
    unfold parseUintDigitsLoop parseUintLoop
    by_cases hc : isDigit c
    · have hlow := (digit_bounds hc).1
      rw [if_pos hc, if_pos hc, pushDigit_eq hn hc, Option.bind_some, Option.bind_some]
      by_cases hle : n * 10 + digit c ≤ int64Max
      · rw [if_pos hle, List.length_cons, Nat.add_comm s.length, ← Nat.add_assoc]
        exact ih (by omega)
      · rw [if_neg hle]
        rfl
    · rw [if_neg hc, if_neg hc]
      simp

/-- **Both parsers** read the decimal value of a text of digits if it is below `2 ^ 63`, and
return -1 for any other text, without an overflow. -/
theorem parseUint_eq (s : List UInt8) :
    parseUint s = some (decimal s) ∧ utilParseUint s = some (decimal s) := by
  rcases eq_or_ne s [] with rfl | hs
  · exact ⟨rfl, rfl⟩
  have hlib : parseUint s = some (decimal s) := by
    rw [parseUint, if_neg hs, parseUintLoop_eq le_rfl (by decide)]
    simp only [decimal, ne_eq, hs, not_false_eq_true, true_and]
  have hutil : utilParseUint s = parseUint s := by
    rw [parseUint, if_neg hs, ← parseUintDigitsLoop_eq (i := 0) le_rfl, utilParseUint,
      parseUintDigits, if_neg hs, Option.map_map, Nat.zero_add]
    refine Option.map_congr fun (m, j) _ => ?_
    -- no digit at all is less than the whole text
    have hlen : 0 ≠ s.length := fun h => hs (List.length_eq_zero_iff.1 h.symm)
    rcases eq_or_ne j 0 with rfl | hj
    · simp [hlen]
    · simp [hj]
  exact ⟨hlib, hutil.trans hlib⟩

end Nghttp2.Decimal
