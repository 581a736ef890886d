/-
# Prefix codes

A code gives every symbol a string, and no code is the beginning of another one.  Then a
concatenation of codes can be taken apart in only one way.

* `PrefixFree`: no code is the beginning of another one;
* `encode_append_eq`: two concatenations of codes with something behind them;
* `eq_append_of_partial`: the same where nothing but a beginning of a code is left behind one.
-/
import Mathlib.Tactic

namespace PrefixCode

variable {α β : Type*} {code : α → List β}

/-- No code is the beginning of another one. -/
def PrefixFree (code : α → List β) : Prop := ∀ a b, code a <+: code b → a = b

/-- The concatenation of the codes. -/
def encode (code : α → List β) (s : List α) : List β := s.flatMap code

@[simp] theorem encode_nil : encode code [] = [] := rfl

@[simp] theorem encode_cons (a : α) (s : List α) : encode code (a :: s) = code a ++ encode code s :=
  rfl

@[simp] theorem encode_append (s t : List α) :
    encode code (s ++ t) = encode code s ++ encode code t := by
  simp [encode]

variable {x y : List β} {a : α}

/-- The first symbol is determined. -/
theorem PrefixFree.eq_of_append (h : PrefixFree code) {b : α}
    (heq : code a ++ x = code b ++ y) : a = b ∧ x = y := by
  have hab : a = b := by
    have ha : code a <+: code b ++ y := ⟨x, heq⟩
    rcases List.prefix_or_prefix_of_prefix ha (List.prefix_append (code b) y) with hpre | hpre
    · exact h a b hpre
    · exact (h b a hpre).symm
  subst hab
  exact ⟨rfl, List.append_cancel_left heq⟩

/-- **Concatenations of codes are taken apart in the same way.** -/
theorem PrefixFree.encode_append_eq (h : PrefixFree code) :
    ∀ {s t : List α} {x y : List β}, encode code s ++ x = encode code t ++ y →
      (∃ u, t = s ++ u ∧ x = encode code u ++ y) ∨ ∃ u, s = t ++ u ∧ encode code u ++ x = y
  | [], t, _, _, heq => Or.inl ⟨t, rfl, heq⟩
  | a :: s, [], _, _, heq => Or.inr ⟨a :: s, rfl, heq⟩
  | a :: s, b :: t, x, y, heq => by
    rw [encode_cons, encode_cons, List.append_assoc, List.append_assoc] at heq
    obtain ⟨rfl, hrest⟩ := h.eq_of_append heq
    rcases h.encode_append_eq hrest with ⟨u, rfl, hx⟩ | ⟨u, rfl, hy⟩
    · exact Or.inl ⟨u, rfl, hx⟩
    · exact Or.inr ⟨u, rfl, hy⟩

/-- A string that a code goes on from. -/
def Partial (code : α → List β) (x : List β) : Prop := ∃ a, x <+: code a ∧ x ≠ code a

/-- A string that a code goes on from starts with no code. -/
theorem PrefixFree.not_append_partial (h : PrefixFree code)
    (hx : Partial code x) : x ≠ code a ++ y := by
  rintro rfl
  obtain ⟨b, hpre, hne⟩ := hx
  obtain rfl : a = b := h a b ((List.prefix_append _ _).trans hpre)
  exact hne (hpre.eq_of_length (le_antisymm hpre.length_le (List.prefix_append _ _).length_le))

/-- **What a concatenation of codes with a beginning of a code behind it starts with.** -/
theorem PrefixFree.eq_append_of_partial (h : PrefixFree code) {s t : List α} (hx : Partial code x)
    (heq : encode code t ++ y = encode code s ++ x) : ∃ u, s = t ++ u ∧ y = encode code u ++ x := by
  rcases h.encode_append_eq heq with hu | ⟨u, rfl, hu⟩
  · exact hu
  · cases u with
    | nil => exact ⟨[], by rw [List.append_nil, List.append_nil], hu⟩
    | cons a u =>
      rw [encode_cons, List.append_assoc] at hu
      exact absurd hu.symm (h.not_append_partial hx)

end PrefixCode
