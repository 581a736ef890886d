/-
# First-in first-out tables with a size limit

A table is a list of entries that starts with the newest.  Each entry takes some room, and when
the limit is exceeded the oldest entries go.  What is left is the longest initial part that
fits, `keep`.

* `keep_of_le`, `keep_concat`: when the last entry stays, and when it goes;
* `keep_keep`: two limits, one after the other, are the smaller of the two.
-/
import Mathlib.Tactic

namespace SizedFifo

variable {α : Type*} (w : α → ℕ)

/-- The room that the entries of a table take together. -/
def weight (l : List α) : ℕ := (l.map w).sum

/-- The longest initial part of a table that takes at most the room `n`. -/
def keep : ℕ → List α → List α
  | _, [] => []
  | n, x :: l => if w x ≤ n then x :: keep (n - w x) l else []

@[simp] theorem keep_nil (n : ℕ) : keep w n [] = [] := by
  cases n <;> rfl

theorem keep_cons (n : ℕ) (x : α) (l : List α) :
    keep w n (x :: l) = if w x ≤ n then x :: keep w (n - w x) l else [] := rfl

@[simp] theorem weight_nil : weight w [] = 0 := rfl

@[simp] theorem weight_cons (x : α) (l : List α) : weight w (x :: l) = w x + weight w l := rfl

@[simp] theorem weight_append (l l' : List α) : weight w (l ++ l') = weight w l + weight w l' := by
  simp [weight]

variable {w} {l : List α} {n m : ℕ}

/-- What is kept fits. -/
theorem weight_keep_le : ∀ {n : ℕ} {l : List α}, weight w (keep w n l) ≤ n
  | _, [] => Nat.zero_le _
  | n, x :: l => by
    rw [keep_cons]
    split
    · have hle : weight w (keep w (n - w x) l) ≤ n - w x := weight_keep_le
      rw [weight_cons]
      omega
    · exact Nat.zero_le _

/-- What fits is kept. -/
theorem keep_of_le : ∀ {n : ℕ} {l : List α}, weight w l ≤ n → keep w n l = l
  | _, [], _ => rfl
  | n, x :: l, h => by
    rw [weight_cons] at h
    rw [keep_cons, if_pos (by omega), keep_of_le (by omega)]

/-- The last entry does not fit. -/
theorem keep_concat (x : α) :
    ∀ {n : ℕ} {l : List α}, n < weight w (l ++ [x]) → keep w n (l ++ [x]) = keep w n l
  | n, [], h => by
    have hx : n < w x := by simpa using h
    rw [List.nil_append, keep_cons, if_neg (by omega), keep_nil]
  | n, y :: l, h => by
    rw [List.cons_append, weight_cons] at h
    rw [List.cons_append, keep_cons, keep_cons]
    split
    · rw [keep_concat x (by omega)]
    · rfl

/-- **Two limits are as good as the smaller one.** -/
theorem keep_keep : ∀ (n m : ℕ) (l : List α), keep w m (keep w n l) = keep w (min m n) l
  | _, _, [] => rfl
  | n, m, x :: l => by
    rw [keep_cons, keep_cons]
    by_cases hn : w x ≤ n
    · rw [if_pos hn, keep_cons]
      by_cases hm : w x ≤ m
      · rw [if_pos hm, if_pos (le_min hm hn), keep_keep, Nat.sub_min_sub_right]
      · rw [if_neg hm, if_neg (by omega)]
    · rw [if_neg hn, if_neg (by omega), keep_nil]

/-- Entries that take room are bounded in number. -/
theorem length_mul_le {k : ℕ} (hw : ∀ x, k ≤ w x) : ∀ l : List α, l.length * k ≤ weight w l
  | [] => by simp
  | x :: l => by
    have hx := hw x
    have hl := length_mul_le hw l
    rw [List.length_cons, weight_cons, add_mul, one_mul]
    omega

end SizedFifo
