/-
# Doubly linked chains in field-per-function heaps

A heap of records is represented by one function per field.  A run of records
linked through two such fields, `next` and `prev`, is described by the list of
its addresses:

* `Seg next prev p l q` says that the addresses `l` are linked in this order,
  that the first one points back to `p` and the last one points forward to `q`;
* `seg_append` cuts a chain in two, `seg_congr` is the frame rule;
* `seg_update_next_last` and `seg_update_prev_head` redirect the two ends;
* `walk` follows the `next` field with a bound on the number of steps; `forChain` is a
  loop along a chain, equal to a fold over the list when its body keeps the links
  (`forChain_eq_foldl`).
-/
import Mathlib.Tactic

namespace LinkedChain

open Function (update update_of_ne update_self)

variable {α : Type*}

/-- The addresses `l` are linked in order through `next` and `prev`: the first
points back to `p`, the last points forward to `q`. -/
def Seg (next prev : α → Option α) : Option α → List α → Option α → Prop
  | _, [], _ => True
  | p, x :: l, q => prev x = p ∧ next x = l.head?.or q ∧ Seg next prev (some x) l q

variable {next prev next' prev' : α → Option α} {p q : Option α} {l : List α}

@[simp] theorem seg_nil : Seg next prev p [] q := trivial

variable {x : α}

theorem seg_cons :
    Seg next prev p (x :: l) q ↔
      prev x = p ∧ next x = l.head?.or q ∧ Seg next prev (some x) l q := Iff.rfl

@[simp] theorem seg_singleton : Seg next prev p [x] q ↔ prev x = p ∧ next x = q := by
  simp [seg_cons]

/-- A chain splits at any point; the two halves point at each other. -/
theorem seg_append (l1 l2 : List α) :
    Seg next prev p (l1 ++ l2) q ↔
      Seg next prev p l1 (l2.head?.or q) ∧ Seg next prev (l1.getLast?.or p) l2 q := by
  induction l1 generalizing p with
  | nil => simp
  | cons x l1 ih =>
    have hhead : (l1 ++ l2).head?.or q = l1.head?.or (l2.head?.or q) := by
      cases l1 <;> simp
    have hlast : (x :: l1).getLast?.or p = l1.getLast?.or (some x) := by
      cases l1 with
      | nil => simp
      | cons y l => simp [List.getLast?_eq_getLast_of_ne_nil]
    rw [List.cons_append, seg_cons, seg_cons, ih, hhead, hlast, and_assoc, and_assoc]

/-- **Frame rule**: a chain only depends on the links of its own addresses. -/
theorem seg_congr (hn : ∀ x ∈ l, next' x = next x) (hp : ∀ x ∈ l, prev' x = prev x) :
    Seg next' prev' p l q ↔ Seg next prev p l q := by
  induction l generalizing p with
  | nil => simp
  | cons x l ih =>
    rw [seg_cons, seg_cons, hn x (by simp), hp x (by simp),
      ih (fun y hy => hn y (by simp [hy])) (fun y hy => hp y (by simp [hy]))]

section Update

variable [DecidableEq α]

variable {v : Option α}

@[simp] theorem seg_update_next_of_notMem (hx : x ∉ l) :
    Seg (update next x v) prev p l q ↔ Seg next prev p l q :=
  seg_congr (fun _ hy => update_of_ne (ne_of_mem_of_not_mem hy hx) _ _) (fun _ _ => rfl)

@[simp] theorem seg_update_prev_of_notMem (hx : x ∉ l) :
    Seg next (update prev x v) p l q ↔ Seg next prev p l q :=
  seg_congr (fun _ _ => rfl) (fun _ hy => update_of_ne (ne_of_mem_of_not_mem hy hx) _ _)

/-- Writing the `prev` field of the first address redirects the chain's start. -/
theorem seg_update_prev_head (hx : x ∉ l)
    (h : Seg next prev p (x :: l) q) : Seg next (update prev x v) v (x :: l) q := by
  obtain ⟨-, hnext, hrest⟩ := h
  exact ⟨update_self .., hnext, (seg_update_prev_of_notMem hx).2 hrest⟩

/-- Writing the `next` field of the last address redirects the chain's end. -/
theorem seg_update_next_last (hx : x ∉ l)
    (h : Seg next prev p (l ++ [x]) q) : Seg (update next x v) prev p (l ++ [x]) v := by
  rw [seg_append, seg_singleton] at h ⊢
  obtain ⟨hl, hprev, -⟩ := h
  exact ⟨(seg_update_next_of_notMem hx).2 hl, hprev, update_self ..⟩

/-- Linking the last address of one chain to the first of another joins them. -/
theorem seg_join {l1 l2 : List α} {a b : α} {p2 q1 : Option α}
    (h1 : Seg next prev p (l1 ++ [a]) q1) (h2 : Seg next prev p2 (b :: l2) q)
    (hnodup : ((l1 ++ [a]) ++ b :: l2).Nodup) :
    Seg (update next a (some b)) (update prev b (some a)) p
      ((l1 ++ [a]) ++ b :: l2) q := by
  obtain ⟨hn1, hn2, hdisj⟩ := List.nodup_append'.1 hnodup
  have ha : a ∉ l1 := fun h => (List.nodup_append'.1 hn1).2.2 h (by simp)
  have hb : b ∉ l2 := (List.nodup_cons.1 hn2).1
  have ha2 : a ∉ b :: l2 := fun h => hdisj (by simp) h
  have hb1 : b ∉ l1 ++ [a] := fun h => hdisj h (by simp)
  rw [seg_append]
  refine ⟨?_, ?_⟩
  · rw [seg_update_prev_of_notMem hb1]
    exact seg_update_next_last ha h1
  · rw [seg_update_next_of_notMem ha2]
    simpa using seg_update_prev_head hb h2

end Update

/-! ## Reading a chain back -/

/-- At most `n` steps along `next`, starting at `start`. -/
def walk (next : α → Option α) : ℕ → Option α → List α
  | 0, _ => []
  | _, none => []
  | n + 1, some x => x :: walk next n (next x)

@[simp] theorem walk_none (n : ℕ) : walk next n none = [] := by cases n <;> rfl

/-- A loop along a chain whose links are read from the current state: the body
runs at each address, then the link of that address is followed. -/
def forChain {σ : Type*} (next : σ → α → Option α) (body : σ → α → σ) : ℕ → σ → Option α → σ
  | 0, s, _ => s
  | _, s, none => s
  | n + 1, s, some x => forChain next body n (body s x) (next (body s x) x)

/-- When the body leaves the links alone, the loop folds it over the chain. -/
theorem forChain_eq_foldl {σ : Type*} (next : σ → α → Option α) (body : σ → α → σ)
    (hbody : ∀ s x, next (body s x) = next s) {n : ℕ} {s : σ} {prev : α → Option α}
    (h : Seg (next s) prev p l none) (hn : l.length ≤ n) :
    forChain next body n s l.head? = l.foldl body s := by
  induction l generalizing n p s with
  | nil => cases n <;> rfl
  | cons x l ih =>
    obtain ⟨-, hnext, hrest⟩ := h
    cases n with
    | zero => simp at hn
    | succ n =>
      rw [Option.or_none] at hnext
      rw [List.head?_cons, forChain, hbody, hnext, List.foldl_cons]
      exact ih (by rwa [hbody]) (by simpa using hn)

/-- What the body of a loop keeps, the loop keeps. -/
theorem forChain_keeps {σ β : Type*} {next : σ → α → Option α} {body : σ → α → σ} (f : σ → β)
    (hbody : ∀ s x, f (body s x) = f s) (n : ℕ) (s : σ) (start : Option α) :
    f (forChain next body n s start) = f s := by
  induction n generalizing s start with
  | zero => rfl
  | succ n ih =>
    cases start with
    | none => rfl
    | some x => rw [forChain, ih, hbody]

end LinkedChain
