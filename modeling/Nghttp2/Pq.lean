/-
# The intrusive priority queue (`nghttp2_pq`)

`nghttp2_pq` is a binary heap of entries in an array.  It is intrusive: every
entry stores its own position in its `index` field, and `nghttp2_pq_remove`
relies on that field.  The `index` field lives in the entries and not in the
queue, so the model keeps the array `q` together with the field as a function of
the entry; all queues of a program share that function.

* `Indexed`: the `index` field of every contained entry is its position;
* `Rearranges`: what the two sifting loops may do, a permutation of the contained
  entries that keeps the positions right and touches no entry outside;
* `push_perm`, `remove_perm`: the contents after an insertion and after the
  removal of a contained entry.

`nghttp2_pq_update` and `nghttp2_pq_each` are not used by the library's stream
scheduling and are left out here.
-/
import Mathlib.Tactic

namespace Nghttp2

open Function (update_apply update_eq_self update_of_ne update_self)

/-- A priority queue: the array of entries and the `index` field of the entries. -/
structure Pq (α : Type*) where
  q : List α
  index : α → ℕ

namespace Pq

variable {α : Type*}

section Operations

variable [DecidableEq α]

/-- `swap`: exchange two slots and write the `index` fields of both entries. -/
def swap (pq : Pq α) (i j : ℕ) : Pq α :=
  match pq.q[i]?, pq.q[j]? with
  | some t, some u =>
    { q := (pq.q.set i u).set j t
      index := Function.update (Function.update pq.index u i) t j }
  | _, _ => pq

/-- `pq->less(pq->q[i], pq->q[j])`. -/
def lessAt (less : α → α → Bool) (pq : Pq α) (i j : ℕ) : Bool :=
  match pq.q[i]?, pq.q[j]? with
  | some a, some b => less a b
  | _, _ => false

/-- `bubble_up`; every turn goes to a smaller slot, so `index` turns suffice. -/
def bubbleUp (less : α → α → Bool) : ℕ → Pq α → ℕ → Pq α
  | 0, pq, _ => pq
  | turns + 1, pq, index =>
    if index = 0 then pq
    else if pq.lessAt less index ((index - 1) / 2) then
      bubbleUp less turns (pq.swap ((index - 1) / 2) index) ((index - 1) / 2)
    else pq

/-- The inner loop of `bubble_down`: the smallest of a slot and its two children. -/
def minIndex (less : α → α → Bool) (pq : Pq α) (index : ℕ) : ℕ :=
  let j := index * 2 + 1
  let m := if j < pq.q.length ∧ pq.lessAt less j index then j else index
  if j + 1 < pq.q.length ∧ pq.lessAt less (j + 1) m then j + 1 else m

/-- `bubble_down`; every turn goes to a larger slot, so `length` turns suffice. -/
def bubbleDown (less : α → α → Bool) : ℕ → Pq α → ℕ → Pq α
  | 0, pq, _ => pq
  | turns + 1, pq, index =>
    if pq.minIndex less index = index then pq
    else bubbleDown less turns (pq.swap index (pq.minIndex less index)) (pq.minIndex less index)

/-- `nghttp2_pq_push`. -/
def push (less : α → α → Bool) (pq : Pq α) (item : α) : Pq α :=
  bubbleUp less pq.q.length
    { q := pq.q ++ [item], index := Function.update pq.index item pq.q.length } pq.q.length

/-- `pq->q[i] = pq->q[pq->length - 1]; pq->q[i]->index = i; --pq->length`. -/
def moveLastTo (pq : Pq α) (i : ℕ) : Pq α :=
  match pq.q.getLast? with
  | some u => { q := (pq.q.set i u).dropLast, index := Function.update pq.index u i }
  | none => pq

/-- `nghttp2_pq_pop`. -/
def pop (less : α → α → Bool) (pq : Pq α) : Pq α :=
  if pq.q.length > 0 then bubbleDown less pq.q.length (pq.moveLastTo 0) 0 else pq

/-- `nghttp2_pq_remove`. -/
def remove (less : α → α → Bool) (pq : Pq α) (item : α) : Pq α :=
  let i := pq.index item
  if i = 0 then pq.pop less
  else if i = pq.q.length - 1 then { pq with q := pq.q.dropLast }
  else
    let pq' := pq.moveLastTo i
    if (pq'.q[i]?).any (less item) then bubbleDown less pq.q.length pq' i
    else bubbleUp less i pq' i

end Operations

/-! ## Positions -/

/-- The `index` field of every contained entry is its position. -/
def Indexed (pq : Pq α) : Prop := ∀ i a, pq.q[i]? = some a → pq.index a = i

variable {pq : Pq α} {a item : α} {i : ℕ}

/-- No item is queued twice. -/
theorem Indexed.nodup (h : pq.Indexed) : pq.q.Nodup := by
  rw [List.nodup_iff_getElem?_ne_getElem?]
  intro i j hij hj heq
  have hi : pq.q[i]? = some pq.q[j] := by rw [heq, List.getElem?_eq_getElem hj]
  have := h i _ hi
  have := h j _ (List.getElem?_eq_getElem hj)
  omega

/-- `pq'` holds the entries of `pq` in another order, with their positions kept
up to date, and no entry outside was written. -/
structure Rearranges (pq pq' : Pq α) : Prop where
  perm : pq'.q.Perm pq.q
  indexed : pq.Indexed → pq'.Indexed
  frame : ∀ a, a ∉ pq.q → pq'.index a = pq.index a

theorem Rearranges.refl (pq : Pq α) : pq.Rearranges pq :=
  ⟨List.Perm.refl _, id, fun _ _ => rfl⟩

theorem Rearranges.trans {a b c : Pq α} (hab : a.Rearranges b) (hbc : b.Rearranges c) :
    a.Rearranges c where
  perm := hbc.perm.trans hab.perm
  indexed := hbc.indexed ∘ hab.indexed
  frame x hx := by
    rw [hbc.frame x (fun h => hx (hab.perm.mem_iff.1 h)), hab.frame x hx]

variable [DecidableEq α]

theorem swap_rearranges (pq : Pq α) (i j : ℕ) : pq.Rearranges (pq.swap i j) := by
  unfold swap
  split
  next t u hi hj =>
    obtain ⟨hilt, hti⟩ := List.getElem?_eq_some_iff.1 hi
    obtain ⟨hjlt, huj⟩ := List.getElem?_eq_some_iff.1 hj
    refine ⟨?_, ?_, ?_⟩
    · subst hti huj
      exact List.set_set_perm hilt hjlt
    · intro h k a hk
      have hti' := h i t hi
      have huj' := h j u hj
      simp only [List.getElem?_set, List.length_set] at hk
      by_cases hat : a = t
      · subst hat
        grind [Indexed, update_self]
      · by_cases hau : a = u
        · subst hau
          grind [Indexed, update_self, update_of_ne]
        · simp only [update_of_ne hat, update_of_ne hau]
          grind [Indexed]
    · intro a ha
      have hat : a ≠ t := fun h => ha (h ▸ List.mem_of_getElem? hi)
      have hau : a ≠ u := fun h => ha (h ▸ List.mem_of_getElem? hj)
      simp only [update_of_ne hat, update_of_ne hau]
  next => exact Rearranges.refl pq

/-- `bubble_up` rearranges. -/
theorem bubbleUp_rearranges (less : α → α → Bool) (turns : ℕ) (pq : Pq α) (i : ℕ) :
    pq.Rearranges (bubbleUp less turns pq i) := by
  induction turns generalizing pq i with
  | zero => exact Rearranges.refl pq
  | succ turns ih =>
    rw [bubbleUp]
    split
    · exact Rearranges.refl pq
    · split
      · exact (swap_rearranges pq _ _).trans (ih _ _)
      · exact Rearranges.refl pq

/-- `bubble_down` rearranges. -/
theorem bubbleDown_rearranges (less : α → α → Bool) (turns : ℕ) (pq : Pq α) (i : ℕ) :
    pq.Rearranges (bubbleDown less turns pq i) := by
  induction turns generalizing pq i with
  | zero => exact Rearranges.refl pq
  | succ turns ih =>
    rw [bubbleDown]
    split
    · exact Rearranges.refl pq
    · exact (swap_rearranges pq _ _).trans (ih _ _)

/-! ## Contents after an insertion and after a removal -/

/-- An insertion adds the entry and writes no `index` field but those of the
entry and of the contained ones. -/
theorem push_perm (less : α → α → Bool) (pq : Pq α) (item : α) :
    (pq.push less item).q.Perm (item :: pq.q) :=
  (bubbleUp_rearranges less _ _ _).perm.trans (List.perm_append_singleton item pq.q)

/-- **Pushing keeps the indices.** -/
theorem push_indexed (less : α → α → Bool) (h : pq.Indexed)
    (hitem : item ∉ pq.q) : (pq.push less item).Indexed := by
  refine (bubbleUp_rearranges less _ _ _).indexed ?_
  intro i a hi
  simp only [List.getElem?_append] at hi
  split at hi
  · have ha : a ≠ item := fun hai => hitem (hai ▸ List.mem_of_getElem? hi)
    exact (update_of_ne ha _ _).trans (h i a hi)
  · simp only [List.getElem?_singleton, Option.ite_none_right_eq_some, Option.some.injEq] at hi
    obtain ⟨hlen, rfl⟩ := hi
    simp only [update_self]
    omega

theorem push_frame (less : α → α → Bool) (pq : Pq α) (ha : a ∉ pq.q)
    (hne : a ≠ item) : (pq.push less item).index a = pq.index a := by
  rw [push, (bubbleUp_rearranges less _ _ _).frame a (by simp [ha, hne])]
  exact update_of_ne hne _ _

theorem moveLastTo_perm (h : pq.Indexed)
    (hi : pq.q[i]? = some item) : (pq.moveLastTo i).q.Perm (pq.q.erase item) := by
  have hnodup := h.nodup
  obtain ⟨hilt, hitem⟩ := List.getElem?_eq_some_iff.1 hi
  rcases List.eq_nil_or_concat pq.q with hnil | ⟨l, u, hq⟩
  · simp [hnil] at hilt
  rw [List.concat_eq_append] at hq
  have herase : pq.q.erase item = pq.q.eraseIdx i := by
    rw [← hitem, hnodup.erase_getElem]
  simp only [moveLastTo, hq, List.getLast?_concat] at herase ⊢
  rw [herase]
  simp only [hq, List.length_append, List.length_singleton] at hilt
  rcases Nat.lt_succ_iff_lt_or_eq.1 hilt with hlt | rfl
  · rw [List.set_append_left _ _ hlt, List.dropLast_concat, List.eraseIdx_append_of_lt_length hlt]
    exact (List.set_perm_cons_eraseIdx hlt u).trans (List.perm_append_singleton u _).symm
  · simp [List.eraseIdx_append_of_length_le]

theorem moveLastTo_indexed (h : pq.Indexed) (i : ℕ) : (pq.moveLastTo i).Indexed := by
  unfold moveLastTo
  split
  next u hu =>
    intro k a hk
    rw [List.getElem?_dropLast, List.length_set] at hk
    split at hk
    next hlt =>
      have hlast : pq.index u = pq.q.length - 1 :=
        h _ _ (by rw [← List.getLast?_eq_getElem?, hu])
      rw [List.getElem?_set] at hk
      simp only [update_apply]
      grind [Indexed]
    next => simp at hk
  next => exact h

theorem moveLastTo_frame (pq : Pq α) (i : ℕ) (ha : a ∉ pq.q) :
    (pq.moveLastTo i).index a = pq.index a := by
  unfold moveLastTo
  split
  next u hu =>
    exact update_of_ne (ne_of_mem_of_not_mem (List.mem_of_getLast? hu) ha).symm _ _
  next => rfl

/-- Whatever branch `nghttp2_pq_remove` takes for a contained entry, it fills the
entry's slot with the last entry and then sifts. -/
theorem remove_rearranges (less : α → α → Bool) (h : pq.Indexed)
    (hi : pq.q[i]? = some item) : (pq.moveLastTo i).Rearranges (pq.remove less item) := by
  have hidx := h i item hi
  unfold remove
  simp only [hidx]
  split
  next h0 =>
    subst h0
    rw [pop, if_pos (List.length_pos_of_mem (List.mem_of_getElem? hi))]
    exact bubbleDown_rearranges less _ _ _
  next =>
    split
    next hlast =>
      -- the last slot: writing the entry over itself changes nothing
      have hitem : pq.q.getLast? = some item := by
        rw [List.getLast?_eq_getElem?, ← hlast, hi]
      have hset : pq.q.set i item = pq.q := by
        obtain ⟨hilt, rfl⟩ := List.getElem?_eq_some_iff.1 hi
        exact List.set_getElem_self hilt
      have hmove : pq.moveLastTo i = { pq with q := pq.q.dropLast } := by
        simp only [moveLastTo, hitem, hset]
        rw [← hidx, update_eq_self]
      rw [hmove]
      exact Rearranges.refl _
    next =>
      split
      · exact bubbleDown_rearranges less _ _ _
      · exact bubbleUp_rearranges less _ _ _

/-- The removal of a contained entry leaves exactly the others. -/
theorem remove_perm (less : α → α → Bool) (h : pq.Indexed)
    (hitem : item ∈ pq.q) : (pq.remove less item).q.Perm (pq.q.erase item) := by
  obtain ⟨i, hi⟩ := List.mem_iff_getElem?.1 hitem
  exact (remove_rearranges less h hi).perm.trans (moveLastTo_perm h hi)

/-- **Removing keeps the indices.** -/
theorem remove_indexed (less : α → α → Bool) (h : pq.Indexed)
    (hitem : item ∈ pq.q) : (pq.remove less item).Indexed := by
  obtain ⟨i, hi⟩ := List.mem_iff_getElem?.1 hitem
  exact (remove_rearranges less h hi).indexed (moveLastTo_indexed h i)

theorem remove_frame (less : α → α → Bool) (h : pq.Indexed) (hitem : item ∈ pq.q) (ha : a ∉ pq.q) :
    (pq.remove less item).index a = pq.index a := by
  obtain ⟨i, hi⟩ := List.mem_iff_getElem?.1 hitem
  have hmem : a ∉ (pq.moveLastTo i).q := fun hm =>
    ha (List.mem_of_mem_erase ((moveLastTo_perm h hi).mem_iff.1 hm))
  rw [(remove_rearranges less h hi).frame a hmem, moveLastTo_frame pq i ha]

end Pq

end Nghttp2
