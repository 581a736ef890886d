/-
# The priority queue as a heap

When the comparison of a `Pq` is that of a key, the array is a heap: no entry has a smaller key
than the entry at the parent slot.  The array is read as a function from slots to keys, which is
`⊤` behind the end, so that the order can be followed through the exchanges of `bubble_up` and
`bubble_down` without looking at the bounds.

* `bubbleUp_isHeap`, `bubbleDown_isHeap`: the two loops repair the heap at one slot;
* `push_isHeap`: a push keeps the heap;
* `remove_isHeap_iff`: what `nghttp2_pq_remove` does to a heap in which the key of the removed
  entry has been changed.
-/
import Nghttp2.Pq

namespace Nghttp2.Pq

open Function (comp_apply update update_of_ne update_self)

/-! ## Heaps of keys -/

section Keys

variable {κ : Type*} [LinearOrder κ] {f : ℕ → κ} {i : ℕ}

/-- The slot above a slot other than 0. -/
def parent (i : ℕ) : ℕ := (i - 1) / 2

theorem parent_lt (h : 0 < i) : parent i < i := by
  unfold parent
  omega

/-- No key is smaller than the one above it. -/
def IsHeap (f : ℕ → κ) : Prop := ∀ j, 0 < j → f (parent j) ≤ f j

/-- The heap but for the slot `i`, whose key may be anything. -/
structure HeapBut (f : ℕ → κ) (i : ℕ) : Prop where
  off : ∀ j, 0 < j → j ≠ i → parent j ≠ i → f (parent j) ≤ f j
  around : 0 < i → ∀ j, 0 < j → parent j = i → f (parent i) ≤ f j

theorem IsHeap.but (h : IsHeap f) (i : ℕ) : HeapBut f i where
  off j hj _ _ := h j hj
  around hi j hj hji := (h i hi).trans (hji ▸ h j hj)

/-- The key at `i` is in order as well. -/
theorem HeapBut.isHeap (h : HeapBut f i) (hup : 0 < i → f (parent i) ≤ f i)
    (hlow : ∀ j, 0 < j → parent j = i → f i ≤ f j) : IsHeap f := by
  intro j hj
  rcases eq_or_ne j i with rfl | hji
  · exact hup hj
  · rcases eq_or_ne (parent j) i with hpi | hpi
    · rw [hpi]
      exact hlow j hj hpi
    · exact h.off j hj hji hpi

theorem IsHeap.top_le (h : IsHeap f) : ∀ i, f 0 ≤ f i := by
  intro i
  induction i using Nat.strong_induction_on with
  | _ i ih =>
    rcases Nat.eq_zero_or_pos i with rfl | hi
    · exact le_rfl
    · exact (ih (parent i) (parent_lt hi)).trans (h i hi)

/-- The key at `i` goes up. -/
theorem HeapBut.swap_up (h : HeapBut f i) (hi : 0 < i)
    (hlow : ∀ j, 0 < j → parent j = i → f i ≤ f j) (hlt : f i < f (parent i)) :
    HeapBut (f ∘ Equiv.swap (parent i) i) (parent i) ∧
      ∀ j, 0 < j → parent j = parent i →
        (f ∘ Equiv.swap (parent i) i) (parent i) ≤ (f ∘ Equiv.swap (parent i) i) j := by
  have hpi := parent_lt hi
  have hself : (f ∘ Equiv.swap (parent i) i) i = f (parent i) := by simp
  have hup : (f ∘ Equiv.swap (parent i) i) (parent i) = f i := by simp
  have hother : ∀ j, j ≠ i → j ≠ parent i → (f ∘ Equiv.swap (parent i) i) j = f j := by
    intro j hj hj'
    simp [Equiv.swap_apply_of_ne_of_ne hj' hj]
  -- the keys below the slot above `i`, apart from the one at `i`
  have hsib : ∀ j, 0 < j → j ≠ i → parent j = parent i → f (parent i) ≤ f j := by
    intro j hj hji hpar
    rw [← hpar]
    exact h.off j hj hji (by omega)
  refine ⟨⟨fun j hj hjp hpar => ?_, fun hp j hj hpar => ?_⟩, fun j hj hpar => ?_⟩
  · rcases eq_or_ne j i with rfl | hji
    · exact absurd rfl hpar
    · rw [hother j hji hjp]
      rcases eq_or_ne (parent j) i with hpi' | hpi'
      · rw [hpi', hself]
        exact h.around hi j hj hpi'
      · rw [hother _ hpi' hpar]
        exact h.off j hj hji hpi'
  · have hpp := parent_lt hp
    have habove : f (parent (parent i)) ≤ f (parent i) := h.off _ hp (by omega) (by omega)
    rw [hother _ (by omega) (by omega)]
    rcases eq_or_ne j i with rfl | hji
    · rw [hself]
      exact habove
    · rw [hother j hji (by have := parent_lt hj; omega)]
      exact habove.trans (hsib j hj hji hpar)
  · rw [hup]
    rcases eq_or_ne j i with rfl | hji
    · rw [hself]
      exact hlt.le
    · rw [hother j hji (by have := parent_lt hj; omega)]
      exact hlt.le.trans (hsib j hj hji hpar)

/-- The key at `i` changes places with the smallest key `m` below it. -/
theorem HeapBut.swap_down {m : ℕ} (h : HeapBut f i) (hm : 0 < m) (hpar : parent m = i)
    (hlt : f m < f i) (hmin : ∀ j, 0 < j → parent j = i → f m ≤ f j) :
    HeapBut (f ∘ Equiv.swap i m) m ∧ (f ∘ Equiv.swap i m) (parent m) ≤ (f ∘ Equiv.swap i m) m := by
  have him : i < m := hpar ▸ parent_lt hm
  have hself : (f ∘ Equiv.swap i m) i = f m := by simp
  have hdown : (f ∘ Equiv.swap i m) m = f i := by simp
  have hother : ∀ j, j ≠ i → j ≠ m → (f ∘ Equiv.swap i m) j = f j := by
    intro j hj hj'
    simp [Equiv.swap_apply_of_ne_of_ne hj hj']
  refine ⟨⟨fun j hj hjm hjp => ?_, fun _ j hj hjp => ?_⟩, ?_⟩
  · rcases eq_or_ne j i with rfl | hji
    · rw [hself, hother _ (parent_lt hj).ne hjp]
      exact h.around hj m hm hpar
    · rw [hother j hji hjm]
      rcases eq_or_ne (parent j) i with hpi | hpi
      · rw [hpi, hself]
        exact hmin j hj hpi
      · rw [hother _ hpi hjp]
        exact h.off j hj hji hpi
  · have hmj : m < j := hjp ▸ parent_lt hj
    rw [hpar, hself, hother j (by omega) (by omega), ← hjp]
    exact h.off j hj (by omega) (by omega)
  · rw [hpar, hself, hdown]
    exact hlt.le

end Keys

/-! ## Keys of an array -/

section Arrays

variable {α κ : Type*} {key : α → κ} {q : List α} {pq : Pq α} {i j : ℕ} {a item : α}

/-- The key at a slot. -/
def keyAt (key : α → κ) (q : List α) (i : ℕ) : WithTop κ :=
    (q[i]?).elim ⊤ fun a => (key a : WithTop κ)

theorem keyAt_of_getElem? (h : q[i]? = some a) : keyAt key q i = key a := by
  rw [keyAt, h, Option.elim_some]

theorem keyAt_of_le (h : q.length ≤ i) : keyAt key q i = ⊤ := by
  rw [keyAt, List.getElem?_eq_none h, Option.elim_none]

theorem swap_length [DecidableEq α] (pq : Pq α) (i j : ℕ) : (pq.swap i j).q.length = pq.q.length :=
  (swap_rearranges pq i j).perm.length_eq

theorem keyAt_swap [DecidableEq α] (hi : i < pq.q.length) (hj : j < pq.q.length) :
    keyAt key (pq.swap i j).q = keyAt key pq.q ∘ Equiv.swap i j := by
  have hti := List.getElem?_eq_getElem hi
  have htj := List.getElem?_eq_getElem hj
  have hq : (pq.swap i j).q = (pq.q.set i pq.q[j]).set j pq.q[i] := by
    rw [swap, hti, htj]
  funext k
  rw [comp_apply, hq, keyAt, keyAt, List.getElem?_set, List.getElem?_set]
  rcases eq_or_ne k j with rfl | hkj
  · rw [Equiv.swap_apply_right, if_pos rfl, if_pos (by rwa [List.length_set]), hti]
  · rw [if_neg hkj.symm]
    rcases eq_or_ne k i with rfl | hki
    · rw [Equiv.swap_apply_left, if_pos rfl, if_pos hi, htj]
    · rw [if_neg hki.symm, Equiv.swap_apply_of_ne_of_ne hki hkj]

theorem keyAt_append (key : α → κ) (q : List α) (item : α) :
    keyAt key (q ++ [item]) = update (keyAt key q) q.length (key item : WithTop κ) := by
  funext k
  rcases eq_or_ne k q.length with rfl | hk
  · rw [update_self, keyAt_of_getElem? List.getElem?_concat_length]
  · rw [update_of_ne hk]
    rcases Nat.lt_or_ge k q.length with hlt | hge
    · rw [keyAt, keyAt, List.getElem?_append_left hlt]
    · rw [keyAt_of_le hge, keyAt_of_le (by rw [List.length_append, List.length_singleton]; omega)]

theorem keyAt_congr {key' : α → κ} (h : ∀ a ∈ q, key' a = key a) : keyAt key' q = keyAt key q := by
  funext k
  cases hk : q[k]? with
  | none => rw [keyAt, keyAt, hk, Option.elim_none, Option.elim_none]
  | some a => rw [keyAt_of_getElem? hk, keyAt_of_getElem? hk, h a (List.mem_of_getElem? hk)]

variable [LinearOrder κ]

theorem lt_of_keyAt_lt {c : WithTop κ} (h : keyAt key q i < c) : i < q.length := by
  by_contra hle
  rw [keyAt_of_le (not_lt.1 hle)] at h
  exact not_top_lt h

/-- The comparison of a key. -/
def lessBy (key : α → κ) (a b : α) : Bool := decide (key a < key b)

theorem lessAt_iff (hj : j < pq.q.length) :
    pq.lessAt (lessBy key) i j = true ↔ keyAt key pq.q i < keyAt key pq.q j := by
  have hb := List.getElem?_eq_getElem hj
  rw [keyAt_of_getElem? hb, lessAt, hb]
  cases ha : pq.q[i]? with
  | none => simp [keyAt, ha]
  | some a =>
    rw [keyAt_of_getElem? ha, WithTop.coe_lt_coe]
    exact decide_eq_true_iff

/-- The slot that `bubble_down` chooses has the smallest key of a slot and those below it. -/
theorem minIndex_spec (key : α → κ) (pq : Pq α) (hi : i < pq.q.length) :
    (pq.minIndex (lessBy key) i = i ∨
      0 < pq.minIndex (lessBy key) i ∧ parent (pq.minIndex (lessBy key) i) = i ∧
        keyAt key pq.q (pq.minIndex (lessBy key) i) < keyAt key pq.q i) ∧
      ∀ j, 0 < j → parent j = i →
        keyAt key pq.q (pq.minIndex (lessBy key) i) ≤ keyAt key pq.q j := by
  -- one comparison of the loop
  have hpick : ∀ k m, m < pq.q.length →
      (k < pq.q.length ∧ pq.lessAt (lessBy key) k m = true ↔
        keyAt key pq.q k < keyAt key pq.q m) := by
    intro k m hm
    rw [lessAt_iff hm]
    exact ⟨And.right, fun h => ⟨lt_of_keyAt_lt h, h⟩⟩
  have hchild : ∀ j, 0 < j → parent j = i → j = i * 2 + 1 ∨ j = i * 2 + 1 + 1 := by
    intro j hj hpar
    unfold parent at hpar
    omega
  have hpar1 : parent (i * 2 + 1) = i := by unfold parent; omega
  have hpar2 : parent (i * 2 + 1 + 1) = i := by unfold parent; omega
  unfold minIndex
  dsimp only
  by_cases h1 : keyAt key pq.q (i * 2 + 1) < keyAt key pq.q i
  · rw [if_pos ((hpick _ i hi).2 h1)]
    by_cases h2 : keyAt key pq.q (i * 2 + 1 + 1) < keyAt key pq.q (i * 2 + 1)
    · rw [if_pos ((hpick _ _ (lt_of_keyAt_lt h1)).2 h2)]
      refine ⟨Or.inr ⟨by omega, hpar2, h2.trans h1⟩, fun j hj hpar => ?_⟩
      rcases hchild j hj hpar with rfl | rfl
      · exact h2.le
      · exact le_rfl
    · rw [if_neg fun h => h2 ((hpick _ _ (lt_of_keyAt_lt h1)).1 h)]
      refine ⟨Or.inr ⟨by omega, hpar1, h1⟩, fun j hj hpar => ?_⟩
      rcases hchild j hj hpar with rfl | rfl
      · exact le_rfl
      · exact not_lt.1 h2
  rw [if_neg fun h => h1 ((hpick _ i hi).1 h)]
  by_cases h2 : keyAt key pq.q (i * 2 + 1 + 1) < keyAt key pq.q i
  · rw [if_pos ((hpick _ i hi).2 h2)]
    refine ⟨Or.inr ⟨by omega, hpar2, h2⟩, fun j hj hpar => ?_⟩
    rcases hchild j hj hpar with rfl | rfl
    · exact h2.le.trans (not_lt.1 h1)
    · exact le_rfl
  · rw [if_neg fun h => h2 ((hpick _ i hi).1 h)]
    refine ⟨Or.inl rfl, fun j hj hpar => ?_⟩
    rcases hchild j hj hpar with rfl | rfl
    · exact not_lt.1 h1
    · exact not_lt.1 h2

variable [DecidableEq α]

/-- **`bubble_up`** puts a key that may be too small in order. -/
theorem bubbleUp_isHeap : ∀ {turns : ℕ} {pq : Pq α} {i : ℕ}, i ≤ turns → i < pq.q.length →
    HeapBut (keyAt key pq.q) i →
    (∀ j, 0 < j → parent j = i → keyAt key pq.q i ≤ keyAt key pq.q j) →
    IsHeap (keyAt key (bubbleUp (lessBy key) turns pq i).q) := by
  intro turns
  induction turns with
  | zero =>
    intro pq i hi _ h hlow
    exact h.isHeap (fun hpos => absurd hpos (by omega)) hlow
  | succ turns ih =>
    intro pq i hi hlen h hlow
    rw [bubbleUp]
    split
    next h0 => exact h.isHeap (fun hpos => absurd hpos (by omega)) hlow
    next h0 =>
      have hpos : 0 < i := Nat.pos_of_ne_zero h0
      have hp : parent i < i := parent_lt hpos
      have hless : pq.lessAt (lessBy key) i ((i - 1) / 2) = true ↔ _ :=
        lessAt_iff (j := parent i) (hp.trans hlen)
      split
      next hlt =>
        obtain ⟨hbut, hlow'⟩ := h.swap_up hpos hlow (hless.1 hlt)
        rw [← keyAt_swap (hp.trans hlen) hlen] at hbut hlow'
        exact ih (i := parent i) (by omega) (by rw [swap_length]; omega) hbut hlow'
      next hlt => exact h.isHeap (fun _ => not_lt.1 fun hc => hlt (hless.2 hc)) hlow

/-- **`bubble_down`** puts a key that may be too large in order. -/
theorem bubbleDown_isHeap : ∀ {turns : ℕ} {pq : Pq α} {i : ℕ}, pq.q.length ≤ turns + i →
    HeapBut (keyAt key pq.q) i → (0 < i → keyAt key pq.q (parent i) ≤ keyAt key pq.q i) →
    IsHeap (keyAt key (bubbleDown (lessBy key) turns pq i).q) := by
  intro turns
  -- nothing is below a slot behind the end
  have hend : ∀ {pq : Pq α} {i : ℕ}, pq.q.length ≤ i → ∀ j, 0 < j → parent j = i →
      keyAt key pq.q i ≤ keyAt key pq.q j := by
    intro pq i hle j hj hpar
    have hlt := parent_lt hj
    rw [keyAt_of_le (show pq.q.length ≤ j by omega)]
    exact le_top
  induction turns with
  | zero =>
    intro pq i hlen h hup
    rw [bubbleDown]
    exact h.isHeap hup (hend (by omega))
  | succ turns ih =>
    intro pq i hlen h hup
    rw [bubbleDown]
    rcases Nat.lt_or_ge i pq.q.length with hi | hi
    · obtain ⟨hcase, hmin⟩ := minIndex_spec key pq hi
      split
      next heq =>
        rw [heq] at hmin
        exact h.isHeap hup hmin
      next hne =>
        obtain ⟨hpos, hpar, hlt⟩ := hcase.resolve_left hne
        have him := parent_lt hpos
        obtain ⟨hbut, hup'⟩ := h.swap_down hpos hpar hlt hmin
        rw [← keyAt_swap hi (lt_of_keyAt_lt hlt)] at hbut hup'
        exact ih (by rw [swap_length]; omega) hbut fun _ => hup'
    · have hmin : pq.minIndex (lessBy key) i = i := by
        unfold minIndex
        dsimp only
        rw [if_neg (by omega), if_neg (by omega)]
      rw [if_pos hmin]
      exact h.isHeap hup (hend hi)

/-! ## Pushing -/

/-- **`nghttp2_pq_push`** keeps the heap. -/
theorem push_isHeap (pq : Pq α) (h : IsHeap (keyAt key pq.q)) (item : α) :
    IsHeap (keyAt key (pq.push (lessBy key) item).q) := by
  have hlen : pq.q.length < (pq.q ++ [item]).length := by
    rw [List.length_append, List.length_singleton]
    omega
  -- nothing is below the new slot
  have hbelow : ∀ j, 0 < j → parent j = pq.q.length → keyAt key (pq.q ++ [item]) j = ⊤ := by
    intro j hj hpar
    have hlt := parent_lt hj
    refine keyAt_of_le ?_
    rw [List.length_append, List.length_singleton]
    omega
  refine bubbleUp_isHeap le_rfl hlen ⟨fun j hj hne hpar => ?_, fun _ j hj hpar => ?_⟩
    fun j hj hpar => ?_
  · rw [keyAt_append, update_of_ne hne, update_of_ne hpar]
    exact h j hj
  · exact le_top.trans_eq (hbelow j hj hpar).symm
  · exact le_top.trans_eq (hbelow j hj hpar).symm

/-- Slots with keys that are not larger are not touched on the way up. -/
theorem keyAt_bubbleUp : ∀ {turns : ℕ} {pq : Pq α} {i k : ℕ}, i < pq.q.length → k ≠ i →
    keyAt key pq.q k ≤ keyAt key pq.q i →
    keyAt key (bubbleUp (lessBy key) turns pq i).q k = keyAt key pq.q k := by
  intro turns
  induction turns with
  | zero => exact fun _ _ _ => rfl
  | succ turns ih =>
    intro pq i k hi hk hle
    rw [bubbleUp]
    split
    next h0 => rfl
    next h0 =>
      have hp : parent i < i := parent_lt (Nat.pos_of_ne_zero h0)
      split
      next hlt =>
        have hlt' : keyAt key pq.q i < keyAt key pq.q (parent i) := (lessAt_iff (hp.trans hi)).1 hlt
        have hkp : k ≠ parent i := by
          rintro rfl
          exact absurd hlt' (not_lt.2 hle)
        have hswap : keyAt key (pq.swap (parent i) i).q =
          keyAt key pq.q ∘ Equiv.swap (parent i) i := keyAt_swap (hp.trans hi) hi
        have hself : keyAt key (pq.swap (parent i) i).q k = keyAt key pq.q k := by
          rw [hswap, comp_apply, Equiv.swap_apply_of_ne_of_ne hkp hk]
        have hup : keyAt key (pq.swap (parent i) i).q (parent i) = keyAt key pq.q i := by
          rw [hswap, comp_apply, Equiv.swap_apply_left]
        have hle' : keyAt key (pq.swap (parent i) i).q k ≤
            keyAt key (pq.swap (parent i) i).q (parent i) := by
          rw [hself, hup]
          exact hle
        rw [← hself]
        exact ih (i := parent i) (by rw [swap_length]; exact hp.trans hi) hkp hle'
      next hlt => rfl

/-- Slots with keys that are not larger are not touched by a push. -/
theorem keyAt_push {k : ℕ} (hk : k < pq.q.length) (hle : keyAt key pq.q k ≤ key item) :
    keyAt key (pq.push (lessBy key) item).q k = keyAt key pq.q k := by
  have hself : keyAt key (pq.q ++ [item]) k = keyAt key pq.q k := by
    rw [keyAt_append, update_of_ne hk.ne]
  rw [← hself]
  refine keyAt_bubbleUp ?_ hk.ne ?_
  · rw [List.length_append, List.length_singleton]
    exact Nat.lt_succ_self _
  · show keyAt key (pq.q ++ [item]) k ≤ keyAt key (pq.q ++ [item]) pq.q.length
    rw [hself, keyAt_append, update_self]
    exact hle

/-! ## Removing -/

/-- The last entry may take the place of the one at slot `i` of `n`, the way `nghttp2_pq_remove`
does it: it goes down if its key is larger than the one at `i`, and up otherwise. -/
def Replaceable (f : ℕ → WithTop κ) (n i : ℕ) : Prop :=
  i = 0 ∨ i + 1 = n ∨ (f i < f (n - 1) ∧ f (parent i) ≤ f (n - 1)) ∨
    (f (n - 1) ≤ f i ∧ (f (n - 1) < f (parent i) ∨
      ∀ j, 0 < j → parent j = i → j ≠ n - 1 → f (n - 1) ≤ f j))

/-- With the key it has in the heap, every entry can be replaced. -/
theorem IsHeap.replaceable {f : ℕ → WithTop κ} (h : IsHeap f) (n i : ℕ) : Replaceable f n i := by
  rcases Nat.eq_zero_or_pos i with hi | hi
  · exact Or.inl hi
  · refine Or.inr (Or.inr ?_)
    rcases lt_or_ge (f i) (f (n - 1)) with hlt | hge
    · exact Or.inl ⟨hlt, (h i hi).trans hlt.le⟩
    · exact Or.inr ⟨hge, Or.inr fun j hj hpar _ => hge.trans (hpar ▸ h j hj)⟩

theorem moveLastTo_length (pq : Pq α) (i : ℕ) : (pq.moveLastTo i).q.length = pq.q.length - 1 := by
  unfold moveLastTo
  cases h : pq.q.getLast? with
  | none => simp [List.getLast?_eq_none_iff.1 h]
  | some u => simp

/-- The keys when the last entry has been moved to slot `i`. -/
theorem keyAt_moveLastTo (key : α → κ) (hi : i < pq.q.length) :
    keyAt key (pq.moveLastTo i).q =
      update (update (keyAt key pq.q) i (keyAt key pq.q (pq.q.length - 1)))
        (pq.q.length - 1) ⊤ := by
  have hlast : pq.q.getLast? = pq.q[pq.q.length - 1]? := List.getLast?_eq_getElem?
  obtain ⟨u, hu⟩ : ∃ u, pq.q[pq.q.length - 1]? = some u :=
    ⟨_, List.getElem?_eq_getElem (by omega)⟩
  have hq : (pq.moveLastTo i).q = (pq.q.set i u).dropLast := by
    rw [moveLastTo, hlast, hu]
  funext k
  rcases Nat.lt_or_ge k (pq.q.length - 1) with hk | hk
  · rw [update_of_ne hk.ne, hq, keyAt, List.getElem?_dropLast, List.length_set, if_pos hk,
      List.getElem?_set]
    rcases eq_or_ne i k with rfl | hik
    · rw [if_pos rfl, if_pos hi, update_self, keyAt_of_getElem? hu, Option.elim_some]
    · rw [if_neg hik, update_of_ne hik.symm, keyAt]
  · rw [keyAt_of_le (by rw [moveLastTo_length]; exact hk)]
    rcases eq_or_ne k (pq.q.length - 1) with rfl | hne
    · rw [update_self]
    · rw [update_of_ne hne]
      rcases eq_or_ne k i with rfl | hki
      · omega
      · rw [update_of_ne hki, keyAt_of_le (by omega)]

theorem keyAt_moveLastTo_self (key : α → κ) (pq : Pq α) (hi : i + 1 < pq.q.length) :
    keyAt key (pq.moveLastTo i).q i = keyAt key pq.q (pq.q.length - 1) := by
  rw [keyAt_moveLastTo key (by omega), update_of_ne (by omega), update_self]

theorem keyAt_moveLastTo_of_ne (key : α → κ) (hi : i < pq.q.length) (hji : j ≠ i)
    (hj : j ≠ pq.q.length - 1) : keyAt key (pq.moveLastTo i).q j = keyAt key pq.q j := by
  rw [keyAt_moveLastTo key hi, update_of_ne hj, update_of_ne hji]

theorem HeapBut.moveLastTo (h : HeapBut (keyAt key pq.q) i) (hi : i < pq.q.length) :
    HeapBut (keyAt key (pq.moveLastTo i).q) i := by
  have htop : ∀ j, pq.q.length - 1 ≤ j → keyAt key (pq.moveLastTo i).q j = ⊤ := by
    intro j hj
    exact keyAt_of_le (by rw [moveLastTo_length]; exact hj)
  -- the keys other than that at `i` do not become smaller
  have hge : ∀ j, j ≠ i → keyAt key pq.q j ≤ keyAt key (pq.moveLastTo i).q j := by
    intro j hj
    rcases eq_or_ne j (pq.q.length - 1) with rfl | hne
    · exact le_top.trans_eq (htop _ le_rfl).symm
    · rw [keyAt_moveLastTo_of_ne key hi hj hne]
  refine ⟨fun j hj hji hpar => ?_, fun hpos j hj hpar => ?_⟩
  · have hlt := parent_lt hj
    rcases Nat.lt_or_ge (parent j) (pq.q.length - 1) with hp | hp
    · rw [keyAt_moveLastTo_of_ne key hi hpar hp.ne]
      exact (h.off j hj hji hpar).trans (hge j hji)
    · rw [htop j (by omega)]
      exact le_top
  · have hlt := parent_lt hj
    have hlt' := parent_lt hpos
    rw [keyAt_moveLastTo_of_ne key hi (by omega) (by omega)]
    exact (h.around hpos j hj hpar).trans (hge j (by omega))

/-- What `nghttp2_pq_remove` does, away from both ends of the array. -/
theorem remove_eq (hidx : pq.Indexed) (hi : pq.q[i]? = some item) (h0 : i ≠ 0)
    (hn : i + 1 < pq.q.length) :
    pq.remove (lessBy key) item =
      if keyAt key pq.q i < keyAt key pq.q (pq.q.length - 1) then
        bubbleDown (lessBy key) pq.q.length (pq.moveLastTo i) i
      else bubbleUp (lessBy key) i (pq.moveLastTo i) i := by
  obtain ⟨u, hu⟩ : ∃ u, (pq.moveLastTo i).q[i]? = some u :=
    ⟨_, List.getElem?_eq_getElem (by rw [moveLastTo_length]; omega)⟩
  have hkey : keyAt key pq.q (pq.q.length - 1) = key u := by
    rw [← keyAt_of_getElem? hu, keyAt_moveLastTo_self key pq hn]
  unfold remove
  rw [hidx i item hi, if_neg h0, if_neg (by omega), hkey, keyAt_of_getElem? hi]
  dsimp only
  rw [hu, Option.any_some, lessBy]
  simp only [decide_eq_true_eq, WithTop.coe_lt_coe]

/-- The last entry stays where it was moved to. -/
theorem remove_eq_moveLastTo (hidx : pq.Indexed) (hi : pq.q[i]? = some item) (h0 : i ≠ 0)
    (hn : i + 1 < pq.q.length) (hle : keyAt key pq.q (pq.q.length - 1) ≤ keyAt key pq.q i)
    (hge : keyAt key pq.q (parent i) ≤ keyAt key pq.q (pq.q.length - 1)) :
    pq.remove (lessBy key) item = pq.moveLastTo i := by
  have hpi := parent_lt (Nat.pos_of_ne_zero h0)
  have hlen := moveLastTo_length pq i
  rw [remove_eq hidx hi h0 hn, if_neg (not_lt.2 hle)]
  have hless : (pq.moveLastTo i).lessAt (lessBy key) i ((i - 1) / 2) = true ↔ _ :=
    lessAt_iff (j := parent i) (by omega)
  rw [keyAt_moveLastTo_self key pq hn, keyAt_moveLastTo_of_ne key (by omega) hpi.ne
    (by omega)] at hless
  cases i with
  | zero => exact absurd rfl h0
  | succ n => rw [bubbleUp, if_neg h0, if_neg fun h => absurd (hless.1 h) (not_lt.2 hge)]

/-- **`nghttp2_pq_remove`**, where the key of the entry has been changed, leaves a heap just if the
last entry can take the place. -/
theorem remove_isHeap_iff (hidx : pq.Indexed) (hi : pq.q[i]? = some item)
    (hbut : HeapBut (keyAt key pq.q) i) :
    IsHeap (keyAt key (pq.remove (lessBy key) item).q) ↔
      Replaceable (keyAt key pq.q) pq.q.length i := by
  have hlt : i < pq.q.length := (List.getElem?_eq_some_iff.1 hi).1
  have hbut' := hbut.moveLastTo hlt
  have hlen := moveLastTo_length pq i
  rcases eq_or_ne i 0 with rfl | h0
  · -- `nghttp2_pq_pop`
    have hpop : pq.remove (lessBy key) item = bubbleDown (lessBy key) pq.q.length
        (pq.moveLastTo 0) 0 := by
      rw [remove, hidx 0 item hi, if_pos rfl, pop, if_pos hlt]
    rw [hpop]
    exact ⟨fun _ => Or.inl rfl, fun _ =>
      bubbleDown_isHeap (by rw [hlen]; omega) hbut' fun h => absurd h (lt_irrefl 0)⟩
  rcases eq_or_ne (i + 1) pq.q.length with hn | hn
  · -- the last entry
    have hlast : (pq.remove (lessBy key) item).q = pq.q.dropLast := by
      rw [remove, hidx i item hi, if_neg h0, if_pos (by omega)]
    rw [hlast]
    refine ⟨fun _ => Or.inr (Or.inl hn), fun _ j hj => ?_⟩
    have hpar := parent_lt hj
    rcases Nat.lt_or_ge j i with hji | hji
    · rw [keyAt, keyAt, List.getElem?_dropLast, List.getElem?_dropLast, if_pos (by omega),
        if_pos (by omega)]
      exact hbut.off j hj hji.ne (by omega)
    · rw [keyAt_of_le (show pq.q.dropLast.length ≤ j by rw [List.length_dropLast]; omega)]
      exact le_top
  have hpos : 0 < i := Nat.pos_of_ne_zero h0
  have hpi := parent_lt hpos
  -- the keys around slot `i`
  have hself := keyAt_moveLastTo_self key pq (i := i) (by omega)
  have hpar := keyAt_moveLastTo_of_ne key hlt (j := parent i) (by omega) (by omega)
  unfold Replaceable
  rcases lt_or_ge (keyAt key pq.q i) (keyAt key pq.q (pq.q.length - 1)) with hdown | hle
  · rw [remove_eq hidx hi h0 (by omega), if_pos hdown]
    constructor
    · intro hheap
      refine Or.inr (Or.inr (Or.inl ⟨hdown, not_lt.1 fun hlt => ?_⟩))
      -- nothing below slot `i` is smaller, so the entry stays there, below a larger one
      have hstay : bubbleDown (lessBy key) pq.q.length (pq.moveLastTo i) i = pq.moveLastTo i := by
        obtain ⟨n, hn'⟩ : ∃ n, pq.q.length = n + 1 := ⟨pq.q.length - 1, by omega⟩
        rw [hn', bubbleDown, if_pos]
        refine (minIndex_spec key (pq.moveLastTo i) (by omega)).1.resolve_right ?_
        rintro ⟨hm, hpm, hltm⟩
        have hle := hbut'.around hpos _ hm hpm
        rw [hpar] at hle
        rw [hself] at hltm
        exact absurd (hle.trans_lt hltm) (not_lt.2 hlt.le)
      rw [hstay] at hheap
      have hle := hheap i hpos
      rw [hself, hpar] at hle
      exact absurd hlt (not_lt.2 hle)
    · rintro (h | h | ⟨-, hle⟩ | ⟨hle, -⟩)
      · exact absurd h h0
      · exact absurd h hn
      · exact bubbleDown_isHeap (by omega) hbut' fun _ => by rwa [hself, hpar]
      · exact absurd hdown (not_lt.2 hle)
  rcases lt_or_ge (keyAt key pq.q (pq.q.length - 1)) (keyAt key pq.q (parent i)) with hlt' | hge
  · -- smaller than the entry above, so smaller than those below
    refine ⟨fun _ => Or.inr (Or.inr (Or.inr ⟨hle, Or.inl hlt'⟩)), fun _ => ?_⟩
    rw [remove_eq hidx hi h0 (by omega), if_neg (not_lt.2 hle)]
    refine bubbleUp_isHeap le_rfl (by omega) hbut' fun j hj hji => ?_
    have hle' := hbut'.around hpos j hj hji
    rw [hpar] at hle'
    rw [hself]
    exact hlt'.le.trans hle'
  rw [remove_eq_moveLastTo hidx hi h0 (by omega) hle hge]
  constructor
  · intro hheap
    refine Or.inr (Or.inr (Or.inr ⟨hle, Or.inr fun j hj hji hne => ?_⟩))
    have hij := parent_lt hj
    have hle' := hheap j hj
    rwa [hji, hself, keyAt_moveLastTo_of_ne key hlt (by omega) hne] at hle'
  rintro (h | h | ⟨hlt', -⟩ | ⟨-, hlt' | hlow⟩)
  · exact absurd h h0
  · exact absurd h hn
  · exact absurd hlt' (not_lt.2 hle)
  · exact absurd hlt' (not_lt.2 hge)
  refine hbut'.isHeap (fun _ => by rwa [hself, hpar]) fun j hj hji => ?_
  have hij := parent_lt hj
  rw [hself]
  rcases eq_or_ne j (pq.q.length - 1) with rfl | hne
  · rw [keyAt_of_le (show (pq.moveLastTo i).q.length ≤ pq.q.length - 1 from hlen.le)]
    exact le_top
  · rw [keyAt_moveLastTo_of_ne key hlt (by omega) hne]
    exact hlow j hj hji hne

/-- Without a change of keys, `nghttp2_pq_remove` keeps the heap. -/
theorem remove_isHeap (pq : Pq α) (hidx : pq.Indexed) (hi : pq.q[i]? = some item)
    (h : IsHeap (keyAt key pq.q)) : IsHeap (keyAt key (pq.remove (lessBy key) item).q) :=
  (remove_isHeap_iff hidx hi (h.but i)).2 (h.replaceable _ _)

/-- **An entry whose key has grown** is taken out and pushed again. -/
theorem remove_push_isHeap_iff (hidx : pq.Indexed) (hi : pq.q[i]? = some item)
    (hbut : HeapBut (keyAt key pq.q) i)
    (hup : 0 < i → keyAt key pq.q (parent i) ≤ keyAt key pq.q i) :
    IsHeap (keyAt key ((pq.remove (lessBy key) item).push (lessBy key) item).q) ↔
      Replaceable (keyAt key pq.q) pq.q.length i := by
  refine ⟨fun hheap => ?_, fun h => push_isHeap _ ((remove_isHeap_iff hidx hi hbut).2 h) item⟩
  have hlt : i < pq.q.length := (List.getElem?_eq_some_iff.1 hi).1
  have hitem : keyAt key pq.q i = key item := keyAt_of_getElem? hi
  rcases eq_or_ne i 0 with rfl | h0
  · exact Or.inl rfl
  rcases eq_or_ne (i + 1) pq.q.length with hn | hn
  · exact Or.inr (Or.inl hn)
  have hpos : 0 < i := Nat.pos_of_ne_zero h0
  rcases lt_or_ge (keyAt key pq.q i) (keyAt key pq.q (pq.q.length - 1)) with hdown | hle
  · exact Or.inr (Or.inr (Or.inl ⟨hdown, (hup hpos).trans hdown.le⟩))
  refine Or.inr (Or.inr (Or.inr ⟨hle, or_iff_not_imp_left.2 fun hge j hj hji hne => ?_⟩))
  -- the last entry stays at slot `i`, and the push touches neither it nor a smaller one below it
  by_contra hlow
  have hij := parent_lt hj
  have hlen := moveLastTo_length pq i
  have hrem := remove_eq_moveLastTo hidx hi h0 (by omega) hle (not_lt.1 hge)
  have hself := keyAt_moveLastTo_self key pq (i := i) (by omega)
  have hchild := keyAt_moveLastTo_of_ne key hlt (j := j) (by omega) hne
  have hjlen : j < pq.q.length := lt_of_keyAt_lt (not_le.1 hlow)
  have hheap' := hheap j hj
  rw [hrem, hji, keyAt_push (by omega) (by rwa [hself, ← hitem]),
    keyAt_push (by omega) (by rw [hchild, ← hitem]; exact (not_le.1 hlow).le.trans hle), hself,
    hchild] at hheap'
  exact hlow hheap'

end Arrays

end Nghttp2.Pq
