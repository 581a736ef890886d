/-
# Forests given by parent pointers

A forest is a function `parent : α → Option α`.

* `Child parent p c`: `c` points to `p`;
* `Above parent a x`: `a` lies on the parent chain of `x`, `x` itself included;
* `Grounded parent`: every parent chain ends, so there are no cycles;
* `grounded_of_changed` and `acc_of_agree`: the rule by which all relinking
  operations are shown to keep a forest grounded.  Only the nodes whose pointer
  changed need an argument, namely that the chain of their new parent ends;
* `above_attach`, `above_insert`, `above_release`, `above_detach`: what lies below a
  node after a relinking operation;
* `BoundedPaths r n x`: no path of `r` from `x` takes more than `n` steps, the
  form in which the bound on the number of loop turns is used, upwards and
  downwards (`boundedPaths_of_finite`).
-/
import Mathlib.Tactic

namespace ParentForest

variable {α : Type*}

/-- `c` points to its parent `p`. -/
def Child (parent : α → Option α) (p c : α) : Prop := parent c = some p

/-- `a` lies on the parent chain of `x`, possibly `x` itself. -/
def Above (parent : α → Option α) : α → α → Prop := Relation.ReflTransGen (Child parent)

/-- Every parent chain ends. -/
def Grounded (parent : α → Option α) : Prop := WellFounded (Child parent)

variable {parent parent' : α → Option α} {a c d p x : α}

theorem Above.refl (x : α) : Above parent x x := Relation.ReflTransGen.refl

theorem Above.tail (h : Above parent a p) (hc : parent c = some p) : Above parent a c :=
  Relation.ReflTransGen.tail h hc

theorem Above.trans {b : α} (hab : Above parent a b) (hbx : Above parent b x) :
    Above parent a x := Relation.ReflTransGen.trans hab hbx

/-- The chain of a node is the node followed by the chain of its parent. -/
theorem above_iff : Above parent a x ↔ a = x ∨ ∃ p, parent x = some p ∧ Above parent a p := by
  constructor
  · intro h
    rcases Relation.ReflTransGen.cases_tail h with hax | ⟨p, hp, hx⟩
    · exact Or.inl hax.symm
    · exact Or.inr ⟨p, hx, hp⟩
  · rintro (rfl | ⟨p, hx, hp⟩)
    · exact Above.refl _
    · exact hp.tail hx

/-- From above, a node is reached through one of its children. -/
theorem above_iff_head : Above parent a x ↔ a = x ∨ ∃ c, parent c = some a ∧ Above parent c x := by
  constructor
  · intro h
    rcases Relation.ReflTransGen.cases_head h with hax | ⟨c, hc, hx⟩
    · exact Or.inl hax
    · exact Or.inr ⟨c, hc, hx⟩
  · rintro (rfl | ⟨c, hc, hx⟩)
    · exact Above.refl _
    · exact Relation.ReflTransGen.head hc hx

/-- Two nodes above a third are above one another. -/
theorem Above.total {b : α} (ha : Above parent a x) (hb : Above parent b x) :
    Above parent a b ∨ Above parent b a := by
  induction ha with
  | refl => exact Or.inr hb
  | tail hap hpc ih =>
    rcases above_iff.1 hb with rfl | ⟨q, hq, hbq⟩
    · exact Or.inl (hap.tail hpc)
    · have hpq : some _ = some q := hpc.symm.trans hq
      rw [Option.some.injEq] at hpq
      exact ih (hpq ▸ hbq)

/-- In a grounded forest no node lies above its own parent. -/
theorem Grounded.not_above_parent (h : Grounded parent) (hc : parent c = some p) :
    ¬ Above parent c p := by
  intro hcp
  have hcycle : Relation.TransGen (Child parent) c c := Relation.TransGen.tail' hcp hc
  exact h.transGen.irrefl.irrefl c hcycle

theorem Grounded.ne_parent (h : Grounded parent) (hc : parent c = some p) : c ≠ p := by
  rintro rfl
  exact h.not_above_parent hc (Above.refl _)

/-! ## Relinking -/

/-- If the pointers on the chain of `d` did not change, the new chain of `d` ends. -/
theorem acc_of_agree (h : Grounded parent) (hd : ∀ a, Above parent a d → parent' a = parent a) :
    Acc (Child parent') d := by
  induction d using h.induction with
  | _ d ih =>
    refine Acc.intro _ fun p hp => ?_
    have hdp : parent d = some p := (hd d (Above.refl d)).symm.trans hp
    exact ih p hdp fun a ha => hd a (ha.tail hdp)

/-- If the pointers on the chain of `d` did not change, its chain did not change. -/
theorem above_iff_of_agree (hd : ∀ a, Above parent a d → parent' a = parent a) :
    Above parent' a d ↔ Above parent a d := by
  constructor
  · intro h
    induction h using Relation.ReflTransGen.head_induction_on with
    | refl => exact Above.refl d
    | head hab _ ih =>
      exact Relation.ReflTransGen.head ((hd _ ih).symm.trans hab) ih
  · intro h
    induction h using Relation.ReflTransGen.head_induction_on with
    | refl => exact Above.refl d
    | head hab hbd ih => exact Relation.ReflTransGen.head ((hd _ hbd).trans hab) ih

/-- A description of the nodes below `a` that is right at `a` and one step down from
any described node is right. -/
theorem above_iff_of_step (h : Grounded parent) {Q : α → Prop} (ha : Q a)
    (hstep : ∀ x, x ≠ a → (Q x ↔ ∃ p, parent x = some p ∧ Q p)) : Above parent a x ↔ Q x := by
  induction x using h.induction with
  | _ x ih =>
    rcases eq_or_ne x a with rfl | hxa
    · exact ⟨fun _ => ha, fun _ => Above.refl x⟩
    · rw [hstep x hxa, above_iff]
      constructor
      · rintro (hax | ⟨p, hp, hap⟩)
        · exact absurd hax.symm hxa
        · exact ⟨p, hp, (ih p hp).1 hap⟩
      · rintro ⟨p, hp, hQ⟩
        exact Or.inr ⟨p, hp, (ih p hp).2 hQ⟩

/-- **Relinking rule**: a forest stays grounded when every node keeps its parent,
loses it, or gets one whose new chain ends. -/
theorem grounded_of_changed (h : Grounded parent)
    (hch : ∀ c p, parent' c = some p → parent c = some p ∨ Acc (Child parent') p) :
    Grounded parent' := by
  refine ⟨fun x => ?_⟩
  induction x using h.induction with
  | _ x ih =>
    refine Acc.intro _ fun p hp => ?_
    rcases hch x p hp with hold | hacc
    · exact ih p hold
    · exact hacc

/-! ## What lies below a node after relinking -/

section Relink

variable {y : α}

/-- Attaching `x` below `d` puts `x` and what is below it under every node above `d`. -/
theorem above_attach (h : Grounded parent')
    (hpar : ∀ c q, parent' c = some q ↔ parent c = some q ∨ (c = x ∧ q = d))
    (had : Above parent a d) : Above parent' a y ↔ Above parent a y ∨ Above parent x y := by
  refine above_iff_of_step (Q := fun y => Above parent a y ∨ Above parent x y) h
    (Or.inl (Above.refl a)) fun c hca => ?_
  constructor
  · rintro (hac | hxc)
    · obtain ⟨p, hp, hap⟩ := (above_iff.1 hac).resolve_left (Ne.symm hca)
      exact ⟨p, (hpar c p).2 (Or.inl hp), Or.inl hap⟩
    · rcases above_iff.1 hxc with rfl | ⟨p, hp, hxp⟩
      · exact ⟨d, (hpar x d).2 (Or.inr ⟨rfl, rfl⟩), Or.inl had⟩
      · exact ⟨p, (hpar c p).2 (Or.inl hp), Or.inr hxp⟩
  · rintro ⟨p, hp, hQ⟩
    rcases (hpar c p).1 hp with hp | ⟨rfl, rfl⟩
    · exact hQ.imp (fun h => h.tail hp) fun h => h.tail hp
    · exact Or.inr (Above.refl c)

/-- Inserting `x` between `d` and the children of `d`. -/
theorem above_insert (h : Grounded parent')
    (hpar : ∀ c q, parent' c = some q ↔
      (c = x ∧ q = d) ∨ (q = x ∧ parent c = some d) ∨ (q ≠ d ∧ parent c = some q))
    (had : Above parent a d) :
    Above parent' a y ↔ Above parent a y ∨ Above parent x y := by
  -- a child of `d` goes below `x`, every other node keeps its parent
  have hold : ∀ {c p}, parent c = some p → (Above parent a p ∨ Above parent x p) →
      ∃ q, parent' c = some q ∧ (Above parent a q ∨ Above parent x q) := by
    intro c p hp hQ
    rcases eq_or_ne p d with rfl | hpd
    · exact ⟨x, (hpar c x).2 (Or.inr (Or.inl ⟨rfl, hp⟩)), Or.inr (Above.refl x)⟩
    · exact ⟨p, (hpar c p).2 (Or.inr (Or.inr ⟨hpd, hp⟩)), hQ⟩
  refine above_iff_of_step (Q := fun y => Above parent a y ∨ Above parent x y) h
    (Or.inl (Above.refl a)) fun c hca => ?_
  constructor
  · rintro (hac | hxc)
    · obtain ⟨p, hp, hap⟩ := (above_iff.1 hac).resolve_left (Ne.symm hca)
      exact hold hp (Or.inl hap)
    · rcases above_iff.1 hxc with rfl | ⟨p, hp, hxp⟩
      · exact ⟨d, (hpar x d).2 (Or.inl ⟨rfl, rfl⟩), Or.inl had⟩
      · exact hold hp (Or.inr hxp)
  · rintro ⟨p, hp, hQ⟩
    rcases (hpar c p).1 hp with ⟨rfl, rfl⟩ | ⟨rfl, hp⟩ | ⟨-, hp⟩
    · exact Or.inr (Above.refl c)
    · exact Or.inl (had.tail hp)
    · exact hQ.imp (fun h => h.tail hp) fun h => h.tail hp

/-- Replacing `x` by its children below its parent `p`. -/
theorem above_release (h : Grounded parent') (hground : Grounded parent)
    (hpar : ∀ c q, parent' c = some q ↔
      (q = p ∧ parent c = some x) ∨ (q ≠ x ∧ c ≠ x ∧ parent c = some q))
    (hx : parent x = some p) (hax : a ≠ x) :
    Above parent' a y ↔ Above parent a y ∧ y ≠ x := by
  have hpx : p ≠ x := (hground.ne_parent hx).symm
  refine above_iff_of_step (Q := fun y => Above parent a y ∧ y ≠ x) h ⟨Above.refl a, hax⟩
    fun c hca => ?_
  constructor
  · rintro ⟨hac, hcx⟩
    obtain ⟨q, hq, haq⟩ := (above_iff.1 hac).resolve_left (Ne.symm hca)
    rcases eq_or_ne q x with rfl | hqx
    · obtain ⟨r, hr, har⟩ := (above_iff.1 haq).resolve_left hax
      obtain rfl : p = r := Option.some.inj (hx.symm.trans hr)
      exact ⟨p, (hpar c p).2 (Or.inl ⟨rfl, hq⟩), har, hpx⟩
    · exact ⟨q, (hpar c q).2 (Or.inr ⟨hqx, hcx, hq⟩), haq, hqx⟩
  · rintro ⟨q, hq, haq, hqx⟩
    rcases (hpar c q).1 hq with ⟨rfl, hc⟩ | ⟨-, hcx, hc⟩
    · exact ⟨(haq.tail hx).tail hc, hground.ne_parent hc⟩
    · exact ⟨haq.tail hc, hcx⟩

/-- Cutting off `x` takes `x` and what is below it away. -/
theorem above_detach (h : Grounded parent')
    (hpar : ∀ c q, parent' c = some q ↔ c ≠ x ∧ parent c = some q) (hxa : ¬ Above parent x a) :
    Above parent' a y ↔ Above parent a y ∧ ¬ Above parent x y := by
  refine above_iff_of_step (Q := fun y => Above parent a y ∧ ¬ Above parent x y) h
    ⟨Above.refl a, hxa⟩ fun c hca => ?_
  constructor
  · rintro ⟨hac, hxc⟩
    obtain ⟨q, hq, haq⟩ := (above_iff.1 hac).resolve_left (Ne.symm hca)
    have hcx : c ≠ x := fun hcx => hxc (hcx ▸ Above.refl c)
    exact ⟨q, (hpar c q).2 ⟨hcx, hq⟩, haq, fun hxq => hxc (hxq.tail hq)⟩
  · rintro ⟨q, hq, haq, hxq⟩
    obtain ⟨hcx, hc⟩ := (hpar c q).1 hq
    refine ⟨haq.tail hc, fun hxc => ?_⟩
    rcases above_iff.1 hxc with hxc | ⟨r, hr, hxr⟩
    · exact hcx hxc.symm
    · exact hxq (Option.some.inj (hr.symm.trans hc) ▸ hxr)

end Relink

/-! ## Bounds on the length of paths -/

/-- Every path of `r` from `x` takes at most `n` steps. -/
def BoundedPaths (r : α → α → Prop) : ℕ → α → Prop
  | 0, x => ∀ y, ¬ r x y
  | n + 1, x => ∀ y, r x y → BoundedPaths r n y

/-- Without cycles, the paths that stay in a finite set are no longer than the set. -/
theorem boundedPaths_of_finite [DecidableEq α] {r : α → α → Prop}
    (hacyclic : ∀ x, ¬ Relation.TransGen r x x) (S : Finset α)
    (hS : ∀ y, Relation.TransGen r x y → y ∈ S) : BoundedPaths r S.card x := by
  induction hn : S.card generalizing x S with
  | zero =>
    intro y hy
    have hmem := hS y (Relation.TransGen.single hy)
    rw [Finset.card_eq_zero.1 hn] at hmem
    exact absurd hmem (Finset.notMem_empty y)
  | succ n ih =>
    intro y hy
    have hmem := hS y (Relation.TransGen.single hy)
    refine ih (S.erase y) (fun z hz => ?_) (by rw [Finset.card_erase_of_mem hmem, hn]; rfl)
    refine Finset.mem_erase.2 ⟨?_, hS z (Relation.TransGen.head hy hz)⟩
    rintro rfl
    exact hacyclic z hz

theorem Grounded.acyclic (h : Grounded parent) (x : α) :
    ¬ Relation.TransGen (Child parent) x x := h.transGen.irrefl.irrefl x

/-- Upward paths in a grounded forest whose inner nodes lie in a finite set. -/
theorem Grounded.boundedPaths_up [DecidableEq α] (h : Grounded parent) (S : Finset α)
    (hS : ∀ c p, parent c = some p → p ∈ S) (x : α) :
    BoundedPaths (fun c p => parent c = some p) S.card x := by
  refine boundedPaths_of_finite (fun y hy => h.acyclic y (Relation.transGen_swap.1 hy)) S ?_
  intro y hy
  obtain ⟨c, -, hc⟩ := Relation.TransGen.tail'_iff.1 hy
  exact hS c y hc

/-- If the pointers on the chain of `d` did not change, it is as short as before. -/
theorem BoundedPaths.up_of_agree {n : ℕ} (h : BoundedPaths (fun c p => parent c = some p) n d)
    (hd : ∀ a, Above parent a d → parent' a = parent a) :
    BoundedPaths (fun c p => parent' c = some p) n d := by
  induction n generalizing d with
  | zero => exact fun p hp => h p ((hd d (Above.refl d)).symm.trans hp)
  | succ n ih =>
    intro p hp
    have hdp : parent d = some p := (hd d (Above.refl d)).symm.trans hp
    exact ih (h p hdp) fun a ha => hd a (ha.tail hdp)

/-- Downward paths in a grounded forest whose non-roots lie in a finite set. -/
theorem Grounded.boundedPaths_down [DecidableEq α] (h : Grounded parent) (S : Finset α)
    (hS : ∀ c p, parent c = some p → c ∈ S) (x : α) :
    BoundedPaths (Child parent) S.card x := by
  refine boundedPaths_of_finite h.acyclic S ?_
  intro y hy
  obtain ⟨p, -, hp⟩ := Relation.TransGen.tail'_iff.1 hy
  exact hS y p hp

end ParentForest
