/-
# The dependency tree

`DepTree dep kids allocated` is the representation invariant of the dependency
fields: `kids p` lists the children of `p` in sibling order, and

* `dep_next` points to the first child, `sib_prev` and `sib_next` link the children
  as a doubly linked list, and `dep_prev` of a stream is the parent it is a child of;
* parent chains end;
* every weight is in `[1, 256]` and `sum_dep_weight` is the sum of the weights of
  the children.

Each dependency operation is described by what it does to `kids`:
`attachFront` (`dep_add`, `dep_add_subtree`), `insertAbove` (`dep_insert`,
`dep_insert_subtree`), `splice` (`dep_remove`) and `cutSubtree`
(`dep_remove_subtree`).
-/
import Nghttp2.Scheduler

namespace Nghttp2

open LinkedChain ParentForest
open Function (update update_apply update_eq_self update_of_ne update_self)

/-- The pointer fields represent a forest in which `kids p` are the children of `p`. -/
structure DepShape (dep : DepLinks) (kids : Ptr → List Ptr) (allocated : ℕ) : Prop where
  head : ∀ p, dep.depNext p = (kids p).head?
  seg : ∀ p, Seg dep.sibNext dep.sibPrev none (kids p) none
  nodup : ∀ p, (kids p).Nodup
  mem_kids : ∀ {p c}, c ∈ kids p ↔ dep.depPrev c = some p
  detached : ∀ {c}, dep.depPrev c = none → dep.sibPrev c = none ∧ dep.sibNext c = none
  rooted : Rooted dep allocated

/-- **Representation invariant of the dependency fields**: pointers and weights. -/
structure DepTree (dep : DepLinks) (kids : Ptr → List Ptr) (allocated : ℕ) : Prop
    extends DepShape dep kids allocated where
  sum : ∀ p, dep.sumDepWeight p = ((kids p).map dep.weight).sum
  weight : ∀ {x}, x < allocated → 1 ≤ dep.weight x ∧ dep.weight x ≤ 256

variable {dep : DepLinks} {kids : Ptr → List Ptr} {N : ℕ} {c d p x : Ptr}

variable {dep' : DepLinks} {ks : List Ptr} {prev : Ptr → Option Ptr} {turns : ℕ}

namespace DepShape

theorem notMem_of_ne (h : DepShape dep kids N) (hc : c ∈ kids d) (hp : p ≠ d) : c ∉ kids p := by
  intro hc'
  rw [h.mem_kids] at hc hc'
  rw [hc, Option.some.injEq] at hc'
  exact hp hc'.symm

theorem notMem_of_detached (h : DepShape dep kids N) (hx : dep.depPrev x = none) (p : Ptr) :
    x ∉ kids p := by
  simp [h.mem_kids, hx]

theorem length_le (h : DepShape dep kids N) (p : Ptr) : (kids p).length ≤ N := by
  rw [← List.toFinset_card_of_nodup (h.nodup p), ← Finset.card_range N]
  refine Finset.card_le_card fun c hc => ?_
  rw [List.mem_toFinset, h.mem_kids] at hc
  exact Finset.mem_range.2 (h.rooted.lt_allocated hc).1

/-- The weight fields play no part in the shape. -/
theorem of_links (h : DepShape dep kids N) (hprev : dep'.depPrev = dep.depPrev)
    (hnext : dep'.depNext = dep.depNext) (hsp : dep'.sibPrev = dep.sibPrev)
    (hsn : dep'.sibNext = dep.sibNext) : DepShape dep' kids N where
  head p := by rw [hnext]; exact h.head p
  seg p := by rw [hsn, hsp]; exact h.seg p
  nodup := h.nodup
  mem_kids := by rw [hprev]; exact h.mem_kids
  detached := by rw [hprev, hsp, hsn]; exact h.detached
  rooted := ⟨by rw [hprev]; exact h.rooted.grounded, by rw [hprev]; exact h.rooted.lt_allocated⟩

end DepShape

/-! ## The link primitives -/

section Links

variable (dep : DepLinks) (a : Ptr) (b : Option Ptr)

@[simp] theorem linkSib_sibNext : (linkSib dep a b).sibNext = update dep.sibNext a b := by
  cases b <;> rfl

@[simp] theorem linkSib_depPrev : (linkSib dep a b).depPrev = dep.depPrev := by cases b <;> rfl

@[simp] theorem linkSib_depNext : (linkSib dep a b).depNext = dep.depNext := by cases b <;> rfl

@[simp] theorem linkSib_weight : (linkSib dep a b).weight = dep.weight := by cases b <;> rfl

@[simp] theorem linkSib_sumDepWeight : (linkSib dep a b).sumDepWeight = dep.sumDepWeight := by
  cases b <;> rfl

@[simp] theorem linkDep_depNext : (linkDep dep a b).depNext = update dep.depNext a b := by
  cases b <;> rfl

@[simp] theorem linkDep_sibPrev : (linkDep dep a b).sibPrev = dep.sibPrev := by cases b <;> rfl

@[simp] theorem linkDep_sibNext : (linkDep dep a b).sibNext = dep.sibNext := by cases b <;> rfl

@[simp] theorem linkDep_weight : (linkDep dep a b).weight = dep.weight := by cases b <;> rfl

@[simp] theorem linkDep_sumDepWeight : (linkDep dep a b).sumDepWeight = dep.sumDepWeight := by
  cases b <;> rfl

theorem linkSib_sibPrev_of_ne {c : Ptr} (hc : b ≠ some c) :
    (linkSib dep a b).sibPrev c = dep.sibPrev c := by
  cases b with
  | none => rfl
  | some b => exact update_of_ne (fun hcb => hc (congrArg some hcb.symm)) _ _

end Links

variable {l l1 l2 : List Ptr} {a : Ptr} {q q1 : Option Ptr}

/-- `link_sib` of the last of one chain and the first of another joins the chains. -/
theorem seg_linkSib {p p2 : Option Ptr} (h1 : Seg dep.sibNext dep.sibPrev p (l1 ++ [a]) q1)
    (h2 : Seg dep.sibNext dep.sibPrev p2 l2 none) (hnodup : ((l1 ++ [a]) ++ l2).Nodup) :
    Seg (linkSib dep a l2.head?).sibNext (linkSib dep a l2.head?).sibPrev p
      ((l1 ++ [a]) ++ l2) none := by
  cases l2 with
  | nil =>
    have ha : a ∉ l1 := by
      rw [List.append_nil, List.nodup_append'] at hnodup
      exact fun ha => hnodup.2.2 ha (by simp)
    simpa [linkSib, DepLinks.setSibNextOf] using seg_update_next_last (v := none) ha h1
  | cons b l2 => exact seg_join h1 h2 hnodup

/-- `link_sib` leaves chains alone that contain neither of the two streams. -/
theorem seg_linkSib_frame {p : Option Ptr} {b : Option Ptr} (ha : a ∉ l) (hb : ∀ c ∈ b, c ∉ l) :
    Seg (linkSib dep a b).sibNext (linkSib dep a b).sibPrev p l q ↔
      Seg dep.sibNext dep.sibPrev p l q := by
  refine seg_congr (fun c hc => ?_) (fun c hc => linkSib_sibPrev_of_ne _ _ _ fun hbc => hb c hbc hc)
  rw [linkSib_sibNext, update_of_ne (ne_of_mem_of_not_mem hc ha)]

/-- The `dep_prev` field of all streams of `l` is `v`. -/
def DepLinks.setDepPrevs (dep : DepLinks) (l : List Ptr) (v : Option Ptr) : DepLinks :=
  { dep with depPrev := fun c => if c ∈ l then v else dep.depPrev c }

theorem foldl_setDepPrevOf (v : Option Ptr) :
    l.foldl (fun dep si => dep.setDepPrevOf si v) dep = dep.setDepPrevs l v := by
  induction l generalizing dep with
  | nil => simp [DepLinks.setDepPrevs]
  | cons x l ih =>
    rw [List.foldl_cons, ih]
    simp only [DepLinks.setDepPrevs, DepLinks.setDepPrevOf, List.mem_cons, update_apply]
    congr 1
    funext c
    split_ifs <;> tauto

/-- `set_dep_prev` writes the `dep_prev` field of a whole sibling list. -/
theorem setDepPrev_eq (h : Seg dep.sibNext prev q l none) (hn : l.length ≤ turns) (v : Option Ptr) :
    setDepPrev dep turns l.head? v = dep.setDepPrevs l v :=
  (forChain_eq_foldl DepLinks.sibNext (fun dep si => dep.setDepPrevOf si v) (fun _ _ => rfl)
    h hn).trans (foldl_setDepPrevOf v)

theorem streamLastSib_eq {n : ℕ} (h : Seg dep.sibNext prev q (l ++ [a]) none) (hn : l.length ≤ n)
    {x : Ptr} (hx : (l ++ [a]).head? = some x) : streamLastSib dep n x = a := by
  induction l generalizing n q x with
  | nil =>
    simp only [List.nil_append, List.head?_cons, Option.some.injEq] at hx
    subst hx
    have hnext : dep.sibNext a = none := (seg_singleton.1 h).2
    cases n <;> simp [streamLastSib, hnext]
  | cons y l ih =>
    simp only [List.cons_append, List.head?_cons, Option.some.injEq] at hx
    subst hx
    rw [List.cons_append, seg_cons] at h
    obtain ⟨-, hnext, hrest⟩ := h
    cases n with
    | zero => simp at hn
    | succ n =>
      obtain ⟨z, hz⟩ : ∃ z, (l ++ [a]).head? = some z := by
        cases l <;> simp
      rw [Option.or_none, hz] at hnext
      rw [streamLastSib, hnext]
      exact ih hrest (by simpa using hn) hz

/-! ## Attaching as the first child -/

/-- The linking part of `nghttp2_stream_dep_add` and `nghttp2_stream_dep_add_subtree`. -/
def linkFront (dep : DepLinks) (d x : Ptr) : DepLinks :=
  if (dep.depNext d).isNone then linkDep dep d (some x) else insertLinkDep dep d x

/-- With or without a first child, the outcome is that of `insert_link_dep`. -/
theorem linkFront_eq (hx : dep.sibNext x = none) :
    linkFront dep d x = linkDep (linkSib dep x (dep.depNext d)) d (some x) := by
  unfold linkFront insertLinkDep
  split
  next hd =>
    rw [Option.isNone_iff_eq_none] at hd
    have hself : linkSib dep x none = dep := by
      simp only [linkSib, DepLinks.setSibNextOf, ← hx, update_eq_self]
    rw [hd, hself]
  next => rfl

/-- A detached stream can be attached below any stream that is not under it. -/
theorem Rooted.attach (h : Rooted dep N) (hxd : ¬ Above dep.depPrev x d) (hx : x < N) (hd : d < N)
    (hprev : dep'.depPrev = update dep.depPrev x (some d)) : Rooted dep' N := by
  have hne : ∀ a, Above dep.depPrev a d → a ≠ x := by
    rintro a ha rfl
    exact hxd ha
  refine ⟨?_, fun {c p} hc => ?_⟩
  · refine grounded_of_changed h.grounded fun c p hc => ?_
    rw [hprev] at hc ⊢
    rcases eq_or_ne c x with rfl | hcx
    · rw [update_self, Option.some.injEq] at hc
      subst hc
      exact Or.inr (acc_of_agree h.grounded fun a ha => update_of_ne (hne a ha) _ _)
    · rw [update_of_ne hcx] at hc
      exact Or.inl hc
  · rw [hprev] at hc
    rcases eq_or_ne c x with rfl | hcx
    · rw [update_self, Option.some.injEq] at hc
      exact ⟨hx, hc ▸ hd⟩
    · rw [update_of_ne hcx] at hc
      exact h.lt_allocated hc

/-- **Attaching a detached stream, with its subtree, as the first child of `d`.** -/
theorem DepShape.attachFront (h : DepShape dep kids N) (hx : dep.depPrev x = none)
    (hxd : ¬ Above dep.depPrev x d) (hxN : x < N) (hdN : d < N) :
    DepShape (linkFront dep d x) (update kids d (x :: kids d)) N := by
  have hnot := h.notMem_of_detached hx
  obtain ⟨hsp, hsn⟩ := h.detached hx
  rw [linkFront_eq hsn, h.head d]
  have hprev : (linkDep (linkSib dep x (kids d).head?) d (some x)).depPrev =
      update dep.depPrev x (some d) := by
    simp [linkDep, DepLinks.setDepPrevOf, DepLinks.setDepNextOf]
  refine ⟨fun p => ?_, fun p => ?_, fun p => ?_, fun {p c} => ?_, fun {c} hc => ?_,
    h.rooted.attach hxd hxN hdN hprev⟩
  · rcases eq_or_ne p d with rfl | hpd
    · simp
    · simpa [update_of_ne hpd] using h.head p
  · rw [linkDep_sibNext, linkDep_sibPrev]
    rcases eq_or_ne p d with rfl | hpd
    · rw [update_self]
      have hx1 : Seg dep.sibNext dep.sibPrev none ([] ++ [x]) none := by simpa using ⟨hsp, hsn⟩
      exact seg_linkSib hx1 (h.seg p) (by simpa using ⟨hnot p, h.nodup p⟩)
    · rw [update_of_ne hpd, seg_linkSib_frame (hnot p)]
      · exact h.seg p
      · exact fun b hb => h.notMem_of_ne (List.mem_of_head? hb) hpd
  · rcases eq_or_ne p d with rfl | hpd
    · simpa using ⟨hnot p, h.nodup p⟩
    · simpa [update_of_ne hpd] using h.nodup p
  · rw [hprev]
    rcases eq_or_ne c x with rfl | hcx
    · rcases eq_or_ne p d with rfl | hpd
      · simp
      · simp [update_of_ne hpd, hnot p, hpd.symm]
    · rw [update_of_ne hcx]
      rcases eq_or_ne p d with rfl | hpd
      · simpa [hcx] using h.mem_kids
      · simpa [update_of_ne hpd] using h.mem_kids
  rw [hprev] at hc
  rcases eq_or_ne c x with rfl | hcx
  · simp at hc
  · rw [update_of_ne hcx] at hc
    rw [linkDep_sibNext, linkDep_sibPrev, linkSib_sibNext, update_of_ne hcx,
      linkSib_sibPrev_of_ne]
    · exact h.detached hc
    · exact fun hb => h.notMem_of_detached hc d (List.mem_of_head? hb)

/-! ## Cutting off a subtree -/

/-- Where a child stands among its siblings. -/
theorem DepShape.split (h : DepShape dep kids N) (hx : dep.depPrev x = some p) :
    ∃ l1 l2, kids p = l1 ++ x :: l2 ∧ dep.sibPrev x = l1.getLast? ∧ dep.sibNext x = l2.head? ∧
      Seg dep.sibNext dep.sibPrev none l1 (some x) ∧
        Seg dep.sibNext dep.sibPrev (some x) l2 none := by
  obtain ⟨l1, l2, hl⟩ := List.append_of_mem (h.mem_kids.2 hx)
  have hseg := h.seg p
  rw [hl, seg_append, seg_cons] at hseg
  obtain ⟨h1, hprev, hnext, h2⟩ := hseg
  exact ⟨l1, l2, hl, by simpa using hprev, by simpa using hnext, by simpa using h1, h2⟩

/-- `x->sib_prev = x->sib_next = x->dep_prev = NULL`. -/
def clearUp (dep : DepLinks) (x : Ptr) : DepLinks :=
  ((dep.setSibPrevOf x none).setSibNextOf x none).setDepPrevOf x none

/-- The linking part of `nghttp2_stream_dep_remove_subtree`. -/
def cutLinks (dep : DepLinks) (p x : Ptr) : DepLinks :=
  match dep.sibPrev x with
  | some prev => linkSib dep prev (dep.sibNext x)
  | none =>
    match dep.sibNext x with
    | none => linkDep dep p none
    | some next => (linkDep dep p (some next)).setSibPrevOf next none

theorem Rooted.detach (h : Rooted dep N)
    (hprev : dep'.depPrev = update dep.depPrev x none) : Rooted dep' N := by
  have hold : ∀ c p, dep'.depPrev c = some p → dep.depPrev c = some p := by
    intro c p hc
    rw [hprev] at hc
    rcases eq_or_ne c x with rfl | hcx
    · simp at hc
    · rwa [update_of_ne hcx] at hc
  exact ⟨grounded_of_changed h.grounded fun c p hc => Or.inl (hold c p hc),
    fun {c p} hc => h.lt_allocated (hold c p hc)⟩

/-- `cut` relinks the siblings of `x`, whose list becomes `l`, and nothing else. -/
structure CutsTo (dep cut : DepLinks) (kids : Ptr → List Ptr) (p : Ptr) (l : List Ptr) : Prop where
  depPrev : cut.depPrev = dep.depPrev
  depNext : cut.depNext = Function.update dep.depNext p l.head?
  seg : Seg cut.sibNext cut.sibPrev none l none
  frame : ∀ c, c ∉ kids p → cut.sibNext c = dep.sibNext c ∧ cut.sibPrev c = dep.sibPrev c

theorem DepShape.cutLinks_cutsTo (h : DepShape dep kids N) (hx : dep.depPrev x = some p) :
    CutsTo dep (cutLinks dep p x) kids p ((kids p).erase x) := by
  obtain ⟨l1, l2, hl, hsp, hsn, h1, h2⟩ := h.split hx
  have hnodup := h.nodup p
  have hhead := h.head p
  have hmem : ∀ {c}, c ∈ l1 ++ x :: l2 → dep.depPrev c = some p := by
    intro c hc
    rwa [← hl, h.mem_kids] at hc
  rw [hl] at hnodup hhead
  have herase : (kids p).erase x = l1 ++ l2 := by
    rw [hl, List.erase_append_right _ (by grind), List.erase_cons_head]
  have hnodup' : (l1 ++ l2).Nodup := by grind
  unfold cutLinks
  rw [herase, hsp, hsn]
  rcases List.eq_nil_or_concat l1 with rfl | ⟨l, a, rfl⟩
  · -- `x` is the first child
    cases l2 with
    | nil => exact ⟨rfl, by simp, by simp, fun c _ => ⟨rfl, rfl⟩⟩
    | cons b l =>
      have hb : dep.depPrev b = some p := hmem (by simp)
      refine ⟨?_, by simp [DepLinks.setSibPrevOf], ?_, fun c hc => ⟨rfl, ?_⟩⟩
      · simp [linkDep, DepLinks.setSibPrevOf, DepLinks.setDepPrevOf, DepLinks.setDepNextOf, ← hb]
      · exact seg_update_prev_head (by grind) h2
      · have hcb : c ≠ b := by
          rintro rfl
          exact hc (by rw [hl]; simp)
        simp [DepLinks.setSibPrevOf, update_of_ne hcb]
  -- `x` follows its sibling `a`
  rw [List.concat_eq_append] at *
  rw [List.getLast?_concat]
  dsimp only
  refine ⟨linkSib_depPrev .., ?_, seg_linkSib h1 h2 hnodup', fun c hc => ?_⟩
  · have : (l ++ [a] ++ l2).head? = dep.depNext p := by
      rw [hhead]
      cases l <;> simp
    rw [linkSib_depNext, this, update_eq_self]
  · rw [hl] at hc
    have hca : c ≠ a := by
      rintro rfl
      exact hc (by simp)
    refine ⟨by rw [linkSib_sibNext, update_of_ne hca], linkSib_sibPrev_of_ne _ _ _ ?_⟩
    intro hb
    exact hc (by simp [List.mem_of_head? hb])

/-- **Cutting off a stream with its subtree.** -/
theorem DepShape.cutSubtree (h : DepShape dep kids N) (hx : dep.depPrev x = some p) :
    DepShape (clearUp (cutLinks dep p x) x) (update kids p ((kids p).erase x)) N := by
  have hcut := h.cutLinks_cutsTo hx
  have hxp : x ∈ kids p := h.mem_kids.2 hx
  have hprev : (clearUp (cutLinks dep p x) x).depPrev = update dep.depPrev x none := by
    simp [clearUp, DepLinks.setDepPrevOf, DepLinks.setSibNextOf, DepLinks.setSibPrevOf,
      hcut.depPrev]
  have hclear : ∀ {l : List Ptr}, x ∉ l →
      (Seg (clearUp (cutLinks dep p x) x).sibNext (clearUp (cutLinks dep p x) x).sibPrev none l none
        ↔ Seg (cutLinks dep p x).sibNext (cutLinks dep p x).sibPrev none l none) := by
    intro l hl
    simp [clearUp, DepLinks.setDepPrevOf, DepLinks.setSibNextOf, DepLinks.setSibPrevOf, hl]
  have hxerase : x ∉ (kids p).erase x := (h.nodup p).not_mem_erase
  refine ⟨fun q => ?_, fun q => ?_, fun q => ?_, fun {q c} => ?_, fun {c} hc => ?_,
    h.rooted.detach hprev⟩
  · rw [show (clearUp (cutLinks dep p x) x).depNext = _ from hcut.depNext]
    rcases eq_or_ne q p with rfl | hqp
    · simp
    · simpa [update_of_ne hqp] using h.head q
  · rcases eq_or_ne q p with rfl | hqp
    · rw [update_self, hclear hxerase]
      exact hcut.seg
    · have hxq : x ∉ kids q := h.notMem_of_ne hxp hqp
      have hframe := fun c hc => hcut.frame c (h.notMem_of_ne hc hqp.symm)
      rw [update_of_ne hqp, hclear hxq]
      exact (seg_congr (fun c hc => (hframe c hc).1) (fun c hc => (hframe c hc).2)).2 (h.seg q)
  · rcases eq_or_ne q p with rfl | hqp
    · simpa using (h.nodup q).erase x
    · simpa [update_of_ne hqp] using h.nodup q
  · rw [hprev]
    rcases eq_or_ne c x with rfl | hcx
    · rcases eq_or_ne q p with rfl | hqp
      · simpa using hxerase
      · simpa [update_of_ne hqp] using h.notMem_of_ne hxp hqp
    · rw [update_of_ne hcx]
      rcases eq_or_ne q p with rfl | hqp
      · rw [update_self, List.mem_erase_of_ne hcx]
        exact h.mem_kids
      · rw [update_of_ne hqp]
        exact h.mem_kids
  rw [hprev] at hc
  simp only [clearUp, DepLinks.setDepPrevOf, DepLinks.setSibNextOf, DepLinks.setSibPrevOf]
  rcases eq_or_ne c x with rfl | hcx
  · simp
  · rw [update_of_ne hcx] at hc
    have hframe := hcut.frame c (h.notMem_of_detached hc p)
    rw [update_of_ne hcx, update_of_ne hcx, hframe.1, hframe.2]
    exact h.detached hc

/-! ## Inserting a stream between another and its children -/

/-- `dep'` puts `x` between `d` and the children of `d`, which follow those `x` has. -/
structure InsertsAbove (dep dep' : DepLinks) (kids : Ptr → List Ptr) (d x : Ptr) : Prop where
  depPrev : ∀ c, dep'.depPrev c =
    if c = x then some d else if c ∈ kids d then some x else dep.depPrev c
  depNext : dep'.depNext =
    Function.update (Function.update dep.depNext x (kids x ++ kids d).head?) d (some x)
  seg : Seg dep'.sibNext dep'.sibPrev none (kids x ++ kids d) none
  frame : ∀ c, c ∉ kids x ++ kids d →
    dep'.sibNext c = dep.sibNext c ∧ dep'.sibPrev c = dep.sibPrev c

theorem DepShape.rooted_insertAbove (h : DepShape dep kids N)
    (hins : InsertsAbove dep dep' kids d x) (hxd : ¬ Above dep.depPrev x d) (hxN : x < N)
    (hdN : d < N) : Rooted dep' N := by
  have hagree : ∀ a, Above dep.depPrev a d → dep'.depPrev a = dep.depPrev a := by
    intro a ha
    have hax : a ≠ x := by
      rintro rfl
      exact hxd ha
    have had : a ∉ kids d := fun hk =>
      h.rooted.grounded.not_above_parent (h.mem_kids.1 hk) ha
    rw [hins.depPrev, if_neg hax, if_neg had]
  have hacc_d : Acc (Child dep'.depPrev) d := acc_of_agree h.rooted.grounded hagree
  have hacc_x : Acc (Child dep'.depPrev) x := by
    refine Acc.intro _ fun p hp => ?_
    have hp : dep'.depPrev x = some p := hp
    rw [hins.depPrev, if_pos rfl, Option.some.injEq] at hp
    exact hp ▸ hacc_d
  refine ⟨grounded_of_changed h.rooted.grounded fun c p hc => ?_, fun {c p} hc => ?_⟩
  all_goals
    rw [hins.depPrev] at hc
    split at hc
    next hcx =>
      rw [Option.some.injEq] at hc
      subst hc hcx
      first | exact Or.inr hacc_d | exact ⟨hxN, hdN⟩
    next =>
      split at hc
      next hk =>
        rw [Option.some.injEq] at hc
        subst hc
        first | exact Or.inr hacc_x | exact ⟨(h.rooted.lt_allocated (h.mem_kids.1 hk)).1, hxN⟩
      next => first | exact Or.inl hc | exact h.rooted.lt_allocated hc

/-- **Inserting a detached stream, with its subtree, between `d` and its children.** -/
theorem DepShape.insertAbove (h : DepShape dep kids N) (hins : InsertsAbove dep dep' kids d x)
    (hx : dep.depPrev x = none) (hxd : ¬ Above dep.depPrev x d) (hxN : x < N) (hdN : d < N) :
    DepShape dep' (update (update kids x (kids x ++ kids d)) d [x]) N := by
  have hne : x ≠ d := by
    rintro rfl
    exact hxd (Above.refl _)
  have hnot := h.notMem_of_detached hx
  obtain ⟨hsp, hsn⟩ := h.detached hx
  have hxframe := hins.frame x (by simp [hnot])
  refine ⟨fun q => ?_, fun q => ?_, fun q => ?_, fun {q c} => ?_, fun {c} hc => ?_,
    h.rooted_insertAbove hins hxd hxN hdN⟩
  · rw [hins.depNext]
    rcases eq_or_ne q d with rfl | hqd
    · simp
    · rw [update_of_ne hqd, update_of_ne hqd]
      rcases eq_or_ne q x with rfl | hqx
      · simp
      · rw [update_of_ne hqx, update_of_ne hqx]
        exact h.head q
  · rcases eq_or_ne q d with rfl | hqd
    · simp [hxframe, hsp, hsn]
    · rw [update_of_ne hqd]
      rcases eq_or_ne q x with rfl | hqx
      · simpa using hins.seg
      · rw [update_of_ne hqx]
        have hframe : ∀ c ∈ kids q, _ := fun c hc => hins.frame c (by
          simp [h.notMem_of_ne hc hqd.symm, h.notMem_of_ne hc hqx.symm])
        exact (seg_congr (fun c hc => (hframe c hc).1) (fun c hc => (hframe c hc).2)).2 (h.seg q)
  · rcases eq_or_ne q d with rfl | hqd
    · simp
    · rw [update_of_ne hqd]
      rcases eq_or_ne q x with rfl | hqx
      · rw [update_self, List.nodup_append']
        exact ⟨h.nodup q, h.nodup d, fun c hc hc' => h.notMem_of_ne hc' hne hc⟩
      · rw [update_of_ne hqx]
        exact h.nodup q
  · rw [hins.depPrev]
    have hmem : ∀ r, c ∈ kids r ↔ dep.depPrev c = some r := fun r => h.mem_kids
    rcases eq_or_ne c x with rfl | hcx
    · rw [if_pos rfl, Option.some.injEq]
      rcases eq_or_ne q d with rfl | hqd
      · simp
      · rcases eq_or_ne q c with rfl | hqc
        · simp [update_of_ne hqd, hnot, hqd.symm]
        · simp [update_of_ne hqd, update_of_ne hqc, hnot, hqd.symm]
    rw [if_neg hcx]
    rcases eq_or_ne q d with rfl | hqd
    · rw [update_self]
      split
      next => simp [hcx, hne]
      next hcq => simp [hcx, ← hmem, hcq]
    rw [update_of_ne hqd]
    rcases eq_or_ne q x with rfl | hqx
    · rw [update_self, List.mem_append]
      split
      next hcd => simp [hcd]
      next hcd => simp [hcd, ← hmem]
    · rw [update_of_ne hqx]
      split
      next hcd => simp [h.notMem_of_ne hcd hqd, hqx.symm]
      next => exact hmem q
  rw [hins.depPrev] at hc
  split at hc
  next => simp at hc
  next hcx =>
    split at hc
    next => simp at hc
    next hcd =>
      have hframe := hins.frame c (by simp [hcd, h.notMem_of_detached hc x])
      rw [hframe.1, hframe.2]
      exact h.detached hc

/-! ## Replacing a stream by its children -/

/-- The list `l` with `ks` in place of `x`. -/
def spliceAt (l : List Ptr) (x : Ptr) (ks : List Ptr) : List Ptr :=
  l.flatMap fun c => if c = x then ks else [c]

theorem spliceAt_of_notMem (h : x ∉ l) (ks : List Ptr) : spliceAt l x ks = l := by
  induction l with
  | nil => rfl
  | cons c l ih =>
    have hc : c ≠ x := fun hc => h (by simp [hc])
    have := ih (fun hx => h (by simp [hx]))
    simp only [spliceAt] at this
    simp [spliceAt, hc, this]

theorem spliceAt_append_cons (h : (l1 ++ x :: l2).Nodup) (ks : List Ptr) :
    spliceAt (l1 ++ x :: l2) x ks = l1 ++ ks ++ l2 := by
  have h1 := spliceAt_of_notMem (l := l1) (x := x) (by grind) ks
  have h2 := spliceAt_of_notMem (l := l2) (x := x) (by grind) ks
  simp only [spliceAt] at h1 h2 ⊢
  simp [h1, h2]

/-- The linking part of `nghttp2_stream_dep_remove`. -/
def unlinkLinks (dep : DepLinks) (turns : ℕ) (p x : Ptr) : DepLinks :=
  match dep.sibPrev x with
  | some prev => unlinkSib dep turns x prev
  | none => unlinkDep dep turns x p

/-- `cut` puts the children of `x` in its place among its siblings. -/
structure SplicesTo (dep cut : DepLinks) (kids : Ptr → List Ptr) (p x : Ptr) : Prop where
  depPrev : ∀ c, cut.depPrev c = if c ∈ kids x then some p else dep.depPrev c
  depNext : cut.depNext = Function.update dep.depNext p (spliceAt (kids p) x (kids x)).head?
  seg : Seg cut.sibNext cut.sibPrev none (spliceAt (kids p) x (kids x)) none
  frame : ∀ c, c ∉ kids p → c ∉ kids x →
    cut.sibNext c = dep.sibNext c ∧ cut.sibPrev c = dep.sibPrev c

/-- A stream without children is unlinked as `nghttp2_stream_dep_remove_subtree` does it. -/
theorem unlinkLinks_of_leaf (turns : ℕ) (hx : dep.depNext x = none) :
    unlinkLinks dep turns p x = cutLinks dep p x := by
  unfold unlinkLinks cutLinks unlinkSib unlinkDep
  cases dep.sibPrev x <;> cases dep.sibNext x <;> simp [hx] <;> rfl

theorem adoptSiblings_eq (h : Seg dep.sibNext dep.sibPrev none (l1 ++ (ks ++ [a])) none)
    (hc : (ks ++ [a]).head? = some c) (hx : dep.sibNext x = l2.head?) (hp : dep.depPrev x = some p)
    (hturns : ks.length < turns) :
    adoptSiblings dep turns x c =
      linkSib (dep.setDepPrevs (ks ++ [a]) (some p)) a l2.head? := by
  have hks := ((seg_append _ _).1 h).2
  have hset := setDepPrev_eq hks (by simpa using hturns : (ks ++ [a]).length ≤ turns) (some p)
  rw [hc] at hset
  have hks' : Seg (dep.setDepPrevs (ks ++ [a]) (some p)).sibNext dep.sibPrev
      (l1.getLast?.or none) (ks ++ [a]) none := hks
  have hlast := streamLastSib_eq hks' hturns.le hc
  have hx' : (dep.setDepPrevs (ks ++ [a]) (some p)).sibNext x = l2.head? := hx
  unfold adoptSiblings
  rw [hp, hset]
  dsimp only
  rw [hx', hlast]
  cases l2 with
  | nil =>
    have hnext : dep.sibNext a = none := by
      rw [seg_append, seg_singleton] at hks
      exact hks.2.2
    have hself : update dep.sibNext a none = dep.sibNext := by
      rw [← hnext, update_eq_self]
    simp [linkSib, DepLinks.setSibNextOf, DepLinks.setDepPrevs, hself]
  | cons b l2 => rfl

/-- If the children of `x` follow the siblings `l1` before it, then after
`adoptSiblings` the siblings `l2` after it follow the children. -/
theorem splicesTo_adoptSiblings {dep0 : DepLinks}
    (hl : kids p = l1 ++ x :: l2) (hk : kids x = ks ++ [a]) (hc : (ks ++ [a]).head? = some c)
    (hturns : ks.length < turns) (hnodup : (l1 ++ x :: l2).Nodup)
    (hnodup' : (l1 ++ (ks ++ [a]) ++ l2).Nodup)
    (hseg : Seg dep0.sibNext dep0.sibPrev none (l1 ++ (ks ++ [a])) none)
    (hseg2 : Seg dep0.sibNext dep0.sibPrev (some x) l2 none)
    (hx : dep0.sibNext x = l2.head?) (hp : dep.depPrev x = some p) (hxk : x ∉ ks ++ [a])
    (hnext : dep0.depNext = update dep.depNext p (l1 ++ (ks ++ [a])).head?)
    (hprev : ∀ y, y ∉ ks ++ [a] → dep0.depPrev y = dep.depPrev y)
    (hframe : ∀ y, y ∉ kids p → y ∉ kids x →
      dep0.sibNext y = dep.sibNext y ∧ dep0.sibPrev y = dep.sibPrev y) :
    SplicesTo dep (adoptSiblings dep0 turns x c) kids p x := by
  have hsplice : spliceAt (kids p) x (kids x) = l1 ++ (ks ++ [a]) ++ l2 := by
    rw [hl, spliceAt_append_cons hnodup, hk]
  have heq := adoptSiblings_eq hseg hc hx ((hprev x hxk).trans hp) hturns
  refine ⟨fun y => ?_, ?_, ?_, fun y hy hy' => ?_⟩
  · rw [heq, linkSib_depPrev, hk]
    simp only [DepLinks.setDepPrevs]
    split
    · rfl
    · exact hprev y ‹_›
  · rw [heq, linkSib_depNext, hsplice]
    have hhead : (l1 ++ (ks ++ [a]) ++ l2).head? = (l1 ++ (ks ++ [a])).head? := by
      cases l1 <;> cases ks <;> rfl
    rw [hhead]
    exact hnext
  · rw [heq, hsplice]
    set dep1 := dep0.setDepPrevs (ks ++ [a]) (some p)
    have hseg' : Seg dep1.sibNext dep1.sibPrev none ((l1 ++ ks) ++ [a]) none := by
      rwa [List.append_assoc]
    have hseg2' : Seg dep1.sibNext dep1.sibPrev (some x) l2 none := hseg2
    have := seg_linkSib hseg' hseg2' (by rwa [List.append_assoc l1])
    rwa [List.append_assoc l1] at this
  · rw [heq, linkSib_sibNext]
    have hya : y ≠ a := by
      rintro rfl
      exact hy' (by simp [hk])
    rw [update_of_ne hya, linkSib_sibPrev_of_ne]
    · exact hframe y hy hy'
    · exact fun hb => hy (by simp [hl, List.mem_of_head? hb])

/-- **`unlink_sib` and `unlink_dep`** put the children of `x` in its place. -/
theorem DepShape.unlinkLinks_splicesTo (h : DepShape dep kids N) (hx : dep.depPrev x = some p)
    (hturns : N ≤ turns) : SplicesTo dep (unlinkLinks dep turns p x) kids p x := by
  have hhead := h.head x
  obtain ⟨l1, l2, hl, hsp, hsn, h1, h2⟩ := h.split hx
  have hnodup := h.nodup p
  rcases List.eq_nil_or_concat (kids x) with hk | ⟨ks, a, hk⟩
  · -- no children
    rw [hk, List.head?_nil] at hhead
    have hcut := h.cutLinks_cutsTo hx
    have herase : (kids p).erase x = spliceAt (kids p) x (kids x) := by
      rw [hl] at hnodup ⊢
      rw [spliceAt_append_cons hnodup, hk, List.erase_append_right _ (by grind),
        List.erase_cons_head, List.append_nil]
    rw [herase] at hcut
    rw [unlinkLinks_of_leaf turns hhead]
    exact ⟨fun c => by rw [hcut.depPrev, hk]; simp, hcut.depNext, hcut.seg,
      fun c hc _ => hcut.frame c hc⟩
  -- the children `ks ++ [a]`
  rw [List.concat_eq_append] at hk
  obtain ⟨c, hc⟩ : ∃ c, (ks ++ [a]).head? = some c := by cases ks <;> simp
  have hturns' : ks.length < turns := by
    have := h.length_le x
    rw [hk, List.length_append, List.length_singleton] at this
    omega
  have hsegx := h.seg x
  have hnodupx := h.nodup x
  have hdisj : ∀ y ∈ ks ++ [a], y ∉ kids p := fun y hy =>
    h.notMem_of_ne (by rwa [hk]) (h.rooted.grounded.ne_parent hx).symm
  have hheadp := h.head p
  rw [hk] at hhead hsegx hnodupx
  rw [hc] at hhead
  rw [hl] at hnodup hdisj hheadp
  have hnodup' : (l1 ++ (ks ++ [a]) ++ l2).Nodup := by grind
  have hxk : x ∉ ks ++ [a] := by grind
  rcases List.eq_nil_or_concat l1 with rfl | ⟨l, b, rfl⟩
  · -- `x` is the first child: `unlink_dep`
    have heq : unlinkLinks dep turns p x = adoptSiblings (linkDep dep p (some c)) turns x c := by
      simp [unlinkLinks, unlinkDep, hsp, hhead]
    rw [heq]
    refine splicesTo_adoptSiblings hl hk hc hturns' hnodup hnodup' ?_ ?_ ?_ ?_ ?_ ?_ ?_ ?_
    · simpa using hsegx
    · simpa using h2
    · simpa using hsn
    · exact hx
    · exact hxk
    · simp only [List.nil_append, hc, linkDep_depNext]
    · intro y hy
      have hyc : y ≠ c := by
        rintro rfl
        exact hy (List.mem_of_head? hc)
      simp [linkDep, DepLinks.setDepPrevOf, DepLinks.setDepNextOf, hyc]
    · exact fun y _ _ => ⟨by simp, by simp⟩
  -- `x` follows its sibling `b`: `unlink_sib`
  rw [List.concat_eq_append] at *
  have heq : unlinkLinks dep turns p x = adoptSiblings (linkSib dep b (some c)) turns x c := by
    simp [unlinkLinks, unlinkSib, hsp, hhead]
  have hxb : x ≠ b := by grind
  have hcl : c ∈ ks ++ [a] := List.mem_of_head? hc
  rw [heq]
  refine splicesTo_adoptSiblings hl hk hc hturns' hnodup hnodup' ?_ ?_ ?_ ?_ ?_ ?_ ?_ ?_
  · rw [← hc]
    exact seg_linkSib h1 hsegx (by grind)
  · rw [seg_linkSib_frame (by grind)]
    · exact h2
    · intro y hy
      grind
  · rw [linkSib_sibNext, update_of_ne hxb, hsn]
  · exact hx
  · exact hxk
  · have : (l ++ [b] ++ (ks ++ [a])).head? = dep.depNext p := by
      rw [hheadp]
      cases l <;> rfl
    rw [this, linkSib_depNext, update_eq_self]
  · intro y _
    rw [linkSib_depPrev]
  intro y hy hy'
  have hyb : y ≠ b := by
    rintro rfl
    exact hy (by simp [hl])
  rw [linkSib_sibNext, update_of_ne hyb, linkSib_sibPrev_of_ne]
  · exact ⟨rfl, rfl⟩
  · rw [Ne, Option.some.injEq]
    rintro rfl
    exact hy' (by rwa [hk])

/-- `x->dep_prev = x->dep_next = x->sib_prev = x->sib_next = NULL`. -/
def clearLinks (dep : DepLinks) (x : Ptr) : DepLinks :=
  (((dep.setDepPrevOf x none).setDepNextOf x none).setSibPrevOf x none).setSibNextOf x none

/-- Handing the children of `x` to its parent keeps the chains finite. -/
theorem DepShape.rooted_release (h : DepShape dep kids N) (hx : dep.depPrev x = some p) :
    Rooted { dep with depPrev := fun c => if c ∈ kids x then some p else dep.depPrev c } N := by
  have hagree : ∀ a, Above dep.depPrev a p →
      (if a ∈ kids x then some p else dep.depPrev a) = dep.depPrev a := fun a ha =>
    if_neg fun hk => h.rooted.grounded.not_above_parent (h.mem_kids.1 hk) (ha.tail hx)
  have hacc := acc_of_agree h.rooted.grounded hagree
  refine ⟨grounded_of_changed h.rooted.grounded fun c q hc => ?_, fun {c q} hc => ?_⟩
  all_goals
    dsimp only at hc
    split at hc
    next hk =>
      rw [Option.some.injEq] at hc
      subst hc
      first
        | exact Or.inr hacc
        | exact ⟨(h.rooted.lt_allocated (h.mem_kids.1 hk)).1, (h.rooted.lt_allocated hx).2⟩
    next => first | exact Or.inl hc | exact h.rooted.lt_allocated hc

theorem mem_spliceAt (h : x ∈ l) : c ∈ spliceAt l x ks ↔ c ∈ ks ∨ (c ∈ l ∧ c ≠ x) := by
  simp only [spliceAt, List.mem_flatMap]
  constructor
  · rintro ⟨y, hy, hc⟩
    split at hc
    next => exact Or.inl hc
    next hyx =>
      rw [List.mem_singleton] at hc
      exact Or.inr ⟨hc ▸ hy, hc ▸ hyx⟩
  · rintro (hc | ⟨hc, hcx⟩)
    · exact ⟨x, h, by simpa using hc⟩
    · exact ⟨c, hc, by simp [hcx]⟩

/-- **Replacing a stream by its children.** -/
theorem DepShape.splice {cut : DepLinks} (h : DepShape dep kids N) (hx : dep.depPrev x = some p)
    (hcut : SplicesTo dep cut kids p x) :
    DepShape (clearLinks cut x)
      (update (update kids p (spliceAt (kids p) x (kids x))) x []) N := by
  have hxp : x ∈ kids p := h.mem_kids.2 hx
  have hne : p ≠ x := (h.rooted.grounded.ne_parent hx).symm
  have hxx : x ∉ kids x := h.notMem_of_ne hxp hne.symm
  have hxs : x ∉ spliceAt (kids p) x (kids x) := by
    simp [mem_spliceAt hxp, hxx]
  have hprev : (clearLinks cut x).depPrev =
      update (fun c => if c ∈ kids x then some p else dep.depPrev c) x none := by
    rw [← funext hcut.depPrev]
    rfl
  have hclear : ∀ {l : List Ptr}, x ∉ l →
      (Seg (clearLinks cut x).sibNext (clearLinks cut x).sibPrev none l none
        ↔ Seg cut.sibNext cut.sibPrev none l none) := by
    intro l hl
    simp [clearLinks, DepLinks.setDepPrevOf, DepLinks.setDepNextOf, DepLinks.setSibNextOf,
      DepLinks.setSibPrevOf, hl]
  refine ⟨fun q => ?_, fun q => ?_, fun q => ?_, fun {q c} => ?_, fun {c} hc => ?_,
    (h.rooted_release hx).detach hprev⟩
  · rw [show (clearLinks cut x).depNext = update cut.depNext x none from rfl, hcut.depNext]
    rcases eq_or_ne q x with rfl | hqx
    · simp
    · rw [update_of_ne hqx, update_of_ne hqx]
      rcases eq_or_ne q p with rfl | hqp
      · simp
      · rw [update_of_ne hqp, update_of_ne hqp]
        exact h.head q
  · rcases eq_or_ne q x with rfl | hqx
    · simp
    rw [update_of_ne hqx]
    rcases eq_or_ne q p with rfl | hqp
    · rw [update_self, hclear hxs]
      exact hcut.seg
    · rw [update_of_ne hqp, hclear (h.notMem_of_ne hxp hqp)]
      have hframe : ∀ c ∈ kids q, _ := fun c hc =>
        hcut.frame c (h.notMem_of_ne hc hqp.symm) (h.notMem_of_ne hc hqx.symm)
      exact (seg_congr (fun c hc => (hframe c hc).1) (fun c hc => (hframe c hc).2)).2 (h.seg q)
  · rcases eq_or_ne q x with rfl | hqx
    · simp
    rw [update_of_ne hqx]
    rcases eq_or_ne q p with rfl | hqp
    · rw [update_self]
      have hq := h.nodup q
      have hk := h.nodup x
      have hdisj : ∀ y ∈ kids x, y ∉ kids q := fun y hy => h.notMem_of_ne hy hqx
      obtain ⟨l1, l2, hl⟩ := List.append_of_mem hxp
      rw [hl] at hq hdisj ⊢
      rw [spliceAt_append_cons hq]
      grind
    · rw [update_of_ne hqp]
      exact h.nodup q
  · have hmem : ∀ r, c ∈ kids r ↔ dep.depPrev c = some r := fun r => h.mem_kids
    rw [show (clearLinks cut x).depPrev = update cut.depPrev x none from rfl]
    rcases eq_or_ne c x with rfl | hcx
    · rw [update_self]
      rcases eq_or_ne q c with rfl | hqc
      · simp
      · rcases eq_or_ne q p with rfl | hqp
        · simpa [update_of_ne hqc] using hxs
        · simpa [update_of_ne hqc, update_of_ne hqp] using h.notMem_of_ne hxp hqp
    rw [update_of_ne hcx, hcut.depPrev]
    rcases eq_or_ne q x with rfl | hqx
    · rw [update_self]
      split
      next => simp [hne]
      next hcq => simp [← hmem, hcq]
    rw [update_of_ne hqx]
    rcases eq_or_ne q p with rfl | hqp
    · rw [update_self, mem_spliceAt hxp]
      split
      next hcq => simp [hcq]
      next hcq => simp [hcq, hcx, hmem]
    · rw [update_of_ne hqp]
      split
      next hcq => simp [h.notMem_of_ne hcq hqx, hqp.symm]
      next => exact hmem q
  simp only [clearLinks, DepLinks.setDepPrevOf, DepLinks.setDepNextOf, DepLinks.setSibNextOf,
    DepLinks.setSibPrevOf] at hc ⊢
  rcases eq_or_ne c x with rfl | hcx
  · simp
  · rw [update_of_ne hcx, hcut.depPrev] at hc
    split at hc
    next => simp at hc
    next hck =>
      have hframe := hcut.frame c (h.notMem_of_detached hc p) hck
      rw [update_of_ne hcx, update_of_ne hcx, hframe.1, hframe.2]
      exact h.detached hc

end Nghttp2
