/-
# The dependency tree inside a session

The session never leaves a subtree cut off: between two of its operations every
stream with a parent is in the tree (`WholeTree`).  This module lifts the tree
operations to such trees.

* `moveBelow_inv`: the move of `nghttp2_session_reprioritize_stream` succeeds, and the
  streams in the tree are the same afterwards, also when the stream moves below one of
  its own descendants;
* `WholeTree.remove`, `WholeTree.add`, `WholeTree.move` and the item operations keep a
  tree whole.
-/
import Nghttp2.ItemFrame
import Nghttp2.Session

namespace Nghttp2

open LinkedChain ParentForest Session
open Function (update update_of_ne update_self)

variable {t t' : StreamTree} {kids kids' : Ptr → List Ptr} {d p x y : Ptr} {w : ℤ}

/-! ## Moving a stream -/

variable {pri : PrioritySpec} {n : ℕ}

/-- `nghttp2_stream_dep_find_ancestor` looks through the whole parent chain. -/
theorem depFindAncestor_iff {dep : DepLinks}
    (h : BoundedPaths (fun c p => dep.depPrev c = some p) n d) :
    depFindAncestor dep (n + 1) (some d) x = true ↔ Above dep.depPrev x d := by
  induction n generalizing d with
  | zero =>
    rw [depFindAncestor, above_iff]
    cases hd : dep.depPrev d with
    | none => simp [depFindAncestor, eq_comm]
    | some p => exact absurd hd (h p)
  | succ n ih =>
    rw [depFindAncestor, above_iff]
    cases hd : dep.depPrev d with
    | none => simp [depFindAncestor, eq_comm]
    | some p =>
      have hp := ih (h p hd)
      rcases eq_or_ne d x with rfl | hdx
      · simp
      · simpa [hdx, hdx.symm] using hp

/-- Cutting off `x` does not change what is below `x`. -/
theorem above_cut {par : Ptr → Option Ptr} (hground : Grounded par) :
    Above (update par x none) x y ↔ Above par x y := by
  have hg : Grounded (update par x none) :=
    grounded_of_changed hground fun c q hq => by
      rcases eq_or_ne c x with rfl | hcx
      · simp at hq
      · rw [update_of_ne hcx] at hq
        exact Or.inl hq
  refine above_iff_of_step (Q := fun y => Above par x y) hg (Above.refl x) fun c hcx => ?_
  rw [update_of_ne hcx, above_iff]
  simp [hcx.symm]

/-- What a move of a subtree keeps: the invariant, the streams in the tree, the
parentless streams, and the items. -/
structure Moved (t t' : StreamTree) (kids' : Ptr → List Ptr) : Prop where
  inv : TreeInv t' kids'
  inTree : ∀ y, InTree t'.dep y ↔ InTree t.dep y
  attached : ∀ y, t'.dep.depPrev y ≠ none → t.dep.depPrev y ≠ none
  allocated : t'.allocated = t.allocated
  pending : t'.pending = t.pending

theorem Moved.trans {t1 t2 t3 : StreamTree} {k2 k3 : Ptr → List Ptr} (h : Moved t1 t2 k2)
    (h' : Moved t2 t3 k3) : Moved t1 t3 k3 where
  inv := h'.inv
  inTree y := (h'.inTree y).trans (h.inTree y)
  attached y hy := h.attached y (h'.attached y hy)
  allocated := h'.allocated.trans h.allocated
  pending := h'.pending.trans h.pending

/-- Cutting off a subtree and attaching it elsewhere, with another weight. -/
theorem TreeInv.moveSubtree (h : TreeInv t kids) (hx : t.dep.depPrev x = some p)
    (hxt : InTree t.dep x) (hd : InTree t.dep d) (hxd : ¬ Above t.dep.depPrev x d) :
    ∃ t1, streamDepRemoveSubtree t x = some t1 ∧
      (1 ≤ t1.dep.weight x ∧ t1.dep.weight x ≤ 256) ∧
      ∀ (w : ℤ) (exclusive : Bool), 1 ≤ w ∧ w ≤ 256 →
        (attachSubtree exclusive (t1.setWeight x w) d x).dep.depPrev x = some d ∧
        ∃ kids', Moved t (attachSubtree exclusive (t1.setWeight x w) d x) kids' := by
  obtain ⟨t1, hres, hinv, hprev, halloc, hin⟩ := h.depRemoveSubtree hx
  have hxN1 : x < t1.allocated := halloc ▸ (h.wf.tree.rooted.lt_allocated hx).1
  refine ⟨t1, hres, hinv.wf.tree.weight hxN1, fun w exclusive hw => ?_⟩
  have hx1 : t1.dep.depPrev x = none := by rw [hprev, update_self]
  have hroot := h.ne_root hx
  have hw1 : TreeInv (t1.setWeight x w) _ :=
    (hinv.wf.setWeight hx1 hw).treeInv hinv.root_notMem hinv.root_lt
  have hd1 : InTree (t1.setWeight x w).dep d := (hin d).2 ⟨hd, hxd⟩
  have hpending : t1.pending = t.pending := streamDepRemoveSubtree_pending hres
  -- what left the tree with `x` is back below `x`
  have hback : ∀ y, (InTree (t1.setWeight x w).dep y ∨ Above (t1.setWeight x w).dep.depPrev x y) ↔
      InTree t.dep y := by
    intro y
    have hbelow : Above (t1.setWeight x w).dep.depPrev x y ↔ Above t.dep.depPrev x y := by
      show Above t1.dep.depPrev x y ↔ _
      rw [hprev]
      exact above_cut h.wf.tree.rooted.grounded
    rw [hbelow, show InTree (t1.setWeight x w).dep y ↔ _ from hin y]
    constructor
    · rintro (⟨hy, -⟩ | hxy)
      · exact hy
      · exact hxt.trans hxy
    · intro hy
      by_cases hxy : Above t.dep.depPrev x y
      · exact Or.inr hxy
      · exact Or.inl ⟨hy, hxy⟩
  -- the only new links are those of `x` and of children of `d`
  have hatt : ∀ y, y ≠ x → t1.dep.depPrev y ≠ none → t.dep.depPrev y ≠ none := fun y hyx hy => by
    rwa [hprev, update_of_ne hyx] at hy
  have hattx : t.dep.depPrev x ≠ none := by simp [hx]
  cases exclusive with
  | false =>
    obtain ⟨hinv', hin'⟩ := hw1.depAddSubtree hd1 hxN1 hroot hx1
    refine ⟨hinv'.wf.tree.mem_kids.1 (mem_update_add.2 (Or.inr ⟨rfl, rfl⟩)), _, hinv',
      fun y => (hin' y).trans (hback y), fun y hy => ?_, halloc, ?_⟩
    · obtain ⟨q, hq⟩ := Option.ne_none_iff_exists'.1 hy
      rcases eq_or_ne y x with rfl | hyx
      · exact hattx
      · refine hatt y hyx ?_
        rcases mem_update_add.1 (hinv'.wf.tree.mem_kids.2 hq) with hm | ⟨hm, -⟩
        · have := hinv.wf.tree.mem_kids.1 hm
          simp [this]
        · exact absurd hm hyx
    · exact (streamDepAddSubtree_pending ..).trans hpending
  | true =>
    obtain ⟨hinv', hin'⟩ := hw1.depInsertSubtree hd1 hxN1 hroot hx1
    have hne : x ≠ d := fun hne => hxd (hne ▸ Above.refl x)
    refine ⟨hinv'.wf.tree.mem_kids.1 ((mem_update_insert hne).2 (Or.inl ⟨rfl, rfl⟩)), _, hinv',
      fun y => (hin' y).trans (hback y), fun y hy => ?_,
      (streamDepInsertSubtree_allocated ..).trans halloc, ?_⟩
    · obtain ⟨q, hq⟩ := Option.ne_none_iff_exists'.1 hy
      rcases eq_or_ne y x with rfl | hyx
      · exact hattx
      refine hatt y hyx ?_
      rcases (mem_update_insert hne).1 (hinv'.wf.tree.mem_kids.2 hq) with
        ⟨hm, -⟩ | ⟨-, hm⟩ | ⟨-, hm⟩
      · exact absurd hm hyx
      · have := hinv.wf.tree.mem_kids.1 hm
        simp [this]
      · have := hinv.wf.tree.mem_kids.1 hm
        simp [this]
    · exact (streamDepInsertSubtree_pending ..).trans hpending

/-- A dependency below the stream itself goes below the root first. -/
theorem TreeInv.moveToRoot (h : TreeInv t kids) (hx : x ≠ root) (hd : InTree t.dep d)
    (hne : x ≠ d) (hxd : Above t.dep.depPrev x d) :
    ∃ t1 kids', streamDepRemoveSubtree t d = some t1 ∧
      Moved t (streamDepAddSubtree t1 root d) kids' ∧
      ¬ Above (streamDepAddSubtree t1 root d).dep.depPrev x d := by
  have hdroot : d ≠ root := fun hdr => h.not_above_root hx (hdr ▸ hxd)
  obtain ⟨q, hq, -⟩ := (above_iff.1 hd).resolve_left (Ne.symm hdroot)
  obtain ⟨t1, hres, hweight, hmove⟩ := h.moveSubtree hq hd (Above.refl root)
    (h.not_above_root hdroot)
  obtain ⟨hprev, kids', hmoved⟩ := hmove (t1.dep.weight d) false hweight
  have hself : t1.setWeight d (t1.dep.weight d) = t1 := by
    simp [StreamTree.setWeight, DepLinks.setWeight]
  rw [hself] at hmoved hprev
  refine ⟨t1, kids', hres, hmoved, fun habove => ?_⟩
  rcases above_iff.1 habove with hxd' | ⟨r, hr, hxr⟩
  · exact hne hxd'
  · obtain rfl : root = r := Option.some.inj (hprev.symm.trans hr)
    exact hmoved.inv.not_above_root hx hxr

/-- **The move of `nghttp2_session_reprioritize_stream`** succeeds for a stream and a
dependency in the tree, and the same streams are in the tree afterwards. -/
theorem moveBelow_inv (h : TreeInv t kids) (hx : x ≠ root) (hxt : InTree t.dep x)
    (hd : InTree t.dep d) (hne : x ≠ d) (hroot : pri.streamId = 0 → d = root) :
    ∃ t' kids', moveBelow t x d pri = .ok t' ∧ Moved t t' kids' := by
  have hfind : depFindAncestor t.dep t.turns (some d) x = true ↔ Above t.dep.depPrev x d :=
    depFindAncestor_iff (h.wf.tree.rooted.up d)
  -- the tree in which `x` is moved, and that `x` is not above `d` there
  obtain ⟨t0, k0, hstart, hmoved0, hxd⟩ : ∃ t0 k0, breakCycle t x d pri = .ok t0 ∧
      Moved t t0 k0 ∧ ¬ Above t0.dep.depPrev x d := by
    unfold breakCycle
    by_cases hxd : Above t.dep.depPrev x d
    · have hid : pri.streamId ≠ 0 := fun hid => h.not_above_root hx (hroot hid ▸ hxd)
      obtain ⟨t1, k1, hres, hmoved, hnot⟩ := h.moveToRoot hx hd hne hxd
      refine ⟨_, k1, ?_, hmoved, hnot⟩
      simp only [hfind.2 hxd, hid, ne_eq, not_false_eq_true, decide_true, Bool.and_self, if_true,
        hres]
      rfl
    · refine ⟨t, kids, ?_, ⟨h, fun _ => Iff.rfl, fun _ hy => hy, rfl, rfl⟩, hxd⟩
      have hfalse : depFindAncestor t.dep t.turns (some d) x = false := by
        rw [← Bool.not_eq_true, hfind]
        exact hxd
      simp only [hfalse, Bool.and_false, Bool.false_eq_true, if_false]
      rfl
  have hxt0 := (hmoved0.inTree x).2 hxt
  obtain ⟨q, hq, -⟩ := (above_iff.1 hxt0).resolve_left (Ne.symm hx)
  obtain ⟨t1, hres, -, hmove⟩ := hmoved0.inv.moveSubtree hq hxt0 ((hmoved0.inTree d).2 hd) hxd
  obtain ⟨-, k1, hmoved⟩ := hmove pri.weight pri.exclusive pri.weight_mem
  refine ⟨_, k1, ?_, hmoved0.trans hmoved⟩
  simp only [moveBelow, hstart, ok_bind, hres]
  rfl

/-! ## Whole trees -/

/-- The tree of a session between two operations: every stream with a parent is in
the tree, and deferral flags are set only where there is an item. -/
structure WholeTree (t : StreamTree) (kids : Ptr → List Ptr) : Prop extends TreeInv t kids where
  whole : ∀ {x}, t.dep.depPrev x ≠ none → InTree t.dep x
  defer : ∀ {x}, (t.sched.deferred x).any = true → (t.sched.item x).isSome = true

theorem WholeTree.blank (h : WholeTree t kids) (hin : ¬ InTree t.dep x) :
    t.dep.depPrev x = none ∧ kids x = [] := by
  have hprev : t.dep.depPrev x = none := by
    by_contra hne
    exact hin (h.whole hne)
  refine ⟨hprev, List.eq_nil_iff_forall_not_mem.2 fun c hc => hin ?_⟩
  have hcp := h.wf.tree.mem_kids.1 hc
  -- a child would be in the tree, and so would its parent
  obtain ⟨q, hq, hin'⟩ := (above_iff.1 (h.whole (x := c) (by simp [hcp]))).resolve_left
    fun hr => absurd hcp (by rw [← hr, h.root_depPrev]; simp)
  rwa [← Option.some.inj (hq.symm.trans hcp)]

/-- `nghttp2_stream_in_dep_tree` tells the streams of the tree from the others. -/
theorem WholeTree.streamInDepTree_iff (h : WholeTree t kids) (hx : x ≠ root) :
    streamInDepTree t.dep x = true ↔ InTree t.dep x := by
  constructor
  · intro hin
    by_contra hnot
    obtain ⟨hprev, hk⟩ := h.blank hnot
    obtain ⟨hsp, hsn⟩ := h.wf.tree.detached hprev
    simp [streamInDepTree, hprev, hsp, hsn, h.wf.tree.head, hk] at hin
  · intro hin
    obtain ⟨p, hp, -⟩ := (above_iff.1 hin).resolve_left (Ne.symm hx)
    simp [streamInDepTree, hp]

theorem StreamTree.item_eq_of_pending (h : t'.pending = t.pending) :
    t'.sched.item = t.sched.item ∧ t'.sched.deferred = t.sched.deferred := by
  simpa [StreamTree.pending, Sched.pending] using h

/-- The deferral condition depends on the items only. -/
theorem WholeTree.defer_of_pending (h : WholeTree t kids) (hp : t'.pending = t.pending) {x : Ptr} :
    (t'.sched.deferred x).any = true → (t'.sched.item x).isSome = true := by
  obtain ⟨hi, hd⟩ := StreamTree.item_eq_of_pending hp
  rw [hi, hd]
  exact h.defer

/-- What an operation of the session does to a whole tree: afterwards the streams of
the tree are those that satisfy `Q`. -/
structure TreeChange (t t' : StreamTree) (kids' : Ptr → List Ptr) (Q : Ptr → Prop) : Prop where
  tree : WholeTree t' kids'
  inTree : ∀ y, InTree t'.dep y ↔ Q y
  allocated : t'.allocated = t.allocated
  pending : t'.pending = t.pending

section

variable (h : WholeTree t kids)
include h

/-- **Leaving the tree** takes out just one stream, if it was in the tree. -/
theorem WholeTree.leave (hx : x ≠ root) :
    ∃ t' kids', leaveTree t x = .ok t' ∧
      TreeChange t t' kids' (fun y => InTree t.dep y ∧ y ≠ x) := by
  unfold leaveTree
  by_cases hin : InTree t.dep x
  · obtain ⟨p, hp, -⟩ := (above_iff.1 hin).resolve_left (Ne.symm hx)
    obtain ⟨t', hres, hinv, halloc, hin'⟩ := h.toTreeInv.depRemove hp
    have hpending := streamDepRemove_pending hres
    rw [if_pos ((h.streamInDepTree_iff hx).2 hin), hres]
    refine ⟨t', _, rfl, ⟨hinv, fun {y} hy => ?_, h.defer_of_pending hpending⟩, hin', halloc,
      hpending⟩
    obtain ⟨q, hq⟩ := Option.ne_none_iff_exists'.1 hy
    rw [hin']
    rcases (h.toTreeInv.mem_release hp).1 (hinv.wf.tree.mem_kids.2 hq) with ⟨-, hc⟩ | ⟨-, hyx, hc⟩
    · have hyp := h.wf.tree.mem_kids.1 hc
      exact ⟨h.whole (by simp [hyp]), h.wf.tree.rooted.grounded.ne_parent hyp⟩
    · exact ⟨h.whole (by simp [h.wf.tree.mem_kids.1 hc]), hyx⟩
  · have hfalse : streamInDepTree t.dep x = false := by
      rw [← Bool.not_eq_true, h.streamInDepTree_iff hx]
      exact hin
    rw [hfalse]
    refine ⟨t, kids, rfl, h, fun y => ⟨fun hy => ⟨hy, fun hyx => hin (hyx ▸ hy)⟩,
      And.left⟩, rfl, rfl⟩

/-- **Attaching a new stream** to a stream of the tree. -/
theorem WholeTree.attach (hd : InTree t.dep d) (hxN : x < t.allocated) (hx : x ≠ root)
    (hin : ¬ InTree t.dep x) (hitem : t.sched.item x = none) (exclusive : Bool) :
    ∃ kids', TreeChange t (attachStream exclusive t d x) kids'
      (fun y => InTree t.dep y ∨ y = x) := by
  obtain ⟨hprev, hk⟩ := h.blank hin
  have hfalse : streamInDepTree t.dep x = false := by
    rw [← Bool.not_eq_true, h.streamInDepTree_iff hx]
    exact hin
  -- nothing but `x` is below `x`
  have hbelow : ∀ y, (InTree t.dep y ∨ Above t.dep.depPrev x y) ↔ (InTree t.dep y ∨ y = x) := by
    refine fun y => or_congr_right ⟨fun hxy => ?_, fun hyx => hyx ▸ Above.refl y⟩
    rcases above_iff_head.1 hxy with hxy | ⟨c, hc, -⟩
    · exact hxy.symm
    · rw [← h.wf.tree.mem_kids, hk] at hc
      simp at hc
  have hdx : x ≠ d := fun hxd => hin (hxd ▸ hd)
  cases exclusive with
  | false =>
    obtain ⟨hinv, hin'⟩ := h.toTreeInv.depAdd hd hxN hx hfalse hitem
    have hmem : ∀ y, InTree (streamDepAdd t d x).dep y ↔ InTree t.dep y ∨ y = x := fun y =>
      (hin' y).trans (hbelow y)
    refine ⟨_, ⟨hinv, fun {y} hy => ?_, h.defer_of_pending rfl⟩, hmem, rfl, rfl⟩
    obtain ⟨q, hq⟩ := Option.ne_none_iff_exists'.1 hy
    refine (hmem y).2 ?_
    rcases mem_update_add.1 (hinv.wf.tree.mem_kids.2 hq) with hm | ⟨hm, -⟩
    · exact Or.inl (h.whole (by simp [h.wf.tree.mem_kids.1 hm]))
    · exact Or.inr hm
  | true =>
    obtain ⟨hinv, hin'⟩ := h.toTreeInv.depInsert hd hxN hx hfalse hitem
    have hmem : ∀ y, InTree (streamDepInsert t d x).dep y ↔ InTree t.dep y ∨ y = x := fun y =>
      (hin' y).trans (hbelow y)
    have hpending := streamDepInsert_pending t d x
    refine ⟨_, ⟨hinv, fun {y} hy => ?_, h.defer_of_pending hpending⟩, hmem,
      streamDepInsert_allocated t d x, hpending⟩
    obtain ⟨q, hq⟩ := Option.ne_none_iff_exists'.1 hy
    refine (hmem y).2 ?_
    rcases (mem_update_insert hdx).1 (hinv.wf.tree.mem_kids.2 hq) with ⟨hm, -⟩ | ⟨-, hm⟩ | ⟨-, hm⟩
    · exact Or.inr hm
    · exact Or.inl (h.whole (by simp [h.wf.tree.mem_kids.1 hm]))
    · exact Or.inl (h.whole (by simp [h.wf.tree.mem_kids.1 hm]))

/-- **Moving a stream** of the tree. -/
theorem WholeTree.move (hx : x ≠ root) (hxt : InTree t.dep x) (hd : InTree t.dep d) (hne : x ≠ d)
    (hroot : pri.streamId = 0 → d = root) :
    ∃ t' kids', moveBelow t x d pri = .ok t' ∧ TreeChange t t' kids' (InTree t.dep) := by
  obtain ⟨t', kids', hres, hmoved⟩ := moveBelow_inv h.toTreeInv hx hxt hd hne hroot
  exact ⟨t', kids', hres, ⟨hmoved.inv, fun {y} hy =>
    (hmoved.inTree y).2 (h.whole (hmoved.attached y hy)), h.defer_of_pending hmoved.pending⟩,
    hmoved.inTree, hmoved.allocated, hmoved.pending⟩

/-- **Initialising a stream object** outside the tree. -/
theorem WholeTree.init (hx : x ≠ root) (hin : ¬ InTree t.dep x) (hw : 1 ≤ w ∧ w ≤ 256) :
    WholeTree (streamInit t x w) kids ∧ ∀ y, InTree (streamInit t x w).dep y ↔ InTree t.dep y := by
  obtain ⟨hprev, hk⟩ := h.blank hin
  have hwf := (h.wf.blankAt hprev hk).init hw
  have heq : (streamInit t x w).dep.depPrev = t.dep.depPrev := by simp [streamInit, ← hprev]
  have hin' : ∀ y, InTree (streamInit t x w).dep y ↔ InTree t.dep y := fun y => by
    rw [InTree, heq, InTree]
  refine ⟨⟨hwf.treeInv h.root_notMem h.root_lt, fun {y} hy => ?_, fun {y} hy => ?_⟩, hin'⟩
  · exact (hin' y).2 (h.whole (by rwa [heq] at hy))
  · rcases eq_or_ne y x with rfl | hyx
    · simp [streamInit, DeferFlags.any] at hy
    · simp only [streamInit, update_of_ne hyx] at hy ⊢
      exact h.defer hy

/-- **A new stream object.** -/
theorem WholeTree.alloc (hw : 1 ≤ w ∧ w ≤ 256) :
    WholeTree (streamAlloc t w) kids ∧ ∀ y, InTree (streamAlloc t w).dep y ↔ InTree t.dep y := by
  have hprev : t.dep.depPrev t.allocated = none := by
    by_contra hne
    obtain ⟨p, hp⟩ := Option.ne_none_iff_exists'.1 hne
    exact absurd (h.wf.tree.rooted.lt_allocated hp).1 (lt_irrefl _)
  have heq : (streamAlloc t w).dep.depPrev = t.dep.depPrev := by
    simp [streamAlloc, streamInit, ← hprev]
  have hin' : ∀ y, InTree (streamAlloc t w).dep y ↔ InTree t.dep y := fun y => by
    rw [InTree, heq, InTree]
  refine ⟨⟨(h.wf.alloc hw).treeInv h.root_notMem (Nat.lt_succ_of_lt h.root_lt),
    fun {y} hy => ?_, fun {y} hy => ?_⟩, hin'⟩
  · exact (hin' y).2 (h.whole (by rwa [heq] at hy))
  · rcases eq_or_ne y t.allocated with rfl | hyx
    · simp [streamAlloc, streamInit, DeferFlags.any] at hy
    · simp only [streamAlloc, streamInit, update_of_ne hyx] at hy ⊢
      exact h.defer hy

end

theorem loneRoot_depPrev (x : Ptr) : loneRoot.dep.depPrev x = none := by
  simp [loneRoot, streamAlloc, streamInit, noStreams]

theorem loneRoot_item (x : Ptr) : loneRoot.sched.item x = none := by
  simp [loneRoot, streamAlloc, streamInit, noStreams]

theorem loneRoot_whole : WholeTree loneRoot fun _ => [] where
  toTreeInv := loneRoot_inv
  whole {x} hx := absurd (loneRoot_depPrev x) hx
  defer {x} hx := by
    simp [loneRoot, streamAlloc, streamInit, noStreams, DeferFlags.any] at hx

/-! ## Item operations -/

/-- The tree `t'` is whole and has the links of `t`. -/
structure SameLinks (t t' : StreamTree) (kids : Ptr → List Ptr) : Prop where
  tree : WholeTree t' kids
  dep : t'.dep = t.dep
  allocated : t'.allocated = t.allocated

theorem WholeTree.of_sched (h : WholeTree t kids) (hdep : t'.dep = t.dep)
    (halloc : t'.allocated = t.allocated) (hsched : t'.Scheduled)
    (hdefer : ∀ {x}, (t'.sched.deferred x).any = true → (t'.sched.item x).isSome = true) :
    SameLinks t t' kids :=
  ⟨⟨h.toTreeInv.of_sched hdep halloc hsched, fun {x} hx => by
    rw [hdep] at hx ⊢
    exact h.whole hx, hdefer⟩, hdep, halloc⟩

theorem streamUpdateDepOnDetachItem_pending (t : StreamTree) (x : Ptr) :
    (streamUpdateDepOnDetachItem t x).pending = t.pending := by
  unfold streamUpdateDepOnDetachItem
  split
  · exact streamObqRemove_pending ..
  · rfl

theorem streamAttachItem_item (t : StreamTree) (x : Ptr) (i : ItemPtr) :
    (streamAttachItem t x i).sched.item = update t.sched.item x (some i) ∧
      (streamAttachItem t x i).sched.deferred = t.sched.deferred := by
  have hpending : (streamAttachItem t x i).pending =
      (t.sched.setItem x (some i)).pending := streamObqPush_pending ..
  exact ⟨congrArg Prod.fst hpending, congrArg Prod.snd hpending⟩

theorem WholeTree.attachItem (h : WholeTree t kids) (hitem : t.sched.item x = none) (i : ItemPtr) :
    SameLinks t (streamAttachItem t x i) kids := by
  have hdef : (t.sched.deferred x).any = false := by
    by_contra hne
    have := h.defer (by simpa using hne)
    simp [hitem] at this
  refine h.of_sched rfl rfl (h.wf.sched.attachItem h.wf.tree.rooted hdef i) fun {y} hy => ?_
  obtain ⟨hi, hd⟩ := streamAttachItem_item t x i
  rw [hd] at hy
  rw [hi]
  rcases eq_or_ne y x with rfl | hyx
  · simp
  · rw [update_of_ne hyx]
    exact h.defer hy

theorem streamDetachItem_item (t : StreamTree) (x : Ptr) :
    (streamDetachItem t x).sched.item = update t.sched.item x none ∧
      (streamDetachItem t x).sched.deferred =
        update t.sched.deferred x ⟨false, false⟩ :=
  StreamTree.item_eq_of_pending (streamUpdateDepOnDetachItem_pending
    { t with sched := (t.sched.setItem x none).setDeferred x ⟨false, false⟩ } x)

theorem WholeTree.detachItem (h : WholeTree t kids) (x : Ptr) :
    SameLinks t (streamDetachItem t x) kids := by
  obtain ⟨hdep, halloc⟩ := streamUpdateDepOnDetachItem_dep
    { t with sched := (t.sched.setItem x none).setDeferred x ⟨false, false⟩ } x
  refine h.of_sched hdep halloc (h.wf.sched.detachItem h.wf.tree.rooted x) fun {y} hy => ?_
  obtain ⟨hi, hd⟩ := streamDetachItem_item t x
  rw [hd] at hy
  rw [hi]
  rcases eq_or_ne y x with rfl | hyx
  · simp [DeferFlags.any] at hy
  · rw [update_of_ne hyx] at hy ⊢
    exact h.defer hy

theorem streamDeferItem_item (t : StreamTree) (x : Ptr) (flags : DeferFlags) :
    (streamDeferItem t x flags).sched.item = t.sched.item :=
  (StreamTree.item_eq_of_pending (streamUpdateDepOnDetachItem_pending
    { t with sched := t.sched.setDeferred x ((t.sched.deferred x).union flags) } x)).1

theorem WholeTree.deferItem (h : WholeTree t kids) {flags : DeferFlags}
    (hitem : (t.sched.item x).isSome = true) (hflags : flags.any = true) :
    SameLinks t (streamDeferItem t x flags) kids := by
  set t0 : StreamTree := { t with
    sched := t.sched.setDeferred x ((t.sched.deferred x).union flags) }
  obtain ⟨hdep, halloc⟩ := streamUpdateDepOnDetachItem_dep t0 x
  obtain ⟨-, hd⟩ := StreamTree.item_eq_of_pending (streamUpdateDepOnDetachItem_pending t0 x)
  refine h.of_sched hdep halloc (h.wf.sched.deferItem h.wf.tree.rooted x hflags) fun {y} hy => ?_
  rw [streamDeferItem_item]
  rw [show (streamDeferItem t x flags).sched.deferred =
    update t.sched.deferred x ((t.sched.deferred x).union flags) from hd] at hy
  rcases eq_or_ne y x with rfl | hyx
  · exact hitem
  · rw [update_of_ne hyx] at hy
    exact h.defer hy

theorem streamResumeDeferredItem_item (t : StreamTree) (x : Ptr) (flags : DeferFlags) :
    (streamResumeDeferredItem t x flags).sched.item = t.sched.item ∧
      (streamResumeDeferredItem t x flags).sched.deferred =
        update t.sched.deferred x ((t.sched.deferred x).diff flags) := by
  set t0 : StreamTree := { t with sched := t.sched.setDeferred x ((t.sched.deferred x).diff flags) }
    with ht0
  have hpending : (streamResumeDeferredItem t x flags).pending = t0.pending := by
    unfold streamResumeDeferredItem
    dsimp only
    split
    · rfl
    · exact streamObqPush_pending ..
  exact StreamTree.item_eq_of_pending hpending

theorem WholeTree.resumeDeferredItem (h : WholeTree t kids) (flags : DeferFlags)
    (hitem : (t.sched.item x).isSome = true) :
    SameLinks t (streamResumeDeferredItem t x flags) kids := by
  obtain ⟨hdep, halloc⟩ := streamResumeDeferredItem_dep t x flags
  obtain ⟨hi, hd⟩ := streamResumeDeferredItem_item t x flags
  refine h.of_sched hdep halloc (h.wf.sched.resumeDeferredItem h.wf.tree.rooted hitem flags)
    fun {y} hy => ?_
  rw [hi]
  rw [hd] at hy
  rcases eq_or_ne y x with rfl | hyx
  · exact hitem
  · rw [update_of_ne hyx] at hy
    exact h.defer hy

/-- Rescheduling changes the order of queues and nothing else. -/
theorem WholeTree.reordered (h : WholeTree t kids) (hq : t.sched.queued x = true) (n : ℕ) :
    (t.setLastWritelen x n).Scheduled ∧
      Reordered (t.setLastWritelen x n).sched
        (streamReschedule (t.setLastWritelen x n) x).sched := by
  have hch : ItemChanged t.sched (t.setLastWritelen x n).sched x := ⟨rfl, rfl, rfl, fun _ _ => rfl⟩
  have hsched : (t.setLastWritelen x n).Scheduled := hch.scheduled rfl h.wf.sched
  exact ⟨hsched, rescheduleLoop_reordered (t.setLastWritelen x n).turns hsched hq⟩

theorem WholeTree.reschedule_item (h : WholeTree t kids) (hq : t.sched.queued x = true) :
    (streamReschedule (t.setLastWritelen x n) x).sched.item = t.sched.item :=
  (h.reordered hq n).2.item

theorem WholeTree.reschedule (h : WholeTree t kids) (hq : t.sched.queued x = true) (n : ℕ) :
    SameLinks t (streamReschedule (t.setLastWritelen x n) x) kids := by
  obtain ⟨hsched, hre⟩ := h.reordered hq n
  refine h.of_sched rfl rfl (hre.scheduled hsched) fun {y} hy => ?_
  rw [show (streamReschedule (t.setLastWritelen x n) x).sched.deferred = t.sched.deferred from
    hre.deferred] at hy
  rw [show (streamReschedule (t.setLastWritelen x n) x).sched.item = t.sched.item from hre.item]
  exact h.defer hy

end Nghttp2
