/-
# Runs of dependency and scheduling operations

A run starts from the lone root stream of a new session and applies, in any order,
the operations of `nghttp2_stream.c`, each under its documented preconditions
(`TreeStep`).  `TreeReachable.inv` is the run lemma: the representation and the
scheduling invariant hold in every state that can be reached.

* `queued_iff_of_reachable`: a stream of the tree stands in the queue of its parent,
  once and flagged, exactly when it or one of its descendants is active, and the
  scheduler picks an active stream whenever there is one.
-/
import Nghttp2.TreeInv

namespace Nghttp2

open LinkedChain ParentForest

variable {t t' : StreamTree} {kids : Ptr → List Ptr}

/-! ## Steps -/

/-- **One operation** on the streams of a session, under its documented precondition:
an attached stream is a new one or the top of a subtree that was cut off, a removed
stream carries no item, items are deferred for a reason and rescheduled streams are
queued (both are assertions of the code or guaranteed by every call). -/
inductive TreeStep (t : StreamTree) : StreamTree → Prop
  | create (w : ℤ) (hw : 1 ≤ w ∧ w ≤ 256) : TreeStep t (streamAlloc t w)
  | setWeight (x : Ptr) (w : ℤ) (hx : t.dep.depPrev x = none) (hw : 1 ≤ w ∧ w ≤ 256) :
      TreeStep t (t.setWeight x w)
  | setLastWritelen (x : Ptr) (n : ℕ) : TreeStep t (t.setLastWritelen x n)
  | attachItem (x : Ptr) (i : ItemPtr) (hdef : (t.sched.deferred x).any = false)
      (hitem : t.sched.item x = none) : TreeStep t (streamAttachItem t x i)
  | detachItem (x : Ptr) : TreeStep t (streamDetachItem t x)
  | deferItem (x : Ptr) (flags : DeferFlags) (hitem : (t.sched.item x).isSome)
      (hflags : flags.any = true) : TreeStep t (streamDeferItem t x flags)
  | resumeDeferredItem (x : Ptr) (flags : DeferFlags) (hitem : (t.sched.item x).isSome) :
      TreeStep t (streamResumeDeferredItem t x flags)
  | reschedule (x : Ptr) (hx : t.sched.queued x = true) : TreeStep t (streamReschedule t x)
  | depAdd (d x : Ptr) (hd : InTree t.dep d) (hxN : x < t.allocated) (hx : x ≠ root)
      (hin : streamInDepTree t.dep x = false) (hitem : t.sched.item x = none) :
      TreeStep t (streamDepAdd t d x)
  | depInsert (d x : Ptr) (hd : InTree t.dep d) (hxN : x < t.allocated) (hx : x ≠ root)
      (hin : streamInDepTree t.dep x = false) (hitem : t.sched.item x = none) :
      TreeStep t (streamDepInsert t d x)
  | depRemove (x : Ptr) (t' : StreamTree) (hitem : t.sched.item x = none)
      (h : streamDepRemove t x = some t') : TreeStep t t'
  | depAddSubtree (d x : Ptr) (hd : InTree t.dep d) (hxN : x < t.allocated) (hx : x ≠ root)
      (hdet : t.dep.depPrev x = none) : TreeStep t (streamDepAddSubtree t d x)
  | depInsertSubtree (d x : Ptr) (hd : InTree t.dep d) (hxN : x < t.allocated) (hx : x ≠ root)
      (hdet : t.dep.depPrev x = none) : TreeStep t (streamDepInsertSubtree t d x)
  | depRemoveSubtree (x : Ptr) (t' : StreamTree) (h : streamDepRemoveSubtree t x = some t') :
      TreeStep t t'

/-- The states of a session's stream tree. -/
def TreeReachable (t : StreamTree) : Prop := Relation.ReflTransGen TreeStep loneRoot t

/-- **Step lemma**: every operation keeps the invariant. -/
theorem TreeInv.step (h : TreeInv t kids) (hs : TreeStep t t') : ∃ kids', TreeInv t' kids' := by
  have hroot := h.root_notMem
  have hrooted := h.wf.tree.rooted
  -- an operation on items leaves the links alone
  have hitems : ∀ {t1 : StreamTree}, t1.dep = t.dep → t1.allocated = t.allocated → t1.Scheduled →
      ∃ kids', TreeInv t1 kids' := fun hdep halloc hsched =>
    ⟨kids, h.of_sched hdep halloc hsched⟩
  cases hs with
  | create w hw =>
    exact ⟨kids, (h.wf.alloc hw).treeInv hroot (Nat.lt_succ_of_lt h.root_lt)⟩
  | setWeight x w hx hw => exact ⟨kids, (h.wf.setWeight hx hw).treeInv hroot h.root_lt⟩
  | setLastWritelen x n =>
    have hch : ItemChanged t.sched (t.setLastWritelen x n).sched x :=
      ⟨rfl, rfl, rfl, fun _ _ => rfl⟩
    exact hitems rfl rfl (hch.scheduled rfl h.wf.sched)
  | attachItem x i hdef hitem => exact hitems rfl rfl (h.wf.sched.attachItem hrooted hdef i)
  | detachItem x =>
    obtain ⟨hdep, halloc⟩ := streamUpdateDepOnDetachItem_dep
      { t with sched := (t.sched.setItem x none).setDeferred x ⟨false, false⟩ } x
    exact hitems hdep halloc (h.wf.sched.detachItem hrooted x)
  | deferItem x flags hitem hflags =>
    obtain ⟨hdep, halloc⟩ := streamUpdateDepOnDetachItem_dep
      { t with sched := t.sched.setDeferred x ((t.sched.deferred x).union flags) } x
    exact hitems hdep halloc (h.wf.sched.deferItem hrooted x hflags)
  | resumeDeferredItem x flags hitem =>
    obtain ⟨hdep, halloc⟩ := streamResumeDeferredItem_dep t x flags
    exact hitems hdep halloc (h.wf.sched.resumeDeferredItem hrooted hitem flags)
  | reschedule x hx => exact hitems rfl rfl (h.wf.sched.reschedule hx)
  | depAdd d x hd hxN hx hin hitem => exact ⟨_, (h.depAdd hd hxN hx hin hitem).1⟩
  | depInsert d x hd hxN hx hin hitem => exact ⟨_, (h.depInsert hd hxN hx hin hitem).1⟩
  | depRemove x t' hitem hres =>
    cases hx : t.dep.depPrev x with
    | none => simp [streamDepRemove_eq_none hx] at hres
    | some p =>
      obtain ⟨t'', hres', hinv, -⟩ := h.depRemove hx
      rw [hres, Option.some.injEq] at hres'
      exact ⟨_, hres' ▸ hinv⟩
  | depAddSubtree d x hd hxN hx hdet => exact ⟨_, (h.depAddSubtree hd hxN hx hdet).1⟩
  | depInsertSubtree d x hd hxN hx hdet => exact ⟨_, (h.depInsertSubtree hd hxN hx hdet).1⟩
  | depRemoveSubtree x t' hres =>
    cases hx : t.dep.depPrev x with
    | none => simp [streamDepRemoveSubtree, hx] at hres
    | some p =>
      obtain ⟨t'', hres', hinv, -⟩ := h.depRemoveSubtree hx
      rw [hres, Option.some.injEq] at hres'
      exact ⟨_, hres' ▸ hinv⟩

/-- **Run lemma**: the invariant holds in every reachable state. -/
theorem TreeReachable.inv (h : TreeReachable t) : ∃ kids, TreeInv t kids := by
  induction h with
  | refl => exact ⟨_, loneRoot_inv⟩
  | tail _ hs ih =>
    obtain ⟨kids, hinv⟩ := ih
    exact hinv.step hs

/-- **No pending item is lost.**  In every state reached by scheduling and dependency
operations, a stream of the tree other than the root stands in the queue of its
parent, once and with `queued` set, if and only if it or one of its descendants is
active, and otherwise it is in no queue.  The scheduler finds nothing to send if and
only if no stream of the tree is active, and what it finds is the item of an active
stream of the tree. -/
theorem queued_iff_of_reachable (h : TreeReachable t) :
    (∀ x, InTree t.dep x → x ≠ root → ∃ p, t.dep.depPrev x = some p ∧
      ((t.sched.queued x = true ∧ (t.sched.obq p).count x = 1) ↔
        ∃ y, Above t.dep.depPrev x y ∧ streamActive t.sched y = true) ∧
      ((t.sched.queued x = false ∧ ∀ q, x ∉ t.sched.obq q) ↔
        ¬ ∃ y, Above t.dep.depPrev x y ∧ streamActive t.sched y = true)) ∧
    (streamNextOutboundItem t root = none ↔
      ∀ y, InTree t.dep y → streamActive t.sched y = false) ∧
    (∀ i, streamNextOutboundItem t root = some i →
      ∃ y, InTree t.dep y ∧ streamActive t.sched y = true ∧ t.sched.item y = some i) := by
  obtain ⟨kids, hinv⟩ := h.inv
  have hsched := hinv.wf.sched
  have hdown := hinv.wf.tree.rooted.down
  refine ⟨fun x hx hxr => ?_, ?_, fun i hi => ?_⟩
  · obtain ⟨p, hp, -⟩ := (above_iff.1 hx).resolve_left (Ne.symm hxr)
    have hq := hsched.queued_iff (hdown x)
    simp only [hp, ne_eq, reduceCtorEq, not_false_eq_true, true_and] at hq
    refine ⟨p, hp, ?_, ?_⟩
    · rw [← hq]
      refine ⟨And.left, fun hqx => ⟨hqx, ?_⟩⟩
      exact List.count_eq_one_of_mem (hsched.wf.indexed p).nodup
        (hsched.wf.mem_obq_of_queued hsched.located hqx hp)
    · rw [← hq, Bool.not_eq_true]
      refine ⟨And.left, fun hqx => ⟨hqx, fun q hmem => ?_⟩⟩
      have := (hsched.wf.queued_iff x).2 ⟨q, hmem⟩
      simp [hqx] at this
  · rw [← Option.not_isSome_iff_eq_none, hinv.nextOutboundItem_isSome_iff]
    simp
  · rcases hinv.nextOutboundItem_cases with ⟨hnone, -⟩ | ⟨y, j, hy, hacty, hitem, hsome⟩
    · cases hi.symm.trans hnone
    · rw [hi, Option.some.injEq] at hsome
      exact ⟨y, hy, hacty, hsome ▸ hitem⟩

/-- The streams 1 and 3 below the root, and the stream 2 below stream 1.  The streams 2 and 3
carry items, and the one of stream 3 is deferred. -/
def nestedTree : StreamTree :=
  let t := streamDepAdd (streamAlloc loneRoot 16) root 1
  let t := streamDepAdd (streamAlloc t 16) 1 2
  let t := streamDepAdd (streamAlloc t 16) root 3
  streamDeferItem (streamAttachItem (streamAttachItem t 2 7) 3 8) 3 ⟨false, true⟩

theorem nestedTree_reachable : TreeReachable nestedTree := by
  have h1 : TreeReachable (streamDepAdd (streamAlloc loneRoot 16) root 1) :=
    (Relation.ReflTransGen.single (TreeStep.create 16 (by decide))).tail
      (TreeStep.depAdd root 1 (Above.refl _) (by decide) (by decide) (by decide) (by decide))
  have h2 := (h1.tail (TreeStep.create 16 (by decide))).tail
    (TreeStep.depAdd 1 2 (above_iff.2 (.inr ⟨root, by decide, Above.refl _⟩)) (by decide)
      (by decide) (by decide) (by decide))
  have h3 := (h2.tail (TreeStep.create 16 (by decide))).tail
    (TreeStep.depAdd root 3 (Above.refl _) (by decide) (by decide) (by decide) (by decide))
  exact ((h3.tail (TreeStep.attachItem 2 7 (by decide) (by decide))).tail
    (TreeStep.attachItem 3 8 (by decide) (by decide))).tail
    (TreeStep.deferItem 3 ⟨false, true⟩ (by decide) (by decide))

/-- Stream 1 waits on account of the stream below it, stream 3 does not wait, and the item of
stream 2 is the next one. -/
theorem nestedTree_queued : TreeReachable nestedTree ∧ nestedTree.sched.queued 3 = false ∧
    (∃ y, Above nestedTree.dep.depPrev 1 y ∧ streamActive nestedTree.sched y = true) ∧
    streamNextOutboundItem nestedTree root = some 7 ∧
    ∃ y, InTree nestedTree.dep y ∧ streamActive nestedTree.sched y = true ∧
      nestedTree.sched.item y = some 7 := by
  obtain ⟨hqueued, -, hnext⟩ := queued_iff_of_reachable nestedTree_reachable
  have hroot : nestedTree.dep.depPrev 1 = some root := by decide +kernel
  obtain ⟨p, hp, hwaits, -⟩ :=
    hqueued 1 (above_iff.2 (.inr ⟨root, hroot, Above.refl _⟩)) (by decide)
  obtain rfl : root = p := Option.some.inj (hroot.symm.trans hp)
  have hitem : streamNextOutboundItem nestedTree root = some 7 := by decide +kernel
  exact ⟨nestedTree_reachable, by decide +kernel,
    hwaits.1 ⟨by decide +kernel, by decide +kernel⟩, hitem, hnext 7 hitem⟩

end Nghttp2
