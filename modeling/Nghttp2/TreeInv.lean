/-
# The stream tree of a session

The streams of a session form one dependency tree below its root stream, next to
objects that are not in the tree: new ones, and subtrees that have been cut off.

* `streamInit` and `streamAlloc` make stream objects, `loneRoot` is the memory of a
  new session;
* `TreeInv` is the invariant of all states: pointers, weights and queues are well
  formed, and the root is on top;
* one lemma per operation says that it keeps `TreeInv` and which streams are in the
  tree afterwards (`InTree`).
-/
import Nghttp2.DepOps

namespace Nghttp2

open LinkedChain ParentForest
open Function (update update_of_ne update_self)

/-- A stream of the dependency tree: the root is above it. -/
def InTree (dep : DepLinks) (x : Ptr) : Prop := Above dep.depPrev root x

/-- `nghttp2_stream_init`, as far as dependency and scheduling fields go. -/
def streamInit (t : StreamTree) (x : Ptr) (weight : ℤ) : StreamTree :=
  { t with
    dep :=
      { depPrev := Function.update t.dep.depPrev x none
        depNext := Function.update t.dep.depNext x none
        sibPrev := Function.update t.dep.sibPrev x none
        sibNext := Function.update t.dep.sibNext x none
        weight := Function.update t.dep.weight x weight
        sumDepWeight := Function.update t.dep.sumDepWeight x 0 }
    sched :=
      { t.sched with
        item := Function.update t.sched.item x none
        deferred := Function.update t.sched.deferred x ⟨false, false⟩
        queued := Function.update t.sched.queued x false
        obq := Function.update t.sched.obq x []
        cycle := Function.update t.sched.cycle x 0
        descendantLastCycle := Function.update t.sched.descendantLastCycle x 0
        lastWritelen := Function.update t.sched.lastWritelen x 0 } }

/-- A new stream object at the next free address. -/
def streamAlloc (t : StreamTree) (weight : ℤ) : StreamTree :=
  streamInit { t with allocated := t.allocated + 1 } t.allocated weight

/-- `NGHTTP2_DEFAULT_WEIGHT`. -/
def defaultWeight : ℤ := 16

/-- Memory before any stream was initialised. -/
def noStreams : StreamTree where
  dep := ⟨fun _ => none, fun _ => none, fun _ => none, fun _ => none, fun _ => 0, fun _ => 0⟩
  sched := ⟨fun _ => none, fun _ => ⟨false, false⟩, fun _ => false, fun _ => [], fun _ => 0,
    fun _ => 0, fun _ => 0, fun _ => 0⟩
  allocated := 0

/-- A session's streams when it has been created: the root alone. -/
def loneRoot : StreamTree := streamAlloc noStreams defaultWeight

variable {t t' : StreamTree} {kids : Ptr → List Ptr} {d p x y : Ptr} {w : ℤ}

/-! ## Initialising a stream object -/

/-- The invariant of a stream tree, but for the weight of the object `x`, which no
link and no queue mentions. -/
structure BlankAt (t : StreamTree) (kids : Ptr → List Ptr) (x : Ptr) : Prop where
  shape : DepShape t.dep kids t.allocated
  sum : ∀ p, t.dep.sumDepWeight p = ((kids p).map t.dep.weight).sum
  weight : ∀ {y}, y ≠ x → y < t.allocated → 1 ≤ t.dep.weight y ∧ t.dep.weight y ≤ 256
  sched : t.Scheduled
  depPrev : t.dep.depPrev x = none
  kids_nil : kids x = []

theorem StreamTree.WF.blankAt (h : t.WF kids) (hx : t.dep.depPrev x = none) (hk : kids x = []) :
    BlankAt t kids x :=
  ⟨h.tree.toDepShape, h.tree.sum, fun _ hy => h.tree.weight hy, h.sched, hx, hk⟩

theorem BlankAt.obq_eq_nil (h : BlankAt t kids x) : t.sched.obq x = [] := by
  refine List.eq_nil_iff_forall_not_mem.2 fun y hy => ?_
  have := h.shape.mem_kids.2 (h.sched.located hy)
  simp [h.kids_nil] at this

theorem StreamTree.WF.blankAt_allocated (h : t.WF kids) :
    BlankAt { t with allocated := t.allocated + 1 } kids t.allocated := by
  have hlt : ∀ {c p}, t.dep.depPrev c = some p → c < t.allocated + 1 ∧ p < t.allocated + 1 :=
    fun hc => ⟨(h.tree.rooted.lt_allocated hc).1.trans (Nat.lt_succ_self _),
      (h.tree.rooted.lt_allocated hc).2.trans (Nat.lt_succ_self _)⟩
  refine ⟨⟨h.tree.head, h.tree.seg, h.tree.nodup, h.tree.mem_kids, h.tree.detached,
    ⟨h.tree.rooted.grounded, hlt⟩⟩, h.tree.sum, fun {y} hy hlt => ?_, h.sched, ?_, ?_⟩
  · exact h.tree.weight (lt_of_le_of_ne (Nat.lt_succ_iff.1 hlt) hy)
  · by_contra hne
    obtain ⟨p, hp⟩ := Option.ne_none_iff_exists'.1 hne
    exact absurd (h.tree.rooted.lt_allocated hp).1 (lt_irrefl _)
  · refine List.eq_nil_iff_forall_not_mem.2 fun c hc => ?_
    exact absurd (h.tree.rooted.lt_allocated (h.tree.mem_kids.1 hc)).2 (lt_irrefl _)

/-- **`nghttp2_stream_init`** of a blank object establishes the invariant. -/
theorem BlankAt.init (h : BlankAt t kids x) (hw : 1 ≤ w ∧ w ≤ 256) :
    (streamInit t x w).WF kids := by
  have hnot := h.shape.notMem_of_detached h.depPrev
  have hprev : (streamInit t x w).dep.depPrev = t.dep.depPrev := by
    simp [streamInit, ← h.depPrev]
  have hnext : (streamInit t x w).dep.depNext = t.dep.depNext := by
    have : t.dep.depNext x = none := by rw [h.shape.head, h.kids_nil, List.head?_nil]
    simp [streamInit, ← this]
  obtain ⟨hsp, hsn⟩ := h.shape.detached h.depPrev
  have hq := h.sched.wf.not_queued_of_root h.sched.located h.depPrev
  have hobq : (streamInit t x w).sched.obq = t.sched.obq := by
    simp [streamInit, ← h.obq_eq_nil]
  have hqueued : (streamInit t x w).sched.queued = t.sched.queued := by
    simp [streamInit, ← hq]
  refine ⟨⟨h.shape.of_links hprev hnext ?_ ?_, fun p => ?_, fun {y} hy => ?_⟩, ?_⟩
  · simp [streamInit, ← hsp]
  · simp [streamInit, ← hsn]
  · have hmap : (kids p).map (streamInit t x w).dep.weight = (kids p).map t.dep.weight :=
      List.map_congr_left fun c hc =>
        update_of_ne (ne_of_mem_of_not_mem hc (hnot p)) _ _
    rw [hmap, ← h.sum p]
    rcases eq_or_ne p x with rfl | hpx
    · simp [streamInit, h.sum, h.kids_nil]
    · simp [streamInit, hpx]
  · rcases eq_or_ne y x with rfl | hyx
    · simpa [streamInit] using hw
    · simpa [streamInit, hyx] using h.weight hyx hy
  have hact : ∀ y, y ≠ x → streamActive (streamInit t x w).sched y = streamActive t.sched y :=
    fun y hy => by simp [streamInit, streamActive, hy]
  have hch : ItemChanged t.sched (streamInit t x w).sched x := ⟨hobq, rfl, hqueued, hact⟩
  unfold StreamTree.Scheduled
  rw [hprev]
  refine ⟨hch.wf h.sched.wf, hch.located h.sched.located, fun y => ?_, fun y => ?_⟩
  · rcases eq_or_ne y x with rfl | hyx
    · exact fun hpar => absurd h.depPrev hpar
    · exact hch.noLost hyx (h.sched.noLost y)
  · rcases eq_or_ne y x with rfl | hyx
    · intro hqy
      rw [hqueued, hq] at hqy
      simp at hqy
    · exact hch.noIdle hyx (h.sched.noIdle y)

theorem StreamTree.WF.alloc (h : t.WF kids) (hw : 1 ≤ w ∧ w ≤ 256) : (streamAlloc t w).WF kids :=
  h.blankAt_allocated.init hw

theorem noStreams_wf : noStreams.WF fun _ => [] := by
  refine ⟨⟨⟨fun _ => rfl, fun _ => trivial, fun _ => List.nodup_nil, ?_, fun _ =>
    ⟨rfl, rfl⟩, ⟨?_, ?_⟩⟩, fun _ => rfl, ?_⟩, ⟨⟨⟨?_, ?_⟩, ?_⟩, ?_, ?_, ?_⟩⟩
  · simp [noStreams]
  · exact ⟨fun x => Acc.intro x fun p hp => by simp [Child, noStreams] at hp⟩
  · simp [noStreams]
  · simp [noStreams]
  · intro p i a hi
    simp [noStreams] at hi
  · simp [noStreams]
  · simp [noStreams]
  · intro p y hy
    simp [noStreams] at hy
  · intro y hpar
    simp [noStreams] at hpar
  · intro y hq
    simp [noStreams] at hq

theorem loneRoot_wf : loneRoot.WF fun _ => [] := noStreams_wf.alloc (by decide)

/-- `x->weight = w`. -/
def StreamTree.setWeight (t : StreamTree) (x : Ptr) (w : ℤ) : StreamTree :=
  { t with dep := t.dep.setWeight x w }

/-- `x->last_writelen = n`. -/
def StreamTree.setLastWritelen (t : StreamTree) (x : Ptr) (n : ℕ) : StreamTree :=
  { t with
    sched := { t.sched with lastWritelen := Function.update t.sched.lastWritelen x n } }

/-! ## The invariant -/

/-- The invariant of all reachable states. -/
structure TreeInv (t : StreamTree) (kids : Ptr → List Ptr) : Prop where
  wf : t.WF kids
  root_depPrev : t.dep.depPrev root = none
  root_lt : root < t.allocated

theorem TreeInv.root_notMem (h : TreeInv t kids) (p : Ptr) : root ∉ kids p :=
  h.wf.tree.notMem_of_detached h.root_depPrev p

/-- The root stays without a parent if it is in none of the new children lists. -/
theorem StreamTree.WF.treeInv (h : t.WF kids) (hroot : ∀ p, root ∉ kids p)
    (hlt : root < t.allocated) : TreeInv t kids := by
  refine ⟨h, ?_, hlt⟩
  by_contra hne
  obtain ⟨p, hp⟩ := Option.ne_none_iff_exists'.1 hne
  exact hroot p (h.tree.mem_kids.2 hp)

/-- A change of items and queues that leaves the links alone. -/
theorem TreeInv.of_sched (h : TreeInv t kids) (hdep : t'.dep = t.dep)
    (halloc : t'.allocated = t.allocated) (hsched : t'.Scheduled) : TreeInv t' kids :=
  ⟨⟨by rw [hdep, halloc]; exact h.wf.tree, hsched⟩, by rw [hdep]; exact h.root_depPrev,
    by rw [halloc]; exact h.root_lt⟩

theorem TreeInv.lt_allocated (h : TreeInv t kids) (hd : InTree t.dep d) : d < t.allocated := by
  rcases above_iff.1 hd with rfl | ⟨p, hp, -⟩
  · exact h.root_lt
  · exact (h.wf.tree.rooted.lt_allocated hp).1

/-- A detached stream other than the root is above no stream of the tree. -/
theorem TreeInv.not_above (h : TreeInv t kids) (hd : InTree t.dep d) (hx : x ≠ root)
    (hdet : t.dep.depPrev x = none) : ¬ Above t.dep.depPrev x d := by
  intro hxd
  rcases hxd.total hd with hxr | hrx
  · rcases above_iff.1 hxr with hxr | ⟨p, hp, -⟩
    · exact hx hxr
    · simp [h.root_depPrev] at hp
  · rcases above_iff.1 hrx with hrx | ⟨p, hp, -⟩
    · exact hx hrx.symm
    · simp [hdet] at hp

/-- A stream that is not in the dependency tree has neither parent nor children, and
leads to nothing to send if it has no item. -/
theorem StreamTree.WF.of_not_inDepTree (h : t.WF kids) (hin : streamInDepTree t.dep x = false)
    (hitem : t.sched.item x = none) :
    t.dep.depPrev x = none ∧ kids x = [] ∧ streamSubtreeActive t.sched x = false := by
  simp only [streamInDepTree, Bool.or_eq_false_iff, Option.isSome_eq_false_iff,
    Option.isNone_iff_eq_none] at hin
  have hk : kids x = [] := by
    have := h.tree.head x
    rw [hin.1.1.2] at this
    exact List.head?_eq_none_iff.1 this.symm
  refine ⟨hin.1.1.1, hk, ?_⟩
  simp [streamSubtreeActive, streamActive, hitem, (h.blankAt hin.1.1.1 hk).obq_eq_nil]

theorem StreamTree.WF.setWeight (h : t.WF kids) (hx : t.dep.depPrev x = none)
    (hw : 1 ≤ w ∧ w ≤ 256) : (t.setWeight x w).WF kids := by
  have hnot := h.tree.notMem_of_detached hx
  refine ⟨⟨h.tree.toDepShape.of_links rfl rfl rfl rfl, fun p => ?_, fun {y} hy => ?_⟩, h.sched⟩
  · have hmap : (kids p).map (t.dep.setWeight x w).weight = (kids p).map t.dep.weight :=
      List.map_congr_left fun c hc =>
        update_of_ne (ne_of_mem_of_not_mem hc (hnot p)) _ _
    exact (h.tree.sum p).trans (congrArg List.sum hmap.symm)
  · rcases eq_or_ne y x with rfl | hyx
    · simpa [StreamTree.setWeight, DepLinks.setWeight] using hw
    · simpa [StreamTree.setWeight, DepLinks.setWeight, hyx] using h.tree.weight hy

theorem root_notMem_update {l : List Ptr} (h : ∀ p, root ∉ kids p) (hl : root ∉ l) (p : Ptr) :
    root ∉ update kids d l p := by
  rcases eq_or_ne p d with rfl | hpd
  · rwa [update_self]
  · rw [update_of_ne hpd]
    exact h p

theorem loneRoot_inv : TreeInv loneRoot fun _ => [] :=
  loneRoot_wf.treeInv (fun _ => List.not_mem_nil) (by decide)

/-! ## The operations -/

theorem TreeInv.ne_root (h : TreeInv t kids) (hx : t.dep.depPrev x = some p) : x ≠ root := by
  rintro rfl
  simp [h.root_depPrev] at hx

/-- Nothing but the root is above the root. -/
theorem TreeInv.not_above_root (h : TreeInv t kids) (hx : x ≠ root) :
    ¬ Above t.dep.depPrev x root := by
  intro hxr
  rcases above_iff.1 hxr with hxr | ⟨p, hp, -⟩
  · exact hx hxr
  · simp [h.root_depPrev] at hp

variable {c q : Ptr}

theorem mem_update_add : c ∈ update kids d (x :: kids d) q ↔ c ∈ kids q ∨ (c = x ∧ q = d) := by
  rcases eq_or_ne q d with rfl | hqd
  · simp [or_comm]
  · simp [hqd]

theorem mem_update_insert (hxd : x ≠ d) :
    c ∈ update (update kids x (kids x ++ kids d)) d [x] q ↔
      (c = x ∧ q = d) ∨ (q = x ∧ c ∈ kids d) ∨ (q ≠ d ∧ c ∈ kids q) := by
  rcases eq_or_ne q d with rfl | hqd
  · simp [hxd.symm]
  · rcases eq_or_ne q x with rfl | hqx
    · simp [hqd, or_comm]
    · simp [hqd, hqx]

section

variable (h : TreeInv t kids)
include h

/-- **`nghttp2_stream_dep_add_subtree`** brings the detached stream `x` and its
descendants into the tree. -/
theorem TreeInv.depAddSubtree (hd : InTree t.dep d) (hxN : x < t.allocated) (hx : x ≠ root)
    (hdet : t.dep.depPrev x = none) :
    TreeInv (streamDepAddSubtree t d x) (update kids d (x :: kids d)) ∧
      ∀ y, InTree (streamDepAddSubtree t d x).dep y ↔
        InTree t.dep y ∨ Above t.dep.depPrev x y := by
  have hwf := h.wf.depAddSubtree hdet (h.not_above hd hx hdet) hxN (h.lt_allocated hd)
  refine ⟨hwf.treeInv (root_notMem_update h.root_notMem (by simp [hx.symm, h.root_notMem]))
    h.root_lt, fun y => above_attach hwf.tree.rooted.grounded (fun c q => ?_) hd⟩
  rw [← hwf.tree.mem_kids, mem_update_add, h.wf.tree.mem_kids]

/-- **`nghttp2_stream_dep_add`** brings the new stream `x` into the tree. -/
theorem TreeInv.depAdd (hd : InTree t.dep d) (hxN : x < t.allocated) (hx : x ≠ root)
    (hin : streamInDepTree t.dep x = false) (hitem : t.sched.item x = none) :
    TreeInv (streamDepAdd t d x) (update kids d (x :: kids d)) ∧
      ∀ y, InTree (streamDepAdd t d x).dep y ↔ InTree t.dep y ∨ Above t.dep.depPrev x y := by
  obtain ⟨hdet, -, hact⟩ := h.wf.of_not_inDepTree hin hitem
  have hwf := h.wf.depAdd hdet (h.not_above hd hx hdet) hxN (h.lt_allocated hd) hact
  refine ⟨hwf.treeInv (root_notMem_update h.root_notMem (by simp [hx.symm, h.root_notMem]))
    h.root_lt, fun y => above_attach hwf.tree.rooted.grounded (fun c q => ?_) hd⟩
  rw [← hwf.tree.mem_kids, mem_update_add, h.wf.tree.mem_kids]

theorem TreeInv.root_notMem_insert (hx : x ≠ root) (q : Ptr) :
    root ∉ update (update kids x (kids x ++ kids d)) d [x] q :=
  root_notMem_update (root_notMem_update h.root_notMem (by simp [h.root_notMem]))
    (by simp [hx.symm]) q

/-- **`nghttp2_stream_dep_insert_subtree`** brings the detached stream `x` and its
descendants into the tree. -/
theorem TreeInv.depInsertSubtree (hd : InTree t.dep d) (hxN : x < t.allocated) (hx : x ≠ root)
    (hdet : t.dep.depPrev x = none) :
    TreeInv (streamDepInsertSubtree t d x)
        (update (update kids x (kids x ++ kids d)) d [x]) ∧
      ∀ y, InTree (streamDepInsertSubtree t d x).dep y ↔
        InTree t.dep y ∨ Above t.dep.depPrev x y := by
  have hxd := h.not_above hd hx hdet
  have hne : x ≠ d := fun hne => hxd (hne ▸ Above.refl x)
  have hwf := h.wf.depInsertSubtree hdet hxd hxN (h.lt_allocated hd)
  refine ⟨hwf.treeInv (h.root_notMem_insert hx) ?_,
    fun y => above_insert hwf.tree.rooted.grounded (fun c q => ?_) hd⟩
  · rw [streamDepInsertSubtree_allocated]
    exact h.root_lt
  · rw [← hwf.tree.mem_kids, mem_update_insert hne, h.wf.tree.mem_kids, h.wf.tree.mem_kids]

/-- **`nghttp2_stream_dep_insert`** brings the new stream `x` into the tree. -/
theorem TreeInv.depInsert (hd : InTree t.dep d) (hxN : x < t.allocated) (hx : x ≠ root)
    (hin : streamInDepTree t.dep x = false) (hitem : t.sched.item x = none) :
    TreeInv (streamDepInsert t d x)
        (update (update kids x (kids x ++ kids d)) d [x]) ∧
      ∀ y, InTree (streamDepInsert t d x).dep y ↔ InTree t.dep y ∨ Above t.dep.depPrev x y := by
  obtain ⟨hdet, hk, hact⟩ := h.wf.of_not_inDepTree hin hitem
  have hne : x ≠ d := fun hne => h.not_above hd hx hdet (hne ▸ Above.refl x)
  have hwf := h.wf.depInsert hdet hk hne hxN (h.lt_allocated hd) hact
  refine ⟨hwf.treeInv (h.root_notMem_insert hx) ?_,
    fun y => above_insert hwf.tree.rooted.grounded (fun c q => ?_) hd⟩
  · rw [streamDepInsert_allocated]
    exact h.root_lt
  · rw [← hwf.tree.mem_kids, mem_update_insert hne, h.wf.tree.mem_kids, h.wf.tree.mem_kids]

theorem TreeInv.mem_release (hx : t.dep.depPrev x = some p) :
    c ∈ update (update kids p (spliceAt (kids p) x (kids x))) x [] q ↔
      (q = p ∧ c ∈ kids x) ∨ (q ≠ x ∧ c ≠ x ∧ c ∈ kids q) := by
  have hpx : p ≠ x := (h.wf.tree.rooted.grounded.ne_parent hx).symm
  have hxp := h.wf.tree.mem_kids.2 hx
  rcases eq_or_ne q x with rfl | hqx
  · simp [hpx.symm]
  · rcases eq_or_ne q p with rfl | hqp
    · simp [hqx, mem_spliceAt hxp, and_comm]
    · have hxq : x ∉ kids q := h.wf.tree.notMem_of_ne hxp hqp
      simp only [update_of_ne hqx, update_of_ne hqp, hqp, hqx, false_and,
        false_or, ne_eq, not_false_eq_true, true_and]
      exact ⟨fun hc => ⟨fun hcx => hxq (hcx ▸ hc), hc⟩, And.right⟩

/-- **`nghttp2_stream_dep_remove`** takes the stream `x`, and only it, out of the
tree. -/
theorem TreeInv.depRemove (hx : t.dep.depPrev x = some p) :
    ∃ t', streamDepRemove t x = some t' ∧
      TreeInv t' (update (update kids p (spliceAt (kids p) x (kids x))) x []) ∧
      t'.allocated = t.allocated ∧ ∀ y, InTree t'.dep y ↔ InTree t.dep y ∧ y ≠ x := by
  obtain ⟨t', hres, hwf, -, halloc⟩ := h.wf.depRemove hx
  refine ⟨t', hres, hwf.treeInv (fun q => ?_) (halloc ▸ h.root_lt), halloc, fun y =>
    above_release hwf.tree.rooted.grounded h.wf.tree.rooted.grounded (fun c q => ?_) hx
      (h.ne_root hx).symm⟩
  · rw [h.mem_release hx]
    simp [h.root_notMem]
  · rw [← hwf.tree.mem_kids, h.mem_release hx, h.wf.tree.mem_kids, h.wf.tree.mem_kids]

theorem TreeInv.mem_cut (hx : t.dep.depPrev x = some p) :
    c ∈ update kids p ((kids p).erase x) q ↔ c ≠ x ∧ c ∈ kids q := by
  rcases eq_or_ne q p with rfl | hqp
  · rw [update_self, (h.wf.tree.nodup q).mem_erase_iff]
  · rw [update_of_ne hqp]
    have hxq : x ∉ kids q := h.wf.tree.notMem_of_ne (h.wf.tree.mem_kids.2 hx) hqp
    exact ⟨fun hc => ⟨fun hcx => hxq (hcx ▸ hc), hc⟩, And.right⟩

/-- **`nghttp2_stream_dep_remove_subtree`** takes the stream `x` and its descendants
out of the tree. -/
theorem TreeInv.depRemoveSubtree (hx : t.dep.depPrev x = some p) :
    ∃ t', streamDepRemoveSubtree t x = some t' ∧
      TreeInv t' (update kids p ((kids p).erase x)) ∧
      t'.dep.depPrev = update t.dep.depPrev x none ∧ t'.allocated = t.allocated ∧
      ∀ y, InTree t'.dep y ↔ InTree t.dep y ∧ ¬ Above t.dep.depPrev x y := by
  obtain ⟨t', hres, hwf, -, halloc⟩ := h.wf.depRemoveSubtree hx
  have hpar : ∀ c q, t'.dep.depPrev c = some q ↔ c ≠ x ∧ t.dep.depPrev c = some q := fun c q => by
    rw [← hwf.tree.mem_kids, h.mem_cut hx, h.wf.tree.mem_kids]
  refine ⟨t', hres, hwf.treeInv (fun q hr => ?_) (halloc ▸ h.root_lt), ?_, halloc, fun y =>
    above_detach hwf.tree.rooted.grounded hpar (h.not_above_root (h.ne_root hx))⟩
  · exact h.root_notMem q ((h.mem_cut hx).1 hr).2
  · funext c
    refine Option.ext fun q => ?_
    rw [hpar]
    rcases eq_or_ne c x with rfl | hcx
    · simp
    · simp [hcx]

/-! ## The scheduler's choice -/

/-- **`nghttp2_stream_next_outbound_item`** finds nothing only if no stream of the tree is
active, and what it finds is the item of an active stream of the tree. -/
theorem TreeInv.nextOutboundItem_cases :
    (streamNextOutboundItem t root = none ∧
      ∀ y, InTree t.dep y → streamActive t.sched y = false) ∨
    ∃ y i, InTree t.dep y ∧ streamActive t.sched y = true ∧ t.sched.item y = some i ∧
      streamNextOutboundItem t root = some i := by
  have hsched := h.wf.sched
  have hdown := h.wf.tree.rooted.down root
  by_cases hact : streamSubtreeActive t.sched root = true
  · exact .inr (hsched.nextOutboundLoop_eq_some hdown hact)
  · refine .inl ⟨nextOutboundLoop_eq_none _ (by simpa using hact), fun y hy => ?_⟩
    by_contra hne
    exact hact ((hsched.subtreeActive_iff hdown).2 ⟨y, hy, by simpa using hne⟩)

theorem TreeInv.nextOutboundItem_isSome_iff :
    (streamNextOutboundItem t root).isSome = true ↔
      ∃ y, InTree t.dep y ∧ streamActive t.sched y = true := by
  rcases h.nextOutboundItem_cases with ⟨hnone, hall⟩ | ⟨y, i, hy, hact, -, hsome⟩
  · rw [hnone]
    refine iff_of_false nofun fun ⟨y, hy, hact⟩ => ?_
    rw [hall y hy] at hact
    cases hact
  · rw [hsome]
    exact iff_of_true rfl ⟨y, hy, hact⟩

end

end Nghttp2
