/-
# The dependency tree under all operations

Sequences of the dependency operations of `nghttp2_stream.c` and of
`nghttp2_session_reprioritize_stream`, from the lone root of a new session on.

* `DepCall` is one call, with its documented preconditions (`DepCall.Allowed`) and the
  streams that enter and leave the tree (`DepCall.Moves`);
* `reprioritizeStream_grows`: reprioritising a stream moves it with its subtree.  Beyond
  that, the idle stream it is to depend on may enter the tree, and idle streams that the
  idle limit evicts may leave it;
* `DepReachable.inv`: the run lemma.
-/
import Nghttp2.SessionSteps

namespace Nghttp2

open ChainMap LinkedChain ParentForest
open Function (update update_eq_self_iff update_of_ne update_self)

namespace Session

variable {s s' : Session} {t t' : StreamTree} {kids kids' : Ptr → List Ptr} {c d p x y : Ptr}
  {id n : ℕ} {pri : PrioritySpec}

/-! ## Evictions -/

/-- The tree of `s'` is whole, and contains the streams of `s`, but for some of the
streams `l` that were freed. -/
structure Shrinks (s s' : Session) (kids' : Ptr → List Ptr) (l : List Ptr) : Prop where
  tree : WholeTree s'.tree kids'
  sub : ∀ {y}, InTree s'.tree.dep y → InTree s.tree.dep y
  kept : ∀ {y}, InTree s.tree.dep y → InTree s'.tree.dep y ∨ (y ∈ l ∧ s'.freed y = true)
  freed : ∀ {y}, s.freed y = true → s'.freed y = true
  allocated : s'.tree.allocated = s.tree.allocated
  pending : s'.tree.pending = s.tree.pending
  info : s'.info = s.info

theorem Shrinks.refl (h : WholeTree s.tree kids) (l : List Ptr) : Shrinks s s kids l :=
  ⟨h, fun hy => hy, fun hy => Or.inl hy, fun hy => hy, rfl, rfl, rfl⟩

theorem Shrinks.trans {s1 s2 s3 : Session} {k2 k3 : Ptr → List Ptr} {l : List Ptr}
    (h : Shrinks s1 s2 k2 [x]) (h' : Shrinks s2 s3 k3 l) : Shrinks s1 s3 k3 (x :: l) where
  tree := h'.tree
  sub hy := h.sub (h'.sub hy)
  kept hy := by
    rcases h.kept hy with hy | ⟨hy, hf⟩
    · exact (h'.kept hy).imp_right fun ⟨hy, hf⟩ => ⟨List.mem_cons_of_mem x hy, hf⟩
    · exact Or.inr ⟨List.mem_cons.2 (Or.inl (List.mem_singleton.1 hy)), h'.freed hf⟩
  freed hy := h'.freed (h.freed hy)
  allocated := h'.allocated.trans h.allocated
  pending := h'.pending.trans h.pending
  info := h'.info.trans h.info

/-- Destroying a stream takes it out of the tree, and no other. -/
theorem destroyStream_shrinks (h : WholeTree s.tree kids) (hres : s.destroyStream x = .ok s') :
    ∃ kids', Shrinks s s' kids' [x] := by
  obtain ⟨t, hleave, hs'⟩ := bind_eq_ok.1 hres
  obtain rfl := (Except.ok.inj hs').symm
  have hfreed : ∀ {y}, s.freed y = true → update s.freed x true y = true := fun {y} hy => by
    rcases eq_or_ne y x with rfl | hyx
    · exact update_self ..
    · rwa [update_of_ne hyx]
  rcases eq_or_ne x root with rfl | hx
  · -- the root is never removed
    have ht : t = s.tree := by
      unfold leaveTree at hleave
      split_ifs at hleave
      · rw [streamDepRemove_eq_none h.root_depPrev] at hleave
        cases hleave
      · exact (Except.ok.inj hleave).symm
    exact ⟨kids, ht ▸ h, fun hy => by rwa [← ht], fun hy => Or.inl (by rwa [← ht] at hy), hfreed,
      by rw [ht], by rw [ht], rfl⟩
  · obtain ⟨t', kids', hleave', hch⟩ := h.leave hx
    obtain rfl : t = t' := Except.ok.inj (hleave.symm.trans hleave')
    refine ⟨kids', hch.tree, fun {y} hy => ((hch.inTree y).1 hy).1, fun {y} hy => ?_, hfreed,
      hch.allocated, hch.pending, rfl⟩
    rcases eq_or_ne y x with rfl | hyx
    · exact Or.inr ⟨List.mem_cons_self, update_self ..⟩
    · exact Or.inl ((hch.inTree y).2 ⟨hy, hyx⟩)

/-- The idle limit takes out of the tree what it destroys. -/
theorem adjustIdleLoop_shrinks {n : ℕ} (hres : adjustIdleLoop n s = .ok s')
    (h : WholeTree s.tree kids) : ∃ kids', Shrinks s s' kids' s.idleStreams := by
  induction n generalizing s kids with
  | zero =>
    obtain rfl := Except.ok.inj hres
    exact ⟨kids, Shrinks.refl h _⟩
  | succ n ih =>
    rw [adjustIdleLoop] at hres
    split_ifs at hres
    · split at hres
      · cases hres
      · next hidle =>
        obtain ⟨s1, hdestroy, hloop⟩ := bind_eq_ok.1 hres
        obtain ⟨k1, h1⟩ := destroyStream_shrinks h hdestroy
        obtain ⟨kids', h2⟩ := ih hloop h1.tree
        rw [hidle]
        exact ⟨kids', h1.trans ⟨h2.tree, h2.sub, h2.kept, h2.freed, h2.allocated, h2.pending,
          h2.info⟩⟩
    · obtain rfl := Except.ok.inj hres
      exact ⟨kids, Shrinks.refl h _⟩

/-! ## Reprioritising -/

/-- The tree of `s'` is whole.  It contains the streams of `s`, but for some of the
streams `l` that were freed, and besides them the streams `new`. -/
structure Grows (s s' : Session) (kids' : Ptr → List Ptr) (new : Ptr → Prop) (l : List Ptr) :
    Prop where
  tree : WholeTree s'.tree kids'
  sub : ∀ {y}, InTree s'.tree.dep y → InTree s.tree.dep y ∨ new y
  new : ∀ {y}, new y → InTree s'.tree.dep y
  kept : ∀ {y}, InTree s.tree.dep y → InTree s'.tree.dep y ∨ (y ∈ l ∧ s'.freed y = true)

/-- **An anchor** enters the tree, and streams that are evicted for it leave. -/
theorem openAnchor_grows (h : WholeTree s.tree kids) (hraw : s.getStreamRaw id = none)
    (hres : s.openAnchor id = .ok (s', x)) :
    x = s.tree.allocated ∧ ∃ kids', Grows s s' kids' (· = x) s.idleStreams := by
  have hreuse : s.reuseStream id .idle = .ok (s, none) := by
    simp only [reuseStream, hraw, makeRoom, ne_eq, not_true_eq_false, decide_false, Bool.and_false,
      Bool.false_and, Bool.false_eq_true, if_false]
    rfl
  simp only [openAnchor, hreuse, ok_bind] at hres
  obtain ⟨⟨s2, x2⟩, hlist, hrest⟩ := bind_eq_ok.1 hres
  obtain ⟨s3, hlink, hpure⟩ := bind_eq_ok.1 hrest
  obtain ⟨rfl, rfl⟩ : s3 = s' ∧ x2 = x := by simpa [pure, Except.pure] using hpure
  obtain ⟨⟨s1, x1⟩, hplace, hrest'⟩ := bind_eq_ok.1 hlist
  obtain ⟨s4, hcount, hpure⟩ := bind_eq_ok.1 hrest'
  obtain ⟨rfl, rfl⟩ : s4 = s2 ∧ x1 = x2 := by simpa [pure, Except.pure] using hpure
  -- the object is allocated
  simp only [placeStream] at hplace
  split_ifs at hplace
  obtain ⟨hs1, rfl⟩ := Prod.mk.inj (Except.ok.inj hplace)
  obtain ⟨halloc, hin1⟩ := h.alloc PrioritySpec.default.weight_mem
  have htree1 : s1.tree = streamAlloc s.tree defaultWeight := by
    rw [← hs1]
    rfl
  have hinfo1 : s1.info s.tree.allocated = freshInfo .idle := by
    rw [← hs1]
    exact update_self ..
  -- it is listed, and others may be evicted
  simp only [countStream] at hcount
  split_ifs at hcount
  obtain ⟨k2, hsh⟩ := adjustIdleLoop_shrinks hcount (htree1 ▸ halloc)
  have halloc2 : s4.tree.allocated = s.tree.allocated + 1 := by
    rw [hsh.allocated]
    show s1.tree.allocated = _
    rw [htree1]
    rfl
  have hsub2 : ∀ {y}, InTree s4.tree.dep y → InTree s.tree.dep y := fun {y} hy =>
    (hin1 y).1 (htree1 ▸ hsh.sub hy)
  have hidle1 : s1.idleStreams = s.idleStreams := by
    rw [← hs1]
    rfl
  have hkept2 : ∀ {y}, InTree s.tree.dep y →
      InTree s4.tree.dep y ∨ (y ∈ s.idleStreams ∧ s4.freed y = true) := fun {y} hy => by
    have hy1 : InTree s1.tree.dep y := by
      rw [htree1]
      exact (hin1 y).2 hy
    refine (hsh.kept hy1).imp_right fun hlost => ⟨?_, hlost.2⟩
    rcases List.mem_append.1 hlost.1 with hmem | hmem
    · rwa [← hidle1]
    · exact absurd (List.mem_singleton.1 hmem ▸ h.toTreeInv.lt_allocated hy) (lt_irrefl _)
  have hitem : s4.tree.sched.item s.tree.allocated = none := by
    rw [(StreamTree.item_eq_of_pending hsh.pending).1]
    show s1.tree.sched.item _ = none
    rw [htree1]
    exact update_self ..
  have hwr : (s4.info s.tree.allocated).shutWr = false := by
    rw [hsh.info]
    show (s1.info _).shutWr = false
    rw [hinfo1]
    rfl
  -- it is linked below the root
  simp only [linkStream, hwr, Bool.false_eq_true, if_false] at hlink
  split_ifs at hlink
  obtain rfl := Except.ok.inj hlink
  have hne : s.tree.allocated ≠ root := fun hroot => lt_irrefl _ (hroot ▸ h.root_lt)
  obtain ⟨kids', hch⟩ := hsh.tree.attach (Above.refl root) (halloc2 ▸ Nat.lt_succ_self _) hne
    (fun hy => lt_irrefl _ (h.toTreeInv.lt_allocated (hsub2 hy))) hitem false
  refine ⟨rfl, kids', hch.tree, fun {y} hy => ((hch.inTree y).1 hy).imp_left hsub2,
    fun {y} hy => ?_, fun {y} hy => (hkept2 hy).imp_left fun hy => (hch.inTree y).2 (Or.inl hy)⟩
  exact (hch.inTree y).2 (Or.inr hy)

theorem findLoop_key {m : ChainMap Ptr ℕ} {k : ℕ} {q : Option Ptr} (n : ℕ)
    (h : m.findLoop k n q = some x) : m.key x = k := by
  induction n generalizing q with
  | zero => cases q <;> cases h
  | succ n ih =>
    cases q with
    | none => cases h
    | some a =>
      rw [findLoop] at h
      split_ifs at h with hk
      · exact Option.some.inj h ▸ hk
      · exact ih h

/-- A dependency that need not be created is found. -/
theorem resolveDep_ok (hnot : ¬ s.createsAnchor pri) :
    ∃ d pri', s.resolveDep pri = .ok (s, d, pri') := by
  unfold resolveDep
  by_cases hzero : pri.streamId = 0
  · exact ⟨root, pri, by rw [if_pos hzero]; rfl⟩
  rw [if_neg hzero]
  cases hraw : s.getStreamRaw pri.streamId with
  | some y =>
    dsimp only
    split_ifs
    · exact ⟨y, pri, rfl⟩
    · exact ⟨root, .default, rfl⟩
  | none =>
    dsimp only
    split_ifs with hidle
    · rw [Bool.and_eq_true] at hidle
      exact absurd ⟨hzero, hraw, hidle⟩ hnot
    · exact ⟨root, .default, rfl⟩

/-- The stream and the dependency that exists are two streams of the tree. -/
theorem dep_of_not_anchor {pri' : PrioritySpec} (h : WholeTree s.tree kids) (hroot : x ≠ root)
    (hself : pri.streamId ≠ s.streamId x) (hd : (d = root ∧ pri'.streamId = 0) ∨
      (pri' = pri ∧ pri.streamId ≠ 0 ∧ s.getStreamRaw pri.streamId = some d ∧
        streamInDepTree s.tree.dep d = true)) :
    InTree s.tree.dep d ∧ x ≠ d ∧ (pri'.streamId = 0 → d = root) := by
  rcases hd with ⟨rfl, -⟩ | ⟨rfl, hne, hraw, hin⟩
  · exact ⟨Above.refl root, hroot, fun _ => rfl⟩
  · refine ⟨?_, fun hxd => hself (hxd ▸ (findLoop_key _ hraw).symm), fun hzero => absurd hzero hne⟩
    rcases eq_or_ne d root with rfl | hd
    · exact Above.refl root
    · exact (h.streamInDepTree_iff hd).1 hin

section Reprioritize

variable (h : WholeTree s.tree kids) (hx : InTree s.tree.dep x) (hroot : x ≠ root)
  (hself : pri.streamId ≠ s.streamId x)
include h hx hroot hself

/-- **Reprioritising a stream** of a whole tree.  If the idle stream it is to depend on
does not exist, that stream enters the tree, and idle streams may be evicted for it;
otherwise the same streams stay in the tree. -/
theorem reprioritizeStream_grows (hres : s.reprioritizeStream x pri = .ok s') :
    (s.createsAnchor pri → ∃ kids', Grows s s' kids' (· = s.tree.allocated) s.idleStreams) ∧
      (¬ s.createsAnchor pri → ∃ kids', Grows s s' kids' (fun _ => False) []) := by
  have hin := (h.streamInDepTree_iff hroot).2 hx
  simp only [reprioritizeStream, if_neg hself, hin, Bool.not_true, Bool.false_eq_true,
    if_false] at hres
  obtain ⟨⟨s1, d, pri'⟩, hdep, hrest⟩ := bind_eq_ok.1 hres
  dsimp only at hrest
  split_ifs at hrest with hfreed
  · cases hrest
  obtain ⟨t', hmove, hpure⟩ := bind_eq_ok.1 hrest
  obtain rfl := (Except.ok.inj hpure).symm
  rcases resolveDep_cases hdep with ⟨ha, hopen, rfl⟩ | ⟨hnot, rfl, hd⟩
  · refine ⟨fun _ => ?_, fun hnot => absurd ha hnot⟩
    obtain ⟨rfl, k1, hgrow⟩ := openAnchor_grows h ha.2.1 hopen
    have hx1 := (hgrow.kept hx).resolve_right fun hf => hfreed hf.2
    obtain ⟨t'', kids', hmove', hch⟩ := hgrow.tree.move hroot hx1 (hgrow.new rfl)
      (fun hxd => lt_irrefl _ (hxd ▸ h.toTreeInv.lt_allocated hx)) fun hzero => absurd hzero ha.1
    obtain rfl := Except.ok.inj (hmove.symm.trans hmove')
    exact ⟨kids', hch.tree, fun {y} hy => hgrow.sub ((hch.inTree y).1 hy),
      fun {y} hy => (hch.inTree y).2 (hgrow.new hy),
      fun {y} hy => (hgrow.kept hy).imp_left (hch.inTree y).2⟩
  · refine ⟨fun ha => absurd ha hnot, fun _ => ?_⟩
    obtain ⟨hdin, hxd, hzero⟩ := dep_of_not_anchor h hroot hself hd
    obtain ⟨t'', kids', hmove', hch⟩ := h.move hroot hx hdin hxd hzero
    obtain rfl := Except.ok.inj (hmove.symm.trans hmove')
    exact ⟨kids', hch.tree, fun {y} hy => Or.inl ((hch.inTree y).1 hy), False.elim,
      fun {y} hy => Or.inl ((hch.inTree y).2 hy)⟩

/-- Reprioritising succeeds if no stream has to be created for it. -/
theorem reprioritizeStream_ok (hlive : s.freed x = false) (hnot : ¬ s.createsAnchor pri) :
    ∃ s', s.reprioritizeStream x pri = .ok s' := by
  have hin := (h.streamInDepTree_iff hroot).2 hx
  obtain ⟨d, pri', hdep⟩ := resolveDep_ok hnot
  rcases resolveDep_cases hdep with ⟨ha, -⟩ | ⟨-, -, hd⟩
  · exact absurd ha hnot
  · obtain ⟨hdin, hxd, hzero⟩ := dep_of_not_anchor h hroot hself hd
    obtain ⟨t', kids', hmove, -⟩ := h.move hroot hx hdin hxd hzero
    refine ⟨{ s with tree := t' }, ?_⟩
    simp only [reprioritizeStream, if_neg hself, hin, Bool.not_true, Bool.false_eq_true, if_false,
      hdep, ok_bind, hlive, hmove]
    rfl

end Reprioritize

/-! ## Calls -/

/-- A call of a dependency operation, or the allocation of a stream object that the
caller may then attach. -/
inductive DepCall
  | create (w : ℤ)
  | add (d x : Ptr)
  | insert (d x : Ptr)
  | remove (x : Ptr)
  | addSubtree (d x : Ptr)
  | insertSubtree (d x : Ptr)
  | removeSubtree (x : Ptr)
  | reprioritize (x : Ptr) (pri : PrioritySpec)

/-- What a call does. -/
def DepCall.apply (s : Session) : DepCall → Except Fault Session
  | .create w => pure { s with tree := streamAlloc s.tree w }
  | .add d x => pure { s with tree := streamDepAdd s.tree d x }
  | .insert d x => pure { s with tree := streamDepInsert s.tree d x }
  | .remove x =>
    match streamDepRemove s.tree x with
    | none => throw .assertFailed
    | some t => pure { s with tree := t }
  | .addSubtree d x => pure { s with tree := streamDepAddSubtree s.tree d x }
  | .insertSubtree d x => pure { s with tree := streamDepInsertSubtree s.tree d x }
  | .removeSubtree x =>
    match streamDepRemoveSubtree s.tree x with
    | none => throw .assertFailed
    | some t => pure { s with tree := t }
  | .reprioritize x pri => s.reprioritizeStream x pri

/-- The documented preconditions of a call.  A stream or subtree that is attached is
detached, and goes below a stream of the tree; a stream that is removed is in the tree
and has no item.  A stream that is reprioritised is in the tree and alive, is not to
depend on itself, and no subtree is cut off at the time, so that
`nghttp2_stream_in_dep_tree` tells the truth. -/
def DepCall.Allowed (s : Session) : DepCall → Prop
  | .create w => 1 ≤ w ∧ w ≤ 256
  | .add d x | .insert d x =>
    InTree s.tree.dep d ∧ x < s.tree.allocated ∧ x ≠ root ∧
      streamInDepTree s.tree.dep x = false ∧ s.tree.sched.item x = none
  | .remove x => InTree s.tree.dep x ∧ x ≠ root ∧ s.tree.sched.item x = none
  | .addSubtree d x | .insertSubtree d x =>
    InTree s.tree.dep d ∧ x < s.tree.allocated ∧ x ≠ root ∧ s.tree.dep.depPrev x = none
  | .removeSubtree x => InTree s.tree.dep x ∧ x ≠ root
  | .reprioritize x pri =>
    InTree s.tree.dep x ∧ x ≠ root ∧ s.freed x = false ∧ pri.streamId ≠ s.streamId x ∧
      ∀ y, streamInDepTree s.tree.dep y = true → InTree s.tree.dep y

/-- The streams that enter and leave the tree at a call.  A subtree enters and leaves as a
whole.  Reprioritising a stream moves streams only within the tree, unless the idle
stream it is to depend on does not exist: that stream is created and enters the tree, and
idle streams that the idle limit then evicts are freed and leave it. -/
def DepCall.Moves (s s' : Session) : DepCall → Prop
  | .create _ => ∀ y, InTree s'.tree.dep y ↔ InTree s.tree.dep y
  | .add _ x | .insert _ x => ∀ y, InTree s'.tree.dep y ↔ InTree s.tree.dep y ∨ y = x
  | .remove x => ∀ y, InTree s'.tree.dep y ↔ InTree s.tree.dep y ∧ y ≠ x
  | .addSubtree _ x | .insertSubtree _ x =>
    ∀ y, InTree s'.tree.dep y ↔ InTree s.tree.dep y ∨ Above s.tree.dep.depPrev x y
  | .removeSubtree x =>
    ∀ y, InTree s'.tree.dep y ↔ InTree s.tree.dep y ∧ ¬ Above s.tree.dep.depPrev x y
  | .reprioritize _ pri =>
    (¬ s.createsAnchor pri → ∀ y, InTree s'.tree.dep y ↔ InTree s.tree.dep y) ∧
    (s.createsAnchor pri → InTree s'.tree.dep s.tree.allocated ∧
      (∀ y, InTree s'.tree.dep y → InTree s.tree.dep y ∨ y = s.tree.allocated) ∧
      (∀ y, InTree s.tree.dep y →
        InTree s'.tree.dep y ∨ (y ∈ s.idleStreams ∧ s'.freed y = true)))

/-- The invariant of a run: no stream waits for a reason without an item. -/
structure DepInv (s : Session) (kids : Ptr → List Ptr) : Prop where
  tree : TreeInv s.tree kids
  defer : ∀ {x}, (s.tree.sched.deferred x).any = true → (s.tree.sched.item x).isSome = true

theorem DepInv.of_pending (h : DepInv s kids) (ht : TreeInv t kids')
    (hp : t.pending = s.tree.pending) : DepInv { s with tree := t } kids' := by
  obtain ⟨hitem, hdefer⟩ := StreamTree.item_eq_of_pending hp
  refine ⟨ht, fun {x} hx => ?_⟩
  replace hx : (t.sched.deferred x).any = true := hx
  show (t.sched.item x).isSome = true
  rw [hdefer] at hx
  rw [hitem]
  exact h.defer hx

/-- A tree without cut-off subtrees is whole. -/
theorem DepInv.whole (h : DepInv s kids)
    (hin : ∀ y, streamInDepTree s.tree.dep y = true → InTree s.tree.dep y) :
    WholeTree s.tree kids := by
  refine ⟨h.tree, fun {y} hy => hin y ?_, h.defer⟩
  obtain ⟨p, hp⟩ := Option.ne_none_iff_exists'.1 hy
  simp [streamInDepTree, hp]

variable {op : DepCall} {dep : DepLinks} {N : ℕ}

theorem above_iff_of_out (h : DepShape dep kids N)
    (hin : streamInDepTree dep x = false) : Above dep.depPrev x y ↔ y = x := by
  rw [above_iff_head]
  constructor
  · rintro (rfl | ⟨c, hc, -⟩)
    · rfl
    · have hnext : dep.depNext x = none := by
        simp only [streamInDepTree, Bool.or_eq_false_iff, Option.isSome_eq_false_iff,
          Option.isNone_iff_eq_none] at hin
        exact hin.1.1.2
      have hmem := h.mem_kids.2 hc
      rw [h.head, List.head?_eq_none_iff] at hnext
      simp [hnext] at hmem
  · rintro rfl
    exact Or.inl rfl

/-- **Step lemma**: an allowed call keeps the invariant, and moves the streams it is said
to move. -/
theorem DepInv.apply (h : DepInv s kids) (ha : op.Allowed s)
    (hres : op.apply s = .ok s') : (∃ kids', DepInv s' kids') ∧ op.Moves s s' := by
  have hparent : ∀ {x}, InTree s.tree.dep x → x ≠ root → ∃ p, s.tree.dep.depPrev x = some p :=
    fun hx hroot => ((above_iff.1 hx).resolve_left (Ne.symm hroot)).imp fun p hp => hp.1
  cases op with
  | create w =>
    obtain rfl := Except.ok.inj hres
    have hprev : (streamAlloc s.tree w).dep.depPrev = s.tree.dep.depPrev := by
      refine update_eq_self_iff.2 ?_
      by_contra hne
      obtain ⟨p, hp⟩ := Option.ne_none_iff_exists'.1 (Ne.symm hne)
      exact lt_irrefl _ (h.tree.wf.tree.rooted.lt_allocated hp).1
    refine ⟨⟨kids, (h.tree.wf.alloc ha).treeInv h.tree.root_notMem
      (Nat.lt_succ_of_lt h.tree.root_lt), fun {x} hx => ?_⟩, fun y => ?_⟩
    · rcases eq_or_ne x s.tree.allocated with rfl | hne
      · simp [streamAlloc, streamInit, DeferFlags.any] at hx
      · simp only [streamAlloc, streamInit, update_of_ne hne] at hx ⊢
        exact h.defer hx
    · rw [InTree, hprev]
      rfl
  | add d x =>
    obtain rfl := Except.ok.inj hres
    obtain ⟨hd, hxN, hx, hin, hitem⟩ := ha
    obtain ⟨hinv, hmem⟩ := h.tree.depAdd hd hxN hx hin hitem
    refine ⟨⟨_, h.of_pending hinv (streamDepAdd_pending ..)⟩, fun y => ?_⟩
    rw [← above_iff_of_out h.tree.wf.tree.toDepShape hin]
    exact hmem y
  | insert d x =>
    obtain rfl := Except.ok.inj hres
    obtain ⟨hd, hxN, hx, hin, hitem⟩ := ha
    obtain ⟨hinv, hmem⟩ := h.tree.depInsert hd hxN hx hin hitem
    refine ⟨⟨_, h.of_pending hinv (streamDepInsert_pending ..)⟩, fun y => ?_⟩
    rw [← above_iff_of_out h.tree.wf.tree.toDepShape hin]
    exact hmem y
  | remove x =>
    obtain ⟨hx, hroot, -⟩ := ha
    obtain ⟨p, hp⟩ := hparent hx hroot
    obtain ⟨t', hrem, hinv, -, hmem⟩ := h.tree.depRemove hp
    simp only [DepCall.apply, hrem] at hres
    obtain rfl := Except.ok.inj hres
    exact ⟨⟨_, h.of_pending hinv (streamDepRemove_pending hrem)⟩, hmem⟩
  | addSubtree d x =>
    obtain rfl := Except.ok.inj hres
    obtain ⟨hd, hxN, hx, hdet⟩ := ha
    obtain ⟨hinv, hmem⟩ := h.tree.depAddSubtree hd hxN hx hdet
    exact ⟨⟨_, h.of_pending hinv (streamDepAddSubtree_pending ..)⟩, hmem⟩
  | insertSubtree d x =>
    obtain rfl := Except.ok.inj hres
    obtain ⟨hd, hxN, hx, hdet⟩ := ha
    obtain ⟨hinv, hmem⟩ := h.tree.depInsertSubtree hd hxN hx hdet
    exact ⟨⟨_, h.of_pending hinv (streamDepInsertSubtree_pending ..)⟩, hmem⟩
  | removeSubtree x =>
    obtain ⟨p, hp⟩ := hparent ha.1 ha.2
    obtain ⟨t', hrem, hinv, -, -, hmem⟩ := h.tree.depRemoveSubtree hp
    simp only [DepCall.apply, hrem] at hres
    obtain rfl := Except.ok.inj hres
    exact ⟨⟨_, h.of_pending hinv (streamDepRemoveSubtree_pending hrem)⟩, hmem⟩
  | reprioritize x pri =>
    obtain ⟨hx, hroot, -, hself, hin⟩ := ha
    obtain ⟨hanchor, hnot⟩ := reprioritizeStream_grows (h.whole hin) hx hroot hself hres
    by_cases ha : s.createsAnchor pri
    · obtain ⟨kids', hgrow⟩ := hanchor ha
      exact ⟨⟨kids', hgrow.tree.toTreeInv, hgrow.tree.defer⟩, fun hn => absurd ha hn,
        fun _ => ⟨hgrow.new rfl, fun y hy => hgrow.sub hy, fun y hy => hgrow.kept hy⟩⟩
    · obtain ⟨kids', hgrow⟩ := hnot ha
      refine ⟨⟨kids', hgrow.tree.toTreeInv, hgrow.tree.defer⟩, fun _ y =>
        ⟨fun hy => ?_, fun hy => ?_⟩, fun ha' => absurd ha' ha⟩
      · exact (hgrow.sub hy).resolve_right id
      · exact (hgrow.kept hy).resolve_right fun hf => absurd hf.1 List.not_mem_nil

/-- An allowed call succeeds, but for the creation of a dependency. -/
theorem DepInv.apply_ok (h : DepInv s kids) (ha : op.Allowed s)
    (hop : ∀ x pri, op = .reprioritize x pri → ¬ s.createsAnchor pri) :
    ∃ s', op.apply s = .ok s' := by
  have hparent : ∀ {x}, InTree s.tree.dep x → x ≠ root → ∃ p, s.tree.dep.depPrev x = some p :=
    fun hx hroot => ((above_iff.1 hx).resolve_left (Ne.symm hroot)).imp fun p hp => hp.1
  cases op with
  | create w => exact ⟨_, rfl⟩
  | add d x => exact ⟨_, rfl⟩
  | insert d x => exact ⟨_, rfl⟩
  | remove x =>
    obtain ⟨p, hp⟩ := hparent ha.1 ha.2.1
    obtain ⟨t', hrem, -⟩ := h.tree.depRemove hp
    exact ⟨{ s with tree := t' }, by simp only [DepCall.apply, hrem]; rfl⟩
  | addSubtree d x => exact ⟨_, rfl⟩
  | insertSubtree d x => exact ⟨_, rfl⟩
  | removeSubtree x =>
    obtain ⟨p, hp⟩ := hparent ha.1 ha.2
    obtain ⟨t', hrem, -⟩ := h.tree.depRemoveSubtree hp
    exact ⟨{ s with tree := t' }, by simp only [DepCall.apply, hrem]; rfl⟩
  | reprioritize x pri =>
    obtain ⟨hx, hroot, hlive, hself, hin⟩ := ha
    exact reprioritizeStream_ok (h.whole hin) hx hroot hself hlive (hop x pri rfl)

/-! ## Runs -/

/-- The sessions that are reached from a new one by allowed calls. -/
inductive DepReachable : Session → Prop
  | new (server : Bool) (n p r : ℕ) : DepReachable (Session.new server n p r)
  | call {s s' : Session} {op : DepCall} (hs : DepReachable s) (ha : op.Allowed s)
      (hres : op.apply s = .ok s') : DepReachable s'

/-- **Run lemma.** -/
theorem DepReachable.inv (h : DepReachable s) : ∃ kids, DepInv s kids := by
  induction h with
  | new server n p r => exact ⟨_, loneRoot_inv, loneRoot_whole.defer⟩
  | call _ ha hres ih =>
    obtain ⟨kids, hinv⟩ := ih
    exact (hinv.apply ha hres).1

/-- Next and previous siblings are inverse to each other. -/
theorem sibNext_iff (h : DepShape dep kids N) :
    dep.sibNext c = some d ↔ dep.sibPrev d = some c := by
  constructor
  · intro hnext
    cases hc : dep.depPrev c with
    | none =>
      rw [(h.detached hc).2] at hnext
      cases hnext
    | some p =>
      obtain ⟨l1, l2, -, -, hhead, -, hseg⟩ := h.split hc
      rw [hnext] at hhead
      obtain ⟨l3, rfl⟩ : ∃ l3, l2 = d :: l3 := List.head?_eq_some_iff.1 hhead.symm
      exact hseg.1
  intro hprev
  cases hd : dep.depPrev d with
  | none =>
    rw [(h.detached hd).1] at hprev
    cases hprev
  | some p =>
    obtain ⟨l1, l2, -, hlast, -, hseg, -⟩ := h.split hd
    rw [hprev] at hlast
    obtain ⟨l0, rfl⟩ := List.getLast?_eq_some_iff.1 hlast.symm
    rw [seg_append] at hseg
    exact (seg_singleton.1 hseg.2).2

/-- **The dependency tree**, as the pointers and weights of the stream objects describe
it.  `kids p` lists the direct children of `p`.  The sums are those of the source as long
as they are in the range of `int32_t`. -/
structure IsDepTree (dep : DepLinks) (kids : Ptr → List Ptr) (allocated : ℕ) : Prop where
  parent : ∀ p c, c ∈ kids p ↔ dep.depPrev c = some p
  nodup : ∀ p, (kids p).Nodup
  first : ∀ p, dep.depNext p = (kids p).head?
  first_sibPrev : ∀ p c, dep.depNext p = some c → dep.sibPrev c = none
  sibling : ∀ c d, dep.sibNext c = some d ↔ dep.sibPrev d = some c
  sibling_parent : ∀ c d, dep.sibNext c = some d → ∃ p, dep.depPrev c = some p ∧
    dep.depPrev d = some p
  root : dep.depPrev root = none
  acyclic : ∀ c p, dep.depPrev c = some p → ¬ Above dep.depPrev c p
  finite : ∀ x, InTree dep x → x < allocated
  weight : ∀ x, x < allocated → 1 ≤ dep.weight x ∧ dep.weight x ≤ 256
  sum : ∀ p, dep.sumDepWeight p = ((kids p).map dep.weight).sum
  divisor : ∀ c p, dep.depPrev c = some p → 0 < dep.sumDepWeight p
  int32 : ∀ p, (kids p).length < 2 ^ 23 → 0 ≤ dep.sumDepWeight p ∧ dep.sumDepWeight p < 2 ^ 31

theorem isDepTree_of_inv (h : TreeInv t kids) : IsDepTree t.dep kids t.allocated where
  parent p c := h.wf.tree.mem_kids
  nodup := h.wf.tree.nodup
  first := h.wf.tree.head
  first_sibPrev p c hc := by
    rw [h.wf.tree.head] at hc
    obtain ⟨l, hl⟩ := List.head?_eq_some_iff.1 hc
    have hseg := h.wf.tree.seg p
    rw [hl] at hseg
    exact hseg.1
  sibling c d := sibNext_iff h.wf.tree.toDepShape
  sibling_parent c d hnext := by
    cases hc : t.dep.depPrev c with
    | none =>
      rw [(h.wf.tree.detached hc).2] at hnext
      cases hnext
    | some p =>
      obtain ⟨l1, l2, hl, -, hhead, -⟩ := h.wf.tree.split hc
      rw [hnext] at hhead
      obtain ⟨l3, rfl⟩ : ∃ l3, l2 = d :: l3 := List.head?_eq_some_iff.1 hhead.symm
      exact ⟨p, rfl, h.wf.tree.mem_kids.1 (by rw [hl]; simp)⟩
  root := h.root_depPrev
  acyclic c p hc := h.wf.tree.rooted.grounded.not_above_parent hc
  finite x hx := h.lt_allocated hx
  weight x hx := h.wf.tree.weight hx
  sum := h.wf.tree.sum
  divisor c p hc := (h.wf.tree.sumDepWeight_pos (h.wf.tree.mem_kids.2 hc)).2
  int32 p hfew := by
    refine ⟨?_, h.wf.tree.sumDepWeight_lt hfew⟩
    cases hk : kids p with
    | nil => simp [h.wf.tree.sum, hk]
    | cons c l => exact (h.wf.tree.sumDepWeight_pos (hk ▸ List.mem_cons_self)).2.le

/-- **The dependency tree stays a tree.**  In every session reached by dependency
operations and reprioritisations, the pointers form a tree with correct weights; an
allowed call moves just the streams it is said to move; and it succeeds, but for the
creation of a dependency. -/
theorem isDepTree_of_depReachable (h : DepReachable s) :
    (∃ kids, IsDepTree s.tree.dep kids s.tree.allocated) ∧
    (∀ (op : DepCall) (s' : Session), op.Allowed s → op.apply s = .ok s' → op.Moves s s') ∧
    (∀ op : DepCall, op.Allowed s →
      (∀ x pri, op = .reprioritize x pri → ¬ s.createsAnchor pri) → ∃ s', op.apply s = .ok s') := by
  obtain ⟨kids, hinv⟩ := h.inv
  exact ⟨⟨kids, isDepTree_of_inv hinv.tree⟩, fun op s' ha hres => (hinv.apply ha hres).2,
    fun op ha hop => hinv.apply_ok ha hop⟩

/-- A server session with one stream below the root, which keeps two idle streams. -/
def oneStream : Session :=
  { Session.new true 2 2 200 with tree := streamDepAdd (streamAlloc loneRoot 16) root 1 }

theorem oneStream_reachable : DepReachable oneStream :=
  .call (.call (.new true 2 2 200)
    (show DepCall.Allowed _ (.create 16) from ⟨by decide, by decide⟩) rfl)
    (show DepCall.Allowed _ (.add root 1) from
      ⟨Above.refl root, by decide, by decide, by decide, by decide⟩) rfl

/-- A second stream is inserted between the root and the first, and could be removed again. -/
theorem insert_isDepTree : ∃ s s' kids, DepReachable s ∧ IsDepTree s.tree.dep kids 3 ∧
    s.tree.dep.depPrev 1 = some 2 ∧ s.tree.dep.depPrev 2 = some root ∧
    s.tree.dep.sumDepWeight root = 256 ∧ s.tree.dep.sumDepWeight 2 = 16 ∧
    DepCall.apply s (.remove 2) = .ok s' ∧ ∀ y, InTree s'.tree.dep y ↔
      InTree s.tree.dep y ∧ y ≠ 2 := by
  let a : Session := { oneStream with tree := streamAlloc oneStream.tree 256 }
  let b : Session := { a with tree := streamDepInsert a.tree root 2 }
  have ha : DepReachable a := oneStream_reachable.call
    (show DepCall.Allowed _ (.create 256) from ⟨by decide, by decide⟩) rfl
  have hb : DepReachable b := ha.call (show DepCall.Allowed _ (.insert root 2) from
    ⟨Above.refl root, by decide, by decide, by decide, by decide⟩) rfl
  obtain ⟨⟨kids, htree⟩, hmoves, hok⟩ := isDepTree_of_depReachable hb
  have hin : InTree b.tree.dep 2 := above_iff.2 (Or.inr ⟨root, by decide, Above.refl root⟩)
  have hallowed : DepCall.Allowed b (.remove 2) := ⟨hin, by decide, by decide⟩
  obtain ⟨s', hres⟩ := hok (.remove 2) hallowed (by simp)
  exact ⟨b, s', kids, hb, htree, by decide, by decide, by decide, by decide, hres,
    hmoves _ s' hallowed hres⟩

theorem oneStream_whole : ∃ kids, WholeTree oneStream.tree kids := by
  obtain ⟨halloc, -⟩ := loneRoot_whole.alloc (w := 16) (by decide)
  have hout : ¬ InTree (streamAlloc loneRoot 16).dep 1 := fun hin => by
    obtain ⟨p, hp, -⟩ := (above_iff.1 hin).resolve_left (by decide)
    rw [show (streamAlloc loneRoot 16).dep.depPrev 1 = none by decide] at hp
    cases hp
  obtain ⟨kids, hch⟩ := halloc.attach (Above.refl root) (x := 1) (by decide) (by decide) hout
    (by decide) false
  exact ⟨kids, hch.tree⟩

/-- A stream below the root is in the tree, and so is one below it. -/
theorem inTree_of_depPrev (hc : dep.depPrev c = some p) (hp : InTree dep p) :
    InTree dep c := above_iff.2 (Or.inr ⟨p, hc, hp⟩)

/-- In a whole tree a live stream may be reprioritised, and leaves a whole tree. -/
theorem reprioritize_whole (h : ∃ kids, WholeTree s.tree kids) (hx : InTree s.tree.dep x)
    (hroot : x ≠ root) (hlive : s.freed x = false) (hself : pri.streamId ≠ s.streamId x)
    (hres : s.reprioritizeStream x pri = .ok s') :
    DepCall.Allowed s (.reprioritize x pri) ∧ ∃ kids, WholeTree s'.tree kids := by
  obtain ⟨kids, h⟩ := h
  refine ⟨⟨hx, hroot, hlive, hself, fun y hy => ?_⟩, ?_⟩
  · rcases eq_or_ne y root with rfl | hy'
    · exact Above.refl root
    · exact (h.streamInDepTree_iff hy').1 hy
  · obtain ⟨hanchor, hnot⟩ := reprioritizeStream_grows h hx hroot hself hres
    by_cases ha : s.createsAnchor pri
    · exact (hanchor ha).imp fun _ hg => hg.tree
    · exact (hnot ha).imp fun _ hg => hg.tree

/-- **Other streams enter and leave.**  A stream is made to depend on stream 1 and that one
on stream 3, neither of which exists.  When stream 3 is made to depend on stream 5, the
stream object for stream 5 enters the tree, and the one for stream 1 is evicted and leaves
it. -/
theorem reprioritize_moves_others :
    ∃ s s', DepReachable s ∧ s.getStreamRaw 3 = some 3 ∧ s.getStreamRaw 1 = some 2 ∧
      DepCall.Allowed s (.reprioritize 3 (.dependsOn 5)) ∧
      DepCall.apply s (.reprioritize 3 (.dependsOn 5)) = .ok s' ∧
      InTree s.tree.dep 2 ∧ ¬ InTree s'.tree.dep 2 ∧
      ¬ InTree s.tree.dep 4 ∧ InTree s'.tree.dep 4 := by
  -- the parents of the stream objects after each call, and that the stream to move is alive
  have heval : (oneStream.reprioritizeStream 1 (.dependsOn 1) >>= fun a =>
      a.reprioritizeStream 2 (.dependsOn 3) >>= fun b =>
      b.reprioritizeStream 3 (.dependsOn 5) >>= fun c => .ok (decide (
        (a.tree.dep.depPrev 2 = some 0 ∧ a.freed 2 = false ∧ a.streamId 2 = 1) ∧
        (b.tree.dep.depPrev 2 = some 3 ∧ b.tree.dep.depPrev 3 = some 0 ∧
          b.tree.dep.depPrev 4 = none ∧ b.freed 3 = false ∧ b.streamId 3 = 3 ∧
          b.getStreamRaw 1 = some 2 ∧ b.getStreamRaw 3 = some 3) ∧
        c.tree.dep.depPrev 2 = none ∧ c.tree.dep.depPrev 4 = some 0))) = .ok true := by
    decide +kernel
  obtain ⟨a, ha, hb⟩ := bind_eq_ok.1 heval
  obtain ⟨b, hb, hc⟩ := bind_eq_ok.1 hb
  obtain ⟨c, hc, hobs⟩ := bind_eq_ok.1 hc
  rw [Except.ok.injEq, decide_eq_true_eq] at hobs
  obtain ⟨⟨ha2, hafreed, haid⟩, ⟨hb2, hb3, hb4, hbfreed, hbid, hraw1, hraw3⟩, hc2, hc4⟩ := hobs
  have hroot : ∀ {dep : DepLinks}, InTree dep 0 := Above.refl root
  have hout : ∀ {dep : DepLinks} {x : Ptr}, dep.depPrev x = none → x ≠ root → ¬ InTree dep x := by
    intro dep x hx hne hin
    obtain ⟨p, hp, -⟩ := (above_iff.1 hin).resolve_left (Ne.symm hne)
    simp [hx] at hp
  obtain ⟨hallowed1, hwhole1⟩ := reprioritize_whole oneStream_whole (x := 1)
    (inTree_of_depPrev (p := 0) (by decide) hroot) (by decide) (by decide) (by decide) ha
  obtain ⟨hallowed2, hwhole2⟩ := reprioritize_whole hwhole1 (x := 2)
    (inTree_of_depPrev ha2 hroot) (by decide) hafreed (by rw [haid]; decide) hb
  have hin3 := inTree_of_depPrev hb3 hroot
  obtain ⟨hallowed3, -⟩ := reprioritize_whole hwhole2 (x := 3) hin3 (by decide) hbfreed
    (by rw [hbid]; decide) hc
  exact ⟨b, c, (oneStream_reachable.call hallowed1 ha).call hallowed2 hb, hraw3, hraw1, hallowed3,
    hc, inTree_of_depPrev hb2 hin3, hout hc2 (by decide), hout hb4 (by decide),
    inTree_of_depPrev hc4 hroot⟩

end Session

end Nghttp2
