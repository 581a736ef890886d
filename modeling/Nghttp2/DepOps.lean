/-
# The dependency operations keep the tree and the schedule

For each of `nghttp2_stream_dep_add`, `dep_insert`, `dep_remove`, `dep_add_subtree`,
`dep_insert_subtree` and `dep_remove_subtree`:

* the representation invariant `DepTree` holds afterwards, for the children lists
  the operation is meant to produce;
* the scheduling invariant holds afterwards;
* the streams below the root are those before, with the streams that were attached
  and without those that were taken out (`inTree_…`).
-/
import Nghttp2.DepTree
import Nghttp2.ObqHeap

namespace Nghttp2

open LinkedChain ParentForest
open Function (update update_apply update_comm update_eq_self update_of_ne update_self)

variable {t : StreamTree} {kids : Ptr → List Ptr} {c d p x y : Ptr} {l : List Ptr}

/-! ## `nghttp2_stream_dep_add` and `nghttp2_stream_dep_add_subtree` -/

/-- The dependency fields after `nghttp2_stream_dep_add`. -/
def addLinks (dep : DepLinks) (d x : Ptr) : DepLinks :=
  linkFront (dep.setSumDepWeight d (dep.sumDepWeight d + dep.weight x)) d x

theorem streamDepAdd_eq (t : StreamTree) (d x : Ptr) :
    streamDepAdd t d x = { t with dep := addLinks t.dep d x } := rfl

theorem linkFront_eq_addSubtree (dep : DepLinks) (d x : Ptr) :
    (if (dep.depNext d).isSome then insertLinkDep dep d x else linkDep dep d (some x)) =
      linkFront dep d x := by
  unfold linkFront
  cases dep.depNext d <;> rfl

theorem addLinks_depPrev (hx : t.dep.sibNext x = none) (d : Ptr) :
    (addLinks t.dep d x).depPrev = update t.dep.depPrev x (some d) := by
  have hx' : (t.dep.setSumDepWeight d (t.dep.sumDepWeight d + t.dep.weight x)).sibNext x = none :=
    hx
  rw [addLinks, linkFront_eq hx', linkDep]
  simp [DepLinks.setDepPrevOf, DepLinks.setDepNextOf, DepLinks.setSumDepWeight]

theorem addLinks_weight (hx : t.dep.sibNext x = none) (d : Ptr) :
    (addLinks t.dep d x).weight = t.dep.weight ∧ (addLinks t.dep d x).sumDepWeight =
      update t.dep.sumDepWeight d (t.dep.sumDepWeight d + t.dep.weight x) := by
  have hx' : (t.dep.setSumDepWeight d (t.dep.sumDepWeight d + t.dep.weight x)).sibNext x = none :=
    hx
  rw [addLinks, linkFront_eq hx']
  simp [DepLinks.setSumDepWeight]

/-- Adding a detached stream as the first child of `d`. -/
theorem DepTree.addLinks (h : DepTree t.dep kids t.allocated) (hx : t.dep.depPrev x = none)
    (hxd : ¬ Above t.dep.depPrev x d) (hxN : x < t.allocated) (hdN : d < t.allocated) :
    DepTree (Nghttp2.addLinks t.dep d x) (update kids d (x :: kids d)) t.allocated := by
  have hshape : DepShape (t.dep.setSumDepWeight d (t.dep.sumDepWeight d + t.dep.weight x)) kids
      t.allocated := h.toDepShape.of_links rfl rfl rfl rfl
  obtain ⟨hw, hsum⟩ := addLinks_weight (h.detached hx).2 d
  refine ⟨hshape.attachFront hx hxd hxN hdN, fun p => ?_, fun {y} hy => ?_⟩
  · rw [hw, hsum]
    rcases eq_or_ne p d with rfl | hpd
    · rw [update_self, update_self, List.map_cons, List.sum_cons, h.sum p]
      exact add_comm _ _
    · rw [update_of_ne hpd, update_of_ne hpd]
      exact h.sum p
  · rw [hw]
    exact h.weight hy

/-! ## `nghttp2_stream_dep_remove_subtree` -/

/-- The dependency fields after `nghttp2_stream_dep_remove_subtree`. -/
def removeSubtreeLinks (dep : DepLinks) (p x : Ptr) : DepLinks :=
  clearUp ((cutLinks dep p x).setSumDepWeight p (dep.sumDepWeight p - dep.weight x)) x

theorem cutLinks_weight (dep : DepLinks) (p x : Ptr) :
    (cutLinks dep p x).weight = dep.weight ∧ (cutLinks dep p x).sumDepWeight =
      dep.sumDepWeight := by
  unfold cutLinks
  cases dep.sibPrev x <;> cases dep.sibNext x <;> simp [DepLinks.setSibPrevOf]

theorem streamDepRemoveSubtree_eq (hx : t.dep.depPrev x = some p) :
    streamDepRemoveSubtree t x = some { t with
      dep := removeSubtreeLinks t.dep p x
      sched := if t.sched.queued x then
          streamObqRemove ((cutLinks t.dep p x).setSumDepWeight p
            (t.dep.sumDepWeight p - t.dep.weight x)) t.turns t.sched x
        else t.sched } := by
  obtain ⟨hw, hs⟩ := cutLinks_weight t.dep p x
  rw [← hw, ← hs]
  unfold streamDepRemoveSubtree removeSubtreeLinks clearUp cutLinks
  rw [hx]
  cases t.dep.sibPrev x <;> cases t.dep.sibNext x <;> rfl

theorem DepTree.removeSubtreeLinks (h : DepTree t.dep kids t.allocated)
    (hx : t.dep.depPrev x = some p) :
    DepTree (Nghttp2.removeSubtreeLinks t.dep p x) (update kids p ((kids p).erase x))
      t.allocated := by
  obtain ⟨hw, hs⟩ := cutLinks_weight t.dep p x
  have hshape := h.toDepShape.cutSubtree hx
  refine ⟨hshape.of_links rfl rfl rfl rfl, fun q => ?_, fun {y} hy => ?_⟩
  · show update (cutLinks t.dep p x).sumDepWeight p _ q =
      (List.map (cutLinks t.dep p x).weight _).sum
    rw [hw, hs]
    rcases eq_or_ne q p with rfl | hqp
    · rw [update_self, update_self, h.sum q,
        ← List.sum_map_erase t.dep.weight (h.mem_kids.2 hx)]
      ring
    · rw [update_of_ne hqp, update_of_ne hqp]
      exact h.sum q
  · show 1 ≤ (cutLinks t.dep p x).weight y ∧ (cutLinks t.dep p x).weight y ≤ 256
    rw [hw]
    exact h.weight hy

/-! ## Children that change their parent -/

theorem foldl_adoptChild_dep (dest src : Ptr) (l : List Ptr) (t : StreamTree) :
    (l.foldl (adoptChild dest src) t).dep = t.dep.setDepPrevs l (some dest) ∧
      (l.foldl (adoptChild dest src) t).allocated = t.allocated := by
  have hdep : ∀ (l : List Ptr) (t : StreamTree), (l.foldl (adoptChild dest src) t).dep =
      l.foldl (fun dep si => dep.setDepPrevOf si (some dest)) t.dep := by
    intro l
    induction l with
    | nil => exact fun _ => rfl
    | cons c l ih => exact fun t => ih _
  refine ⟨by rw [hdep, foldl_setDepPrevOf], ?_⟩
  induction l generalizing t with
  | nil => rfl
  | cons c l ih => exact ih _

/-- The schedule while children of `src` are being handed to `dest`: `dest` may be
missing from its queue, and the entry of `src` may be idle, but only if `dest` has
taken over a queued child. -/
structure Adopting (par : Ptr → Option Ptr) (dest src : Ptr) (s : Sched) : Prop where
  wf : ObqWF s
  located : Located par s
  noLost : ∀ y, y ≠ dest → NoLost par s y
  noIdle : ∀ y, y ≠ src → NoIdle s y
  settled : NoIdle s src ∨ ∃ z, z ∈ s.obq dest

variable {dep : DepLinks} {dest src : Ptr} {par : Ptr → Option Ptr} {s : Sched} {N n turns : ℕ}

theorem Scheduled.adopting (h : Scheduled par s) (dest src : Ptr) : Adopting par dest src s :=
  ⟨h.wf, h.located, fun y _ => h.noLost y, fun y _ => h.noIdle y, Or.inl (h.noIdle src)⟩

/-- One child changes hands. -/
theorem Adopting.move {si : Ptr} (dep : DepLinks) (h : Adopting par dest src s)
    (hsi : par si = some src) (hsrc : si ≠ src)
    (hup : BoundedPaths (fun c p => par c = some p) n dest)
    (hchain : ∀ a, Above par a dest → a ≠ si ∧ dep.depPrev a = par a) :
    Adopting (update par si (some dest)) dest src
        (streamObqMove dep (n + 1) s dest src si) ∧
      (NoLost par s dest → NoLost (update par si (some dest))
        (streamObqMove dep (n + 1) s dest src si) dest) := by
  have hagree : ∀ a, Above par a dest → update par si (some dest) a = par a :=
    fun a ha => update_of_ne (hchain a ha).1 _ _
  have hdest : dest ≠ si := (hchain dest (Above.refl dest)).1
  have hlost : ∀ y, y ≠ dest → NoLost (update par si (some dest)) s y := by
    intro y hy hpar hact
    refine h.noLost y hy ?_ hact
    rcases eq_or_ne y si with rfl | hysi
    · simp [hsi]
    · rwa [update_of_ne hysi] at hpar
  obtain ⟨hwf, hloc, hlost', hidle, -, hcase⟩ := streamObqMove_spec h.wf
    (fun {p y} hy hp => (update_of_ne hy _ _).trans (h.located hp))
    (fun hq => h.wf.mem_obq_of_queued h.located hq hsi) hsrc (hup.up_of_agree hagree)
    (fun a ha => by
      rw [above_iff_of_agree hagree] at ha
      rw [(hchain a ha).2, hagree a ha])
    (update_self ..) hlost h.noIdle (streamObqMove dep (n + 1) s dest src si) rfl
  refine ⟨⟨hwf, hloc, hlost', hidle, ?_⟩, fun hd => ?_⟩
  · rcases hcase with heq | ⟨-, hmem⟩
    · rw [heq]
      exact h.settled
    · exact Or.inr ⟨si, hmem⟩
  · rcases hcase with heq | ⟨hd', -⟩
    · rw [heq]
      unfold NoLost at hd ⊢
      rwa [update_of_ne hdest]
    · exact hd'

theorem update_then_mem (c dest : Ptr) (l : List Ptr) :
    (fun c' => if c' ∈ l then some dest else update par c (some dest) c') =
      fun c' => if c' ∈ c :: l then some dest else par c' := by
  funext c'
  simp only [List.mem_cons, update_apply]
  split_ifs <;> tauto

/-- A list of children changes hands. -/
theorem Adopting.adoptChildren (h : Adopting par dest src t.sched) (hn : t.turns = n + 1)
    (hnodup : l.Nodup) (hl : ∀ si ∈ l, par si = some src) (hsrc : src ∉ l)
    (hup : BoundedPaths (fun c p => par c = some p) n dest)
    (hchain : ∀ a, Above par a dest → a ∉ l ∧ t.dep.depPrev a = par a) :
    Adopting (fun c => if c ∈ l then some dest else par c) dest src
        (l.foldl (adoptChild dest src) t).sched ∧
      (t.sched.Heaps → (l.foldl (adoptChild dest src) t).sched.Heaps) := by
  induction l generalizing t par with
  | nil => simpa using h
  | cons c l ih =>
    obtain ⟨hcl, hnodup⟩ := List.nodup_cons.1 hnodup
    have hne : ∀ a, Above par a dest → a ≠ c := fun a ha hac => (hchain a ha).1 (by simp [hac])
    have hagree : ∀ a, Above par a dest → update par c (some dest) a = par a :=
      fun a ha => update_of_ne (hne a ha) _ _
    have hstep := (h.move (t.dep.setDepPrevOf c (some dest)) (hl c (by simp))
      (fun hc => hsrc (by simp [hc])) hup (fun a ha => ⟨hne a ha, by
        rw [← (hchain a ha).2]
        exact update_of_ne (hne a ha) _ _⟩)).1
    rw [← hn] at hstep
    have hrest := ih (t := adoptChild dest src t c) hstep hn hnodup
      (fun si hsi => by
        rw [update_of_ne (ne_of_mem_of_not_mem hsi hcl)]
        exact hl si (by simp [hsi]))
      (fun hs => hsrc (by simp [hs])) (hup.up_of_agree hagree)
      (fun a ha => by
        rw [above_iff_of_agree hagree] at ha
        refine ⟨fun hal => (hchain a ha).1 (by simp [hal]), ?_⟩
        rw [hagree a ha, ← (hchain a ha).2]
        exact update_of_ne (hne a ha) _ _)
    rw [update_then_mem] at hrest
    refine ⟨hrest.1, fun hheaps => hrest.2 (streamObqMove_heaps _ _ h.wf (fun hq => ?_) hheaps)⟩
    exact h.wf.mem_obq_of_queued h.located hq (hl c (by simp))

/-- Entering `dest` itself afterwards, if it leads to something to send, completes
the schedule. -/
theorem Adopting.finish (dep : DepLinks) (h : Adopting par x d s) (hx : par x = some d)
    (hxd : x ≠ d) (hup : BoundedPaths (fun c p => par c = some p) n d)
    (hagree : ∀ a, Above par a d → dep.depPrev a = par a) :
    Scheduled par
      (if streamSubtreeActive s x then streamObqPush dep (n + 1) s (some d) x else s) := by
  split
  next hact =>
    obtain ⟨hpush, hlost, hq⟩ := streamObqPush_spec h.wf h.located hup hagree hx hact
      (fun y hyx _ => h.noLost y hyx) (fun _ => h.noLost d hxd.symm)
    refine ⟨hpush.wf, hpush.located, hlost, fun y => ?_⟩
    rcases eq_or_ne y d with rfl | hyd
    · exact fun _ => streamSubtreeActive_of_mem
        (hpush.wf.mem_obq_of_queued hpush.located hq hx)
    · exact hpush.noIdle y (h.noIdle y hyd)
  next hact =>
    refine ⟨h.wf, h.located, fun y => ?_, fun y => ?_⟩
    · rcases eq_or_ne y x with rfl | hyx
      · exact fun _ hact' => absurd hact' hact
      · exact h.noLost y hyx
    · rcases eq_or_ne y d with rfl | hyd
      · refine h.settled.resolve_right ?_
        rintro ⟨z, hz⟩
        exact hact (streamSubtreeActive_of_mem hz)
      · exact h.noIdle y hyd

/-- A detached stream that gets the parent `d` is the only one that may be missing. -/
theorem Adopting.attach (h : Adopting par x d s)
    (hx : par x = none) (e : Ptr) : Adopting (update par x (some e)) x d s := by
  have hq := h.wf.not_queued_of_root h.located hx
  refine ⟨h.wf, fun p y hy => ?_, fun y hyx => ?_, h.noIdle, h.settled⟩
  · have hyx : y ≠ x := by
      rintro rfl
      have := (h.wf.queued_iff y).2 ⟨p, hy⟩
      simp [hq] at this
    rw [update_of_ne hyx]
    exact h.located hy
  · have := h.noLost y hyx
    unfold NoLost at this ⊢
    rwa [update_of_ne hyx]

/-! ## The schedule after attaching and cutting -/

/-- The invariant of a stream tree: representation and schedule. -/
structure StreamTree.WF (t : StreamTree) (kids : Ptr → List Ptr) : Prop where
  tree : DepTree t.dep kids t.allocated
  sched : t.Scheduled

theorem not_above_update (hxd : ¬ Above t.dep.depPrev x d) (v : Option Ptr) :
    ∀ a, Above t.dep.depPrev a d → update t.dep.depPrev x v a = t.dep.depPrev a := by
  intro a ha
  refine update_of_ne ?_ _ _
  rintro rfl
  exact hxd ha

theorem streamDepAddSubtree_eq (t : StreamTree) (d x : Ptr) :
    streamDepAddSubtree t d x = pushIfActive { t with dep := addLinks t.dep d x } d x := by
  simp only [streamDepAddSubtree, linkFront_eq_addSubtree]
  rfl

/-- **`nghttp2_stream_dep_add_subtree`.** -/
theorem StreamTree.WF.depAddSubtree (h : t.WF kids) (hx : t.dep.depPrev x = none)
    (hxd : ¬ Above t.dep.depPrev x d) (hxN : x < t.allocated) (hdN : d < t.allocated) :
    (streamDepAddSubtree t d x).WF (update kids d (x :: kids d)) := by
  have hne : x ≠ d := by
    rintro rfl
    exact hxd (Above.refl _)
  have hsn := (h.tree.detached hx).2
  have hprev := addLinks_depPrev hsn d
  have hagree := not_above_update hxd (some d)
  rw [streamDepAddSubtree_eq]
  refine ⟨h.tree.addLinks hx hxd hxN hdN, ?_⟩
  unfold StreamTree.Scheduled pushIfActive
  dsimp only
  rw [hprev]
  refine ((h.sched.adopting x d).attach hx d).finish _ (update_self ..) hne
    ((h.tree.rooted.up d).up_of_agree hagree) fun a _ => ?_
  rw [hprev]

/-- **`nghttp2_stream_dep_add`**, of a stream that leads to nothing to send. -/
theorem StreamTree.WF.depAdd (h : t.WF kids) (hx : t.dep.depPrev x = none)
    (hxd : ¬ Above t.dep.depPrev x d) (hxN : x < t.allocated) (hdN : d < t.allocated)
    (hact : streamSubtreeActive t.sched x = false) :
    (streamDepAdd t d x).WF (update kids d (x :: kids d)) := by
  have hsub := h.depAddSubtree hx hxd hxN hdN
  have heq : streamDepAddSubtree t d x = streamDepAdd t d x := by
    rw [streamDepAddSubtree_eq, streamDepAdd_eq, pushIfActive, if_neg (by simp [hact])]
  rwa [heq] at hsub

theorem streamObqRemove_of_not_queued :
    (if s.queued x then streamObqRemove dep n s x else s) = streamObqRemove dep n s x := by
  unfold streamObqRemove
  split <;> simp_all

/-- A stream that was taken out of its queue can lose its parent. -/
theorem Removed.detach {s' : Sched} (h : Removed par s s' x) (hloc : Located par s)
    (hlost : ∀ y, y ≠ x → NoLost par s y) : Scheduled (update par x none) s' := by
  refine ⟨h.wf, fun q y hy => ?_, fun y => ?_, h.noIdle⟩
  · have hyx : y ≠ x := by
      rintro rfl
      have := (h.wf.queued_iff y).2 ⟨q, hy⟩
      simp [h.not_queued] at this
    rw [update_of_ne hyx]
    exact hloc (h.anti hy)
  · rcases eq_or_ne y x with rfl | hyx
    · exact fun hpar => absurd (update_self ..) hpar
    · have := h.noLost y hyx (hlost y hyx)
      unfold NoLost at this ⊢
      rwa [update_of_ne hyx]

/-- **`nghttp2_stream_dep_remove_subtree`.** -/
theorem StreamTree.WF.depRemoveSubtree (h : t.WF kids) (hx : t.dep.depPrev x = some p) :
    ∃ t', streamDepRemoveSubtree t x = some t' ∧
      t'.WF (update kids p ((kids p).erase x)) ∧
        t'.dep = removeSubtreeLinks t.dep p x ∧ t'.allocated = t.allocated := by
  have hcut := h.tree.toDepShape.cutLinks_cutsTo hx
  refine ⟨_, streamDepRemoveSubtree_eq hx, ⟨h.tree.removeSubtreeLinks hx, ?_⟩, rfl, rfl⟩
  have hprev : (removeSubtreeLinks t.dep p x).depPrev = update t.dep.depPrev x none := by
    rw [← hcut.depPrev]
    rfl
  unfold StreamTree.Scheduled
  rw [hprev, streamObqRemove_of_not_queued]
  set dep1 := (cutLinks t.dep p x).setSumDepWeight p (t.dep.sumDepWeight p - t.dep.weight x)
  have hrem : Removed t.dep.depPrev t.sched (streamObqRemove dep1 t.turns t.sched x) x :=
    streamObqRemove_spec h.tree.rooted.grounded h.sched.wf h.sched.located h.tree.rooted.up
      (fun a _ => congrFun hcut.depPrev a) (fun a _ _ => h.sched.noLost a)
      (fun y _ => h.sched.noIdle y)
  exact hrem.detach h.sched.located fun y _ => h.sched.noLost y

/-! ## `nghttp2_stream_dep_insert` and `nghttp2_stream_dep_insert_subtree` -/

/-- The loop over a sibling list with `adoptChild` as its body. -/
theorem forChain_adoptChild {q : Option Ptr} {prev : Ptr → Option Ptr} (dest src : Ptr)
    (h : Seg t.dep.sibNext prev q l none) (hn : l.length ≤ n) :
    forChain (fun t : StreamTree => t.dep.sibNext) (adoptChild dest src) n t l.head? =
      l.foldl (adoptChild dest src) t :=
  forChain_eq_foldl (fun t : StreamTree => t.dep.sibNext) (adoptChild dest src)
    (fun _ _ => rfl) h hn

/-- The state of `nghttp2_stream_dep_insert` after its loop. -/
def insertLoopState (t : StreamTree) (ks : List Ptr) (d x : Ptr) : StreamTree :=
  ks.foldl (adoptChild x d) { t with dep :=
    (t.dep.setSumDepWeight x (t.dep.sumDepWeight d)).setSumDepWeight d (t.dep.weight x) }

theorem streamDepInsert_eq (h : DepShape t.dep kids t.allocated) (hkx : kids x = [])
    (hact : streamSubtreeActive t.sched x = false) :
    streamDepInsert t d x =
      { dep := (((insertLoopState t (kids d) d x).dep.setDepNextOf x (kids d).head?).setDepNextOf d
          (some x)).setDepPrevOf x (some d)
        sched := (pushIfActive (insertLoopState t (kids d) d x) d x).sched
        allocated := t.allocated } := by
  have hhead := h.head d
  have hheadx := h.head x
  set dep0 := (t.dep.setSumDepWeight x (t.dep.sumDepWeight d)).setSumDepWeight d (t.dep.weight x)
    with hdep0
  cases hd : kids d with
  | nil =>
    rw [hd, List.head?_nil] at hhead
    rw [hkx, List.head?_nil] at hheadx
    have hself : update t.dep.depNext x none = t.dep.depNext := by
      rw [← hheadx, update_eq_self]
    simp [streamDepInsert, insertLoopState, pushIfActive, hhead, hact, DepLinks.setSumDepWeight,
      DepLinks.setDepNextOf, DepLinks.setDepPrevOf, hself]
  | cons c l =>
    rw [hd, List.head?_cons] at hhead
    have hseg := h.seg d
    have hlen := h.length_le d
    rw [hd] at hseg hlen
    have hloop : forChain (fun t : StreamTree => t.dep.sibNext) (adoptChild x d) t.turns
        { t with dep := dep0 } (some c) = insertLoopState t (c :: l) d x :=
      forChain_adoptChild (t := { t with dep := dep0 }) x d hseg (hlen.trans t.allocated_le_turns)
    obtain ⟨hdep, halloc⟩ := foldl_adoptChild_dep x d (c :: l) { t with dep := dep0 }
    have hdep' : (pushIfActive (insertLoopState t (c :: l) d x) d x).dep.depNext d = some c := by
      rw [pushIfActive, insertLoopState, hdep]
      exact hhead
    have halloc' : (pushIfActive (insertLoopState t (c :: l) d x) d x).allocated = t.allocated :=
      halloc
    unfold streamDepInsert
    dsimp only
    rw [show dep0.depNext d = some c from hhead]
    dsimp only
    rw [show StreamTree.turns { t with dep := dep0 } = t.turns from rfl, hloop, hdep', halloc']
    rfl

/-- Inserting a stream between `d` and its children, with the weights. -/
theorem DepTree.insertAbove {dep' : DepLinks} (h : DepTree dep kids N)
    (hins : InsertsAbove dep dep' kids d x) (hx : dep.depPrev x = none)
    (hxd : ¬ Above dep.depPrev x d) (hxN : x < N) (hdN : d < N) (hw : dep'.weight = dep.weight)
    (hs : dep'.sumDepWeight = update (update dep.sumDepWeight x
      (dep.sumDepWeight x + dep.sumDepWeight d)) d (dep.weight x)) :
    DepTree dep' (update (update kids x (kids x ++ kids d)) d [x]) N := by
  refine ⟨h.toDepShape.insertAbove hins hx hxd hxN hdN, fun q => ?_, fun {y} hy => ?_⟩
  · rw [hw, hs]
    rcases eq_or_ne q d with rfl | hqd
    · simp
    · rw [update_of_ne hqd, update_of_ne hqd]
      rcases eq_or_ne q x with rfl | hqx
      · simp [h.sum]
      · rw [update_of_ne hqx, update_of_ne hqx]
        exact h.sum q
  · rw [hw]
    exact h.weight hy

/-- The chain of `d` does not meet its children or a stream it is not under. -/
theorem DepShape.chain_agree (par : Ptr → Option Ptr) (h : DepShape dep kids N)
    (hxd : ¬ Above dep.depPrev x d) (hpar : ∀ c, c ≠ x → c ∉ kids d → par c = dep.depPrev c) :
    ∀ a, Above dep.depPrev a d → par a = dep.depPrev a := by
  intro a ha
  refine hpar a ?_ fun hk => h.rooted.grounded.not_above_parent (h.mem_kids.1 hk) ha
  rintro rfl
  exact hxd ha

/-- The loop of `nghttp2_stream_dep_insert`. -/
theorem StreamTree.WF.insertLoop (h : t.WF kids) (hx : t.dep.depPrev x = none) (d : Ptr) :
    Adopting (fun c => if c ∈ kids d then some x else t.dep.depPrev c) x d
        (insertLoopState t (kids d) d x).sched ∧
      (t.sched.Heaps → (insertLoopState t (kids d) d x).sched.Heaps) := by
  set dep0 := (t.dep.setSumDepWeight x (t.dep.sumDepWeight d)).setSumDepWeight d (t.dep.weight x)
  refine (h.sched.adopting x d).adoptChildren (t := { t with dep := dep0 }) rfl (h.tree.nodup d)
    (fun si hsi => h.tree.mem_kids.1 hsi) ?_ (h.tree.rooted.up x) ?_
  · exact fun hd => h.tree.rooted.grounded.ne_parent (h.tree.mem_kids.1 hd) rfl
  · intro a ha
    rw [above_iff] at ha
    obtain rfl : a = x := ha.resolve_right (by simp [hx])
    exact ⟨h.tree.notMem_of_detached hx d, rfl⟩

/-- **`nghttp2_stream_dep_insert`**, of a stream without children that leads to
nothing to send. -/
theorem StreamTree.WF.depInsert (h : t.WF kids) (hx : t.dep.depPrev x = none) (hkx : kids x = [])
    (hxd : x ≠ d) (hxN : x < t.allocated) (hdN : d < t.allocated)
    (hact : streamSubtreeActive t.sched x = false) :
    (streamDepInsert t d x).WF
      (update (update kids x (kids x ++ kids d)) d [x]) := by
  have hnot := h.tree.notMem_of_detached hx
  have habove : ¬ Above t.dep.depPrev x d := by
    rw [above_iff_head]
    rintro (hxd' | ⟨c, hc, -⟩)
    · exact hxd hxd'
    · rw [← h.tree.mem_kids, hkx] at hc
      simp at hc
  rw [streamDepInsert_eq h.tree.toDepShape hkx hact]
  set dep0 := (t.dep.setSumDepWeight x (t.dep.sumDepWeight d)).setSumDepWeight d (t.dep.weight x)
  obtain ⟨hdep, halloc⟩ : (insertLoopState t (kids d) d x).dep =
      dep0.setDepPrevs (kids d) (some x) ∧
      (insertLoopState t (kids d) d x).allocated = t.allocated :=
    foldl_adoptChild_dep x d (kids d) { t with dep := dep0 }
  refine ⟨?_, ?_⟩
  · refine h.tree.insertAbove ⟨fun c => ?_, ?_, ?_, fun c _ => ?_⟩ hx habove hxN hdN ?_ ?_
    · simp only [hdep, DepLinks.setDepPrevOf, DepLinks.setDepNextOf, DepLinks.setDepPrevs,
        update_apply]
      rfl
    · simp only [hdep, DepLinks.setDepPrevOf, DepLinks.setDepNextOf, DepLinks.setDepPrevs, hkx,
        List.nil_append]
      rfl
    · rw [hkx, List.nil_append]
      simp only [hdep]
      exact h.tree.seg d
    · simp only [hdep]
      exact ⟨rfl, rfl⟩
    · simp only [hdep]
      rfl
    · have hsum : t.dep.sumDepWeight x = 0 := by simp [h.tree.sum, hkx]
      simp only [hdep, hsum, zero_add]
      rfl
  -- the children move to the queue of `x`, then `x` is entered below `d`
  have hloop := (h.insertLoop hx d).1
  have hagree := h.tree.chain_agree
    (update (fun c => if c ∈ kids d then some x else t.dep.depPrev c) x (some d))
    habove (fun c hcx hcd => by simp [hcx, hcd])
  have hfin := (hloop.attach (by simp [hnot, hx]) d).finish (insertLoopState t (kids d) d x).dep
    (update_self ..) hxd ((h.tree.rooted.up d).up_of_agree hagree) ?_
  · unfold StreamTree.Scheduled
    simp only [pushIfActive, StreamTree.turns, halloc, DepLinks.setDepPrevOf,
      DepLinks.setDepNextOf]
    simp only [hdep, DepLinks.setDepPrevs] at hfin ⊢
    exact hfin
  · intro a ha
    rw [above_iff_of_agree hagree] at ha
    rw [hagree a ha, hdep]
    exact h.tree.chain_agree _ habove (fun c hcx hcd => by
      simp only [DepLinks.setDepPrevs, if_neg hcd]
      rfl) a ha

theorem forChain_adoptChild_allocated (dest src : Ptr) (n : ℕ) (t : StreamTree)
    (start : Option Ptr) :
    (forChain (fun t : StreamTree => t.dep.sibNext) (adoptChild dest src) n t start).allocated =
      t.allocated :=
  forChain_keeps StreamTree.allocated (by intro _ _; rfl) n t start

theorem streamDepInsert_allocated (t : StreamTree) (d x : Ptr) :
    (streamDepInsert t d x).allocated = t.allocated := by
  unfold streamDepInsert
  dsimp only
  split
  · rfl
  · exact forChain_adoptChild_allocated ..

theorem streamDepInsertSubtree_allocated (t : StreamTree) (d x : Ptr) :
    (streamDepInsertSubtree t d x).allocated = t.allocated := by
  unfold streamDepInsertSubtree pushIfActive
  dsimp only
  split
  · exact forChain_adoptChild_allocated ..
  · rfl

/-- What `nghttp2_stream_dep_insert_subtree` does before, in and after its loop.
Before the loop, the first child of `d` may already point to `x`. -/
theorem streamDepInsertSubtree_eq (h : DepShape t.dep kids t.allocated)
    (hx : t.dep.depPrev x = none) (hxd : x ≠ d) :
    ∃ dep2 : DepLinks, InsertsAbove t.dep (dep2.setDepPrevs (kids d) (some x)) kids d x ∧
      (∀ a, a ∉ kids d → dep2.depPrev a = update t.dep.depPrev x (some d) a) ∧
      dep2.weight = t.dep.weight ∧
      dep2.sumDepWeight = update (update t.dep.sumDepWeight x
        (t.dep.sumDepWeight x + t.dep.sumDepWeight d)) d (t.dep.weight x) ∧
      streamDepInsertSubtree t d x =
        pushIfActive ((kids d).foldl (adoptChild x d) { t with dep := dep2 }) d x := by
  have hhead := h.head d
  have hheadx := h.head x
  have hnot := h.notMem_of_detached hx
  set dep0 := (t.dep.setSumDepWeight x (t.dep.sumDepWeight x + t.dep.sumDepWeight
    d)).setSumDepWeight d (t.dep.weight x)
  set dep1 := linkDep dep0 d (some x) with hdep1
  have hprev1 : dep1.depPrev = update t.dep.depPrev x (some d) := rfl
  have hnext1 : dep1.depNext = update t.dep.depNext d (some x) := rfl
  cases hd : kids d with
  | nil =>
    rw [hd, List.head?_nil] at hhead
    refine ⟨dep1, ⟨fun c => ?_, ?_, ?_, fun c _ => ⟨rfl, rfl⟩⟩, fun a _ => rfl, rfl, rfl, ?_⟩
    · simp [DepLinks.setDepPrevs, hprev1, hd, update_apply]
    · rw [hd, List.append_nil, ← hheadx, update_eq_self]
      exact hnext1
    · rw [hd, List.append_nil]
      exact h.seg x
    · unfold streamDepInsertSubtree
      dsimp only
      rw [show dep0.depNext d = none from hhead]
      rfl
  | cons b l =>
    rw [hd, List.head?_cons] at hhead
    have hb : b ∈ kids d := by simp [hd]
    have hseg := h.seg d
    have hlen := h.length_le d
    rw [hd] at hseg hlen
    -- once the links are known, the loop is a fold over the children of `d`
    have hfold : ∀ {q : Option Ptr} (dep2 : DepLinks),
        insertSubtreeLinks dep0 t.turns d x b = dep2 →
        Seg dep2.sibNext dep2.sibPrev q (b :: l) none → streamDepInsertSubtree t d x =
          pushIfActive ((b :: l).foldl (adoptChild x d) { t with dep := dep2 }) d x := by
      rintro q dep2 rfl hseg2
      rw [← forChain_adoptChild (t := { t with dep := insertSubtreeLinks dep0 t.turns d x b }) x d
        hseg2 (hlen.trans t.allocated_le_turns)]
      unfold streamDepInsertSubtree
      dsimp only
      rw [show dep0.depNext d = some b from hhead]
      rfl
    rcases List.eq_nil_or_concat (kids x) with hk | ⟨ks, a, hk⟩
    · -- `x` has no children: those of `d` become its children
      rw [hk, List.head?_nil] at hheadx
      have hx1 : dep1.depNext x = none := by
        rw [hnext1, update_of_ne hxd]
        exact hheadx
      refine ⟨linkDep dep1 x (some b), ⟨fun c => ?_, ?_, ?_, fun c _ => ⟨rfl, rfl⟩⟩, fun a ha => ?_,
        rfl, rfl, hfold _ ?_ hseg⟩
      · have hcb : c = b → c ∈ kids d := fun hcb => hcb ▸ hb
        simp only [DepLinks.setDepPrevs, linkDep, DepLinks.setDepPrevOf, DepLinks.setDepNextOf,
          hprev1, ← hd, update_apply]
        rcases eq_or_ne c x with rfl | hcx
        · simp [hnot, (ne_of_mem_of_not_mem hb (hnot d)).symm]
        · simp only [hcx, if_false]
          split_ifs <;> tauto
      · show update dep1.depNext x (some b) = _
        rw [hk, hd, hnext1, update_comm hxd.symm]
        rfl
      · rw [hk, List.nil_append, hd]
        exact hseg
      · rw [← hd] at ha
        exact update_of_ne (ne_of_mem_of_not_mem hb ha).symm _ _
      · simp only [insertSubtreeLinks, ← hdep1, hx1]
    -- the children of `d` follow those of `x`, the last of which is `a`
    rw [List.concat_eq_append] at hk
    obtain ⟨c, hc⟩ : ∃ c, (ks ++ [a]).head? = some c := by cases ks <;> simp
    have hsegx := h.seg x
    have hlenx := h.length_le x
    have hdisj : ∀ y ∈ kids x, y ∉ kids d := fun y hy => h.notMem_of_ne hy hxd.symm
    have hnodup : ((ks ++ [a]) ++ b :: l).Nodup := by
      rw [← hk, ← hd]
      exact List.nodup_append'.2 ⟨h.nodup x, h.nodup d, fun y hy hy' => hdisj y hy hy'⟩
    rw [hk] at hsegx hlenx hheadx
    rw [hc] at hheadx
    have hx1 : dep1.depNext x = some c := by
      rw [hnext1, update_of_ne hxd]
      exact hheadx
    have hsegx1 : Seg dep1.sibNext dep1.sibPrev none (ks ++ [a]) none := hsegx
    have hseg1 : Seg dep1.sibNext dep1.sibPrev none (b :: l) none := hseg
    have hlast : streamLastSib dep1 t.turns c = a := by
      refine streamLastSib_eq hsegx1 ?_ hc
      rw [List.length_append, List.length_singleton] at hlenx
      exact (Nat.le_succ _).trans (hlenx.trans (Nat.le_succ _))
    have hjoin := seg_linkSib hsegx1 hseg1 hnodup
    refine ⟨linkSib dep1 a (some b), ⟨fun y => ?_, ?_, ?_, fun y hy => ?_⟩, fun y _ => ?_,
      by rw [linkSib_weight]; rfl, by rw [linkSib_sumDepWeight]; rfl,
      hfold _ ?_ ((seg_append _ _).1 hjoin).2⟩
    · simp only [DepLinks.setDepPrevs, linkSib_depPrev, hprev1, ← hd, update_apply]
      rcases eq_or_ne y x with rfl | hyx
      · simp [hnot]
      · simp [hyx]
    · show (linkSib dep1 a (some b)).depNext = _
      have hself : (kids x ++ kids d).head? = t.dep.depNext x := by
        rw [hk, hheadx, List.head?_append, hc]
        rfl
      rw [linkSib_depNext, hnext1, hself, update_eq_self]
    · rw [hk, hd]
      exact hjoin
    · rw [hk, hd, List.mem_append, not_or] at hy
      have hya : y ≠ a := by
        rintro rfl
        exact hy.1 (by simp)
      show (linkSib dep1 a (some b)).sibNext y = _ ∧ (linkSib dep1 a (some b)).sibPrev y = _
      rw [linkSib_sibNext, update_of_ne hya, linkSib_sibPrev_of_ne]
      · exact ⟨rfl, rfl⟩
      · rw [Ne, Option.some.injEq]
        rintro rfl
        exact hy.2 (by simp)
    · rw [linkSib_depPrev, hprev1]
    · simp only [insertSubtreeLinks, ← hdep1, hx1, hlast]

/-- The loop of `nghttp2_stream_dep_insert_subtree`. -/
theorem StreamTree.WF.insertSubtreeLoop (h : t.WF kids) (hx : t.dep.depPrev x = none)
    (hxd : ¬ Above t.dep.depPrev x d) (hxN : x < t.allocated) (hdN : d < t.allocated)
    {dep2 : DepLinks}
    (hprev2 : ∀ a, a ∉ kids d → dep2.depPrev a = update t.dep.depPrev x (some d) a) :
    Adopting (fun c => if c ∈ kids d then some x else update t.dep.depPrev x (some d) c) x d
        ((kids d).foldl (adoptChild x d) { t with dep := dep2 }).sched ∧
      (t.sched.Heaps → ((kids d).foldl (adoptChild x d) { t with dep := dep2 }).sched.Heaps) := by
  have hnot := h.tree.notMem_of_detached hx
  have hroot0 : Rooted { t.dep with depPrev := update t.dep.depPrev x (some d) }
      t.allocated := h.tree.rooted.attach hxd hxN hdN rfl
  refine ((h.sched.adopting x d).attach hx d).adoptChildren (t := { t with dep := dep2 }) rfl
    (h.tree.nodup d) (fun si hsi => ?_) ?_ (hroot0.up x) (fun a ha => ?_)
  · rw [update_of_ne (ne_of_mem_of_not_mem hsi (hnot d))]
    exact h.tree.mem_kids.1 hsi
  · exact fun hd => h.tree.rooted.grounded.ne_parent (h.tree.mem_kids.1 hd) rfl
  have had : a ∉ kids d := by
    rcases above_iff.1 ha with rfl | ⟨p, hp, hap⟩
    · exact hnot d
    · rw [update_self, Option.some.injEq] at hp
      subst hp
      rw [above_iff_of_agree (not_above_update hxd (some d))] at hap
      exact fun hk => h.tree.rooted.grounded.not_above_parent (h.tree.mem_kids.1 hk) hap
  exact ⟨had, hprev2 a had⟩

/-- **`nghttp2_stream_dep_insert_subtree`**, of a detached stream with its subtree. -/
theorem StreamTree.WF.depInsertSubtree (h : t.WF kids) (hx : t.dep.depPrev x = none)
    (hxd : ¬ Above t.dep.depPrev x d) (hxN : x < t.allocated) (hdN : d < t.allocated) :
    (streamDepInsertSubtree t d x).WF
      (update (update kids x (kids x ++ kids d)) d [x]) := by
  have hne : x ≠ d := by
    rintro rfl
    exact hxd (Above.refl _)
  have hnot := h.tree.notMem_of_detached hx
  obtain ⟨dep2, hins, hprev2, hw, hsum, heq⟩ := streamDepInsertSubtree_eq h.tree.toDepShape hx hne
  obtain ⟨hdep, halloc⟩ := foldl_adoptChild_dep x d (kids d) { t with dep := dep2 }
  set t1 := (kids d).foldl (adoptChild x d) { t with dep := dep2 }
  have halloc : t1.allocated = t.allocated := halloc
  rw [heq]
  refine ⟨?_, ?_⟩
  · show DepTree t1.dep _ t1.allocated
    rw [hdep, halloc]
    exact h.tree.insertAbove hins hx hxd hxN hdN hw hsum
  set par0 := update t.dep.depPrev x (some d) with hpar0
  have hloop := (h.insertSubtreeLoop hx hxd hxN hdN hprev2).1
  have hpar1 : t1.dep.depPrev = fun c => if c ∈ kids d then some x else par0 c := by
    rw [hdep]
    funext c
    simp only [DepLinks.setDepPrevs]
    split_ifs with hc
    · rfl
    · exact hprev2 c hc
  have hagree := h.tree.chain_agree (fun c => if c ∈ kids d then some x else par0 c) hxd
    (fun c hcx hcd => by simp [hcd, hpar0, hcx])
  have hfin := hloop.finish t1.dep (by simp [hnot]) hne
    ((h.tree.rooted.up d).up_of_agree hagree) (fun a _ => congrFun hpar1 a)
  unfold StreamTree.Scheduled pushIfActive StreamTree.turns
  rw [halloc, hpar1]
  exact hfin

/-! ## `nghttp2_stream_dep_remove` -/

/-- The weight of `c` once it has taken its share of the weight of its parent `x`. -/
def share (dep : DepLinks) (x c : Ptr) : ℤ := depDistributedWeight dep x (dep.weight c)

/-- The weights after the children `l` of `x` have taken their shares. -/
def DepLinks.shareWeights (dep : DepLinks) (l : List Ptr) (x : Ptr) : DepLinks :=
  { dep with weight := fun c => if c ∈ l then share dep x c else dep.weight c }

theorem foldl_releaseChild_dep (hnodup : l.Nodup) (hx : x ∉ l) (t : StreamTree) (δ : ℤ) :
    (l.foldl (releaseChild x) (t, δ)).1.dep = t.dep.shareWeights l x ∧
      (l.foldl (releaseChild x) (t, δ)).2 = δ + (l.map (share t.dep x)).sum ∧
        (l.foldl (releaseChild x) (t, δ)).1.allocated = t.allocated := by
  induction l generalizing t δ with
  | nil => simp [DepLinks.shareWeights]
  | cons c l ih =>
    obtain ⟨hcl, hnodup⟩ := List.nodup_cons.1 hnodup
    have hcx : x ≠ c := fun h => hx (by simp [h])
    have hxl : x ∉ l := fun h => hx (by simp [h])
    obtain ⟨hdep, hδ, halloc⟩ := ih hnodup hxl (releaseChild x (t, δ) c).1 (δ + share t.dep x c)
    have hstep : (releaseChild x (t, δ) c).1.dep = t.dep.setWeight c (share t.dep x c) := rfl
    have hshare : ∀ y, y ≠ c → share (releaseChild x (t, δ) c).1.dep x y = share t.dep x y := by
      intro y hy
      rw [hstep]
      simp [share, depDistributedWeight, DepLinks.setWeight, hcx, hy]
    refine ⟨?_, ?_, halloc⟩
    · refine hdep.trans ?_
      unfold DepLinks.shareWeights
      rw [hstep]
      simp only [DepLinks.setWeight, List.mem_cons, DepLinks.mk.injEq, and_true, true_and]
      funext y
      rcases eq_or_ne y c with rfl | hyc
      · simp [hcl]
      · have := hshare y hyc
        rw [hstep] at this
        simp only [DepLinks.setWeight] at this
        simp [hyc, this]
    · have hmap : l.map (share (releaseChild x (t, δ) c).1.dep x) = l.map (share t.dep x) :=
        List.map_congr_left fun y hy => hshare y (ne_of_mem_of_not_mem hy hcl)
      refine hδ.trans ?_
      rw [hmap, List.map_cons, List.sum_cons, add_assoc]

/-- The queued children of `x` move to the queue of its parent. -/
theorem Adopting.releaseChildren (δ : ℤ) (h : Adopting par p x t.sched) (hp : NoLost par t.sched p)
    (hn : t.turns = n + 1) (hxp : t.dep.depPrev x = some p) (hnodup : l.Nodup)
    (hl : ∀ si ∈ l, par si = some x) (hx : x ∉ l)
    (hup : BoundedPaths (fun c p => par c = some p) n p)
    (hchain : ∀ a, Above par a p → a ∉ l ∧ t.dep.depPrev a = par a) :
    Adopting (fun c => if c ∈ l then some p else par c) p x
        (l.foldl (releaseChild x) (t, δ)).1.sched ∧
      NoLost (fun c => if c ∈ l then some p else par c)
        (l.foldl (releaseChild x) (t, δ)).1.sched p ∧
      (t.sched.Heaps → (l.foldl (releaseChild x) (t, δ)).1.sched.Heaps) := by
  induction l generalizing t δ par with
  | nil => simpa using ⟨h, hp⟩
  | cons c l ih =>
    obtain ⟨hcl, hnodup⟩ := List.nodup_cons.1 hnodup
    have hne : ∀ a, Above par a p → a ≠ c := fun a ha hac => (hchain a ha).1 (by simp [hac])
    have hagree : ∀ a, Above par a p → update par c (some p) a = par a :=
      fun a ha => update_of_ne (hne a ha) _ _
    obtain ⟨hstep, hp'⟩ := h.move (t.dep.setWeight c (share t.dep x c)) (hl c (by simp))
      (fun hc => hx (by simp [hc])) hup (fun a ha => ⟨hne a ha, (hchain a ha).2⟩)
    have hsched : (releaseChild x (t, δ) c).1.sched =
        streamObqMove (t.dep.setWeight c (share t.dep x c)) (n + 1) t.sched p x c := by
      rw [← hn]
      simp only [releaseChild, hxp]
      rfl
    rw [← hsched] at hstep hp'
    have hrest := ih (t := (releaseChild x (t, δ) c).1) (δ + share t.dep x c) hstep (hp' hp) hn hxp
      hnodup
      (fun si hsi => by
        rw [update_of_ne (ne_of_mem_of_not_mem hsi hcl)]
        exact hl si (by simp [hsi]))
      (fun hs => hx (by simp [hs])) (hup.up_of_agree hagree)
      (fun a ha => by
        rw [above_iff_of_agree hagree] at ha
        refine ⟨fun hal => (hchain a ha).1 (by simp [hal]), ?_⟩
        rw [hagree a ha, ← (hchain a ha).2]
        rfl)
    rw [update_then_mem] at hrest
    refine ⟨hrest.1, hrest.2.1, fun hheaps => hrest.2.2 ?_⟩
    rw [hsched]
    exact streamObqMove_heaps _ _ h.wf
      (fun hq => h.wf.mem_obq_of_queued h.located hq (hl c (by simp))) hheaps

/-- The dependency fields after `nghttp2_stream_dep_remove`. -/
def removeLinks (dep : DepLinks) (turns : ℕ) (ks : List Ptr) (p x : Ptr) : DepLinks :=
  clearLinks ((unlinkLinks ((dep.shareWeights ks x).setSumDepWeight p
    (dep.sumDepWeight p + (-dep.weight x + (ks.map (share dep x)).sum))) turns p x).setSumDepWeight
      x 0) x

theorem streamDepRemove_eq (h : DepShape t.dep kids t.allocated) (hx : t.dep.depPrev x = some p) :
    streamDepRemove t x = some
      { dep := removeLinks t.dep t.turns (kids x) p x
        sched := streamObqRemove ((t.dep.shareWeights (kids x) x).setSumDepWeight p
          (t.dep.sumDepWeight p + (-t.dep.weight x + ((kids x).map (share t.dep x)).sum))) t.turns
          ((kids x).foldl (releaseChild x) (t, -t.dep.weight x)).1.sched x
        allocated := t.allocated } := by
  have hxx : x ∉ kids x := fun hk => h.rooted.grounded.ne_parent (h.mem_kids.1 hk) rfl
  obtain ⟨hdep, hδ, halloc⟩ := foldl_releaseChild_dep (h.nodup x) hxx t (-t.dep.weight x)
  have hloop := forChain_eq_foldl (fun td : StreamTree × ℤ => td.1.dep.sibNext) (releaseChild x)
    (fun _ _ => rfl) (s := (t, -t.dep.weight x)) (h.seg x) ((h.length_le x).trans (Nat.le_succ _))
  unfold streamDepRemove
  rw [h.head x, show t.turns = t.allocated + 1 from rfl, hloop]
  set r := (kids x).foldl (releaseChild x) (t, -t.dep.weight x)
  dsimp only
  rw [hdep, hδ, show (t.dep.shareWeights (kids x) x).depPrev x = some p from hx]
  dsimp only
  rw [streamObqRemove_of_not_queued]
  unfold StreamTree.turns
  rw [halloc]
  rfl

/-- Without a parent, the assertion of `nghttp2_stream_dep_remove` fails. -/
theorem streamDepRemove_eq_none (hx : t.dep.depPrev x = none) : streamDepRemove t x = none := by
  have hkeep : (forChain (fun td : StreamTree × ℤ => td.1.dep.sibNext) (releaseChild x) t.turns
      (t, -t.dep.weight x) (t.dep.depNext x)).1.dep.depPrev = t.dep.depPrev :=
    forChain_keeps (fun td : StreamTree × ℤ => td.1.dep.depPrev) (by intro _ _; rfl) t.turns _ _
  unfold streamDepRemove
  dsimp only
  rw [hkeep, hx]

theorem setDepPrev_weight (dep : DepLinks) (turns : ℕ) (c v : Option Ptr) :
    (setDepPrev dep turns c v).weight = dep.weight ∧
      (setDepPrev dep turns c v).sumDepWeight = dep.sumDepWeight := by
  constructor
  · exact forChain_keeps DepLinks.weight (by intro _ _; rfl) turns dep c
  · exact forChain_keeps DepLinks.sumDepWeight (by intro _ _; rfl) turns dep c

theorem adoptSiblings_weight (dep : DepLinks) (turns : ℕ) (x c : Ptr) :
    (adoptSiblings dep turns x c).weight = dep.weight ∧
      (adoptSiblings dep turns x c).sumDepWeight = dep.sumDepWeight := by
  obtain ⟨hw, hs⟩ := setDepPrev_weight dep turns (some c) (dep.depPrev x)
  unfold adoptSiblings
  dsimp only
  split
  · exact ⟨hw, hs⟩
  · rw [linkSib_weight, linkSib_sumDepWeight]
    exact ⟨hw, hs⟩

theorem unlinkLinks_weight (dep : DepLinks) (turns : ℕ) (p x : Ptr) :
    (unlinkLinks dep turns p x).weight = dep.weight ∧
      (unlinkLinks dep turns p x).sumDepWeight = dep.sumDepWeight := by
  cases hx : dep.depNext x with
  | none =>
    rw [unlinkLinks_of_leaf turns hx]
    exact cutLinks_weight dep p x
  | some c =>
    unfold unlinkLinks unlinkSib unlinkDep
    cases dep.sibPrev x with
    | none =>
      simp only [hx]
      have := adoptSiblings_weight (linkDep dep p (some c)) turns x c
      rwa [linkDep_weight, linkDep_sumDepWeight] at this
    | some prev =>
      simp only [hx]
      have := adoptSiblings_weight (linkSib dep prev (some c)) turns x c
      rwa [linkSib_weight, linkSib_sumDepWeight] at this

/-- The children of `x` weigh something, so their shares of its weight are defined. -/
theorem DepTree.sumDepWeight_pos (h : DepTree dep kids N)
    (hc : c ∈ kids x) : dep.weight c ≤ dep.sumDepWeight x ∧ 0 < dep.sumDepWeight x := by
  have hpos : ∀ w ∈ (kids x).map dep.weight, 0 ≤ w := by
    intro w hw
    obtain ⟨c', hc', rfl⟩ := List.mem_map.1 hw
    have := (h.weight (h.rooted.lt_allocated (h.mem_kids.1 hc')).1).1
    omega
  have hle := List.single_le_sum hpos _ (List.mem_map_of_mem hc)
  have hone := (h.weight (h.rooted.lt_allocated (h.mem_kids.1 hc)).1).1
  rw [← h.sum x] at hle
  omega

/-- The sum of the weights is an `int32_t`, if there are fewer than 2^23 children. -/
theorem DepTree.sumDepWeight_lt (h : DepTree dep kids N) (hfew : (kids x).length < 2 ^ 23) :
    dep.sumDepWeight x < 2 ^ 31 := by
  have hle : ∀ w ∈ (kids x).map dep.weight, w ≤ 256 := by
    intro w hw
    obtain ⟨c, hc, rfl⟩ := List.mem_map.1 hw
    exact (h.weight (h.rooted.lt_allocated (h.mem_kids.1 hc)).1).2
  have hsum := List.sum_le_card_nsmul _ _ hle
  rw [← h.sum x, List.length_map, nsmul_eq_mul] at hsum
  omega

/-- A share is a weight again. -/
theorem DepTree.share_mem (h : DepTree dep kids N) (hx : x < N)
    (hc : c ∈ kids x) : 1 ≤ share dep x c ∧ share dep x c ≤ 256 := by
  obtain ⟨hle, hpos⟩ := h.sumDepWeight_pos hc
  have hwx := h.weight hx
  have hwc := h.weight (h.rooted.lt_allocated (h.mem_kids.1 hc)).1
  have hnonneg : 0 ≤ dep.weight x * dep.weight c := by nlinarith
  have hdiv : (dep.weight x * dep.weight c).tdiv (dep.sumDepWeight x) ≤ dep.weight x := by
    rw [Int.tdiv_eq_ediv_of_nonneg hnonneg]
    exact Int.ediv_le_of_le_mul hpos (mul_le_mul_of_nonneg_left hle (by omega))
  unfold share depDistributedWeight
  omega

theorem DepTree.removeLinks (h : DepTree t.dep kids t.allocated) (hx : t.dep.depPrev x = some p)
    (hturns : t.allocated ≤ turns) :
    DepTree (Nghttp2.removeLinks t.dep turns (kids x) p x)
      (update (update kids p (spliceAt (kids p) x (kids x))) x [])
      t.allocated := by
  have hxx : x ∉ kids x := fun hk => h.rooted.grounded.ne_parent (h.mem_kids.1 hk) rfl
  have hne : p ≠ x := (h.rooted.grounded.ne_parent hx).symm
  set dep' := (t.dep.shareWeights (kids x) x).setSumDepWeight p
    (t.dep.sumDepWeight p + (-t.dep.weight x + ((kids x).map (share t.dep x)).sum)) with hdep'
  obtain ⟨hw, hs⟩ := unlinkLinks_weight dep' turns p x
  have hshape' : DepShape dep' kids t.allocated := h.toDepShape.of_links rfl rfl rfl rfl
  have hsplice := hshape'.splice hx (hshape'.unlinkLinks_splicesTo hx hturns)
  refine ⟨hsplice.of_links rfl rfl rfl rfl, fun q => ?_, fun {y} hy => ?_⟩
  · show update (unlinkLinks dep' turns p x).sumDepWeight x 0 q =
      (List.map (unlinkLinks dep' turns p x).weight _).sum
    rw [hw, hs]
    have hfresh : ∀ {l : List Ptr}, (∀ c ∈ l, c ∉ kids x) →
        l.map dep'.weight = l.map t.dep.weight := fun hl =>
      List.map_congr_left fun c hc => if_neg (hl c hc)
    rcases eq_or_ne q x with rfl | hqx
    · simp
    rw [update_of_ne hqx, update_of_ne hqx]
    rcases eq_or_ne q p with rfl | hqp
    · obtain ⟨l1, l2, hl⟩ := List.append_of_mem (h.mem_kids.2 hx)
      have hnodup := h.nodup q
      have hdisj : ∀ c ∈ kids q, c ∉ kids x := fun c hc => h.notMem_of_ne hc hne.symm
      have hsum := h.sum q
      have hshare : (kids x).map dep'.weight = (kids x).map (share t.dep x) :=
        List.map_congr_left fun c hc => if_pos hc
      rw [update_self]
      rw [hl] at hnodup hdisj hsum ⊢
      rw [spliceAt_append_cons hnodup, List.map_append, List.map_append, List.sum_append,
        List.sum_append, hshare, hfresh (fun c hc => hdisj c (by simp [hc])),
        hfresh (fun c hc => hdisj c (by simp [hc]))]
      simp only [hdep', DepLinks.setSumDepWeight, update_self]
      simp only [hsum, List.map_append, List.map_cons, List.sum_append, List.sum_cons]
      ring
    · rw [update_of_ne hqp, hfresh fun c hc => h.notMem_of_ne hc hqx.symm]
      simp only [hdep', DepLinks.setSumDepWeight, update_of_ne hqp]
      exact h.sum q
  · show 1 ≤ (unlinkLinks dep' turns p x).weight y ∧ (unlinkLinks dep' turns p x).weight y ≤ 256
    rw [hw]
    simp only [hdep', DepLinks.setSumDepWeight, DepLinks.shareWeights]
    split
    · exact h.share_mem (h.rooted.lt_allocated hx).1 ‹_›
    · exact h.weight hy

theorem removeLinks_depPrev (h : DepShape dep kids N) (hx : dep.depPrev x = some p)
    (hturns : N ≤ turns) :
    (removeLinks dep turns (kids x) p x).depPrev =
      update (fun c => if c ∈ kids x then some p else dep.depPrev c) x none := by
  set dep' := (dep.shareWeights (kids x) x).setSumDepWeight p
    (dep.sumDepWeight p + (-dep.weight x + ((kids x).map (share dep x)).sum)) with hdep'
  have hshape' : DepShape dep' kids N := h.of_links rfl rfl rfl rfl
  have hcut : (unlinkLinks dep' turns p x).depPrev =
      fun c => if c ∈ kids x then some p else dep.depPrev c :=
    funext (hshape'.unlinkLinks_splicesTo hx hturns).depPrev
  rw [← hcut]
  rfl

/-- The schedule after the loop of `nghttp2_stream_dep_remove`, with the parents the children
have from then on. -/
theorem StreamTree.WF.releaseLoop (h : t.WF kids) (hx : t.dep.depPrev x = some p) :
    Adopting (fun c => if c ∈ kids x then some p else t.dep.depPrev c) p x
        ((kids x).foldl (releaseChild x) (t, -t.dep.weight x)).1.sched ∧
      (∀ y, NoLost (fun c => if c ∈ kids x then some p else t.dep.depPrev c)
        ((kids x).foldl (releaseChild x) (t, -t.dep.weight x)).1.sched y) ∧
      (∀ a, Above (fun c => if c ∈ kids x then some p else t.dep.depPrev c) a x →
        t.dep.depPrev a = if a ∈ kids x then some p else t.dep.depPrev a) ∧
      (t.sched.Heaps →
        ((kids x).foldl (releaseChild x) (t, -t.dep.weight x)).1.sched.Heaps) := by
  have hxx : x ∉ kids x := fun hk => h.tree.rooted.grounded.ne_parent (h.tree.mem_kids.1 hk) rfl
  have hkids : ∀ a, Above t.dep.depPrev a p → a ∉ kids x := fun a ha hk =>
    h.tree.rooted.grounded.not_above_parent (h.tree.mem_kids.1 hk) (ha.tail hx)
  obtain ⟨hrel, hp, hheaps⟩ := (h.sched.adopting p x).releaseChildren (-t.dep.weight x)
    (h.sched.noLost p) rfl hx (h.tree.nodup x) (fun si hsi => h.tree.mem_kids.1 hsi) hxx
    (h.tree.rooted.up p) (fun a ha => ⟨hkids a ha, rfl⟩)
  refine ⟨hrel, fun y => ?_, fun a ha => ?_, hheaps⟩
  · rcases eq_or_ne y p with rfl | hyp
    · exact hp
    · exact hrel.noLost y hyp
  · -- on the chain of `x` nothing has changed
    rcases above_iff.1 ha with rfl | ⟨q, hq, haq⟩
    · exact (if_neg hxx).symm
    · simp only [hxx, if_false, hx, Option.some.injEq] at hq
      subst hq
      rw [above_iff_of_agree fun a ha => if_neg (hkids a ha)] at haq
      exact (if_neg (hkids a haq)).symm

/-- **`nghttp2_stream_dep_remove`.** -/
theorem StreamTree.WF.depRemove (h : t.WF kids) (hx : t.dep.depPrev x = some p) :
    ∃ t', streamDepRemove t x = some t' ∧
      t'.WF (update (update kids p (spliceAt (kids p) x (kids x))) x []) ∧
        t'.dep = removeLinks t.dep t.turns (kids x) p x ∧ t'.allocated = t.allocated := by
  refine ⟨_, streamDepRemove_eq h.tree.toDepShape hx,
    ⟨h.tree.removeLinks hx t.allocated_le_turns, ?_⟩, rfl, rfl⟩
  obtain ⟨hrel, hlost, hagree, -⟩ := h.releaseLoop hx
  have hroot := h.tree.toDepShape.rooted_release hx
  have hprev := removeLinks_depPrev h.tree.toDepShape hx t.allocated_le_turns
  set dep' := (t.dep.shareWeights (kids x) x).setSumDepWeight p
    (t.dep.sumDepWeight p + (-t.dep.weight x + ((kids x).map (share t.dep x)).sum))
  have hrem : Removed _ _ (streamObqRemove dep' t.turns _ x) x :=
    streamObqRemove_spec hroot.grounded hrel.wf hrel.located hroot.up hagree (fun a _ _ => hlost a)
      hrel.noIdle
  unfold StreamTree.Scheduled
  dsimp only
  rw [hprev]
  exact hrem.detach hrel.located fun y _ => hlost y

end Nghttp2
