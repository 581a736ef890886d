/-
# The heaps in runs of dependency and scheduling operations

`nghttp2_stream_reschedule` writes the `cycle` of a queued stream and only then takes it out of
the queue, and `nghttp2_pq_remove` decides by the new `cycle` whether the entry that takes its
place goes up or down.

* `TreeInv.heaps_step`: every other operation keeps the heaps;
* `rescheduleLoop_heapAt_iff`: a rescheduling keeps them just if in every queue on the way up the
  last entry can take the place of the stream (`RescheduleSafe`);
* `heaps_iff_of_steady`: the same for whole runs.
-/
import Nghttp2.ItemFrame
import Nghttp2.TreeRuns

namespace Nghttp2

open LinkedChain ParentForest Pq
open Function (update_apply update_of_ne update_self)

variable {t t' : StreamTree} {kids : Ptr → List Ptr} {s s' : Sched} {d p x y : Ptr}

/-! ## Operations that write no cycle of a queued stream -/

theorem ItemChanged.heaps (h : ItemChanged s s' x) (hcycle : s'.cycle = s.cycle) (hs : s.Heaps) :
    s'.Heaps :=
  fun p => (hs p).congr (congrFun h.obq p) fun _ _ => by rw [hcycle]

theorem pushIfActive_heaps (hwf : ObqWF t.sched) (hs : t.sched.Heaps) (d x : Ptr) :
    (pushIfActive t d x).sched.Heaps := by
  unfold pushIfActive
  dsimp only
  split
  · exact streamObqPush_heaps _ _ _ _ hwf hs
  · exact hs

theorem StreamTree.Scheduled.onAttach_heaps (h : t.Scheduled) (hs : ItemChanged t.sched s' x)
    (hcycle : s'.cycle = t.sched.cycle) (hheaps : t.sched.Heaps) :
    (streamUpdateDepOnAttachItem { t with sched := s' } x).sched.Heaps :=
  streamObqPush_heaps _ _ _ _ (hs.wf h.wf) (hs.heaps hcycle hheaps)

theorem StreamTree.Scheduled.onDetach_heaps (h : t.Scheduled) (hroot : Rooted t.dep t.allocated)
    (hs : ItemChanged t.sched s' x) (hcycle : s'.cycle = t.sched.cycle)
    (hheaps : t.sched.Heaps) :
    (streamUpdateDepOnDetachItem { t with sched := s' } x).sched.Heaps := by
  unfold streamUpdateDepOnDetachItem
  split
  · exact streamObqRemove_heaps _ hroot.grounded (hs.wf h.wf) (hs.located h.located)
      (fun _ _ => rfl) (fun a hax _ => hs.noLost hax (h.noLost a)) (hs.heaps hcycle hheaps)
  · exact hs.heaps hcycle hheaps

theorem StreamTree.WF.depInsert_heaps (h : t.WF kids) (hx : t.dep.depPrev x = none)
    (hkx : kids x = []) (hact : streamSubtreeActive t.sched x = false) (hs : t.sched.Heaps) :
    (streamDepInsert t d x).sched.Heaps := by
  obtain ⟨hloop, hheaps⟩ := h.insertLoop hx d
  rw [streamDepInsert_eq h.tree.toDepShape hkx hact]
  exact pushIfActive_heaps hloop.wf (hheaps hs) d x

theorem StreamTree.WF.depInsertSubtree_heaps (h : t.WF kids) (hx : t.dep.depPrev x = none)
    (hxd : ¬ Above t.dep.depPrev x d) (hxN : x < t.allocated) (hdN : d < t.allocated)
    (hs : t.sched.Heaps) : (streamDepInsertSubtree t d x).sched.Heaps := by
  have hne : x ≠ d := by
    rintro rfl
    exact hxd (Above.refl _)
  obtain ⟨dep2, -, hprev2, -, -, heq⟩ := streamDepInsertSubtree_eq h.tree.toDepShape hx hne
  obtain ⟨hloop, hheaps⟩ := h.insertSubtreeLoop hx hxd hxN hdN hprev2
  rw [heq]
  exact pushIfActive_heaps hloop.wf (hheaps hs) d x

theorem StreamTree.WF.depRemove_heaps (h : t.WF kids) (hx : t.dep.depPrev x = some p)
    (hs : t.sched.Heaps) (hres : streamDepRemove t x = some t') : t'.sched.Heaps := by
  obtain ⟨hrel, hlost, hagree, hheaps⟩ := h.releaseLoop hx
  rw [streamDepRemove_eq h.tree.toDepShape hx, Option.some.injEq] at hres
  subst hres
  exact streamObqRemove_heaps _ (h.tree.toDepShape.rooted_release hx).grounded hrel.wf hrel.located
    hagree (fun a _ _ => hlost a) (hheaps hs)

theorem StreamTree.WF.depRemoveSubtree_heaps (h : t.WF kids) (hx : t.dep.depPrev x = some p)
    (hs : t.sched.Heaps) (hres : streamDepRemoveSubtree t x = some t') : t'.sched.Heaps := by
  rw [streamDepRemoveSubtree_eq hx, Option.some.injEq] at hres
  subst hres
  dsimp only
  rw [streamObqRemove_of_not_queued]
  exact streamObqRemove_heaps _ h.tree.rooted.grounded h.sched.wf h.sched.located
    (fun a _ => congrFun (h.tree.toDepShape.cutLinks_cutsTo hx).depPrev a)
    (fun a _ _ => h.sched.noLost a) hs

/-- The object of a new stream has an empty queue. -/
theorem StreamTree.WF.alloc_heaps (h : t.WF kids) (w : ℤ) (hs : t.sched.Heaps) :
    (streamAlloc t w).sched.Heaps := by
  have hblank := h.blankAt_allocated
  have hnew : ∀ p, t.allocated ∉ t.sched.obq p := by
    intro p hp
    have hpar := h.sched.located hp
    rw [show t.dep.depPrev t.allocated = none from hblank.depPrev] at hpar
    cases hpar
  intro p
  rcases eq_or_ne p t.allocated with rfl | hp
  · intro j _
    simp [streamAlloc, streamInit, keyAt_of_le]
  · refine (hs p).congr (update_of_ne hp _ _) fun y hy => update_of_ne ?_ _ _
    exact ne_of_mem_of_not_mem hy (hnew p)

/-- **Step lemma**: every operation but a rescheduling keeps the heaps. -/
theorem TreeInv.heaps_step (h : TreeInv t kids) (hs : t.sched.Heaps) (hstep : TreeStep t t') :
    t'.sched.Heaps ∨ ∃ x, t.sched.queued x = true ∧ t' = streamReschedule t x := by
  have hrooted := h.wf.tree.rooted
  cases hstep with
  | create w hw => exact Or.inl (h.wf.alloc_heaps w hs)
  | setWeight x w hx hw => exact Or.inl hs
  | setLastWritelen x n => exact Or.inl hs
  | attachItem x i hdef hitem =>
    exact Or.inl (h.wf.sched.onAttach_heaps (itemChanged_setItem t.sched x (some i)) rfl hs)
  | detachItem x =>
    exact Or.inl (h.wf.sched.onDetach_heaps hrooted
      ((itemChanged_setItem _ x none).trans (itemChanged_setDeferred _ x _)) rfl hs)
  | deferItem x flags hitem hflags =>
    exact Or.inl (h.wf.sched.onDetach_heaps hrooted (itemChanged_setDeferred _ x _) rfl hs)
  | resumeDeferredItem x flags hitem =>
    left
    unfold streamResumeDeferredItem
    dsimp only
    split
    · exact hs
    · exact h.wf.sched.onAttach_heaps (itemChanged_setDeferred t.sched x _) rfl hs
  | reschedule x hx => exact Or.inr ⟨x, hx, rfl⟩
  | depAdd d x hd hxN hx hin hitem => exact Or.inl hs
  | depInsert d x hd hxN hx hin hitem =>
    obtain ⟨hdet, hk, hact⟩ := h.wf.of_not_inDepTree hin hitem
    exact Or.inl (h.wf.depInsert_heaps hdet hk hact hs)
  | depRemove x t' hitem hres =>
    cases hx : t.dep.depPrev x with
    | none => simp [streamDepRemove_eq_none hx] at hres
    | some p => exact Or.inl (h.wf.depRemove_heaps hx hs hres)
  | depAddSubtree d x hd hxN hx hdet =>
    rw [streamDepAddSubtree_eq]
    exact Or.inl (pushIfActive_heaps (t := { t with dep := addLinks t.dep d x })
      h.wf.sched.wf hs d x)
  | depInsertSubtree d x hd hxN hx hdet =>
    exact Or.inl (h.wf.depInsertSubtree_heaps hdet (h.not_above hd hx hdet) hxN (h.lt_allocated hd)
      hs)
  | depRemoveSubtree x t' hres =>
    cases hx : t.dep.depPrev x with
    | none => simp [streamDepRemoveSubtree, hx] at hres
    | some p => exact Or.inl (h.wf.depRemoveSubtree_heaps hx hs hres)

/-! ## Rescheduling -/

/-- The cycle that `nghttp2_stream_reschedule` gives to `y` in the queue of `d`, when `n` bytes have
been written. -/
def rescheduledCycle (dep : DepLinks) (s : Sched) (n : ℕ) (d y : Ptr) : ℕ :=
  (max (s.descendantLastCycle d) (s.cycle y) + n * maxWeight % 2 ^ 64 /
    (dep.weight y).toNat) % 2 ^ 64

/-- The keys in the queue of `d` when the cycle of `y` has been written. -/
def rescheduledKeys (dep : DepLinks) (s : Sched) (n : ℕ) (d y : Ptr) : ℕ → WithTop ℕ :=
  keyAt (Function.update s.cycle y (rescheduledCycle dep s n d y)) (s.obq d)

/-- `y` is alone in the queue of `d`, or the last entry can take its place there. -/
def QueueSafe (dep : DepLinks) (s : Sched) (n : ℕ) (d y : Ptr) : Prop :=
  (s.obq d).length = 1 ∨
    Replaceable (rescheduledKeys dep s n d y) (s.obq d).length (s.pqIndex y)

/-- The new cycle of `y` has not wrapped around. -/
def CycleGrows (dep : DepLinks) (s : Sched) (n : ℕ) (d y : Ptr) : Prop :=
  (s.obq d).length = 1 ∨ s.cycle y ≤ rescheduledCycle dep s n d y

/-- A turn of the loop, in the queue where it works. -/
theorem rescheduleStep_heapAt_iff (dep : DepLinks) (hidx : ObqIndexed s) (hx : x ∈ s.obq d)
    (h : s.HeapAt d) (hgrow : CycleGrows dep s (s.lastWritelen x) d x) :
    (rescheduleStep dep s d x).HeapAt d ↔ QueueSafe dep s (s.lastWritelen x) d x := by
  unfold rescheduleStep QueueSafe
  dsimp only
  split
  next hone =>
    refine ⟨fun _ => Or.inl hone, fun _ j hj => ?_⟩
    have hlen : (s.obq d).length ≤ j := by omega
    exact le_top.trans_eq (keyAt_of_le hlen).symm
  next hone =>
    have hgrow := hgrow.resolve_left hone
    obtain ⟨i, hi⟩ := List.getElem?_of_mem hx
    have hpos : s.pqIndex x = i := hidx.indexed d i x hi
    -- the keys of the entries other than `x` are those of a heap
    have hcycle : streamNextCycle dep
        (s.setDescendantLastCycle d (max (s.descendantLastCycle d) (s.cycle x))) x
        ((s.setDescendantLastCycle d
          (max (s.descendantLastCycle d) (s.cycle x))).descendantLastCycle
          d) = rescheduledCycle dep s (s.lastWritelen x) d x := by
      simp [streamNextCycle, rescheduledCycle, Sched.setDescendantLastCycle]
    rw [hcycle]
    have hother : ∀ j, j ≠ i → rescheduledKeys dep s (s.lastWritelen x) d x j =
        keyAt s.cycle (s.obq d) j := by
      intro j hj
      unfold rescheduledKeys keyAt
      cases hy : (s.obq d)[j]? with
      | none => rfl
      | some y =>
        have hyx : y ≠ x := by
          rintro rfl
          exact hj ((hidx.indexed d j y hy).symm.trans hpos)
        rw [Option.elim_some, Option.elim_some, update_of_ne hyx]
    have hself : rescheduledKeys dep s (s.lastWritelen x) d x i =
        WithTop.some (rescheduledCycle dep s (s.lastWritelen x) d x) := by
      rw [rescheduledKeys, keyAt_of_getElem? hi, update_self]
    have hold : keyAt s.cycle (s.obq d) i = WithTop.some (s.cycle x) := keyAt_of_getElem? hi
    have hbut : HeapBut (rescheduledKeys dep s (s.lastWritelen x) d x) i := by
      refine ⟨fun j hj hji hpar => ?_, fun hi0 j hj hpar => ?_⟩
      · rw [hother j hji, hother _ hpar]
        exact h j hj
      · have hlt := parent_lt hj
        have hlt' := parent_lt hi0
        rw [hother j (by omega), hother _ (by omega)]
        exact (h.but i).around hi0 j hj hpar
    have hup : 0 < i → rescheduledKeys dep s (s.lastWritelen x) d x (parent i) ≤
        rescheduledKeys dep s (s.lastWritelen x) d x i := by
      intro hi0
      rw [hother _ (parent_lt hi0).ne, hself]
      have hle := h i hi0
      rw [hold] at hle
      exact hle.trans (WithTop.coe_le_coe.2 hgrow)
    rw [or_iff_right hone, hpos]
    refine Iff.trans ?_ (remove_push_isHeap_iff (hidx.indexed d) hi hbut hup)
    unfold Sched.HeapAt
    simp only [Sched.pqPush, Sched.pqRemove, update_self]
    exact Iff.rfl

/-- What a turn of the loop leaves alone. -/
structure RescheduleFrame (s s' : Sched) (d x : Ptr) : Prop where
  obq : ∀ e, e ≠ d → s'.obq e = s.obq e
  pqIndex : ∀ e, e ≠ d → ∀ y ∈ s.obq e, s'.pqIndex y = s.pqIndex y
  cycle : ∀ y, y ≠ x → s'.cycle y = s.cycle y
  descendantLastCycle : ∀ e, e ≠ d → s'.descendantLastCycle e = s.descendantLastCycle e

theorem rescheduleStep_frame (dep : DepLinks) (hidx : ObqIndexed s) (hx : x ∈ s.obq d) :
    RescheduleFrame s (rescheduleStep dep s d x) d x := by
  unfold rescheduleStep
  dsimp only
  split
  next hone =>
    exact ⟨fun _ _ => rfl, fun _ _ _ _ => rfl, fun y hy => update_of_ne hy _ _,
      fun e he => update_of_ne he _ _⟩
  next hone =>
    refine ⟨fun e he => ?_, fun e he y hy => ?_, fun y hy => update_of_ne hy _ _,
      fun e he => update_of_ne he _ _⟩
    · simp only [Sched.pqPush, Sched.pqRemove, update_of_ne he]
      rfl
    have hyd : y ∉ s.obq d := fun hyd => he (hidx.unique hy hyd)
    have hyx : y ≠ x := fun hyx => hyd (hyx ▸ hx)
    have hframe : ∀ s0 : Sched, s0.obq = s.obq → s0.pqIndex = s.pqIndex →
        ((s0.pqRemove d x).pqPush d x).pqIndex y = s.pqIndex y := by
      intro s0 hobq hindex
      have hidx0 : Indexed ⟨s0.obq d, s0.pqIndex⟩ := by
        rw [hobq, hindex]
        exact hidx.indexed d
      have hmem : y ∉ (s0.pqRemove d x).obq d := by
        have hperm := remove_perm (streamWeightLess s0) hidx0 (by rw [hobq]; exact hx)
        simp only [Sched.pqRemove, update_self]
        intro hy'
        exact hyd (hobq ▸ List.mem_of_mem_erase (hperm.mem_iff.1 hy'))
      have hrem : (s0.pqRemove d x).pqIndex y = s0.pqIndex y :=
        remove_frame _ hidx0 (by rw [hobq]; exact hx) (by rw [hobq]; exact hyd)
      rw [← hindex, ← hrem]
      exact push_frame _ _ hmem hyx
    exact hframe _ rfl rfl

theorem RescheduleFrame.heapAt_iff (h : RescheduleFrame s s' d x) (hidx : ObqIndexed s)
    (hx : x ∈ s.obq d) {e : Ptr} (he : e ≠ d) : s'.HeapAt e ↔ s.HeapAt e := by
  have hcycle : ∀ y ∈ s.obq e, s'.cycle y = s.cycle y := by
    intro y hy
    refine h.cycle y ?_
    rintro rfl
    exact he (hidx.unique hy hx)
  unfold Sched.HeapAt
  rw [h.obq e he, keyAt_congr hcycle]

theorem RescheduleFrame.queue_iff (h : RescheduleFrame s s' d x) (hidx : ObqIndexed s)
    (hx : x ∈ s.obq d) {e : Ptr} (he : e ≠ d) (hy : y ∈ s.obq e) (dep : DepLinks) (n : ℕ) :
    (QueueSafe dep s' n e y ↔ QueueSafe dep s n e y) ∧
      (CycleGrows dep s' n e y ↔ CycleGrows dep s n e y) := by
  have hcycle : ∀ z ∈ s.obq e, s'.cycle z = s.cycle z := by
    intro z hz
    refine h.cycle z ?_
    rintro rfl
    exact he (hidx.unique hz hx)
  have hnew : rescheduledCycle dep s' n e y = rescheduledCycle dep s n e y := by
    rw [rescheduledCycle, rescheduledCycle, h.descendantLastCycle e he, hcycle y hy]
  have hkeys : rescheduledKeys dep s' n e y = rescheduledKeys dep s n e y := by
    rw [rescheduledKeys, rescheduledKeys, h.obq e he, hnew]
    refine keyAt_congr fun z hz => ?_
    rw [update_apply, update_apply, hcycle z hz]
  unfold QueueSafe CycleGrows
  rw [hkeys, hnew, h.obq e he, h.pqIndex e he y hy, hcycle y hy]
  exact ⟨Iff.rfl, Iff.rfl⟩

theorem rescheduleStep_lastWritelen (dep : DepLinks) (s : Sched) (d x : Ptr) :
    (rescheduleStep dep s d x).lastWritelen d = s.lastWritelen x := by
  unfold rescheduleStep
  dsimp only
  rw [update_self]
  split <;> rfl

/-- What leads to something to send does so for the streams above. -/
theorem Scheduled.subtreeActive_of_above {par : Ptr → Option Ptr} (h : Scheduled par s)
    (hy : Above par y x) (hact : streamSubtreeActive s x = true) :
    streamSubtreeActive s y = true := by
  induction hy using Relation.ReflTransGen.head_induction_on with
  | refl => exact hact
  | head hc _ ih =>
    have hpar : par _ = some _ := hc
    have hq := h.noLost _ (by rw [hpar]; exact Option.some_ne_none _) ih
    exact streamSubtreeActive_of_mem (h.wf.mem_obq_of_queued h.located hq hpar)

/-- **The loop of `nghttp2_stream_reschedule`** keeps the heaps on the way up just if the queues
there are safe, and does not touch the others. -/
theorem rescheduleLoop_heapAt_iff {dep : DepLinks} (hground : Grounded dep.depPrev) :
    ∀ {n : ℕ} {s : Sched} {d x : Ptr}, BoundedPaths (fun c p => dep.depPrev c = some p) n d →
      Scheduled dep.depPrev s → x ∈ s.obq d → (∀ e, Above dep.depPrev e d → s.HeapAt e) →
      (∀ y e, Above dep.depPrev y x → dep.depPrev y = some e →
        CycleGrows dep s (s.lastWritelen x) e y) →
      ((∀ e, Above dep.depPrev e d → (rescheduleLoop dep (n + 1) s (some d) x).HeapAt e) ↔
        ∀ y e, Above dep.depPrev y x → dep.depPrev y = some e →
          QueueSafe dep s (s.lastWritelen x) e y) ∧
      ∀ e, ¬ Above dep.depPrev e d →
        ((rescheduleLoop dep (n + 1) s (some d) x).HeapAt e ↔ s.HeapAt e) := by
  intro n
  induction n using Nat.strong_induction_on with
  | _ n ih =>
    intro s d x hup h hx hheaps hgrow
    have hidx := h.wf.toObqIndexed
    have hpar : dep.depPrev x = some d := h.located hx
    have hframe := rescheduleStep_frame dep hidx hx
    have hturn := rescheduleStep_heapAt_iff dep hidx hx (hheaps d (Above.refl d))
      (hgrow x d (Above.refl x) hpar)
    have hre := rescheduleStep_reordered dep hidx hx
    rw [rescheduleLoop]
    cases hd : dep.depPrev d with
    | none =>
      have hloop : rescheduleLoop dep n (rescheduleStep dep s d x) none d =
          rescheduleStep dep s d x := by cases n <;> rfl
      have habove : ∀ e, Above dep.depPrev e d → e = d := by
        intro e he
        exact (above_iff.1 he).resolve_right (by simp [hd])
      rw [hloop]
      refine ⟨⟨fun H y e hy hye => ?_, fun H e he => ?_⟩, fun e he => ?_⟩
      · rcases above_iff.1 hy with rfl | ⟨p, hp, hyp⟩
        · obtain rfl : d = e := Option.some.inj (hpar.symm.trans hye)
          exact hturn.1 (H d (Above.refl d))
        · obtain rfl : d = p := Option.some.inj (hpar.symm.trans hp)
          rw [habove y hyp, hd] at hye
          cases hye
      · rw [habove e he]
        exact hturn.2 (H x d (Above.refl x) hpar)
      · refine hframe.heapAt_iff hidx hx ?_
        rintro rfl
        exact he (Above.refl e)
    | some e0 =>
      cases n with
      | zero => exact absurd hd (hup e0)
      | succ n =>
        have hnot : ¬ Above dep.depPrev d e0 := hground.not_above_parent hd
        have hne : ∀ e, Above dep.depPrev e e0 → e ≠ d := by
          rintro e he rfl
          exact hnot he
        -- every stream on the way up is in the queue of its parent
        have hqueued : ∀ y e, Above dep.depPrev y d → dep.depPrev y = some e → y ∈ s.obq e := by
          intro y e hy hye
          have hact := h.subtreeActive_of_above hy (streamSubtreeActive_of_mem hx)
          exact h.wf.mem_obq_of_queued h.located (h.noLost y (by simp [hye]) hact) hye
        have hwritten := rescheduleStep_lastWritelen dep s d x
        have hqueue : ∀ y e, Above dep.depPrev y d → dep.depPrev y = some e →
            (QueueSafe dep (rescheduleStep dep s d x) (s.lastWritelen x) e y ↔
              QueueSafe dep s (s.lastWritelen x) e y) ∧
            (CycleGrows dep (rescheduleStep dep s d x) (s.lastWritelen x) e y ↔
              CycleGrows dep s (s.lastWritelen x) e y) := by
          intro y e hy hye
          refine hframe.queue_iff hidx hx ?_ (hqueued y e hy hye) dep _
          rintro rfl
          exact hground.not_above_parent hye hy
        obtain ⟨ih1, ih2⟩ := ih n n.lt_succ_self (hup e0 hd) (hre.scheduled h)
          ((hre.mem e0 d).2 (hqueued d e0 (Above.refl d) hd))
          (fun e he => (hframe.heapAt_iff hidx hx (hne e he)).2 (hheaps e (he.tail hd)))
          (fun y e hy hye => by
            rw [hwritten]
            exact (hqueue y e hy hye).2.2 (hgrow y e (hy.tail hpar) hye))
        rw [hwritten] at ih1
        have hself := (ih2 d hnot).trans hturn
        refine ⟨⟨fun H y e hy hye => ?_, fun H e he => ?_⟩, fun e he => ?_⟩
        · rcases above_iff.1 hy with rfl | ⟨p, hp, hyp⟩
          · obtain rfl : d = e := Option.some.inj (hpar.symm.trans hye)
            exact hself.1 (H d (Above.refl d))
          · obtain rfl : d = p := Option.some.inj (hpar.symm.trans hp)
            exact (hqueue y e hyp hye).1.1 (ih1.1 (fun e' he' => H e' (he'.tail hd)) y e hyp hye)
        · rcases above_iff.1 he with rfl | ⟨p, hp, hep⟩
          · exact hself.2 (H x e (Above.refl x) hpar)
          · obtain rfl : e0 = p := Option.some.inj (hd.symm.trans hp)
            exact ih1.2 (fun y e' hy hye => (hqueue y e' hy hye).1.2
              (H y e' (hy.tail hpar) hye)) e hep
        · have hed : e ≠ d := by
            rintro rfl
            exact he (Above.refl e)
          exact (ih2 e fun hee => he (hee.tail hd)).trans (hframe.heapAt_iff hidx hx hed)

/-! ## Runs -/

/-- Rescheduling `x` is safe: in every queue on the way up the last entry can take the place of the
stream, by the keys it has there after the cycle has been written. -/
def RescheduleSafe (t : StreamTree) (x : Ptr) : Prop :=
  ∀ y e, Above t.dep.depPrev y x → t.dep.depPrev y = some e →
    QueueSafe t.dep t.sched (t.sched.lastWritelen x) e y

/-- No cycle wraps around when `x` is rescheduled. -/
def RescheduleGrows (t : StreamTree) (x : Ptr) : Prop :=
  ∀ y e, Above t.dep.depPrev y x → t.dep.depPrev y = some e →
    CycleGrows t.dep t.sched (t.sched.lastWritelen x) e y

/-- A step, and if it is the rescheduling of a stream, a safe one. -/
def SteadyStep (t t' : StreamTree) : Prop :=
  TreeStep t t' ∧ ∀ x, t.sched.queued x = true → t' = streamReschedule t x →
    RescheduleGrows t x ∧ RescheduleSafe t x

/-- The runs in which every rescheduling is safe. -/
def SteadyRun (t : StreamTree) : Prop := Relation.ReflTransGen SteadyStep loneRoot t

theorem SteadyRun.reachable (h : SteadyRun t) : TreeReachable t :=
  Relation.ReflTransGen.mono (fun _ _ hs => hs.1) _ _ h

/-- **`nghttp2_stream_reschedule`** keeps the heaps just if it is safe. -/
theorem TreeInv.reschedule_heaps_iff (h : TreeInv t kids) (hs : t.sched.Heaps)
    (hx : t.sched.queued x = true) (hgrow : RescheduleGrows t x) :
    (streamReschedule t x).sched.Heaps ↔ RescheduleSafe t x := by
  have hrooted := h.wf.tree.rooted
  obtain ⟨d, hd⟩ := (h.wf.sched.wf.queued_iff x).1 hx
  obtain ⟨hiff, hother⟩ := rescheduleLoop_heapAt_iff hrooted.grounded (hrooted.up d) h.wf.sched hd
    (fun e _ => hs e) hgrow
  have hloop : (streamReschedule t x).sched =
      rescheduleLoop t.dep (t.allocated + 1) t.sched (some d) x := by
    rw [streamReschedule, h.wf.sched.located hd]
    rfl
  rw [hloop]
  constructor
  · exact fun hheaps => hiff.1 fun e _ => hheaps e
  · intro hsafe e
    by_cases he : Above t.dep.depPrev e d
    · exact hiff.2 hsafe e he
    · exact (hother e he).2 (hs e)

theorem loneRoot_heaps : loneRoot.sched.Heaps := by
  refine noStreams_wf.alloc_heaps defaultWeight fun p j _ => ?_
  exact le_top.trans_eq (keyAt_of_le (Nat.zero_le j)).symm

/-- **Run lemma**: in a run with safe reschedulings all queues are heaps. -/
theorem SteadyRun.heaps (h : SteadyRun t) : t.sched.Heaps := by
  induction h with
  | refl => exact loneRoot_heaps
  | tail hrun hs ih =>
    obtain ⟨kids, hinv⟩ := (SteadyRun.reachable hrun).inv
    rcases hinv.heaps_step ih hs.1 with hheaps | ⟨x, hx, rfl⟩
    · exact hheaps
    · obtain ⟨hgrow, hsafe⟩ := hs.2 x hx rfl
      exact (hinv.reschedule_heaps_iff ih hx hgrow).2 hsafe

/-- **The queues are heaps** in every run whose reschedulings are safe: the keys are in order,
every entry has its position in its `index` field, and `nghttp2_pq_top` yields a smallest entry.
From such a state every operation but a rescheduling keeps the heaps, and a rescheduling in which no
cycle wraps around keeps them just if it is safe. -/
theorem heaps_iff_of_steady (h : SteadyRun t) :
    (t.sched.Heaps ∧ (∀ p, Pq.Indexed ⟨t.sched.obq p, t.sched.pqIndex⟩) ∧
      ∀ p y z, (t.sched.obq p).head? = some y → z ∈ t.sched.obq p →
        t.sched.cycle y ≤ t.sched.cycle z) ∧
    (∀ t', TreeStep t t' → (∀ p, Pq.Indexed ⟨t'.sched.obq p, t'.sched.pqIndex⟩) ∧
      (t'.sched.Heaps ∨ ∃ x, t.sched.queued x = true ∧ t' = streamReschedule t x)) ∧
    ∀ x, t.sched.queued x = true → RescheduleGrows t x →
      ((streamReschedule t x).sched.Heaps ↔ RescheduleSafe t x) := by
  obtain ⟨kids, hinv⟩ := h.reachable.inv
  refine ⟨⟨h.heaps, hinv.wf.sched.wf.indexed, fun p y z hy hz => ?_⟩, fun t' hs => ⟨?_, ?_⟩,
    fun x hx hgrow => hinv.reschedule_heaps_iff h.heaps hx hgrow⟩
  · obtain ⟨i, hi⟩ := List.getElem?_of_mem hz
    rw [List.head?_eq_getElem?] at hy
    have hle := (h.heaps p).top_le i
    rw [keyAt_of_getElem? hy, keyAt_of_getElem? hi] at hle
    exact WithTop.coe_le_coe.1 hle
  · obtain ⟨kids', hinv'⟩ := hinv.step hs
    exact hinv'.wf.sched.wf.indexed
  · exact hinv.heaps_step h.heaps hs

/-- A new stream below the root, after `n` bytes have been written on it. -/
def addStream (t : StreamTree) (n : ℕ) : StreamTree :=
  (streamDepAdd (streamAlloc t 256) root t.allocated).setLastWritelen t.allocated n

/-- A new stream of this kind with an item. -/
def addActive (t : StreamTree) (n : ℕ) : StreamTree :=
  streamAttachItem (addStream t n) t.allocated t.allocated

/-- The steps that lead to a new stream. -/
theorem addStream_steps (h : TreeReachable t) (n : ℕ) : TreeStep t (streamAlloc t 256) ∧
    TreeStep (streamAlloc t 256) (streamDepAdd (streamAlloc t 256) root t.allocated) ∧
    TreeStep (streamDepAdd (streamAlloc t 256) root t.allocated) (addStream t n) := by
  obtain ⟨kids, hinv⟩ := h.inv
  refine ⟨.create 256 (by decide), .depAdd root t.allocated (Above.refl _) (Nat.lt_succ_self _)
    hinv.root_lt.ne' ?_ ?_, .setLastWritelen t.allocated n⟩
  · simp [streamInDepTree, streamAlloc, streamInit]
  · simp [streamAlloc, streamInit]

theorem addActive_reachable (h : TreeReachable t) (n : ℕ) : TreeReachable (addActive t n) := by
  obtain ⟨h1, h2, h3⟩ := addStream_steps h n
  refine (((h.tail h1).tail h2).tail h3).tail (TreeStep.attachItem t.allocated t.allocated ?_ ?_)
  · simp [addStream, StreamTree.setLastWritelen, streamDepAdd, streamAlloc, streamInit,
      DeferFlags.any]
  · simp [addStream, StreamTree.setLastWritelen, streamDepAdd, streamAlloc, streamInit]

/-- Five streams in the queue of the root, with the cycles 0 to 4; on the second one ten bytes have
been written since. -/
def fiveStreams : StreamTree := ([0, 1, 2, 3, 4].foldl addActive loneRoot).setLastWritelen 2 10

theorem fiveStreams_reachable : TreeReachable fiveStreams := by
  have hfold : ∀ (l : List ℕ) {t : StreamTree}, TreeReachable t →
      TreeReachable (l.foldl addActive t) := by
    intro l
    induction l with
    | nil => exact fun h => h
    | cons n l ih => exact fun h => ih (addActive_reachable h n)
  exact (hfold _ .refl).tail (TreeStep.setLastWritelen 2 10)

/-- **Rescheduling a stream that is not at the top breaks the heap.**  The second stream gets the
cycle 11.  The last entry, with the cycle 4, takes its place, and since 4 is smaller than 11 it is
compared with the entry above only; the entry below has the cycle 3. -/
theorem reschedule_breaks_heap :
    TreeReachable fiveStreams ∧ fiveStreams.sched.queued 2 = true ∧
      fiveStreams.sched.obq root = [1, 2, 3, 4, 5] ∧
      [1, 2, 3, 4, 5].map fiveStreams.sched.cycle = [0, 1, 2, 3, 4] ∧
      (streamReschedule fiveStreams 2).sched.obq root = [1, 5, 3, 4, 2] ∧
      [1, 5, 3, 4, 2].map (streamReschedule fiveStreams 2).sched.cycle = [0, 4, 2, 3, 11] ∧
      ¬ (streamReschedule fiveStreams 2).sched.Heaps := by
  have hobq : (streamReschedule fiveStreams 2).sched.obq root = [1, 5, 3, 4, 2] := by decide +kernel
  have hcycle : [1, 5, 3, 4, 2].map (streamReschedule fiveStreams 2).sched.cycle =
      [0, 4, 2, 3, 11] := by decide +kernel
  refine ⟨fiveStreams_reachable, by decide +kernel, by decide +kernel, by decide +kernel, hobq,
    hcycle, fun hheaps => ?_⟩
  have hle := hheaps root 3 (by norm_num)
  simp only [List.map_cons, List.cons.injEq] at hcycle
  rw [hobq, keyAt_of_getElem? (a := 5) rfl, keyAt_of_getElem? (a := 4) rfl, hcycle.2.1,
    hcycle.2.2.2.1] at hle
  exact absurd (WithTop.coe_le_coe.1 hle) (by norm_num)

/-- Streams that are added while nothing waits are rescheduled by no step. -/
theorem addStream_steady (h : SteadyRun t) (hq : ∀ x, t.sched.queued x = false) (n : ℕ) :
    SteadyRun (addStream t n) ∧ ∀ x, (addStream t n).sched.queued x = false := by
  have hstep : ∀ {t t' : StreamTree}, (∀ x, t.sched.queued x = false) → TreeStep t t' →
      SteadyStep t t' := by
    intro t t' hq hs
    refine ⟨hs, fun x hx => ?_⟩
    rw [hq x] at hx
    cases hx
  have hq' : ∀ x, (streamAlloc t 256).sched.queued x = false := by
    intro x
    simp [streamAlloc, streamInit, hq, update_apply]
  obtain ⟨h1, h2, h3⟩ := addStream_steps h.reachable n
  exact ⟨((h.tail (hstep hq h1)).tail (hstep hq' h2)).tail (hstep hq' h3), hq'⟩

/-- A step that gives a stream an item is no rescheduling. -/
theorem attachItem_steady (h : SteadyRun t) (hdef : (t.sched.deferred x).any = false)
    (hitem : t.sched.item x = none) (i : ItemPtr) : SteadyRun (streamAttachItem t x i) := by
  refine h.tail ⟨.attachItem x i hdef hitem, fun y hy heq => ?_⟩
  obtain ⟨kids, hinv⟩ := h.reachable.inv
  have hkeeps := congrFun (rescheduleLoop_reordered t.turns hinv.wf.sched hy).item x
  have hsome : (streamAttachItem t x i).sched.item x = some i :=
    (congrFun (congrArg Prod.fst (streamObqPush_pending ..)) x).trans (update_self ..)
  rw [heq, streamReschedule, hkeeps, hitem] at hsome
  cases hsome

/-- Five streams on which one to five bytes have been written, and which then get an item
each: their cycles are 1 to 5. -/
def steadyStreams : StreamTree :=
  [1, 2, 3, 4, 5].foldl (fun t x => streamAttachItem t x x)
    ([1, 2, 3, 4, 5].foldl addStream loneRoot)

theorem steadyStreams_steady : SteadyRun steadyStreams := by
  have hfold : ∀ (l : List ℕ) {t : StreamTree}, SteadyRun t → (∀ x, t.sched.queued x = false) →
      SteadyRun (l.foldl addStream t) := by
    intro l
    induction l with
    | nil => exact fun h _ => h
    | cons n l ih => exact fun h hq => ih (addStream_steady h hq n).1 (addStream_steady h hq n).2
  have h0 := hfold [1, 2, 3, 4, 5] (t := loneRoot) .refl fun x => by
    simp [loneRoot, streamAlloc, streamInit, noStreams]
  have h1 := attachItem_steady (x := 1) h0 (by decide +kernel) (by decide +kernel) 1
  have h2 := attachItem_steady (x := 2) h1 (by decide +kernel) (by decide +kernel) 2
  have h3 := attachItem_steady (x := 3) h2 (by decide +kernel) (by decide +kernel) 3
  have h4 := attachItem_steady (x := 4) h3 (by decide +kernel) (by decide +kernel) 4
  exact attachItem_steady (x := 5) h4 (by decide +kernel) (by decide +kernel) 5

/-- Stream 2 gets the cycle 4, which is smaller than that of the last entry: the last entry
takes its place and goes down. -/
theorem steadyStreams_reschedule : SteadyRun steadyStreams ∧
    steadyStreams.sched.obq root = [1, 2, 3, 4, 5] ∧
    [1, 2, 3, 4, 5].map steadyStreams.sched.cycle = [1, 2, 3, 4, 5] ∧
    (streamReschedule steadyStreams 2).sched.obq root = [1, 4, 3, 5, 2] ∧
    (streamReschedule steadyStreams 2).sched.cycle 2 = 4 ∧
    (streamReschedule steadyStreams 2).sched.Heaps := by
  -- the way up from stream 2 has one queue
  have hqueue : ∀ y e, Above steadyStreams.dep.depPrev y 2 → steadyStreams.dep.depPrev y = some e →
      y = 2 ∧ e = root := by
    intro y e hy hye
    have hpar : steadyStreams.dep.depPrev 2 = some root := by decide +kernel
    have hroot : steadyStreams.dep.depPrev root = none := by decide +kernel
    rcases above_iff.1 hy with rfl | ⟨p, hp, hyp⟩
    · exact ⟨rfl, Option.some.inj (hye.symm.trans hpar)⟩
    obtain rfl : root = p := Option.some.inj (hpar.symm.trans hp)
    rcases above_iff.1 hyp with rfl | ⟨p, hp, -⟩
    · cases hroot.symm.trans hye
    · cases hroot.symm.trans hp
  have hkeys : QueueSafe steadyStreams.dep steadyStreams.sched (steadyStreams.sched.lastWritelen 2)
      root 2 := by
    refine .inr (.inr (.inr (.inl ?_)))
    decide +kernel
  refine ⟨steadyStreams_steady, by decide +kernel, by decide +kernel, by decide +kernel,
    by decide +kernel, ((heaps_iff_of_steady steadyStreams_steady).2.2 2 (by decide +kernel)
    fun y e hy hye => ?_).2 fun y e hy hye => ?_⟩
  · obtain ⟨rfl, rfl⟩ := hqueue y e hy hye
    exact .inr (by decide +kernel)
  · obtain ⟨rfl, rfl⟩ := hqueue y e hy hye
    exact hkeys

/-- **Which stream is to be served**: a stream comes before its descendants, and of its children
with anything to send the one whose turn comes first. -/
inductive Due (t : StreamTree) : Ptr → Ptr → Prop
  | here {x : Ptr} : streamActive t.sched x = true → Due t x x
  | child {x y z : Ptr} : streamActive t.sched x = false → t.dep.depPrev y = some x →
      (∀ w v, t.dep.depPrev w = some x → Above t.dep.depPrev w v → streamActive t.sched v = true →
        t.sched.cycle y ≤ t.sched.cycle w) → Due t y z → Due t x z

/-- **The scheduler serves the stream that is due**, in every run whose reschedulings are safe. -/
theorem due_of_steady (h : SteadyRun t) {i : ItemPtr}
    (hi : streamNextOutboundItem t root = some i) :
      ∃ y, Due t root y ∧ t.sched.item y = some i := by
  obtain ⟨kids, hinv⟩ := h.reachable.inv
  have hsched := hinv.wf.sched
  have hloop : ∀ {n x}, nextOutboundLoop t.sched n x = some i →
      ∃ y, Due t x y ∧ t.sched.item y = some i := by
    intro n
    induction n with
    | zero => exact nofun
    | succ n ih =>
      intro x hx
      rw [nextOutboundLoop] at hx
      split_ifs at hx with hact
      · exact ⟨x, .here hact, hx⟩
      split at hx
      · cases hx
      next y hy =>
        obtain ⟨z, hz, hitem⟩ := ih hx
        refine ⟨z, .child (by simpa using hact) (hsched.located (List.mem_of_head? hy)) ?_ hz,
          hitem⟩
        -- the children with anything to send are in the queue, and its top is a least entry
        intro w v hw hv hactv
        have hq : t.sched.queued w = true :=
          (hsched.queued_iff (hinv.wf.tree.rooted.down w)).2 ⟨by simp [hw], v, hv, hactv⟩
        obtain ⟨k, hk⟩ := List.getElem?_of_mem (hsched.wf.mem_obq_of_queued hsched.located hq hw)
        rw [List.head?_eq_getElem?] at hy
        have hle := (h.heaps x).top_le k
        rw [Pq.keyAt_of_getElem? hy, Pq.keyAt_of_getElem? hk] at hle
        exact WithTop.coe_le_coe.1 hle
  exact hloop hi

/-- Of five streams the one with the smallest cycle is served. -/
theorem steadyStreams_due : [1, 2, 3, 4, 5].map steadyStreams.sched.cycle = [1, 2, 3, 4, 5] ∧
    streamNextOutboundItem steadyStreams root = some 1 ∧
    ∃ y, Due steadyStreams root y ∧ steadyStreams.sched.item y = some 1 := by
  have hnext : streamNextOutboundItem steadyStreams root = some 1 := by decide +kernel
  exact ⟨by decide +kernel, hnext, due_of_steady steadyStreams_steady hnext⟩

end Nghttp2
