/-
# Dependency operations leave items alone

The item of a stream and its deferral flags are written by the item operations
only.  `Sched.pending` is the pair of these two fields; every operation on queues and
on the dependency tree returns it unchanged.
-/
import Nghttp2.StreamTree

namespace Nghttp2

open LinkedChain

/-- The items of all streams with their deferral flags. -/
def Sched.pending (s : Sched) : (Ptr → Option ItemPtr) × (Ptr → DeferFlags) :=
  (s.item, s.deferred)

/-- Pushing streams. -/
theorem streamObqPush_pending (dep : DepLinks) (n : ℕ) (s : Sched) (d : Option Ptr) (x : Ptr) :
    (streamObqPush dep n s d x).pending = s.pending := by
  induction n generalizing s d x with
  | zero => rfl
  | succ n ih =>
    cases d with
    | none => rfl
    | some d =>
      rw [streamObqPush]
      split
      · rfl
      · exact ih _ _ _

/-- Removing streams. -/
theorem obqRemoveLoop_pending (dep : DepLinks) (n : ℕ) (s : Sched) (d : Option Ptr) (x : Ptr) :
    (obqRemoveLoop dep n s d x).pending = s.pending := by
  induction n generalizing s d x with
  | zero => rfl
  | succ n ih =>
    cases d with
    | none => rfl
    | some d =>
      rw [obqRemoveLoop]
      split
      · rfl
      · exact ih _ _ _

theorem streamObqRemove_pending (dep : DepLinks) (n : ℕ) (s : Sched) (x : Ptr) :
    (streamObqRemove dep n s x).pending = s.pending := by
  unfold streamObqRemove
  split
  · exact obqRemoveLoop_pending ..
  · rfl

/-- Moving streams. -/
theorem streamObqMove_pending (dep : DepLinks) (n : ℕ) (s : Sched) (dest src x : Ptr) :
    (streamObqMove dep n s dest src x).pending = s.pending := by
  unfold streamObqMove
  split
  · exact streamObqPush_pending ..
  · rfl

/-- The items of a stream tree. -/
def StreamTree.pending (t : StreamTree) : (Ptr → Option ItemPtr) × (Ptr → DeferFlags) :=
  t.sched.pending

variable (t : StreamTree) (d x : Ptr)

theorem pushIfActive_pending : (pushIfActive t d x).pending = t.pending := by
  unfold pushIfActive StreamTree.pending
  dsimp only
  split
  · exact streamObqPush_pending ..
  · rfl

theorem forChain_adoptChild_pending (dest src : Ptr) (n : ℕ) (start : Option Ptr) :
    (forChain (fun t : StreamTree => t.dep.sibNext) (adoptChild dest src) n t start).pending =
      t.pending := by
  have hbody : ∀ (t : StreamTree) (si : Ptr), (adoptChild dest src t si).pending = t.pending :=
    fun t si => streamObqMove_pending ..
  exact forChain_keeps StreamTree.pending hbody n t start

theorem streamDepAdd_pending : (streamDepAdd t d x).pending = t.pending := rfl

theorem streamDepAddSubtree_pending : (streamDepAddSubtree t d x).pending = t.pending :=
  pushIfActive_pending ..

theorem streamDepInsert_pending : (streamDepInsert t d x).pending = t.pending := by
  unfold streamDepInsert
  dsimp only
  cases (t.dep.setSumDepWeight x (t.dep.sumDepWeight d)).setSumDepWeight d
    (t.dep.weight x) |>.depNext d with
  | none => rfl
  | some c => exact (pushIfActive_pending ..).trans (forChain_adoptChild_pending ..)

theorem streamDepInsertSubtree_pending : (streamDepInsertSubtree t d x).pending = t.pending := by
  unfold streamDepInsertSubtree
  dsimp only
  refine (pushIfActive_pending ..).trans ?_
  cases (t.dep.setSumDepWeight x (t.dep.sumDepWeight x + t.dep.sumDepWeight d)).setSumDepWeight d
    (t.dep.weight x) |>.depNext d with
  | none => rfl
  | some c => exact forChain_adoptChild_pending ..

variable {t x}

theorem streamDepRemoveSubtree_pending {t' : StreamTree}
    (h : streamDepRemoveSubtree t x = some t') : t'.pending = t.pending := by
  unfold streamDepRemoveSubtree at h
  split at h
  · simp at h
  · rw [Option.some.injEq] at h
    subst h
    unfold StreamTree.pending
    dsimp only
    split
    · exact streamObqRemove_pending ..
    · rfl

theorem releaseChild_pending (x : Ptr) (td : StreamTree × ℤ) (si : Ptr) :
    (releaseChild x td si).1.pending = td.1.pending := by
  unfold releaseChild StreamTree.pending
  dsimp only
  split
  · rfl
  · exact streamObqMove_pending ..

/-- Removing a stream from the tree. -/
theorem streamDepRemove_pending {t' : StreamTree} (h : streamDepRemove t x = some t') :
    t'.pending = t.pending := by
  unfold streamDepRemove at h
  set loop := forChain (fun td : StreamTree × ℤ => td.1.dep.sibNext) (releaseChild x) t.turns
    (t, -t.dep.weight x) (t.dep.depNext x) with hloop
  have hkeep : loop.1.pending = t.pending :=
    forChain_keeps (fun td : StreamTree × ℤ => td.1.pending)
      (fun td si => releaseChild_pending x td si) _ _ _
  dsimp only at h
  split at h
  · simp at h
  rw [Option.some.injEq] at h
  subst h
  refine Eq.trans ?_ hkeep
  unfold StreamTree.pending
  dsimp only
  split
  · exact streamObqRemove_pending ..
  · rfl

end Nghttp2
