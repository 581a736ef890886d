/-
# The `obq` queues as heaps

The entries of an `obq` are ordered by `cycle`.  Taking a stream out and entering it keeps the
order, because its `cycle` is only written while it is in no queue.  The lemmas follow the loops
of `stream_obq_push`, `stream_obq_remove` and `stream_obq_move`.
-/
import Nghttp2.PqHeap
import Nghttp2.Scheduler

namespace Nghttp2

open ParentForest Pq
open Function (update_of_ne update_self)

variable {s s' : Sched} {d p x y : Ptr} {par : Ptr → Option Ptr}

/-- The queue of `p` is a heap. -/
def Sched.HeapAt (s : Sched) (p : Ptr) : Prop := IsHeap (keyAt s.cycle (s.obq p))

/-- All queues are heaps. -/
def Sched.Heaps (s : Sched) : Prop := ∀ p, s.HeapAt p

theorem Sched.HeapAt.congr (h : s.HeapAt p) (hobq : s'.obq p = s.obq p)
    (hcycle : ∀ y ∈ s.obq p, s'.cycle y = s.cycle y) : s'.HeapAt p := by
  unfold Sched.HeapAt at h ⊢
  rwa [hobq, keyAt_congr hcycle]

theorem Sched.Heaps.enqueue (h : s.Heaps) (hwf : ObqWF s) (hx : s.queued x = false) (d : Ptr)
    (c : ℕ) : (((s.setCycle x c).pqPush d x).setQueued x true).Heaps := by
  have hcycle : ∀ p, ∀ y ∈ s.obq p, (s.setCycle x c).cycle y = s.cycle y := by
    intro p y hy
    refine update_of_ne ?_ _ _
    rintro rfl
    have hq := (hwf.queued_iff y).2 ⟨p, hy⟩
    rw [hx] at hq
    exact Bool.false_ne_true hq
  have h0 : (s.setCycle x c).Heaps := fun p => (h p).congr rfl (hcycle p)
  intro p
  rcases eq_or_ne p d with rfl | hpd
  · have hpush := push_isHeap ⟨s.obq p, s.pqIndex⟩ (h0 p) x
    unfold Sched.HeapAt
    simp only [Sched.setQueued, Sched.pqPush, update_self]
    exact hpush
  · refine (h0 p).congr ?_ fun _ _ => rfl
    simp only [Sched.setQueued, Sched.pqPush, update_of_ne hpd]

theorem Sched.Heaps.dequeue (h : s.Heaps) (hwf : ObqWF s) (hx : x ∈ s.obq d) :
    ((s.pqRemove d x).setQueued x false).Heaps := by
  intro p
  rcases eq_or_ne p d with rfl | hpd
  · obtain ⟨i, hi⟩ := List.getElem?_of_mem hx
    have hrem := remove_isHeap ⟨s.obq p, s.pqIndex⟩ (hwf.indexed p) hi (h p)
    unfold Sched.HeapAt
    simp only [Sched.setQueued, Sched.pqRemove, update_self]
    exact hrem
  · refine (h p).congr ?_ fun _ _ => rfl
    simp only [Sched.setQueued, Sched.pqRemove, update_of_ne hpd]

/-- The cycles of a stream that is in no queue can be written. -/
theorem Sched.Heaps.setCycles (h : s.Heaps) (hwf : ObqWF s) (hx : s.queued x = false) (c c' : ℕ) :
    ((s.setCycle x c).setDescendantLastCycle x c').Heaps := by
  intro p
  refine (h p).congr rfl fun y hy => update_of_ne ?_ _ _
  rintro rfl
  have hq := (hwf.queued_iff y).2 ⟨p, hy⟩
  rw [hx] at hq
  exact Bool.false_ne_true hq

theorem streamObqPush_heaps (dep : DepLinks) :
    ∀ (n : ℕ) {s : Sched} (d : Option Ptr) (x : Ptr), ObqWF s → s.Heaps →
      (streamObqPush dep n s d x).Heaps := by
  intro n
  induction n with
  | zero => exact fun _ _ _ h => h
  | succ n ih =>
    intro s d x hwf h
    cases d with
    | none => exact h
    | some d =>
      rw [streamObqPush]
      split
      next hq => exact h
      next hq =>
        have hq' : s.queued x = false := by simpa using hq
        exact ih _ _ (hwf.enqueue hq' d _).wf (h.enqueue hwf hq' d _)

/-- `stream_obq_remove` keeps the heaps: every ancestor it takes out is in the queue of its
parent. -/
theorem obqRemoveLoop_heaps {dep : DepLinks} :
    ∀ {n : ℕ} {s : Sched} {d x : Ptr}, Grounded par → ObqWF s → Located par s →
      (∀ a, Above par a d → dep.depPrev a = par a) → par x = some d → s.queued x = true →
      (∀ a, Above par a d → NoLost par s a) → s.Heaps →
      (obqRemoveLoop dep n s (some d) x).Heaps := by
  intro n
  induction n with
  | zero => exact fun _ _ _ _ _ _ _ h => h
  | succ n ih =>
    intro s d x hground hwf hloc hagree hx hq hchain h
    have hmem : x ∈ s.obq d := hwf.mem_obq_of_queued hloc hq hx
    have hdeq := hwf.dequeue hmem
    have hqx := congrFun hdeq.queued x
    rw [update_self] at hqx
    have hdeq' := hdeq.setCycles 0 0
    have h' := (h.dequeue hwf hmem).setCycles hdeq.wf hqx 0 0
    rw [obqRemoveLoop]
    split
    next hact => exact h'
    next hact =>
      rw [hagree d (Above.refl d)]
      cases hd : par d with
      | none =>
        rw [obqRemoveLoop_none]
        exact h'
      | some e =>
        have hqd : s.queued d = true :=
          hchain d (Above.refl d) (by simp [hd]) (streamSubtreeActive_of_mem hmem)
        have hqd' := congrFun hdeq'.queued d
        rw [update_of_ne (hground.ne_parent hx).symm, hqd] at hqd'
        have hne : ∀ a, Above par a e → a ≠ x := by
          rintro a ha rfl
          exact hground.not_above_parent hx (ha.tail hd)
        exact ih hground hdeq'.wf (fun p y hy => hloc ((hdeq'.mem p y).1 hy).1)
          (fun a ha => hagree a (ha.tail hd)) hd hqd'
          (fun a ha => hdeq'.noLost (hne a ha) (hchain a (ha.tail hd))) h'

theorem streamObqRemove_heaps {dep : DepLinks} (n : ℕ) (hground : Grounded par) (hwf : ObqWF s)
    (hloc : Located par s) (hagree : ∀ a, Above par a x → dep.depPrev a = par a)
    (hchain : ∀ a, a ≠ x → Above par a x → NoLost par s a) (h : s.Heaps) :
    (streamObqRemove dep n s x).Heaps := by
  unfold streamObqRemove
  split
  next hq =>
    obtain ⟨d, hd⟩ := (hwf.queued_iff x).1 hq
    have hx := hloc hd
    rw [hagree x (Above.refl x), hx]
    refine obqRemoveLoop_heaps hground hwf hloc (fun a ha => hagree a (ha.tail hx)) hx hq
      (fun a ha => hchain a ?_ (ha.tail hx)) h
    rintro rfl
    exact hground.not_above_parent hx ha
  next hq => exact h

theorem streamObqMove_heaps (dep : DepLinks) (n : ℕ) {dest src : Ptr} (hwf : ObqWF s)
    (hsrc : s.queued x = true → x ∈ s.obq src) (h : s.Heaps) :
    (streamObqMove dep n s dest src x).Heaps := by
  unfold streamObqMove
  split
  next hq =>
    exact streamObqPush_heaps dep n _ _ (hwf.dequeue (hsrc hq)).wf (h.dequeue hwf (hsrc hq))
  next hq => exact h

end Nghttp2
