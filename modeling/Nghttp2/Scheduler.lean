/-
# What the `obq` queues contain

Every stream has a queue `obq` of those of its children that lead to something to
send.  `stream_obq_push`, `stream_obq_remove` and `stream_obq_move` keep the queues
up to date along the ancestors of a stream.  They are used in the middle of
relinking, so their lemmas are stated for a parent function `par` that need not be
the `dep_prev` field yet, and split the invariant in parts that break separately:

* `ObqWF`: positions are right, a stream is in at most one queue, and `queued`
  tells whether it is in one;
* `Located par`: a queued stream is in the queue of its parent;
* `NoLost par`: a stream with a parent that leads to something to send is queued;
* `NoIdle`: a queued stream leads to something to send.

`Scheduled` is the conjunction.  Its consequence for whole subtrees is
`Scheduled.queued_iff`, and for the scheduler's choice
`Scheduled.nextOutboundLoop_eq_some`.
-/
import Nghttp2.ParentForest
import Nghttp2.StreamTree

namespace Nghttp2

open ParentForest
open Function (update_of_ne update_self)

/-! ## Queue contents -/

/-- Positions are right and no stream is in two queues. -/
structure ObqIndexed (s : Sched) : Prop where
  indexed : ∀ p, Pq.Indexed ⟨s.obq p, s.pqIndex⟩
  unique : ∀ {p p' x}, x ∈ s.obq p → x ∈ s.obq p' → p = p'

/-- The queues are well formed and `queued` tells who is in one. -/
structure ObqWF (s : Sched) : Prop extends ObqIndexed s where
  queued_iff : ∀ x, s.queued x = true ↔ ∃ p, x ∈ s.obq p

variable {s s' : Sched} {d p x y : Ptr}

/-- Pushing a stream. -/
theorem ObqIndexed.pqPush (h : ObqIndexed s) (hx : ∀ p, x ∉ s.obq p) :
    ObqIndexed (s.pqPush d x) ∧
      ∀ p y, y ∈ (s.pqPush d x).obq p ↔ y ∈ s.obq p ∨ (p = d ∧ y = x) := by
  have hperm := Pq.push_perm (streamWeightLess s) ⟨s.obq d, s.pqIndex⟩ x
  have hmem : ∀ p y, y ∈ (s.pqPush d x).obq p ↔ y ∈ s.obq p ∨ (p = d ∧ y = x) := by
    intro p y
    rcases eq_or_ne p d with rfl | hpd
    · simp only [Sched.pqPush, update_self, hperm.mem_iff, List.mem_cons, true_and]
      exact or_comm
    · simp [Sched.pqPush, hpd]
  refine ⟨⟨fun p => ?_, fun {p p' y} hp hp' => ?_⟩, hmem⟩
  · rcases eq_or_ne p d with rfl | hpd
    · simpa [Sched.pqPush] using
        Pq.push_indexed (streamWeightLess s) (h.indexed p) (hx p)
    · intro i a hi
      simp only [Sched.pqPush, update_of_ne hpd] at hi ⊢
      have hap : a ∈ s.obq p := List.mem_of_getElem? hi
      have had : a ∉ s.obq d := fun had => hpd (h.unique hap had)
      have hax : a ≠ x := ne_of_mem_of_not_mem hap (hx p)
      rw [Pq.push_frame _ _ had hax]
      exact h.indexed p i a hi
  · rw [hmem] at hp hp'
    rcases hp with hp | ⟨hpd, hyx⟩ <;> rcases hp' with hp' | ⟨hpd', hyx'⟩
    · exact h.unique hp hp'
    · exact absurd (hyx' ▸ hp) (hx p)
    · exact absurd (hyx ▸ hp') (hx p')
    · exact hpd.trans hpd'.symm

/-- Removing a stream. -/
theorem ObqIndexed.pqRemove (h : ObqIndexed s) (hx : x ∈ s.obq d) :
    ObqIndexed (s.pqRemove d x) ∧
      ∀ p y, y ∈ (s.pqRemove d x).obq p ↔ y ∈ s.obq p ∧ y ≠ x := by
  have hperm := Pq.remove_perm (streamWeightLess s) (h.indexed d) hx
  have hmem : ∀ p y, y ∈ (s.pqRemove d x).obq p ↔ y ∈ s.obq p ∧ y ≠ x := by
    intro p y
    rcases eq_or_ne p d with rfl | hpd
    · simp only [Sched.pqRemove, update_self, hperm.mem_iff,
        (h.indexed p).nodup.mem_erase_iff]
      exact and_comm
    · simp only [Sched.pqRemove, update_of_ne hpd]
      refine ⟨fun hy => ⟨hy, ?_⟩, And.left⟩
      rintro rfl
      exact hpd (h.unique hy hx)
  refine ⟨⟨fun p => ?_, fun {p p' y} hp hp' => ?_⟩, hmem⟩
  · rcases eq_or_ne p d with rfl | hpd
    · simpa [Sched.pqRemove] using Pq.remove_indexed (streamWeightLess s) (h.indexed p) hx
    · intro i a hi
      simp only [Sched.pqRemove, update_of_ne hpd] at hi ⊢
      have hap : a ∈ s.obq p := List.mem_of_getElem? hi
      have had : a ∉ s.obq d := fun had => hpd (h.unique hap had)
      rw [Pq.remove_frame _ (h.indexed d) hx had]
      exact h.indexed p i a hi
  · exact h.unique ((hmem p y).1 hp).1 ((hmem p' y).1 hp').1

/-- `s'` is `s` with `x` entered into the queue of `d`. -/
structure Enqueued (s s' : Sched) (d x : Ptr) : Prop where
  wf : ObqWF s'
  mem : ∀ p y, y ∈ s'.obq p ↔ y ∈ s.obq p ∨ (p = d ∧ y = x)
  queued : s'.queued = Function.update s.queued x true
  item : s'.item = s.item
  deferred : s'.deferred = s.deferred

/-- `s'` is `s` with `x` taken out of its queue. -/
structure Dequeued (s s' : Sched) (x : Ptr) : Prop where
  wf : ObqWF s'
  mem : ∀ p y, y ∈ s'.obq p ↔ y ∈ s.obq p ∧ y ≠ x
  queued : s'.queued = Function.update s.queued x false
  item : s'.item = s.item
  deferred : s'.deferred = s.deferred

/-- A stream enters a queue. -/
theorem ObqWF.enqueue (h : ObqWF s) (hx : s.queued x = false) (d : Ptr) (c : ℕ) :
    Enqueued s (((s.setCycle x c).pqPush d x).setQueued x true) d x := by
  have hx' : ∀ p, x ∉ (s.setCycle x c).obq p := by
    intro p hp
    have := (h.queued_iff x).2 ⟨p, hp⟩
    simp [hx] at this
  have h0 : ObqIndexed (s.setCycle x c) := ⟨h.indexed, h.unique⟩
  obtain ⟨hidx, hmem⟩ := h0.pqPush (d := d) hx'
  refine ⟨⟨⟨hidx.indexed, hidx.unique⟩, fun y => ?_⟩, hmem, rfl, rfl, rfl⟩
  simp only [Sched.setQueued, hmem]
  rcases eq_or_ne y x with rfl | hyx
  · simp [Sched.pqPush]
  · simp only [update_of_ne hyx, hyx, and_false, or_false]
    exact h.queued_iff y

/-- A stream leaves its queue. -/
theorem ObqWF.dequeue (h : ObqWF s) (hx : x ∈ s.obq d) :
    Dequeued s ((s.pqRemove d x).setQueued x false) x := by
  obtain ⟨hidx, hmem⟩ := h.toObqIndexed.pqRemove hx
  refine ⟨⟨⟨hidx.indexed, hidx.unique⟩, fun y => ?_⟩, hmem, rfl, rfl, rfl⟩
  simp only [Sched.setQueued, hmem]
  rcases eq_or_ne y x with rfl | hyx
  · simp
  · simp only [update_of_ne hyx, hyx, ne_eq, not_false_eq_true, and_true]
    exact h.queued_iff y

/-- Cycles play no part in what the queues contain. -/
theorem Dequeued.setCycles (h : Dequeued s s' x) (c c' : ℕ) :
    Dequeued s ((s'.setCycle x c).setDescendantLastCycle x c') x :=
  ⟨⟨⟨h.wf.indexed, h.wf.unique⟩, h.wf.queued_iff⟩, h.mem, h.queued, h.item, h.deferred⟩

/-! ## The parts of the invariant -/

/-- A queued stream is in the queue of its parent. -/
def Located (par : Ptr → Option Ptr) (s : Sched) : Prop := ∀ ⦃p y⦄, y ∈ s.obq p → par y = some p

/-- If `y` has a parent and leads to something to send, it is queued. -/
def NoLost (par : Ptr → Option Ptr) (s : Sched) (y : Ptr) : Prop :=
  par y ≠ none → streamSubtreeActive s y = true → s.queued y = true

/-- If `y` is queued, it leads to something to send. -/
def NoIdle (s : Sched) (y : Ptr) : Prop := s.queued y = true → streamSubtreeActive s y = true

/-- **The scheduling invariant** of a forest with parent function `par`. -/
structure Scheduled (par : Ptr → Option Ptr) (s : Sched) : Prop where
  wf : ObqWF s
  located : Located par s
  noLost : ∀ y, NoLost par s y
  noIdle : ∀ y, NoIdle s y

variable {par : Ptr → Option Ptr}

/-- A queued stream is in the queue of its parent. -/
theorem ObqWF.mem_obq_of_queued (h : ObqWF s) (hloc : Located par s) (hq : s.queued x = true)
    (hx : par x = some d) : x ∈ s.obq d := by
  obtain ⟨p, hp⟩ := (h.queued_iff x).1 hq
  have := hloc hp
  rw [hx, Option.some.injEq] at this
  exact this ▸ hp

/-- The root is not queued. -/
theorem ObqWF.not_queued_of_root (h : ObqWF s) (hloc : Located par s) (hx : par x = none) :
    s.queued x = false := by
  by_contra hq
  obtain ⟨p, hp⟩ := (h.queued_iff x).1 (by simpa using hq)
  simp [hloc hp] at hx

/-- What makes a subtree active. -/
theorem streamSubtreeActive_iff :
    streamSubtreeActive s x = true ↔ streamActive s x = true ∨ ∃ y, y ∈ s.obq x := by
  cases h : s.obq x <;> simp [streamSubtreeActive, h]

/-- A child is queued. -/
theorem streamSubtreeActive_of_mem (h : y ∈ s.obq x) : streamSubtreeActive s x = true :=
  streamSubtreeActive_iff.2 (Or.inr ⟨y, h⟩)

/-- It depends on the item and the flags only. -/
theorem streamActive_congr (hi : s'.item = s.item) (hd : s'.deferred = s.deferred) :
    streamActive s' x = streamActive s x := by
  simp [streamActive, hi, hd]

/-- Queues that only grow keep subtrees active. -/
theorem streamSubtreeActive_mono (hi : s'.item = s.item) (hd : s'.deferred = s.deferred)
    (hmem : ∀ y, y ∈ s.obq x → y ∈ s'.obq x) (h : streamSubtreeActive s x = true) :
    streamSubtreeActive s' x = true := by
  rw [streamSubtreeActive_iff] at h ⊢
  rw [streamActive_congr hi hd]
  exact h.imp_right fun ⟨y, hy⟩ => ⟨y, hmem y hy⟩

/-! ## Pushing along the ancestors -/

/-- The outcome of a push, whichever streams it entered: queues only grew, every
new entry is in the queue of its parent and leads to something to send. -/
structure Pushed (par : Ptr → Option Ptr) (s s' : Sched) : Prop where
  wf : ObqWF s'
  located : Located par s'
  noIdle : ∀ y, NoIdle s y → NoIdle s' y
  mono : ∀ {p y}, y ∈ s.obq p → y ∈ s'.obq p
  item : s'.item = s.item
  deferred : s'.deferred = s.deferred

/-- Nothing is pushed. -/
theorem Pushed.refl (hwf : ObqWF s) (hloc : Located par s) : Pushed par s s :=
  ⟨hwf, hloc, fun _ h => h, id, rfl, rfl⟩

variable {dep : DepLinks} {s1 s2 s3 : Sched} {N n : ℕ}

/-- Pushes, one after the other. -/
theorem Pushed.trans (h1 : Pushed par s1 s2) (h2 : Pushed par s2 s3) :
    Pushed par s1 s3 where
  wf := h2.wf
  located := h2.located
  noIdle y hy := h2.noIdle y (h1.noIdle y hy)
  mono hy := h2.mono (h1.mono hy)
  item := h2.item.trans h1.item
  deferred := h2.deferred.trans h1.deferred

/-- Queued streams stay so. -/
theorem Pushed.queued (h : Pushed par s s') (hwf : ObqWF s) (hq : s.queued x = true) :
    s'.queued x = true := by
  obtain ⟨p, hp⟩ := (hwf.queued_iff x).1 hq
  exact (h.wf.queued_iff x).2 ⟨p, h.mono hp⟩

/-- One push to the queue of the parent. -/
theorem Enqueued.pushed (h : Enqueued s s' d x) (hloc : Located par s) (hx : par x = some d)
    (hact : streamSubtreeActive s x = true) : Pushed par s s' where
  wf := h.wf
  located p y hy := by
    rcases (h.mem p y).1 hy with hy | ⟨rfl, rfl⟩
    · exact hloc hy
    · exact hx
  noIdle y hy hq := by
    have hmono : ∀ z, z ∈ s.obq y → z ∈ s'.obq y := fun z hz => (h.mem y z).2 (Or.inl hz)
    refine streamSubtreeActive_mono h.item h.deferred hmono ?_
    rcases eq_or_ne y x with rfl | hyx
    · exact hact
    · rw [h.queued, update_of_ne hyx] at hq
      exact hy hq
  mono {p y} hy := (h.mem p y).2 (Or.inl hy)
  item := h.item
  deferred := h.deferred

/-- Entering `x` into the queue of `d` can only leave `d` itself unentered. -/
theorem Enqueued.noLost (h : Enqueued s s' d x) (hlost : ∀ y, y ≠ x → y ≠ d → NoLost par s y)
    (hy : y ≠ d) : NoLost par s' y := by
  intro hpar hact
  rw [h.queued]
  rcases eq_or_ne y x with rfl | hyx
  · exact update_self ..
  · rw [update_of_ne hyx]
    refine hlost y hyx hy hpar (streamSubtreeActive_mono h.item.symm h.deferred.symm ?_ hact)
    intro z hz
    rcases (h.mem y z).1 hz with hz | ⟨rfl, -⟩
    · exact hz
    · exact absurd rfl hy

/-- Above the root nothing is pushed. -/
@[simp] theorem streamObqPush_none (dep : DepLinks) (n : ℕ) (s : Sched) (x : Ptr) :
    streamObqPush dep n s none x = s := by cases n <;> rfl

/-- **`stream_obq_push`**: if only `x`, or `x` and its parent, are missing from the
queues before, no stream is missing afterwards. -/
theorem streamObqPush_spec (hwf : ObqWF s) (hloc : Located par s)
    (hup : BoundedPaths (fun c p => par c = some p) n d)
    (hagree : ∀ a, Above par a d → dep.depPrev a = par a) (hx : par x = some d)
    (hact : streamSubtreeActive s x = true) (hlost : ∀ y, y ≠ x → y ≠ d → NoLost par s y)
    (hlost' : s.queued x = true → NoLost par s d) :
    Pushed par s (streamObqPush dep (n + 1) s (some d) x) ∧
      (∀ y, NoLost par (streamObqPush dep (n + 1) s (some d) x) y) ∧
        (streamObqPush dep (n + 1) s (some d) x).queued x = true := by
  induction n using Nat.strong_induction_on generalizing s d x with
  | _ n ih =>
    rw [streamObqPush]
    by_cases hq : s.queued x = true
    · rw [if_pos hq]
      refine ⟨Pushed.refl hwf hloc, fun y => ?_, hq⟩
      rcases eq_or_ne y x with rfl | hyx
      · exact fun _ _ => hq
      · rcases eq_or_ne y d with rfl | hyd
        · exact hlost' hq
        · exact hlost y hyx hyd
    rw [if_neg hq]
    have henq := hwf.enqueue (by simpa using hq) d
      (streamNextCycle dep s x (s.descendantLastCycle d))
    have hpush := henq.pushed hloc hx hact
    have hqx := congrFun henq.queued x
    rw [update_self] at hqx
    dsimp only
    rw [hagree d (Above.refl d)]
    cases hd : par d with
    | none =>
      rw [streamObqPush_none]
      refine ⟨hpush, fun y => ?_, hqx⟩
      rcases eq_or_ne y d with rfl | hyd
      · exact fun hpar => absurd hd hpar
      · exact henq.noLost hlost hyd
    | some e =>
      -- `d` has a parent, so the bound on the chain leaves a turn for it
      cases n with
      | zero => exact absurd hd (hup e)
      | succ n =>
        have hmem := (henq.mem d x).2 (Or.inr ⟨rfl, rfl⟩)
        have hall : ∀ y, y ≠ d → NoLost par _ y := fun y hy => henq.noLost hlost hy
        obtain ⟨hpush', hlost', -⟩ := ih n n.lt_succ_self hpush.wf hpush.located (hup e hd)
          (fun a ha => hagree a (ha.tail hd)) hd (streamSubtreeActive_of_mem hmem)
          (fun y hy _ => hall y hy) (fun hqd => by
            rcases eq_or_ne e d with rfl | hed
            · exact fun _ _ => hqd
            · exact hall e hed)
        exact ⟨hpush.trans hpush', hlost', hpush'.queued hpush.wf hqx⟩

/-! ## Removing along the ancestors -/

/-- The outcome of a removal starting at `x`: queues only shrank, and no other
stream lost an entry it needs or kept one it does not need. -/
structure Removed (par : Ptr → Option Ptr) (s s' : Sched) (x : Ptr) : Prop where
  wf : ObqWF s'
  anti : ∀ {p y}, y ∈ s'.obq p → y ∈ s.obq p
  noLost : ∀ y, y ≠ x → NoLost par s y → NoLost par s' y
  noIdle : ∀ y, NoIdle s' y
  not_queued : s'.queued x = false
  item : s'.item = s.item
  deferred : s'.deferred = s.deferred

/-- Streams stay with their parents. -/
theorem Removed.located (h : Removed par s s' x) (hloc : Located par s) : Located par s' :=
  fun _ _ hy => hloc (h.anti hy)

/-- No subtree becomes active. -/
theorem Removed.subtreeActive (h : Removed par s s' x) (hact : streamSubtreeActive s' y = true) :
    streamSubtreeActive s y = true :=
  streamSubtreeActive_mono h.item.symm h.deferred.symm (fun _ hz => h.anti hz) hact

/-- No other stream is lost. -/
theorem Dequeued.noLost (h : Dequeued s s' x) (hy : y ≠ x) (hlost : NoLost par s y) :
    NoLost par s' y := by
  intro hpar hact
  rw [h.queued, update_of_ne hy]
  refine hlost hpar (streamSubtreeActive_mono h.item.symm h.deferred.symm ?_ hact)
  exact fun z hz => ((h.mem y z).1 hz).1

/-- Only the parent may become idle. -/
theorem Dequeued.noIdle (h : Dequeued s s' x) (hx : x ∈ s.obq d) (hwf : ObqWF s) (hy : y ≠ d)
    (hidle : y ≠ x → NoIdle s y) : NoIdle s' y := by
  intro hq
  rw [h.queued] at hq
  rcases eq_or_ne y x with rfl | hyx
  · simp at hq
  · rw [update_of_ne hyx] at hq
    refine streamSubtreeActive_mono h.item h.deferred (fun z hz => ?_) (hidle hyx hq)
    refine (h.mem y z).2 ⟨hz, ?_⟩
    rintro rfl
    exact hy (hwf.unique hz hx)

/-- Above the root nothing is removed. -/
@[simp] theorem obqRemoveLoop_none (dep : DepLinks) (n : ℕ) (s : Sched) (x : Ptr) :
    obqRemoveLoop dep n s none x = s := by cases n <;> rfl

/-- **`stream_obq_remove`**, on a queued stream `x` with parent `d`. -/
theorem obqRemoveLoop_spec (hground : Grounded par) (hwf : ObqWF s) (hloc : Located par s)
    (hup : BoundedPaths (fun c p => par c = some p) n d)
    (hagree : ∀ a, Above par a d → dep.depPrev a = par a) (hx : par x = some d)
    (hq : s.queued x = true) (hchain : ∀ a, Above par a d → NoLost par s a)
    (hidle : ∀ y, y ≠ x → NoIdle s y) :
    Removed par s (obqRemoveLoop dep (n + 1) s (some d) x) x := by
  induction n using Nat.strong_induction_on generalizing s d x with
  | _ n ih =>
    have hmem : x ∈ s.obq d := hwf.mem_obq_of_queued hloc hq hx
    have hxd : x ≠ d := hground.ne_parent hx
    rw [obqRemoveLoop]
    have hdeq := (hwf.dequeue hmem).setCycles 0 0
    have hidle' : ∀ y, y ≠ d → NoIdle _ y := fun y hyd => hdeq.noIdle hmem hwf hyd (hidle y)
    have hqx := congrFun hdeq.queued x
    rw [update_self] at hqx
    split
    next hact =>
      refine ⟨hdeq.wf, fun {p y} hy => ((hdeq.mem p y).1 hy).1, fun y => hdeq.noLost,
        fun y => ?_, hqx, hdeq.item, hdeq.deferred⟩
      rcases eq_or_ne y d with rfl | hyd
      · exact fun _ => hact
      · exact hidle' y hyd
    next hact =>
      have hloc' : Located par _ := fun p y hy => hloc ((hdeq.mem p y).1 hy).1
      rw [hagree d (Above.refl d)]
      cases hd : par d with
      | none =>
        rw [obqRemoveLoop_none]
        refine ⟨hdeq.wf, fun {p y} hy => ((hdeq.mem p y).1 hy).1, fun y => hdeq.noLost,
          fun y => ?_, hqx, hdeq.item, hdeq.deferred⟩
        rcases eq_or_ne y d with rfl | hyd
        · intro hqy
          rw [hdeq.wf.not_queued_of_root hloc' hd] at hqy
          simp at hqy
        · exact hidle' y hyd
      | some e =>
        cases n with
        | zero => exact absurd hd (hup e)
        | succ n =>
          have hqd : s.queued d = true :=
            hchain d (Above.refl d) (by simp [hd]) (streamSubtreeActive_of_mem hmem)
          have hqd' := congrFun hdeq.queued d
          rw [update_of_ne hxd.symm, hqd] at hqd'
          have hne : ∀ a, Above par a e → a ≠ x := by
            rintro a ha rfl
            exact hground.not_above_parent hx (ha.tail hd)
          have hrec := ih n n.lt_succ_self hdeq.wf hloc' (hup e hd)
            (fun a ha => hagree a (ha.tail hd)) hd hqd'
            (fun a ha => hdeq.noLost (hne a ha) (hchain a (ha.tail hd)))
            hidle'
          refine ⟨hrec.wf, fun {p y} hy => ((hdeq.mem p y).1 (hrec.anti hy)).1, ?_, hrec.noIdle,
            ?_, hrec.item.trans hdeq.item, hrec.deferred.trans hdeq.deferred⟩
          · intro y hyx hlost
            rcases eq_or_ne y d with rfl | hyd
            · -- `d` is out of its queue, and rightly so
              exact fun _ hact' => absurd (hrec.subtreeActive hact') hact
            · exact hrec.noLost y hyd (hdeq.noLost hyx hlost)
          · by_contra hqx'
            obtain ⟨p, hp⟩ := (hrec.wf.queued_iff x).1 (by simpa using hqx')
            have := (hdeq.wf.queued_iff x).2 ⟨p, hrec.anti hp⟩
            rw [hqx] at this
            simp at this

/-- `stream_obq_remove`, on any stream. -/
theorem streamObqRemove_spec (hground : Grounded par) (hwf : ObqWF s) (hloc : Located par s)
    (hup : ∀ d, BoundedPaths (fun c p => par c = some p) n d)
    (hagree : ∀ a, Above par a x → dep.depPrev a = par a)
    (hchain : ∀ a, a ≠ x → Above par a x → NoLost par s a) (hidle : ∀ y, y ≠ x → NoIdle s y) :
    Removed par s (streamObqRemove dep (n + 1) s x) x := by
  unfold streamObqRemove
  split
  next hq =>
    obtain ⟨d, hd⟩ := (hwf.queued_iff x).1 hq
    have hx := hloc hd
    rw [hagree x (Above.refl x), hx]
    refine obqRemoveLoop_spec hground hwf hloc (hup d) (fun a ha => hagree a (ha.tail hx)) hx hq
      (fun a ha => hchain a ?_ (ha.tail hx)) hidle
    rintro rfl
    exact hground.not_above_parent hx ha
  next hq =>
    have hq : s.queued x = false := by simpa using hq
    refine ⟨hwf, id, fun _ _ h => h, fun y => ?_, hq, rfl, rfl⟩
    rcases eq_or_ne y x with rfl | hyx
    · exact fun hq' => absurd hq' (by simp [hq])
    · exact hidle y hyx

/-! ## Moving between queues -/

/-- **`stream_obq_move`** of `x` from the queue of `src` to that of `dest`, its
parent from now on.  The entry of `src` in its own queue may become idle. -/
theorem streamObqMove_spec {dest src : Ptr} (hwf : ObqWF s)
    (hloc : ∀ {p y}, y ≠ x → y ∈ s.obq p → par y = some p)
    (hsrc : s.queued x = true → x ∈ s.obq src) (hxsrc : x ≠ src)
    (hup : BoundedPaths (fun c p => par c = some p) n dest)
    (hagree : ∀ a, Above par a dest → dep.depPrev a = par a) (hx : par x = some dest)
    (hlost : ∀ y, y ≠ dest → NoLost par s y) (hidle : ∀ y, y ≠ src → NoIdle s y) (s' : Sched)
    (hs' : s' = streamObqMove dep (n + 1) s dest src x) :
    ObqWF s' ∧ Located par s' ∧ (∀ y, y ≠ dest → NoLost par s' y) ∧
      (∀ y, y ≠ src → NoIdle s' y) ∧ (s'.item = s.item ∧ s'.deferred = s.deferred) ∧
        (s' = s ∨ (NoLost par s' dest ∧ x ∈ s'.obq dest)) := by
  unfold streamObqMove at hs'
  split at hs'
  next hq =>
    have hmem := hsrc hq
    have hdeq := hwf.dequeue hmem
    have hqx := congrFun hdeq.queued x
    rw [update_self] at hqx
    have hact : streamSubtreeActive ((s.pqRemove src x).setQueued x false) x = true := by
      refine streamSubtreeActive_mono hdeq.item hdeq.deferred (fun z hz => ?_) (hidle x hxsrc hq)
      refine (hdeq.mem x z).2 ⟨hz, ?_⟩
      rintro rfl
      exact hxsrc (hwf.unique hz hmem)
    have hloc' : Located par ((s.pqRemove src x).setQueued x false) := fun p y hy =>
      hloc ((hdeq.mem p y).1 hy).2 ((hdeq.mem p y).1 hy).1
    obtain ⟨hpush, hlost', hq'⟩ := streamObqPush_spec hdeq.wf hloc' hup hagree hx hact
      (fun y hyx hyd => hdeq.noLost hyx (hlost y hyd)) (fun hq' => by simp [hqx] at hq')
    rw [← hs'] at hpush hlost' hq'
    refine ⟨hpush.wf, hpush.located, fun y _ => hlost' y, fun y hy => ?_,
      ⟨hpush.item.trans hdeq.item, hpush.deferred.trans hdeq.deferred⟩,
      Or.inr ⟨hlost' dest, hpush.wf.mem_obq_of_queued hpush.located hq' hx⟩⟩
    exact hpush.noIdle y (hdeq.noIdle hmem hwf hy fun _ => hidle y hy)
  next hq =>
    subst hs'
    refine ⟨hwf, fun p y hy => hloc ?_ hy, hlost, hidle, ⟨rfl, rfl⟩, Or.inl rfl⟩
    rintro rfl
    exact hq ((hwf.queued_iff y).2 ⟨p, hy⟩)

/-! ## What the invariant means for subtrees -/

/-- A queued child makes the subtree active. -/
theorem Scheduled.subtreeActive_of_queued_child (h : Scheduled par s) (hq : s.queued y = true)
    (hy : par y = some x) : streamSubtreeActive s x = true :=
  streamSubtreeActive_of_mem (h.wf.mem_obq_of_queued h.located hq hy)

/-- A stream leads to something to send iff it or one of its descendants is active. -/
theorem Scheduled.subtreeActive_iff (h : Scheduled par s) (hdown : BoundedPaths (Child par) n x) :
    streamSubtreeActive s x = true ↔ ∃ y, Above par x y ∧ streamActive s y = true := by
  constructor
  · -- downwards, along entries of the queues
    intro hact
    induction n generalizing x with
    | zero =>
      rcases streamSubtreeActive_iff.1 hact with hact | ⟨z, hz⟩
      · exact ⟨x, Above.refl x, hact⟩
      · exact absurd (h.located hz) (hdown z)
    | succ n ih =>
      rcases streamSubtreeActive_iff.1 hact with hact | ⟨z, hz⟩
      · exact ⟨x, Above.refl x, hact⟩
      · have hzx := h.located hz
        have hqz := (h.wf.queued_iff z).2 ⟨x, hz⟩
        obtain ⟨y, hy, hact⟩ := ih (hdown z hzx) (h.noIdle z hqz)
        exact ⟨y, above_iff_head.2 (Or.inr ⟨z, hzx, hy⟩), hact⟩
  -- upwards, from an active descendant
  rintro ⟨y, hxy, hact⟩
  have hy : streamSubtreeActive s y = true := streamSubtreeActive_iff.2 (Or.inl hact)
  clear hact
  induction hxy with
  | refl => exact hy
  | tail _ hbc ih =>
    refine ih (h.subtreeActive_of_queued_child (h.noLost _ ?_ hy) hbc)
    simp [show par _ = some _ from hbc]

/-- **A stream is queued iff it or one of its descendants is active**, provided it
has a parent. -/
theorem Scheduled.queued_iff (h : Scheduled par s) (hdown : BoundedPaths (Child par) n x) :
    s.queued x = true ↔ par x ≠ none ∧ ∃ y, Above par x y ∧ streamActive s y = true := by
  rw [← h.subtreeActive_iff hdown]
  constructor
  · intro hq
    refine ⟨?_, h.noIdle x hq⟩
    obtain ⟨p, hp⟩ := (h.wf.queued_iff x).1 hq
    simp [h.located hp]
  · exact fun ⟨hpar, hact⟩ => h.noLost x hpar hact

/-- An inactive subtree has nothing to send. -/
theorem nextOutboundLoop_eq_none (n : ℕ) (hact : streamSubtreeActive s x = false) :
    nextOutboundLoop s n x = none := by
  cases n with
  | zero => rfl
  | succ n =>
    simp only [streamSubtreeActive, Bool.or_eq_false_iff, Bool.not_eq_eq_eq_not, Bool.not_false,
      List.isEmpty_iff] at hact
    simp [nextOutboundLoop, hact.1, hact.2]

/-- `nghttp2_stream_next_outbound_item` finds an active descendant if there is one. -/
theorem Scheduled.nextOutboundLoop_eq_some (h : Scheduled par s)
    (hdown : BoundedPaths (Child par) n x) (hact : streamSubtreeActive s x = true) :
    ∃ y i, Above par x y ∧ streamActive s y = true ∧ s.item y = some i ∧
      nextOutboundLoop s (n + 1) x = some i := by
  induction n using Nat.strong_induction_on generalizing x with
  | _ n ih =>
    rw [nextOutboundLoop]
    by_cases hx : streamActive s x = true
    · rw [if_pos hx]
      have hitem : (s.item x).isSome := by
        simp only [streamActive, Bool.and_eq_true] at hx
        exact hx.1
      obtain ⟨i, hi⟩ := Option.isSome_iff_exists.1 hitem
      exact ⟨x, i, Above.refl x, hx, hi, hi⟩
    rw [if_neg hx]
    cases hobq : s.obq x with
    | nil => simp [streamSubtreeActive, hx, hobq] at hact
    | cons z l =>
      have hz : z ∈ s.obq x := by simp [hobq]
      have hzx := h.located hz
      cases n with
      | zero => exact absurd hzx (hdown z)
      | succ n =>
        have hqz := (h.wf.queued_iff z).2 ⟨x, hz⟩
        obtain ⟨y, i, hzy, hrest⟩ := ih n n.lt_succ_self (hdown z hzx) (h.noIdle z hqz)
        exact ⟨y, i, above_iff_head.2 (Or.inr ⟨z, hzx, hzy⟩), hrest⟩

/-! ## Items -/

/-- Parent chains end, and only allocated objects are linked. -/
structure Rooted (dep : DepLinks) (allocated : ℕ) : Prop where
  grounded : Grounded dep.depPrev
  lt_allocated : ∀ {c p}, dep.depPrev c = some p → c < allocated ∧ p < allocated

/-- Paths to the root are short. -/
theorem Rooted.up (h : Rooted dep N) (x : Ptr) :
    BoundedPaths (fun c p => dep.depPrev c = some p) N x := by
  have := h.grounded.boundedPaths_up (Finset.range N)
    (fun c p hc => Finset.mem_range.2 (h.lt_allocated hc).2) x
  rwa [Finset.card_range] at this

/-- Paths away from the root are short. -/
theorem Rooted.down (h : Rooted dep N) (x : Ptr) : BoundedPaths (Child dep.depPrev) N x := by
  have := h.grounded.boundedPaths_down (Finset.range N)
    (fun c p hc => Finset.mem_range.2 (h.lt_allocated hc).1) x
  rwa [Finset.card_range] at this

/-- `s'` is `s` with another item or other deferral flags at `x`. -/
structure ItemChanged (s s' : Sched) (x : Ptr) : Prop where
  obq : s'.obq = s.obq
  pqIndex : s'.pqIndex = s.pqIndex
  queued : s'.queued = s.queued
  active : ∀ y, y ≠ x → streamActive s' y = streamActive s y

/-- The item is set. -/
theorem itemChanged_setItem (s : Sched) (x : Ptr) (i : Option ItemPtr) :
    ItemChanged s (s.setItem x i) x :=
  ⟨rfl, rfl, rfl, fun y hy => by simp [streamActive, Sched.setItem, hy]⟩

/-- The flags are set. -/
theorem itemChanged_setDeferred (s : Sched) (x : Ptr) (f : DeferFlags) :
    ItemChanged s (s.setDeferred x f) x :=
  ⟨rfl, rfl, rfl, fun y hy => by simp [streamActive, Sched.setDeferred, hy]⟩

/-- Both of them. -/
theorem ItemChanged.trans (h1 : ItemChanged s1 s2 x)
    (h2 : ItemChanged s2 s3 x) : ItemChanged s1 s3 x :=
  ⟨h2.obq.trans h1.obq, h2.pqIndex.trans h1.pqIndex, h2.queued.trans h1.queued,
    fun y hy => (h2.active y hy).trans (h1.active y hy)⟩

section

variable (h : ItemChanged s s' x)
include h

/-- The queues are the same. -/
theorem ItemChanged.wf (hwf : ObqWF s) : ObqWF s' := by
  refine ⟨⟨?_, ?_⟩, ?_⟩
  · rw [h.obq, h.pqIndex]
    exact hwf.indexed
  · rw [h.obq]
    exact hwf.unique
  · rw [h.obq, h.queued]
    exact hwf.queued_iff

/-- Streams stay with their parents. -/
theorem ItemChanged.located (hloc : Located par s) : Located par s' := by
  intro p y hy
  rw [h.obq] at hy
  exact hloc hy

/-- Only one subtree may change. -/
theorem ItemChanged.subtreeActive (hy : y ≠ x) :
    streamSubtreeActive s' y = streamSubtreeActive s y := by
  simp [streamSubtreeActive, h.active y hy, h.obq]

/-- No other stream is lost. -/
theorem ItemChanged.noLost (hy : y ≠ x) (hlost : NoLost par s y) : NoLost par s' y := by
  intro hpar hact
  rw [h.subtreeActive hy] at hact
  rw [h.queued]
  exact hlost hpar hact

/-- No other stream becomes idle. -/
theorem ItemChanged.noIdle (hy : y ≠ x) (hidle : NoIdle s y) : NoIdle s' y := by
  intro hq
  rw [h.queued] at hq
  rw [h.subtreeActive hy]
  exact hidle hq

/-- A change that is not seen. -/
theorem ItemChanged.scheduled (hx : streamActive s' x = streamActive s x)
    (hs : Scheduled par s) : Scheduled par s' := by
  have hact : ∀ y, streamSubtreeActive s' y = streamSubtreeActive s y := by
    intro y
    rcases eq_or_ne y x with rfl | hyx
    · simp [streamSubtreeActive, hx, h.obq]
    · exact h.subtreeActive hyx
  refine ⟨h.wf hs.wf, h.located hs.located, fun y => ?_, fun y => ?_⟩
  · unfold NoLost
    rw [hact, h.queued]
    exact hs.noLost y
  · unfold NoIdle
    rw [hact, h.queued]
    exact hs.noIdle y

end

/-- The scheduling invariant of a tree state. -/
def StreamTree.Scheduled (t : StreamTree) : Prop := Nghttp2.Scheduled t.dep.depPrev t.sched

variable {t : StreamTree}

/-- Making `x` active and then entering it keeps the invariant. -/
theorem StreamTree.Scheduled.onAttach (h : t.Scheduled) (hroot : Rooted t.dep t.allocated)
    (hs : ItemChanged t.sched s' x) (hact : streamActive s' x = true) :
    (streamUpdateDepOnAttachItem { t with sched := s' } x).Scheduled := by
  have hact' : streamSubtreeActive s' x = true := streamSubtreeActive_iff.2 (Or.inl hact)
  have hwf := hs.wf h.wf
  have hloc := hs.located h.located
  have hidle : ∀ y, NoIdle s' y := by
    intro y
    rcases eq_or_ne y x with rfl | hyx
    · exact fun _ => hact'
    · exact hs.noIdle hyx (h.noIdle y)
  have hlost : ∀ y, y ≠ x → NoLost t.dep.depPrev s' y := fun y hy => hs.noLost hy (h.noLost y)
  unfold streamUpdateDepOnAttachItem StreamTree.Scheduled
  dsimp only
  cases hx : t.dep.depPrev x with
  | none =>
    rw [streamObqPush_none]
    refine ⟨hwf, hloc, fun y => ?_, hidle⟩
    rcases eq_or_ne y x with rfl | hyx
    · exact fun hpar => absurd hx hpar
    · exact hlost y hyx
  | some d =>
    have hdx : d ≠ x := (hroot.grounded.ne_parent hx).symm
    obtain ⟨hpush, hlost', -⟩ := streamObqPush_spec hwf hloc (hroot.up d) (fun _ _ => rfl) hx hact'
      (fun y hyx _ => hlost y hyx) (fun _ => hlost d hdx)
    exact ⟨hpush.wf, hpush.located, hlost', fun y => hpush.noIdle y (hidle y)⟩

/-- Making `x` inactive and then taking it out, if nothing below it is active,
keeps the invariant. -/
theorem StreamTree.Scheduled.onDetach (h : t.Scheduled) (hroot : Rooted t.dep t.allocated)
    (hs : ItemChanged t.sched s' x) (hact : streamActive s' x = false) :
    (streamUpdateDepOnDetachItem { t with sched := s' } x).Scheduled := by
  have hwf := hs.wf h.wf
  have hloc := hs.located h.located
  have hlost : ∀ y, NoLost t.dep.depPrev s' y := by
    intro y
    rcases eq_or_ne y x with rfl | hyx
    · intro hpar hact'
      rw [hs.queued]
      refine h.noLost y hpar ?_
      rw [streamSubtreeActive_iff, hact, hs.obq] at hact'
      exact streamSubtreeActive_iff.2 (Or.inr (by simpa using hact'))
    · exact hs.noLost hyx (h.noLost y)
  have hidle : ∀ y, y ≠ x → NoIdle s' y := fun y hy => hs.noIdle hy (h.noIdle y)
  unfold streamUpdateDepOnDetachItem
  split
  next hempty =>
    have hrem := streamObqRemove_spec hroot.grounded hwf hloc hroot.up (fun _ _ => rfl)
      (fun a _ _ => hlost a) hidle
    refine ⟨hrem.wf, hrem.located hloc, fun y => ?_, hrem.noIdle⟩
    rcases eq_or_ne y x with rfl | hyx
    · intro _ hact'
      have := hrem.subtreeActive hact'
      simp [streamSubtreeActive, hact, show (s'.obq y).isEmpty = true from hempty] at this
    · exact hrem.noLost y hyx (hlost y)
  next hempty =>
    refine ⟨hwf, hloc, hlost, fun y => ?_⟩
    rcases eq_or_ne y x with rfl | hyx
    · intro _
      simp only [List.isEmpty_iff] at hempty
      exact streamSubtreeActive_iff.2 (Or.inr (List.exists_mem_of_ne_nil _ hempty))
    · exact hidle y hyx

/-- **`nghttp2_stream_attach_item`** keeps the scheduling invariant. -/
theorem StreamTree.Scheduled.attachItem (h : t.Scheduled) (hroot : Rooted t.dep t.allocated)
    (hdef : (t.sched.deferred x).any = false) (i : ItemPtr) : (streamAttachItem t x i).Scheduled :=
  h.onAttach hroot (itemChanged_setItem t.sched x (some i))
    (by simp [streamActive, Sched.setItem, hdef])

/-- **`nghttp2_stream_detach_item`** keeps the scheduling invariant. -/
theorem StreamTree.Scheduled.detachItem (h : t.Scheduled)
    (hroot : Rooted t.dep t.allocated) (x : Ptr) : (streamDetachItem t x).Scheduled :=
  h.onDetach hroot ((itemChanged_setItem _ x none).trans (itemChanged_setDeferred _ x _))
    (by simp [streamActive, Sched.setItem, Sched.setDeferred])

/-- **`nghttp2_stream_defer_item`** keeps the scheduling invariant. -/
theorem StreamTree.Scheduled.deferItem (h : t.Scheduled)
    (hroot : Rooted t.dep t.allocated) (x : Ptr)
    {flags : DeferFlags} (hflags : flags.any = true) : (streamDeferItem t x flags).Scheduled := by
  refine h.onDetach hroot (itemChanged_setDeferred _ x _) ?_
  simp only [DeferFlags.any, Bool.or_eq_true] at hflags
  simp only [streamActive, Sched.setDeferred, update_self, DeferFlags.any, DeferFlags.union]
  rcases hflags with hf | hf <;> simp [hf]

/-- **`nghttp2_stream_resume_deferred_item`** keeps the scheduling invariant. -/
theorem StreamTree.Scheduled.resumeDeferredItem (h : t.Scheduled) (hroot : Rooted t.dep t.allocated)
    (hitem : (t.sched.item x).isSome) (flags : DeferFlags) :
    (streamResumeDeferredItem t x flags).Scheduled := by
  unfold streamResumeDeferredItem
  dsimp only
  split
  next hany =>
    -- still deferred for another reason, and deferred before
    refine (itemChanged_setDeferred t.sched x _).scheduled ?_ h
    have hbefore : (t.sched.deferred x).any = true := by
      simp only [Sched.setDeferred, update_self, DeferFlags.any, DeferFlags.diff,
        Bool.or_eq_true, Bool.and_eq_true] at hany ⊢
      exact hany.imp And.left And.left
    simp [streamActive, hany, hbefore]
  next hany =>
    refine h.onAttach hroot (itemChanged_setDeferred t.sched x _) ?_
    simp only [streamActive, hany]
    simpa [Sched.setDeferred] using hitem

/-! ## Rescheduling -/

/-- `s'` has the queues of `s` up to the order of their entries. -/
structure Reordered (s s' : Sched) : Prop where
  indexed : ObqIndexed s'
  mem : ∀ p y, y ∈ s'.obq p ↔ y ∈ s.obq p
  queued : s'.queued = s.queued
  item : s'.item = s.item
  deferred : s'.deferred = s.deferred

/-- Two changes of the order. -/
theorem Reordered.trans (h1 : Reordered s1 s2) (h2 : Reordered s2 s3) : Reordered s1 s3 :=
  ⟨h2.indexed, fun p y => (h2.mem p y).trans (h1.mem p y), h2.queued.trans h1.queued,
    h2.item.trans h1.item, h2.deferred.trans h1.deferred⟩

/-- The order does not matter. -/
theorem Reordered.scheduled (h : Reordered s s') (hs : Scheduled par s) : Scheduled par s' := by
  have hact : ∀ y, streamSubtreeActive s' y = true ↔ streamSubtreeActive s y = true := by
    intro y
    simp only [streamSubtreeActive_iff, streamActive_congr h.item h.deferred, h.mem]
  refine ⟨⟨h.indexed, fun y => ?_⟩, fun p y hy => hs.located ((h.mem p y).1 hy), fun y => ?_,
    fun y => ?_⟩
  · simp only [h.queued, h.mem]
    exact hs.wf.queued_iff y
  · unfold NoLost
    rw [hact, h.queued]
    exact hs.noLost y
  · unfold NoIdle
    rw [hact, h.queued]
    exact hs.noIdle y

/-- One turn of `nghttp2_stream_reschedule`. -/
theorem rescheduleStep_reordered (dep : DepLinks) (hwf : ObqIndexed s) (hx : x ∈ s.obq d) :
    Reordered s (rescheduleStep dep s d x) := by
  unfold rescheduleStep
  dsimp only
  split
  · exact ⟨⟨hwf.indexed, hwf.unique⟩, fun _ _ => Iff.rfl, rfl, rfl, rfl⟩
  set s0 := (s.setDescendantLastCycle d (max (s.descendantLastCycle d) (s.cycle x))).setCycle x
    (streamNextCycle dep _ x _)
  have h0 : ObqIndexed s0 := ⟨hwf.indexed, hwf.unique⟩
  have hx0 : x ∈ s0.obq d := hx
  obtain ⟨hidx, hmem⟩ := h0.pqRemove hx0
  obtain ⟨hidx', hmem'⟩ := hidx.pqPush (d := d) (x := x) (fun p hp => ((hmem p x).1 hp).2 rfl)
  refine ⟨⟨hidx'.indexed, hidx'.unique⟩, fun p y => ?_, rfl, rfl, rfl⟩
  refine (hmem' p y).trans ?_
  rw [hmem]
  constructor
  · rintro (⟨hy, -⟩ | ⟨rfl, rfl⟩)
    · exact hy
    · exact hx
  · intro hy
    rcases eq_or_ne y x with rfl | hyx
    · exact Or.inr ⟨hwf.unique hy hx, rfl⟩
    · exact Or.inl ⟨hy, hyx⟩

/-- A queued stream's ancestors are queued, so every turn finds its entry. -/
theorem rescheduleLoop_reordered (n : ℕ) (h : Scheduled dep.depPrev s) (hx : s.queued x = true) :
    Reordered s (rescheduleLoop dep n s (dep.depPrev x) x) := by
  induction n generalizing s x with
  | zero => exact ⟨h.wf.toObqIndexed, fun _ _ => Iff.rfl, rfl, rfl, rfl⟩
  | succ n ih =>
    obtain ⟨d, hd⟩ := (h.wf.queued_iff x).1 hx
    rw [h.located hd, rescheduleLoop]
    have hstep := rescheduleStep_reordered dep h.wf.toObqIndexed hd
    have hs := hstep.scheduled h
    by_cases hqd : s.queued d = true
    · exact hstep.trans (ih hs (by rw [hstep.queued, hqd]))
    · have hroot : dep.depPrev d = none := by
        by_contra hne
        exact hqd (h.noLost d hne (streamSubtreeActive_of_mem hd))
      rw [hroot]
      cases n <;> exact hstep

/-- **`nghttp2_stream_reschedule`** of a queued stream keeps the invariant. -/
theorem StreamTree.Scheduled.reschedule (h : t.Scheduled) (hx : t.sched.queued x = true) :
    (streamReschedule t x).Scheduled :=
  (rescheduleLoop_reordered t.turns h hx).scheduled h

/-! ## Items and links -/

/-- Detaching an item leaves the tree as it is. -/
theorem streamUpdateDepOnDetachItem_dep (t : StreamTree) (x : Ptr) :
    (streamUpdateDepOnDetachItem t x).dep = t.dep ∧
      (streamUpdateDepOnDetachItem t x).allocated = t.allocated := by
  unfold streamUpdateDepOnDetachItem
  split <;> exact ⟨rfl, rfl⟩

/-- Resuming an item leaves the tree as it is. -/
theorem streamResumeDeferredItem_dep (t : StreamTree) (x : Ptr) (flags : DeferFlags) :
    (streamResumeDeferredItem t x flags).dep = t.dep ∧
      (streamResumeDeferredItem t x flags).allocated = t.allocated := by
  unfold streamResumeDeferredItem
  dsimp only
  split <;> exact ⟨rfl, rfl⟩

end Nghttp2
