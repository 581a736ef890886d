/-
# The stream dependency tree and its scheduler

The memory of all `nghttp2_stream` objects of one session, one function per field
of the C structure, addressed by pointers.  The fields come in two groups, because
the code that changes one group only reads the other:

* `DepLinks`: `dep_prev`, `dep_next`, `sib_prev`, `sib_next`, `weight` and
  `sum_dep_weight`, written by the dependency operations;
* `Sched`: the pending `item`, its deferral flags, and the `obq` queues through
  which `nghttp2_stream_next_outbound_item` finds the next item to send.

The functions below follow `nghttp2_stream.c` statement by statement.  Loops over
pointers take the number of allocated objects as a bound on their turns; that the
bound is never reached is part of the results about them.
-/
import Nghttp2.LinkedChain
import Nghttp2.Pq

namespace Nghttp2

open LinkedChain

/-- The address of an `nghttp2_stream`. -/
abbrev Ptr := ℕ

/-- The address of an `nghttp2_outbound_item`. -/
abbrev ItemPtr := ℕ

/-- `session->root`, the stream object embedded in the session. -/
def root : Ptr := 0

/-- The dependency fields of all stream objects.  Weights and their sums are `int32_t` in the
source; they stay in that range while a stream has fewer than 2^23 children
(`DepTree.sumDepWeight_lt`). -/
structure DepLinks where
  depPrev : Ptr → Option Ptr
  depNext : Ptr → Option Ptr
  sibPrev : Ptr → Option Ptr
  sibNext : Ptr → Option Ptr
  weight : Ptr → ℤ
  sumDepWeight : Ptr → ℤ

/-- The bits `NGHTTP2_STREAM_FLAG_DEFERRED_FLOW_CONTROL` and
`NGHTTP2_STREAM_FLAG_DEFERRED_USER`; together `NGHTTP2_STREAM_FLAG_DEFERRED_ALL`. -/
structure DeferFlags where
  flowControl : Bool
  user : Bool
deriving DecidableEq, Repr

/-- `flags & NGHTTP2_STREAM_FLAG_DEFERRED_ALL` is nonzero. -/
def DeferFlags.any (f : DeferFlags) : Bool := f.flowControl || f.user

/-- `flags | g`. -/
def DeferFlags.union (f g : DeferFlags) : DeferFlags :=
  ⟨f.flowControl || g.flowControl, f.user || g.user⟩

/-- `flags & ~g`. -/
def DeferFlags.diff (f g : DeferFlags) : DeferFlags :=
  ⟨f.flowControl && !g.flowControl, f.user && !g.user⟩

/-- The scheduling fields of all stream objects. -/
structure Sched where
  item : Ptr → Option ItemPtr
  deferred : Ptr → DeferFlags
  queued : Ptr → Bool
  obq : Ptr → List Ptr
  pqIndex : Ptr → ℕ
  cycle : Ptr → ℕ
  descendantLastCycle : Ptr → ℕ
  lastWritelen : Ptr → ℕ

/-- The stream objects of a session; `allocated` addresses have been handed out. -/
structure StreamTree where
  dep : DepLinks
  sched : Sched
  allocated : ℕ

/-- The largest weight, `NGHTTP2_MAX_WEIGHT`. -/
def maxWeight : ℕ := 256

/-! ## Scheduling -/

/-- `stream_weight_less`. -/
def streamWeightLess (s : Sched) (a b : Ptr) : Bool := s.cycle a < s.cycle b

/-- `stream_active`. -/
def streamActive (s : Sched) (x : Ptr) : Bool := (s.item x).isSome && !(s.deferred x).any

/-- `stream_subtree_active`. -/
def streamSubtreeActive (s : Sched) (x : Ptr) : Bool := streamActive s x || !(s.obq x).isEmpty

/-- `stream_next_cycle`, in 64-bit unsigned arithmetic. -/
def streamNextCycle (dep : DepLinks) (s : Sched) (x : Ptr) (lastCycle : ℕ) : ℕ :=
  (lastCycle + s.lastWritelen x * maxWeight % 2 ^ 64 / (dep.weight x).toNat) % 2 ^ 64

/-- `nghttp2_pq_push(&d->obq, &x->pq_entry)`. -/
def Sched.pqPush (s : Sched) (d x : Ptr) : Sched :=
  let pq := Pq.push (streamWeightLess s) ⟨s.obq d, s.pqIndex⟩ x
  { s with obq := Function.update s.obq d pq.q, pqIndex := pq.index }

/-- `nghttp2_pq_remove(&d->obq, &x->pq_entry)`. -/
def Sched.pqRemove (s : Sched) (d x : Ptr) : Sched :=
  let pq := Pq.remove (streamWeightLess s) ⟨s.obq d, s.pqIndex⟩ x
  { s with obq := Function.update s.obq d pq.q, pqIndex := pq.index }

/-- `x->queued = b`. -/
def Sched.setQueued (s : Sched) (x : Ptr) (b : Bool) : Sched :=
  { s with queued := Function.update s.queued x b }

/-- `x->cycle = c`. -/
def Sched.setCycle (s : Sched) (x : Ptr) (c : ℕ) : Sched :=
  { s with cycle := Function.update s.cycle x c }

/-- `x->descendant_last_cycle = c`. -/
def Sched.setDescendantLastCycle (s : Sched) (x : Ptr) (c : ℕ) : Sched :=
  { s with descendantLastCycle := Function.update s.descendantLastCycle x c }

/-- `stream_obq_push`: enter `x` into the queue of `d`, then `d` into the queue of
its parent, and so on up to the first stream that is queued already. -/
def streamObqPush (dep : DepLinks) : ℕ → Sched → Option Ptr → Ptr → Sched
  | 0, s, _, _ => s
  | _, s, none, _ => s
  | n + 1, s, some d, x =>
    if s.queued x then s
    else
      let s := s.setCycle x (streamNextCycle dep s x (s.descendantLastCycle d))
      streamObqPush dep n ((s.pqPush d x).setQueued x true) (dep.depPrev d) d

/-- The loop of `stream_obq_remove`. -/
def obqRemoveLoop (dep : DepLinks) : ℕ → Sched → Option Ptr → Ptr → Sched
  | 0, s, _, _ => s
  | _, s, none, _ => s
  | n + 1, s, some d, x =>
    let s := (((s.pqRemove d x).setQueued x false).setCycle x 0).setDescendantLastCycle x 0
    if streamSubtreeActive s d then s
    else obqRemoveLoop dep n s (dep.depPrev d) d

/-- `stream_obq_remove`. -/
def streamObqRemove (dep : DepLinks) (turns : ℕ) (s : Sched) (x : Ptr) : Sched :=
  if s.queued x then obqRemoveLoop dep turns s (dep.depPrev x) x else s

/-- `stream_obq_move`. -/
def streamObqMove (dep : DepLinks) (turns : ℕ) (s : Sched) (dest src x : Ptr) : Sched :=
  if s.queued x then
    streamObqPush dep turns ((s.pqRemove src x).setQueued x false) (some dest) x
  else s

/-- The body of the loop of `nghttp2_stream_reschedule`. -/
def rescheduleStep (dep : DepLinks) (s : Sched) (d x : Ptr) : Sched :=
  let s :=
    if (s.obq d).length = 1 then
      (s.setDescendantLastCycle d 0).setCycle x 0
    else
      let s := s.setDescendantLastCycle d (max (s.descendantLastCycle d) (s.cycle x))
      let s := s.setCycle x (streamNextCycle dep s x (s.descendantLastCycle d))
      (s.pqRemove d x).pqPush d x
  { s with lastWritelen := Function.update s.lastWritelen d (s.lastWritelen x) }

/-- The loop of `nghttp2_stream_reschedule`. -/
def rescheduleLoop (dep : DepLinks) : ℕ → Sched → Option Ptr → Ptr → Sched
  | 0, s, _, _ => s
  | _, s, none, _ => s
  | n + 1, s, some d, x => rescheduleLoop dep n (rescheduleStep dep s d x) (dep.depPrev d) d

/-- The bound on the turns of loops over stream pointers. -/
def StreamTree.turns (t : StreamTree) : ℕ := t.allocated + 1

theorem StreamTree.allocated_le_turns (t : StreamTree) : t.allocated ≤ t.turns := Nat.le_succ _

/-- `nghttp2_stream_reschedule`. -/
def streamReschedule (t : StreamTree) (x : Ptr) : StreamTree :=
  { t with sched := rescheduleLoop t.dep t.turns t.sched (t.dep.depPrev x) x }

/-- `stream_update_dep_on_attach_item`. -/
def streamUpdateDepOnAttachItem (t : StreamTree) (x : Ptr) : StreamTree :=
  { t with sched := streamObqPush t.dep t.turns t.sched (t.dep.depPrev x) x }

/-- `stream_update_dep_on_detach_item`. -/
def streamUpdateDepOnDetachItem (t : StreamTree) (x : Ptr) : StreamTree :=
  if (t.sched.obq x).isEmpty then
    { t with sched := streamObqRemove t.dep t.turns t.sched x }
  else t

/-- `x->item = i`. -/
def Sched.setItem (s : Sched) (x : Ptr) (i : Option ItemPtr) : Sched :=
  { s with item := Function.update s.item x i }

/-- Write the deferral bits of `x->flags`. -/
def Sched.setDeferred (s : Sched) (x : Ptr) (f : DeferFlags) : Sched :=
  { s with deferred := Function.update s.deferred x f }

/-- `nghttp2_stream_attach_item`. -/
def streamAttachItem (t : StreamTree) (x : Ptr) (i : ItemPtr) : StreamTree :=
  streamUpdateDepOnAttachItem { t with sched := t.sched.setItem x (some i) } x

/-- `nghttp2_stream_detach_item`. -/
def streamDetachItem (t : StreamTree) (x : Ptr) : StreamTree :=
  streamUpdateDepOnDetachItem
    { t with sched := (t.sched.setItem x none).setDeferred x ⟨false, false⟩ } x

/-- `nghttp2_stream_defer_item`. -/
def streamDeferItem (t : StreamTree) (x : Ptr) (flags : DeferFlags) : StreamTree :=
  streamUpdateDepOnDetachItem
    { t with sched := t.sched.setDeferred x ((t.sched.deferred x).union flags) } x

/-- `nghttp2_stream_resume_deferred_item`. -/
def streamResumeDeferredItem (t : StreamTree) (x : Ptr) (flags : DeferFlags) : StreamTree :=
  let t := { t with sched := t.sched.setDeferred x ((t.sched.deferred x).diff flags) }
  if (t.sched.deferred x).any then t else streamUpdateDepOnAttachItem t x

/-- The loop of `nghttp2_stream_next_outbound_item`. -/
def nextOutboundLoop (s : Sched) : ℕ → Ptr → Option ItemPtr
  | 0, _ => none
  | n + 1, x =>
    if streamActive s x then s.item x
    else
      match (s.obq x).head? with
      | none => none
      | some y => nextOutboundLoop s n y

/-- `nghttp2_stream_next_outbound_item`. -/
def streamNextOutboundItem (t : StreamTree) (x : Ptr) : Option ItemPtr :=
  nextOutboundLoop t.sched t.turns x

/-! ## Dependency operations -/

/-- `nghttp2_stream_in_dep_tree`. -/
def streamInDepTree (dep : DepLinks) (x : Ptr) : Bool :=
  (dep.depPrev x).isSome || (dep.depNext x).isSome || (dep.sibPrev x).isSome ||
    (dep.sibNext x).isSome

/-- `nghttp2_stream_dep_find_ancestor`. -/
def depFindAncestor (dep : DepLinks) : ℕ → Option Ptr → Ptr → Bool
  | 0, _, _ => false
  | _, none, _ => false
  | n + 1, some x, target => if x = target then true else depFindAncestor dep n
    (dep.depPrev x) target

/-- `stream_last_sib`. -/
def streamLastSib (dep : DepLinks) : ℕ → Ptr → Ptr
  | 0, x => x
  | n + 1, x =>
    match dep.sibNext x with
    | none => x
    | some y => streamLastSib dep n y

/-- `nghttp2_stream_dep_distributed_weight`; C's division truncates. -/
def depDistributedWeight (dep : DepLinks) (x : Ptr) (weight : ℤ) : ℤ :=
  max 1 ((dep.weight x * weight).tdiv (dep.sumDepWeight x))

/-- `x->dep_prev = v`. -/
def DepLinks.setDepPrevOf (dep : DepLinks) (x : Ptr) (v : Option Ptr) : DepLinks :=
  { dep with depPrev := Function.update dep.depPrev x v }

/-- `x->dep_next = v`. -/
def DepLinks.setDepNextOf (dep : DepLinks) (x : Ptr) (v : Option Ptr) : DepLinks :=
  { dep with depNext := Function.update dep.depNext x v }

/-- `x->sib_prev = v`. -/
def DepLinks.setSibPrevOf (dep : DepLinks) (x : Ptr) (v : Option Ptr) : DepLinks :=
  { dep with sibPrev := Function.update dep.sibPrev x v }

/-- `x->sib_next = v`. -/
def DepLinks.setSibNextOf (dep : DepLinks) (x : Ptr) (v : Option Ptr) : DepLinks :=
  { dep with sibNext := Function.update dep.sibNext x v }

/-- `x->weight = w`. -/
def DepLinks.setWeight (dep : DepLinks) (x : Ptr) (w : ℤ) : DepLinks :=
  { dep with weight := Function.update dep.weight x w }

/-- `x->sum_dep_weight = w`. -/
def DepLinks.setSumDepWeight (dep : DepLinks) (x : Ptr) (w : ℤ) : DepLinks :=
  { dep with sumDepWeight := Function.update dep.sumDepWeight x w }

/-- `set_dep_prev`. -/
def setDepPrev (dep : DepLinks) (turns : ℕ) (x : Option Ptr) (d : Option Ptr) : DepLinks :=
  forChain DepLinks.sibNext (fun dep si => dep.setDepPrevOf si d) turns dep x

/-- `link_dep`. -/
def linkDep (dep : DepLinks) (d : Ptr) (x : Option Ptr) : DepLinks :=
  let dep := dep.setDepNextOf d x
  match x with
  | none => dep
  | some x => dep.setDepPrevOf x (some d)

/-- `link_sib`. -/
def linkSib (dep : DepLinks) (a : Ptr) (b : Option Ptr) : DepLinks :=
  let dep := dep.setSibNextOf a b
  match b with
  | none => dep
  | some b => dep.setSibPrevOf b (some a)

/-- `insert_link_dep`. -/
def insertLinkDep (dep : DepLinks) (d x : Ptr) : DepLinks :=
  linkDep (linkSib dep x (dep.depNext d)) d (some x)

/-- The common end of `unlink_sib` and `unlink_dep` for a stream with children, the
first of which is `c`: they get the parent of `x`, and the next sibling of `x`
follows the last of them. -/
def adoptSiblings (dep : DepLinks) (turns : ℕ) (x c : Ptr) : DepLinks :=
  let dep := setDepPrev dep turns (some c) (dep.depPrev x)
  match dep.sibNext x with
  | none => dep
  | some next => linkSib dep (streamLastSib dep turns c) (some next)

/-- `unlink_sib`, for a stream whose previous sibling is `prev`. -/
def unlinkSib (dep : DepLinks) (turns : ℕ) (x prev : Ptr) : DepLinks :=
  match dep.depNext x with
  | some c => adoptSiblings (linkSib dep prev (some c)) turns x c
  | none =>
    let dep' := dep.setSibNextOf prev (dep.sibNext x)
    match dep.sibNext x with
    | none => dep'
    | some next => dep'.setSibPrevOf next (some prev)

/-- `unlink_dep`, for a stream whose parent is `prev`. -/
def unlinkDep (dep : DepLinks) (turns : ℕ) (x prev : Ptr) : DepLinks :=
  match dep.depNext x with
  | some c => adoptSiblings (linkDep dep prev (some c)) turns x c
  | none =>
    match dep.sibNext x with
    | some next => linkDep (dep.setSibPrevOf next none) prev (some next)
    | none => dep.setDepNextOf prev none

/-- `si->dep_prev = stream` and the move of a queued `si`, the body of the loops of
`nghttp2_stream_dep_insert` and `nghttp2_stream_dep_insert_subtree`. -/
def adoptChild (dest src : Ptr) (t : StreamTree) (si : Ptr) : StreamTree :=
  let dep := t.dep.setDepPrevOf si (some dest)
  { t with dep := dep, sched := streamObqMove dep t.turns t.sched dest src si }

/-- `if (stream_subtree_active(x)) stream_obq_push(d, x)`. -/
def pushIfActive (t : StreamTree) (d x : Ptr) : StreamTree :=
  { t with
    sched := if streamSubtreeActive t.sched x then
        streamObqPush t.dep t.turns t.sched (some d) x
      else t.sched }

/-- `nghttp2_stream_dep_insert`. -/
def streamDepInsert (t : StreamTree) (d x : Ptr) : StreamTree :=
  let dep := (t.dep.setSumDepWeight x (t.dep.sumDepWeight d)).setSumDepWeight d (t.dep.weight x)
  let t := { t with dep := dep }
  let t :=
    match t.dep.depNext d with
    | none => t
    | some c =>
      let t := forChain (fun t : StreamTree => t.dep.sibNext) (adoptChild x d) t.turns t (some c)
      let t := pushIfActive t d x
      { t with dep := t.dep.setDepNextOf x (t.dep.depNext d) }
  { t with dep := (t.dep.setDepNextOf d (some x)).setDepPrevOf x (some d) }

/-- `nghttp2_stream_dep_add`. -/
def streamDepAdd (t : StreamTree) (d x : Ptr) : StreamTree :=
  let dep := t.dep.setSumDepWeight d (t.dep.sumDepWeight d + t.dep.weight x)
  { t with
    dep := if (dep.depNext d).isNone then linkDep dep d (some x) else insertLinkDep dep d x }

/-- The body of the loop of `nghttp2_stream_dep_remove`: the child takes its share
of the weight of `x` and moves to the queue of the parent of `x`. -/
def releaseChild (x : Ptr) (td : StreamTree × ℤ) (si : Ptr) : StreamTree × ℤ :=
  let t := td.1
  let w := depDistributedWeight t.dep x (t.dep.weight si)
  let dep := t.dep.setWeight si w
  let sched :=
    match t.dep.depPrev x with
    | none => t.sched
    | some p => streamObqMove dep t.turns t.sched p x si
  ({ t with dep := dep, sched := sched }, td.2 + w)

/-- `nghttp2_stream_dep_remove`; `none` when `assert(stream->dep_prev)` fails. -/
def streamDepRemove (t : StreamTree) (x : Ptr) : Option StreamTree :=
  let (t, delta) := forChain (fun td : StreamTree × ℤ => td.1.dep.sibNext) (releaseChild x) t.turns
    (t, -t.dep.weight x) (t.dep.depNext x)
  match t.dep.depPrev x with
  | none => none
  | some p =>
    let dep := t.dep.setSumDepWeight p (t.dep.sumDepWeight p + delta)
    let sched := if t.sched.queued x then streamObqRemove dep t.turns t.sched x else t.sched
    let dep :=
      match dep.sibPrev x with
      | some prev => unlinkSib dep t.turns x prev
      | none => unlinkDep dep t.turns x p
    let dep := ((((dep.setSumDepWeight x 0).setDepPrevOf x none).setDepNextOf x none).setSibPrevOf
      x none).setSibNextOf x none
    some { t with dep := dep, sched := sched }

/-- The links `nghttp2_stream_dep_insert_subtree` sets when `d` has children, the
first of which is `next`. -/
def insertSubtreeLinks (dep : DepLinks) (turns : ℕ) (d x next : Ptr) : DepLinks :=
  let dep := linkDep dep d (some x)
  match dep.depNext x with
  | some c => linkSib dep (streamLastSib dep turns c) (some next)
  | none => linkDep dep x (some next)

/-- `nghttp2_stream_dep_insert_subtree`. -/
def streamDepInsertSubtree (t : StreamTree) (d x : Ptr) : StreamTree :=
  let dep := t.dep.setSumDepWeight x (t.dep.sumDepWeight x + t.dep.sumDepWeight d)
  let dep := dep.setSumDepWeight d (t.dep.weight x)
  let t :=
    match dep.depNext d with
    | some next =>
      forChain (fun t : StreamTree => t.dep.sibNext) (adoptChild x d) t.turns
        { t with dep := insertSubtreeLinks dep t.turns d x next } (some next)
    | none => { t with dep := linkDep dep d (some x) }
  pushIfActive t d x

/-- `nghttp2_stream_dep_add_subtree`. -/
def streamDepAddSubtree (t : StreamTree) (d x : Ptr) : StreamTree :=
  let dep := t.dep.setSumDepWeight d (t.dep.sumDepWeight d + t.dep.weight x)
  let dep := if (dep.depNext d).isSome then insertLinkDep dep d x else linkDep dep d (some x)
  pushIfActive { t with dep := dep } d x

/-- `nghttp2_stream_dep_remove_subtree`; `none` when `assert(stream->dep_prev)` fails. -/
def streamDepRemoveSubtree (t : StreamTree) (x : Ptr) : Option StreamTree :=
  match t.dep.depPrev x with
  | none => none
  | some p =>
    let dep :=
      match t.dep.sibPrev x with
      | some prev => linkSib t.dep prev (t.dep.sibNext x)
      | none =>
        let dep := linkDep t.dep p (t.dep.sibNext x)
        match t.dep.sibNext x with
        | none => dep
        | some next => dep.setSibPrevOf next none
    let dep := dep.setSumDepWeight p (dep.sumDepWeight p - dep.weight x)
    let sched := if t.sched.queued x then streamObqRemove dep t.turns t.sched x else t.sched
    let dep := ((dep.setSibPrevOf x none).setSibNextOf x none).setDepPrevOf x none
    some { t with dep := dep, sched := sched }

end Nghttp2
