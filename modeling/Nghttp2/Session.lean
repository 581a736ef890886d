/-
# The stream table of a session

The part of `nghttp2_session` that owns stream objects: the hash table of streams,
the lists of closed and of idle streams that are kept for the dependency tree, the
counters, and the limits that decide when a kept stream is destroyed.

* `openStream`, `closeStream`, `destroyStream`, `adjustIdleStream`,
  `adjustClosedStream` and `reprioritizeStream` follow `nghttp2_session.c`;
* receiving HEADERS or PRIORITY and the other callers of these functions are the
  events of a session (`Event`, `step`), and a session runs through any sequence of
  them (`run`).

A failed assertion, a link to a stream object that has been freed, and a refused
insertion end a run with a `Fault`.
-/
import Nghttp2.ChainMap
import Nghttp2.TreeInv

namespace Nghttp2

/-! ## Data -/

/-- `nghttp2_stream_state`. -/
inductive StreamState
  | initial
  | opening
  | opened
  | closing
  | reserved
  | idle
deriving DecidableEq, Repr

/-- The fields of a stream object that only the session uses: its state, the bits
`NGHTTP2_STREAM_FLAG_PUSH` and `NGHTTP2_STREAM_FLAG_CLOSED` of `flags`, and the two
bits of `shut_flags`. -/
structure StreamInfo where
  state : StreamState
  push : Bool
  closed : Bool
  shutRd : Bool
  shutWr : Bool
deriving DecidableEq, Repr

/-- `nghttp2_priority_spec`.  A weight read from a frame is a byte plus one, and the
submit functions clamp the application's weight to the same range. -/
structure PrioritySpec where
  streamId : ℕ
  weight : ℤ
  exclusive : Bool
  weight_mem : 1 ≤ weight ∧ weight ≤ 256

/-- `nghttp2_priority_spec_default_init`. -/
def PrioritySpec.default : PrioritySpec := ⟨0, defaultWeight, false, by decide⟩

/-- `nghttp2_priority_spec_init` with the default weight and without the exclusive
flag. -/
def PrioritySpec.dependsOn (id : ℕ) : PrioritySpec := ⟨id, defaultWeight, false, by decide⟩

/-- What the session knows about outbound items: the `queued` flag of each, the item
being sent, and how often each has been freed. -/
structure ItemStore where
  queued : ItemPtr → Bool
  aob : Option ItemPtr
  freed : ItemPtr → ℕ

/-- `nghttp2_session`, as far as the stream table goes.  `unsent` holds the stream
ids of submitted request HEADERS and PUSH_PROMISE frames that have not been sent. -/
structure Session where
  server : Bool
  tree : StreamTree
  info : Ptr → StreamInfo
  streams : ChainMap Ptr ℕ
  freed : Ptr → Bool
  items : ItemStore
  closedStreams : List Ptr
  idleStreams : List Ptr
  numClosedStreams : ℕ
  numIdleStreams : ℕ
  numOutgoingStreams : ℕ
  numIncomingStreams : ℕ
  numIncomingReservedStreams : ℕ
  maxConcurrentStreams : ℕ
  pendingMaxConcurrentStreams : ℕ
  maxIncomingReservedStreams : ℕ
  lastRecvStreamId : ℕ
  nextStreamId : ℕ
  unsent : List ℕ
  goawaySent : Bool

/-- The ways in which an operation can go wrong. -/
inductive Fault
  | assertFailed
  | useAfterFree
  | noStream
deriving DecidableEq, Repr

@[simp] theorem ok_bind {α β : Type} (a : α) (f : α → Except Fault β) :
    (Except.ok a >>= f) = f a := rfl

@[simp] theorem error_bind {α β : Type} (e : Fault) (f : α → Except Fault β) :
    (Except.error e >>= f) = Except.error e := rfl

theorem bind_eq_ok {α β : Type} {r : Except Fault α} {f : α → Except Fault β} {b : β} :
    (r >>= f) = .ok b ↔ ∃ a, r = .ok a ∧ f a = .ok b := by
  cases r with
  | error e => simp
  | ok a => simp

theorem exists_of_map_eq_ok {α β : Type} {r : Except Fault α} {f : α → β} {b : β}
    (h : r.map f = .ok b) : ∃ a, r = .ok a ∧ f a = b := by
  cases r with
  | error e => cases h
  | ok a => exact ⟨a, rfl, Except.ok.inj h⟩

/-- A run on fixed inputs is evaluated to `P`, under checks that give `R`. -/
theorem exists_of_eval {σ : Type} {x g : Except Fault σ} {R Q : σ → Prop} (P : σ → Prop)
    [DecidablePred P] (hg : ∀ {s}, g = .ok s → R s ∧ x = .ok s)
    (heval : g.map (fun s => decide (P s)) = .ok true) (h : ∀ s, R s → P s → Q s) :
    ∃ s, x = .ok s ∧ Q s := by
  obtain ⟨s, hs, hP⟩ := exists_of_map_eq_ok heval
  obtain ⟨hR, hx⟩ := hg hs
  exact ⟨s, hx, h s hR (of_decide_eq_true hP)⟩

/-- The same with one more call `y`. -/
theorem exists_of_eval₂ {σ τ : Type} {x g : Except Fault σ} {R : σ → Prop} {Q : σ → τ → Prop}
    (y : σ → Except Fault τ) (P : σ → τ → Prop) [∀ s, DecidablePred (P s)]
    (hg : ∀ {s}, g = .ok s → R s ∧ x = .ok s)
    (heval : g.map (fun s => (y s).map fun t => decide (P s t)) = .ok (.ok true))
    (h : ∀ s t, R s → y s = .ok t → P s t → Q s t) : ∃ s t, x = .ok s ∧ Q s t := by
  obtain ⟨s, hs, heval⟩ := exists_of_map_eq_ok heval
  obtain ⟨t, ht, hP⟩ := exists_of_map_eq_ok heval
  obtain ⟨hR, hx⟩ := hg hs
  exact ⟨s, t, hx, h s t hR ht (of_decide_eq_true hP)⟩

/-- A run over the events `es` that is given up at an event that does not pass the check. -/
def guardedRun {σ ε : Type} (step : σ → ε → Except Fault σ) (check : σ → ε → Bool) (s : σ)
    (es : List ε) : Except Fault σ :=
  es.foldlM (fun s e => if check s e then step s e else throw .assertFailed) s

/-- **A guarded run** is a run, and what the events that pass the check keep holds after it. -/
theorem guardedRun_rule {σ ε : Type} {step : σ → ε → Except Fault σ} {check : σ → ε → Bool}
    {R : σ → Prop} {s s' : σ} {es : List ε}
    (hstep : ∀ {s e s'}, e ∈ es → R s → check s e = true → step s e = .ok s' → R s') (hs : R s)
    (hrun : guardedRun step check s es = .ok s') : R s' ∧ es.foldlM step s = .ok s' := by
  induction es generalizing s with
  | nil =>
    cases hrun
    exact ⟨hs, rfl⟩
  | cons e es ih =>
    rw [guardedRun, List.foldlM_cons] at hrun
    obtain ⟨s1, h₁, hrun⟩ := bind_eq_ok.1 hrun
    split_ifs at h₁ with hcheck
    obtain ⟨hs', hrun⟩ := ih (fun hmem => hstep (List.mem_cons_of_mem e hmem))
      (hstep List.mem_cons_self hs hcheck h₁) hrun
    exact ⟨hs', by rw [List.foldlM_cons, h₁, ok_bind, hrun]⟩

/-- `hash` of `nghttp2_map.c`, on the 32-bit two's complement of the key. -/
def mapHash (key mod : ℕ) : ℕ :=
  let h := BitVec.ofNat 32 key
  let h := h ^^^ (h.sshiftRight 20 ^^^ h.sshiftRight 12)
  let h := h ^^^ (h.sshiftRight 7 ^^^ h.sshiftRight 4)
  h.toNat &&& (mod - 1)

theorem mapHash_lt (key n : ℕ) (hn : 0 < n) : mapHash key n < n :=
  lt_of_le_of_lt Nat.and_le_right (Nat.sub_lt hn one_pos)

namespace Session

/-! ## Lookups -/

/-- `nghttp2_session_is_my_stream_id`. -/
def isMyStreamId (s : Session) (id : ℕ) : Bool :=
  id ≠ 0 && (if s.server then id % 2 = 0 else id % 2 = 1)

/-- `session_is_new_peer_stream_id`. -/
def isNewPeerStreamId (s : Session) (id : ℕ) : Bool :=
  id ≠ 0 && !s.isMyStreamId id && s.lastRecvStreamId < id

/-- `session_detect_idle_stream`. -/
def detectIdleStream (s : Session) (id : ℕ) : Bool :=
  if s.isMyStreamId id then s.nextStreamId ≤ id else s.isNewPeerStreamId id

/-- `nghttp2_session_get_stream_raw`. -/
def getStreamRaw (s : Session) (id : ℕ) : Option Ptr := s.streams.find mapHash id

/-- `nghttp2_session_get_stream`. -/
def getStream (s : Session) (id : ℕ) : Option Ptr :=
  (s.getStreamRaw id).filter fun x => !(s.info x).closed && (s.info x).state ≠ .idle

/-- `stream->stream_id`, which is the key of its map entry. -/
def streamId (s : Session) (x : Ptr) : ℕ := s.streams.key x

/-- `session_get_num_active_streams`. -/
def numActiveStreams (s : Session) : ℕ := s.streams.size - s.numClosedStreams - s.numIdleStreams

/-! ## Destroying streams -/

/-- The tree without the stream `x`, if it is in the tree. -/
def leaveTree (t : StreamTree) (x : Ptr) : Except Fault StreamTree :=
  if streamInDepTree t.dep x then
    match streamDepRemove t x with
    | none => throw .assertFailed
    | some t => pure t
  else pure t

/-- `nghttp2_session_destroy_stream`. -/
def destroyStream (s : Session) (x : Ptr) : Except Fault Session := do
  let t ← leaveTree s.tree x
  return { s with
    tree := t
    streams := (s.streams.remove mapHash (s.streamId x)).1
    freed := Function.update s.freed x true }

/-- The number of streams that limits the kept ones:
`nghttp2_min(local_settings.max_concurrent_streams, pending_local_max_concurrent_stream)`. -/
def numStreamMax (s : Session) : ℕ := min s.maxConcurrentStreams s.pendingMaxConcurrentStreams

/-- The loop of `nghttp2_session_adjust_closed_stream`. -/
def adjustClosedLoop (offset : ℕ) : ℕ → Session → Except Fault Session
  | 0, s => pure s
  | n + 1, s =>
    if s.numClosedStreams > 0 &&
        s.numClosedStreams + s.numIncomingStreams + offset > s.numStreamMax then
      match s.closedStreams with
      | [] => throw .assertFailed
      | head :: next => do
        let s ← s.destroyStream head
        adjustClosedLoop offset n
          { s with closedStreams := next, numClosedStreams := s.numClosedStreams - 1 }
    else pure s

/-- `nghttp2_session_adjust_closed_stream`. -/
def adjustClosedStream (s : Session) (offset : ℕ) : Except Fault Session :=
  adjustClosedLoop offset s.numClosedStreams s

/-- The largest number of idle streams that are kept. -/
def idleMax (s : Session) : ℕ := max 2 s.numStreamMax

/-- The loop of `nghttp2_session_adjust_idle_stream`. -/
def adjustIdleLoop : ℕ → Session → Except Fault Session
  | 0, s => pure s
  | n + 1, s =>
    if s.numIdleStreams > s.idleMax then
      match s.idleStreams with
      | [] => throw .assertFailed
      | head :: next => do
        let s ← s.destroyStream head
        adjustIdleLoop n { s with idleStreams := next, numIdleStreams := s.numIdleStreams - 1 }
    else pure s

/-- `nghttp2_session_adjust_idle_stream`. -/
def adjustIdleStream (s : Session) : Except Fault Session := adjustIdleLoop s.numIdleStreams s

/-- `nghttp2_session_keep_closed_stream`. -/
def keepClosedStream (s : Session) (x : Ptr) : Except Fault Session :=
  adjustClosedStream
    { s with
      closedStreams := s.closedStreams ++ [x]
      numClosedStreams := s.numClosedStreams + 1 } 0

/-- `nghttp2_session_keep_idle_stream`. -/
def keepIdleStream (s : Session) (x : Ptr) : Except Fault Session :=
  adjustIdleStream
    { s with idleStreams := s.idleStreams ++ [x], numIdleStreams := s.numIdleStreams + 1 }

/-- `nghttp2_session_detach_idle_stream`. -/
def detachIdleStream (s : Session) (x : Ptr) : Session :=
  { s with idleStreams := s.idleStreams.erase x, numIdleStreams := s.numIdleStreams - 1 }

/-! ## Opening streams -/

/-- A new stream of the peer makes a server drop closed streams first. -/
def makeRoom (s : Session) (id : ℕ) (initialState : StreamState) : Except Fault Session :=
  if s.server && initialState ≠ .idle && !s.isMyStreamId id then s.adjustClosedStream 1
  else pure s

/-- The first part of `nghttp2_session_open_stream`: an idle stream with this id is
taken out of the idle list and out of the dependency tree.  If there is none, the
object is allocated; the model does so when it is initialised, because nothing looks
at it before. -/
def reuseStream (s : Session) (id : ℕ) (initialState : StreamState) :
    Except Fault (Session × Option Ptr) :=
  match s.getStreamRaw id with
  | some x =>
    if (s.info x).state ≠ .idle || !streamInDepTree s.tree.dep x then throw .assertFailed
    else do
      let t ← leaveTree s.tree x
      return ({ s.detachIdleStream x with tree := t }, some x)
  | none => do
    let s ← s.makeRoom id initialState
    return (s, none)

/-- `nghttp2_stream_init` on the object `x`. -/
def initStream (s : Session) (x : Ptr) (id : ℕ) (weight : ℤ) (initialState : StreamState) :
    Session :=
  { s with
    tree := streamInit s.tree x weight
    streams := s.streams.entryInit x id
    info := Function.update s.info x
      ⟨initialState, initialState = .reserved, false, false, false⟩ }

/-- The initialised stream object: the reused one, or a new one that is entered into
the stream table. -/
def placeStream (s : Session) (reused : Option Ptr) (id : ℕ) (weight : ℤ)
    (initialState : StreamState) : Except Fault (Session × Ptr) :=
  match reused with
  | some x => pure (s.initStream x id weight initialState, x)
  | none =>
    let x := s.tree.allocated
    let s := { s with tree := { s.tree with allocated := s.tree.allocated + 1 } }
    let s := s.initStream x id weight initialState
    let r := s.streams.insert mapHash x
    if r.2 then pure ({ s with streams := r.1 }, x) else throw .noStream

/-- Change the session fields of a stream. -/
def modifyInfo (s : Session) (x : Ptr) (f : StreamInfo → StreamInfo) : Session :=
  { s with info := Function.update s.info x (f (s.info x)) }

/-- The `switch (initial_state)` of `nghttp2_session_open_stream`. -/
def countStream (s : Session) (x : Ptr) (id : ℕ) :
    StreamState → Except Fault Session
  | .reserved =>
    if s.isMyStreamId id then pure (s.modifyInfo x fun i => { i with shutRd := true })
    else
      pure { s.modifyInfo x fun i => { i with shutWr := true } with
        numIncomingReservedStreams := s.numIncomingReservedStreams + 1 }
  | .idle => if s.server then s.keepIdleStream x else throw .assertFailed
  | _ =>
    if s.isMyStreamId id then pure { s with numOutgoingStreams := s.numOutgoingStreams + 1 }
    else pure { s with numIncomingStreams := s.numIncomingStreams + 1 }

/-- The two ways in which a new stream is attached. -/
def attachStream (exclusive : Bool) (t : StreamTree) (d x : Ptr) : StreamTree :=
  if exclusive then streamDepInsert t d x else streamDepAdd t d x

/-- The end of `nghttp2_session_open_stream`: the stream goes below `d`, unless it is
reserved by the peer. -/
def linkStream (s : Session) (x d : Ptr) (exclusive : Bool) : Except Fault Session :=
  if s.freed x then throw .useAfterFree
  else if (s.info x).shutWr then pure s
  else if s.freed d then throw .useAfterFree
  else pure { s with tree := attachStream exclusive s.tree d x }

/-- The initialised stream object is counted or listed. -/
def listStream (s : Session) (reused : Option Ptr) (id : ℕ) (weight : ℤ)
    (initialState : StreamState) : Except Fault (Session × Ptr) := do
  let (s, x) ← s.placeStream reused id weight initialState
  let s ← s.countStream x id initialState
  return (s, x)

/-- `nghttp2_session_open_stream` for an idle stream with default priority, which
depends on the root. -/
def openAnchor (s : Session) (id : ℕ) : Except Fault (Session × Ptr) := do
  let (s, reused) ← s.reuseStream id .idle
  let (s, x) ← s.listStream reused id defaultWeight .idle
  let s ← s.linkStream x root false
  return (s, x)

/-- The stream a priority specification refers to, with the specification that is
used: `nghttp2_session_open_stream` and `nghttp2_session_reprioritize_stream` fall
back to the default for a stream that is not in the dependency tree, and create an
idle stream that does not exist yet. -/
def resolveDep (s : Session) (pri : PrioritySpec) :
    Except Fault (Session × Ptr × PrioritySpec) :=
  if pri.streamId = 0 then pure (s, root, pri)
  else
    match s.getStreamRaw pri.streamId with
    | some d =>
      if streamInDepTree s.tree.dep d then pure (s, d, pri) else pure (s, root, .default)
    | none =>
      if s.server && s.detectIdleStream pri.streamId then do
        let (s, d) ← s.openAnchor pri.streamId
        return (s, d, pri)
      else pure (s, root, .default)

/-- `nghttp2_session_open_stream` up to `nghttp2_stream_init`: the object that is
reused, if there is one, and the dependency. -/
def prepareStream (s : Session) (id : ℕ) (pri : PrioritySpec) (initialState : StreamState) :
    Except Fault (Session × Option Ptr × Ptr × PrioritySpec) := do
  let (s, reused) ← s.reuseStream id initialState
  let (s, d, pri) ← s.resolveDep pri
  return (s, reused, d, pri)

/-- `nghttp2_session_open_stream` up to the point at which the stream is linked to its
dependency: the session, the stream, the dependency and the exclusive flag. -/
def enterStream (s : Session) (id : ℕ) (pri : PrioritySpec) (initialState : StreamState) :
    Except Fault (Session × Ptr × Ptr × Bool) := do
  let (s, reused, d, pri) ← s.prepareStream id pri initialState
  let (s, x) ← s.listStream reused id pri.weight initialState
  return (s, x, d, pri.exclusive)

/-- `nghttp2_session_open_stream`. -/
def openStream (s : Session) (id : ℕ) (pri : PrioritySpec) (initialState : StreamState) :
    Except Fault (Session × Ptr) := do
  let (s, x, d, exclusive) ← s.enterStream id pri initialState
  let s ← s.linkStream x d exclusive
  return (s, x)

/-! ## Reprioritising and closing -/

/-- A dependency `d` below `x` goes below the root before `x` moves. -/
def breakCycle (t : StreamTree) (x d : Ptr) (pri : PrioritySpec) : Except Fault StreamTree :=
  if pri.streamId ≠ 0 && depFindAncestor t.dep t.turns (some d) x then
    match streamDepRemoveSubtree t d with
    | none => throw .assertFailed
    | some t => pure (streamDepAddSubtree t root d)
  else pure t

/-- The two ways in which a subtree is attached. -/
def attachSubtree (exclusive : Bool) (t : StreamTree) (d x : Ptr) : StreamTree :=
  if exclusive then streamDepInsertSubtree t d x else streamDepAddSubtree t d x

/-- The move of `nghttp2_session_reprioritize_stream`, when the dependency is known. -/
def moveBelow (t : StreamTree) (x d : Ptr) (pri : PrioritySpec) : Except Fault StreamTree := do
  let t ← breakCycle t x d pri
  match streamDepRemoveSubtree t x with
  | none => throw .assertFailed
  | some t => pure (attachSubtree pri.exclusive (t.setWeight x pri.weight) d x)

/-- `nghttp2_session_reprioritize_stream`. -/
def reprioritizeStream (s : Session) (x : Ptr) (pri : PrioritySpec) : Except Fault Session :=
  if pri.streamId = s.streamId x then throw .assertFailed
  else if !streamInDepTree s.tree.dep x then pure s
  else do
    let (s, d, pri) ← s.resolveDep pri
    if s.freed x then throw .useAfterFree
    let t ← moveBelow s.tree x d pri
    return { s with tree := t }

/-- The item of a stream that is closed is freed, unless it is queued or being sent. -/
def releaseItem (s : Session) (x : Ptr) : Session :=
  match s.tree.sched.item x with
  | none => s
  | some i =>
    let s := { s with tree := streamDetachItem s.tree x }
    if !s.items.queued i && s.items.aob ≠ some i then
      { s with items :=
        { s.items with freed := Function.update s.items.freed i (s.items.freed i + 1) } }
    else s

/-- The counters after the stream `x` with this id was closed. -/
def uncountStream (s : Session) (x : Ptr) (id : ℕ) : Session :=
  if (s.info x).push then
    if s.isMyStreamId id then s
    else { s with numIncomingReservedStreams := s.numIncomingReservedStreams - 1 }
  else if s.isMyStreamId id then { s with numOutgoingStreams := s.numOutgoingStreams - 1 }
  else { s with numIncomingStreams := s.numIncomingStreams - 1 }

/-- The part of `nghttp2_session_close_stream` after `on_stream_close_callback`: the
stream is closed, and kept or destroyed. -/
def finishClose (s : Session) (x : Ptr) (id : ℕ) : Except Fault Session :=
  let s := (s.uncountStream x id).modifyInfo x fun i => { i with closed := true }
  if s.server && streamInDepTree s.tree.dep x then s.keepClosedStream x else s.destroyStream x

/-- `nghttp2_session_close_stream`; without a stream it reports an error and changes
nothing. -/
def closeStream (s : Session) (id : ℕ) : Except Fault Session :=
  match s.getStream id with
  | none => pure s
  | some x => (s.releaseItem x).finishClose x id

/-! ## Events -/

/-- A call of `nghttp2_session_open_stream`: the session at the time of the call and
the arguments. -/
structure OpenCall where
  session : Session
  id : ℕ
  pri : PrioritySpec
  initialState : StreamState

/-- What happens to a session, as far as the stream table goes: the frames received
and sent that open, reprioritise or close streams, the calls of the application that
take stream ids or change limits, and the changes of one open stream. -/
inductive Event
  /-- Receive request HEADERS. -/
  | recvHeaders (id : ℕ) (pri : PrioritySpec)
  /-- Receive PRIORITY. -/
  | recvPriority (id : ℕ) (pri : PrioritySpec)
  /-- Receive PUSH_PROMISE on the stream `id`. -/
  | recvPushPromise (id promised : ℕ)
  /-- Submit a request or a PUSH_PROMISE, which takes the next stream id. -/
  | submitStream
  /-- Send the HEADERS of a submitted request. -/
  | sendRequest (id : ℕ) (pri : PrioritySpec)
  /-- Send a submitted PUSH_PROMISE on the stream `id`. -/
  | sendPushPromise (id promised : ℕ)
  /-- Send PRIORITY. -/
  | sendPriority (id : ℕ) (pri : PrioritySpec)
  /-- `nghttp2_session_upgrade`. -/
  | upgrade
  /-- `nghttp2_session_close_stream`, for any reason. -/
  | close (id : ℕ)
  /-- An open stream changes its state. -/
  | setState (id : ℕ) (state : StreamState)
  /-- An open stream is shut down in one direction or in both. -/
  | shutdown (id : ℕ) (rd wr : Bool)
  /-- The response on a pushed stream is sent or received. -/
  | fulfillPush (id : ℕ)
  /-- SETTINGS_MAX_CONCURRENT_STREAMS is submitted or acknowledged. -/
  | setLimits (maxConcurrent pendingMaxConcurrent : ℕ)
  /-- `nghttp2_session_set_next_stream_id`. -/
  | setNextStreamId (id : ℕ)
  /-- GOAWAY is sent. -/
  | sendGoaway
  /-- An item is attached to an open stream that has none. -/
  | attachItem (id : ℕ) (item : ItemPtr)
  /-- The item of an open stream is detached. -/
  | detachItem (id : ℕ)
  /-- The item of an open stream is deferred. -/
  | deferItem (id : ℕ) (flags : DeferFlags)
  /-- The deferred item of an open stream is resumed. -/
  | resumeDeferredItem (id : ℕ) (flags : DeferFlags)
  /-- An open stream that is queued has sent something. -/
  | reschedule (id : ℕ) (writelen : ℕ)

/-- The event gives no stream an item, and closes none. -/
def Event.quiet : Event → Bool
  | .close _ => false
  | .attachItem _ _ => false
  | _ => true

/-- The call of `nghttp2_session_open_stream` for the stream of an event, if the event makes it.
The function is also called for a missing dependency, in `resolveDep`. -/
def openCall (s : Session) : Event → Option OpenCall
  | .recvHeaders id pri =>
    if s.server && s.isNewPeerStreamId id && !s.goawaySent &&
        s.numIncomingStreams < s.maxConcurrentStreams && pri.streamId ≠ id &&
        s.numIncomingStreams < s.pendingMaxConcurrentStreams then
      some ⟨{ s with lastRecvStreamId := id }, id, pri, .opening⟩
    else none
  | .recvPriority id pri =>
    if id ≠ 0 && pri.streamId ≠ id && s.server && (s.getStreamRaw id).isNone &&
        s.detectIdleStream id then
      some ⟨s, id, pri, .idle⟩
    else none
  | .recvPushPromise id promised =>
    if !s.server && s.isMyStreamId id && s.isNewPeerStreamId promised &&
        (s.getStream id).any fun x => (s.info x).state ≠ .closing && !(s.info x).shutRd &&
          s.numIncomingReservedStreams < s.maxIncomingReservedStreams then
      some ⟨{ s with lastRecvStreamId := promised }, promised, .dependsOn id, .reserved⟩
    else none
  | .sendRequest id pri =>
    if id ∈ s.unsent then some ⟨{ s with unsent := s.unsent.erase id }, id, pri, .initial⟩
    else none
  | .sendPushPromise id promised =>
    if s.server && promised ∈ s.unsent then
      some ⟨{ s with unsent := s.unsent.erase promised }, promised,
        if (s.getStream id).isSome then .dependsOn id else .default, .reserved⟩
    else none
  | .upgrade =>
    if s.server then
      if s.lastRecvStreamId = 0 then some ⟨{ s with lastRecvStreamId := 1 }, 1, .default, .opening⟩
      else none
    else if s.nextStreamId = 1 then
      some ⟨{ s with nextStreamId := 3 }, 1, .default, .opening⟩
    else none
  | _ => none

/-- The session at an event that opens no stream. -/
def settle (s : Session) : Event → Except Fault Session
  | .recvHeaders id _ =>
    pure (if s.server && s.isNewPeerStreamId id then { s with lastRecvStreamId := id } else s)
  | .recvPriority id pri =>
    if id ≠ 0 && pri.streamId ≠ id && s.server then
      match s.getStreamRaw id with
      | some x => s.reprioritizeStream x pri
      | none => pure s
    else pure s
  | .recvPushPromise id promised =>
    pure (if !s.server && s.isMyStreamId id && s.isNewPeerStreamId promised then
      { s with lastRecvStreamId := promised } else s)
  | .submitStream =>
    pure (if s.nextStreamId < 2 ^ 31 then
      { s with nextStreamId := s.nextStreamId + 2, unsent := s.unsent ++ [s.nextStreamId] }
      else s)
  | .sendPriority id pri =>
    if !s.server && pri.streamId ≠ id then
      match s.getStreamRaw id with
      | some x => s.reprioritizeStream x pri
      | none => pure s
    else pure s
  | .close id => s.closeStream id
  | .setState id state =>
    pure (match s.getStream id with
      | some x => if state = .idle then s else s.modifyInfo x fun i => { i with state := state }
      | none => s)
  | .shutdown id rd wr =>
    pure (match s.getStream id with
      | some x => s.modifyInfo x fun i =>
          { i with shutRd := i.shutRd || rd, shutWr := i.shutWr || wr }
      | none => s)
  | .fulfillPush id =>
    pure (match s.getStream id with
      | some x =>
        if (s.info x).push then
          let s' := s.modifyInfo x fun i => { i with state := .opened, push := false }
          if s.isMyStreamId id then { s' with numOutgoingStreams := s.numOutgoingStreams + 1 }
          else
            { s' with
              numIncomingReservedStreams := s.numIncomingReservedStreams - 1
              numIncomingStreams := s.numIncomingStreams + 1 }
        else s
      | none => s)
  | .setLimits n p => pure { s with maxConcurrentStreams := n, pendingMaxConcurrentStreams := p }
  | .setNextStreamId id =>
    pure (if s.nextStreamId ≤ id && s.isMyStreamId id then { s with nextStreamId := id } else s)
  | .sendGoaway => pure { s with goawaySent := true }
  | .attachItem id i =>
    pure (match s.getStream id with
      | some x =>
        if (s.tree.sched.item x).isNone then { s with tree := streamAttachItem s.tree x i } else s
      | none => s)
  | .detachItem id =>
    pure (match s.getStream id with
      | some x => { s with tree := streamDetachItem s.tree x }
      | none => s)
  | .deferItem id flags =>
    pure (match s.getStream id with
      | some x =>
        if (s.tree.sched.item x).isSome && flags.any then
          { s with tree := streamDeferItem s.tree x flags }
        else s
      | none => s)
  | .resumeDeferredItem id flags =>
    pure (match s.getStream id with
      | some x =>
        if (s.tree.sched.item x).isSome then
          { s with tree := streamResumeDeferredItem s.tree x flags }
        else s
      | none => s)
  | .reschedule id writelen =>
    pure (match s.getStream id with
      | some x =>
        if s.tree.sched.queued x then
          { s with tree := streamReschedule (s.tree.setLastWritelen x writelen) x }
        else s
      | none => s)
  | _ => pure s

/-- **One event.** -/
def step (s : Session) (e : Event) : Except Fault Session :=
  match s.openCall e with
  | some c => (c.session.openStream c.id c.pri c.initialState).map fun r =>
      if e matches .upgrade then
        r.1.modifyInfo r.2 fun i =>
          { i with shutRd := i.shutRd || r.1.server, shutWr := i.shutWr || !r.1.server }
      else r.1
  | none => s.settle e

/-- **A run**: any sequence of events. -/
def run (s : Session) (es : List Event) : Except Fault Session := es.foldlM step s

/-- A session that has been created with `nghttp2_session_server_new` or
`nghttp2_session_client_new`, with any limits. -/
def new (server : Bool) (maxConcurrent pendingMaxConcurrent maxReserved : ℕ) : Session where
  server := server
  tree := loneRoot
  info := fun _ => ⟨.initial, false, false, false, false⟩
  streams := ⟨fun _ => none, 256, fun _ => 0, fun _ => none, 0⟩
  freed := fun _ => false
  items := ⟨fun _ => false, none, fun _ => 0⟩
  closedStreams := []
  idleStreams := []
  numClosedStreams := 0
  numIdleStreams := 0
  numOutgoingStreams := 0
  numIncomingStreams := 0
  numIncomingReservedStreams := 0
  maxConcurrentStreams := maxConcurrent
  pendingMaxConcurrentStreams := pendingMaxConcurrent
  maxIncomingReservedStreams := maxReserved
  lastRecvStreamId := 0
  nextStreamId := if server then 2 else 1
  unsent := []
  goawaySent := false

/-! ## What the operations can do -/

variable {s s' : Session}

/-- What holds when a closed stream has been destroyed holds after the loop. -/
theorem adjustClosedLoop_rule {P : Session → Prop} {offset n : ℕ} (hs : P s)
    (hstep : ∀ {s s1 head next}, P s → s.closedStreams = head :: next →
      s.destroyStream head = .ok s1 →
      P { s1 with closedStreams := next, numClosedStreams := s1.numClosedStreams - 1 })
    (hres : adjustClosedLoop offset n s = .ok s') : P s' := by
  induction n generalizing s with
  | zero =>
    cases hres
    exact hs
  | succ n ih =>
    rw [adjustClosedLoop] at hres
    split_ifs at hres
    · split at hres
      · cases hres
      · next hclosed =>
        obtain ⟨s1, hdes, hres⟩ := bind_eq_ok.1 hres
        exact ih (hstep hs hclosed hdes) hres
    · cases hres
      exact hs

/-- The same for the loop that destroys idle streams. -/
theorem adjustIdleLoop_rule {P : Session → Prop} {n : ℕ} (hs : P s)
    (hstep : ∀ {s s1 head next}, P s → s.idleStreams = head :: next →
      s.destroyStream head = .ok s1 →
      P { s1 with idleStreams := next, numIdleStreams := s1.numIdleStreams - 1 })
    (hres : adjustIdleLoop n s = .ok s') : P s' := by
  induction n generalizing s with
  | zero =>
    cases hres
    exact hs
  | succ n ih =>
    rw [adjustIdleLoop] at hres
    split_ifs at hres
    · split at hres
      · cases hres
      · next hidle =>
        obtain ⟨s1, hdes, hres⟩ := bind_eq_ok.1 hres
        exact ih (hstep hs hidle hdes) hres
    · cases hres
      exact hs

/-- The calls of `openCall`, with what was checked before them. -/
inductive Starts (s : Session) : Event → OpenCall → Prop
  | recvHeaders {id : ℕ} {pri : PrioritySpec} (hnew : s.isNewPeerStreamId id = true)
      (hself : pri.streamId ≠ id) :
      Starts s (.recvHeaders id pri) ⟨{ s with lastRecvStreamId := id }, id, pri, .opening⟩
  | recvPriority {id : ℕ} {pri : PrioritySpec} (hid : id ≠ 0) (hself : pri.streamId ≠ id)
      (hserver : s.server = true) (hraw : s.getStreamRaw id = none)
      (hidle : s.detectIdleStream id = true) :
      Starts s (.recvPriority id pri) ⟨s, id, pri, .idle⟩
  | recvPushPromise {id promised : ℕ} (hmine : s.isMyStreamId id = true)
      (hnew : s.isNewPeerStreamId promised = true) :
      Starts s (.recvPushPromise id promised)
        ⟨{ s with lastRecvStreamId := promised }, promised, .dependsOn id, .reserved⟩
  | sendRequest {id : ℕ} {pri : PrioritySpec} (hid : id ∈ s.unsent) :
      Starts s (.sendRequest id pri) ⟨{ s with unsent := s.unsent.erase id }, id, pri, .initial⟩
  | sendPushPromise {id promised : ℕ} {pri : PrioritySpec} (hid : promised ∈ s.unsent) :
      Starts s (.sendPushPromise id promised)
        ⟨{ s with unsent := s.unsent.erase promised }, promised, pri, .reserved⟩
  | upgradeServer (hserver : s.server = true) (hlast : s.lastRecvStreamId = 0) :
      Starts s .upgrade ⟨{ s with lastRecvStreamId := 1 }, 1, .default, .opening⟩
  | upgradeClient (hserver : s.server = false) (hnext : s.nextStreamId = 1) :
      Starts s .upgrade ⟨{ s with nextStreamId := 3 }, 1, .default, .opening⟩

theorem starts_of_openCall {e : Event} {c : OpenCall} (hc : s.openCall e = some c) :
    s.Starts e c := by
  unfold openCall at hc
  split at hc
  case h_7 => cases hc
  all_goals
    split_ifs at hc with hcond
    all_goals cases hc
  · simp only [ne_eq, Bool.and_eq_true, decide_eq_true_eq] at hcond
    exact .recvHeaders hcond.1.1.1.1.2 hcond.1.2
  · simp only [ne_eq, Bool.and_eq_true, decide_eq_true_eq, Option.isNone_iff_eq_none] at hcond
    obtain ⟨⟨⟨⟨hid, hself⟩, hserver⟩, hraw⟩, hidle⟩ := hcond
    exact .recvPriority hid hself hserver hraw hidle
  · simp only [Bool.and_eq_true] at hcond
    exact .recvPushPromise hcond.1.1.2 hcond.1.2
  · exact .sendRequest hcond
  iterate 2
    · simp only [Bool.and_eq_true, decide_eq_true_eq] at hcond
      exact .sendPushPromise hcond.2
  · next hlast => exact .upgradeServer hcond hlast
  · next hnext => exact .upgradeClient (by simpa using hcond) hnext

/-- The upgrade from HTTP/1.1 takes stream 1 of the client. -/
theorem isNewPeerStreamId_one (hserver : s.server = true) (hlast : s.lastRecvStreamId = 0) :
    s.isNewPeerStreamId 1 = true := by
  simp [isNewPeerStreamId, isMyStreamId, hserver, hlast]

theorem settle_of_step {e : Event} (hc : s.openCall e = none) (hres : s.step e = .ok s') :
    s.settle e = .ok s' := by
  unfold step at hres
  rwa [hc] at hres

/-- An event that opens a stream; the upgrade from HTTP/1.1 shuts down one side of it. -/
theorem openStream_of_step {e : Event} {c : OpenCall} : s.openCall e = some c →
    s.step e = .ok s' → ∃ r, c.session.openStream c.id c.pri c.initialState = .ok r ∧
      s' = if e matches .upgrade then
        r.1.modifyInfo r.2 fun i =>
          { i with shutRd := i.shutRd || r.1.server, shutWr := i.shutWr || !r.1.server }
      else r.1 := by
  intro hc hres
  unfold step at hres
  rw [hc] at hres
  obtain ⟨r, hopen, hs'⟩ := exists_of_map_eq_ok hres
  exact ⟨r, hopen, hs'.symm⟩

theorem linkStream_cases {x d : Ptr} {exclusive : Bool}
    (hres : s.linkStream x d exclusive = .ok s') :
    s' = s ∨ s' = { s with tree := attachStream exclusive s.tree d x } := by
  unfold linkStream at hres
  split_ifs at hres
  · exact .inl (Except.ok.inj hres).symm
  · exact .inr (Except.ok.inj hres).symm

/-- The priority specification names an idle stream that does not exist, and the
session creates it. -/
def createsAnchor (s : Session) (pri : PrioritySpec) : Prop :=
  pri.streamId ≠ 0 ∧ s.getStreamRaw pri.streamId = none ∧ s.server = true ∧
    s.detectIdleStream pri.streamId = true

/-- Where the dependency of a stream comes from. -/
theorem resolveDep_cases {pri pri' : PrioritySpec} {d : Ptr}
    (hres : s.resolveDep pri = .ok (s', d, pri')) :
    (s.createsAnchor pri ∧ s.openAnchor pri.streamId = .ok (s', d) ∧ pri' = pri) ∨
      (¬ s.createsAnchor pri ∧ s' = s ∧ ((d = root ∧ pri'.streamId = 0) ∨
        (pri' = pri ∧ pri.streamId ≠ 0 ∧ s.getStreamRaw pri.streamId = some d ∧
          streamInDepTree s.tree.dep d = true))) := by
  have hpure : ∀ {s1 : Session} {d1 : Ptr} {pri1 : PrioritySpec},
      (pure (s1, d1, pri1) : Except Fault _) = .ok (s', d, pri') → s' = s1 ∧ d = d1 ∧ pri' = pri1 :=
    fun heq => by simpa [pure, Except.pure, eq_comm] using heq
  unfold resolveDep at hres
  by_cases hzero : pri.streamId = 0
  · rw [if_pos hzero] at hres
    obtain ⟨rfl, rfl, rfl⟩ := hpure hres
    exact Or.inr ⟨fun ha => ha.1 hzero, rfl, Or.inl ⟨rfl, hzero⟩⟩
  rw [if_neg hzero] at hres
  cases hraw : s.getStreamRaw pri.streamId with
  | some y =>
    have hnot : ¬ s.createsAnchor pri := fun ha => by simp [ha.2.1] at hraw
    simp only [hraw] at hres
    split_ifs at hres with hin
    · obtain ⟨rfl, rfl, rfl⟩ := hpure hres
      exact Or.inr ⟨hnot, rfl, Or.inr ⟨rfl, hzero, rfl, hin⟩⟩
    · obtain ⟨rfl, rfl, rfl⟩ := hpure hres
      exact Or.inr ⟨hnot, rfl, Or.inl ⟨rfl, rfl⟩⟩
  | none =>
    simp only [hraw] at hres
    split_ifs at hres with hidle
    · obtain ⟨⟨s1, d1⟩, hopen, hrest⟩ := bind_eq_ok.1 hres
      obtain ⟨rfl, rfl, rfl⟩ := hpure hrest
      rw [Bool.and_eq_true] at hidle
      exact Or.inl ⟨⟨hzero, hraw, hidle⟩, hopen, rfl⟩
    · obtain ⟨rfl, rfl, rfl⟩ := hpure hres
      refine Or.inr ⟨fun ha => hidle ?_, rfl, Or.inl ⟨rfl, rfl⟩⟩
      rw [Bool.and_eq_true]
      exact ha.2.2

theorem reprioritizeStream_cases {x : Ptr} {pri : PrioritySpec}
    (hres : s.reprioritizeStream x pri = .ok s') :
    s' = s ∨ ∃ s1 d pri' t, s.resolveDep pri = .ok (s1, d, pri') ∧
      moveBelow s1.tree x d pri' = .ok t ∧ s' = { s1 with tree := t } := by
  unfold reprioritizeStream at hres
  split_ifs at hres
  · exact .inl (Except.ok.inj hres).symm
  · obtain ⟨⟨s1, d, pri'⟩, hdep, hres⟩ := bind_eq_ok.1 hres
    dsimp only at hres
    split at hres
    · cases hres
    · obtain ⟨t, hmove, hres⟩ := bind_eq_ok.1 hres
      exact .inr ⟨s1, d, pri', t, hdep, hmove, (Except.ok.inj hres).symm⟩

end Session

end Nghttp2
