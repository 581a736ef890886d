/-
# Outbound items

The life of an `nghttp2_outbound_item`: the application or the library submits it, it
waits in one of the three queues `ob_urgent`, `ob_reg` and `ob_syn` or in the `item` field
of a stream, it is popped and prepared, sent as the active item `aob.item`, and freed.

* `Outbound` adds the queues and the contents of the items to the session;
* `addItem` and `submit` follow `nghttp2_session_add_item` and `nghttp2_submit.c`;
* `prepFrame` follows `session_prep_frame`, with what the application's callbacks and the
  compressor return as an argument (`Env`);
* `Outbound.step` has one event for each turn of `nghttp2_session_mem_send_internal`, for
  `session_after_frame_sent1` and `session_after_frame_sent2`, and for everything else
  that happens to the session.
-/
import Nghttp2.SessionRuns

namespace Nghttp2

/-! ## Items -/

/-- `nghttp2_headers_category`. -/
inductive HeadersCat
  | request
  | response
  | pushResponse
  | headers
deriving DecidableEq, Repr

/-- A HEADERS frame with its auxiliary data.  Of the header fields only the lengths of
names and values matter, and of the data provider whether there is one. -/
structure HeadersFrame where
  cat : HeadersCat
  pri : PrioritySpec
  nva : List (ℕ × ℕ)
  endStream : Bool
  dataPrd : Bool
  attachStream : Bool
  canceled : Bool

/-- A DATA frame with its auxiliary data: the flag END_STREAM that was asked for, the one
of the frame, and `eof`. -/
structure DataFrame where
  auxEndStream : Bool
  endStream : Bool
  eof : Bool

/-- The frame of an outbound item. -/
inductive Frame
  | data (f : DataFrame)
  | headers (f : HeadersFrame)
  | priority (pri : PrioritySpec)
  | rstStream
  | settings
  | pushPromise (promised : ℕ) (nva : List (ℕ × ℕ))
  | ping
  | goaway (lastStreamId : ℕ) (shutdownNotice termOnSend : Bool)
  | windowUpdate

/-- `nghttp2_outbound_item`: `frame.hd.stream_id`, and the rest of the frame. -/
structure OutboundItem where
  streamId : ℕ
  frame : Frame

/-- The non-fatal errors that sending can report. -/
inductive LibError
  | streamClosed
  | sessionClosing
  | streamShutWr
  | startStreamNotAllowed
  | streamClosing
  | invalidStreamId
  | invalidStreamState
  | proto
  | pushDisabled
  | dataExist
  | frameSize
  | headerComp
  | temporalCallbackFailure
deriving DecidableEq, Repr

/-- `nghttp2_outbound_state` of the active item. -/
inductive ObState
  | popItem
  | sendData
  | sendNoCopy
deriving DecidableEq, Repr

/-- The sending side of a session.  The items with addresses below `allocated` have been
allocated.  `sent` tells whether `session_after_frame_sent1` has run for the active
item; the library keeps this in its control flow.  `termOnSend`, `termSent` and
`goawayRecv` are bits of `goaway_flags`. -/
structure Outbound where
  session : Session
  item : ItemPtr → OutboundItem
  allocated : ℕ
  obUrgent : List ItemPtr
  obReg : List ItemPtr
  obSyn : List ItemPtr
  state : ObState
  sent : Bool
  termOnSend : Bool
  termSent : Bool
  goawayRecv : Bool
  localLastStreamId : ℕ

namespace Outbound

/-- All queued items. -/
def queues (o : Outbound) : List ItemPtr := o.obUrgent ++ o.obReg ++ o.obSyn

/-- `item->queued = b`. -/
def setQueued (o : Outbound) (i : ItemPtr) (b : Bool) : Outbound :=
  { o with session :=
    { o.session with items :=
      { o.session.items with queued := Function.update o.session.items.queued i b } } }

/-- `nghttp2_outbound_item_free` and `nghttp2_mem_free`. -/
def freeItem (o : Outbound) (i : ItemPtr) : Outbound :=
  { o with session :=
    { o.session with items :=
      { o.session.items with
        freed := Function.update o.session.items.freed i (o.session.items.freed i + 1) } } }

/-- `aob->item = i`. -/
def setAob (o : Outbound) (i : Option ItemPtr) : Outbound :=
  { o with session := { o.session with items := { o.session.items with aob := i } } }

/-- `active_outbound_item_reset`. -/
def activeOutboundItemReset (o : Outbound) : Outbound :=
  let o :=
    match o.session.items.aob with
    | none => o
    | some i => o.freeItem i
  { o.setAob none with state := .popItem, sent := false }

/-- `nghttp2_stream_detach_item`. -/
def detachItem (o : Outbound) (x : Ptr) : Outbound :=
  { o with session := { o.session with tree := streamDetachItem o.session.tree x } }

/-- Change the contents of an item. -/
def modifyFrame (o : Outbound) (i : ItemPtr) (f : Frame) : Outbound :=
  { o with item := Function.update o.item i { o.item i with frame := f } }

/-! ## Submitting -/

/-- The three queues. -/
inductive Queue
  | urgent
  | reg
  | syn

/-- `nghttp2_outbound_queue_push`, and `item->queued = 1`. -/
def push (o : Outbound) (q : Queue) (i : ItemPtr) : Outbound :=
  let o := o.setQueued i true
  match q with
  | .urgent => { o with obUrgent := o.obUrgent ++ [i] }
  | .reg => { o with obReg := o.obReg ++ [i] }
  | .syn => { o with obSyn := o.obSyn ++ [i] }

/-- `nghttp2_stream_attach_item`, unless the stream has an item. -/
def attach (o : Outbound) (x : Ptr) (i : ItemPtr) : Except LibError Outbound :=
  if (o.session.tree.sched.item x).isSome then .error .dataExist
  else .ok { o with session := { o.session with tree := streamAttachItem o.session.tree x i } }

/-- The state of an open stream. -/
def streamState (o : Outbound) (x : Ptr) : StreamState := (o.session.info x).state

/-- `nghttp2_session_add_item`. -/
def addItem (o : Outbound) (i : ItemPtr) : Except LibError Outbound :=
  let stream := o.session.getStream (o.item i).streamId
  match (o.item i).frame with
  | .data _ =>
    match stream with
    | none => .error .streamClosed
    | some x => o.attach x i
  | .headers f =>
    if f.cat = .request || stream.any fun x => o.streamState x = .reserved then .ok (o.push .syn i)
    else
      match stream with
      | some x => if f.attachStream then o.attach x i else .ok (o.push .reg i)
      | none => .ok (o.push .reg i)
  | .settings => .ok (o.push .urgent i)
  | .ping => .ok (o.push .urgent i)
  | .rstStream =>
    match stream with
    | some x =>
      let s := o.session.modifyInfo x fun info => { info with state := .closing }
      .ok ({ o with session := s }.push .reg i)
    | none => .ok (o.push .reg i)
  | _ => .ok (o.push .reg i)

/-- A new item is added, or freed at once if that fails: what all the submitting
functions do with their frame. -/
def submitItem (o : Outbound) (streamId : ℕ) (frame : Frame) : Outbound :=
  let i := o.allocated
  let o := { o with item := Function.update o.item i ⟨streamId, frame⟩, allocated := i + 1 }
  match o.addItem i with
  | .ok o => o
  | .error _ => o.freeItem i

/-- The request HEADERS in `ob_syn` that a RST_STREAM for the stream cancels. -/
def cancelable (o : Outbound) (id : ℕ) : Option (ItemPtr × HeadersFrame) :=
  if !o.session.server && o.session.isMyStreamId id && id < o.session.nextStreamId then
    -- ids in the queue grow, so that the search ends at the first one that is large enough
    match o.obSyn.find? fun i => id ≤ (o.item i).streamId with
    | some i =>
      match (o.item i).frame with
      | .headers f => if (o.item i).streamId = id && !f.canceled then some (i, f) else none
      | _ => none
    | none => none
  else none

/-- `nghttp2_session_add_rst_stream`. -/
def addRstStream (o : Outbound) (id : ℕ) : Outbound :=
  if (o.session.getStream id).any fun x => o.streamState x = .closing then o
  else
    match o.cancelable id with
    | some (i, f) => o.modifyFrame i (.headers { f with canceled := true })
    | none => o.submitItem id .rstStream

/-- `nghttp2_session_add_goaway`; the result is `none` for an invalid argument. -/
def addGoaway (o : Outbound) (lastStreamId : ℕ) (shutdownNotice termOnSend : Bool) :
    Option Outbound :=
  if o.session.isMyStreamId lastStreamId then none
  else
    -- the last stream id must not be increased from the value previously sent
    some (o.submitItem 0
      (.goaway (min lastStreamId o.localLastStreamId) shutdownNotice termOnSend))

/-- `session_terminate_session`. -/
def terminateSession (o : Outbound) (lastStreamId : ℕ) : Outbound :=
  if o.termOnSend then o
  else
    match o.addGoaway lastStreamId false true with
    | some o => { o with termOnSend := true }
    | none => o

/-- The next own stream id is taken for a frame. -/
def takeStreamId (o : Outbound) (frame : ℕ → ℕ × Frame) : Outbound :=
  let id := o.session.nextStreamId
  if id < 2 ^ 31 then
    let s := { o.session with nextStreamId := id + 2, unsent := o.session.unsent ++ [id] }
    let (streamId, frame) := frame id
    { o with session := s }.submitItem streamId frame
  else o

/-- `submit_headers_shared` for a stream that exists. -/
def submitHeadersShared (o : Outbound) (id : ℕ) (pri : PrioritySpec) (nva : List (ℕ × ℕ))
    (endStream dataPrd attachStream : Bool) : Outbound :=
  if id = 0 then o
  else o.submitItem id (.headers ⟨.headers, pri, nva, endStream, dataPrd, attachStream, false⟩)

/-- The frames that the application and the library submit.  SETTINGS and PING stand for
their acknowledgements too, and WINDOW_UPDATE for the automatic ones. -/
inductive Submission
  /-- `nghttp2_submit_request`, or `nghttp2_submit_headers` without a stream id. -/
  | request (pri : PrioritySpec) (nva : List (ℕ × ℕ)) (endStream dataPrd : Bool)
  /-- `nghttp2_submit_response`. -/
  | response (id : ℕ) (nva : List (ℕ × ℕ)) (dataPrd : Bool)
  /-- `nghttp2_submit_headers`, and `nghttp2_submit_trailer`. -/
  | headers (id : ℕ) (pri : PrioritySpec) (nva : List (ℕ × ℕ)) (endStream : Bool)
  /-- `nghttp2_submit_data`. -/
  | data (id : ℕ) (endStream : Bool)
  /-- `nghttp2_submit_priority`. -/
  | priority (id : ℕ) (pri : PrioritySpec)
  /-- `nghttp2_submit_rst_stream`. -/
  | rstStream (id : ℕ)
  /-- `nghttp2_submit_settings`. -/
  | settings
  /-- `nghttp2_submit_push_promise`. -/
  | pushPromise (id : ℕ) (nva : List (ℕ × ℕ))
  /-- `nghttp2_submit_ping`. -/
  | ping
  /-- `nghttp2_submit_goaway`. -/
  | goaway (lastStreamId : ℕ)
  /-- `nghttp2_submit_shutdown_notice`. -/
  | shutdownNotice
  /-- `nghttp2_session_terminate_session`. -/
  | terminate (lastStreamId : ℕ)
  /-- `nghttp2_submit_window_update`. -/
  | windowUpdate (id : ℕ)

/-- **A submission.** -/
def submit (o : Outbound) : Submission → Outbound
  | .request pri nva endStream dataPrd => o.takeStreamId fun id =>
      (id, .headers ⟨.request, pri, nva, endStream, dataPrd, false, false⟩)
  | .response id nva dataPrd => o.submitHeadersShared id .default nva (!dataPrd) dataPrd true
  | .headers id pri nva endStream => o.submitHeadersShared id pri nva endStream false false
  | .data id endStream => if id = 0 then o else o.submitItem id (.data ⟨endStream, false, false⟩)
  | .priority id pri =>
    if id = 0 || id = pri.streamId then o else o.submitItem id (.priority pri)
  | .rstStream id => if id = 0 then o else o.addRstStream id
  | .settings => o.submitItem 0 .settings
  | .pushPromise id nva =>
    if id = 0 || o.session.isMyStreamId id || !o.session.server then o
    else o.takeStreamId fun promised => (id, .pushPromise promised nva)
  | .ping => o.submitItem 0 .ping
  | .goaway lastStreamId =>
    if o.termOnSend then o else (o.addGoaway lastStreamId false false).getD o
  | .shutdownNotice =>
    if !o.session.server || o.termOnSend || o.termSent || o.goawayRecv ||
      o.session.goawaySent then o
    else (o.addGoaway (2 ^ 31 - 1) true false).getD o
  | .terminate lastStreamId => o.terminateSession lastStreamId
  | .windowUpdate id =>
    if id ≠ 0 && (o.session.getStream id).isNone then o else o.submitItem id .windowUpdate

/-- The submissions of a callback. -/
def submitAll (o : Outbound) (l : List Submission) : Outbound := l.foldl submit o

/-! ## The environment of a step -/

/-- What the `read_callback` of a DATA frame returns. -/
inductive ReadResult
  | deferred
  | temporalFailure
  | data (length : ℕ) (eof noEndStream noCopy : Bool)

/-- What a step does not find in the session: the connection window and the settings of
the peer, whether a frame can be packed, the results of callbacks, and the frames that the
application submits in callbacks. -/
structure Env where
  windowOpen : Bool
  remoteMaxConcurrentStreams : ℕ
  enablePush : Bool
  packs : Bool
  nextReadmax : ℕ
  read : ReadResult
  lastProcStreamId : ℕ
  onStreamClose : ℕ → List Submission
  onFrameSend : List Submission
  onFrameNotSend : List Submission

/-- `nghttp2_session_close_stream`. -/
def closeStream (env : Env) (o : Outbound) (id : ℕ) : Except Fault Outbound :=
  match o.session.getStream id with
  | none => pure o
  | some x => do
    let o := { o with session := o.session.releaseItem x }.submitAll (env.onStreamClose id)
    let s ← o.session.finishClose x id
    return { o with session := s }

/-- `nghttp2_session_close_stream_if_shut_rdwr`. -/
def closeStreamIfShutRdwr (env : Env) (o : Outbound) (x : Ptr) : Except Fault Outbound :=
  if (o.session.info x).shutRd && (o.session.info x).shutWr then
    o.closeStream env (o.session.streamId x)
  else pure o

/-- The ids of the streams that `session_close_stream_on_goaway` closes. -/
def goawayTargets (s : Session) (lastStreamId : ℕ) (incoming : Bool) : List ℕ :=
  ((s.streams.entries.filter fun x =>
      s.isMyStreamId (s.streamId x) ≠ incoming && (s.info x).state ≠ .idle &&
        !(s.info x).closed && lastStreamId < s.streamId x).map s.streamId).reverse

/-- `session_close_stream_on_goaway`. -/
def closeStreamOnGoaway (env : Env) (o : Outbound) (lastStreamId : ℕ) (incoming : Bool) :
    Except Fault Outbound :=
  (goawayTargets o.session lastStreamId incoming).foldlM (closeStream env) o

/-! ## Preparing a frame -/

/-- `session_predicate_for_stream_send`; `none` is success. -/
def predicateForStreamSend (o : Outbound) : Option Ptr → Option LibError
  | none => some .streamClosed
  | some x =>
    if o.termOnSend then some .sessionClosing
    else if (o.session.info x).shutWr then some .streamShutWr
    else none

/-- `session_predicate_request_headers_send`. -/
def predicateRequestHeadersSend (o : Outbound) (f : HeadersFrame) : Option LibError :=
  if f.canceled then some .streamClosing
  else if o.termOnSend || o.goawayRecv then some .startStreamNotAllowed
  else none

/-- The predicates that go on with the stream once `session_predicate_for_stream_send` has
succeeded. -/
def predicateThen (o : Outbound) (stream : Option Ptr) (check : Ptr → Option LibError) :
    Option LibError :=
  match o.predicateForStreamSend stream, stream with
  | some e, _ => some e
  | none, some x => check x
  | none, none => none

/-- `session_predicate_response_headers_send`. -/
def predicateResponseHeadersSend (o : Outbound) (stream : Option Ptr) : Option LibError :=
  o.predicateThen stream fun x =>
    if o.session.isMyStreamId (o.session.streamId x) then some .invalidStreamId
    else
      match o.streamState x with
      | .opening => none
      | .closing => some .streamClosing
      | _ => some .invalidStreamState

/-- `session_predicate_push_response_headers_send`. -/
def predicatePushResponseHeadersSend (o : Outbound) (stream : Option Ptr) : Option LibError :=
  o.predicateThen stream fun x => if o.streamState x ≠ .reserved then some .proto else none

/-- `session_predicate_headers_send`. -/
def predicateHeadersSend (o : Outbound) (stream : Option Ptr) : Option LibError :=
  o.predicateThen stream fun x =>
    if o.session.isMyStreamId (o.session.streamId x) then
      if o.streamState x = .closing then some .streamClosing else none
    else
      match o.streamState x with
      | .opened => none
      | .closing => some .streamClosing
      | _ => some .invalidStreamState

/-- `session_predicate_push_promise_send`. -/
def predicatePushPromiseSend (o : Outbound) (env : Env) (stream : Option Ptr) : Option LibError :=
  if !o.session.server then some .proto
  else
    o.predicateThen stream fun x =>
      if !env.enablePush then some .pushDisabled
      else if o.streamState x = .closing then some .streamClosing
      else if o.goawayRecv then some .startStreamNotAllowed
      else none

/-- `session_predicate_window_update_send`. -/
def predicateWindowUpdateSend (o : Outbound) (id : ℕ) : Option LibError :=
  if id = 0 then none
  else
    match o.session.getStream id with
    | none => some .streamClosed
    | some x =>
      if o.termOnSend then some .sessionClosing
      else if o.streamState x = .closing then some .streamClosing
      else if o.streamState x = .reserved && o.session.isMyStreamId (o.session.streamId x) then
        some .invalidStreamState
      else none

/-- `nghttp2_session_predicate_data_send`. -/
def predicateDataSend (o : Outbound) (stream : Option Ptr) : Option LibError :=
  o.predicateThen stream fun x =>
    if o.session.isMyStreamId (o.session.streamId x) then
      match o.streamState x with
      | .closing => some .streamClosing
      | .reserved => some .invalidStreamState
      | _ => none
    else
      match o.streamState x with
      | .opened => none
      | .closing => some .streamClosing
      | _ => some .invalidStreamState

/-- `session_estimate_headers_payload`, with `nghttp2_hd_deflate_bound`. -/
def estimateHeadersPayload (nva : List (ℕ × ℕ)) (additional : ℕ) : ℕ :=
  12 + 6 * 2 * nva.length + (nva.map fun nv => nv.1 + nv.2).sum + additional

/-- `NGHTTP2_MAX_HEADERSLEN`. -/
def maxHeaderslen : ℕ := 65536

/-- `NGHTTP2_PRIORITY_SPECLEN`. -/
def prioritySpeclen : ℕ := 5

/-- The results of `session_prep_frame`. -/
inductive PrepResult
  | ready
  | deferred
  | failed (e : LibError)
deriving DecidableEq

/-- Success, or the error of a predicate. -/
def PrepResult.ofPredicate : Option LibError → PrepResult
  | none => .ready
  | some e => .failed e

/-- `nghttp2_frame_pack_headers` and `nghttp2_frame_pack_push_promise`. -/
def packHeaders (env : Env) : PrepResult := if env.packs then .ready else .failed .headerComp

/-- `session_prep_frame` for request HEADERS, which open a stream. -/
def prepRequest (o : Outbound) (i : ItemPtr) (f : HeadersFrame) (env : Env) :
    Except Fault (Outbound × PrepResult) := do
  let s ← o.session.step (.sendRequest (o.item i).streamId f.pri)
  let o := { o with session := s }
  match o.predicateRequestHeadersSend f with
  | some e => return (o, .failed e)
  | none => return (o, packHeaders env)

/-- The category of HEADERS on a stream that exists, or why they cannot be sent. -/
def classifyHeaders (o : Outbound) (stream : Option Ptr) : Except LibError HeadersCat :=
  if o.predicatePushResponseHeadersSend stream = none then .ok .pushResponse
  else if o.predicateResponseHeadersSend stream = none then .ok .response
  else
    match o.predicateHeadersSend stream with
    | none => .ok .headers
    | some e => .error e

/-- The stream that carries the item gives it up; it may be closed already. -/
def detachFromRaw (o : Outbound) (i : ItemPtr) : Outbound :=
  match o.session.getStreamRaw (o.item i).streamId with
  | some x => if o.session.tree.sched.item x = some i then o.detachItem x else o
  | none => o

/-- `session_prep_frame` for HEADERS. -/
def prepHeaders (o : Outbound) (i : ItemPtr) (f : HeadersFrame) (env : Env) :
    Except Fault (Outbound × PrepResult) :=
  if estimateHeadersPayload f.nva prioritySpeclen > maxHeaderslen then
    pure (o, .failed .frameSize)
  else if f.cat = .request then o.prepRequest i f env
  else
    match o.classifyHeaders (o.session.getStream (o.item i).streamId) with
    | .ok cat => pure (o.modifyFrame i (.headers { f with cat := cat }), packHeaders env)
    | .error e =>
      pure ((o.modifyFrame i (.headers { f with cat := .headers })).detachFromRaw i, .failed e)

/-- `session_prep_frame` for PUSH_PROMISE, which opens the promised stream. -/
def prepPushPromise (o : Outbound) (i : ItemPtr) (promised : ℕ) (nva : List (ℕ × ℕ)) (env : Env) :
    Except Fault (Outbound × PrepResult) := do
  let stream := o.session.getStream (o.item i).streamId
  let s ← o.session.step (.sendPushPromise (o.item i).streamId promised)
  let o := { o with session := s }
  if estimateHeadersPayload nva 0 > maxHeaderslen then return (o, .failed .frameSize)
  else
    match o.predicatePushPromiseSend env stream with
    | some e => return (o, .failed e)
    | none => return (o, packHeaders env)

/-- `nghttp2_stream_defer_item`. -/
def deferItem (o : Outbound) (x : Ptr) (flags : DeferFlags) : Outbound :=
  { o with session := { o.session with tree := streamDeferItem o.session.tree x flags } }

/-- The end of `nghttp2_session_pack_data`: the flags of the frame are set, and the stream
is rescheduled. -/
def packData (o : Outbound) (i : ItemPtr) (x : Ptr) (f : DataFrame) (length : ℕ)
    (eof noEndStream : Bool) : Except Fault Outbound :=
  let o := o.modifyFrame i (.data
    { f with eof := f.eof || eof, endStream := eof && f.auxEndStream && !noEndStream })
  let t := o.session.tree.setLastWritelen x length
  if t.sched.queued x then
    pure { o with session := { o.session with tree := streamReschedule t x } }
  else throw .assertFailed

/-- `session_prep_frame` for DATA on the open stream `x`. -/
def prepDataOn (o : Outbound) (i : ItemPtr) (x : Ptr) (f : DataFrame) (env : Env) :
    Except Fault (Outbound × PrepResult) :=
  if env.nextReadmax = 0 then pure (o.deferItem x ⟨true, false⟩, .deferred)
  else
    match env.read with
    | .deferred => pure (o.deferItem x ⟨false, true⟩, .deferred)
    | .temporalFailure =>
      pure ((o.detachItem x).addRstStream (o.item i).streamId, .failed .temporalCallbackFailure)
    | .data length eof noEndStream _ => do
      let o ← o.packData i x f length eof noEndStream
      return (o, .ready)

/-- `session_prep_frame` for DATA. -/
def prepData (o : Outbound) (i : ItemPtr) (f : DataFrame) (env : Env) :
    Except Fault (Outbound × PrepResult) :=
  let stream := o.session.getStream (o.item i).streamId
  if stream.any fun x => o.session.tree.sched.item x ≠ some i then throw .assertFailed
  else
    match o.predicateDataSend stream, stream with
    | some e, _ =>
      match o.session.getStreamRaw (o.item i).streamId with
      | some x => pure (o.detachItem x, .failed e)
      | none => pure (o, .failed e)
    | none, some x => o.prepDataOn i x f env
    | none, none => throw .assertFailed

/-- **`session_prep_frame`.** -/
def prepFrame (o : Outbound) (i : ItemPtr) (env : Env) : Except Fault (Outbound × PrepResult) :=
  let closing : PrepResult := if o.termOnSend then .failed .sessionClosing else .ready
  match (o.item i).frame with
  | .headers f => o.prepHeaders i f env
  | .priority _ => pure (o, closing)
  | .rstStream => pure (o, closing)
  | .settings => pure (o, if env.packs then .ready else .failed .frameSize)
  | .pushPromise promised nva => o.prepPushPromise i promised nva env
  | .ping => pure (o, closing)
  | .windowUpdate => pure (o, .ofPredicate (o.predicateWindowUpdateSend (o.item i).streamId))
  | .goaway lastStreamId _ _ => pure ({ o with localLastStreamId := lastStreamId }, .ready)
  | .data f => o.prepData i f env

/-! ## Sending -/

/-- `nghttp2_session_pop_next_ob_item`. -/
def popNextObItem (o : Outbound) (env : Env) : Outbound × Option ItemPtr :=
  match o.obUrgent with
  | i :: l => ({ o with obUrgent := l }.setQueued i false, some i)
  | [] =>
    match o.obReg with
    | i :: l => ({ o with obReg := l }.setQueued i false, some i)
    | [] =>
      match if env.remoteMaxConcurrentStreams ≤ o.session.numOutgoingStreams then []
        else o.obSyn with
      | i :: l => ({ o with obSyn := l }.setQueued i false, some i)
      | [] => (o, if env.windowOpen then streamNextOutboundItem o.session.tree root else none)

/-- The stream that was opened by a frame that cannot be sent. -/
def openedStreamId (it : OutboundItem) : Option ℕ :=
  match it.frame with
  | .headers f => if f.cat = .request then some it.streamId else none
  | .pushPromise promised _ => some promised
  | _ => none

/-- The frames submitted in `on_frame_not_send_callback`, which is not called for DATA and
WINDOW_UPDATE. -/
def notSendCallback (env : Env) (f : Frame) : List Submission :=
  match f with
  | .data _ => []
  | .windowUpdate => []
  | _ => env.onFrameNotSend

/-- The stream that the frame has opened is closed. -/
def closeOpened (o : Outbound) (i : ItemPtr) (env : Env) : Except Fault Outbound :=
  match openedStreamId (o.item i) with
  | some id => o.closeStream env id
  | none => pure o

/-- The item could not be prepared: the callback is called, the stream it has opened is
closed, and the item is freed. -/
def prepFailed (o : Outbound) (i : ItemPtr) (e : LibError) (env : Env) : Except Fault Outbound := do
  let o ← (o.submitAll (notSendCallback env (o.item i).frame)).closeOpened i env
  let o := (o.freeItem i).activeOutboundItemReset
  return if e = .headerComp then o.terminateSession env.lastProcStreamId else o

/-- `aux_data.data.no_copy` of a frame that has just been packed. -/
def noCopy (env : Env) : Frame → Bool
  | .data _ =>
    match env.read with
    | .data _ _ _ noCopy => noCopy
    | _ => false
  | _ => false

/-- The frame is ready: it becomes the active item. -/
def activate (o : Outbound) (i : ItemPtr) (env : Env) : Outbound :=
  { o.setAob (some i) with
    state := if noCopy env (o.item i).frame then .sendNoCopy else .sendData
    sent := false }

/-- **NGHTTP2_OB_POP_ITEM**: the next item is popped and prepared. -/
def popItem (o : Outbound) (env : Env) : Except Fault Outbound :=
  match o.popNextObItem env with
  | (o, none) => pure o
  | (o, some i) => do
    let (o, r) ← o.prepFrame i env
    match r with
    | .deferred => return o.activeOutboundItemReset
    | .failed e => o.prepFailed i e env
    | .ready => return o.activate i env

/-- Change the session fields of a stream. -/
def modifyInfo (o : Outbound) (x : Ptr) (f : StreamInfo → StreamInfo) : Outbound :=
  { o with session := o.session.modifyInfo x f }

/-- The state of a stream after its HEADERS were sent. -/
def openAfterHeaders (o : Outbound) (x : Ptr) : HeadersCat → Outbound
  | .request => o.modifyInfo x fun info => { info with state := .opening }
  | .pushResponse =>
    let o := o.modifyInfo x fun info => { info with state := .opened, push := false }
    { o with session :=
      { o.session with numOutgoingStreams := o.session.numOutgoingStreams + 1 } }
  | .response => o.modifyInfo x fun info => { info with state := .opened }
  | .headers => o

/-- END_STREAM was sent, if the flag is set. -/
def shutWrIf (o : Outbound) (x : Ptr) (endStream : Bool) : Outbound :=
  if endStream then o.modifyInfo x fun info => { info with shutWr := true } else o

/-- `session_after_frame_sent1` for HEADERS. -/
def headersSent (o : Outbound) (i : ItemPtr) (f : HeadersFrame) (env : Env) :
    Except Fault Outbound :=
  match o.session.getStream (o.item i).streamId with
  | none => pure o
  | some x => do
    let o := if o.session.tree.sched.item x = some i then o.detachItem x else o
    let o := (o.openAfterHeaders x f.cat).shutWrIf x f.endStream
    let o ← o.closeStreamIfShutRdwr env x
    return if f.dataPrd then o.submit (.data (o.item i).streamId true) else o

/-- `session_after_frame_sent1` for DATA. -/
def dataSent (o : Outbound) (i : ItemPtr) (f : DataFrame) (env : Env) : Except Fault Outbound :=
  match o.session.getStream (o.item i).streamId with
  | none => pure (o.submitAll env.onFrameSend)
  | some x =>
    if f.eof then
      let o := (o.detachItem x).submitAll env.onFrameSend
      if f.endStream then (o.shutWrIf x true).closeStreamIfShutRdwr env x else pure o
    else pure (o.submitAll env.onFrameSend)

/-- **`session_after_frame_sent1`**, when the last part of the frame was sent. -/
def afterFrameSent1 (o : Outbound) (env : Env) : Except Fault Outbound :=
  match o.session.items.aob with
  | none => pure o
  | some i =>
    match (o.item i).frame with
    | .data f => o.dataSent i f env
    | .headers f => (o.submitAll env.onFrameSend).headersSent i f env
    | .priority pri => do
      let o := o.submitAll env.onFrameSend
      let s ← o.session.step (.sendPriority (o.item i).streamId pri)
      return { o with session := s }
    | .rstStream => (o.submitAll env.onFrameSend).closeStream env (o.item i).streamId
    | .goaway lastStreamId shutdownNotice termOnSend =>
      let o := o.submitAll env.onFrameSend
      if shutdownNotice then pure o
      else
        { o with
          session := { o.session with goawaySent := true }
          termSent := o.termSent || termOnSend }.closeStreamOnGoaway env lastStreamId true
    | _ => pure (o.submitAll env.onFrameSend)

/-- **`session_after_frame_sent2`**, when the last part of the frame was sent. -/
def afterFrameSent2 (o : Outbound) : Outbound :=
  match o.session.items.aob with
  | none => o
  | some i =>
    match (o.item i).frame with
    | .data f =>
      if f.eof then o.activeOutboundItemReset
      else
        let stream := o.session.getStream (o.item i).streamId
        match o.predicateDataSend stream, stream with
        | none, _ => (o.setAob none).activeOutboundItemReset
        | some _, some x => (o.detachItem x).activeOutboundItemReset
        | some _, none => o.activeOutboundItemReset
    | _ => o.activeOutboundItemReset

/-- What `send_data_callback` returns. -/
inductive SendDataResult
  | sent
  | wouldBlock
  | temporalFailure

/-- **NGHTTP2_OB_SEND_NO_COPY**: the application sends the payload of a DATA frame. -/
def sendNoCopy (o : Outbound) (env : Env) (r : SendDataResult) : Except Fault Outbound :=
  match o.session.items.aob with
  | none => pure o
  | some i =>
    match o.session.getStream (o.item i).streamId with
    | none => pure o.activeOutboundItemReset
    | some x =>
      match r with
      | .wouldBlock => pure o
      | .temporalFailure =>
        pure ((o.detachItem x).addRstStream (o.item i).streamId).activeOutboundItemReset
      | .sent => do
        let o ← o.afterFrameSent1 env
        return o.afterFrameSent2

/-! ## Events -/

/-- The events of the stream table that are not part of sending a frame. -/
def external : Session.Event → Bool
  | .recvHeaders _ _ => true
  | .recvPriority _ _ => true
  | .recvPushPromise _ _ => true
  | .upgrade => true
  | .setState _ _ => true
  | .shutdown _ _ _ => true
  | .fulfillPush _ => true
  | .setLimits _ _ => true
  | .setNextStreamId _ => true
  | .resumeDeferredItem _ _ => true
  | _ => false

/-- What happens to the sending side of a session. -/
inductive Event
  /-- The application or the library submits a frame. -/
  | submit (sub : Submission)
  /-- Something happens to the stream table. -/
  | session (e : Session.Event)
  /-- A stream is closed by the receiving side. -/
  | close (env : Env) (id : ℕ)
  /-- GOAWAY is received. -/
  | recvGoaway (env : Env) (lastStreamId : ℕ)
  /-- A turn of `nghttp2_session_mem_send_internal` without an active item. -/
  | popItem (env : Env)
  /-- The last part of the active frame was handed out. -/
  | frameSent1 (env : Env)
  /-- The active frame has been sent. -/
  | frameSent2
  /-- A turn of `nghttp2_session_mem_send_internal` that sends DATA without copying. -/
  | sendNoCopy (env : Env) (r : SendDataResult)

/-- **One event.** -/
def step (o : Outbound) : Event → Except Fault Outbound
  | .submit sub => pure (o.submit sub)
  | .session e =>
    if external e then (o.session.step e).map fun s => { o with session := s } else pure o
  | .close env id => o.closeStream env id
  | .recvGoaway env lastStreamId =>
    { o with goawayRecv := true }.closeStreamOnGoaway env lastStreamId false
  | .popItem env => if o.state = .popItem then o.popItem env else pure o
  | .frameSent1 env =>
    if o.state = .sendData then
      (o.afterFrameSent1 env).map fun o => { o with sent := true }
    else pure o
  | .frameSent2 => pure (if o.state = .sendData && o.sent then o.afterFrameSent2 else o)
  | .sendNoCopy env r => if o.state = .sendNoCopy then o.sendNoCopy env r else pure o

/-- **A run.** -/
def run (o : Outbound) (es : List Event) : Except Fault Outbound := es.foldlM step o

/-- The sending side of a new session. -/
def new (server : Bool) (maxConcurrent pendingMaxConcurrent maxReserved : ℕ) : Outbound where
  session := Session.new server maxConcurrent pendingMaxConcurrent maxReserved
  item := fun _ => ⟨0, .ping⟩
  allocated := 0
  obUrgent := []
  obReg := []
  obSyn := []
  state := .popItem
  sent := false
  termOnSend := false
  termSent := false
  goawayRecv := false
  localLastStreamId := 2 ^ 31 - 1

/-! ## What a submission can do -/

end Outbound

/-- The kind of a frame; preparing a frame, or cancelling it, does not change it. -/
inductive FrameKind
  | data
  | headers (request : Bool)
  | priority
  | rstStream
  | settings
  | pushPromise (promised : ℕ)
  | ping
  | goaway (lastStreamId : ℕ)
  | windowUpdate
deriving DecidableEq, Repr

/-- The kind of the frame of an item. -/
def OutboundItem.kind (it : OutboundItem) : FrameKind :=
  match it.frame with
  | .data _ => .data
  | .headers f => .headers (f.cat = .request)
  | .priority _ => .priority
  | .rstStream => .rstStream
  | .settings => .settings
  | .pushPromise promised _ => .pushPromise promised
  | .ping => .ping
  | .goaway lastStreamId _ _ => .goaway lastStreamId
  | .windowUpdate => .windowUpdate

/-- The stream id that the frame uses up when it is sent: the one of a request, or the one
that is promised. -/
def OutboundItem.opens (it : OutboundItem) : Option ℕ :=
  match it.kind with
  | .headers true => some it.streamId
  | .pushPromise promised => some promised
  | _ => none

namespace Outbound

/-- The kinds of frames that a queue holds. -/
def Fits (o : Outbound) (i : ItemPtr) : Queue → Prop
  | .urgent => (o.item i).kind = .settings ∨ (o.item i).kind = .ping
  | .reg => (o.item i).kind ≠ .headers true ∧ (o.item i).kind ≠ .data
  | .syn => ∃ b, (o.item i).kind = .headers b

/-- The frames that are attached to streams: DATA, and HEADERS that open no stream. -/
def Frame.attachable : Frame → Prop
  | .data _ => True
  | .headers f => f.cat ≠ .request
  | _ => False

variable {o o' : Outbound} {i : ItemPtr}

/-- Where `nghttp2_session_add_item` puts an item. -/
inductive Placed (o : Outbound) (i : ItemPtr) : Outbound → Prop
  | queue {q : Queue} : Fits o i q → Placed o i (o.push q i)
  | stream {x : Ptr} {o' : Outbound} : o.session.getStream (o.item i).streamId = some x →
      Frame.attachable (o.item i).frame → o.attach x i = .ok o' → Placed o i o'
  /-- RST_STREAM is queued, and its stream enters the state CLOSING. -/
  | closing {x : Ptr} : o.session.getStream (o.item i).streamId = some x →
      (o.item i).kind = .rstStream →
      Placed o i ({ o with session := o.session.modifyInfo x fun info =>
        { info with state := .closing } }.push .reg i)

theorem placed_of_addItem (h : o.addItem i = .ok o') : Placed o i o' := by
  have hqueue : ∀ {q}, (.ok (o.push q i) : Except LibError _) = .ok o' → Fits o i q →
      Placed o i o' := by
    intro q heq hfit
    cases heq
    exact .queue hfit
  unfold addItem at h
  dsimp only at h
  cases hframe : (o.item i).frame with
  | data f =>
    simp only [hframe] at h
    split at h
    · cases h
    · next x hget => exact .stream hget (by simp [Frame.attachable, hframe]) h
  | headers f =>
    simp only [hframe] at h
    split at h
    · exact hqueue h ⟨f.cat = .request, by simp [OutboundItem.kind, hframe]⟩
    · next hsyn =>
      simp only [Bool.or_eq_true, decide_eq_true_eq, not_or] at hsyn
      have hreg : Fits o i .reg := by simp [Fits, OutboundItem.kind, hframe, hsyn.1]
      split at h
      · next x hget =>
        split at h
        · exact .stream hget (by simpa [Frame.attachable, hframe] using hsyn.1) h
        · exact hqueue h hreg
      · exact hqueue h hreg
  | rstStream =>
    simp only [hframe] at h
    split at h
    · next x hget =>
      cases h
      exact .closing hget (by simp [OutboundItem.kind, hframe])
    · exact hqueue h (by simp [Fits, OutboundItem.kind, hframe])
  | settings | ping | priority | pushPromise | goaway | windowUpdate =>
    simp only [hframe] at h
    exact hqueue h (by simp [Fits, OutboundItem.kind, hframe])

theorem Fits.ne_data {q : Queue} (h : Fits o i q) (f : DataFrame) : (o.item i).frame ≠ .data f := by
  intro hf
  cases q
  all_goals simp [Fits, OutboundItem.kind, hf] at h

theorem kind_of_attachable (h : Frame.attachable (o.item i).frame) :
    (o.item i).kind = .data ∨ (o.item i).kind = .headers false := by
  unfold Frame.attachable at h
  split at h
  · next hf => exact .inl (by simp [OutboundItem.kind, hf])
  · next hf => exact .inr (by simp [OutboundItem.kind, hf, h])
  · cases h

theorem frame_of_cancelable {id : ℕ} {f : HeadersFrame} (h : o.cancelable id = some (i, f)) :
    i ∈ o.obSyn ∧ (o.item i).streamId = id ∧ (o.item i).frame = .headers f ∧
    f.canceled = false := by
  unfold Outbound.cancelable at h
  split_ifs at h
  split at h
  · next j hj =>
    have hmem := List.mem_of_find?_eq_some hj
    split at h
    · next g hg =>
      split_ifs at h with hcond
      cases h
      simp only [Bool.and_eq_true, decide_eq_true_eq, Bool.not_eq_true'] at hcond
      exact ⟨hmem, hcond.1, hg, hcond.2⟩
    · cases h
  · cases h

/-- The last stream id of the GOAWAY that is asked for. -/
def Submission.goawayId : Submission → Option ℕ
  | .goaway n => some n
  | .shutdownNotice => some (2 ^ 31 - 1)
  | .terminate n => some n
  | _ => none

/-- The stream of HEADERS that are no request. -/
def Submission.headersId : Submission → Option ℕ
  | .response id _ _ => some id
  | .headers id _ _ _ => some id
  | _ => none

/-- The submission asks for the frame, if it is RST_STREAM, GOAWAY or HEADERS that are no request.
  The last stream id of a GOAWAY is not increased. -/
def Asks (o : Outbound) (sub : Submission) (it : OutboundItem) : Prop :=
  match it.kind with
  | .rstStream => sub = .rstStream it.streamId
  | .goaway n => ∃ m, sub.goawayId = some m ∧ n = min m o.localLastStreamId
  | .headers false => sub.headersId = some it.streamId
  | _ => True

/-- What a submission does to the sending side. -/
inductive Submitted (o : Outbound) (sub : Submission) : Outbound → Prop
  | same : Submitted o sub o
  /-- A frame that opens no stream is submitted. -/
  | item {streamId : ℕ} {frame : Frame} : OutboundItem.opens ⟨streamId, frame⟩ = none →
      o.Asks sub ⟨streamId, frame⟩ → Submitted o sub (o.submitItem streamId frame)
  | cancel {id : ℕ} {i : ItemPtr} {f : HeadersFrame} : o.cancelable id = some (i, f) →
      Submitted o sub (o.modifyFrame i (.headers { f with canceled := true }))
  | take {frame : ℕ → ℕ × Frame} :
      (∀ id, OutboundItem.opens ⟨(frame id).1, (frame id).2⟩ = some id) →
      Submitted o sub (o.takeStreamId frame)
  | terminate {n : ℕ} : o.Asks sub ⟨0, .goaway n false true⟩ →
      Submitted o sub { o.submitItem 0 (.goaway n false true) with termOnSend := true }

theorem addRstStream_submitted (o : Outbound) (id : ℕ) :
    Submitted o (.rstStream id) (o.addRstStream id) := by
  unfold addRstStream
  split_ifs
  · exact .same
  · split
    · next hc => exact .cancel hc
    · exact .item rfl rfl

theorem terminateSession_submitted (o : Outbound) (n : ℕ) :
    Submitted o (.terminate n) (o.terminateSession n) := by
  unfold terminateSession addGoaway
  split_ifs
  · exact .same
  · exact .same
  · exact .terminate ⟨n, rfl, rfl⟩

/-- **A submission.** -/
theorem submit_submitted (o : Outbound) (sub : Submission) : Submitted o sub (o.submit sub) := by
  have hgoaway : ∀ n a b, sub.goawayId = some n → Submitted o sub ((o.addGoaway n a b).getD o) := by
    intro n a b hid
    unfold addGoaway
    split_ifs
    · exact .same
    · exact .item rfl ⟨n, hid, rfl⟩
  cases sub with
  | request =>
    simp only [submit]
    exact .take fun _ => rfl
  | settings | ping => exact .item rfl trivial
  | terminate n => exact terminateSession_submitted o n
  | response | headers =>
    simp only [submit, submitHeadersShared]
    split_ifs
    · exact .same
    · exact .item rfl rfl
  | data | priority | windowUpdate =>
    simp only [submit]
    split_ifs
    · exact .same
    · exact .item rfl trivial
  | rstStream =>
    simp only [submit]
    split_ifs
    · exact .same
    · exact addRstStream_submitted ..
  | pushPromise =>
    simp only [submit]
    split_ifs
    · exact .same
    · exact .take fun _ => rfl
  | goaway | shutdownNotice =>
    simp only [submit]
    split_ifs
    · exact .same
    · exact hgoaway _ _ _ rfl

end Outbound

end Nghttp2
