/-
# Receiving frames

`nghttp2_session_mem_recv` takes the bytes that have come from the peer, in pieces of any
size, and cuts them into frames.  Its state between two calls is `session->iframe`.  What
a frame means is the business of other functions; here they are the calls of a `Handler`,
which answers them and keeps the rest of the session in its own state.

* `Receiver`: the inbound frame, the inflater and the state of the handler, with a log of
  the calls;
* `inflateHeaderBlock`: `inflate_header_block`;
* `step`: one turn of the loop of `nghttp2_session_mem_recv`, and `memRecv` the loop.

The client magic, which comes before the first frame of a client, is not modelled; nor are
the fatal errors of callbacks and of memory.
-/
import Nghttp2.FrameFormat
import Nghttp2.InflateSafe

namespace Nghttp2.Inbound

open Format
open BigEndian (getBe)
open Hd (Bytes Emitted Inflater GoodInflater)

/-! ## The interface -/

/-- The error codes that are used while a frame is read. -/
inductive ErrorCode
  | protocolError
  | internalError
  | frameSizeError
  | compressionError
deriving DecidableEq, Repr

/-- The calls that `nghttp2_session_mem_recv` makes.  `headers` and `pushPromise` are
`session_process_headers_frame` and `session_process_push_promise_frame`, `frame` stands for
the same function of PRIORITY, RST_STREAM, PING and WINDOW_UPDATE; `header` is
`nghttp2_http_on_header` and the callback for a field. -/
inductive Call
  | beginFrame (hd : FrameHd)
  | terminate (code : ErrorCode) (reason : Option String)
  | rstStream (id : ℕ) (code : ErrorCode)
  | headers (hd : FrameHd) (fields : Bytes)
  | pushPromise (hd : FrameHd) (fields : Bytes)
  | frame (hd : FrameHd) (payload : Bytes)
  | settings (hd : FrameHd) (iv : List SettingsEntry) (least : SettingsEntry)
  | goaway (hd : FrameHd) (fields debug : Bytes)
  | header (hd : FrameHd) (em : Emitted)
  | afterHeaderBlock (hd : FrameHd)
  | dataFailFast (hd : FrameHd)
  | recvConnection (n : ℕ)
  | recvStream (id n : ℕ) (send : Bool)
  | consume (id n : ℕ)
  | consumeConnection (n : ℕ)
  | httpData (id n : ℕ)
  | dataChunk (hd : FrameHd) (data : Bytes)
  | data (hd : FrameHd)
deriving DecidableEq, Repr

/-- What is answered to a call: `ignore` is `NGHTTP2_ERR_IGN_HEADER_BLOCK`,
`NGHTTP2_ERR_IGN_PAYLOAD` or `NGHTTP2_ERR_IGN_HTTP_HEADER`, and `temporal` is
`NGHTTP2_ERR_TEMPORAL_CALLBACK_FAILURE` or a violation of HTTP messaging. -/
inductive Answer
  | ok
  | ignore
  | temporal
deriving DecidableEq, Repr

/-- The rest of the session, with the state `σ`. -/
structure Handler (σ : Type) where
  /-- `local_settings.max_frame_size`. -/
  maxFrameSize : σ → ℕ
  /-- `NGHTTP2_OPTMASK_NO_AUTO_WINDOW_UPDATE` is set. -/
  noAutoWindowUpdate : Bool
  /-- `nghttp2_session_get_stream` finds the stream. -/
  hasStream : σ → ℕ → Bool
  /-- The header table size that the SETTINGS ACK just processed makes valid. -/
  tableSize : σ → Option ℕ
  answer : Call → σ → Answer × σ
  /-- The callback that has been called last, for a field or for DATA, returns
  `NGHTTP2_ERR_PAUSE`. -/
  pause : List Call → Bool

/-! ## The receiver -/

/-- `nghttp2_inbound_state`, but for the client magic. -/
inductive IbState
  | readFirstSettings
  | readHead
  | readNbyte
  | readHeaderBlock
  | ignHeaderBlock
  | ignPayload
  | frameSizeError
  | readSettings
  | readGoawayDebug
  | expectContinuation
  | ignContinuation
  | readPadData
  | readData
  | ignData
  | ignAll
deriving DecidableEq, Repr

/-- `nghttp2_inbound_frame`, with the inflater, the state of the handler, the log of the
calls and the bytes that the inflater has taken.  `sbuf` has room up to `mark`. -/
structure Receiver (σ : Type) where
  state : IbState
  hd : FrameHd
  promised : ℕ
  sbuf : Bytes
  mark : ℕ
  lbuf : Bytes
  iv : List SettingsEntry
  least : SettingsEntry
  payloadleft : ℕ
  padlen : ℕ
  inflater : GoodInflater
  env : σ
  log : List Call
  inflated : Bytes

variable {σ : Type}

namespace Receiver

/-- `session_inbound_frame_reset`. -/
def reset (r : Receiver σ) : Receiver σ :=
  { r with
    state := .readHead, hd := ⟨0, 0, 0, 0⟩, promised := 0, sbuf := [], mark := frameHdlen,
    lbuf := [], iv := [], least := ⟨1, 2 ^ 32 - 1⟩, payloadleft := 0, padlen := 0 }

/-- `inbound_frame_set_mark`. -/
def setMark (r : Receiver σ) (left : ℕ) : Receiver σ := { r with sbuf := [], mark := left }

/-- `nghttp2_buf_mark_avail`. -/
def markAvail (r : Receiver σ) : ℕ := r.mark - r.sbuf.length

/-- `inbound_frame_buf_read`, with what is left of the input. -/
def bufRead (r : Receiver σ) (inp : Bytes) : Receiver σ × Bytes :=
  ({ r with sbuf := r.sbuf ++ inp.take r.markAvail }, inp.drop r.markAvail)

/-- `inbound_frame_payload_readlen`. -/
def payloadReadlen (r : Receiver σ) (inp : Bytes) : ℕ := min inp.length r.payloadleft

/-- `iframe->payloadleft -= readlen`. -/
def advance (r : Receiver σ) (n : ℕ) : Receiver σ := { r with payloadleft := r.payloadleft - n }

/-- The type of the frame. -/
def type (r : Receiver σ) : Option FrameType :=
  [FrameType.data, .headers, .priority, .rstStream, .settings, .pushPromise, .ping, .goaway,
    .windowUpdate, .continuation].find? fun t => t.code = r.hd.type

/-- A flag of the frame. -/
def flag (r : Receiver σ) (f : UInt8) : Bool := hasFlag r.hd.flags f

/-- `iframe->frame.hd.flags &= mask`. -/
def maskFlags (r : Receiver σ) (mask : UInt8) : Receiver σ :=
  { r with hd := { r.hd with flags := r.hd.flags &&& mask } }

/-- The stream that a header block is about. -/
def subject (r : Receiver σ) : ℕ :=
  if r.hd.type = FrameType.pushPromise.code then r.promised else r.hd.streamId

/-- The trailing padding of the frame. -/
def trail (r : Receiver σ) : ℕ := trailPadlen r.hd r.padlen

/-- Ask the handler. -/
def call (H : Handler σ) (c : Call) (r : Receiver σ) : Answer × Receiver σ :=
  ((H.answer c r.env).1, { r with env := (H.answer c r.env).2, log := r.log ++ [c] })

/-- Ask the handler, whatever it answers. -/
def tell (H : Handler σ) (c : Call) (r : Receiver σ) : Receiver σ := (r.call H c).2

/-- `nghttp2_session_terminate_session_with_reason`. -/
def terminate (H : Handler σ) (code : ErrorCode) (reason : String) (r : Receiver σ) : Receiver σ :=
  r.tell H (.terminate code (some reason))

end Receiver

open Receiver

/-- `NGHTTP2_FLAG_END_STREAM`. -/
def flagEndStream : UInt8 := 0x1

/-- `NGHTTP2_FLAG_ACK`. -/
def flagAck : UInt8 := 0x1

/-! ## The header of a frame -/

/-- What is left when the header of a frame has been looked at: whether the loop is busy,
and whether `on_begin_frame_callback` has been called. -/
structure Begun (σ : Type) where
  r : Receiver σ
  busy : Bool
  called : Bool

/-- `inbound_frame_handle_pad` fails. -/
def padMissing (r : Receiver σ) : Bool := r.flag flagPadded && decide (r.hd.length < 1)

/-- The frame is processed by the call `c`, which says what is done with its header block;
`id` is the stream to reset if that fails. -/
def startBlock (H : Handler σ) (c : Call) (id : ℕ) (r : Receiver σ) : Receiver σ :=
  match r.call H c with
  | (.ok, r) => { r with state := .readHeaderBlock }
  | (.ignore, r) => { r with state := .ignHeaderBlock }
  | (.temporal, r) => { r.tell H (.rstStream id .internalError) with state := .ignHeaderBlock }

/-- `session_process_headers_frame` and what follows on its answer. -/
def processHeaders (H : Handler σ) (r : Receiver σ) : Receiver σ :=
  startBlock H (.headers r.hd r.sbuf) r.hd.streamId r

/-- `session_process_push_promise_frame` and what follows on its answer. -/
def processPushPromise (H : Handler σ) (r : Receiver σ) : Receiver σ :=
  let r := { r with promised := getBe (r.sbuf.take 4) % 2 ^ 31 }
  startBlock H (.pushPromise r.hd r.sbuf) r.promised r

/-- `case NGHTTP2_DATA`. -/
def beginData (H : Handler σ) (r : Receiver σ) : Begun σ :=
  let r := r.maskFlags (flagEndStream ||| flagPadded)
  match r.call H (.dataFailFast r.hd) with
  | (.ok, r) =>
    if padMissing r then
      ⟨{ r with state := .ignData }.terminate H .protocolError "DATA: insufficient padding space",
        true, false⟩
    else if r.flag flagPadded then
      ⟨{ r.setMark 1 with state := .readPadData }, true, false⟩
    else ⟨{ r with state := .readData }, true, false⟩
  | (_, r) => ⟨{ r with state := .ignData }, true, false⟩

/-- `case NGHTTP2_HEADERS`. -/
def beginHeaders (H : Handler σ) (r : Receiver σ) : Begun σ :=
  let r := r.maskFlags (flagEndStream ||| flagEndHeaders ||| flagPadded ||| flagPriority)
  if padMissing r then
    ⟨{ r with state := .ignPayload }.terminate H .protocolError
      "HEADERS: insufficient padding space", true, false⟩
  else if r.flag flagPadded then
    ⟨{ r.setMark 1 with state := .readNbyte }, false, false⟩
  else if 0 < priorityLen r.hd.flags then
    if r.payloadleft < priorityLen r.hd.flags then
      ⟨{ r with state := .frameSizeError }, true, false⟩
    else ⟨{ r with state := .readNbyte }.setMark (priorityLen r.hd.flags), false, false⟩
  else
    -- `sbuf` still holds the header of the frame; it is not looked at without PRIORITY
    ⟨processHeaders H (r.tell H (.beginFrame r.hd)), true, true⟩

/-- `case NGHTTP2_PUSH_PROMISE`. -/
def beginPushPromise (H : Handler σ) (r : Receiver σ) : Begun σ :=
  let r := r.maskFlags (flagEndHeaders ||| flagPadded)
  if padMissing r then
    ⟨{ r with state := .ignPayload }.terminate H .protocolError
      "PUSH_PROMISE: insufficient padding space", true, false⟩
  else if r.flag flagPadded then
    ⟨{ r.setMark 1 with state := .readNbyte }, false, false⟩
  else if r.payloadleft < 4 then ⟨{ r with state := .frameSizeError }, true, false⟩
  else ⟨{ r with state := .readNbyte }.setMark 4, false, false⟩

/-- `case NGHTTP2_SETTINGS`. -/
def beginSettings (r : Receiver σ) : Begun σ :=
  let r := r.maskFlags flagAck
  if r.hd.length % 6 ≠ 0 ∨ (r.flag flagAck = true ∧ 0 < r.payloadleft) then
    ⟨{ r with state := .frameSizeError }, true, false⟩
  else if 0 < r.payloadleft then
    ⟨{ r with state := .readSettings }.setMark 6, false, false⟩
  else ⟨{ r with state := .readSettings }.setMark 0, true, false⟩

/-- The frames whose payload, of a fixed size or its first `n` bytes, is read at once. -/
def beginFixed (r : Receiver σ) (n : ℕ) (good : Bool) (mask : UInt8) : Begun σ :=
  let r := r.maskFlags mask
  if good then ⟨{ r with state := .readNbyte }.setMark n, false, false⟩
  else ⟨{ r with state := .frameSizeError }, true, false⟩

/-- The switch on the type of the frame. -/
def beginType (H : Handler σ) (r : Receiver σ) : Begun σ :=
  match r.type with
  | some .data => beginData H r
  | some .headers => beginHeaders H r
  | some .priority => beginFixed r 5 (r.payloadleft == 5) 0
  | some .rstStream => beginFixed r 4 (r.payloadleft == 4) 0
  | some .windowUpdate => beginFixed r 4 (r.payloadleft == 4) 0
  | some .settings => beginSettings r
  | some .pushPromise => beginPushPromise H r
  | some .ping => beginFixed r 8 (r.payloadleft == 8) flagAck
  | some .goaway => beginFixed r 8 (decide (8 ≤ r.payloadleft)) 0
  | some .continuation =>
    ⟨{ r.terminate H .protocolError "CONTINUATION: unexpected" with state := .ignPayload },
      true, false⟩
  | none => ⟨{ r with state := .ignPayload }, true, false⟩

/-- The states in which `on_begin_frame_callback` is not called for a frame. -/
def IbState.skipsBegin : IbState → Bool
  | .ignHeaderBlock | .ignPayload | .frameSizeError | .ignData => true
  | _ => false

/-! ## One turn of the loop -/

/-- How a turn of the loop ends: the loop goes on with the rest of the input, unless there
is none and it is not busy; or the function returns, perhaps because a callback pauses. -/
inductive Turn (σ : Type)
  | next (r : Receiver σ) (rest : Bytes) (busy : Bool)
  | ret (r : Receiver σ) (rest : Bytes)
  | pause (r : Receiver σ) (rest : Bytes)

/-- `case NGHTTP2_IB_READ_HEAD`, when the header of the frame is complete. -/
def headRead (H : Handler σ) (r : Receiver σ) (rest : Bytes) : Turn σ :=
  let hd := unpackFrameHd r.sbuf
  let r := { r with hd, payloadleft := hd.length }
  if hd.length > H.maxFrameSize r.env then
    .next ({ r with state := .ignPayload }.terminate H .frameSizeError "too large frame size")
      rest true
  else
    let b := beginType H r
    if b.called || b.r.state.skipsBegin then .next b.r rest b.busy
    else .next (b.r.tell H (.beginFrame b.r.hd)) rest b.busy

/-- `case NGHTTP2_IB_READ_HEAD`. -/
def readHead (H : Handler σ) (r : Receiver σ) (inp : Bytes) : Turn σ :=
  let (r, rest) := r.bufRead inp
  if 0 < r.markAvail then .ret r rest else headRead H r rest

/-- `case NGHTTP2_IB_READ_FIRST_SETTINGS`, when the header of the frame is complete: if it is
that of SETTINGS, the loop goes on as in `NGHTTP2_IB_READ_HEAD`. -/
def firstRead (H : Handler σ) (r : Receiver σ) (rest : Bytes) : Turn σ :=
  if r.sbuf.getD 3 0 ≠ FrameType.settings.code ∨ hasFlag (r.sbuf.getD 4 0) flagAck = true then
    .ret ({ r with state := .ignAll }.terminate H .protocolError "SETTINGS expected") []
  else headRead H { r with state := .readHead } rest

/-- `case NGHTTP2_IB_READ_FIRST_SETTINGS`. -/
def readFirstSettings (H : Handler σ) (r : Receiver σ) (inp : Bytes) : Turn σ :=
  let (r, rest) := r.bufRead inp
  if 0 < r.markAvail then .ret r rest else firstRead H r rest

/-- `inbound_frame_compute_pad`. -/
def computePad (r : Receiver σ) : Option (Receiver σ) :=
  let padlen := (r.sbuf.getD 0 0).toNat + 1
  if padlen - 1 > r.payloadleft then none else some { r with padlen }

/-- `case NGHTTP2_IB_READ_NBYTE`, when as many bytes have been read as were wanted. -/
def gotNbyte (H : Handler σ) (r : Receiver σ) : Receiver σ × Bool :=
  match r.type with
  | some .headers =>
    if r.padlen = 0 ∧ r.flag flagPadded = true then
      match computePad r with
      | none =>
        ({ r.terminate H .protocolError "HEADERS: invalid padding" with state := .ignPayload },
        true)
      | some r =>
        if 0 < priorityLen r.hd.flags then
          if r.payloadleft < priorityLen r.hd.flags then ({ r with state := .frameSizeError }, true)
          else ({ r with state := .readNbyte }.setMark (priorityLen r.hd.flags), false)
        else (processHeaders H (r.setMark 0), true)
    else (processHeaders H r, true)
  | some .pushPromise =>
    if r.padlen = 0 ∧ r.flag flagPadded = true then
      match computePad r with
      | none =>
        ({ r.terminate H .protocolError "PUSH_PROMISE: invalid padding" with state := .ignPayload },
          true)
      | some r =>
        if r.payloadleft < 4 then ({ r with state := .frameSizeError }, true)
        else ({ r with state := .readNbyte }.setMark 4, false)
    else (processPushPromise H r, true)
  | some .goaway => ({ r with state := .readGoawayDebug }, true)
  | some .priority | some .rstStream | some .ping | some .windowUpdate =>
    ((r.tell H (.frame r.hd r.sbuf)).reset, false)
  | _ => (r.reset, false)

/-- `case NGHTTP2_IB_READ_NBYTE`. -/
def readNbyte (H : Handler σ) (r : Receiver σ) (inp : Bytes) : Turn σ :=
  let readlen := min inp.length r.markAvail
  let (r, rest) := r.bufRead inp
  let r := r.advance readlen
  if 0 < r.markAvail then .ret r rest
  else
    let (r, busy) := gotNbyte H r
    .next r rest busy

/-! ### Header blocks -/

/-- What `inflate_header_block` returns, with the input that is not processed. -/
inductive BlockResult (σ : Type)
  | ok (r : Receiver σ)
  | pause (r : Receiver σ) (rest : Bytes)
  | temporal (r : Receiver σ) (rest : Bytes)
  | headerComp (r : Receiver σ)

/-- The inflater has read the input up to `rest`. -/
def Receiver.inflate (r : Receiver σ) (i : GoodInflater) (inp rest : Bytes) : Receiver σ :=
  { r with
    inflater := i, inflated := r.inflated ++ inp.take (inp.length - rest.length) }

/-- The header block cannot be decoded. -/
def compressionFailed (H : Handler σ) (r : Receiver σ) : Receiver σ :=
  let r := if r.state = .readHeaderBlock then
      r.tell H (.rstStream r.subject .compressionError) else r
  r.tell H (.terminate .compressionError none)

/-- How a turn of the loop of `inflate_header_block` ends. -/
inductive BlockTurn (σ : Type)
  | stop (q : BlockResult σ)
  | again (r : Receiver σ) (rest : Bytes)

/-- A field has been emitted; `cb` is `call_header_cb`. -/
def headerTurn (H : Handler σ) (cb : Bool) (em : Emitted) (r : Receiver σ) (rest : Bytes) :
    BlockTurn σ :=
  if cb then
    match r.call H (.header r.hd em) with
    | (.temporal, r) => .stop (.temporal r rest)
    | (.ignore, r) => .again r rest
    | (.ok, r) => if H.pause r.log then .stop (.pause r rest) else .again r rest
  else .again r rest

/-- A turn of the loop of `inflate_header_block`. -/
def inflateTurn (H : Handler σ) (final cb : Bool) (r : Receiver σ) (inp : Bytes) : BlockTurn σ :=
  let i := r.inflater.call (.inflateHd2 inp final)
  match r.inflater.1.inflateHd2 inp final with
  | .error _ _ => .stop (.headerComp (compressionFailed H { r with inflater := i }))
  | .emit _ rest em => headerTurn H cb em (r.inflate i inp rest) rest
  | .final _ rest => .stop (.ok (r.inflate (i.call .endHeaders) inp rest))
  | .more _ rest =>
    if rest = [] then .stop (.ok (r.inflate i inp rest)) else .again (r.inflate i inp rest) rest

/-- The loop of `inflate_header_block`; `none` if it takes more turns. -/
def blockLoop (H : Handler σ) (final cb : Bool) : ℕ → Receiver σ → Bytes → Option (BlockResult σ)
  | 0, _, _ => none
  | fuel + 1, r, inp =>
    match inflateTurn H final cb r inp with
    | .stop q => some q
    | .again r rest => blockLoop H final cb fuel r rest

theorem rest_of_headerTurn {H : Handler σ} {cb : Bool} {em : Emitted} {r r' : Receiver σ}
    {rest rest' : Bytes} (h : headerTurn H cb em r rest = .again r' rest') : rest' = rest := by
  unfold headerTurn at h
  split_ifs at h
  · split at h
    · cases h
    · cases h
      rfl
    · split_ifs at h
      cases h
      rfl
  · cases h
    rfl

/-- Another turn follows only if the inflater has read something. -/
theorem length_lt_of_again {H : Handler σ} {final cb : Bool} {r r' : Receiver σ}
    {inp rest : Bytes} (h : inflateTurn H final cb r inp = .again r' rest) :
    rest.length < inp.length := by
  have hcall := r.inflater.2.inflateHd2 inp final
  unfold inflateTurn at h
  cases hres : r.inflater.1.inflateHd2 inp final with
  | emit i rest' em =>
    rw [hres] at h hcall
    obtain ⟨used, hne, rfl⟩ := hcall
    have hpos := List.length_pos_iff.2 hne
    rw [rest_of_headerTurn h, List.length_append]
    omega
  | final i rest' =>
    rw [hres] at h
    cases h
  | more i rest' =>
    rw [hres] at h hcall
    dsimp only at h
    rw [if_pos hcall] at h
    cases h
  | error i e =>
    rw [hres] at h
    cases h

/-- **The loop ends**: it takes no more turns than there are bytes, and one. -/
theorem blockLoop_isSome (H : Handler σ) (final cb : Bool) {fuel : ℕ} (r : Receiver σ)
    {inp : Bytes} (h : inp.length < fuel) : (blockLoop H final cb fuel r inp).isSome = true := by
  induction fuel generalizing r inp with
  | zero => omega
  | succ fuel ih =>
    rw [blockLoop]
    cases hturn : inflateTurn H final cb r inp with
    | stop q => rfl
    | again r' rest =>
      have hlt := length_lt_of_again hturn
      exact ih r' (by omega)

/-- `inflate_header_block`. -/
def inflateHeaderBlock (H : Handler σ) (final cb : Bool) (r : Receiver σ) (inp : Bytes) :
    BlockResult σ :=
  (blockLoop H final cb (inp.length + 1) r inp).get
    (blockLoop_isSome H final cb r (Nat.lt_succ_self _))

/-- The end of a frame of a header block. -/
def endFragment (H : Handler σ) (r : Receiver σ) : Receiver σ :=
  if r.flag flagEndHeaders = false then
    { r.setMark frameHdlen with
      padlen := 0,
      state := if r.state = .readHeaderBlock then .expectContinuation else .ignContinuation }
  else if r.state = .readHeaderBlock then (r.tell H (.afterHeaderBlock r.hd)).reset
  else r.reset

/-- A piece of a header block has been read up to `rest`. -/
def fragmentRead (H : Handler σ) (r : Receiver σ) (rest : Bytes) : Turn σ :=
  if 0 < r.payloadleft then .next r rest false else .next (endFragment H r) rest false

/-- What follows `inflate_header_block` on the first `n` bytes of a piece of `readlen` bytes. -/
def blockRead (H : Handler σ) (inp : Bytes) (n readlen : ℕ) : BlockResult σ → Turn σ
  | .pause r left =>
    let proclen := (inp.take n).length - left.length
    .pause (r.advance proclen) (inp.drop proclen)
  | .temporal r left =>
    let proclen := (inp.take n).length - left.length
    let r := (r.advance proclen).tell H (.rstStream r.subject .internalError)
    .next { r with state := .ignHeaderBlock } (inp.drop proclen) true
  | .headerComp r =>
    let r := r.advance readlen
    if r.payloadleft = 0 then .next r.reset (inp.drop readlen) false
    else .next { r with state := .ignPayload } (inp.drop readlen) true
  | .ok r => fragmentRead H (r.advance readlen) (inp.drop readlen)

/-- `case NGHTTP2_IB_READ_HEADER_BLOCK` and `NGHTTP2_IB_IGN_HEADER_BLOCK`. -/
def readHeaderBlock (H : Handler σ) (r : Receiver σ) (inp : Bytes) : Turn σ :=
  let readlen := r.payloadReadlen inp
  let dataReadlen := effectiveReadlen r.trail (r.payloadleft - readlen) readlen
  if 0 ≤ dataReadlen then
    let n := dataReadlen.toNat
    let final := r.flag flagEndHeaders && decide (r.payloadleft - n = r.trail)
    blockRead H inp n readlen
      (inflateHeaderBlock H final (decide (r.state = .readHeaderBlock)) r (inp.take n))
  else fragmentRead H (r.advance readlen) (inp.drop readlen)

/-- `case NGHTTP2_IB_EXPECT_CONTINUATION` and `NGHTTP2_IB_IGN_CONTINUATION`, when the header of
the frame is complete. -/
def contRead (H : Handler σ) (r : Receiver σ) (rest : Bytes) : Turn σ :=
  let cont := unpackFrameHd r.sbuf
  let r := { r with payloadleft := cont.length }
  if cont.type ≠ FrameType.continuation.code ∨ cont.streamId ≠ r.hd.streamId then
    .next { r.terminate H .protocolError
      "unexpected non-CONTINUATION frame or stream_id is invalid" with state := .ignPayload }
      rest true
  else
    let r := { r with
      hd.flags := r.hd.flags ||| (cont.flags &&& flagEndHeaders),
      hd.length := r.hd.length + cont.length }
    if r.state = .expectContinuation then
      .next ({ r with state := .readHeaderBlock }.tell H (.beginFrame cont)) rest true
    else .next { r with state := .ignHeaderBlock } rest true

/-- `case NGHTTP2_IB_EXPECT_CONTINUATION` and `NGHTTP2_IB_IGN_CONTINUATION`. -/
def expectContinuation (H : Handler σ) (r : Receiver σ) (inp : Bytes) : Turn σ :=
  let (r, rest) := r.bufRead inp
  if 0 < r.markAvail then .ret r rest else contRead H r rest

/-! ### Other payloads -/

/-- A header block that is ignored makes the inflater useless. -/
def spoil (r : Receiver σ) : Receiver σ :=
  match r.type with
  | some .headers | some .pushPromise | some .continuation =>
    { r with inflater := ⟨r.inflater.1.markBad, r.inflater.2.markBad⟩ }
  | _ => r

/-- `case NGHTTP2_IB_IGN_PAYLOAD`. -/
def ignPayload (r : Receiver σ) (inp : Bytes) : Turn σ :=
  let readlen := r.payloadReadlen inp
  let r := r.advance readlen
  let rest := inp.drop readlen
  if 0 < r.payloadleft then .next r rest false else .next (spoil r).reset rest false

/-- What `inbound_frame_set_settings_entry` keeps: the entries, and the last element of
`iframe->iv`, which holds the least header table size. -/
def setEntry (p : List SettingsEntry × SettingsEntry) (e : SettingsEntry) :
    List SettingsEntry × SettingsEntry :=
  if e.settingsId ∈ [1, 2, 3, 4, 5, 6] then
    (if p.1.any (fun x => x.settingsId = e.settingsId)
      then p.1.map fun x => if x.settingsId = e.settingsId then e else x
      else p.1 ++ [e],
     if e.settingsId = 1 ∧ e.value < p.2.value then e else p.2)
  else p

/-- `inbound_frame_set_settings_entry`. -/
def setSettingsEntry (r : Receiver σ) : Receiver σ :=
  let kept := setEntry (r.iv, r.least) (unpackSettingsEntry r.sbuf)
  { r with iv := kept.1, least := kept.2 }

/-- `session_process_settings_frame`: an acknowledged header table size is made valid for the
inflater. -/
def processSettings (H : Handler σ) (r : Receiver σ) : Receiver σ :=
  let r := r.tell H (.settings r.hd r.iv r.least)
  match H.tableSize r.env with
  | none => r
  | some n => { r with inflater := r.inflater.call (.changeTableSize n) }

/-- `case NGHTTP2_IB_READ_SETTINGS`. -/
def readSettings (H : Handler σ) (r : Receiver σ) (inp : Bytes) : Turn σ :=
  let readlen := min inp.length r.markAvail
  let (r, rest) := r.bufRead inp
  let r := r.advance readlen
  if 0 < r.markAvail then .next r rest false
  else
    let r := if 0 < readlen then setSettingsEntry r else r
    if 0 < r.payloadleft then .next (r.setMark 6) rest false
    else .next (processSettings H r).reset rest false

/-- `case NGHTTP2_IB_READ_GOAWAY_DEBUG`. -/
def readGoawayDebug (H : Handler σ) (r : Receiver σ) (inp : Bytes) : Turn σ :=
  let readlen := r.payloadReadlen inp
  let r : Receiver σ := { r.advance readlen with lbuf := r.lbuf ++ inp.take readlen }
  let rest := inp.drop readlen
  if 0 < r.payloadleft then .next r rest false
  else .next (r.tell H (.goaway r.hd r.sbuf r.lbuf)).reset rest false

/-! ### DATA -/

/-- A WINDOW_UPDATE may be sent for the stream: more is to come. -/
def mayUpdate (r : Receiver σ) : Bool :=
  decide (0 < r.payloadleft) || !r.flag flagEndStream

/-- The Pad Length field counts for the windows, and is consumed immediately. -/
def padCounted (H : Handler σ) (r : Receiver σ) (readlen : ℕ) : Receiver σ :=
  let r := r.tell H (.recvConnection readlen)
  let r := r.tell H (.consume r.hd.streamId readlen)
  if H.hasStream r.env r.hd.streamId
    then r.tell H (.recvStream r.hd.streamId readlen (mayUpdate r)) else r

/-- `case NGHTTP2_IB_READ_PAD_DATA`, when the Pad Length field has been read. -/
def padDataRead (H : Handler σ) (r : Receiver σ) (readlen : ℕ) : Receiver σ :=
  let r := padCounted H r readlen
  match computePad r with
  | none => { r.terminate H .protocolError "DATA: invalid padding" with state := .ignData }
  | some r => { r with state := .readData }

/-- `case NGHTTP2_IB_READ_PAD_DATA`. -/
def readPadData (H : Handler σ) (r : Receiver σ) (inp : Bytes) : Turn σ :=
  let readlen := min inp.length r.markAvail
  let (r, rest) := r.bufRead inp
  let r := r.advance readlen
  if 0 < r.markAvail then .ret r rest else .next (padDataRead H r readlen) rest true

/-- The end of a DATA frame. -/
def dataRead (H : Handler σ) (r : Receiver σ) (rest : Bytes) : Turn σ :=
  if 0 < r.payloadleft then .next r rest false
  else .next (r.tell H (.data r.hd)).reset rest false

/-- A piece of DATA is handed to the application, unless it violates HTTP messaging. -/
def handData (H : Handler σ) (r : Receiver σ) (data rest : Bytes) : Turn σ :=
  match r.call H (.httpData r.hd.streamId data.length) with
  | (.ok, r) =>
    let r := r.tell H (.dataChunk r.hd data)
    if H.pause r.log then .pause r rest else dataRead H r rest
  | (_, r) =>
    let r := if H.noAutoWindowUpdate then r.tell H (.consumeConnection data.length) else r
    .next { r.tell H (.rstStream r.hd.streamId .protocolError) with state := .ignData } rest true

/-- The padding of a piece is consumed. -/
def padConsumed (H : Handler σ) (r : Receiver σ) (padlen : ℤ) : Receiver σ :=
  if 0 < padlen then r.tell H (.consume r.hd.streamId padlen.toNat) else r

/-- A piece of `readlen` bytes counts for the windows, and its padding is consumed. -/
def dataCounted (H : Handler σ) (r : Receiver σ) (readlen : ℕ) : Receiver σ :=
  let r := r.tell H (.recvConnection readlen)
  let r := r.tell H (.recvStream r.hd.streamId readlen (mayUpdate r))
  padConsumed H r (readlen - effectiveReadlen r.trail r.payloadleft readlen)

/-- `case NGHTTP2_IB_READ_DATA`. -/
def readData (H : Handler σ) (r : Receiver σ) (inp : Bytes) : Turn σ :=
  if H.hasStream r.env r.hd.streamId = false then .next { r with state := .ignData } inp true
  else
    let readlen := r.payloadReadlen inp
    let r := r.advance readlen
    let rest := inp.drop readlen
    if 0 < readlen then
      let dataReadlen := effectiveReadlen r.trail r.payloadleft readlen
      let r := dataCounted H r readlen
      if 0 < dataReadlen then handData H r (inp.take dataReadlen.toNat) rest
      else dataRead H r rest
    else dataRead H r rest

/-- DATA that is ignored counts for the connection, and is consumed immediately. -/
def ignoredRead (H : Handler σ) (r : Receiver σ) (readlen : ℕ) : Receiver σ :=
  let r := r.tell H (.recvConnection readlen)
  if H.noAutoWindowUpdate then r.tell H (.consumeConnection readlen) else r

/-- `case NGHTTP2_IB_IGN_DATA`. -/
def ignData (H : Handler σ) (r : Receiver σ) (inp : Bytes) : Turn σ :=
  let readlen := r.payloadReadlen inp
  let r := r.advance readlen
  let rest := inp.drop readlen
  let r := if 0 < readlen then ignoredRead H r readlen else r
  if 0 < r.payloadleft then .next r rest false else .next r.reset rest false

/-! ### The loop -/

/-- One turn of the loop of `nghttp2_session_mem_recv`. -/
def step (H : Handler σ) (r : Receiver σ) (inp : Bytes) : Turn σ :=
  match r.state with
  | .readFirstSettings => readFirstSettings H r inp
  | .readHead => readHead H r inp
  | .readNbyte => readNbyte H r inp
  | .readHeaderBlock | .ignHeaderBlock => readHeaderBlock H r inp
  | .ignPayload => ignPayload r inp
  | .frameSizeError =>
    .next { r.tell H (.terminate .frameSizeError none) with state := .ignPayload } inp true
  | .readSettings => readSettings H r inp
  | .readGoawayDebug => readGoawayDebug H r inp
  | .expectContinuation | .ignContinuation => expectContinuation H r inp
  | .readPadData => readPadData H r inp
  | .readData => readData H r inp
  | .ignData => ignData H r inp
  | .ignAll => .ret r []

/-- What `nghttp2_session_mem_recv` returns: the input that has not been processed, and
whether a callback has paused. -/
structure Recv (σ : Type) where
  r : Receiver σ
  rest : Bytes
  paused : Bool

/-- The loop; `none` if it takes more turns. -/
def recvLoop (H : Handler σ) : ℕ → Receiver σ → Bytes → Option (Recv σ)
  | 0, _, _ => none
  | fuel + 1, r, inp =>
    match step H r inp with
    | .ret r rest => some ⟨r, rest, false⟩
    | .pause r rest => some ⟨r, rest, true⟩
    | .next r rest busy =>
      if rest = [] ∧ busy = false then some ⟨r, rest, false⟩ else recvLoop H fuel r rest

/-- `nghttp2_session_mem_recv`; there is a result after so many turns (`recvLoop_eq`). -/
def memRecv (H : Handler σ) (r : Receiver σ) (inp : Bytes) : Recv σ :=
  (recvLoop H (4 * inp.length + 5) r inp).getD ⟨r, inp, false⟩

/-- A session that has just been made. -/
def Receiver.start (env : σ) : Receiver σ :=
  { state := .readFirstSettings, hd := ⟨0, 0, 0, 0⟩, promised := 0, sbuf := [], mark := frameHdlen,
    lbuf := [], iv := [], least := ⟨1, 2 ^ 32 - 1⟩, payloadleft := 0, padlen := 0,
    inflater := ⟨Inflater.init, Inflater.init_good⟩, env, log := [], inflated := [] }

end Nghttp2.Inbound
