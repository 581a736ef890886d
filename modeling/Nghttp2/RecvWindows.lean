/-
# The receive windows of a session

A session has a window for the DATA it receives on the whole connection and one for each
stream.  The application changes them by WINDOW_UPDATE and by consuming bytes, the peer by
sending DATA, and the acknowledgement of a SETTINGS frame moves all windows of streams by
the difference of the initial window sizes, which can make them negative.

* `RecvWindows.step`: the calls on a session that change its receive windows;
* `RecvWindows.Fits`: what a call must meet in order not to leave the 32 bits;
* `RecvWindows.Legal`: what a call must meet in order to queue no WINDOW_UPDATE of zero or
  fewer bytes.
-/
import Nghttp2.Window

namespace Nghttp2

/-- A stream of the session's map.  `live` says that it is neither idle nor closed, as
`nghttp2_session_get_stream` requires. -/
structure RecvStream where
  id : ℕ
  live : Bool
  window : Window
deriving DecidableEq, Repr

/-- What a session keeps for the DATA it receives.  `auto` is the absence of
`NGHTTP2_OPT_NO_AUTO_WINDOW_UPDATE`, and `initial` is
`local_settings.initial_window_size`. -/
structure RecvWindows where
  auto : Bool
  initial : ℤ
  conn : Window
  streams : List RecvStream
deriving DecidableEq, Repr

/-- What a call leaves: its return code, the windows, the WINDOW_UPDATE frames that it
queued (stream and increment), whether it terminated the session with FLOW_CONTROL_ERROR,
and the streams that it reset with that error. -/
structure Report where
  rv : ℤ
  windows : RecvWindows
  updates : List (ℕ × ℤ)
  terminated : Bool
  reset : List ℕ
deriving DecidableEq, Repr

/-- The increments that were queued for a stream, or for the connection if `id` is 0. -/
def Report.announced (r : Report) (id : ℕ) : ℤ :=
  ((r.updates.filter (·.1 = id)).map Prod.snd).sum

/-- A second call after the first. -/
def Report.andThen (r : Report) (f : RecvWindows → Option Report) : Option Report := do
  let r' ← f r.windows
  return ⟨r'.rv, r'.windows, r.updates ++ r'.updates, r.terminated || r'.terminated,
    r.reset ++ r'.reset⟩

variable {w : Window} {n : ℕ}

namespace Window

/-- `update_initial_window_size`: the return code and the window.  The sum is an
`int64_t`. -/
def updateInitialWindowSize (windowSize newSize oldSize : ℤ) : ℤ × ℤ :=
  let newWindowSize := windowSize + newSize - oldSize
  if -2147483648 > newWindowSize ∨ newWindowSize > maxWindowSize then (-1, windowSize)
  else (0, newWindowSize)

/-- `update_local_initial_window_size_func`, for one stream. -/
def updateLocalInitialWindowSize (auto : Bool) (newSize oldSize : ℤ) (w : Window) : Outcome :=
  let (rv, localSize) := updateInitialWindowSize w.localSize newSize oldSize
  if rv ≠ 0 then ⟨0, w, [], true⟩
  else if auto && shouldSendWindowUpdate localSize w.recvSize then
    ⟨0, { w with localSize, recvSize := 0 }, [w.recvSize], false⟩
  else ⟨0, { w with localSize }, [], false⟩

/-- SETTINGS keep a window within its bounds. -/
theorem updateLocalInitialWindowSize_bounded (hw : w.Bounded) (auto : Bool) (newSize oldSize : ℤ) :
    (w.updateLocalInitialWindowSize auto newSize oldSize).window.Bounded := by
  unfold updateLocalInitialWindowSize updateInitialWindowSize
  by_cases hout : -2147483648 > w.localSize + newSize - oldSize ∨
      w.localSize + newSize - oldSize > maxWindowSize
  · simpa [hout] using hw
  have hsize : IsInt32 (w.localSize + newSize - oldSize) := by
    unfold maxWindowSize at hout
    unfold IsInt32
    omega
  simp only [if_neg hout, ne_eq, not_true_eq_false, if_false]
  split_ifs
  · exact ⟨⟨hsize, (by decide : IsInt32 0), hw.reduction_nonneg, hw.reduction_le⟩,
      hw.consumed_nonneg, hw.consumed_le⟩
  · exact ⟨⟨hsize, hw.recv, hw.reduction_nonneg, hw.reduction_le⟩,
      hw.consumed_nonneg, hw.consumed_le⟩

/-- Lowering the local window below the range of `int32_t` is undefined. -/
theorem submitWindowUpdate_eq_none {delta : ℤ} (hneg : delta < 0)
    (hlow : w.localSize + delta < -2147483648) : submitWindowUpdate w delta = none := by
  have hout : ¬ IsInt32 (w.localSize + delta) := by
    unfold IsInt32
    omega
  unfold submitWindowUpdate adjustLocalWindowSize shrink i32
  rw [if_neg hneg.ne, if_neg hneg.le.not_gt, if_neg hout]
  rfl

/-- So is the test of DATA when the difference is below that range. -/
theorem updateRecvWindowSize_eq_none (hn : n < 2 ^ 24) (send : Bool)
    (hlow : w.localSize - n < -2147483648) : updateRecvWindowSize w n send = none := by
  have hn32 : toInt32 n = n := toInt32_of_isInt32 (by unfold IsInt32; omega)
  have hout : ¬ IsInt32 (w.localSize - n) := by
    unfold IsInt32
    omega
  unfold updateRecvWindowSize adjustRecvWindowSize i32
  rw [hn32, if_neg hout]
  rfl

end Window

namespace RecvWindows

variable {auto : Bool} {s : RecvWindows} {id : ℕ} {st : RecvStream}

/-- The windows of a new session. -/
def start (auto : Bool) : RecvWindows := ⟨auto, 65535, .fresh 65535, []⟩

/-- `nghttp2_session_get_stream`. -/
def getStream (s : RecvWindows) (id : ℕ) : Option RecvStream :=
  s.streams.find? fun st => st.id = id && st.live

/-- The window of a stream that `getStream` finds is replaced. -/
def setWindow (s : RecvWindows) (id : ℕ) (w : Window) : RecvWindows :=
  { s with streams := s.streams.replaceF fun st =>
      bif st.id = id && st.live then some { st with window := w } else none }

/-- A call that changes nothing. -/
def unchanged (s : RecvWindows) (rv : ℤ) : Report := ⟨rv, s, [], false, []⟩

/-- The outcome of a call on the connection window. -/
def putConn (s : RecvWindows) (o : Window.Outcome) : Report :=
  ⟨o.rv, { s with conn := o.window }, o.queued.map (0, ·), o.error, []⟩

/-- The outcome of a call on the window of a stream. -/
def putStream (s : RecvWindows) (id : ℕ) (o : Window.Outcome) : Report :=
  ⟨o.rv, s.setWindow id o.window, o.queued.map (id, ·), o.error, []⟩

/-- `nghttp2_submit_window_update`. -/
def submitWindowUpdate (s : RecvWindows) (id : ℕ) (increment : ℤ) : Option Report :=
  if id = 0 then (s.conn.submitWindowUpdate increment).map s.putConn
  else match s.getStream id with
    | none => some (s.unchanged 0)
    | some st => (st.window.submitWindowUpdate increment).map (s.putStream id)

/-- `session_update_recv_stream_window_size`, for the stream if it is there.  An error
resets the stream. -/
def receiveStream (s : RecvWindows) (id n : ℕ) (send : Bool) : Option Report :=
  match s.getStream id with
  | none => some (s.unchanged 0)
  | some st =>
    (st.window.updateRecvStreamWindowSize s.auto n send).map fun o =>
      { s.putStream id o with terminated := false, reset := if o.error then [id] else [] }

/-- A piece of the payload of a DATA frame in `NGHTTP2_IB_READ_DATA`: it is counted for the
connection and then for its stream. -/
def receiveData (s : RecvWindows) (id n : ℕ) (send : Bool) : Option Report := do
  let o ← s.conn.updateRecvConnectionWindowSize s.auto n
  (s.putConn o).andThen (·.receiveStream id n send)

/-- `session_update_stream_consumed_size`, for the stream if it is there. -/
def updateStreamConsumedSize (s : RecvWindows) (id size : ℕ) : Option Report :=
  match s.getStream id with
  | none => some (s.unchanged 0)
  | some st => (st.window.updateConsumedSize size).map (s.putStream id)

/-- `nghttp2_session_consume`. -/
def sessionConsume (s : RecvWindows) (id size : ℕ) : Option Report :=
  if id = 0 then some (s.unchanged (-501))
  else if s.auto then some (s.unchanged (-519))
  else do
    let o ← s.conn.updateConsumedSize size
    (s.putConn o).andThen (·.updateStreamConsumedSize id size)

/-- `nghttp2_session_consume_connection`. -/
def sessionConsumeConnection (s : RecvWindows) (size : ℕ) : Option Report :=
  if s.auto then some (s.unchanged (-519))
  else (s.conn.updateConsumedSize size).map s.putConn

/-- `nghttp2_session_consume_stream`. -/
def sessionConsumeStream (s : RecvWindows) (id size : ℕ) : Option Report :=
  if id = 0 then some (s.unchanged (-501))
  else if s.auto then some (s.unchanged (-519))
  else s.updateStreamConsumedSize id size

/-- `session_update_local_initial_window_size` and the setting of the new value, when a
SETTINGS frame with it is acknowledged.  All streams of the map are visited. -/
def applyInitialWindowSize (s : RecvWindows) (newSize : ℤ) : Report :=
  let outcome := fun st : RecvStream =>
    st.window.updateLocalInitialWindowSize s.auto newSize s.initial
  ⟨0, { s with
      initial := newSize
      streams := s.streams.map fun st => { st with window := (outcome st).window } },
    s.streams.flatMap fun st => (outcome st).queued.map (st.id, ·),
    s.streams.any fun st => (outcome st).error, []⟩

/-- The three functions by which the application consumes received bytes. -/
inductive Consume where
  | session (id : ℕ)
  | connection
  | stream (id : ℕ)
deriving DecidableEq, Repr

/-- What happens to the windows of a session.  A stream that is opened gets the initial
window, also one that was idle; a closed stream stays in the map until it is dropped.

The Pad Length field of a DATA frame is counted for the connection, consumed for both, and
counted for its stream.  As the windows of the connection and of a stream do not meet, these
are the events `.consume (.stream id) 1`, `.data id 1 send` and `.consume .connection 1`. -/
inductive Event where
  | openStream (id : ℕ) (live : Bool)
  | closeStream (id : ℕ)
  | dropStream (id : ℕ)
  | submit (id : ℕ) (increment : Int32)
  | data (id : ℕ) (n : Fin (2 ^ 24)) (send : Bool)
  | consume (call : Consume) (size : UInt64)
  | acknowledge (initial : Fin (2 ^ 31))
deriving DecidableEq

/-- One event; none if a computation on `int32_t` overflows. -/
def step (s : RecvWindows) : Event → Option Report
  | .openStream id live =>
    some (unchanged { s with
      streams := ⟨id, live, .fresh s.initial⟩ :: s.streams.filter (·.id ≠ id) } 0)
  | .closeStream id =>
    some (unchanged { s with streams := s.streams.map fun st =>
      if st.id = id then { st with live := false } else st } 0)
  | .dropStream id => some (unchanged { s with streams := s.streams.filter (·.id ≠ id) } 0)
  | .submit id increment => s.submitWindowUpdate id increment.toInt
  | .data id n send => s.receiveData id n send
  | .consume (.session id) size => s.sessionConsume id size.toNat
  | .consume .connection size => s.sessionConsumeConnection size.toNat
  | .consume (.stream id) size => s.sessionConsumeStream id size.toNat
  | .acknowledge initial => some (s.applyInitialWindowSize initial)

/-- A run; none if a computation overflows. -/
def run (s : RecvWindows) (events : List Event) : Option RecvWindows :=
  events.foldlM (fun s e => (s.step e).map Report.windows) s

/-- The bytes can be consumed, in the connection and in the stream that the call is for. -/
def Consumable (s : RecvWindows) (size : ℤ) : Consume → Prop
  | .session id => id ≠ 0 →
      size ≤ maxWindowSize ∧ ∀ st ∈ s.getStream id, st.window.Consumable size
  | .connection => size ≤ maxWindowSize
  | .stream id => id ≠ 0 → ∀ st ∈ s.getStream id, st.window.Consumable size

instance (size : ℤ) (call : Consume) : Decidable (s.Consumable size call) := by
  cases call <;> unfold Consumable <;> infer_instance

/-- The event does not lead out of the 32 bits: what is subtracted from the local window of
a stream does not overflow, and what is consumed is consumable. -/
def Fits (s : RecvWindows) : Event → Prop
  | .submit id increment => id ≠ 0 → ∀ st ∈ s.getStream id,
      increment.toInt < 0 → -2147483648 ≤ st.window.localSize + increment.toInt
  | .data id n _ => ∀ st ∈ s.getStream id, -2147483648 ≤ st.window.localSize - (n : ℕ)
  | .consume call size => s.auto = false → s.Consumable size.toNat call
  | _ => True

instance (e : Event) : Decidable (s.Fits e) := by
  cases e <;> unfold Fits <;> infer_instance

/-- All events of a run fit. -/
def Fitting (s : RecvWindows) : List Event → Prop
  | [] => True
  | e :: events => s.Fits e ∧ ∀ r ∈ s.step e, r.windows.Fitting events

instance Fitting.decidable : (s : RecvWindows) → (events : List Event) →
    Decidable (s.Fitting events)
  | _, [] => inferInstanceAs (Decidable True)
  | s, e :: events =>
    have : ∀ r : Report, Decidable (r.windows.Fitting events) :=
      fun r => Fitting.decidable r.windows events
    inferInstanceAs (Decidable (s.Fits e ∧ ∀ r ∈ s.step e, r.windows.Fitting events))

/-! ## The ranges of the counters -/

/-- The counters of all windows are in their ranges, and the connection window is not
negative.  The option `auto` never changes. -/
structure Bounded (auto : Bool) (s : RecvWindows) : Prop where
  auto_eq : s.auto = auto
  initial_nonneg : 0 ≤ s.initial
  initial_le : s.initial ≤ maxWindowSize
  conn : s.conn.Sound
  streams : ∀ st ∈ s.streams, st.window.Bounded

/-- A new session is within the bounds. -/
theorem bounded_start (auto : Bool) : (start auto).Bounded auto :=
  have h0 : (0 : ℤ) ≤ 65535 := by decide
  have h1 : (65535 : ℤ) ≤ maxWindowSize := by decide
  ⟨rfl, h0, h1, Window.sound_fresh h0 h1, nofun⟩

/-- The stream that is found, in the list of all streams. -/
theorem getStream_split (h : s.getStream id = some st) :
    ∃ before after, s.streams = before ++ st :: after ∧
      ∀ w, (s.setWindow id w).streams = before ++ { st with window := w } :: after ∧
        (s.setWindow id w).getStream id = some { st with window := w } := by
  obtain ⟨hst, before, after, hsplit, hbefore⟩ := List.find?_eq_some_iff_append.1 h
  refine ⟨before, after, hsplit, fun w => ?_⟩
  have hset : (s.setWindow id w).streams = before ++ { st with window := w } :: after := by
    unfold setWindow
    simp only [hsplit]
    clear hsplit
    induction before with
    | nil => rw [List.nil_append, List.replaceF, hst]; rfl
    | cons x before ih =>
      have hx := hbefore x List.mem_cons_self
      have hrest := ih fun y hy => hbefore y (List.mem_cons_of_mem _ hy)
      rw [Bool.not_eq_eq_eq_not, Bool.not_true] at hx
      rw [List.cons_append, List.replaceF, hx, cond_false]
      exact congrArg _ hrest
  exact ⟨hset, List.find?_eq_some_iff_append.2 ⟨hst, before, after, hset, hbefore⟩⟩

/-- The window of an open stream. -/
theorem Bounded.stream (hs : s.Bounded auto) (h : s.getStream id = some st) :
    st.window.Bounded := by
  obtain ⟨before, after, hsplit, -⟩ := getStream_split h
  exact hs.streams st (by simp [hsplit])

/-- One stream window is replaced. -/
theorem Bounded.setWindow (hs : s.Bounded auto) (h : s.getStream id = some st)
    (hw : w.Bounded) : (s.setWindow id w).Bounded auto := by
  obtain ⟨before, after, hsplit, hset⟩ := getStream_split h
  refine ⟨hs.auto_eq, hs.initial_nonneg, hs.initial_le, hs.conn, fun x hx => ?_⟩
  rw [(hset w).1] at hx
  have hstreams := hs.streams
  rw [hsplit] at hstreams
  rcases List.mem_append.1 hx with hx | hx
  · exact hstreams x (List.mem_append_left _ hx)
  · rcases List.mem_cons.1 hx with rfl | hx
    · exact hw
    · exact hstreams x (List.mem_append_right _ (List.mem_cons_of_mem _ hx))

variable {send t : Bool} {call : Consume} {e : Event} {increment : Int32} {events : List Event}
  {l : List ℕ} {f : RecvWindows → Option Report} {r r1 r2 : Report} {size : UInt64}
  {o : Window.Outcome} {rv : ℤ}

/-- The connection window is replaced. -/
theorem Bounded.putConn (hs : s.Bounded auto) {bytes : ℤ}
    (ho : o.Keeps s.conn bytes) : (s.putConn o).windows.Bounded auto :=
  ⟨hs.auto_eq, hs.initial_nonneg, hs.initial_le,
    (ho.conserves hs.conn.local_nonneg).sound, hs.streams⟩

/-! ## One call -/

/-- `nghttp2_submit_window_update`. -/
theorem Bounded.submitWindowUpdate (hs : s.Bounded auto) (hf : s.Fits (.submit id increment)) :
    ∃ r, s.submitWindowUpdate id increment.toInt = some r ∧ r.windows.Bounded auto ∧
      ∀ u ∈ r.updates, 1 ≤ u.2 ∧ u.2 ≤ maxWindowSize := by
  have hd : IsInt32 increment.toInt :=
    ⟨increment.le_toInt, by have := increment.toInt_lt; omega⟩
  unfold RecvWindows.submitWindowUpdate
  by_cases hid : id = 0
  · have h0 := hs.conn.local_nonneg
    obtain ⟨o, ho, hkeeps, -, hlegal⟩ := Window.submitWindowUpdate_keeps hs.conn.bounded hd
      (fun _ => by linarith [hd.1])
    rw [if_pos hid, ho]
    exact ⟨_, rfl, hs.putConn hkeeps, by simpa [RecvWindows.putConn] using hlegal⟩
  rw [if_neg hid]
  cases hget : s.getStream id with
  | none => exact ⟨_, rfl, hs, nofun⟩
  | some st =>
    obtain ⟨o, ho, hkeeps, -, hlegal⟩ :=
      Window.submitWindowUpdate_keeps (hs.stream hget) hd (hf hid st hget)
    simp only [ho]
    exact ⟨_, rfl, hs.setWindow hget hkeeps.bounded, by simpa [putStream] using hlegal⟩

/-- DATA on a stream. -/
theorem Bounded.receiveStream (hs : s.Bounded auto) (id : ℕ) (hn : n < 2 ^ 24) (send : Bool)
    (hf : ∀ st ∈ s.getStream id, -2147483648 ≤ st.window.localSize - n) :
    ∃ r, s.receiveStream id n send = some r ∧ r.windows.Bounded auto := by
  unfold RecvWindows.receiveStream
  cases hget : s.getStream id with
  | none => exact ⟨_, rfl, hs⟩
  | some st =>
    obtain ⟨o, ho, hkeeps⟩ := Window.updateRecvWindowSize_keeps (hs.stream hget) hn
      (hf st hget) (send && s.auto)
    simp only [Window.updateRecvStreamWindowSize, ho]
    exact ⟨_, rfl, hs.setWindow hget hkeeps.bounded⟩

/-- DATA on the connection. -/
theorem Bounded.receiveConn (hs : s.Bounded auto) (hn : n < 2 ^ 24) :
    ∃ o, s.conn.updateRecvConnectionWindowSize s.auto n = some o ∧ o.Keeps s.conn n := by
  have h0 := hs.conn.local_nonneg
  exact Window.updateRecvWindowSize_keeps hs.conn.bounded hn (by omega) s.auto

/-- What follows after the connection window. -/
theorem putConn_andThen {c : Option Window.Outcome} (ho : c = some o)
    (hr : f (s.putConn o).windows = some r) :
    (do let o ← c; (s.putConn o).andThen f) =
      some ⟨r.rv, r.windows, (s.putConn o).updates ++ r.updates,
      (s.putConn o).terminated || r.terminated, (s.putConn o).reset ++ r.reset⟩ := by
  rw [ho]
  show (f (s.putConn o).windows >>= _) = _
  rw [hr]
  rfl

/-- **DATA.** -/
theorem Bounded.receiveData (hs : s.Bounded auto) {n : Fin (2 ^ 24)}
    (hf : s.Fits (.data id n send)) :
    ∃ r, s.receiveData id n send = some r ∧ r.windows.Bounded auto := by
  obtain ⟨o, ho, hkeeps⟩ := hs.receiveConn n.isLt
  obtain ⟨r, hr, hbounded⟩ := (hs.putConn hkeeps).receiveStream id n.isLt send hf
  exact ⟨_, putConn_andThen ho hr, hbounded⟩

/-- Only one stream window changes. -/
theorem forall₂_setWindow {R : RecvStream → RecvStream → Prop} (hrefl : ∀ x, R x x)
    (h : s.getStream id = some st) (w : Window) :
    List.Forall₂ R s.streams (s.setWindow id w).streams ↔ R st { st with window := w } := by
  obtain ⟨before, after, hsplit, hset⟩ := getStream_split h
  rw [(hset w).1, hsplit]
  clear hset hsplit
  induction before with
  | nil => simp [List.forall₂_same, hrefl]
  | cons x before ih => simpa [hrefl] using ih

/-- What is announced for the connection. -/
theorem announced_putConn (o : Window.Outcome) : (s.putConn o).announced 0 = o.queued.sum := by
  simp [Report.announced, putConn, List.filter_map, Function.comp_def]

/-- What is announced for a stream. -/
theorem announced_putStream (id : ℕ) (o : Window.Outcome) :
    (s.putStream id o).announced id = o.queued.sum := by
  simp [Report.announced, putStream, List.filter_map, Function.comp_def]

/-- The stream may be closed. -/
theorem updateStreamConsumedSize_cases (hr : s.updateStreamConsumedSize id n = some r) :
    s.getStream id = none ∧ r = s.unchanged 0 ∨
      ∃ st o, s.getStream id = some st ∧ st.window.updateConsumedSize n = some o ∧
        r = s.putStream id o := by
  unfold updateStreamConsumedSize at hr
  cases hget : s.getStream id with
  | none => exact .inl ⟨rfl, by simpa [hget] using hr.symm⟩
  | some st =>
    simp only [hget] at hr
    obtain ⟨o, ho, rfl⟩ := Option.map_eq_some_iff.1 hr
    exact .inr ⟨st, o, rfl, ho, rfl⟩

/-- The connection window stays. -/
theorem updateStreamConsumedSize_frame (hr : s.updateStreamConsumedSize id n = some r) :
    r.windows.conn = s.conn ∧ ∀ u ∈ r.updates, u.1 = id := by
  rcases updateStreamConsumedSize_cases hr with ⟨-, rfl⟩ | ⟨st, o, -, -, rfl⟩
  · exact ⟨rfl, nofun⟩
  · exact ⟨rfl, by simp [putStream]⟩

/-- The exact sum for the window of a stream. -/
def StreamRecorded (s : RecvWindows) (size : ℤ) (r : Report) (id : ℕ) : Prop :=
  ∀ st ∈ s.getStream id, ∃ st' ∈ r.windows.getStream id,
    st'.window.consumedSize + r.announced id = st.window.consumedSize + size

/-- Bytes of a stream are consumed. -/
theorem Bounded.consumeStream (hs : s.Bounded auto) (id : ℕ)
    (hf : ∀ st ∈ s.getStream id, st.window.Consumable n) :
    ∃ r, s.updateStreamConsumedSize id n = some r ∧ r.windows.Bounded auto ∧
      List.Forall₂ (fun st st' => st'.window.recvSize ≤ st.window.recvSize)
        s.streams r.windows.streams ∧
      (r.terminated = true ∨ s.StreamRecorded n r id) := by
  unfold RecvWindows.updateStreamConsumedSize
  cases hget : s.getStream id with
  | none =>
    refine ⟨_, rfl, hs, List.forall₂_same.2 fun _ _ => le_rfl, .inr ?_⟩
    intro st hst
    simp [hget] at hst
  | some st =>
    obtain ⟨o, ho, hkeeps, hrecv, hsum⟩ :=
      Window.updateConsumedSize_keeps (hs.stream hget) (hf st hget)
    obtain ⟨_, _, _, hset⟩ := getStream_split hget
    simp only [ho]
    refine ⟨_, rfl, hs.setWindow hget hkeeps.bounded,
      (forall₂_setWindow (fun x => le_refl x.window.recvSize) hget o.window).2 hrecv, ?_⟩
    cases herr : o.error with
    | true => exact .inl herr
    | false =>
      refine .inr fun st0 hst0 => ⟨_, (hset o.window).2, ?_⟩
      obtain rfl : st = st0 := Option.some.inj (hget.symm.trans hst0)
      rw [announced_putStream]
      exact hsum herr

/-- Bytes of the connection are consumed. -/
theorem Bounded.consumeConn (hs : s.Bounded auto) (hn : (n : ℤ) ≤ maxWindowSize) :
    ∃ o, s.conn.updateConsumedSize n = some o ∧ o.Keeps s.conn 0 ∧
      o.window.recvSize ≤ s.conn.recvSize ∧
      (o.error = false → o.window.consumedSize + o.queued.sum = s.conn.consumedSize + n) :=
  Window.updateConsumedSize_keeps hs.conn.bounded
    (Window.consumable_of_nonneg hs.conn.local_nonneg hn)

/-- With automatic WINDOW_UPDATE the calls that consume bytes are refused. -/
theorem step_consume_auto (hauto : s.auto = true) (call : Consume) (size : UInt64) :
    ∃ rv, s.step (.consume call size) = some (s.unchanged rv) := by
  cases call <;>
    simp only [step, sessionConsume, sessionConsumeConnection, sessionConsumeStream, hauto, if_true]
  · split_ifs <;> exact ⟨_, rfl⟩
  · exact ⟨_, rfl⟩
  · split_ifs <;> exact ⟨_, rfl⟩

/-- **The calls of `nghttp2_session_consume`.** -/
theorem Bounded.consume (hs : s.Bounded auto) (hf : s.Fits (.consume call size)) :
    ∃ r, s.step (.consume call size) = some r ∧ r.windows.Bounded auto := by
  cases hauto : s.auto with
  | true =>
    obtain ⟨rv, hrv⟩ := step_consume_auto hauto call size
    exact ⟨_, hrv, hs⟩
  | false =>
    have hf := hf hauto
    cases call with
    | session id =>
      simp only [step, sessionConsume, hauto, Bool.false_eq_true, if_false]
      split_ifs with hid
      · exact ⟨_, rfl, hs⟩
      · obtain ⟨hn, hstream⟩ := hf hid
        obtain ⟨o, ho, hkeeps, -⟩ := hs.consumeConn hn
        obtain ⟨r, hr, hbounded, -⟩ := (hs.putConn hkeeps).consumeStream id hstream
        exact ⟨_, putConn_andThen ho hr, hbounded⟩
    | connection =>
      obtain ⟨o, ho, hkeeps, -⟩ := hs.consumeConn hf
      simp only [step, sessionConsumeConnection, hauto, ho]
      exact ⟨_, rfl, hs.putConn hkeeps⟩
    | stream id =>
      simp only [step, sessionConsumeStream, hauto, Bool.false_eq_true, if_false]
      split_ifs with hid
      · exact ⟨_, rfl, hs⟩
      · obtain ⟨r, hr, hbounded, -⟩ := hs.consumeStream id (hf hid)
        exact ⟨r, hr, hbounded⟩

/-- One event that fits keeps the ranges, and nothing overflows. -/
theorem Bounded.step (hs : s.Bounded auto) (hf : s.Fits e) :
    ∃ r, s.step e = some r ∧ r.windows.Bounded auto := by
  cases e with
  | openStream id live =>
    refine ⟨_, rfl, hs.auto_eq, hs.initial_nonneg, hs.initial_le, hs.conn, fun st hst => ?_⟩
    rcases List.mem_cons.1 hst with rfl | hst
    · exact (Window.sound_fresh hs.initial_nonneg hs.initial_le).bounded
    · exact hs.streams st (List.mem_filter.1 hst).1
  | closeStream id =>
    refine ⟨_, rfl, hs.auto_eq, hs.initial_nonneg, hs.initial_le, hs.conn, fun st hst => ?_⟩
    obtain ⟨x, hx, rfl⟩ := List.mem_map.1 hst
    have := hs.streams x hx
    split_ifs <;> exact this
  | dropStream id =>
    exact ⟨_, rfl, hs.auto_eq, hs.initial_nonneg, hs.initial_le, hs.conn,
      fun st hst => hs.streams st (List.mem_filter.1 hst).1⟩
  | submit id increment =>
    obtain ⟨r, hr, hbounded, -⟩ := hs.submitWindowUpdate hf
    exact ⟨r, hr, hbounded⟩
  | data id n send => exact hs.receiveData hf
  | consume call size => exact hs.consume hf
  | acknowledge initial =>
    have hlt := initial.isLt
    refine ⟨_, rfl, hs.auto_eq, ?_, ?_, hs.conn, fun st hst => ?_⟩
    · simp [applyInitialWindowSize]
    · simp only [applyInitialWindowSize, maxWindowSize]
      omega
    · obtain ⟨x, hx, rfl⟩ := List.mem_map.1 hst
      exact Window.updateLocalInitialWindowSize_bounded (hs.streams x hx) _ _ _

/-- **Runs of fitting events.** -/
theorem Bounded.run (hs : s.Bounded auto) (hf : s.Fitting events) :
    ∃ s', s.run events = some s' ∧ s'.Bounded auto := by
  induction events generalizing s with
  | nil => exact ⟨s, rfl, hs⟩
  | cons e events ih =>
    obtain ⟨r, hr, hbounded⟩ := hs.step hf.1
    obtain ⟨s', hs', hbounded'⟩ := ih hbounded (hf.2 r hr)
    refine ⟨s', ?_, hbounded'⟩
    unfold RecvWindows.run at hs' ⊢
    rw [List.foldlM_cons, hr]
    exact hs'

/-! ## Overflow -/

/-- The initial window is raised to its maximum, the application takes all of the stream's
window away, and the initial window is set to zero: the local window of the stream is now
`-2147483647`.  Two more bytes, of DATA or taken away, lead out of the 32 bits. -/
theorem local_window_overflow :
    ∃ s, (start true).run [.openStream 1 true, .acknowledge 2147483647,
        .submit 1 (-2147483647), .acknowledge 0] = some s ∧
      s.streams = [⟨1, true, ⟨-2147483647, -2147483647, 2147483647, 0⟩⟩] ∧
      s.step (.data 1 2 true) = none ∧ s.step (.submit 1 (-2)) = none := by
  refine ⟨⟨true, 0, .fresh 65535, [⟨1, true, ⟨-2147483647, -2147483647, 2147483647, 0⟩⟩]⟩,
    ?_, rfl, ?_, ?_⟩ <;> decide +kernel

/-- An event that fits is defined. -/
theorem Bounded.step_eq_none_iff (hs : s.Bounded auto) (h : ¬ s.Fits e → s.step e = none) :
    s.step e = none ↔ ¬ s.Fits e := by
  refine ⟨fun hnone hf => ?_, h⟩
  obtain ⟨r, hr, -⟩ := hs.step hf
  simp [hr] at hnone

/-- A call that is undefined. -/
theorem Bounded.submit_eq_none_iff (hs : s.Bounded auto) :
    s.step (.submit id increment) = none ↔ ¬ s.Fits (.submit id increment) := by
  refine hs.step_eq_none_iff fun hf => ?_
  simp only [Fits, Option.mem_def] at hf
  push Not at hf
  obtain ⟨hid, st, hget, hneg, hlow⟩ := hf
  simp only [RecvWindows.step, RecvWindows.submitWindowUpdate]
  rw [if_neg hid, hget]
  simp only [Window.submitWindowUpdate_eq_none hneg hlow, Option.map_none]

/-- DATA for which the window is undefined. -/
theorem Bounded.data_eq_none_iff (hs : s.Bounded auto) {n : Fin (2 ^ 24)} :
    s.step (.data id n send) = none ↔ ¬ s.Fits (.data id n send) := by
  refine hs.step_eq_none_iff fun hf => ?_
  simp only [Fits, Option.mem_def] at hf
  push Not at hf
  obtain ⟨st, hget, hlow⟩ := hf
  obtain ⟨o, ho, -⟩ := hs.receiveConn n.isLt
  have hget' : (s.putConn o).windows.getStream id = some st := hget
  have hnone : (s.putConn o).windows.receiveStream id n send = none := by
    unfold RecvWindows.receiveStream Window.updateRecvStreamWindowSize
    simp only [hget', Window.updateRecvWindowSize_eq_none n.isLt _ hlow, Option.map_none]
  simp only [RecvWindows.step, RecvWindows.receiveData, Report.andThen]
  rw [ho]
  simp only [Option.bind_eq_bind, Option.bind_some, hnone, Option.bind_none]

/-- **Flow control arithmetic.**  In a run whose events all fit, no computation on window
sizes leaves the 32 bits, and the windows that it leads to are such that the next
WINDOW_UPDATE, piece of DATA, SETTINGS acknowledgement or change of the streams overflows
exactly if it does not fit: if more is taken from the local window of a stream than is left
down to `-2^31`. -/
theorem run_overflows_iff (auto : Bool) (events : List Event)
    (hf : (start auto).Fitting events) :
    ∃ s, (start auto).run events = some s ∧
      ∀ e, (∀ call size, e ≠ .consume call size) → (s.step e = none ↔ ¬ s.Fits e) := by
  obtain ⟨s, hs, hbounded⟩ := (bounded_start auto).run hf
  refine ⟨s, hs, fun e hconsume => ?_⟩
  cases e with
  | openStream | closeStream | dropStream | acknowledge => simp [RecvWindows.step, Fits]
  | submit id increment => exact hbounded.submit_eq_none_iff
  | data id n send => exact hbounded.data_eq_none_iff
  | consume call size => exact absurd rfl (hconsume call size)

/-- One byte less, and nothing overflows; two bytes, and it does. -/
theorem run_overflows_after_two_bytes :
    ∃ s, (start true).run [.openStream 1 true, .acknowledge 2147483647,
        .submit 1 (-2147483647), .acknowledge 0] = some s ∧
      s.step (.data 1 1 true) ≠ none ∧ s.step (.data 1 2 true) = none := by
  obtain ⟨s, hs, h⟩ := run_overflows_iff true [.openStream 1 true, .acknowledge 2147483647,
    .submit 1 (-2147483647), .acknowledge 0] (by decide +kernel)
  have hrun : (start true).run [.openStream 1 true, .acknowledge 2147483647,
      .submit 1 (-2147483647), .acknowledge 0] = some ⟨true, 0, .fresh 65535,
        [⟨1, true, ⟨-2147483647, -2147483647, 2147483647, 0⟩⟩]⟩ := by decide +kernel
  obtain rfl := Option.some.inj (hrun.symm.trans hs)
  refine ⟨_, hs, ?_, ?_⟩
  · rw [ne_eq, h _ (fun _ _ heq => by cases heq), not_not]
    decide +kernel
  · rw [h _ (fun _ _ heq => by cases heq)]
    decide +kernel

/-! ## Consumed bytes -/

/-- The exact sum is in `consumed_size` and in what was returned to the peer. -/
def Recorded (s : RecvWindows) (size : ℤ) (r : Report) : Consume → Prop
  | .session id => id ≠ 0 →
      r.windows.conn.consumedSize + r.announced 0 = s.conn.consumedSize + size ∧
      ∀ st ∈ s.getStream id, ∃ st' ∈ r.windows.getStream id,
        st'.window.consumedSize + r.announced id = st.window.consumedSize + size
  | .connection => r.windows.conn.consumedSize + r.announced 0 = s.conn.consumedSize + size
  | .stream id => id ≠ 0 → ∀ st ∈ s.getStream id, ∃ st' ∈ r.windows.getStream id,
      st'.window.consumedSize + r.announced id = st.window.consumedSize + size

/-- What a call that consumes bytes should leave: consumed sizes in their range, no
`recv_window_size` larger than before, and the exact sum, unless the session is
terminated with FLOW_CONTROL_ERROR. -/
structure Consumed (s : RecvWindows) (call : Consume) (size : ℤ) (r : Report) : Prop where
  conn_nonneg : 0 ≤ r.windows.conn.consumedSize
  conn_le : r.windows.conn.consumedSize ≤ maxWindowSize
  streams : ∀ st ∈ r.windows.streams,
    0 ≤ st.window.consumedSize ∧ st.window.consumedSize ≤ maxWindowSize
  conn_recv : r.windows.conn.recvSize ≤ s.conn.recvSize
  streams_recv : List.Forall₂ (fun st st' => st'.window.recvSize ≤ st.window.recvSize)
    s.streams r.windows.streams
  recorded : r.terminated = true ∨ s.Recorded size r call

/-- Too large a size is neither recorded nor answered by an error. -/
theorem consumeStream_large (hs : ∀ st ∈ s.getStream id, st.window.Bounded) (hn : maxWindowSize < n)
    (h64 : n < 2 ^ 64) (hr : s.updateStreamConsumedSize id n = some r) :
    r.terminated = false ∧ (s.StreamRecorded n r id → s.getStream id = none) := by
  rcases updateStreamConsumedSize_cases hr with ⟨hget, rfl⟩ | ⟨st, o, hget, ho, rfl⟩
  · exact ⟨rfl, fun _ => hget⟩
  · obtain ⟨herr, hsum⟩ := Window.updateConsumedSize_large (hs st hget) hn h64 ho
    obtain ⟨_, _, _, hset⟩ := getStream_split hget
    refine ⟨herr, fun hrec => absurd ?_ hsum⟩
    obtain ⟨st', hst', hst⟩ := hrec st hget
    obtain rfl := Option.some.inj ((hset o.window).2.symm.trans hst')
    rwa [announced_putStream] at hst

/-- If no `recv_window_size` grows then all sizes that are not too large were consumable. -/
theorem Bounded.consumable_of_recv_le (hs : s.Bounded auto) (hn : (n : ℤ) ≤ maxWindowSize)
    (hr : s.updateStreamConsumedSize id n = some r)
    (hrecv : List.Forall₂ (fun st st' => st'.window.recvSize ≤ st.window.recvSize)
      s.streams r.windows.streams) :
    ∀ st ∈ s.getStream id, st.window.Consumable n := by
  intro st hst
  rcases updateStreamConsumedSize_cases hr with ⟨hget, -⟩ | ⟨st', o, hget, ho, rfl⟩
  · cases hget.symm.trans hst
  obtain rfl := Option.some.inj (hget.symm.trans hst)
  have hle := (forall₂_setWindow (fun x => le_refl x.window.recvSize) hget o.window).1 hrecv
  refine ⟨hn, fun hsum hhalf => le_of_not_gt fun hneg => ?_⟩
  exact (Window.updateConsumedSize_grows (hs.stream hget) hsum hneg hhalf ho).not_ge hle

/-- What is left to prove of a call. -/
theorem Consumed.of_bounded {size : ℤ} (hr : r.windows.Bounded auto)
    (hconn : r.windows.conn.recvSize ≤ s.conn.recvSize)
    (hstreams : List.Forall₂ (fun st st' => st'.window.recvSize ≤ st.window.recvSize)
      s.streams r.windows.streams)
    (hrec : r.terminated = true ∨ s.Recorded size r call) : s.Consumed call size r :=
  ⟨hr.conn.consumed_nonneg, hr.conn.consumed_le,
    fun st hst => ⟨(hr.streams st hst).consumed_nonneg, (hr.streams st hst).consumed_le⟩,
    hconn, hstreams, hrec⟩

/-- A call that does nothing. -/
theorem Bounded.consumed_unchanged (hs : s.Bounded auto) {size : ℤ}
    (hrec : s.Recorded size (s.unchanged rv) call) : s.Consumed call size (s.unchanged rv) :=
  .of_bounded hs le_rfl (List.forall₂_same.2 fun _ _ => le_rfl) (.inr hrec)

/-- `nghttp2_session_consume_connection`. -/
theorem Bounded.consumed_connection_iff (hs : s.Bounded auto) (h64 : n < 2 ^ 64) :
    (∃ o, s.conn.updateConsumedSize n = some o ∧ s.Consumed .connection n (s.putConn o)) ↔
      (n : ℤ) ≤ maxWindowSize := by
  refine ⟨fun ⟨o, ho, h⟩ => le_of_not_gt fun hn => ?_, fun hn => ?_⟩
  · obtain ⟨herr, hsum⟩ := Window.updateConsumedSize_large hs.conn.bounded hn h64 ho
    rcases h.recorded with hterm | hrec
    · exact absurd (herr.symm.trans hterm) nofun
    · exact hsum (announced_putConn (s := s) o ▸ hrec)
  · obtain ⟨o, ho, hkeeps, hrecv, hsum⟩ := hs.consumeConn hn
    refine ⟨o, ho, .of_bounded (hs.putConn hkeeps) hrecv
      (List.forall₂_same.2 fun _ _ => le_rfl) ?_⟩
    cases herr : o.error with
    | true => exact .inl herr
    | false => exact .inr ((congrArg _ (announced_putConn o)).trans (hsum herr))

/-- `nghttp2_session_consume_stream`. -/
theorem Bounded.consumed_stream_iff (hs : s.Bounded auto) (hid : id ≠ 0) (h64 : n < 2 ^ 64) :
    (∃ r, s.updateStreamConsumedSize id n = some r ∧ s.Consumed (.stream id) n r) ↔
      ∀ st ∈ s.getStream id, st.window.Consumable n := by
  refine ⟨fun ⟨r, hr, h⟩ => ?_, fun hf => ?_⟩
  · rcases le_or_gt (n : ℤ) maxWindowSize with hn | hn
    · exact hs.consumable_of_recv_le hn hr h.streams_recv
    · obtain ⟨hterm, hnone⟩ := consumeStream_large (fun _ => hs.stream) hn h64 hr
      rcases h.recorded with hterm' | hrec
      · exact absurd (hterm.symm.trans hterm') nofun
      · simp [hnone (hrec hid)]
  · obtain ⟨r, hr, hbounded, hrecv, hrec⟩ := hs.consumeStream id hf
    have hconn := (updateStreamConsumedSize_frame hr).1
    exact ⟨r, hr, .of_bounded hbounded (by rw [hconn]) hrecv (hrec.imp_right fun h _ => h)⟩

/-- Nothing is announced for other streams. -/
theorem announced_eq_zero {j : ℕ} (h : ∀ u ∈ r.updates, u.1 ≠ j) : r.announced j = 0 := by
  unfold Report.announced
  rw [List.filter_eq_nil_iff.2 fun u hu => by simpa using h u hu]
  rfl

/-- Two steps, one after the other. -/
theorem andThen_eq_some (h : r.andThen f = some r2) :
    ∃ r1, f r.windows = some r1 ∧ r2 = ⟨r1.rv, r1.windows, r.updates ++ r1.updates,
      r.terminated || r1.terminated, r.reset ++ r1.reset⟩ := by
  obtain ⟨r1, hr1, h⟩ := Option.bind_eq_some_iff.1 h
  exact ⟨r1, hr1, (Option.some.inj h).symm⟩

/-- What is announced by the two halves of `nghttp2_session_consume`. -/
theorem announced_consume (hid : id ≠ 0) (hids : ∀ u ∈ r1.updates, u.1 = id) {w : RecvWindows} :
    Report.announced ⟨rv, w, (s.putConn o).updates ++ r1.updates, t, l⟩ 0 = o.queued.sum ∧
      Report.announced ⟨rv, w, (s.putConn o).updates ++ r1.updates, t, l⟩ id =
        r1.announced id := by
  have hzero : r1.announced 0 = 0 := announced_eq_zero fun u hu => hids u hu ▸ hid
  have hconn : (s.putConn o).announced id = 0 :=
    announced_eq_zero fun u hu => by
      obtain ⟨v, -, rfl⟩ := List.mem_map.1 hu
      exact hid.symm
  have hown := announced_putConn (s := s) o
  unfold Report.announced at hzero hconn hown ⊢
  simp only [List.filter_append, List.map_append, List.sum_append, hzero, hconn, hown]
  exact ⟨add_zero _, zero_add _⟩

/-- `nghttp2_session_consume`. -/
theorem Bounded.consumed_session_iff (hs : s.Bounded auto) (hid : id ≠ 0) (h64 : n < 2 ^ 64) :
    (∃ r, (do
        let o ← s.conn.updateConsumedSize n
        (s.putConn o).andThen (·.updateStreamConsumedSize id n)) = some r ∧
      s.Consumed (.session id) n r) ↔
      (n : ℤ) ≤ maxWindowSize ∧ ∀ st ∈ s.getStream id, st.window.Consumable n := by
  refine ⟨fun ⟨r, hr, h⟩ => ?_, fun ⟨hn, hf⟩ => ?_⟩
  · obtain ⟨o, ho, hthen⟩ := Option.bind_eq_some_iff.1 hr
    obtain ⟨r1, hr1, rfl⟩ := andThen_eq_some hthen
    obtain ⟨hconn, hids⟩ := updateStreamConsumedSize_frame hr1
    have hn : (n : ℤ) ≤ maxWindowSize := by
      -- with too large a size nothing is terminated, and the connection has another sum
      refine le_of_not_gt fun hn => ?_
      obtain ⟨herr, hsum⟩ := Window.updateConsumedSize_large hs.conn.bounded hn h64 ho
      have hterm := (consumeStream_large (s := (s.putConn o).windows) (fun _ => hs.stream)
        hn h64 hr1).1
      have hfalse : ((s.putConn o).terminated || r1.terminated) = false := by
        rw [hterm, Bool.or_false]
        exact herr
      rcases h.recorded with htrue | hrec
      · exact absurd (hfalse.symm.trans htrue) nofun
      · have hrec := (hrec hid).1
        rw [(announced_consume hid hids).1, hconn] at hrec
        exact hsum hrec
    obtain ⟨o', ho', hkeeps, -⟩ := hs.consumeConn hn
    obtain rfl := Option.some.inj (ho.symm.trans ho')
    exact ⟨hn, (hs.putConn hkeeps).consumable_of_recv_le hn hr1 h.streams_recv⟩
  obtain ⟨o, ho, hkeeps, hle, hsum⟩ := hs.consumeConn hn
  obtain ⟨r1, hr1, hbounded, hrecv, hrec⟩ := (hs.putConn hkeeps).consumeStream id hf
  obtain ⟨hconn, hids⟩ := updateStreamConsumedSize_frame hr1
  refine ⟨_, putConn_andThen ho hr1, .of_bounded hbounded (by rw [hconn]; exact hle) hrecv ?_⟩
  cases herr : o.error with
  | true => exact .inl (by simp [RecvWindows.putConn, herr])
  | false =>
    rcases hrec with hterm | hrec
    · exact .inl (by simp [hterm])
    · refine .inr fun _ => ?_
      rw [(announced_consume hid hids).1, (announced_consume hid hids).2, hconn]
      exact ⟨hsum herr, hrec⟩

/-- A size of `2^31` passes the guard of a new session: its consumed size is then `-2^31`,
and nothing is terminated.  And on a stream whose window SETTINGS made negative after seven
of ten bytes taken away came back, consuming a byte queues a WINDOW_UPDATE of `-3` and
enlarges `recv_window_size`. -/
theorem consume_out_of_range :
    (∃ r, (start false).step (.consume .connection 2147483648) = some r ∧
      r.rv = 0 ∧ r.windows.conn.consumedSize = -2147483648 ∧ r.terminated = false) ∧
    ∃ s, (start false).run [.openStream 1 true, .submit 1 (-10), .data 1 7 true,
        .acknowledge 0] = some s ∧ s.streams = [⟨1, true, ⟨-10, -3, 10, 0⟩⟩] ∧
      ∃ r, s.step (.consume (.stream 1) 1) = some r ∧ r.updates = [(1, -3)] ∧
        r.windows.streams = [⟨1, true, ⟨-10, 0, 10, 4⟩⟩] ∧ r.terminated = false := by
  constructor
  · exact ⟨⟨0, ⟨false, 65535, ⟨65535, 0, 0, -2147483648⟩, []⟩, [], false, []⟩,
      by decide +kernel, rfl, rfl, rfl⟩
  · refine ⟨⟨false, 0, ⟨65535, 7, 0, 0⟩, [⟨1, true, ⟨-10, -3, 10, 0⟩⟩]⟩, by decide +kernel,
      rfl, ?_⟩
    exact ⟨⟨0, ⟨false, 0, ⟨65535, 7, 0, 0⟩, [⟨1, true, ⟨-10, 0, 10, 4⟩⟩]⟩, [(1, -3)], false,
      []⟩, by decide +kernel, rfl, rfl, rfl⟩

/-- **Consumed sizes.**  After a run whose events all fit, without automatic WINDOW_UPDATE,
a call that consumes bytes leaves all consumed sizes in their range, no larger
`recv_window_size`, and the exact sum or a termination, exactly if the size is at most
`2^31 - 1` and the stream's `recv_window_size` is not a negative number that is at least
half of its local window. -/
theorem consumed_iff_consumable (events : List Event) (hf : (start false).Fitting events)
    (s : RecvWindows) (hs : (start false).run events = some s) (call : Consume)
    (size : UInt64) :
    (∃ r, s.step (.consume call size) = some r ∧ s.Consumed call size.toNat r) ↔
      s.Consumable size.toNat call := by
  obtain ⟨s', hs', hbounded⟩ := (bounded_start false).run hf
  obtain rfl : s' = s := Option.some.inj (hs'.symm.trans hs)
  have h64 : size.toNat < 2 ^ 64 := size.toNat_lt
  have hauto := hbounded.auto_eq
  cases call with
  | session id =>
    simp only [RecvWindows.step, sessionConsume, hauto, Bool.false_eq_true, if_false, Consumable]
    by_cases hid : id = 0
    · simp only [hid, if_true, ne_eq, not_true_eq_false, false_implies, iff_true]
      exact ⟨_, rfl, hbounded.consumed_unchanged fun h => absurd rfl h⟩
    · simp only [ne_eq, hid, not_false_eq_true, forall_const, if_false]
      exact hbounded.consumed_session_iff hid h64
  | connection =>
    simp only [RecvWindows.step, sessionConsumeConnection, hauto, Bool.false_eq_true, if_false,
      Consumable, Option.map_eq_some_iff]
    rw [← hbounded.consumed_connection_iff h64]
    constructor
    · rintro ⟨_, ⟨o, ho, rfl⟩, h⟩
      exact ⟨o, ho, h⟩
    · rintro ⟨o, ho, h⟩
      exact ⟨_, ⟨o, ho, rfl⟩, h⟩
  | stream id =>
    simp only [RecvWindows.step, sessionConsumeStream, hauto, Bool.false_eq_true, if_false,
      Consumable]
    by_cases hid : id = 0
    · simp only [hid, if_true, ne_eq, not_true_eq_false, false_implies, iff_true]
      exact ⟨_, rfl, hbounded.consumed_unchanged fun h => absurd rfl h⟩
    · simp only [ne_eq, hid, not_false_eq_true, forall_const, if_false]
      exact hbounded.consumed_stream_iff hid h64

/-- Seven bytes arrive on a stream, and seven are consumed. -/
theorem consumed_seven_bytes :
    ∃ s, (start false).run [.openStream 1 true, .data 1 7 true] = some s ∧
      ∃ r, s.step (.consume (.session 1) 7) = some r ∧ s.Consumed (.session 1) 7 r := by
  have hrun : (start false).run [.openStream 1 true, .data 1 7 true] =
      some ⟨false, 65535, ⟨65535, 7, 0, 0⟩, [⟨1, true, ⟨65535, 7, 0, 0⟩⟩]⟩ := by
    decide +kernel
  exact ⟨_, hrun, (consumed_iff_consumable [.openStream 1 true, .data 1 7 true]
    (by decide +kernel) _ hrun (.session 1) 7).2 (by decide +kernel)⟩

/-! ## The increments of WINDOW_UPDATE frames -/

/-- A WINDOW_UPDATE with this increment can be sent. -/
def LegalIncrement (u : ℤ) : Prop := 1 ≤ u ∧ u ≤ maxWindowSize

/-- A received piece of DATA makes a WINDOW_UPDATE due although nothing is to be returned. -/
def VoidAfterData (w : Window) (send : Bool) (n : ℕ) : Prop :=
  send = true ∧ n ≤ w.left ∧ w.localSize.tdiv 2 ≤ w.recvSize + n ∧ w.recvSize + n ≤ 0

/-- Consuming bytes makes a WINDOW_UPDATE due although nothing is to be returned. -/
def VoidAfterConsume (w : Window) (n : ℕ) : Prop :=
  w.consumedSize + n ≤ maxWindowSize ∧
    w.localSize.tdiv 2 ≤ min (w.consumedSize + n) w.recvSize ∧
    min (w.consumedSize + n) w.recvSize ≤ 0

/-- A new initial window makes a WINDOW_UPDATE due although nothing is to be returned. -/
def VoidAfterSettings (w : Window) (auto : Bool) (newSize oldSize : ℤ) : Prop :=
  auto = true ∧ IsInt32 (w.localSize + newSize - oldSize) ∧
    (w.localSize + newSize - oldSize).tdiv 2 ≤ w.recvSize ∧ w.recvSize ≤ 0

/-- An update that is sent on a condition. -/
theorem legal_ite_iff {b : Bool} {o' : Window.Outcome} {u : ℤ} (ho : o.queued = [u])
    (ho' : o'.queued = []) (hle : u ≤ maxWindowSize) :
    (∀ v ∈ (if b = true then o else o').queued, LegalIncrement v) ↔ ¬ (b = true ∧ u ≤ 0) := by
  cases b with
  | true =>
    simp only [if_true, ho, List.mem_singleton, forall_eq, LegalIncrement, true_and]
    omega
  | false => simp [ho']

/-- The updates after DATA. -/
theorem legal_after_data_iff (hw : w.Bounded) (hn : n < 2 ^ 24)
    (hlow : -2147483648 ≤ w.localSize - n) (ho : w.updateRecvWindowSize n send = some o) :
    (∀ u ∈ o.queued, LegalIncrement u) ↔ ¬ VoidAfterData w send n := by
  have h1 := hw.size.2
  rw [Window.updateRecvWindowSize_eq hw.toRanged hn hlow] at ho
  obtain rfl := Option.some.inj ho
  unfold VoidAfterData
  by_cases hover : w.left < n
  · simp [hover]
  rw [if_neg hover,
    legal_ite_iff rfl rfl (by unfold Window.left at hover; unfold maxWindowSize; omega)]
  simp only [Window.shouldSendWindowUpdate, Bool.and_eq_true, decide_eq_true_eq, not_lt.1 hover,
    true_and, and_assoc]

/-- The updates after bytes were consumed. -/
theorem legal_after_consume_iff (hw : w.Bounded) (hn : w.Consumable n)
    (ho : w.updateConsumedSize n = some o) :
    (∀ u ∈ o.queued, LegalIncrement u) ↔ ¬ VoidAfterConsume w n := by
  rw [Window.updateConsumedSize_eq hw hn] at ho
  obtain rfl := Option.some.inj ho
  unfold VoidAfterConsume
  by_cases hover : maxWindowSize < w.consumedSize + n
  · simp [hover]
  rw [if_neg hover, legal_ite_iff rfl rfl (by omega)]
  simp only [Window.shouldSendWindowUpdate, decide_eq_true_eq]
  omega

/-- The updates after SETTINGS. -/
theorem legal_after_settings_iff (hw : w.Bounded) (auto : Bool) (newSize oldSize : ℤ) :
    (∀ u ∈ (w.updateLocalInitialWindowSize auto newSize oldSize).queued, LegalIncrement u) ↔
      ¬ VoidAfterSettings w auto newSize oldSize := by
  have hrecv := hw.recv
  unfold Window.updateLocalInitialWindowSize Window.updateInitialWindowSize VoidAfterSettings
  generalize w.localSize + newSize - oldSize = size
  unfold IsInt32 at hrecv
  by_cases hout : -2147483648 > size ∨ size > maxWindowSize
  · have : ¬ IsInt32 size := by
      unfold maxWindowSize at hout
      unfold IsInt32
      omega
    simp [hout, this]
  have hin : IsInt32 size := by
    unfold maxWindowSize at hout
    unfold IsInt32
    omega
  simp only [if_neg hout, ne_eq, not_true_eq_false, if_false, hin, true_and]
  rw [legal_ite_iff rfl rfl (by unfold maxWindowSize; omega)]
  simp only [Window.shouldSendWindowUpdate, Bool.and_eq_true, decide_eq_true_eq, and_assoc]

/-- No WINDOW_UPDATE is due, by this event, for a window that has nothing to return. -/
def Legal (s : RecvWindows) : Event → Prop
  | .data id n send => ¬ VoidAfterData s.conn s.auto n ∧
      ∀ st ∈ s.getStream id, ¬ VoidAfterData st.window (send && s.auto) n
  | .consume (.session id) size => id ≠ 0 → s.auto = false →
      ¬ VoidAfterConsume s.conn size.toNat ∧
      ∀ st ∈ s.getStream id, ¬ VoidAfterConsume st.window size.toNat
  | .consume .connection size => s.auto = false → ¬ VoidAfterConsume s.conn size.toNat
  | .consume (.stream id) size => id ≠ 0 → s.auto = false →
      ∀ st ∈ s.getStream id, ¬ VoidAfterConsume st.window size.toNat
  | .acknowledge initial =>
      ∀ st ∈ s.streams, ¬ VoidAfterSettings st.window s.auto initial s.initial
  | _ => True

/-- All WINDOW_UPDATE frames that a call queues can be sent. -/
def LegalReport (r : Report) : Prop := ∀ u ∈ r.updates, LegalIncrement u.2

/-- The updates of the connection. -/
theorem legal_putConn : LegalReport (s.putConn o) ↔ ∀ u ∈ o.queued, LegalIncrement u := by
  simp [LegalReport, putConn]

/-- The updates of a stream. -/
theorem legal_putStream : LegalReport (s.putStream id o) ↔ ∀ u ∈ o.queued, LegalIncrement u := by
  simp [LegalReport, putStream]

/-- The updates of two steps. -/
theorem legal_append {w : RecvWindows} :
    LegalReport ⟨rv, w, r1.updates ++ r2.updates, t, l⟩ ↔
      LegalReport r1 ∧ LegalReport r2 := by
  simp only [LegalReport, List.mem_append]
  exact ⟨fun h => ⟨fun u hu => h u (.inl hu), fun u hu => h u (.inr hu)⟩,
    fun h u hu => hu.elim (h.1 u) (h.2 u)⟩

/-- DATA on a stream. -/
theorem Bounded.legal_receiveStream (hs : s.Bounded auto) (hn : n < 2 ^ 24)
    (hf : ∀ st ∈ s.getStream id, -2147483648 ≤ st.window.localSize - n)
    (hr : s.receiveStream id n send = some r) :
    LegalReport r ↔ ∀ st ∈ s.getStream id, ¬ VoidAfterData st.window (send && s.auto) n := by
  unfold RecvWindows.receiveStream at hr
  cases hget : s.getStream id with
  | none =>
    simp only [hget] at hr
    cases hr
    simp [LegalReport, unchanged]
  | some st =>
    simp only [hget] at hr
    obtain ⟨o, ho, rfl⟩ := Option.map_eq_some_iff.1 hr
    simp only [Option.mem_def, Option.some.injEq, forall_eq']
    rw [← legal_after_data_iff (hs.stream hget) hn (hf st hget) ho]
    exact legal_putStream (s := s) (o := o)

/-- Bytes of a stream are consumed. -/
theorem Bounded.legal_consumeStream (hs : s.Bounded auto)
    (hf : ∀ st ∈ s.getStream id, st.window.Consumable n)
    (hr : s.updateStreamConsumedSize id n = some r) :
    LegalReport r ↔ ∀ st ∈ s.getStream id, ¬ VoidAfterConsume st.window n := by
  rcases updateStreamConsumedSize_cases hr with ⟨hget, rfl⟩ | ⟨st, o, hget, ho, rfl⟩
  · simp [hget, LegalReport, unchanged]
  · simp only [hget, Option.mem_def, Option.some.injEq, forall_eq']
    rw [← legal_after_consume_iff (hs.stream hget) (hf st hget) ho]
    exact legal_putStream

/-- Bytes of the connection are consumed. -/
theorem Bounded.legal_consumeConn (hs : s.Bounded auto) (hn : (n : ℤ) ≤ maxWindowSize)
    (ho : s.conn.updateConsumedSize n = some o) :
    LegalReport (s.putConn o) ↔ ¬ VoidAfterConsume s.conn n := by
  rw [← legal_after_consume_iff hs.conn.bounded
    (Window.consumable_of_nonneg hs.conn.local_nonneg hn) ho]
  exact legal_putConn

/-- Nothing is sent. -/
theorem legal_unchanged (rv : ℤ) : LegalReport (s.unchanged rv) := nofun

/-- **DATA.** -/
theorem Bounded.legal_data (hs : s.Bounded auto) {n : Fin (2 ^ 24)} (hf : s.Fits (.data id n send))
    (hr : s.step (.data id n send) = some r) : LegalReport r ↔ s.Legal (.data id n send) := by
  obtain ⟨o, ho, h⟩ := Option.bind_eq_some_iff.1 hr
  obtain ⟨r1, hr1, rfl⟩ := andThen_eq_some h
  obtain ⟨o', ho', hkeeps⟩ := hs.receiveConn n.isLt
  obtain rfl := Option.some.inj (ho.symm.trans ho')
  have h0 := hs.conn.local_nonneg
  rw [legal_append, (hs.putConn hkeeps).legal_receiveStream n.isLt hf hr1, legal_putConn,
    legal_after_data_iff hs.conn.bounded n.isLt (by omega) ho]
  rfl

/-- **The calls of `nghttp2_session_consume`.** -/
theorem Bounded.legal_consume (hs : s.Bounded auto) (hf : s.Fits (.consume call size))
    (hr : s.step (.consume call size) = some r) : LegalReport r ↔ s.Legal (.consume call size) := by
  cases hauto : s.auto with
  | true =>
    obtain ⟨rv, hrv⟩ := step_consume_auto hauto call size
    obtain rfl := Option.some.inj (hrv.symm.trans hr)
    cases call <;> simp [legal_unchanged, Legal, hauto]
  | false =>
    have hf := hf hauto
    cases call with
    | session id =>
      simp only [RecvWindows.step, sessionConsume, hauto, Bool.false_eq_true, if_false] at hr
      simp only [Legal, hauto, forall_const]
      by_cases hid : id = 0
      · rw [if_pos hid] at hr
        cases hr
        simp [hid, legal_unchanged]
      rw [if_neg hid] at hr
      obtain ⟨hn, hstream⟩ := hf hid
      obtain ⟨o, ho, h⟩ := Option.bind_eq_some_iff.1 hr
      obtain ⟨r1, hr1, rfl⟩ := andThen_eq_some h
      obtain ⟨o', ho', hkeeps, -⟩ := hs.consumeConn hn
      obtain rfl := Option.some.inj (ho.symm.trans ho')
      rw [legal_append, (hs.putConn hkeeps).legal_consumeStream hstream hr1,
        hs.legal_consumeConn hn ho]
      exact ⟨fun h _ => h, fun h => h hid⟩
    | connection =>
      simp only [RecvWindows.step, sessionConsumeConnection, hauto, Bool.false_eq_true,
        if_false] at hr
      obtain ⟨o, ho, rfl⟩ := Option.map_eq_some_iff.1 hr
      simp only [Legal, hauto, forall_const]
      exact hs.legal_consumeConn hf ho
    | stream id =>
      simp only [RecvWindows.step, sessionConsumeStream, hauto, Bool.false_eq_true,
        if_false] at hr
      simp only [Legal, hauto, forall_const]
      by_cases hid : id = 0
      · rw [if_pos hid] at hr
        cases hr
        simp [hid, legal_unchanged]
      · rw [if_neg hid] at hr
        rw [hs.legal_consumeStream (hf hid) hr]
        exact ⟨fun h _ => h, fun h => h hid⟩

/-- **SETTINGS.** -/
theorem Bounded.legal_acknowledge (hs : s.Bounded auto) (initial : Fin (2 ^ 31)) :
    LegalReport (s.applyInitialWindowSize initial) ↔ s.Legal (.acknowledge initial) := by
  simp only [LegalReport, applyInitialWindowSize, Legal, List.mem_flatMap, List.mem_map]
  constructor
  · intro h st hst
    rw [← legal_after_settings_iff (hs.streams st hst)]
    exact fun u hu => h (st.id, u) ⟨st, hst, u, hu, rfl⟩
  · rintro h _ ⟨st, hst, u, hu, rfl⟩
    exact (legal_after_settings_iff (hs.streams st hst) _ _ _).2 (h st hst) u hu

/-- An initial window of zero is acknowledged while a stream is open on which nothing was
received: a WINDOW_UPDATE of zero bytes is queued.  And a stream window of which all was
taken away announces zero bytes when the last of them comes back. -/
theorem void_window_update :
    (∃ s, (start true).run [.openStream 1 true] = some s ∧
      ∃ r, s.step (.acknowledge 0) = some r ∧ r.updates = [(1, 0)]) ∧
    ∃ s, (start true).run [.openStream 1 true, .submit 0 (-100), .submit 1 (-65535)] = some s ∧
      ∃ r, s.step (.data 1 65535 true) = some r ∧ r.updates = [(0, 65435), (1, 0)] := by
  constructor
  · exact ⟨⟨true, 65535, .fresh 65535, [⟨1, true, .fresh 65535⟩]⟩, by decide +kernel,
      ⟨0, ⟨true, 0, .fresh 65535, [⟨1, true, .fresh 0⟩]⟩, [(1, 0)], false, []⟩,
      by decide +kernel, rfl⟩
  · exact ⟨⟨true, 65535, ⟨65435, -100, 100, 0⟩, [⟨1, true, ⟨0, -65535, 65535, 0⟩⟩]⟩,
      by decide +kernel,
      ⟨0, ⟨true, 65535, ⟨65435, 0, 100, 0⟩, [⟨1, true, ⟨0, 0, 65535, 0⟩⟩]⟩,
        [(0, 65435), (1, 0)], false, []⟩, by decide +kernel, rfl⟩

/-- **WINDOW_UPDATE increments.**  In a run whose events all fit, the WINDOW_UPDATE frames
that an event queues have increments from 1 to `2^31 - 1` exactly if none of them is for a
window with nothing to return: one that has, after the event, at least half of its local
window in `recv_window_size` (or in `consumed_size`) while this is zero or less. -/
theorem window_updates_legal_iff (auto : Bool) (events : List Event)
    (hf : (start auto).Fitting events) (s : RecvWindows)
    (hs : (start auto).run events = some s) (e : Event) (he : s.Fits e) :
    ∃ r, s.step e = some r ∧
      ((∀ u ∈ r.updates, 1 ≤ u.2 ∧ u.2 ≤ maxWindowSize) ↔ s.Legal e) := by
  obtain ⟨s', hs', hbounded⟩ := (bounded_start auto).run hf
  obtain rfl : s' = s := Option.some.inj (hs'.symm.trans hs)
  obtain ⟨r, hr, -⟩ := hbounded.step he
  refine ⟨r, hr, ?_⟩
  change LegalReport r ↔ _
  cases e with
  | openStream | closeStream | dropStream =>
    cases hr
    simp [legal_unchanged, Legal]
  | submit id increment =>
    obtain ⟨r', hr', -, hlegal⟩ := hbounded.submitWindowUpdate he
    obtain rfl := Option.some.inj (hr'.symm.trans hr)
    exact iff_of_true hlegal trivial
  | data id n send => exact hbounded.legal_data he hr
  | consume call size => exact hbounded.legal_consume he hr
  | acknowledge initial =>
    cases hr
    exact hbounded.legal_acknowledge initial

/-- Half of a stream's window is received, and returned. -/
theorem half_window_update_legal :
    ∃ s, (start true).run [.openStream 1 true] = some s ∧
      ∃ r, s.step (.data 1 32767 true) = some r ∧ r.updates = [(0, 32767), (1, 32767)] ∧
        s.Legal (.data 1 32767 true) := by
  have hrun : (start true).run [.openStream 1 true] =
      some ⟨true, 65535, .fresh 65535, [⟨1, true, .fresh 65535⟩]⟩ := by decide +kernel
  obtain ⟨r, hr, h⟩ := window_updates_legal_iff true [.openStream 1 true] (by decide +kernel) _
    hrun (.data 1 32767 true) (by decide +kernel)
  have hstep : step ⟨true, 65535, .fresh 65535, [⟨1, true, .fresh 65535⟩]⟩
      (.data 1 32767 true) = some ⟨0, ⟨true, 65535, .fresh 65535, [⟨1, true, .fresh 65535⟩]⟩,
        [(0, 32767), (1, 32767)], false, []⟩ := by decide +kernel
  obtain rfl := Option.some.inj (hstep.symm.trans hr)
  exact ⟨_, hrun, _, hr, rfl, h.1 (by decide)⟩

end RecvWindows

end Nghttp2
