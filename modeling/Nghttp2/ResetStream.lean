/-
# Streams that have been reset

When RST_STREAM is queued for a stream, `nghttp2_session_add_item` puts the stream into the
state CLOSING, and the receiving functions are silent about a stream in that state.  But
`session_after_frame_sent1` writes the state of a stream when HEADERS on it have been sent,
whatever the state is then.

* `processHeadersFrame` and `onDataReceivedFailFast` say what the receiving functions do with
  HEADERS and DATA;
* `Silent` says that nothing of them is reported to the application;
* `Revives` describes the events that take a stream out of the state CLOSING, also if
  RST_STREAM has been queued only in `on_frame_send_callback` of these HEADERS;
* `reset_stays_iff_of_reaches` says that these are the only ones, from the event on that queues
  RST_STREAM.
-/
import Nghttp2.NewItems
import Nghttp2.StreamCount

namespace Nghttp2

/-- What becomes of the payload of a frame: header fields and data are reported to the
application, or they are not. -/
inductive Reception
  | read
  | ignore
deriving DecidableEq, Repr

namespace Outbound

variable {o o' : Outbound} {env : Env} {i : ItemPtr} {id : ℕ} {x y : Ptr}

/-! ## Receiving on a stream -/

/-- `goaway_flags`. -/
def goawayFlags (o : Outbound) : Bool :=
  o.termOnSend || o.termSent || o.session.goawaySent || o.goawayRecv

/-- `nghttp2_session_on_headers_received`. -/
def onHeadersReceived (o : Outbound) (id : ℕ) (x : Ptr) : Reception :=
  if o.streamState x = .reserved then .ignore
  else if (o.session.info x).shutRd then .ignore
  else if o.session.isMyStreamId id then if o.streamState x = .opened then .read else .ignore
  else if o.streamState x ≠ .closing then .read
  else .ignore

/-- **`session_process_headers_frame`**: what becomes of the header block, and the event of the
stream table. -/
def processHeadersFrame (o : Outbound) (id : ℕ) (pri : PrioritySpec) :
    Reception × Option Session.Event :=
  match o.session.getStream id with
  | none =>
    (if (o.session.openCall (.recvHeaders id pri)).isSome then .read else .ignore,
      some (.recvHeaders id pri))
  | some x =>
    if o.session.isMyStreamId id then
      if o.streamState x = .opening then
        if (o.session.info x).shutRd then (.ignore, none) else (.read, some (.setState id .opened))
      else (o.onHeadersReceived id x, none)
    else if o.streamState x = .reserved then
      if o.goawayFlags then (.ignore, none)
      else if o.session.maxConcurrentStreams ≤ o.session.numIncomingStreams then (.ignore, none)
      else if o.session.pendingMaxConcurrentStreams ≤ o.session.numIncomingStreams then
        (.ignore, none)
      else (.read, some (.fulfillPush id))
    else (o.onHeadersReceived id x, none)

/-- **`session_on_data_received_fail_fast`**: what becomes of the payload of DATA. -/
def onDataReceivedFailFast (o : Outbound) (id : ℕ) : Reception :=
  if id = 0 then .ignore
  else
    match o.session.getStream id with
    | none => .ignore
    | some x =>
      if (o.session.info x).shutRd then .ignore
      else if o.session.isMyStreamId id then
        if o.streamState x = .closing then .ignore
        else if o.streamState x ≠ .opened then .ignore
        else .read
      else if o.streamState x = .reserved then .ignore
      else if o.streamState x = .closing then .ignore
      else .read

/-- Whether `on_frame_recv_callback` is called for HEADERS or DATA that are complete, in
`session_after_header_block_received` and in `nghttp2_session_on_data_received`. -/
def frameReceived (o : Outbound) (id : ℕ) : Bool :=
  match o.session.getStream id with
  | none => false
  | some x => o.streamState x ≠ .closing

/-- Nothing of the frames that are received on the stream is reported. -/
def Silent (o : Outbound) (id : ℕ) : Prop :=
  (∀ pri, (o.processHeadersFrame id pri).1 = .ignore) ∧ o.onDataReceivedFailFast id = .ignore ∧
    o.frameReceived id = false

/-- The receiving functions are silent about a stream in the state CLOSING. -/
theorem silent_of_closing (hx : o.session.getStream id = some x)
    (hclosing : (o.session.info x).state = .closing) : o.Silent id := by
  have hstate : o.streamState x = .closing := hclosing
  have hheaders : o.onHeadersReceived id x = .ignore := by
    simp [onHeadersReceived, hstate]
  refine ⟨fun pri => ?_, ?_, ?_⟩
  · simp [processHeadersFrame, hx, hstate, hheaders]
  · simp [onDataReceivedFailFast, hx, hstate]
  · simp [frameReceived, hx, hstate]

/-- The receiving functions are silent about a stream that is closed, since its id has been
used. -/
theorem silent_of_used (hx : o.session.getStream id = none) (hu : o.Used id) : o.Silent id := by
  have hnew : o.session.isNewPeerStreamId id = false := by
    unfold Session.isNewPeerStreamId
    cases hmine : o.session.isMyStreamId id with
    | true => simp
    | false => simp [not_lt.2 ((Session.used_peer_iff hmine).1 hu)]
  refine ⟨fun pri => ?_, ?_, ?_⟩
  · simp [processHeadersFrame, hx, Session.openCall, hnew]
  · simp [onDataReceivedFailFast, hx]
  · simp [frameReceived, hx]

/-! ## What becomes of the state -/

theorem addItem_data_info {f : DataFrame} (hf : (o.item i).frame = .data f)
    (h : o.addItem i = .ok o') : o'.session.info = o.session.info := by
  unfold addItem at h
  dsimp only at h
  rw [hf] at h
  dsimp only at h
  split at h
  · cases h
  · unfold attach at h
    split_ifs at h
    cases h
    rfl

/-- Submitting DATA leaves the states of the streams. -/
theorem submit_data_info (o : Outbound) (id : ℕ) (b : Bool) :
    (o.submit (.data id b)).session.info = o.session.info := by
  unfold submit submitItem
  dsimp only
  split_ifs
  · rfl
  · split
    · next o1 hadd =>
      exact (addItem_data_info (f := ⟨b, false, false⟩) (by simp) hadd).trans rfl
    · rfl

/-- HEADERS have been sent on the stream `x`: it is closed if both sides have finished, and
else its state is written. -/
theorem headersSent_outcome {f : HeadersFrame} (h : o.session.Tabled)
    (hx : o.session.getStream (o.item i).streamId = some x)
    (hres : o.headersSent i f env = .ok o') :
    if (o.session.info x).shutRd = true ∧ ((o.session.info x).shutWr = true ∨ f.endStream = true)
    then o'.session.getStream (o.item i).streamId = none
    else o'.session.getStream (o.item i).streamId = some x ∧
      (o'.session.info x).state = (headersOutcome (o.session.info x) f.cat).state := by
  unfold Outbound.headersSent at hres
  rw [hx] at hres
  obtain ⟨o3, hclose, hres⟩ := bind_eq_ok.1 hres
  set o1 := if o.session.tree.sched.item x = some i then o.detachItem x else o with ho1
  have h1 : o1.session.Tabled ∧ o1.session.info = o.session.info ∧
      o1.session.getStream (o.item i).streamId = some x := by
    rw [ho1]
    split_ifs
    · exact ⟨(detachItem_grows h x).tabled, rfl, hx⟩
    · exact ⟨h, rfl, hx⟩
  obtain ⟨htab, hinfo, hget⟩ := h1
  set o2 := (o1.openAfterHeaders x f.cat).shutWrIf x f.endStream with ho2
  have htab2 : o2.session.Tabled := (headers_mark htab hget).tabled
  have hfields : (o2.session.info x).shutRd = (o.session.info x).shutRd ∧
      (o2.session.info x).shutWr = ((o.session.info x).shutWr || f.endStream) ∧
      (o2.session.info x).closed = (o.session.info x).closed ∧
      (o2.session.info x).state = (headersOutcome (o.session.info x) f.cat).state ∧
      o2.session.streams = o1.session.streams := by
    rw [ho2, ← hinfo]
    cases f.cat <;> cases f.endStream <;>
      simp [headersOutcome, openAfterHeaders, shutWrIf, modifyInfo, Session.modifyInfo]
  obtain ⟨hrd, hwr, hclosed, hstate, hstreams⟩ := hfields
  unfold closeStreamIfShutRdwr at hclose
  rw [hrd, hwr] at hclose
  have hlast : o'.session.info = o3.session.info ∧
      ∀ id, o'.session.getStream id = o3.session.getStream id := by
    rw [← Except.ok.inj hres]
    split_ifs
    · exact ⟨submit_data_info .., (submit_same ..).getStream⟩
    · exact ⟨rfl, fun _ => rfl⟩
  rw [hlast.1, hlast.2]
  by_cases hshut : (o.session.info x).shutRd = true ∧
      ((o.session.info x).shutWr = true ∨ f.endStream = true)
  · rw [if_pos (by simpa using hshut)] at hclose
    rw [if_pos hshut]
    have hkey : o2.session.streamId x = (o.item i).streamId := by
      unfold Session.streamId
      rw [hstreams]
      exact (htab.of_getStreamRaw (Session.getStream_eq_some_iff.1 hget).1).1
    rw [hkey] at hclose
    exact (closeStream_grows htab2 hclose).2
  rw [if_neg (by simpa using hshut)] at hclose
  rw [if_neg hshut, ← Except.ok.inj hclose]
  refine ⟨Session.getStream_eq_some_iff.2 ⟨?_, ?_, ?_⟩, hstate⟩
  · unfold Session.getStreamRaw
    rw [hstreams]
    exact (Session.getStream_eq_some_iff.1 hget).1
  · rw [hclosed]
    exact (Session.getStream_eq_some_iff.1 hx).2.1
  · rw [hstate]
    have hidle := (Session.getStream_eq_some_iff.1 hx).2.2
    cases f.cat <;> simp [headersOutcome, hidle]

/-- **HEADERS that begin a request or a response** put their stream into another state than
CLOSING when they have been sent, unless the stream is closed. -/
theorem afterFrameSent1_headers {f : HeadersFrame} (h : o.session.Tabled)
    (haob : o.session.items.aob = some i) (hi : i < o.allocated)
    (hframe : (o.item i).frame = .headers f) (hcat : f.cat ≠ .headers)
    (hx : o.session.getStream (o.item i).streamId = some x)
    (hres : o.afterFrameSent1 env = .ok o') :
    if (o.session.info x).shutRd = true ∧ ((o.session.info x).shutWr = true ∨ f.endStream = true)
    then o'.session.getStream (o.item i).streamId = none
    else o'.session.getStream (o.item i).streamId = some x ∧
      (o'.session.info x).state ≠ .closing := by
  have hsub := submitAll_grows h env.onFrameSend
  have hget := (submitAll_same o env.onFrameSend).getStream (o.item i).streamId
  unfold Outbound.afterFrameSent1 at hres
  rw [haob] at hres
  dsimp only at hres
  rw [hframe] at hres
  have hstream := (hsub.item i hi).streamId
  rw [← hstream] at hx hget ⊢
  have hx' := hget.trans hx
  have hout := headersSent_outcome hsub.tabled hx' hres
  have hshut : ((o.submitAll env.onFrameSend).session.info x).shutRd = (o.session.info x).shutRd ∧
      ((o.submitAll env.onFrameSend).session.info x).shutWr = (o.session.info x).shutWr := by
    rcases (hsub.entry hx').2 with heq | heq
    · rw [heq]
      exact ⟨rfl, rfl⟩
    · rw [heq]
      exact ⟨rfl, rfl⟩
  rw [hshut.1, hshut.2] at hout
  split_ifs at hout ⊢
  · exact hout
  · refine ⟨hout.1, ?_⟩
    rw [hout.2]
    cases hc : f.cat with
    | headers => exact absurd hc hcat
    | request | response | pushResponse => simp [headersOutcome]

/-- The event ends the transmission of HEADERS that begin a request or a response, and the stream
is not closed by the event.  The callback for the HEADERS is called before the state is written,
so that RST_STREAM may be queued before the event or in it. -/
def Revives (o : Outbound) (id : ℕ) : Event → Prop
  | .frameSent1 _ => o.state = .sendData ∧ ∃ i f x, o.session.items.aob = some i ∧
      (o.item i).streamId = id ∧ (o.item i).frame = .headers f ∧ f.cat ≠ .headers ∧
      o.session.getStream id = some x ∧
      ¬ ((o.session.info x).shutRd = true ∧
        ((o.session.info x).shutWr = true ∨ f.endStream = true))
  | _ => False

/-- The stream has been reset, or it is closed. -/
def StaysReset (o : Outbound) (id : ℕ) : Prop :=
  ∀ x, o.session.getStream id = some x → (o.session.info x).state = .closing

/-- A stream that has been reset, while frames are submitted or streams are closed. -/
theorem Grows.staysReset (h : Grows o o') (hr : o.StaysReset id) : o'.StaysReset id := by
  intro x hx
  obtain ⟨hold, hinfo⟩ := h.entry hx
  exact hinfo.proceeds.closing (hr x hold)

/-- A stream that has been reset is not opened again when an item is prepared. -/
theorem Prepares.staysReset {o1 o2 : Outbound} (h : Prepares o1 o2 i (opensStream o1 i))
    (hpop : Popped o o1 i) (hf : o.Filed) (hu : o.Used id) (hr : o.StaysReset id) :
    o2.StaysReset id := by
  intro x hx
  rcases h.entry hx with ⟨hold, hinfo⟩ | ⟨st, hopened, -⟩
  · rw [hpop.getStream] at hold
    exact hinfo.proceeds.closing (hpop.info ▸ hr x hold)
  · have hmem := h.mem id st hopened
    have hmine := (hpop.filed hf).1.unsent_mine id hmem
    exact absurd hmem ((Session.used_own_iff hmine).1 (hpop.used.2 hu)).2

end Outbound

namespace Recorded

open Outbound

variable {r r' r₀ r₁ : Recorded} {e e₀ : Outbound.Event} {id : ℕ} {x : Ptr}

/-- The states of streams are written by `session_process_headers_frame`. -/
def Genuine (r : Recorded) : Outbound.Event → Prop
  | .session (.setState id st) =>
    ∃ pri, (r.out.processHeadersFrame id pri).2 = some (.setState id st)
  | .session (.fulfillPush id) => ∃ pri, (r.out.processHeadersFrame id pri).2 =
    some (.fulfillPush id)
  | _ => True

/-- A run that goes on from `r₀`. -/
inductive Later (C : Recorded → Outbound.Event → Prop) (r₀ : Recorded) : Recorded → Prop
  | refl : Later C r₀ r₀
  | step {r r' : Recorded} {e : Outbound.Event} (h : Later C r₀ r) (he : C r e)
      (hres : r.step e = .ok r') : Later C r₀ r'

/-- HEADERS on a stream in the state CLOSING do not write its state. -/
theorem Genuine.state_ne {ev : Session.Event} {a b : StreamInfo} (hg : Genuine r (.session ev))
    (ht : Session.Touches ev id a b) (hx : r.out.session.getStream id = some x)
    (ha : r.out.session.info x = a) (hclosing : a.state = .closing) : b.state = .closing := by
  have hstate : r.out.streamState x = .closing := by
    rw [← ha] at hclosing
    exact hclosing
  have hnone : ∀ pri, (r.out.processHeadersFrame id pri).2 = none := fun pri => by
    simp [processHeadersFrame, hx, hstate]
  rcases ht with rfl | ht
  · exact hclosing
  cases ev with
  | setState id' st =>
    obtain ⟨rfl, -⟩ := ht
    obtain ⟨pri, hpri⟩ := hg
    rw [hnone] at hpri
    cases hpri
  | fulfillPush id' =>
    obtain ⟨rfl, -, -⟩ := ht
    obtain ⟨pri, hpri⟩ := hg
    rw [hnone] at hpri
    cases hpri
  | shutdown id' rd wr =>
    rw [ht]
    exact hclosing
  | _ => exact ht.elim

theorem Reaches.foundUsed {C : Recorded → Outbound.Event → Prop} (h : Reaches C r) :
    r.out.FoundUsed := by
  induction h with
  | new server n p m => exact fun id x hx => absurd hx (new_getStream server n p m id x)
  | step hr hc hres ih => exact (turn_of_step hr.sound hres).foundUsed hr.sound ih

/-- HEADERS that begin a request or a response take their stream out of the state CLOSING, if it
is still there once they have been sent. -/
theorem revives_of_found {o o' : Outbound} {env : Env} {i : ItemPtr} {f : HeadersFrame} {y : Ptr}
    (hs : o.Sound) (hdata : o.state = .sendData) (haob : o.session.items.aob = some i)
    (hframe : (o.item i).frame = .headers f) (hcat : f.cat ≠ .headers)
    (hx : o.session.getStream (o.item i).streamId = some x)
    (hsent : o.afterFrameSent1 env = .ok o')
    (hy : o'.session.getStream (o.item i).streamId = some y) :
    o.Revives (o.item i).streamId (.frameSent1 env) := by
  have hout := afterFrameSent1_headers hs.tabled haob (hs.active.lt i haob) hframe hcat hx hsent
  split_ifs at hout with hshut
  · cases hout.symm.trans hy
  · exact ⟨hdata, i, f, x, haob, rfl, hframe, hcat, hx, hshut⟩

/-- **An event** that ends no HEADERS of the stream leaves it reset. -/
theorem Turn.staysReset (ht : Turn r e r') (hs : r.out.Sound) (hg : Genuine r e)
    (hu : r.out.Used id) (hr : r.out.StaysReset id) (hrev : ¬ r.out.Revives id e) :
    r'.out.StaysReset id := by
  refine ht.rule hs hr (fun _ _ _ h => h) (fun _ hg h => hg.staysReset h)
    (fun ev s he ho y hy => ?_)
    (fun _ _ _ h => h.prep.staysReset h.pop hs.filed hu hr)
    (fun o1 i ⟨haob, hsends, _, _, _, env, hsent, hevent⟩ y hy => ?_)
  · subst he
    rcases ho.entry hy with ⟨hold, htouch⟩ | harr
    · exact hg.state_ne htouch hold rfl (hr y hold)
    · exact absurd (hu.spent hs.filed) (not_spent_of_arrives harr)
  have hold := (hsends.entry hy).1
  have hkept := hsends.persists (W := fun id => ∃ f, (r.out.item i).frame = .headers f ∧
    f.cat ≠ .headers ∧ (r.out.item i).streamId = id) fun f hframe hcat => ⟨f, hframe, hcat, rfl⟩
  refine (hkept.entry (fun hw => ?_) hy).2 (hr y hold)
  -- the event would take the stream out of the state CLOSING, or it has closed it
  obtain ⟨f, hframe, hcat, rfl⟩ := hw
  have hdata : r.out.state = .sendData := by
    cases hstate : r.out.state with
    | sendData => rfl
    | popItem => cases haob.symm.trans (hs.active.aob.1 hstate)
    | sendNoCopy =>
      have hkind := hs.active.noCopy hstate i haob
      simp [OutboundItem.kind, hframe] at hkind
  rw [hevent hdata] at hrev
  exact hrev (revives_of_found hs hdata haob hframe hcat hold hsent hy)

/-- An event that ends HEADERS of the stream takes it out of the state CLOSING. -/
theorem not_staysReset_of_revives (hs : r.out.Sound) (hres : r.step e = .ok r')
    (hrev : r.out.Revives id e) : ¬ r'.out.StaysReset id := by
  cases e with
  | frameSent1 env =>
    obtain ⟨hdata, i, f, y, haob, rfl, hframe, hcat, hy, hshut⟩ := hrev
    have ho := (step_eq_ok hres).1
    dsimp only [Outbound.step] at ho
    rw [if_pos hdata] at ho
    obtain ⟨o1, hsent, ho⟩ := exists_of_map_eq_ok ho
    have hout := afterFrameSent1_headers hs.tabled haob (hs.active.lt i haob) hframe hcat hy hsent
    rw [if_neg hshut] at hout
    intro hstays
    rw [← ho] at hstays
    exact hout.2 (hstays y hout.1)
  | _ => exact hrev.elim

/-- The event queues RST_STREAM for the stream. -/
def QueuesReset (r r' : Recorded) (id : ℕ) : Prop :=
  ∃ i ∈ r'.out.obReg, r.out.allocated ≤ i ∧ (r'.out.item i).kind = .rstStream ∧
    (r'.out.item i).streamId = id

/-- **The event that queues RST_STREAM** leaves the stream reset, unless it ends HEADERS of the
stream. -/
theorem staysReset_of_queuesReset (hs : r.out.Sound) (hres : r.step e = .ok r')
    (hx : r.out.session.getStream id = some x) (hq : QueuesReset r r' id)
    (hrev : ¬ r.out.Revives id e) : r'.out.StaysReset id := by
  intro y hy
  obtain ⟨i, hi, hge, hk, rfl⟩ := hq
  have ho := (step_eq_ok hres).1
  have hlt := (((turn_of_step hs hres).sound hs).filed.reg i hi).1
  have hmade := step_news (S := fun _ => True) hs (fun _ _ => trivial)
    (fun _ _ _ => trivial) ho i hge hlt
  refine hmade.closing hk (fun hw => ?_) y hy
  -- the state is written after the callback, or the stream is closed
  cases e with
  | frameSent1 env =>
    obtain ⟨hdata, j, f, haob, hid, hframe, hcat⟩ := hw
    rw [← hid] at hx hy hrev
    dsimp only [Outbound.step] at ho
    rw [if_pos hdata] at ho
    obtain ⟨o1, hsent, ho⟩ := exists_of_map_eq_ok ho
    rw [← ho] at hy
    exact hrev (revives_of_found hs hdata haob hframe hcat hx hsent hy)
  | _ => exact hw

/-- **A reset stream.**  An event that queues RST_STREAM for a stream leaves it CLOSING exactly if
it does not end the transmission of HEADERS that begin a request or a response on the stream.
From then on the stream stays CLOSING until it is closed, and nothing is reported of it, in every
run in which no such HEADERS end their transmission; and such an end of a transmission takes it
out of the state CLOSING. -/
theorem reset_stays_iff_of_reaches (h₀ : Reaches Genuine r₀)
    (hx : r₀.out.session.getStream id = some x) (hg : Genuine r₀ e₀) (hres₀ : r₀.step e₀ = .ok r₁)
    (hq : QueuesReset r₀ r₁ id) :
    (r₁.out.StaysReset id ↔ ¬ r₀.out.Revives id e₀) ∧
    ∀ r, ¬ r₀.out.Revives id e₀ → Later (fun r e => Genuine r e ∧ ¬ r.out.Revives id e) r₁ r →
      r.out.StaysReset id ∧ r.out.Silent id ∧ ∀ e r', Genuine r e → r.step e = .ok r' →
        (r'.out.StaysReset id ↔ ¬ r.out.Revives id e) := by
  have hs₀ := h₀.sound
  have hstart : ¬ r₀.out.Revives id e₀ → r₁.out.StaysReset id :=
    staysReset_of_queuesReset hs₀ hres₀ hx hq
  refine ⟨⟨fun hr hrev => not_staysReset_of_revives hs₀ hres₀ hrev hr, hstart⟩, fun r hrev h => ?_⟩
  have hinv : Reaches Genuine r ∧ r.out.Used id ∧ r.out.StaysReset id := by
    induction h with
    | refl =>
      exact ⟨h₀.step hg hres₀, (turn_of_step hs₀ hres₀).used hs₀ (h₀.foundUsed hx), hstart hrev⟩
    | step _ he hres ih =>
      obtain ⟨hreach, hu, hr⟩ := ih
      have ht := turn_of_step hreach.sound hres
      exact ⟨hreach.step he.1 hres, ht.used hreach.sound hu,
        ht.staysReset hreach.sound he.1 hu hr he.2⟩
  obtain ⟨hreach, hu, hr⟩ := hinv
  refine ⟨hr, ?_, fun e r' hg hres => ⟨fun hr' hrev => ?_, fun hrev => ?_⟩⟩
  · cases hget : r.out.session.getStream id with
    | none => exact silent_of_used hget hu
    | some y => exact silent_of_closing hget (hr y hget)
  · exact not_staysReset_of_revives hreach.sound hres hrev hr'
  · exact (turn_of_step hreach.sound hres).staysReset hreach.sound hg hu hr hrev

/-- A check that the states of streams are left to the sending side. -/
def genuineFits : Outbound.Event → Bool
  | .session (.setState _ _) => false
  | .session (.fulfillPush _) => false
  | _ => true

theorem genuine_of_genuineFits (h : genuineFits e = true) : Genuine r e := by
  unfold genuineFits at h
  unfold Genuine
  split at h
  · cases h
  · cases h
  · trivial

/-- A server resets a stream whose response HEADERS have been sent.  While RST_STREAM is being
sent, the stream is still there, and nothing is reported of it. -/
theorem response_stays_reset : ∃ r₀ r₁ r, (Recorded.new true 100 100 200).run
      ([.session (.recvHeaders 1 .default), .submit (.response 1 [] true)] ++ quietTurn) = .ok r₀ ∧
    r₀.step (.submit (.rstStream 1)) = .ok r₁ ∧ r₁.step (.popItem quietEnv) = .ok r ∧
    (r₀.out.session.info 1).state = .opened ∧ r.out.session.getStream 1 = some 1 ∧
    r.out.StaysReset 1 ∧ r.out.Silent 1 := by
  have heval : (guardedRun step (fun _ e => genuineFits e) (Recorded.new true 100 100 200)
      ([.session (.recvHeaders 1 .default), .submit (.response 1 [] true)] ++ quietTurn)).map
        (fun r₀ =>
        (r₀.step (.submit (.rstStream 1))).map fun r₁ => (r₁.step (.popItem quietEnv)).map fun r =>
        decide ((r₀.out.session.getStream 1 = some 1 ∧ (r₀.out.session.info 1).state = .opened) ∧
          (r₁.out.obReg = [r₀.out.allocated] ∧
            (r₁.out.item r₀.out.allocated).kind = .rstStream ∧
            (r₁.out.item r₀.out.allocated).streamId = 1) ∧
          r.out.session.getStream 1 = some 1)) = .ok (.ok (.ok true)) := by decide +kernel
  obtain ⟨r₀, hrun, heval⟩ := exists_of_map_eq_ok heval
  obtain ⟨r₁, h₁, heval⟩ := exists_of_map_eq_ok heval
  obtain ⟨r, h₂, hobs⟩ := exists_of_map_eq_ok heval
  obtain ⟨⟨hget, hopened⟩, ⟨hreg, hkind, hid⟩, hget'⟩ := of_decide_eq_true hobs
  obtain ⟨hreach, hrun⟩ := reaches_of_guardedRun (fun _ => genuine_of_genuineFits) hrun
  have hg : Genuine r₀ (.submit (.rstStream 1)) := trivial
  have hstays := (reset_stays_iff_of_reaches hreach hget hg h₁
    ⟨_, by simp [hreg], le_rfl, hkind, hid⟩).2 r id
    (.step (e := .popItem quietEnv) .refl ⟨trivial, id⟩ h₂)
  exact ⟨r₀, r₁, r, hrun, h₁, h₂, hopened, hget', hstays.1, hstays.2.1⟩

/-- **A reset stream is opened again.**  A server resets stream 1 while the HEADERS of its
response are being sent.  When they have been sent, the stream is open, and HEADERS and DATA
that are received on it are reported. -/
theorem response_revives : ∃ r r', (Recorded.new true 100 100 200).run
      [.session (.recvHeaders 1 .default), .submit (.response 1 [] true), .popItem quietEnv,
        .submit (.rstStream 1)] = .ok r ∧
    r.out.session.getStream 1 = some 1 ∧ (r.out.session.info 1).state = .closing ∧
    r.step (.frameSent1 quietEnv) = .ok r' ∧ r'.out.session.getStream 1 = some 1 ∧
    (r'.out.session.info 1).state = .opened ∧ r'.out.onDataReceivedFailFast 1 = .read ∧
    r'.out.processHeadersFrame 1 .default = (.read, none) ∧ r'.out.frameReceived 1 = true := by
  refine exists_of_eval₂ (·.step (.frameSent1 quietEnv)) (fun r r' =>
    (r.out.session.getStream 1 = some 1 ∧ (r.out.session.info 1).state = .closing) ∧
    r'.out.session.getStream 1 = some 1 ∧ (r'.out.session.info 1).state = .opened ∧
    r'.out.onDataReceivedFailFast 1 = .read ∧ ((r'.out.processHeadersFrame 1 .default).1 = .read ∧
      (r'.out.processHeadersFrame 1 .default).2.isNone) ∧ r'.out.frameReceived 1 = true)
    (And.intro trivial) (by decide +kernel) ?_
  rintro r r' - hstep ⟨⟨hget, hclosing⟩, hget', hopened, hdata, ⟨hread, hnone⟩, hframe⟩
  exact ⟨hget, hclosing, hstep, hget', hopened, hdata,
    Prod.ext hread (Option.isNone_iff_eq_none.1 hnone), hframe⟩

end Recorded

end Nghttp2
