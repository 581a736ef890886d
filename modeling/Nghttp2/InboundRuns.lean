/-
# The receiver cuts the stream into frames

Each turn of the loop of `nghttp2_session_mem_recv` takes some bytes from the front of its
input.  The place in the byte stream that `session->iframe` stands for moves on by just
these bytes, unless the connection is given up; and the bytes that are counted against the
connection window are the payload of DATA frames among them.

* `WF`: what holds of the inbound frame between two turns;
* `Moves`: what a turn does, and `step_ok`: every turn does it;
* `recvLoop_eq`: the loop ends, and `memRecv_of_next`: the loop without fuel.
-/
import Nghttp2.Framing
import Nghttp2.Inbound

namespace Nghttp2.Inbound

open Format
open Hd (Bytes Emitted GoodInflater)

variable {σ : Type} {H : Handler σ} {r r' r1 : Receiver σ} {inp rest : Bytes}
  {calls calls' : List Call}

/-! ## The log -/

/-- The bytes that are counted against the connection window. -/
def connBytes : List Call → ℕ
  | [] => 0
  | .recvConnection n :: calls => n + connBytes calls
  | _ :: calls => connBytes calls

/-- The connection is not given up. -/
def Quiet (calls : List Call) : Prop := ∀ code reason, Call.terminate code reason ∉ calls

/-- Bytes are counted call by call. -/
theorem connBytes_append (calls calls' : List Call) :
    connBytes (calls ++ calls') = connBytes calls + connBytes calls' := by
  induction calls with
  | nil => simp [connBytes]
  | cons c calls ih =>
    cases c <;> simp only [List.cons_append, connBytes, ih, Nat.add_assoc]

variable {busy data : Bool} {c : Call} {state : IbState} {n : ℕ}

/-- A call counts no more than all of them. -/
theorem le_connBytes (h : Call.recvConnection n ∈ calls) : n ≤ connBytes calls := by
  induction calls with
  | nil => cases h
  | cons c calls ih =>
    rcases List.mem_cons.1 h with rfl | h
    · exact Nat.le_add_right _ _
    · have := ih h
      cases c <;> simp only [connBytes] <;> omega

/-- Parts of a quiet log are quiet. -/
theorem Quiet.of_append (h : Quiet (calls ++ calls')) : Quiet calls ∧ Quiet calls' :=
  ⟨fun c s hm => h c s (List.mem_append_left _ hm), fun c s hm =>
    h c s (List.mem_append_right _ hm)⟩

/-- The states that read the header of a frame. -/
def IbState.isHead : IbState → Bool
  | .readFirstSettings | .readHead | .expectContinuation | .ignContinuation => true
  | _ => false

/-- The states that read the payload of DATA. -/
def IbState.isData : IbState → Bool
  | .readPadData | .readData | .ignData => true
  | _ => false

namespace Receiver

/-- The calls have been made, and the inbound frame is as it was. -/
def Called (r r' : Receiver σ) (calls : List Call) : Prop :=
  ∃ env inflater inflated, r' = { r with env, inflater, inflated, log := r.log ++ calls }

/-- No call has been made. -/
theorem Called.refl (r : Receiver σ) : r.Called r [] :=
  ⟨r.env, r.inflater, r.inflated, by simp⟩

/-- Calls follow each other. -/
theorem Called.trans (h : r.Called r1 calls) (h' : r1.Called r' calls') :
    r.Called r' (calls ++ calls') := by
  obtain ⟨env, i, b, rfl⟩ := h
  obtain ⟨env', i', b', rfl⟩ := h'
  exact ⟨env', i', b', by simp⟩

/-- A call whose answer does not matter. -/
theorem called_tell (H : Handler σ) (c : Call) (r : Receiver σ) : r.Called (r.tell H c) [c] :=
  ⟨_, r.inflater, r.inflated, rfl⟩

/-- A call of the handler. -/
theorem called_call (H : Handler σ) (c : Call) (r : Receiver σ) : r.Called (r.call H c).2 [c] :=
  called_tell H c r

/-- A call of the handler, by its result. -/
theorem called_of_call {ans : Answer} (h : r.call H c = (ans, r1)) : r.Called r1 [c] := by
  have hcalled := called_call H c r
  rwa [h] at hcalled

/-- The inflater makes no call. -/
theorem called_inflate (r : Receiver σ) (i : GoodInflater) (inp rest : Bytes) :
    r.Called (r.inflate i inp rest) [] :=
  ⟨r.env, i, r.inflated ++ inp.take (inp.length - rest.length), by simp [inflate]⟩

/-- Calls have been made that count `n` bytes against the connection window. -/
def Counts (r r' : Receiver σ) (n : ℕ) : Prop := ∃ calls, r.Called r' calls ∧ connBytes calls = n

/-- Nothing is counted. -/
theorem Counts.refl (r : Receiver σ) : r.Counts r 0 := ⟨[], Called.refl r, rfl⟩

/-- The bytes add up. -/
theorem Counts.trans {m n : ℕ} (h : r.Counts r1 m) (h' : r1.Counts r' n) : r.Counts r' (m + n) := by
  obtain ⟨calls, h, rfl⟩ := h
  obtain ⟨calls', h', rfl⟩ := h'
  exact ⟨_, h.trans h', connBytes_append ..⟩

/-- What one call counts. -/
theorem counts_tell (H : Handler σ) (c : Call) (r : Receiver σ) :
    r.Counts (r.tell H c) (connBytes [c]) :=
  ⟨_, called_tell H c r, rfl⟩

/-- A call that counts nothing may be left out. -/
theorem counts_ite (H : Handler σ) (p : Prop) [Decidable p] (hc : connBytes [c] = 0)
    (r : Receiver σ) : r.Counts (if p then r.tell H c else r) 0 := by
  split_ifs
  · exact hc ▸ counts_tell H c r
  · exact .refl r

/-- A part of the payload has been read as well. -/
theorem Counts.advance (h : r.Counts r' n) (k : ℕ) : (r.advance k).Counts (r'.advance k) n := by
  obtain ⟨calls, ⟨env, i, b, rfl⟩, hn⟩ := h
  exact ⟨calls, ⟨env, i, b, rfl⟩, hn⟩

/-! ## The place in the stream -/

/-- The place in the byte stream. -/
def phase (r : Receiver σ) : Phase :=
  if r.state.isHead then .head r.sbuf else .ofLeft r.payloadleft r.state.isData

/-- The frame is read by a state that takes all of its payload. -/
def Whole (r : Receiver σ) : Prop :=
  r.type = some .headers ∨ r.type = some .pushPromise ∨ r.type = some .goaway

/-- The inbound frame between two turns of the loop. -/
structure WF (r : Receiver σ) : Prop where
  left_lt : r.payloadleft < 2 ^ 24
  head : r.state.isHead = true → r.mark = frameHdlen ∧ r.sbuf.length < frameHdlen
  nbyte : r.state = .readNbyte → r.sbuf.length < r.mark ∧ r.markAvail ≤ r.payloadleft ∧
    (¬r.Whole → r.payloadleft = r.markAvail)
  settings : r.state = .readSettings → r.mark = 0 ∧ r.sbuf = [] ∧ r.payloadleft = 0 ∨
    r.mark = 6 ∧ r.sbuf.length < 6 ∧ (r.payloadleft + r.sbuf.length) % 6 = 0 ∧ 0 < r.payloadleft
  padData : r.state = .readPadData → r.mark = 1 ∧ r.sbuf = [] ∧ 0 < r.payloadleft
  all : r.state = .ignAll → ¬Quiet r.log

/-- How many turns may follow without any input. -/
def rank (r : Receiver σ) : ℕ :=
  match r.state with
  | .readHeaderBlock => 3
  | .ignHeaderBlock | .frameSizeError | .readData => 2
  | .ignPayload | .readSettings | .readGoawayDebug | .ignData => 1
  | _ => 0

/-- The turns that may follow. -/
def size (r : Receiver σ) (inp : Bytes) : ℕ := 4 * inp.length + r.rank

end Receiver

open Receiver

/-- The bytes `used` have been read: the place in the stream moves on by them, and those that
are payload of DATA are counted against the connection window. -/
structure Tracked (r r' : Receiver σ) (used : Bytes) (calls : List Call) : Prop where
  phase : r'.phase = r.phase.scan used
  bytes : connBytes calls = r.phase.count used
  small : ∀ n, Call.recvConnection n ∈ calls → n < 2 ^ 24

/-- A turn of the loop: bytes are taken from the front of the input and read, unless the
connection is given up. -/
structure Moves (r : Receiver σ) (inp : Bytes) (r' : Receiver σ) (rest : Bytes) : Prop where
  wf : r'.WF
  frames : ∃ used calls, inp = used ++ rest ∧ r'.log = r.log ++ calls ∧
    (Quiet r'.log → Tracked r r' used calls)

/-- What a turn does: it moves; it makes something smaller if another one follows; and if
the function returns without a pause, all of the input has been taken. -/
def Turn.Ok (r : Receiver σ) (inp : Bytes) : Turn σ → Prop
  | .next r' rest busy => Moves r inp r' rest ∧
    (r'.size rest < r.size inp ∨ rest = [] ∧ busy = false)
  | .ret r' rest => Moves r inp r' rest ∧ rest = []
  | .pause r' rest => Moves r inp r' rest

/-! ## Single turns -/

/-- The states that are left by reading on in the payload, or without reading. -/
def IbState.plain : IbState → Bool
  | .readHeaderBlock | .ignHeaderBlock | .ignPayload | .frameSizeError | .readGoawayDebug
  | .readData | .ignData => true
  | _ => false

/-- Plain states keep no marks. -/
theorem wf_of_plain (hleft : r.payloadleft < 2 ^ 24) (hstate : r.state.plain = true) : r.WF := by
  refine ⟨hleft, ?_, ?_, ?_, ?_, ?_⟩ <;> intro h <;> cases hs : r.state <;>
    simp_all [IbState.plain, IbState.isHead]

/-- The fields at the start of a payload are read. -/
theorem wf_of_nbyte (hs : r.state = .readNbyte) (hleft : r.payloadleft < 2 ^ 24)
    (h : r.sbuf.length < r.mark ∧ r.markAvail ≤ r.payloadleft ∧
      (¬r.Whole → r.payloadleft = r.markAvail)) : r.WF := by
  refine ⟨hleft, ?_, fun _ => h, ?_, ?_, ?_⟩ <;> intro h' <;> rw [hs] at h' <;> cases h'

/-- A frame header is read. -/
theorem wf_of_head (hs : r.state.isHead = true) (hleft : r.payloadleft < 2 ^ 24)
    (hmark : r.mark = frameHdlen) (hlen : r.sbuf.length < frameHdlen) : r.WF := by
  refine ⟨hleft, fun _ => ⟨hmark, hlen⟩, ?_, ?_, ?_, ?_⟩ <;> intro h' <;> rw [h'] at hs <;>
    cases hs

/-- A frame is done with. -/
theorem wf_reset (r : Receiver σ) : r.reset.WF :=
  ⟨Nat.two_pow_pos 24, fun _ => ⟨rfl, Nat.succ_pos 8⟩, nofun, nofun, nofun, nofun⟩

/-- At most three turns follow without input. -/
theorem rank_le (r : Receiver σ) : r.rank ≤ 3 := by
  unfold rank
  split <;> omega

/-- `n` bytes of the payload have been read. -/
theorem Moves.of_payload (hlt : r.payloadleft < 2 ^ 24)
    (hphase : r.phase = .ofLeft r.payloadleft data)
    (hn : n ≤ r.payloadleft) (hle : n ≤ inp.length) (hwf : r'.WF)
    (hlog : r'.log = r.log ++ calls)
    (h : Quiet r'.log → r'.phase = .ofLeft (r.payloadleft - n) data ∧
      connBytes calls = if data then n else 0) :
    Moves r inp r' (inp.drop n) := by
  refine ⟨hwf, inp.take n, calls, (List.take_append_drop n inp).symm, hlog, fun hquiet => ?_⟩
  have hlen : (inp.take n).length = n := by rw [List.length_take]; omega
  obtain ⟨hscan, hcount⟩ := Phase.scan_ofLeft data (hlen.trans_le hn)
  rw [hlen] at hscan hcount
  obtain ⟨hp, hc⟩ := h hquiet
  refine ⟨by rw [hp, hphase, hscan], by rw [hc, hphase, hcount], fun k hk => ?_⟩
  have hk' := le_connBytes hk
  rw [hc] at hk'
  split_ifs at hk' <;> omega

/-! ### The header of a frame -/

/-- A turn after which less may follow. -/
theorem size_drop_lt (h : r'.rank < r.rank) : r'.size (inp.drop n) < r.size inp := by
  rw [size, size, List.length_drop]
  omega

/-- The frame type, as it is on the wire. -/
theorem type_eq_some {t : FrameType} (h : r.type = some t) : r.hd.type = t.code := by
  have := List.find?_some h
  simpa using (of_decide_eq_true this).symm

/-- The payload is not that of DATA. -/
theorem type_ne_data (h : r.type ≠ some .data) : r.hd.type ≠ FrameType.data.code := by
  intro heq
  apply h
  simp [Receiver.type, heq]

/-- The frame begins whose header has been read: nothing is counted yet, and all of its
payload is to come. -/
structure Begins (r r' : Receiver σ) (data : Bool) : Prop where
  wf : r'.WF
  calls : ∃ calls, r'.log = r.log ++ calls ∧ connBytes calls = 0 ∧
    (Quiet r'.log → r'.phase = .ofLeft r.payloadleft data)

/-- The connection is given up. -/
theorem not_quiet_terminate (H : Handler σ) (code : ErrorCode) (reason : String) (r : Receiver σ) :
    ¬Quiet (r.terminate H code reason).log := fun h =>
  h code (some reason) (List.mem_append_right _ (List.mem_singleton.2 rfl))

/-- The connection is given up before the payload. -/
theorem begins_terminate (H : Handler σ) (code : ErrorCode) (reason : String)
    (hstate : state.plain = true) (hleft : r.payloadleft < 2 ^ 24) (data : Bool) :
    Begins r { r.terminate H code reason with state } data :=
  ⟨wf_of_plain hleft hstate, [.terminate code (some reason)], rfl, rfl,
    fun h => absurd h (not_quiet_terminate H code reason r)⟩

/-- The rest of the payload is read in the state `state`; only the log and what is left of the
payload matter. -/
theorem begins_plain (state : IbState) (hstate : state.plain = true) (hlog : r1.log = r.log)
    (hleft1 : r1.payloadleft = r.payloadleft) (hleft : r.payloadleft < 2 ^ 24)
    (hdata : state ≠ .readData ∧ state ≠ .ignData) : Begins r { r1 with state } false := by
  refine ⟨wf_of_plain (hleft1 ▸ hleft) hstate, [], by simp [hlog], rfl, fun _ => ?_⟩
  rw [phase]
  cases state <;> simp_all [IbState.isHead, IbState.isData, IbState.plain]

/-- A header block follows. -/
theorem startBlock_begins (H : Handler σ) (hc : connBytes [c] = 0) (id : ℕ)
    (hleft : r.payloadleft < 2 ^ 24) : Begins r (startBlock H c id r) false := by
  unfold startBlock
  rcases hans : r.call H c with ⟨ans, r1⟩
  obtain ⟨env, i, b, rfl⟩ := called_of_call hans
  cases ans with
  | ok => exact ⟨wf_of_plain hleft rfl, _, rfl, hc, fun _ => rfl⟩
  | ignore => exact ⟨wf_of_plain hleft rfl, _, rfl, hc, fun _ => rfl⟩
  | temporal =>
    exact ⟨wf_of_plain hleft rfl, _, List.append_assoc _ _ _,
      by rw [connBytes_append, hc]; rfl, fun _ => rfl⟩

/-- Fields of `n` bytes follow. -/
theorem begins_nbyte (hpos : 0 < n) (hlog : r1.log = r.log)
    (hleft1 : r1.payloadleft = r.payloadleft) (hn : n ≤ r.payloadleft)
    (hwhole : ¬r1.Whole → r.payloadleft = n) (hleft : r.payloadleft < 2 ^ 24) :
    Begins r ({ r1 with state := .readNbyte }.setMark n) false := by
  rw [← hleft1] at hn hwhole hleft
  exact ⟨⟨hleft, nofun, fun _ => ⟨hpos, hn, hwhole⟩, nofun, nofun, nofun⟩, [],
    hlog.trans (List.append_nil _).symm, rfl, fun _ => congrArg (Phase.ofLeft · false) hleft1⟩

/-- Only the log and what is left of the payload matter. -/
theorem Begins.of_same (h : Begins r1 r' data) (hlog : r1.log = r.log)
    (hleft : r1.payloadleft = r.payloadleft) : Begins r r' data :=
  ⟨h.wf, by rw [← hlog, ← hleft]; exact h.calls⟩

/-- The Pad Length field is there. -/
theorem left_pos_of_padded (hlen : r.payloadleft = r.hd.length) (hmiss : ¬padMissing r = true)
    (hpad : r.flag flagPadded = true) : 1 ≤ r.payloadleft := by
  simp only [padMissing, hpad, Bool.true_and, decide_eq_true_eq] at hmiss
  omega

/-- DATA. -/
theorem beginData_begins (H : Handler σ) (hlen : r.payloadleft = r.hd.length)
    (hleft : r.payloadleft < 2 ^ 24) : Begins r (beginData H r).r true := by
  unfold beginData
  dsimp only
  generalize hr : r.maskFlags _ = r0
  refine Begins.of_same (?_ : Begins r0 _ _) (by rw [← hr]; rfl) (by rw [← hr]; rfl)
  have hleft' : r0.payloadleft < 2 ^ 24 := by rw [← hr]; exact hleft
  have hlen' : r0.payloadleft = r0.hd.length := by rw [← hr]; exact hlen
  rcases hans : r0.call H (.dataFailFast r0.hd) with ⟨ans, r1⟩
  obtain ⟨env, i, b, rfl⟩ := called_of_call hans
  have hign : ∀ state : IbState, state.plain = true → (state = .readData ∨ state = .ignData) →
      Begins r0 { r0 with
        state, env, inflater := i, inflated := b
        log := r0.log ++ [.dataFailFast r0.hd] } true := by
    intro state hplain hstate
    refine ⟨wf_of_plain hleft' hplain, _, rfl, rfl, fun _ => ?_⟩
    rcases hstate with rfl | rfl <;> rfl
  cases ans with
  | ok =>
    dsimp only
    split_ifs with hmiss hpad
    · refine ⟨wf_of_plain hleft' rfl, _, List.append_assoc _ _ _, rfl, fun h => ?_⟩
      exact absurd h (not_quiet_terminate H _ _ _)
    · refine ⟨⟨hleft', nofun, nofun, nofun, fun _ => ⟨rfl, rfl, ?_⟩, nofun⟩, _, rfl, rfl,
        fun _ => rfl⟩
      exact left_pos_of_padded hlen' hmiss hpad
    · exact hign .readData rfl (.inl rfl)
  | ignore => exact hign .ignData rfl (.inr rfl)
  | temporal => exact hign .ignData rfl (.inr rfl)

/-- The Pad Length field of a frame that has fields or a header block behind it. -/
theorem beginPadded_begins (H : Handler σ) (hwhole : r.Whole) (hlen : r.payloadleft = r.hd.length)
    (hleft : r.payloadleft < 2 ^ 24) {reason : String} {b : Begun σ} (hb : Begins r b.r false) :
    Begins r (if padMissing r then
        ⟨{ r with state := .ignPayload }.terminate H .protocolError reason, true, false⟩
      else if r.flag flagPadded then ⟨{ r.setMark 1 with state := .readNbyte }, false, false⟩
      else b : Begun σ).r false := by
  split_ifs with hmiss hpad
  · exact begins_terminate H _ _ rfl hleft _
  · exact begins_nbyte Nat.one_pos rfl rfl (left_pos_of_padded hlen hmiss hpad)
      (absurd hwhole) hleft
  · exact hb

/-- HEADERS. -/
theorem beginHeaders_begins (H : Handler σ) (htype : r.type = some .headers)
    (hlen : r.payloadleft = r.hd.length) (hleft : r.payloadleft < 2 ^ 24) :
    Begins r (beginHeaders H r).r false := by
  refine Begins.of_same (beginPadded_begins (r := r.maskFlags _) H (.inl htype)
    hlen hleft ?_) rfl rfl
  split_ifs with hpri hsize
  · exact begins_plain .frameSizeError rfl rfl rfl hleft ⟨nofun, nofun⟩
  · exact begins_nbyte hpri rfl rfl (not_lt.1 hsize) (absurd (.inl htype)) hleft
  · change (r.maskFlags (flagEndStream ||| flagEndHeaders ||| flagPadded
      ||| flagPriority)).payloadleft < 2 ^ 24 at hleft
    generalize r.maskFlags _ = r0 at *
    have hstart := startBlock_begins H (r := r0.tell H (.beginFrame r0.hd))
      (c := .headers r0.hd r0.sbuf) rfl r0.hd.streamId hleft
    obtain ⟨hwf, calls, hlog, hcount, hphase⟩ := hstart
    exact ⟨hwf, _, hlog.trans (List.append_assoc _ _ _), hcount, hphase⟩

/-- PUSH_PROMISE. -/
theorem beginPushPromise_begins (H : Handler σ) (htype : r.type = some .pushPromise)
    (hlen : r.payloadleft = r.hd.length) (hleft : r.payloadleft < 2 ^ 24) :
    Begins r (beginPushPromise H r).r false := by
  refine Begins.of_same (beginPadded_begins (r := r.maskFlags _) H
    (.inr (.inl htype)) hlen hleft ?_)
    rfl rfl
  split_ifs with hsize
  · exact begins_plain .frameSizeError rfl rfl rfl hleft ⟨nofun, nofun⟩
  · exact begins_nbyte (by norm_num) rfl rfl (not_lt.1 hsize) (absurd (.inr (.inl htype))) hleft

/-- SETTINGS. -/
theorem beginSettings_begins (hlen : r.payloadleft = r.hd.length) (hleft : r.payloadleft < 2 ^ 24) :
    Begins r (beginSettings r).r false := by
  unfold beginSettings
  dsimp only
  split_ifs with hbad hpos
  · exact begins_plain .frameSizeError rfl rfl rfl hleft ⟨nofun, nofun⟩
  · have hmod : r.hd.length % 6 = 0 := by
      by_contra hne
      exact hbad (.inl hne)
    refine ⟨⟨hleft, nofun, nofun, fun _ => .inr ⟨rfl, by norm_num [setMark], ?_, hpos⟩, nofun,
      nofun⟩, [], (List.append_nil _).symm, rfl, fun _ => rfl⟩
    rw [← hlen] at hmod
    exact hmod
  · have hzero : r.payloadleft = 0 := Nat.eq_zero_of_not_pos hpos
    exact ⟨⟨hleft, nofun, nofun, fun _ => .inl ⟨rfl, rfl, hzero⟩, nofun, nofun⟩, [],
      (List.append_nil _).symm, rfl, fun _ => rfl⟩

/-- Frames with fields of a fixed size. -/
theorem beginFixed_begins {good : Bool} (hpos : 0 < n) (hgood : good = true → n ≤ r.payloadleft)
    (hwhole : good = true → ¬r.Whole → r.payloadleft = n) (hleft : r.payloadleft < 2 ^ 24)
    (mask : UInt8) : Begins r (beginFixed r n good mask).r false := by
  unfold beginFixed
  dsimp only
  split_ifs with h
  · exact begins_nbyte hpos rfl rfl (hgood h) (hwhole h) hleft
  · exact begins_plain .frameSizeError rfl rfl rfl hleft ⟨nofun, nofun⟩

/-- **The frame begins**, whatever its type is. -/
theorem beginType_begins (H : Handler σ) (hlen : r.payloadleft = r.hd.length)
    (hleft : r.payloadleft < 2 ^ 24) :
    Begins r (beginType H r).r (decide (r.hd.type = FrameType.data.code)) := by
  -- the payload has one size
  have hexact {n : ℕ} {mask : UInt8} (hpos : 0 < n) :
      Begins r (beginFixed r n (r.payloadleft == n) mask).r false :=
    beginFixed_begins hpos (fun hg => (eq_of_beq hg).ge) (fun hg _ => eq_of_beq hg) hleft _
  unfold beginType
  by_cases hdata : r.type = some .data
  · rw [hdata, type_eq_some hdata]
    exact beginData_begins H hlen hleft
  rw [decide_eq_false (type_ne_data hdata)]
  split
  next h => exact absurd h hdata
  next h => exact beginHeaders_begins H h hlen hleft
  next => exact hexact (by norm_num)
  next => exact hexact (by norm_num)
  next => exact hexact (by norm_num)
  next => exact beginSettings_begins hlen hleft
  next h => exact beginPushPromise_begins H h hlen hleft
  next => exact hexact (by norm_num)
  next h =>
    exact beginFixed_begins (by norm_num) of_decide_eq_true
      (fun _ hw => absurd (.inr (.inr h)) hw) hleft _
  next => exact begins_terminate H _ _ rfl hleft _
  next => exact begins_plain .ignPayload rfl rfl rfl hleft ⟨nofun, nofun⟩

/-- What is known when a header has been read. -/
structure HeadRead (r r' : Receiver σ) : Prop where
  wf : r'.WF
  calls : ∃ calls, r'.log = r.log ++ calls ∧ connBytes calls = 0 ∧
    (Quiet r'.log → r'.phase = .ofHd (unpackFrameHd r.sbuf))

/-- A header has been read, and the turn goes on. -/
theorem headRead_spec (H : Handler σ) (r : Receiver σ) (rest : Bytes) :
    ∃ r' busy, headRead H r rest = .next r' rest busy ∧ HeadRead r r' := by
  have hlt := length_unpackFrameHd_lt r.sbuf
  unfold headRead
  dsimp only
  split_ifs with hlarge hcalled
  · refine ⟨_, _, rfl, wf_of_plain hlt rfl, _, rfl, rfl, fun h => ?_⟩
    exact absurd h (not_quiet_terminate H _ _ _)
  · obtain ⟨hwf, calls, hlog, hcount, hphase⟩ := beginType_begins H
      (r := { r with hd := unpackFrameHd r.sbuf, payloadleft := (unpackFrameHd r.sbuf).length })
        rfl hlt
    exact ⟨_, _, rfl, hwf, calls, hlog, hcount, hphase⟩
  obtain ⟨hwf, calls, hlog, hcount, hphase⟩ := beginType_begins H
    (r := { r with hd := unpackFrameHd r.sbuf, payloadleft := (unpackFrameHd r.sbuf).length }) rfl
      hlt
  generalize beginType H _ = b at *
  refine ⟨_, _, rfl, ⟨hwf.left_lt, hwf.head, hwf.nbyte, hwf.settings, hwf.padData, fun h hq => ?_⟩,
    calls ++ [.beginFrame b.r.hd], ?_, ?_, fun h => hphase ?_⟩
  · exact hwf.all h (hq.of_append).1
  · show b.r.log ++ _ = _
    rw [hlog, List.append_assoc]
  · rw [connBytes_append, hcount]
    rfl
  · exact h.of_append.1

/-- The place within a header. -/
theorem phase_of_isHead (h : r.state.isHead = true) : r.phase = .head r.sbuf := if_pos h

/-- The place within a payload. -/
theorem phase_of_body (hs : r.state = state) (hbody : state.isHead = false) :
    r.phase = .ofLeft r.payloadleft state.isData := by
  rw [phase, hs, if_neg (by simp [hbody])]

/-- A header is not complete without input. -/
theorem rank_of_isHead (h : r.state.isHead = true) : r.rank = 0 := by
  cases hs : r.state <;> simp_all [rank, IbState.isHead]

/-- **Reading a header.**  Either it is still not complete, and the input is used up; or it
is, and the rest of the input is behind it. -/
theorem bufRead_head (hmark : r.mark = frameHdlen) (hlt : r.sbuf.length < frameHdlen)
    (hphase : r.phase = .head r.sbuf) (inp : Bytes) :
    let q := r.bufRead inp
    (0 < q.1.markAvail ∧ q.2 = [] ∧ q.1 = { r with sbuf := r.sbuf ++ inp } ∧
        r.phase.scan inp = .head (r.sbuf ++ inp) ∧ r.phase.count inp = 0) ∨
    (¬0 < q.1.markAvail ∧ q.2.length < inp.length ∧
      ∃ used, inp = used ++ q.2 ∧ q.1 = { r with sbuf := r.sbuf ++ used } ∧
        r.phase.scan used = .ofHd (unpackFrameHd (r.sbuf ++ used)) ∧ r.phase.count used = 0) := by
  have havail : r.markAvail = frameHdlen - r.sbuf.length := by rw [markAvail, hmark]
  rw [hphase]
  by_cases hshort : inp.length < r.markAvail
  · have htake : inp.take r.markAvail = inp := List.take_of_length_le hshort.le
    obtain ⟨hscan, hcount⟩ := Phase.scan_short (l := inp)
      (by omega : r.sbuf.length + inp.length < frameHdlen)
    refine .inl ⟨?_, List.drop_of_length_le hshort.le, by rw [bufRead, htake], hscan, hcount⟩
    show 0 < r.mark - (r.sbuf ++ inp.take r.markAvail).length
    rw [htake, hmark, List.length_append]
    omega
  have hlen : (inp.take r.markAvail).length = r.markAvail := by rw [List.length_take]; omega
  have hne : inp.take r.markAvail ≠ [] := List.ne_nil_of_length_pos (by omega)
  obtain ⟨hscan, hcount⟩ := Phase.scan_full
    (by omega : r.sbuf.length + (inp.take r.markAvail).length = frameHdlen) hne
  refine .inr ⟨?_, ?_, inp.take r.markAvail, (List.take_append_drop _ _).symm, rfl, hscan, hcount⟩
  · simp only [bufRead, markAvail, List.length_append, hmark] at hlen havail ⊢
    omega
  · simp only [bufRead, List.length_drop]
    omega

/-- A turn that reads a header: it waits for the rest, or goes on with `k` when the header
is complete. -/
theorem ok_of_head (hwf : r.WF) (hstate : r.state.isHead = true) (inp : Bytes)
    {k : Receiver σ → Bytes → Turn σ}
    (hk : ∀ got rest,
      (∃ r' busy, k { r with sbuf := got } rest = .next r' rest busy ∧
        HeadRead { r with sbuf := got } r') ∨
      ∃ r', k { r with sbuf := got } rest = .ret r' [] ∧ r'.WF ∧
        (∃ calls, r'.log = r.log ++ calls) ∧ ¬Quiet r'.log) :
    Turn.Ok r inp (let q := r.bufRead inp
      if 0 < q.1.markAvail then .ret q.1 q.2 else k q.1 q.2) := by
  obtain ⟨hmark, hlt⟩ := hwf.head hstate
  have hphase := phase_of_isHead hstate
  rcases bufRead_head hmark hlt hphase inp with ⟨havail, hrest, hq, hscan, hcount⟩ |
    ⟨havail, hrest, used, hinp, hq, hscan, hcount⟩
  · dsimp only
    rw [if_pos havail, hrest]
    rw [hq] at havail ⊢
    have hlen : (r.sbuf ++ inp).length < frameHdlen := by
      rw [← hmark]
      exact Nat.lt_of_sub_pos havail
    refine ⟨⟨wf_of_head hstate hwf.left_lt hmark hlen, inp, [], (List.append_nil _).symm,
      (List.append_nil _).symm, fun _ => ⟨?_, hcount.symm, nofun⟩⟩, rfl⟩
    rw [hscan]
    exact phase_of_isHead hstate
  dsimp only
  rw [if_neg havail]
  generalize r.bufRead inp = q at *
  obtain ⟨r1, rest⟩ := q
  dsimp only at hq hrest hinp ⊢
  subst hq
  rcases hk (r.sbuf ++ used) rest with
    ⟨r', busy, hnext, hwf', calls, hlog, hconn, hp⟩ | ⟨r', hret, hwf', ⟨calls, hlog⟩, hquiet⟩
  · rw [hnext]
    refine ⟨⟨hwf', used, calls, hinp, hlog, fun hq => ⟨?_, ?_, fun n hn => ?_⟩⟩, .inl ?_⟩
    · rw [hp hq, hscan]
    · rw [hconn, hcount]
    · have := le_connBytes hn
      omega
    · have := rank_le r'
      rw [size, size, rank_of_isHead hstate]
      omega
  · rw [hret]
    exact ⟨⟨hwf', inp, calls, (List.append_nil _).symm, hlog, fun hq => absurd hq hquiet⟩, rfl⟩

/-- The turn in READ_HEAD. -/
theorem readHead_ok (hwf : r.WF) (hstate : r.state = .readHead) (inp : Bytes) :
    Turn.Ok r inp (readHead H r inp) :=
  ok_of_head hwf (by rw [hstate]; rfl) inp fun _ rest => .inl (headRead_spec H _ rest)

/-- The turn in READ_FIRST_SETTINGS. -/
theorem readFirstSettings_ok (hwf : r.WF) (hstate : r.state = .readFirstSettings) (inp : Bytes) :
    Turn.Ok r inp (readFirstSettings H r inp) := by
  have hhead : r.state.isHead = true := by rw [hstate]; rfl
  refine ok_of_head (k := firstRead H) hwf hhead inp fun got rest => ?_
  unfold firstRead
  split_ifs with hbad
  · have hquiet := not_quiet_terminate H .protocolError "SETTINGS expected"
      { r with sbuf := got, state := .ignAll }
    exact .inr ⟨_, rfl, ⟨hwf.left_lt, nofun, nofun, nofun, nofun, fun _ => hquiet⟩,
      ⟨_, rfl⟩, hquiet⟩
  · obtain ⟨r', busy, hnext, hread⟩ :=
      headRead_spec H { r with sbuf := got, state := .readHead } rest
    exact .inl ⟨r', busy, hnext, hread.wf, hread.calls⟩

/-- The turns in EXPECT_CONTINUATION and IGN_CONTINUATION. -/
theorem expectContinuation_ok (hwf : r.WF)
    (hstate : r.state = .expectContinuation ∨ r.state = .ignContinuation) (inp : Bytes) :
    Turn.Ok r inp (expectContinuation H r inp) := by
  have hhead : r.state.isHead = true := by rcases hstate with h | h <;> rw [h] <;> rfl
  refine ok_of_head (k := contRead H) hwf hhead inp fun got rest => .inl ?_
  have hlt := length_unpackFrameHd_lt got
  have hphase : (unpackFrameHd got).type = FrameType.continuation.code →
      .ofLeft (unpackFrameHd got).length false = Phase.ofHd (unpackFrameHd got) := by
    intro htype
    rw [Phase.ofHd, htype]
    rfl
  unfold contRead
  dsimp only
  split_ifs with hbad hexpect
  · refine ⟨_, _, rfl, wf_of_plain hlt rfl, _, rfl, rfl, fun h => ?_⟩
    exact absurd h (not_quiet_terminate H _ _ _)
  · exact ⟨_, _, rfl, wf_of_plain hlt rfl, _, rfl, rfl, fun _ => hphase (by tauto)⟩
  · exact ⟨_, _, rfl, wf_of_plain hlt rfl, [], (List.append_nil _).symm, rfl,
      fun _ => hphase (by tauto)⟩

/-! ### Payloads -/

/-- The frame ends with its fields. -/
theorem begins_reset {H : Handler σ} (hzero : r.payloadleft = 0) (hc : connBytes [c] = 0) :
    Begins r (r.tell H c).reset false :=
  ⟨wf_reset _, [c], rfl, hc, fun _ => by rw [hzero]; rfl⟩

/-- The length of the padding is recorded. -/
theorem computePad_eq_some (h : computePad r = some r') : ∃ padlen, r' = { r with padlen } := by
  simp only [computePad] at h
  split_ifs at h
  exact ⟨_, (Option.some.inj h).symm⟩

/-- **The fields have been read.** -/
theorem gotNbyte_begins (H : Handler σ) (hleft : r.payloadleft < 2 ^ 24)
    (hzero : ¬r.Whole → r.payloadleft = 0) : Begins r (gotNbyte H r).1 false := by
  have hover : ∀ t, r.type = some t → t ≠ .headers → t ≠ .pushPromise → t ≠ .goaway →
      r.payloadleft = 0 := by
    rintro t ht h1 h2 h3
    apply hzero
    rintro (h | h | h) <;> rw [ht] at h <;> cases h <;> contradiction
  unfold gotNbyte
  split
  next htype =>
    split_ifs with hpad
    · split
      next => exact begins_terminate H _ _ rfl hleft _
      next r1 hsome =>
        obtain ⟨padlen, rfl⟩ := computePad_eq_some hsome
        split_ifs with hpri hsize
        · exact begins_plain .frameSizeError rfl rfl rfl hleft ⟨nofun, nofun⟩
        · exact begins_nbyte hpri rfl rfl (not_lt.1 hsize) (absurd (.inl htype)) hleft
        · show Begins r (startBlock H (.headers r.hd []) r.hd.streamId
            ({ r with padlen }.setMark 0)) false
          have hstart := startBlock_begins H (r := { r with padlen }.setMark 0)
            (c := .headers r.hd []) rfl r.hd.streamId hleft
          exact hstart.of_same rfl rfl
    · exact startBlock_begins H (c := .headers r.hd r.sbuf) rfl _ hleft
  next htype =>
    split_ifs with hpad
    · split
      next => exact begins_terminate H _ _ rfl hleft _
      next r1 hsome =>
        obtain ⟨padlen, rfl⟩ := computePad_eq_some hsome
        split_ifs with hsize
        · exact begins_plain .frameSizeError rfl rfl rfl hleft ⟨nofun, nofun⟩
        · exact begins_nbyte (by norm_num) rfl rfl (not_lt.1 hsize)
            (absurd (.inr (.inl htype))) hleft
    · exact (startBlock_begins H (c := .pushPromise r.hd r.sbuf) rfl _ hleft :
        Begins { r with promised := BigEndian.getBe (r.sbuf.take 4) % 2 ^ 31 } _ _).of_same rfl rfl
  next => exact begins_plain .readGoawayDebug rfl rfl rfl hleft ⟨nofun, nofun⟩
  next h => exact begins_reset (hover _ h nofun nofun nofun) rfl
  next h => exact begins_reset (hover _ h nofun nofun nofun) rfl
  next h => exact begins_reset (hover _ h nofun nofun nofun) rfl
  next h => exact begins_reset (hover _ h nofun nofun nofun) rfl
  next h1 h2 h3 _ _ _ _ =>
    have hz : r.payloadleft = 0 := hzero fun h => h.elim h1 fun h => h.elim h2 h3
    exact ⟨wf_reset _, [], (List.append_nil _).symm, rfl, fun _ => by rw [hz]; rfl⟩

/-- No more is dropped than there is. -/
theorem drop_min (inp : Bytes) (n : ℕ) : inp.drop (min inp.length n) = inp.drop n := by
  rcases le_total n inp.length with h | h
  · rw [min_eq_right h]
  · rw [min_eq_left h, List.drop_length, List.drop_of_length_le h]

/-- What `sbuf` still wants. -/
theorem markAvail_bufRead (r : Receiver σ) (inp : Bytes) :
    (r.bufRead inp).1.markAvail = r.markAvail - min inp.length r.markAvail := by
  simp only [bufRead, markAvail, List.length_append, List.length_take]
  omega

/-- The turn in READ_NBYTE. -/
theorem readNbyte_ok (hwf : r.WF) (hstate : r.state = .readNbyte) (inp : Bytes) :
    Turn.Ok r inp (readNbyte H r inp) := by
  obtain ⟨hmark, hle, hwhole⟩ := hwf.nbyte hstate
  have hphase : r.phase = .ofLeft r.payloadleft false := phase_of_body hstate rfl
  have hpos : 0 < r.markAvail := by
    rw [markAvail]
    omega
  have havail := markAvail_bufRead r inp
  unfold readNbyte
  dsimp only
  set n := min inp.length r.markAvail with hn
  have hrest : (r.bufRead inp).2 = inp.drop n := (drop_min inp r.markAvail).symm
  rw [hrest]
  have hleft : r.payloadleft - n < 2 ^ 24 := by have := hwf.left_lt; omega
  have havail' : ((r.bufRead inp).1.advance n).markAvail = r.markAvail - n := havail
  split_ifs with hmore
  · rw [havail'] at hmore
    refine ⟨Moves.of_payload hwf.left_lt hphase (by omega) (by omega)
      (wf_of_nbyte hstate hleft ⟨?_, ?_, ?_⟩)
      (List.append_nil _).symm fun _ => ⟨?_, rfl⟩, List.drop_of_length_le (by omega)⟩
    · have hlt : 0 < ((r.bufRead inp).1.advance n).markAvail := by rw [havail']; exact hmore
      exact Nat.lt_of_sub_pos hlt
    · rw [havail']
      exact Nat.sub_le_sub_right hle n
    · intro hw
      rw [havail', ← hwhole hw]
      rfl
    · exact phase_of_body (r := (r.bufRead inp).1.advance n) hstate rfl
  rw [havail'] at hmore
  have hzero : ¬((r.bufRead inp).1.advance n).Whole →
      ((r.bufRead inp).1.advance n).payloadleft = 0 := by
    intro hw
    have := hwhole hw
    show r.payloadleft - n = 0
    omega
  obtain ⟨hwf', calls, hlog, hconn, hp⟩ := gotNbyte_begins H hleft hzero
  refine ⟨Moves.of_payload hwf.left_lt hphase (by omega) (by omega) hwf' hlog fun hq =>
    ⟨hp hq, hconn⟩, .inl ?_⟩
  have := rank_le (gotNbyte H ((r.bufRead inp).1.advance n)).1
  rw [size, size, List.length_drop]
  omega

/-- What is read is there. -/
theorem payloadReadlen_le (r : Receiver σ) (inp : Bytes) :
    r.payloadReadlen inp ≤ r.payloadleft ∧ r.payloadReadlen inp ≤ inp.length :=
  ⟨min_le_right _ _, min_le_left _ _⟩

/-- If something is left of the payload, nothing is left of the input. -/
theorem drop_payloadReadlen (h : 0 < r.payloadleft - r.payloadReadlen inp) :
    inp.drop (r.payloadReadlen inp) = [] := by
  apply List.drop_of_length_le
  rw [payloadReadlen] at h ⊢
  omega

/-- Plain states read payloads. -/
theorem isHead_of_plain (h : state.plain = true) : state.isHead = false := by
  cases state <;> simp_all [IbState.plain, IbState.isHead]

/-- A turn may follow a plain state without input. -/
theorem rank_pos_of_plain (h : r.state.plain = true) : 0 < r.rank := by
  cases hs : r.state <;> simp_all [IbState.plain, rank]

/-- A turn that reads what there is of the payload: it waits for more in the same state, or
the payload has been read and `r'` follows. -/
theorem ok_of_body {r1 : Receiver σ} (hwf : r.WF) (hplain : r.state.plain = true)
    (hstate : r1.state = r.state) (hleft : r1.payloadleft = r.payloadleft - r.payloadReadlen inp)
    (hlog : r1.log = r.log ++ calls)
    (hconn : connBytes calls = if r.state.isData then r.payloadReadlen inp else 0)
    (hdone : r'.WF ∧ r'.rank = 0 ∧ (∃ more, r'.log = r1.log ++ more ∧ connBytes more = 0) ∧
      r'.phase = .head []) :
    Turn.Ok r inp (if 0 < r1.payloadleft
      then .next r1 (inp.drop (r.payloadReadlen inp)) false
      else .next r' (inp.drop (r.payloadReadlen inp)) busy) := by
  obtain ⟨hle, hle'⟩ := payloadReadlen_le r inp
  have hphase := phase_of_body rfl (isHead_of_plain hplain)
  have hrank := rank_pos_of_plain hplain
  split_ifs with hmore
  · have hwf1 : r1.WF := wf_of_plain (by have := hwf.left_lt; omega) (hstate ▸ hplain)
    refine ⟨Moves.of_payload hwf.left_lt hphase hle hle' hwf1 hlog fun _ =>
      ⟨?_, hconn⟩, .inr ⟨?_, rfl⟩⟩
    · rw [phase_of_body hstate (isHead_of_plain hplain), hleft]
    · exact drop_payloadReadlen (by omega)
  have hzero : r.payloadleft - r.payloadReadlen inp = 0 := by omega
  obtain ⟨hwf', hr, ⟨more, hlog', hcm⟩, hp⟩ := hdone
  have hlog2 : r'.log = r.log ++ (calls ++ more) := by rw [hlog', hlog, List.append_assoc]
  refine ⟨Moves.of_payload hwf.left_lt hphase hle hle' hwf' hlog2 fun _ => ⟨?_, ?_⟩, .inl ?_⟩
  · rw [hp, hzero, Phase.ofLeft_zero]
  · rw [connBytes_append, hcm, hconn, Nat.add_zero]
  · rw [size, size, hr, List.length_drop]
    omega

/-- No call is made. -/
theorem log_spoil (r : Receiver σ) : (spoil r).log = r.log := by
  unfold spoil
  split <;> rfl

/-- The turn in IGN_PAYLOAD. -/
theorem ignPayload_ok (hwf : r.WF) (hstate : r.state = .ignPayload) (inp : Bytes) :
    Turn.Ok r inp (ignPayload r inp) :=
  ok_of_body hwf (by rw [hstate]; rfl) rfl rfl (List.append_nil _).symm (by rw [hstate]; rfl)
    ⟨wf_reset _, rfl, ⟨[], (log_spoil _).trans (List.append_nil _).symm, rfl⟩, rfl⟩

/-- The turn in READ_GOAWAY_DEBUG. -/
theorem readGoawayDebug_ok (hwf : r.WF) (hstate : r.state = .readGoawayDebug) (inp : Bytes) :
    Turn.Ok r inp (readGoawayDebug H r inp) :=
  ok_of_body hwf (by rw [hstate]; rfl) rfl rfl (List.append_nil _).symm (by rw [hstate]; rfl)
    ⟨wf_reset _, rfl, ⟨_, rfl, rfl⟩, rfl⟩

/-- DATA that is ignored is counted once. -/
theorem ignoredRead_counts (H : Handler σ) (r : Receiver σ) (n : ℕ) :
    r.Counts (ignoredRead H r n) n := by
  unfold ignoredRead
  dsimp only
  split_ifs
  · exact (counts_tell H (.recvConnection n) r).trans (counts_tell H _ _)
  · exact counts_tell H (.recvConnection n) r

/-- The turn in IGN_DATA. -/
theorem ignData_ok (hwf : r.WF) (hstate : r.state = .ignData) (inp : Bytes) :
    Turn.Ok r inp (ignData H r inp) := by
  obtain ⟨calls, hcalled, hconn⟩ : (r.advance (r.payloadReadlen inp)).Counts
      (if 0 < r.payloadReadlen inp
        then ignoredRead H (r.advance (r.payloadReadlen inp)) (r.payloadReadlen inp)
        else r.advance (r.payloadReadlen inp)) (r.payloadReadlen inp) := by
    split_ifs with hpos
    · exact ignoredRead_counts H _ _
    · exact Nat.eq_zero_of_not_pos hpos ▸ Counts.refl _
  unfold ignData
  dsimp only
  generalize (if 0 < r.payloadReadlen inp then _ else _ : Receiver σ) = r1 at hcalled ⊢
  obtain ⟨env, i, b, rfl⟩ := hcalled
  exact ok_of_body hwf (by rw [hstate]; rfl) rfl rfl rfl (by rw [hconn, hstate]; rfl)
    ⟨wf_reset _, rfl, ⟨[], (List.append_nil _).symm, rfl⟩, rfl⟩

/-- The entries are handed over once. -/
theorem log_processSettings (H : Handler σ) (r : Receiver σ) :
    (processSettings H r).log = r.log ++ [.settings r.hd r.iv r.least] := by
  unfold processSettings
  dsimp only
  split <;> rfl

/-- An entry of SETTINGS is read. -/
theorem wf_of_settings (hs : r.state = .readSettings) (hleft : r.payloadleft < 2 ^ 24)
    (h : r.mark = 6 ∧ r.sbuf.length < 6 ∧ (r.payloadleft + r.sbuf.length) % 6 = 0 ∧
      0 < r.payloadleft) : r.WF := by
  refine ⟨hleft, ?_, ?_, fun _ => .inr h, ?_, ?_⟩ <;> intro h' <;> rw [hs] at h' <;> cases h'

/-- The turn in READ_SETTINGS. -/
theorem readSettings_ok (hwf : r.WF) (hstate : r.state = .readSettings) (inp : Bytes) :
    Turn.Ok r inp (readSettings H r inp) := by
  have hphase : r.phase = .ofLeft r.payloadleft false := phase_of_body hstate rfl
  have hrank : r.rank = 1 := by rw [rank, hstate]
  have hlt := hwf.left_lt
  have havail := markAvail_bufRead r inp
  unfold readSettings
  dsimp only
  set n := min inp.length r.markAvail with hn
  have hrest : (r.bufRead inp).2 = inp.drop n := (drop_min inp r.markAvail).symm
  have hsbuf : ((r.bufRead inp).1.advance n).sbuf.length = r.sbuf.length + n := by
    show (r.sbuf ++ inp.take r.markAvail).length = _
    rw [List.length_append, List.length_take, min_comm]
  rw [hrest]
  have havail' : ((r.bufRead inp).1.advance n).markAvail = r.markAvail - n := havail
  generalize hr1 : (r.bufRead inp).1.advance n = r1 at hsbuf havail' ⊢
  have hstate1 : r1.state = .readSettings := by rw [← hr1]; exact hstate
  have hleft1 : r1.payloadleft = r.payloadleft - n := by rw [← hr1]; rfl
  have hmark1 : r1.mark = r.mark := by rw [← hr1]; rfl
  have hlog1 : r1.log = r.log := by rw [← hr1]; rfl
  -- what is wanted in `sbuf` is there, as the payload is made of whole entries
  have hmarks := hwf.settings hstate
  have hn_le : n ≤ r.payloadleft := by
    rcases hmarks with ⟨hm, hs, hl⟩ | ⟨hm, hs, hl, hpos⟩
    · simp only [markAvail, hm] at hn
      omega
    · simp only [markAvail, hm] at hn
      omega
  by_cases hmore : 0 < r1.markAvail
  · rw [if_pos hmore]
    rw [havail'] at hmore
    obtain ⟨hm, hs, hl, hpos⟩ : r.mark = 6 ∧ r.sbuf.length < 6 ∧
        (r.payloadleft + r.sbuf.length) % 6 = 0 ∧ 0 < r.payloadleft := by
      rcases hmarks with ⟨hm, -, -⟩ | h
      · simp only [markAvail, hm] at hmore
        omega
      · exact h
    have hav : r.markAvail = 6 - r.sbuf.length := by rw [markAvail, hm]
    refine ⟨Moves.of_payload hwf.left_lt hphase hn_le (by omega) (wf_of_settings hstate1 (by omega)
      ⟨hmark1.trans hm, by omega, by omega, by omega⟩) (hlog1.trans (List.append_nil _).symm)
      fun _ => ⟨?_, rfl⟩, .inr ⟨List.drop_of_length_le (by omega), rfl⟩⟩
    rw [phase_of_body hstate1 rfl, hleft1]
    rfl
  rw [if_neg hmore]
  rw [havail'] at hmore
  obtain ⟨iv, least, hr2⟩ : ∃ iv least,
      (if 0 < n then setSettingsEntry r1 else r1) = { r1 with iv, least } := by
    split_ifs
    · exact ⟨_, _, rfl⟩
    · exact ⟨r1.iv, r1.least, rfl⟩
  rw [hr2]
  dsimp only
  by_cases hleft : 0 < r1.payloadleft
  · rw [if_pos hleft]
    obtain ⟨hm, hs, hl, hpos⟩ : r.mark = 6 ∧ r.sbuf.length < 6 ∧
        (r.payloadleft + r.sbuf.length) % 6 = 0 ∧ 0 < r.payloadleft :=
      hmarks.resolve_left fun h => by omega
    have hav : r.markAvail = 6 - r.sbuf.length := by rw [markAvail, hm]
    refine ⟨Moves.of_payload hwf.left_lt hphase hn_le (by omega) (wf_of_settings hstate1 ?_
      ⟨rfl, by norm_num [setMark], ?_, hleft⟩) (hlog1.trans (List.append_nil _).symm)
      fun _ => ⟨?_, rfl⟩, .inl ?_⟩
    · show r1.payloadleft < 2 ^ 24
      omega
    · show (r1.payloadleft + 0) % 6 = 0
      omega
    · rw [phase_of_body (r := ({ r1 with iv, least } : Receiver σ).setMark 6) hstate1 rfl]
      show Phase.ofLeft r1.payloadleft _ = _
      rw [hleft1]
      rfl
    · have hrank2 : (({ r1 with iv, least } : Receiver σ).setMark 6).rank = 1 := by
        show rank r1 = 1
        rw [rank, hstate1]
      rw [size, size, hrank, hrank2, List.length_drop]
      omega
  rw [if_neg hleft]
  have hzero : r.payloadleft - n = 0 := by omega
  refine ⟨Moves.of_payload hwf.left_lt hphase hn_le (by omega) (wf_reset _)
    ((log_processSettings H _).trans (congrArg (· ++ _) hlog1)) fun _ => ⟨?_, rfl⟩, .inl ?_⟩
  · rw [hzero]
    rfl
  · rw [size, size, hrank, List.length_drop]
    show 4 * (inp.length - n) + 0 < _
    omega

/-! ### DATA -/

/-- The Pad Length field is counted once. -/
theorem padCounted_counts (H : Handler σ) (r : Receiver σ) (n : ℕ) :
    r.Counts (padCounted H r n) n :=
  ((counts_tell H (.recvConnection n) r).trans (counts_tell H _ _)).trans
    (counts_ite H _ (c := .recvStream r.hd.streamId n (mayUpdate r)) rfl _)

/-- The Pad Length field of DATA has been read. -/
theorem padDataRead_spec (H : Handler σ) (hleft : r.payloadleft < 2 ^ 24) (n : ℕ) :
    (padDataRead H r n).WF ∧ (∃ calls, (padDataRead H r n).log = r.log ++ calls ∧
    connBytes calls = n) ∧
      (padDataRead H r n).phase = .ofLeft r.payloadleft true := by
  obtain ⟨calls, hcalled, hconn⟩ := padCounted_counts H r n
  unfold padDataRead
  dsimp only
  generalize padCounted H r n = r1 at hcalled
  obtain ⟨env, i, b, rfl⟩ := hcalled
  split
  next =>
    refine ⟨wf_of_plain hleft rfl, ⟨_, List.append_assoc _ _ _, ?_⟩, rfl⟩
    rw [connBytes_append, hconn]
    rfl
  next r2 hsome =>
    obtain ⟨padlen, rfl⟩ := computePad_eq_some hsome
    exact ⟨wf_of_plain hleft rfl, ⟨_, rfl, hconn⟩, rfl⟩

/-- The turn in READ_PAD_DATA. -/
theorem readPadData_ok (hwf : r.WF) (hstate : r.state = .readPadData) (inp : Bytes) :
    Turn.Ok r inp (readPadData H r inp) := by
  obtain ⟨hmark, hsbuf, hpos⟩ := hwf.padData hstate
  have hphase : r.phase = .ofLeft r.payloadleft true := phase_of_body hstate rfl
  have hlt := hwf.left_lt
  have hmarkAvail : r.markAvail = 1 := by rw [markAvail, hmark, hsbuf]; rfl
  cases inp with
  | nil =>
    have hturn : readPadData H r [] = .ret r [] := by
      have hbuf : r.bufRead [] = (r, []) := by simp [bufRead]
      have hzero : r.advance (min ([] : Bytes).length r.markAvail) = r := by simp [advance]
      simp only [readPadData, hbuf, hzero]
      rw [if_pos (by omega)]
    rw [hturn]
    exact ⟨⟨hwf, [], [], rfl, (List.append_nil _).symm, fun _ => ⟨rfl, rfl, nofun⟩⟩, rfl⟩
  | cons b inp =>
    have hleft : r.payloadleft - 1 < 2 ^ 24 := by omega
    obtain ⟨hwf', ⟨calls, hlog, hconn⟩, hphase'⟩ := padDataRead_spec H
      (r := { r with sbuf := [b], payloadleft := r.payloadleft - 1 }) hleft 1
    have hturn : readPadData H r (b :: inp) =
        .next (padDataRead H { r with sbuf := [b], payloadleft := r.payloadleft - 1 } 1)
          inp true := by
      simp [readPadData, bufRead, hsbuf, advance, markAvail, hmark]
    rw [hturn]
    generalize padDataRead H _ 1 = r1 at *
    have hmoves : Moves r (b :: inp) r1 ((b :: inp).drop 1) :=
      Moves.of_payload hwf.left_lt hphase hpos (by simp) hwf' hlog fun _ => ⟨hphase', hconn⟩
    refine ⟨hmoves, .inl ?_⟩
    have := rank_le r1
    rw [size, size, List.length_cons]
    omega

/-- A piece of DATA is counted once. -/
theorem dataCounted_counts (H : Handler σ) (r : Receiver σ) (n : ℕ) :
    r.Counts (dataCounted H r n) n :=
  ((counts_tell H (.recvConnection n) r).trans (counts_tell H _ _)).trans
    (counts_ite H _ (c := .consume r.hd.streamId _) rfl _)

/-- The turns at the end of a piece of DATA of `n` bytes, all of which have been counted. -/
theorem dataRead_ok (hwf : r.WF) (hstate : r.state = .readData) {r1 : Receiver σ}
    (h : (r.advance (r.payloadReadlen inp)).Counts r1 (r.payloadReadlen inp)) :
    Turn.Ok r inp (dataRead H r1 (inp.drop (r.payloadReadlen inp))) := by
  obtain ⟨calls, ⟨env, i, b, rfl⟩, hconn⟩ := h
  exact ok_of_body hwf (by rw [hstate]; rfl) rfl rfl rfl (by rw [hconn, hstate]; rfl)
    ⟨wf_reset _, rfl, ⟨_, rfl, rfl⟩, rfl⟩

/-- A piece has been read, and the receiver is left in the state `state`. -/
theorem moves_to {r1 : Receiver σ} (hwf : r.WF) (hplain : r.state.plain = true)
    (hstate : state.plain = true) (hdata : state.isData = r.state.isData) (hle : n ≤ r.payloadleft)
    (hle' : n ≤ inp.length)
    (h : (r.advance n).Counts r1 (if r.state.isData then n else 0)) :
    Moves r inp { r1 with state } (inp.drop n) := by
  obtain ⟨calls, ⟨env, i, b, rfl⟩, hconn⟩ := h
  refine Moves.of_payload hwf.left_lt (phase_of_body rfl (isHead_of_plain hplain)) hle hle'
    (wf_of_plain ((Nat.sub_le _ _).trans_lt hwf.left_lt) hstate) rfl fun _ => ⟨?_, hconn⟩
  rw [← hdata]
  exact phase_of_body rfl (isHead_of_plain hstate)

/-- A piece has been read, and the state stays. -/
theorem moves_of_counts {r1 : Receiver σ} (hwf : r.WF) (hplain : r.state.plain = true)
    (hle : n ≤ r.payloadleft) (hle' : n ≤ inp.length)
    (h : (r.advance n).Counts r1 (if r.state.isData then n else 0)) :
    Moves r inp r1 (inp.drop n) := by
  have hstate : r1 = { r1 with state := r.state } := by
    obtain ⟨calls, ⟨env, i, b, rfl⟩, -⟩ := h
    rfl
  rw [hstate]
  exact moves_to hwf hplain hplain rfl hle hle' h

/-- DATA is handed over. -/
theorem handData_ok (hwf : r.WF) (hstate : r.state = .readData) {r1 : Receiver σ}
    (h : (r.advance (r.payloadReadlen inp)).Counts r1 (r.payloadReadlen inp)) (data : Bytes) :
    Turn.Ok r inp (handData H r1 data (inp.drop (r.payloadReadlen inp))) := by
  obtain ⟨hle, hle'⟩ := payloadReadlen_le r inp
  have hplain : r.state.plain = true := by rw [hstate]; rfl
  have hdata : r.state.isData = true := by rw [hstate]; rfl
  unfold handData
  rcases hans : r1.call H (.httpData r1.hd.streamId data.length) with ⟨ans, r2⟩
  -- the calls that follow do not count anything
  have h2 := h.trans ⟨_, called_of_call hans, rfl⟩
  have hviol : Turn.Ok r inp (.next { tell H (.rstStream (if H.noAutoWindowUpdate = true
        then r2.tell H (.consumeConnection data.length) else r2).hd.streamId .protocolError)
        (if H.noAutoWindowUpdate = true then r2.tell H (.consumeConnection data.length) else r2)
        with state := .ignData } (inp.drop (r.payloadReadlen inp)) true) := by
    have h3 := h2.trans (counts_ite H (H.noAutoWindowUpdate = true)
      (c := .consumeConnection data.length) rfl r2)
    generalize (if H.noAutoWindowUpdate = true then _ else r2) = r3 at h3 ⊢
    refine ⟨moves_to hwf hplain rfl hdata.symm hle hle' ?_, .inl ?_⟩
    · rw [hdata]
      exact h3.trans (counts_tell H (.rstStream r3.hd.streamId .protocolError) r3)
    · exact size_drop_lt (show 1 < r.rank by rw [rank, hstate]; decide)
  cases ans with
  | ok =>
    dsimp only
    have h3 := h2.trans (counts_tell H (.dataChunk r2.hd data) r2)
    split_ifs with hpause
    · refine moves_of_counts hwf hplain hle hle' ?_
      rw [hdata]
      exact h3
    · exact dataRead_ok hwf hstate h3
  | ignore => exact hviol
  | temporal => exact hviol

/-- The turn in READ_DATA. -/
theorem readData_ok (hwf : r.WF) (hstate : r.state = .readData) (inp : Bytes) :
    Turn.Ok r inp (readData H r inp) := by
  have hplain : r.state.plain = true := by rw [hstate]; rfl
  have hcounts := dataCounted_counts H (r.advance (r.payloadReadlen inp)) (r.payloadReadlen inp)
  unfold readData
  dsimp only
  split_ifs with hstream hpos hdata
  · have hmoves : Moves r inp { r.advance 0 with state := .ignData } (inp.drop 0) :=
      moves_to hwf hplain rfl (by rw [hstate]; rfl) (Nat.zero_le _) (Nat.zero_le _)
        (by rw [hstate]; exact .refl _)
    exact ⟨hmoves, .inl (size_drop_lt (n := 0) (show 1 < r.rank by rw [rank, hstate]; decide))⟩
  · exact handData_ok hwf hstate hcounts _
  · exact dataRead_ok hwf hstate hcounts
  · have hzero := Nat.eq_zero_of_not_pos hpos
    exact dataRead_ok hwf hstate (by rw [hzero]; exact .refl _)

/-! ### Header blocks -/

/-- A header block has been read on: the calls made are about its fields. -/
def BlockResult.Fields (r : Receiver σ) (cb : Bool) : BlockResult σ → Prop
  | .ok r' => r.Counts r' 0
  | .pause r' _ => cb = true ∧ r.Counts r' 0
  | .temporal r' _ => cb = true ∧ r.Counts r' 0
  | .headerComp r' => r.Counts r' 0

/-- Fields that were read before. -/
theorem BlockResult.Fields.trans {cb : Bool} {q : BlockResult σ} (h : r.Counts r1 0)
    (hq : q.Fields r1 cb) : q.Fields r cb := by
  cases q with
  | ok r' => exact h.trans hq
  | pause r' rest => exact ⟨hq.1, h.trans hq.2⟩
  | temporal r' rest => exact ⟨hq.1, h.trans hq.2⟩
  | headerComp r' => exact h.trans hq

/-- Nothing is counted for a bad header block. -/
theorem compressionFailed_counts (H : Handler σ) (r : Receiver σ) :
    r.Counts (compressionFailed H r) 0 :=
  (counts_ite H (r.state = .readHeaderBlock) (c := .rstStream r.subject .compressionError) rfl
    r).trans (counts_tell H (.terminate .compressionError none) _)

/-- The same for a turn. -/
def BlockTurn.Fields (r : Receiver σ) (cb : Bool) : BlockTurn σ → Prop
  | .stop q => q.Fields r cb
  | .again r' _ => r.Counts r' 0

/-- A header field is handed over. -/
theorem headerTurn_fields (H : Handler σ) (cb : Bool) (em : Hd.Emitted) (h : r.Counts r1 0)
    (rest : Bytes) : (headerTurn H cb em r1 rest).Fields r cb := by
  unfold headerTurn
  split_ifs with hcb
  · have h2 := h.trans (counts_tell H (.header r1.hd em) r1)
    generalize hq : r1.call H (.header r1.hd em) = q
    obtain ⟨ans, r2⟩ := q
    obtain rfl : r1.tell H (.header r1.hd em) = r2 := congrArg Prod.snd hq
    cases ans with
    | ok =>
      dsimp only
      split_ifs with hpause
      · exact ⟨hcb, h2⟩
      · exact h2
    | ignore => exact h2
    | temporal => exact ⟨hcb, h2⟩
  · exact h

/-- One call of the inflater. -/
theorem inflateTurn_fields (H : Handler σ) (final cb : Bool) (r : Receiver σ) (inp : Bytes) :
    (inflateTurn H final cb r inp).Fields r cb := by
  unfold inflateTurn
  generalize r.inflater.call _ = i
  have hread : ∀ rest, r.Counts (r.inflate i inp rest) 0 := fun rest =>
    ⟨[], called_inflate r i inp rest, rfl⟩
  split
  next =>
    obtain ⟨calls, ⟨env, i', b, hr⟩, hconn⟩ := compressionFailed_counts H { r with inflater := i }
    exact ⟨calls, ⟨env, i', b, hr⟩, hconn⟩
  next _ rest em _ => exact headerTurn_fields H cb em (hread rest) rest
  next _ rest _ => exact ⟨[], called_inflate r _ inp rest, rfl⟩
  next _ rest _ =>
    split_ifs with hrest
    · exact hread rest
    · exact hread rest

/-- All calls of the inflater. -/
theorem blockLoop_fields {final cb : Bool} {fuel : ℕ} {q : BlockResult σ}
    (h : blockLoop H final cb fuel r inp = some q) : q.Fields r cb := by
  induction fuel generalizing r inp with
  | zero => cases h
  | succ fuel ih =>
    have hturn := inflateTurn_fields H final cb r inp
    rw [blockLoop] at h
    generalize inflateTurn H final cb r inp = t at hturn h
    cases t with
    | stop q' =>
      cases h
      exact hturn
    | again r' rest => exact (ih h).trans hturn

/-- A piece of a header block. -/
theorem inflateHeaderBlock_fields (H : Handler σ) (final cb : Bool) (r : Receiver σ)
    (inp : Bytes) : (inflateHeaderBlock H final cb r inp).Fields r cb :=
  blockLoop_fields (Option.some_get _).symm

/-- The fragment ends. -/
theorem endFragment_spec (H : Handler σ) (hleft : r.payloadleft < 2 ^ 24) :
    (endFragment H r).WF ∧ (endFragment H r).rank = 0 ∧
      (∃ more, (endFragment H r).log = r.log ++ more ∧ connBytes more = 0) ∧
      (endFragment H r).phase = .head [] := by
  have hnil : ∃ more, r.log = r.log ++ more ∧ connBytes more = 0 :=
    ⟨[], (List.append_nil _).symm, rfl⟩
  by_cases hend : r.flag flagEndHeaders = false
  · -- the next frame header is read into the same buffer
    have heq : endFragment H r = { r.setMark frameHdlen with
        padlen := 0
        state := if r.state = .readHeaderBlock then .expectContinuation else .ignContinuation } :=
      if_pos hend
    have hhead : (endFragment H r).state.isHead = true := by
      rw [heq]
      dsimp only
      split_ifs <;> rfl
    have hempty : (endFragment H r).sbuf = [] := by rw [heq]; rfl
    have hmark : (endFragment H r).mark = frameHdlen := by rw [heq]; rfl
    have hpl : (endFragment H r).payloadleft = r.payloadleft := by rw [heq]; rfl
    have hlog : (endFragment H r).log = r.log := by rw [heq]; rfl
    rw [hlog]
    refine ⟨wf_of_head hhead (hpl ▸ hleft) hmark (by rw [hempty]; exact Nat.succ_pos 8),
      rank_of_isHead hhead, hnil, ?_⟩
    rw [phase, if_pos hhead, hempty]
  by_cases hs : r.state = .readHeaderBlock
  · have heq : endFragment H r = (r.tell H (.afterHeaderBlock r.hd)).reset := by
      rw [endFragment, if_neg hend, if_pos hs]
    rw [heq]
    exact ⟨wf_reset _, rfl, ⟨_, rfl, rfl⟩, rfl⟩
  · have heq : endFragment H r = r.reset := by rw [endFragment, if_neg hend, if_neg hs]
    rw [heq]
    exact ⟨wf_reset _, rfl, hnil, rfl⟩

/-- The turns in READ_HEADER_BLOCK and IGN_HEADER_BLOCK. -/
theorem readHeaderBlock_ok (hwf : r.WF)
    (hstate : r.state = .readHeaderBlock ∨ r.state = .ignHeaderBlock) (inp : Bytes) :
    Turn.Ok r inp (readHeaderBlock H r inp) := by
  obtain ⟨hle, hle'⟩ := payloadReadlen_le r inp
  have hlt := hwf.left_lt
  have hplain : r.state.plain = true := by rcases hstate with h | h <;> rw [h] <;> rfl
  have hdata : r.state.isData = false := by rcases hstate with h | h <;> rw [h] <;> rfl
  have hrank : 2 ≤ r.rank := by rcases hstate with h | h <;> simp [rank, h]
  have hcounts : ∀ {r'} (n : ℕ), r.Counts r' 0 →
      (r.advance n).Counts (r'.advance n) (if r.state.isData then n else 0) := by
    intro r' n h
    rw [hdata]
    exact h.advance n
  -- the piece has been read
  have hfragment : ∀ {r'}, r.Counts r' 0 →
      Turn.Ok r inp (fragmentRead H (r'.advance (r.payloadReadlen inp))
        (inp.drop (r.payloadReadlen inp))) := by
    intro r' h
    obtain ⟨calls, ⟨env, i, b, heq⟩, hc⟩ := hcounts (r.payloadReadlen inp) h
    have hleft : (r'.advance (r.payloadReadlen inp)).payloadleft =
        r.payloadleft - r.payloadReadlen inp := by rw [heq]; rfl
    have hlog : (r'.advance (r.payloadReadlen inp)).log = r.log ++ calls := by rw [heq]; rfl
    have hs : (r'.advance (r.payloadReadlen inp)).state = r.state := by rw [heq]; rfl
    have hlt' : (r'.advance (r.payloadReadlen inp)).payloadleft < 2 ^ 24 := by omega
    exact ok_of_body hwf hplain hs hleft hlog hc (endFragment_spec H hlt')
  unfold readHeaderBlock
  dsimp only
  generalize hdl : effectiveReadlen r.trail (r.payloadleft - r.payloadReadlen inp)
      (r.payloadReadlen inp) = dataReadlen
  split_ifs with hpad
  · have hdle : dataReadlen.toNat ≤ r.payloadReadlen inp := by
      rw [← hdl, effectiveReadlen]
      dsimp only
      split_ifs <;> omega
    generalize hfinal : (r.flag flagEndHeaders &&
      decide (r.payloadleft - dataReadlen.toNat = r.trail)) = final
    generalize dataReadlen.toNat = n at hdle ⊢
    have hlen : (inp.take n).length ≤ n := List.length_take_le _ _
    have hfields := inflateHeaderBlock_fields H final (decide (r.state = .readHeaderBlock))
      r (inp.take n)
    generalize inflateHeaderBlock H _ _ r _ = q at hfields ⊢
    cases q with
    | ok r' => exact hfragment hfields
    | pause r' left =>
      exact moves_of_counts hwf hplain (by omega) (by omega) (hcounts _ hfields.2)
    | temporal r' left =>
      obtain ⟨hcb, h⟩ := hfields
      refine ⟨moves_to hwf hplain rfl hdata.symm (by omega) (by omega)
        ((hcounts _ h).trans (counts_tell H (.rstStream _ .internalError) _)), .inl ?_⟩
      exact size_drop_lt (show 2 < r.rank by rw [rank, of_decide_eq_true hcb]; decide)
    | headerComp r' =>
      have h := hcounts (r.payloadReadlen inp) hfields
      rw [blockRead]
      split_ifs with hzero
      · obtain ⟨calls, ⟨env, i, b, hr⟩, hconn⟩ := h
        rw [hr] at hzero ⊢
        have hzero' : r.payloadleft - r.payloadReadlen inp = 0 := hzero
        refine ⟨Moves.of_payload hwf.left_lt (phase_of_body rfl (isHead_of_plain hplain)) hle hle'
          (wf_reset _) rfl fun _ => ⟨?_, hconn⟩, .inl ?_⟩
        · rw [hzero']
          rfl
        · exact size_drop_lt (Nat.zero_lt_of_lt hrank)
      · exact ⟨moves_to hwf hplain rfl hdata.symm hle hle' h, .inl (size_drop_lt hrank)⟩
  · exact hfragment (.refl r)

/-! ## The loop -/

/-- **Every turn of the loop moves on in the stream.** -/
theorem step_ok (hwf : r.WF) (inp : Bytes) : Turn.Ok r inp (step H r inp) := by
  unfold step
  split
  next h => exact readFirstSettings_ok hwf h inp
  next h => exact readHead_ok hwf h inp
  next h => exact readNbyte_ok hwf h inp
  next h => exact readHeaderBlock_ok hwf (.inl h) inp
  next h => exact readHeaderBlock_ok hwf (.inr h) inp
  next h => exact ignPayload_ok hwf h inp
  next h =>
    have hplain : r.state.plain = true := by rw [h]; rfl
    have hmoves : Moves r inp { tell H (.terminate .frameSizeError none) (r.advance 0) with
        state := .ignPayload } (inp.drop 0) :=
      moves_to hwf hplain rfl (by rw [h]; rfl) (Nat.zero_le _) (Nat.zero_le _)
        (by rw [h]; exact counts_tell H _ _)
    exact ⟨hmoves, .inl (size_drop_lt (n := 0) (show 1 < r.rank by rw [rank, h]; decide))⟩
  next h => exact readSettings_ok hwf h inp
  next h => exact readGoawayDebug_ok hwf h inp
  next h => exact expectContinuation_ok hwf (.inl h) inp
  next h => exact expectContinuation_ok hwf (.inr h) inp
  next h => exact readPadData_ok hwf h inp
  next h => exact readData_ok hwf h inp
  next h => exact ignData_ok hwf h inp
  next h =>
    exact ⟨⟨hwf, inp, [], (List.append_nil _).symm, (List.append_nil _).symm,
      fun hq => absurd hq (hwf.all h)⟩, rfl⟩

/-- The result of the loop does not depend on the fuel, if there is enough of it. -/
theorem exists_recvLoop (H : Handler σ) (hwf : r.WF) (inp : Bytes) :
    ∃ q, ∀ fuel, r.size inp < fuel → recvLoop H fuel r inp = some q := by
  -- what a turn makes smaller bounds the turns that follow
  induction hn : r.size inp using Nat.strong_induction_on generalizing r inp with
  | _ n ih =>
    have hok := step_ok (H := H) hwf inp
    cases hstep : step H r inp with
    | ret r' rest =>
      refine ⟨⟨r', rest, false⟩, fun fuel hfuel => ?_⟩
      obtain ⟨fuel, rfl⟩ := Nat.exists_eq_succ_of_ne_zero (Nat.ne_zero_of_lt hfuel)
      rw [recvLoop, hstep]
    | pause r' rest =>
      refine ⟨⟨r', rest, true⟩, fun fuel hfuel => ?_⟩
      obtain ⟨fuel, rfl⟩ := Nat.exists_eq_succ_of_ne_zero (Nat.ne_zero_of_lt hfuel)
      rw [recvLoop, hstep]
    | next r' rest busy =>
      rw [hstep] at hok
      by_cases hstop : rest = [] ∧ busy = false
      · refine ⟨⟨r', rest, false⟩, fun fuel hfuel => ?_⟩
        obtain ⟨fuel, rfl⟩ := Nat.exists_eq_succ_of_ne_zero (Nat.ne_zero_of_lt hfuel)
        rw [recvLoop, hstep]
        exact if_pos hstop
      · have hlt : r'.size rest < r.size inp := hok.2.resolve_right hstop
        obtain ⟨q, hq⟩ := ih _ (hn ▸ hlt) hok.1.wf rest rfl
        refine ⟨q, fun fuel hfuel => ?_⟩
        obtain ⟨fuel, rfl⟩ := Nat.exists_eq_succ_of_ne_zero (Nat.ne_zero_of_lt hfuel)
        rw [recvLoop, hstep]
        exact (if_neg hstop).trans (hq fuel (by omega))

/-- The fuel of `memRecv` suffices. -/
theorem size_lt (r : Receiver σ) (inp : Bytes) : r.size inp < 4 * inp.length + 5 := by
  have := rank_le r
  rw [size]
  omega

/-- **The loop ends**: it takes no more turns than `size` allows. -/
theorem recvLoop_eq (hwf : r.WF) {fuel : ℕ} (h : r.size inp < fuel) :
    recvLoop H fuel r inp = some (memRecv H r inp) := by
  obtain ⟨q, hq⟩ := exists_recvLoop H hwf inp
  rw [hq fuel h, memRecv, hq _ (size_lt r inp)]
  rfl

/-- The loop, turn by turn. -/
theorem memRecv_of_next (hwf : r.WF) (h : step H r inp = .next r' rest busy) :
    memRecv H r inp = if rest = [] ∧ busy = false then ⟨r', rest, false⟩
      else memRecv H r' rest := by
  have hok := step_ok (H := H) hwf inp
  rw [h] at hok
  apply Option.some.inj
  rw [← recvLoop_eq hwf (size_lt r inp), recvLoop, h]
  dsimp only
  split_ifs with hstop
  · rfl
  · have hlt : r'.size rest < r.size inp := hok.2.resolve_right hstop
    have := size_lt r inp
    exact recvLoop_eq hok.1.wf (by omega)

end Nghttp2.Inbound
