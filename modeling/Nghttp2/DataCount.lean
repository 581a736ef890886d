/-
# DATA counts once against the connection window

Every byte of the payload of DATA frames is counted against the connection window, padding
included, whether the frame is for the application or is ignored.  A byte may be read in
three states, and the state may change within a frame; the input may be cut anywhere, and
a callback may pause.

* `memRecv_moves`: a call of `nghttp2_session_mem_recv` moves on in the stream;
* `Feeds`: the bytes are given to the function piece by piece;
* `recv_add_announced_of_feeds`: then `recv_window_size` and what has been announced to the
  peer make up the DATA that was received.
-/
import Nghttp2.InboundRuns
import Nghttp2.Window

namespace Nghttp2

namespace Inbound

open Format Receiver
open Hd (Bytes)

variable {σ : Type} {H : Handler σ} {r r' r1 : Receiver σ} {inp rest rest' : Bytes}
  {calls calls' : List Call}

/-! ## Calls -/

theorem Tracked.trans {used used' : Bytes} (h : Tracked r r1 used calls)
    (h' : Tracked r1 r' used' calls') : Tracked r r' (used ++ used') (calls ++ calls') where
  phase := by rw [h'.phase, h.phase, Phase.scan_append]
  bytes := by rw [connBytes_append, Phase.count_append, h.bytes, h'.bytes, h.phase]
  small n hn := (List.mem_append.1 hn).elim (h.small n) (h'.small n)

theorem Moves.refl (hwf : r.WF) (inp : Bytes) : Moves r inp r inp :=
  ⟨hwf, [], [], rfl, (List.append_nil _).symm, fun _ => ⟨rfl, rfl, nofun⟩⟩

theorem Moves.trans (h : Moves r inp r1 rest) (h' : Moves r1 rest r' rest') :
    Moves r inp r' rest' := by
  obtain ⟨-, used, calls, hinp, hlog, htrack⟩ := h
  obtain ⟨hwf, used', calls', hinp', hlog', htrack'⟩ := h'
  refine ⟨hwf, used ++ used', calls ++ calls', ?_, ?_, fun hq => ?_⟩
  · rw [hinp, hinp', List.append_assoc]
  · rw [hlog', hlog, List.append_assoc]
  · exact (htrack (hlog' ▸ hq).of_append.1).trans (htrack' hq)

theorem recvLoop_moves (hwf : r.WF) {fuel : ℕ} {q : Recv σ}
    (h : recvLoop H fuel r inp = some q) : Moves r inp q.r q.rest := by
  induction fuel generalizing r inp with
  | zero => cases h
  | succ fuel ih =>
    have hok := step_ok (H := H) hwf inp
    rw [recvLoop] at h
    generalize step H r inp = t at hok h
    cases t with
    | ret r' rest =>
      cases h
      exact hok.1
    | pause r' rest =>
      cases h
      exact hok
    | next r' rest busy =>
      dsimp only at h
      split_ifs at h
      · cases h
        exact hok.1
      · exact hok.1.trans (ih hok.1.wf h)

/-- **A call moves on in the stream.** -/
theorem memRecv_moves (hwf : r.WF) (inp : Bytes) :
    Moves r inp (memRecv H r inp).r (memRecv H r inp).rest :=
  recvLoop_moves hwf (recvLoop_eq hwf (size_lt r inp))

/-! ## Feeding a receiver -/

/-- Bytes are given to `nghttp2_session_mem_recv` in pieces, and some are still to be given.
What a call leaves of its piece is given again, together with what comes next; between the
calls the rest of the session may change. -/
inductive Feeds (H : Handler σ) : Receiver σ → Bytes → Receiver σ → Bytes → Prop
  | done (r : Receiver σ) (inp : Bytes) : Feeds H r inp r inp
  | call {r r' : Receiver σ} {piece later rest : Bytes}
      (h : Feeds H (memRecv H r piece).r ((memRecv H r piece).rest ++ later) r' rest) :
      Feeds H r (piece ++ later) r' rest
  | other {r r' : Receiver σ} {inp rest : Bytes} (env : σ)
      (h : Feeds H { r with env } inp r' rest) : Feeds H r inp r' rest

theorem Moves.append (h : Moves r inp r' rest) (later : Bytes) :
    Moves r (inp ++ later) r' (rest ++ later) := by
  obtain ⟨hwf, used, calls, hinp, htail⟩ := h
  exact ⟨hwf, used, calls, by rw [hinp, List.append_assoc], htail⟩

theorem Moves.of_env (hwf : r.WF) (env : σ) (inp : Bytes) : Moves r inp { r with env } inp :=
  ⟨⟨hwf.left_lt, hwf.head, hwf.nbyte, hwf.settings, hwf.padData, hwf.all⟩, [], [], rfl,
    (List.append_nil _).symm, fun _ => ⟨rfl, rfl, nofun⟩⟩

/-- **The stream is read in order**, in whatever pieces it comes. -/
theorem Feeds.moves (h : Feeds H r inp r' rest) (hwf : r.WF) : Moves r inp r' rest := by
  induction h with
  | done r inp => exact Moves.refl hwf inp
  | @call r r' piece later rest h ih =>
    have hcall := memRecv_moves (H := H) hwf piece
    exact (hcall.append later).trans (ih hcall.wf)
  | @other r r' inp rest env h ih =>
    have henv := Moves.of_env hwf env inp
    exact henv.trans (ih henv.wf)

theorem wf_start (env : σ) : (Receiver.start env).WF :=
  ⟨Nat.two_pow_pos 24, fun _ => ⟨rfl, Nat.succ_pos 8⟩, nofun, nofun, nofun, nofun⟩

/-! ## The connection window -/

/-- What happens to the connection window, if the application leaves it alone. -/
def connEvents : List Call → List Window.Event
  | [] => []
  | .recvConnection n :: calls => .receive (Fin.ofNat (2 ^ 24) n) true :: connEvents calls
  | .consume _ n :: calls | .consumeConnection n :: calls =>
    .consume (Fin.ofNat (2 ^ 31) n) :: connEvents calls
  | _ :: calls => connEvents calls

theorem connEvents_spec (h : ∀ n, Call.recvConnection n ∈ calls → n < 2 ^ 24) :
    ((connEvents calls).map Window.Event.bytes).sum = connBytes calls ∧
      ∀ delta, Window.Event.submit delta ∉ connEvents calls := by
  induction calls with
  | nil => exact ⟨rfl, nofun⟩
  | cons c calls ih =>
    obtain ⟨hsum, hall⟩ := ih fun n hn => h n (List.mem_cons_of_mem _ hn)
    cases c with
    | recvConnection n =>
      refine ⟨?_, fun delta hm => ?_⟩
      swap
      · exact hall delta ((List.mem_cons.1 hm).resolve_left nofun)
      have hn : n % 2 ^ 24 = n := Nat.mod_eq_of_lt (h n List.mem_cons_self)
      rw [connEvents, List.map_cons, List.sum_cons, hsum]
      exact congrArg (· + connBytes calls) hn
    | consume _ _ | consumeConnection _ =>
      refine ⟨hsum ▸ Nat.zero_add _, fun delta hm => ?_⟩
      exact hall delta ((List.mem_cons.1 hm).resolve_left nofun)
    | _ => exact ⟨hsum, hall⟩

end Inbound

namespace Window

variable {o : Outcome} {w : Window}

theorem localSize_updateRecvWindowSize {n : ℤ} {send : Bool}
    (h : updateRecvWindowSize w n send = some o) : o.window.localSize = w.localSize := by
  unfold updateRecvWindowSize at h
  cases hadj : adjustRecvWindowSize w.recvSize n w.localSize with
  | none =>
    rw [hadj] at h
    cases h
  | some p =>
    rw [hadj] at h
    simp only [Option.bind_eq_bind, Option.bind_some, Option.pure_def] at h
    split_ifs at h <;> cases h <;> rfl

/-- The size of a window changes by the application's WINDOW_UPDATE only. -/
theorem localSize_call {e : Event} (hsubmit : ∀ delta, e ≠ .submit delta)
    (h : w.call true e = some o) : o.window.localSize = w.localSize := by
  cases e with
  | submit delta => exact absurd rfl (hsubmit delta)
  | receive n send => exact localSize_updateRecvWindowSize h
  | consume n =>
    -- it is refused
    cases h
    rfl

theorem Ledger.run_receive {events : List Event} {l l' : Ledger}
    (hall : ∀ delta, Event.submit delta ∉ events) (h : l.run true events = some l') :
    l'.window.localSize = l.window.localSize ∧
      l'.received = l.received + (events.map Event.bytes).sum := by
  induction events generalizing l with
  | nil =>
    cases h
    exact ⟨rfl, rfl⟩
  | cons e events ih =>
    have hall' : ∀ delta, Event.submit delta ∉ events :=
      fun delta hm => hall delta (List.mem_cons_of_mem _ hm)
    have hsubmit : ∀ delta, e ≠ .submit delta :=
      fun delta he => hall delta (he ▸ List.mem_cons_self)
    unfold Ledger.run at h ih
    rw [List.foldlM_cons] at h
    obtain ⟨l1, hstep, hrun⟩ := Option.bind_eq_some_iff.1 h
    obtain ⟨o, ho, hl1⟩ := Option.bind_eq_some_iff.1 hstep
    cases hl1
    obtain ⟨hlocal, hreceived⟩ := ih hall' hrun
    refine ⟨hlocal.trans (localSize_call hsubmit ho), ?_⟩
    rw [hreceived, List.map_cons, List.sum_cons]
    exact Nat.add_assoc _ _ _

end Window

namespace Inbound

open Format Receiver
open Hd (Bytes)

variable {σ : Type} {H : Handler σ} {r : Receiver σ} {env : σ} {inp rest : Bytes}

/-- **DATA counts once.**  Whatever the rest of the session answers and however the stream
is cut, `recv_window_size` and the increments of the WINDOW_UPDATE frames that were queued
make up the payload of DATA in the bytes that were taken. -/
theorem recv_add_announced_of_feeds (hauto : H.noAutoWindowUpdate = false)
    (h : Feeds H (Receiver.start env) inp r rest) (hquiet : Quiet r.log) :
    ∃ used l, inp = used ++ rest ∧
      (Window.Ledger.start 65535).run (!H.noAutoWindowUpdate) (connEvents r.log) = some l ∧
      (l.error = false →
        l.window.recvSize + l.announced.sum = (Phase.head []).count used) := by
  obtain ⟨-, used, calls, hinp, hlog, htrack⟩ := h.moves (wf_start env)
  obtain ⟨-, hbytes, hsmall⟩ := htrack hquiet
  have hcalls : r.log = calls := hlog
  obtain ⟨hsum, hall⟩ := connEvents_spec hsmall
  have hstart : (Window.Ledger.start 65535).Agrees 65535 :=
    Window.agrees_start (by decide) (by decide)
  obtain ⟨l, hrun, hagrees⟩ := hstart.run true (connEvents calls)
  refine ⟨used, l, hinp, by rw [hauto, hcalls]; exact hrun, fun herr => ?_⟩
  obtain ⟨hlocal, hreceived⟩ := Window.Ledger.run_receive hall hrun
  have hleft := hagrees.left herr
  have hcount : l.received = (Phase.head []).count used := by
    rw [hreceived, hsum, hbytes]
    exact Nat.zero_add _
  rw [Window.left, hlocal, hcount] at hleft
  have hinit : (Window.Ledger.start 65535).window.localSize = 65535 := rfl
  omega

/-- A session that accepts everything. -/
def accepting (auto : Bool) : Handler Unit where
  maxFrameSize _ := 2 ^ 14
  noAutoWindowUpdate := !auto
  hasStream _ _ := true
  tableSize _ := none
  answer _ _ := (.ok, ())
  pause _ := false

/-- SETTINGS, and five bytes of DATA of which one is padding, in two pieces. -/
theorem recv_add_announced_two_pieces :
    let H := accepting true
    let piece : Bytes := [0, 0, 0, 4, 0, 0, 0, 0, 0, 0, 0, 5, 0, 8, 0, 0, 0, 1, 1, 65]
    let piece' : Bytes := [66, 67, 0]
    let r := (memRecv H (memRecv H (Receiver.start ()) piece).r piece').r
    Feeds H (Receiver.start ()) (piece ++ piece') r [] ∧ Quiet r.log ∧
      ∃ l, (Window.Ledger.start 65535).run true (connEvents r.log) = some l ∧
        l.window.recvSize + l.announced.sum = 5 := by
  intro H piece piece' r
  have hrest : (memRecv H (Receiver.start ()) piece).rest = [] := by decide +kernel
  have hrest' : (memRecv H (memRecv H (Receiver.start ()) piece).r piece').rest = [] := by
    decide +kernel
  have hlast : Feeds H (memRecv H (Receiver.start ()) piece).r (piece' ++ []) r [] := by
    refine .call ?_
    rw [hrest']
    exact .done r []
  have hfeeds : Feeds H (Receiver.start ()) (piece ++ piece') r [] := by
    refine .call ?_
    rw [hrest]
    exact hlast
  have hquiet : Quiet r.log := by
    have hall : ∀ c ∈ r.log, ¬(c matches .terminate ..) := by decide +kernel
    exact fun code reason hm => hall _ hm rfl
  obtain ⟨used, l, hused, hrun, hsum⟩ := recv_add_announced_of_feeds rfl hfeeds hquiet
  refine ⟨hfeeds, hquiet, l, hrun, ?_⟩
  have herr : (Window.Ledger.start 65535).run true (connEvents r.log) =
      some ⟨⟨65535, 5, 0, 0⟩, [], 5, false⟩ := by decide +kernel
  obtain rfl : _ = l := Option.some.inj (herr.symm.trans hrun)
  rw [List.append_nil] at hused
  rw [hsum rfl, ← hused]
  decide +kernel

/-- **The receiver never loses its place.**  However the stream is cut, and whatever the rest of
the session answers, the receiver stands where reading the frames byte by byte leads to, and the
DATA up to there has been counted once; and the loop of its next call ends within a number of
turns that the length of the input bounds. -/
theorem phase_of_feeds (h : Feeds H (Receiver.start env) inp r rest) :
    (Quiet r.log → ∃ used, inp = used ++ rest ∧ r.phase = (Phase.head []).scan used ∧
      connBytes r.log = (Phase.head []).count used) ∧
    ∀ piece fuel, 4 * piece.length + 5 ≤ fuel →
      recvLoop H fuel r piece = some (memRecv H r piece) := by
  obtain ⟨hwf, used, calls, hinp, hlog, htrack⟩ := h.moves (wf_start env)
  refine ⟨fun hquiet => ?_, fun piece fuel hfuel => ?_⟩
  · obtain ⟨hphase, hbytes, -⟩ := htrack hquiet
    have hcalls : r.log = calls := hlog
    exact ⟨used, hinp, hphase, hcalls ▸ hbytes⟩
  · have hlt := size_lt r piece
    exact recvLoop_eq hwf (by omega)

/-- SETTINGS, and DATA with padding that is cut within its payload.  After the first piece, three
bytes of the payload are missing, and two have been counted; the next call ends. -/
theorem phase_cut_data :
    let H := accepting false
    let piece : Bytes := [0, 0, 0, 4, 0, 0, 0, 0, 0, 0, 0, 5, 0, 8, 0, 0, 0, 1, 1, 65]
    let r := (memRecv H (Receiver.start ()) piece).r
    (r.phase = (Phase.head []).scan piece ∧ r.phase = .ofLeft 3 true) ∧
      connBytes r.log = 2 ∧ (recvLoop H 17 r [66, 67, 0]).isSome = true := by
  intro H piece r
  have hrest : (memRecv H (Receiver.start ()) piece).rest = [] := by decide +kernel
  have hfeeds : Feeds H (Receiver.start ()) (piece ++ []) r [] := by
    refine .call ?_
    rw [hrest]
    exact .done r []
  have hquiet : Quiet r.log := by
    have hall : ∀ c ∈ r.log, ¬(c matches .terminate ..) := by decide +kernel
    exact fun code reason hm => hall _ hm rfl
  have h := phase_of_feeds hfeeds
  obtain ⟨used, hused, hphase, hcount⟩ := h.1 hquiet
  rw [List.append_nil, List.append_nil] at hused
  subst hused
  refine ⟨⟨hphase, hphase.trans (by decide +kernel)⟩, hcount.trans (by decide +kernel), ?_⟩
  rw [h.2 [66, 67, 0] 17 (by decide)]
  rfl

end Inbound

end Nghttp2
