/-
# Whether a session wants to write

`nghttp2_session_want_write` looks at the active item, the queues and the scheduler, and then
at the flags of GOAWAY.  It finds every frame that the next call of `nghttp2_session_mem_send`
would write; but once GOAWAY has been sent or received it returns 0, although streams are
still active.
-/
import Nghttp2.OutboundRuns
import Nghttp2.WireRuns

namespace Nghttp2

namespace Outbound

variable {o o' o1 : Outbound} {env : Env} {i : ItemPtr} {window : ℤ} {limit : ℕ}

/-- Nothing is pending: `window` is `remote_window_size`, and `limit` is the peer's
SETTINGS_MAX_CONCURRENT_STREAMS. -/
def nothingPending (o : Outbound) (window : ℤ) (limit : ℕ) : Bool :=
  o.session.items.aob.isNone && o.obUrgent.isEmpty && o.obReg.isEmpty &&
    ((o.session.tree.sched.obq root).isEmpty || window = 0) &&
    (o.obSyn.isEmpty || limit ≤ o.session.numOutgoingStreams)

/-- **`nghttp2_session_want_write`.** -/
def wantWrite (o : Outbound) (window : ℤ) (limit : ℕ) : Bool :=
  if o.termSent then false
  else if o.nothingPending window limit then false
  else !(o.session.goawaySent || o.goawayRecv)

/-- The next call of `nghttp2_session_mem_send` writes something: a frame is being sent, or
the turns that pop items come to a frame that can be sent. -/
inductive NextWrites (window : ℤ) (limit : ℕ) : Outbound → Prop
  | sending {o : Outbound} {i : ItemPtr} (haob : o.session.items.aob = some i)
      (hsent : o.sent = false) : NextWrites window limit o
  | turn {o o' : Outbound} {env : Env} (hwindow : env.windowOpen = decide (0 < window))
      (hlimit : env.remoteMaxConcurrentStreams = limit) (hres : o.popItem env = .ok o')
      (hnext : NextWrites window limit o') : NextWrites window limit o

/-- The scheduler finds an item only if streams wait below the root. -/
theorem obq_root_ne_nil (hroot : o.session.tree.sched.item root = none)
    (h : streamNextOutboundItem o.session.tree root = some i) :
    o.session.tree.sched.obq root ≠ [] := by
  intro hnil
  unfold streamNextOutboundItem at h
  cases hn : o.session.tree.turns with
  | zero =>
    rw [hn] at h
    cases h
  | succ n =>
    rw [hn, nextOutboundLoop] at h
    split_ifs at h
    · cases hroot.symm.trans h
    · rw [hnil] at h
      cases h

theorem not_nothingPending_of_pop (hroot : o.session.tree.sched.item root = none)
    (h : o.popNextObItem env = (o1, some i)) (hwindow : env.windowOpen = decide (0 < window))
    (hlimit : env.remoteMaxConcurrentStreams = limit) : o.nothingPending window limit = false := by
  unfold Outbound.popNextObItem at h
  unfold nothingPending
  split at h
  · next j l hl => simp [hl]
  split at h
  · next j l hl => simp [hl]
  split at h
  · next j l hl =>
    split_ifs at hl with hmax
    rw [hlimit] at hmax
    simp [hl, hmax]
  · split_ifs at h with hopen
    · rw [hwindow, decide_eq_true_eq] at hopen
      have hobq := obq_root_ne_nil hroot (congrArg Prod.snd h)
      simp [hobq, hopen.ne']
    · cases h

/-- **What would be written next is pending.** -/
theorem NextWrites.not_nothingPending (h : NextWrites window limit o)
    (hroot : o.session.tree.sched.item root = none) : o.nothingPending window limit = false := by
  induction h with
  | sending haob hsent => simp [nothingPending, haob]
  | @turn o o' env hwindow hlimit hres hnext ih =>
    cases hpop : o.popNextObItem env with
    | mk o1 popped =>
      cases popped with
      | some i => exact not_nothingPending_of_pop hroot hpop hwindow hlimit
      | none =>
        -- nothing was popped, and the turn has changed nothing
        have ho' : o' = o := by
          unfold Outbound.popItem at hres
          rw [hpop] at hres
          rw [← popNextObItem_none hpop]
          exact (Except.ok.inj hres).symm
        rw [ho'] at ih
        exact ih hroot

end Outbound

namespace Recorded

open Outbound

variable {r : Recorded} {window : ℤ} {limit : ℕ}

/-- No stream item is attached to the root. -/
theorem Reaches.root_item {C : Recorded → Outbound.Event → Prop} (h : Reaches C r) :
    r.out.session.tree.sched.item root = none := by
  rw [Option.eq_none_iff_forall_ne_some]
  exact fun i hi => lt_irrefl _ (h.sound.filed.tree root i hi).1

/-- **`nghttp2_session_want_write`.**  In every state that is reached and in which no
terminating GOAWAY has been sent, if the next call of `nghttp2_session_mem_send` writes
something, the session wants to write exactly if GOAWAY has neither been sent nor received:
whether streams are active does not matter. -/
theorem wantWrite_iff_of_reaches (h : Reaches (fun _ _ => True) r) (hterm : r.out.termSent = false)
    (hnext : NextWrites window limit r.out) : r.out.wantWrite window limit = true ↔
      r.out.session.goawaySent = false ∧ r.out.goawayRecv = false := by
  unfold Outbound.wantWrite
  rw [hterm, hnext.not_nothingPending h.root_item]
  simp

/-- A client with an open stream has submitted PING and wants to write. -/
theorem request_ping_wantWrite : ∃ r, (Recorded.new false 100 100 200).run
      (.submit (.request .default [] false false) :: quietTurn ++ [.submit .ping]) = .ok r ∧
    r.out.session.numActiveStreams = 1 ∧ NextWrites 65535 100 r.out ∧
    r.out.wantWrite 65535 100 = true := by
  refine exists_of_eval (fun r => (r.out.termSent = false ∧ r.out.session.numActiveStreams = 1 ∧
      r.out.session.goawaySent = false ∧ r.out.goawayRecv = false) ∧
    (r.out.popItem quietEnv).map (fun o' =>
      decide (o'.session.items.aob = some 1 ∧ o'.sent = false)) = .ok true)
    (reaches_of_guardedRun (c := fun _ _ => true) fun _ _ => trivial) (by decide +kernel) ?_
  rintro r hreach ⟨⟨hterm, hnum, hsent⟩, hpop⟩
  obtain ⟨o', hpop, hobs⟩ := exists_of_map_eq_ok hpop
  obtain ⟨haob, hnot⟩ := of_decide_eq_true hobs
  have hnext : NextWrites 65535 100 r.out := .turn rfl rfl hpop (.sending haob hnot)
  exact ⟨hnum, hnext, (wantWrite_iff_of_reaches hreach hterm hnext).2 hsent⟩

/-- **Pending work is hidden.**  A client has an open stream when it receives GOAWAY, which
does not concern that stream; it submits PING, which the next call of
`nghttp2_session_mem_send` would write, but the session does not want to write. -/
theorem wantWrite_hides_ping : ∃ r, (Recorded.new false 100 100 200).run
      [.submit (.request .default [] false false), .popItem quietEnv, .frameSent1 quietEnv,
        .frameSent2, .recvGoaway quietEnv 1, .submit .ping] = .ok r ∧
    r.out.termSent = false ∧ r.out.session.numActiveStreams = 1 ∧
    (r.out.session.getStream 1).isSome ∧ NextWrites 65535 100 r.out ∧
    r.out.wantWrite 65535 100 = false := by
  refine exists_of_eval (fun r => (r.out.termSent = false ∧ r.out.session.numActiveStreams = 1 ∧
      (r.out.session.getStream 1).isSome ∧ r.out.wantWrite 65535 100 = false) ∧
    (r.out.popItem quietEnv).map (fun o' =>
      decide (o'.session.items.aob = some 1 ∧ o'.sent = false)) = .ok true)
    (And.intro trivial) (by decide +kernel) ?_
  rintro r - ⟨⟨hterm, hnum, hopen, hwant⟩, hpop⟩
  obtain ⟨o', hpop, hobs⟩ := exists_of_map_eq_ok hpop
  obtain ⟨haob, hsent⟩ := of_decide_eq_true hobs
  exact ⟨hterm, hnum, hopen, .turn rfl rfl hpop (.sending haob hsent), hwant⟩

end Recorded

end Nghttp2
