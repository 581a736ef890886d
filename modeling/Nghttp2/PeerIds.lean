/-
# Stream ids of the peer

The streams a peer opens are told apart by their ids, and whether an id is new is decided
from `last_recv_stream_id` alone: the table cannot answer, since a closed stream may be
kept in it or be gone, and an idle stream is in it before it is opened.

* `openCall_cases`: the four ways to get to `nghttp2_session_open_stream`;
* `Numbered`: what is found in the table and is not idle has an id that has been used.
  This holds in every state, also in those in which entries were cut off the table;
* `ids_increase_of_history`: the ids that the peer opens have its parity and increase, and
  the stream that `nghttp2_session_open_stream` finds in the table is idle.
-/
import Nghttp2.WireSteps

namespace Nghttp2.Session

variable {s s' : Session} {x : Ptr} {id : ℕ} {e : Event} {c : OpenCall}

/-! ## The calls that open streams -/

/-- **The callers of `nghttp2_session_open_stream`**: an idle stream is created for a
PRIORITY frame; the peer opens a stream with a new id; a submitted id is sent; or a client
upgrades from HTTP/1.1. -/
theorem openCall_cases (hc : s.openCall e = some c) :
    (c.initialState = .idle ∧ c.session = s ∧ s.getStreamRaw c.id = none) ∨
    (c.initialState ≠ .idle ∧ c.session = { s with lastRecvStreamId := c.id } ∧
      s.isNewPeerStreamId c.id = true) ∨
    (c.initialState ≠ .idle ∧ c.session = { s with unsent := s.unsent.erase c.id } ∧
      c.id ∈ s.unsent) ∨
    (c.initialState ≠ .idle ∧ c.session = { s with nextStreamId := 3 } ∧ c.id = 1 ∧
      s.server = false ∧ s.nextStreamId = 1) := by
  cases starts_of_openCall hc with
  | recvPriority _ _ _ hraw => exact .inl ⟨rfl, rfl, hraw⟩
  | recvHeaders hnew | recvPushPromise _ hnew => exact .inr (.inl ⟨by simp, rfl, hnew⟩)
  | upgradeServer hserver hlast =>
    exact .inr (.inl ⟨by simp, rfl, isNewPeerStreamId_one hserver hlast⟩)
  | sendRequest hid | sendPushPromise hid => exact .inr (.inr (.inl ⟨by simp, rfl, hid⟩))
  | upgradeClient hserver hnext => exact .inr (.inr (.inr ⟨by simp, rfl, rfl, hserver, hnext⟩))

/-! ## Ids in use -/

/-- **The ids are in order**: a stream that is found and not idle has an id that has been
used; the ids handed out and not sent yet are different ids of this endpoint. -/
structure Numbered (s : Session) : Prop where
  tabled : s.Tabled
  used : ∀ ⦃id x⦄, s.getStreamRaw id = some x → (s.info x).state ≠ .idle → s.Used id
  unsent : ∀ ⦃id⦄, id ∈ s.unsent → s.isMyStreamId id = true ∧ id < s.nextStreamId
  unsent_nodup : s.unsent.Nodup
  next_mine : s.isMyStreamId s.nextStreamId = true

theorem SameFrame.sameIds (h : SameFrame s s') : SameIds s s' :=
  ⟨h.server, h.lastRecvStreamId, h.nextStreamId, h.unsent⟩

/-- No stream is found that was not found, and none leaves the idle state. -/
theorem Numbered.of_raw (h : s.Numbered) (hids : SameIds s s') (htab : s'.Tabled)
    (hraw : ∀ ⦃id x⦄, s'.getStreamRaw id = some x → (s'.info x).state ≠ .idle →
      s.getStreamRaw id = some x ∧ (s.info x).state ≠ .idle) : s'.Numbered where
  tabled := htab
  used id x hx hne := by
    obtain ⟨hold, hne⟩ := hraw hx hne
    exact (hids.used id).2 (h.used hold hne)
  unsent id hid := by
    rw [hids.isMyStreamId, hids.nextStreamId]
    exact h.unsent (hids.unsent ▸ hid)
  unsent_nodup := hids.unsent ▸ h.unsent_nodup
  next_mine := by
    rw [hids.isMyStreamId, hids.nextStreamId]
    exact h.next_mine

theorem Numbered.trims (h : s.Numbered) (ht : Trims s s') : s'.Numbered := by
  refine h.of_raw ht.toSameFrame.sameIds ht.tabled fun id x hx hne => ?_
  obtain ⟨hold, hinfo⟩ := ht.raw hx hne
  exact ⟨hold, hinfo ▸ hne⟩

theorem Numbered.opens {st : StreamState} (h : s.Numbered) (ho : Opens s s' id st x)
    (hid : st ≠ .idle → s.Used id) : s'.Numbered := by
  by_cases hst : st = .idle
  · subst hst
    exact h.trims ho.trims
  have hids := ho.toSameFrame.sameIds
  refine ⟨ho.tabled, fun id' y hy hne => (hids.used id').2 ?_, fun id' hid' => ?_,
    hids.unsent ▸ h.unsent_nodup, ?_⟩
  · rcases ho.raw hy hne with ⟨hold, hinfo, -⟩ | ⟨rfl, -⟩
    · exact h.used hold (hinfo ▸ hne)
    · exact hid hst
  · rw [hids.isMyStreamId, hids.nextStreamId]
    exact h.unsent (hids.unsent ▸ hid')
  · rw [hids.isMyStreamId, hids.nextStreamId]
    exact h.next_mine

variable {f : StreamInfo → StreamInfo}

/-- The information of a stream that is found changes; it was not idle. -/
theorem Numbered.modifyInfo (h : s.Numbered)
    (hx : (s.info x).state = .idle → (f (s.info x)).state = .idle) :
    (s.modifyInfo x f).Numbered := by
  refine h.of_raw ⟨rfl, rfl, rfl, rfl⟩ h.tabled fun id y hy hne => ⟨hy, fun hidle => hne ?_⟩
  rcases eq_or_ne y x with rfl | hyx
  · simpa [Session.modifyInfo] using hx hidle
  · simpa [Session.modifyInfo, hyx] using hidle

theorem Numbered.ids (h : s.Numbered) : TakesIds s s :=
  ⟨fun _ hj => hj, h.unsent, h.unsent_nodup, h.next_mine⟩

theorem Numbered.withIds {s' : Session} (h : s.Numbered) (hstreams : s'.streams = s.streams)
    (htree : s'.tree = s.tree) (hinfo : s'.info = s.info) (hids : TakesIds s s') : s'.Numbered where
  tabled := h.tabled.of_streams hstreams (congrArg _ htree)
  used id x hx hne := by
    rw [getStreamRaw, hstreams] at hx
    exact hids.used (h.used hx (hinfo ▸ hne))
  unsent := hids.unsent
  unsent_nodup := hids.nodup
  next_mine := hids.next_mine

/-! ## One event -/

/-- From `s` to `s'` the ids stay in order, and the peer's only grow. -/
structure Advances (s s' : Session) : Prop where
  numbered : s'.Numbered
  server : s'.server = s.server
  recv : s.lastRecvStreamId ≤ s'.lastRecvStreamId

theorem Numbered.advances (h : s'.Numbered) (hids : SameIds s s') : Advances s s' :=
  ⟨h, hids.server, hids.lastRecv.ge⟩

theorem Advances.refl (h : s.Numbered) : Advances s s := h.advances (.refl s)

theorem Advances.of_trims (h : s.Numbered) (ht : Trims s s') : Advances s s' :=
  (h.trims ht).advances ht.toSameFrame.sameIds

/-- Items, limits and counters are no part of the ids. -/
theorem Advances.of_same (h : s.Numbered) (hids : SameIds s s') (hstreams : s'.streams = s.streams)
    (htree : s'.tree.allocated = s.tree.allocated) (hinfo : s'.info = s.info) : Advances s s' := by
  refine (h.of_raw hids (h.tabled.of_streams hstreams htree) fun id x hx hne =>
    ⟨?_, hinfo ▸ hne⟩).advances hids
  rwa [getStreamRaw, hstreams] at hx

theorem Advances.of_tree {t : StreamTree} (h : s.Numbered) (ht : t.allocated = s.tree.allocated) :
    Advances s { s with tree := t } :=
  .of_same h ⟨rfl, rfl, rfl, rfl⟩ rfl ht rfl

theorem Advances.modifyInfo (h : s.Numbered)
    (hx : s.getStream id = some x) : Advances s (s.modifyInfo x f) :=
  (h.modifyInfo fun hidle => absurd hidle (getStream_eq_some_iff.1 hx).2.2).advances
    ⟨rfl, rfl, rfl, rfl⟩

theorem Advances.trans {s1 s2 : Session} (h : Advances s s1) (h' : Advances s1 s2) :
    Advances s s2 :=
  ⟨h'.numbered, h'.server.trans h.server, h.recv.trans h'.recv⟩

theorem closeStream_advances (h : s.Numbered) (hres : s.closeStream id = .ok s') :
    Advances s s' := by
  unfold closeStream at hres
  split at hres
  · cases hres
    exact .refl h
  · next x hx =>
    have hrelease : Advances s (s.releaseItem x) := by
      unfold releaseItem
      split
      · exact .refl h
      · dsimp only
        split_ifs
        all_goals
          exact .of_same h ⟨rfl, rfl, rfl, rfl⟩ rfl (Outbound.streamDetachItem_allocated ..) rfl
    have hclose := finishClose_closes hrelease.numbered.tabled hres
    have hids := hclose.toSameFrame.sameIds
    refine hrelease.trans ((hrelease.numbered.of_raw hids hclose.tabled ?_).advances hids)
    intro id' y hy hne
    obtain ⟨hold, hstate⟩ := hclose.raw hy hne
    exact ⟨hold, hstate ▸ hne⟩

/-- **Events that open no stream.** -/
theorem settle_advances (h : s.Numbered) (hres : s.settle e = .ok s') : Advances s s' := by
  cases settles_of_settle hres with
  | same => exact .refl h
  | offered hnew =>
    obtain ⟨-, -, hlt⟩ := isNewPeerStreamId_iff.1 hnew
    exact ⟨h.withIds rfl rfl rfl (h.ids.raiseRecv hlt.le), rfl, hlt.le⟩
  | submitStream => exact ⟨h.withIds rfl rfl rfl h.ids.submit, rfl, le_rfl⟩
  | setNextStreamId hle hmine =>
    exact ⟨h.withIds rfl rfl rfl (h.ids.raiseNext hle hmine), rfl, le_rfl⟩
  | reprioritize hres => exact .of_trims h (reprioritizeStream_trims h.tabled hres)
  | close hres => exact closeStream_advances h hres
  | setState hx | shutdown hx => exact .modifyInfo h hx
  | fulfillMine hx | fulfillPeer hx =>
    have hopened := Advances.modifyInfo
      (f := fun i => { i with state := .opened, push := false }) h hx
    exact hopened.trans (.of_same hopened.numbered ⟨rfl, rfl, rfl, rfl⟩ rfl rfl rfl)
  | setLimits | sendGoaway => exact .of_same h ⟨rfl, rfl, rfl, rfl⟩ rfl rfl rfl
  | tree halloc => exact .of_tree h halloc

/-- A stream whose id has not been used is idle, if it is found at all. -/
theorem Numbered.idle_of_not_used (h : s.Numbered) (hid : ¬ s.Used id)
    (hx : s.getStreamRaw id = some x) : (s.info x).state = .idle := by
  by_contra hne
  exact hid (h.used hx hne)

/-- **At every call of `nghttp2_session_open_stream`** the stream that is found in the
table is idle, and from the call on its id is used. -/
theorem Numbered.openCall (h : s.Numbered) (hc : s.openCall e = some c) :
    Advances s c.session ∧ (c.initialState ≠ .idle → c.session.Used c.id) ∧
      ∀ x, s.getStreamRaw c.id = some x → (s.info x).state = .idle := by
  obtain ⟨hst, hs, hnone⟩ | ⟨-, hs, hnew⟩ | ⟨-, hs, hmem⟩ | ⟨-, hs, hid, hclient, hone⟩ :=
    openCall_cases hc
  · rw [hs]
    refine ⟨.refl h, fun hne => absurd hst hne, fun x hx => ?_⟩
    rw [hnone] at hx
    cases hx
  · obtain ⟨-, hpeer, hlt⟩ := isNewPeerStreamId_iff.1 hnew
    rw [hs]
    refine ⟨⟨h.withIds rfl rfl rfl (h.ids.raiseRecv hlt.le), rfl, hlt.le⟩, fun _ => ?_,
      fun x hx => ?_⟩
    · exact (used_peer_iff (s := { s with lastRecvStreamId := c.id }) hpeer).2 le_rfl
    · exact h.idle_of_not_used (fun hused => hlt.not_ge ((used_peer_iff hpeer).1 hused)) hx
  · obtain ⟨hmine, hlt⟩ := h.unsent hmem
    rw [hs]
    refine ⟨⟨h.withIds rfl rfl rfl h.ids.send, rfl, le_rfl⟩, fun _ => ?_, fun x hx => ?_⟩
    · refine (used_own_iff (s := { s with unsent := s.unsent.erase c.id }) hmine).2
        ⟨hlt, fun hmem' => ?_⟩
      exact (h.unsent_nodup.mem_erase_iff.1 hmem').1 rfl
    · exact h.idle_of_not_used (fun hused => ((used_own_iff hmine).1 hused).2 hmem) hx
  have hmine : ∀ n, s.isMyStreamId n = decide (n ≠ 0 ∧ n % 2 = 1) := fun n => by
    simp [isMyStreamId, hclient]
  rw [hs, hid]
  have hown : s.isMyStreamId 1 = true := by
    rw [hmine]
    rfl
  refine ⟨⟨h.withIds rfl rfl rfl (h.ids.raiseNext (by omega) (by rw [hmine]; rfl)), rfl, le_rfl⟩,
    fun _ => ?_, fun x hx => ?_⟩
  · refine (used_own_iff (s := { s with nextStreamId := 3 }) hown).2
      ⟨Nat.one_lt_succ_succ 1, fun hmem => ?_⟩
    have := (h.unsent hmem).2
    omega
  · refine h.idle_of_not_used (fun hused => ?_) hx
    have := ((used_own_iff hown).1 hused).1
    omega

/-- The stream of the peer that an event opens: a server opens it for request HEADERS or
at the upgrade from HTTP/1.1, a client for PUSH_PROMISE. -/
def peerOpened (s : Session) (e : Event) : Option ℕ :=
  match e with
  | .recvHeaders _ _ | .recvPushPromise _ _ => (s.openCall e).map OpenCall.id
  | .upgrade => if s.server then (s.openCall e).map OpenCall.id else none
  | _ => none

/-- A stream of the peer is opened with a new id, which is then the last one received. -/
theorem openCall_of_peerOpened (hid : s.peerOpened e = some id) :
    ∃ c, s.openCall e = some c ∧ s.isNewPeerStreamId id = true ∧
      c.session.lastRecvStreamId = id := by
  have hcall : ∃ c, s.openCall e = some c ∧ c.id = id := by
    unfold peerOpened at hid
    split at hid
    · exact Option.map_eq_some_iff.1 hid
    · exact Option.map_eq_some_iff.1 hid
    · split_ifs at hid
      exact Option.map_eq_some_iff.1 hid
    · cases hid
  obtain ⟨c, hc, rfl⟩ := hcall
  refine ⟨c, hc, ?_⟩
  cases starts_of_openCall hc with
  | recvHeaders hnew | recvPushPromise _ hnew => exact ⟨hnew, rfl⟩
  | upgradeServer hserver hlast => exact ⟨isNewPeerStreamId_one hserver hlast, rfl⟩
  | upgradeClient hserver => simp [peerOpened, hserver] at hid
  | recvPriority | sendRequest | sendPushPromise => cases hid

/-- **One event** keeps the ids in order. -/
theorem Numbered.step (h : s.Numbered) (hres : s.step e = .ok s') :
    Advances s s' ∧ ∀ c, s.openCall e = some c →
      s'.lastRecvStreamId = c.session.lastRecvStreamId := by
  cases hc : s.openCall e with
  | none => exact ⟨settle_advances h (settle_of_step hc hres), nofun⟩
  | some c =>
    obtain ⟨hadv, hused, -⟩ := h.openCall hc
    obtain ⟨⟨s1, x⟩, hopen, hs'⟩ := openStream_of_step hc hres
    have ho := openStream_opens hadv.numbered.tabled hopen
    have h1 := hadv.numbered.opens ho hused
    -- only the upgrade marks the stream that it has opened
    have hlast : Advances c.session s' ∧ s'.lastRecvStreamId = c.session.lastRecvStreamId := by
      dsimp only at hs'
      split_ifs at hs'
      · rw [hs']
        have hids := ho.toSameFrame.sameIds
        exact ⟨(h1.modifyInfo fun hidle => hidle).advances
          ⟨hids.server, hids.lastRecv, hids.nextStreamId, hids.unsent⟩, hids.lastRecv⟩
      · rw [hs']
        exact ⟨h1.advances ho.toSameFrame.sameIds, ho.lastRecvStreamId⟩
    refine ⟨hadv.trans hlast.1, fun c' hc' => ?_⟩
    cases hc'
    exact hlast.2

/-! ## Runs -/

/-- The session `s` is reached from a new one, and in the run so far the peer has opened
the streams `opened`, in this order. -/
inductive History : Session → List ℕ → Prop
  | new (server : Bool) (n p r : ℕ) : History (Session.new server n p r) []
  | step {s s' : Session} {opened : List ℕ} {e : Event} : History s opened →
      s.step e = .ok s' → History s' (opened ++ (s.peerOpened e).toList)

theorem new_numbered (server : Bool) (n p r : ℕ) : (Session.new server n p r).Numbered where
  tabled := ⟨fun _ => [], (new_inv server n p r).linked, (new_inv server n p r).size.le,
    Nat.one_pos, nofun⟩
  used _ _ hx hne := by
    obtain ⟨hheld, rfl⟩ := (new_inv server n p r).getStreamRaw_iff.1 hx
    exact (new_inv server n p r).used hheld hne
  unsent := nofun
  unsent_nodup := List.nodup_nil
  next_mine := (new_inv server n p r).next_mine

/-- **The ids the peer has opened**: none is above the last one received, they have the
parity of the peer, and they increase. -/
structure PeerOpened (s : Session) (opened : List ℕ) : Prop where
  numbered : s.Numbered
  le_recv : ∀ id ∈ opened, id ≤ s.lastRecvStreamId
  parity : ∀ id ∈ opened, id % 2 = if s.server then 1 else 0
  increasing : opened.Pairwise (· < ·)

theorem parity_of_isNewPeerStreamId (h : s.isNewPeerStreamId id = true) :
    id % 2 = if s.server then 1 else 0 := by
  obtain ⟨hpos, hpeer, -⟩ := isNewPeerStreamId_iff.1 h
  unfold isMyStreamId at hpeer
  cases hserver : s.server
  · simp [hserver, hpos] at hpeer ⊢
    omega
  · simp [hserver, hpos] at hpeer ⊢
    omega

/-- One event opens at most one stream of the peer, with an id above all others. -/
theorem PeerOpened.step {opened : List ℕ} (h : s.PeerOpened opened) (hres : s.step e = .ok s') :
    s'.PeerOpened (opened ++ (s.peerOpened e).toList) := by
  obtain ⟨hadv, hrecv⟩ := h.numbered.step hres
  have hold : ∀ id ∈ opened, id ≤ s'.lastRecvStreamId := fun id hid =>
    (h.le_recv id hid).trans hadv.recv
  cases hid : s.peerOpened e with
  | none =>
    rw [Option.toList_none, List.append_nil]
    exact ⟨hadv.numbered, hold, hadv.server ▸ h.parity, h.increasing⟩
  | some id =>
    obtain ⟨c, hc, hnew, hlast⟩ := openCall_of_peerOpened hid
    have hs' : s'.lastRecvStreamId = id := (hrecv c hc).trans hlast
    obtain ⟨-, -, hlt⟩ := isNewPeerStreamId_iff.1 hnew
    refine ⟨hadv.numbered, fun id' hid' => ?_, fun id' hid' => ?_, ?_⟩
    · rcases List.mem_append.1 hid' with hmem | hmem
      · exact hold id' hmem
      · rw [List.mem_singleton.1 hmem, hs']
    · rw [hadv.server]
      rcases List.mem_append.1 hid' with hmem | hmem
      · exact h.parity id' hmem
      · rw [List.mem_singleton.1 hmem]
        exact parity_of_isNewPeerStreamId hnew
    · refine List.pairwise_append.2 ⟨h.increasing, List.pairwise_singleton _ _, ?_⟩
      intro a ha b hb
      rw [List.mem_singleton.1 hb]
      exact (h.le_recv a ha).trans_lt hlt

theorem History.opened {opened : List ℕ} (h : History s opened) : s.PeerOpened opened := by
  induction h with
  | new server n p r => exact ⟨new_numbered server n p r, nofun, nofun, List.Pairwise.nil⟩
  | step _ hres ih => exact ih.step hres

/-- **Streams of the peer are opened once.**  In every run, of a client or a server, the
ids of the streams that the peer opens have its parity and increase strictly, so that no
id is opened twice; and whatever happens next, if `nghttp2_session_open_stream` is called
for an id that is in the table, then the stream in the table is idle. -/
theorem ids_increase_of_history {opened : List ℕ} (h : History s opened) :
    (∀ id ∈ opened, id % 2 = if s.server then 1 else 0) ∧ opened.Pairwise (· < ·) ∧
      opened.Nodup ∧ ∀ e c, s.openCall e = some c → ∀ x, c.session.getStreamRaw c.id = some x →
        (c.session.info x).state = .idle := by
  refine ⟨h.opened.parity, h.opened.increasing, h.opened.increasing.imp fun hlt => hlt.ne,
    fun e c hc x hx => ?_⟩
  have hidle := (h.opened.numbered.openCall hc).2.2 x
  -- the call comes before the table changes
  obtain ⟨-, hs, -⟩ | ⟨-, hs, -⟩ | ⟨-, hs, -⟩ | ⟨-, hs, -⟩ := openCall_cases hc
  all_goals
    rw [hs] at hx ⊢
    exact hidle hx

/-- A server that has opened stream 1 and closed it again, with an idle stream 5 from a
PRIORITY frame. -/
theorem closed_ids_increase :
    ∃ s, History s [1] ∧ s.getStream 1 = none ∧ (s.getStreamRaw 5).isSome ∧
      ([1] : List ℕ).Nodup ∧ s.server = true ∧
      ∀ c, s.openCall (.recvHeaders 5 .default) = some c → ∀ x,
        c.session.getStreamRaw c.id = some x → (c.session.info x).state = .idle := by
  have heval : ((Session.new true 100 100 200).run [.recvHeaders 1 .default, .close 1,
      .recvPriority 5 .default]).map
      (fun s => (s.getStream 1, (s.getStreamRaw 5).isSome, s.server)) = .ok (none, true, true) := by
    decide +kernel
  obtain ⟨s, hrun, hs⟩ := exists_of_map_eq_ok heval
  simp only [Session.run, List.foldlM_cons, List.foldlM_nil] at hrun
  obtain ⟨s₁, h₁, hrun⟩ := bind_eq_ok.1 hrun
  obtain ⟨s₂, h₂, hrun⟩ := bind_eq_ok.1 hrun
  obtain ⟨s₃, h₃, hrun⟩ := bind_eq_ok.1 hrun
  cases hrun
  have hist : History s [1] := (((History.new true 100 100 200).step h₁).step h₂).step h₃
  obtain ⟨-, -, hnodup, hassert⟩ := ids_increase_of_history hist
  simp only [Prod.mk.injEq] at hs
  exact ⟨s, hist, hs.1, hs.2.1, hnodup, hs.2.2, fun c hc => hassert _ c hc⟩

end Nghttp2.Session
