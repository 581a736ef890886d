/-
# Recorded runs, event by event

What one event does to the sending side and to the frames that have been written.

* `Session.Outside` says what the events of the stream table do that are not part of sending;
* `Outbound.Sound` collects what every reached state keeps: the table of streams, the queues
  and the active item are in order;
* `Recorded.Turn` lists what an event can do; every later result about the order of frames
  is a case analysis of it.
-/
import Nghttp2.WireSteps

namespace Nghttp2

open Function (update update_of_ne update_self)

/-! ## Events of the stream table -/

namespace Session

variable {s s' : Session} {e : Event} {id : ℕ} {x : Ptr}

/-- What an event may do to the session fields of the stream `id`, which stays open. -/
def Touches (e : Event) (id : ℕ) (a b : StreamInfo) : Prop :=
  b = a ∨
    match e with
    | .setState id' st => id' = id ∧ b = { a with state := st }
    | .shutdown _ rd wr => b = { a with shutRd := a.shutRd || rd, shutWr := a.shutWr || wr }
    | .fulfillPush id' => id' = id ∧ a.push = true ∧ b = { a with state := .opened, push := false }
    | _ => False

/-- A stream that the peer has opened, or the one of an upgraded client. -/
def Arrives (e : Event) (s s' : Session) (id : ℕ) (info : StreamInfo) : Prop :=
  (s.isMyStreamId id = false ∧ s.lastRecvStreamId < id ∧ id ≤ s'.lastRecvStreamId ∧
      info.state ≠ .opened ∧ (info.push = true → info.shutWr = true) ∧
      (info.state = .reserved → info.push = true)) ∨
    (s.isMyStreamId id = true ∧ s.nextStreamId ≤ id ∧ id < s'.nextStreamId ∧
      info.shutWr = true ∧ info.state ≠ .reserved ∧ e = .upgrade)

/-- What events that are not part of sending do. -/
structure Outside (s s' : Session) (e : Event) : Prop where
  server : s'.server = s.server
  items : s'.items = s.items
  unsent : s'.unsent = s.unsent
  lastRecvStreamId : s.lastRecvStreamId ≤ s'.lastRecvStreamId
  nextStreamId : s.nextStreamId ≤ s'.nextStreamId
  next_mine : s.isMyStreamId s.nextStreamId = true → s.isMyStreamId s'.nextStreamId = true
  carried : ∀ x i, s'.tree.sched.item x = some i → s.tree.sched.item x = some i
  tabled : s'.Tabled
  entry : ∀ ⦃id x⦄, s'.getStream id = some x →
    (s.getStream id = some x ∧ Touches e id (s.info x) (s'.info x)) ∨
      Arrives e s s' id (s'.info x)

/-- Streams are dropped. -/
theorem Outside.of_trims (h : Trims s s') : Outside s s' e where
  server := h.server
  items := h.items
  unsent := h.unsent
  lastRecvStreamId := h.lastRecvStreamId.ge
  nextStreamId := h.nextStreamId.ge
  next_mine hm := by rwa [h.nextStreamId]
  carried := h.carried
  tabled := h.tabled
  entry _ _ hx := .inl ⟨(h.entry hx).1, .inl (h.entry hx).2⟩

/-- Nothing happens. -/
theorem Outside.refl (h : s.Tabled) : Outside s s e := .of_trims (.refl h)

/-- The fields of the stream that can be found under `id` change. -/
theorem Outside.modify {f : StreamInfo → StreamInfo} (h : s.Tabled) (hx : s.getStream id = some x)
    (hs' : s' = { s.modifyInfo x f with
      numOutgoingStreams := s'.numOutgoingStreams, numIncomingStreams := s'.numIncomingStreams
      numIncomingReservedStreams := s'.numIncomingReservedStreams })
    (hf : Touches e id (s.info x) (f (s.info x))) : Outside s s' e := by
  have hinfo : s'.info = update s.info x (f (s.info x)) := by rw [hs']; rfl
  have hstreams : s'.streams = s.streams := by rw [hs']; rfl
  have htree : s'.tree = s.tree := by rw [hs']; rfl
  have hsame : s'.server = s.server ∧ s'.items = s.items ∧ s'.unsent = s.unsent ∧
      s'.lastRecvStreamId = s.lastRecvStreamId ∧ s'.nextStreamId = s.nextStreamId := by
    rw [hs']
    exact ⟨rfl, rfl, rfl, rfl, rfl⟩
  obtain ⟨hserver, hitems, hunsent, hrecv, hnext⟩ := hsame
  refine ⟨hserver, hitems, hunsent, hrecv.ge, hnext.ge, fun hm => by rwa [hnext],
    fun y i hi => htree ▸ hi, h.of_streams hstreams (congrArg _ htree), fun id' y hy => .inl ?_⟩
  obtain ⟨hraw, hlive⟩ := getStream_eq_some_iff.1 hy
  have hraw : s.getStreamRaw id' = some y := by
    rw [getStreamRaw, ← hstreams]
    exact hraw
  by_cases hyx : y = x
  · subst hyx
    have hid : id' = id := (h.of_getStreamRaw hraw).1.symm.trans
      (h.of_getStreamRaw (getStream_eq_some_iff.1 hx).1).1
    rw [hid, hinfo, update_self]
    exact ⟨hx, hf⟩
  · rw [hinfo, update_of_ne hyx] at hlive
    rw [hinfo, update_of_ne hyx]
    exact ⟨getStream_eq_some_iff.2 ⟨hraw, hlive⟩, .inl rfl⟩

/-- The peer opens a stream. -/
theorem Outside.opens {s1 : Session} {st : StreamState}
    (hs1 : s1 = { s with lastRecvStreamId := id }) (hnew : s.isNewPeerStreamId id = true)
    (h : Opens s1 s' id st x) (hst : st ≠ .opened) : Outside s s' e := by
  simp only [isNewPeerStreamId, Bool.and_eq_true, decide_eq_true_eq, Bool.not_eq_true'] at hnew
  subst hs1
  refine ⟨h.server, h.items, h.unsent, h.lastRecvStreamId ▸ hnew.2.le, h.nextStreamId.ge,
    fun hm => by rwa [h.nextStreamId], h.carried, h.tabled, fun id' y hy => ?_⟩
  rcases h.entry hy with ⟨hold, hinfo, -⟩ | ⟨rfl, rfl, hinfo⟩
  · exact .inl ⟨hold, .inl hinfo⟩
  refine .inr (.inl ⟨hnew.1.2, hnew.2, h.lastRecvStreamId.ge, ?_, ?_, ?_⟩)
  · rw [hinfo]
    exact hst
  · rw [hinfo]
    have : Session.isMyStreamId { s with lastRecvStreamId := id' } id' = false := hnew.1.2
    simp [openedInfo, this]
  · rw [hinfo]
    simp [openedInfo]

/-- The counters for stream ids, or the limits, change. -/
theorem Outside.of_ids (h : s.Tabled) (hs' : s' = { s with
      lastRecvStreamId := s'.lastRecvStreamId, nextStreamId := s'.nextStreamId
      maxConcurrentStreams := s'.maxConcurrentStreams
      pendingMaxConcurrentStreams := s'.pendingMaxConcurrentStreams })
    (hrecv : s.lastRecvStreamId ≤ s'.lastRecvStreamId) (hnext : s.nextStreamId ≤ s'.nextStreamId)
    (hmine : s.isMyStreamId s.nextStreamId = true → s.isMyStreamId s'.nextStreamId = true) :
    Outside s s' e := by
  have hget : ∀ id, s'.getStream id = s.getStream id := fun id => by rw [hs']; rfl
  have hinfo : s'.info = s.info := by rw [hs']
  refine ⟨by rw [hs'], by rw [hs'], by rw [hs'], hrecv, hnext, hmine, fun y i hi => ?_, ?_,
    fun id' y hy => .inl ⟨hget id' ▸ hy, .inl (by rw [hinfo])⟩⟩
  · rw [hs'] at hi
    exact hi
  · rw [hs']
    exact h

/-- New ids of the peer are larger. -/
theorem lt_of_isNewPeerStreamId (h : s.isNewPeerStreamId id = true) : s.lastRecvStreamId < id := by
  simp only [isNewPeerStreamId, Bool.and_eq_true, decide_eq_true_eq] at h
  exact h.2

/-- The call that opens stream 1 at the upgrade from HTTP/1.1. -/
theorem openCall_upgrade {c : OpenCall} (hc : s.openCall .upgrade = some c) :
    c.id = 1 ∧ c.initialState = .opening ∧
      ((s.server = true ∧ s.lastRecvStreamId = 0 ∧ c.session = { s with lastRecvStreamId := 1 }) ∨
        (s.server = false ∧ s.nextStreamId = 1 ∧ c.session = { s with nextStreamId := 3 })) := by
  cases starts_of_openCall hc with
  | upgradeServer hserver hlast => exact ⟨rfl, rfl, .inl ⟨hserver, hlast, rfl⟩⟩
  | upgradeClient hserver hnext => exact ⟨rfl, rfl, .inr ⟨hserver, hnext, rfl⟩⟩

/-- The upgrade from HTTP/1.1 opens stream 1: on a server for the peer, on a client for
itself and shut down. -/
theorem upgrade_outside (h : s.Tabled) (hres : s.step .upgrade = .ok s') :
    Outside s s' .upgrade := by
  cases hc : s.openCall .upgrade with
  | none =>
    cases settle_of_step hc hres
    exact .refl h
  | some c =>
    obtain ⟨hid, hst, hcall⟩ := openCall_upgrade hc
    have htab : c.session.Tabled := by
      rcases hcall with ⟨-, -, hs⟩ | ⟨-, -, hs⟩
      · exact hs ▸ h
      · exact hs ▸ h
    obtain ⟨r, hopen, hs'⟩ := openStream_of_step hc hres
    simp only [if_true] at hs'
    have ho := openStream_opens htab hopen
    rw [hid, hst] at ho
    have hentry : ∀ ⦃id' y⦄, s'.getStream id' = some y →
        (c.session.getStream id' = some y ∧ s'.info y = c.session.info y) ∨ (id' = 1 ∧
          s'.info y = ⟨.opening, false, false, c.session.server, !c.session.server⟩) := by
      intro id' y hy
      obtain ⟨hraw, hlive⟩ := getStream_eq_some_iff.1 hy
      have hraw : r.1.getStreamRaw id' = some y := by
        rw [hs'] at hraw
        exact hraw
      by_cases hyx : y = r.2
      · have hinfo : s'.info y = { r.1.info y with
            shutRd := (r.1.info y).shutRd || r.1.server
            shutWr := (r.1.info y).shutWr || !r.1.server } := by
          rw [hs', hyx]
          exact update_self ..
        have hold := getStream_eq_some_iff.2 ⟨hraw, by simpa [hinfo] using hlive⟩
        rcases ho.entry hold with ⟨-, -, hne⟩ | ⟨rfl, -, hopened⟩
        · exact absurd hyx hne
        · refine .inr ⟨rfl, ?_⟩
          rw [hinfo, hopened, ho.server]
          simp [openedInfo]
      · have hinfo : s'.info y = r.1.info y := by
          rw [hs']
          exact update_of_ne hyx ..
        have hold := getStream_eq_some_iff.2 ⟨hraw, hinfo ▸ hlive⟩
        rcases ho.entry hold with ⟨hget, hsame, -⟩ | ⟨-, hyx', -⟩
        · exact .inl ⟨hget, hinfo.trans hsame⟩
        · exact absurd hyx' hyx
    have htab' : s'.Tabled := by
      rw [hs']
      exact ho.tabled
    have hcar : ∀ x i, s'.tree.sched.item x = some i → c.session.tree.sched.item x = some i := by
      rw [hs']
      exact ho.carried
    have hsame : s'.server = c.session.server ∧ s'.items = c.session.items ∧
        s'.unsent = c.session.unsent ∧ s'.lastRecvStreamId = c.session.lastRecvStreamId ∧
        s'.nextStreamId = c.session.nextStreamId := by
      rw [hs']
      exact ⟨ho.server, ho.items, ho.unsent, ho.lastRecvStreamId, ho.nextStreamId⟩
    obtain ⟨hserver, hitems, hunsent, hrecv, hnext⟩ := hsame
    rcases hcall with ⟨hside, hzero, hs⟩ | ⟨hside, hone, hs⟩
    · rw [hs] at hserver hitems hunsent hrecv hnext hcar hentry
      dsimp only at hrecv hnext
      refine ⟨hserver, hitems, hunsent, hzero ▸ Nat.zero_le _, hnext.ge,
        fun hm => by rwa [hnext], hcar, htab', fun id' y hy => ?_⟩
      rcases hentry hy with ⟨hget, hinfo⟩ | ⟨rfl, hinfo⟩
      · exact .inl ⟨hget, .inl hinfo⟩
      · refine .inr (.inl ⟨by simp [isMyStreamId, hside], by omega, by omega, ?_, ?_, ?_⟩)
        all_goals
          rw [hinfo]
          simp
    rw [hs] at hserver hitems hunsent hrecv hnext hcar hentry
    dsimp only at hrecv hnext
    refine ⟨hserver, hitems, hunsent, hrecv.ge, by omega,
      fun _ => by simp [isMyStreamId, hside, hnext], hcar, htab', fun id' y hy => ?_⟩
    rcases hentry hy with ⟨hget, hinfo⟩ | ⟨rfl, hinfo⟩
    · exact .inl ⟨hget, .inl hinfo⟩
    · refine .inr (.inr ⟨by simp [isMyStreamId, hside], by omega, by omega, ?_, ?_, rfl⟩)
      · rw [hinfo]
        simp [hside]
      · rw [hinfo]
        simp

/-- **The events that are not part of sending.** -/
theorem step_outside (h : s.Tabled) (he : Outbound.external e = true) (hres : s.step e = .ok s') :
    Outside s s' e := by
  by_cases hup : e = .upgrade
  · subst hup
    exact upgrade_outside h hres
  cases hc : s.openCall e with
  | some c =>
    cases starts_of_openCall hc with
    | recvHeaders hnew | recvPushPromise _ hnew =>
      obtain ⟨y, hopen⟩ := step_opens hc hup h hres
      exact .opens rfl hnew hopen nofun
    | recvPriority =>
      obtain ⟨y, hopen⟩ := step_opens hc hup h hres
      exact .of_trims hopen.trims
    | sendRequest | sendPushPromise => cases he
    | upgradeServer | upgradeClient => exact absurd rfl hup
  | none =>
    cases settles_of_settle (settle_of_step hc hres) with
    | same => exact .refl h
    | offered hnew => exact .of_ids h rfl (lt_of_isNewPeerStreamId hnew).le le_rfl (·)
    | setNextStreamId hle hmine => exact .of_ids h rfl le_rfl hle fun _ => hmine
    | reprioritize hres => exact .of_trims (reprioritizeStream_trims h hres)
    | @setState _ st _ hx =>
      exact .modify (f := fun i => { i with state := st }) h hx rfl (.inr ⟨rfl, rfl⟩)
    | @shutdown _ rd wr _ hx =>
      exact .modify
        (f := fun i => { i with shutRd := i.shutRd || rd, shutWr := i.shutWr || wr }) h hx
        rfl (.inr rfl)
    | fulfillMine hx hpush | fulfillPeer hx hpush =>
      exact .modify (f := fun i => { i with state := .opened, push := false }) h hx rfl
        (.inr ⟨rfl, hpush, rfl⟩)
    | setLimits => exact .of_ids h rfl le_rfl le_rfl (·)
    | tree halloc hcar =>
      exact .of_trims (.of_same h ⟨rfl, rfl, rfl, rfl, rfl, rfl, hcar he⟩ rfl halloc rfl)
    | submitStream | close | sendGoaway => cases he

end Session

/-! ## States in order -/

namespace Outbound

variable {o o' o1 : Outbound} {env : Env} {i : ItemPtr}

/-- The active item goes with the state of the sending loop. -/
structure Active (o : Outbound) : Prop where
  aob : o.state = .popItem ↔ o.session.items.aob = none
  sent : o.sent = true → o.state = .sendData
  lt : ∀ i, o.session.items.aob = some i → i < o.allocated
  eof : ∀ i f, o.session.items.aob = some i → (o.item i).frame = .data f →
    f.endStream = true → f.eof = true
  noCopy : o.state = .sendNoCopy → ∀ i, o.session.items.aob = some i → (o.item i).kind = .data

/-- The table of streams, the queues and the active item are in order. -/
structure Sound (o : Outbound) : Prop where
  tabled : o.session.Tabled
  filed : o.Filed
  active : o.Active

variable {f : DataFrame} {o2 : Outbound} {it : OutboundItem}

/-- DATA is not canceled. -/
theorem Cancels.frame_data {it' : OutboundItem} (h : Cancels it it')
    (hf : it'.frame = .data f) : it.frame = .data f := by
  rcases h with rfl | ⟨g, -, rfl⟩
  · exact hf
  · cases hf

/-- The active item stays so. -/
theorem Keeps.active (h : Keeps o o') (ha : o.Active) : o'.Active where
  aob := by
    rw [h.aob, h.state]
    exact ha.aob
  sent hs := by
    rw [h.state]
    exact ha.sent (h.sent ▸ hs)
  lt i hi := (ha.lt i (h.aob ▸ hi)).trans_le h.allocated
  eof i f hi hf := by
    have hi := h.aob ▸ hi
    exact ha.eof i f hi ((h.item i (ha.lt i hi)).frame_data hf)
  noCopy hs i hi := by
    have hi := h.aob ▸ hi
    rw [(h.item i (ha.lt i hi)).alike.2]
    exact ha.noCopy (h.state ▸ hs) i hi

/-- Frames are submitted. -/
theorem Keeps.sound (h : Keeps o o') (hs : o.Sound) : o'.Sound :=
  ⟨h.tabled, h.filed hs.filed, h.active hs.active⟩

/-- The active item is done with. -/
theorem cleared_sound (h : o.session.Tabled) (hf : o.Filed) : o.cleared.Sound where
  tabled := h
  filed := { hf with }
  active := ⟨iff_of_true rfl rfl, nofun, nofun, nofun, nofun⟩

/-- The frame has been handled. -/
theorem Sound.setSent (h : o.Sound) (hs : o.state = .sendData) : Sound { o with sent := true } where
  tabled := h.tabled
  filed := { h.filed with }
  active := { h.active with sent := fun _ => hs }

/-- Something happens elsewhere. -/
theorem Sound.outside {s : Session} {ev : Session.Event} (h : o.Sound)
    (hs : Session.Outside o.session s ev) : Sound { o with session := s } where
  tabled := hs.tabled
  filed :=
    have hmine : ∀ id, s.isMyStreamId id = o.session.isMyStreamId id := fun id => by
      rw [Session.isMyStreamId, Session.isMyStreamId, hs.server]
    { h.filed with
      tree := fun x i hi => h.filed.tree x i (hs.carried x i hi)
      asks := fun i hi id hid => hs.unsent.symm ▸ h.filed.asks i hi id hid
      unsent_lt := fun id hid => (h.filed.unsent_lt id (hs.unsent ▸ hid)).trans_le hs.nextStreamId
      unsent_nodup := hs.unsent.symm ▸ h.filed.unsent_nodup
      unsent_mine := fun id hid => (hmine id).trans (h.filed.unsent_mine id (hs.unsent ▸ hid))
      next_mine := (hmine _).trans (hs.next_mine h.filed.next_mine) }
  active :=
    have haob : s.items.aob = o.session.items.aob := congrArg ItemStore.aob hs.items
    ⟨haob.symm ▸ h.active.aob, h.active.sent, fun i hi => h.active.lt i (haob ▸ hi),
      fun i f hi => h.active.eof i f (haob ▸ hi), fun hst i hi => h.active.noCopy hst i (haob ▸ hi)⟩

/-- `session_after_frame_sent2`. -/
theorem afterFrameSent2_grows (h : o.session.Tabled) (haob : o.session.items.aob = some i) :
    Grows o.cleared o.afterFrameSent2 := by
  unfold Outbound.afterFrameSent2
  rw [haob]
  dsimp only
  have hreset : Grows o.cleared o.activeOutboundItemReset := (Grows.refl h).reset
  split
  · split_ifs
    · exact hreset
    · split
      · exact Grows.refl h
      · exact (detachItem_grows h _).reset
      · exact hreset
  · exact hreset

/-- DATA, as a frame. -/
theorem frame_of_kind_data (h : it.kind = .data) : ∃ f, it.frame = .data f := by
  unfold OutboundItem.kind at h
  split at h
  · next f hf => exact ⟨f, hf⟩
  all_goals cases h

/-- DATA that is ready has END_STREAM only at the end of the data. -/
theorem ReadyFor.eof (h : ReadyFor o1 o2 i (o1.item i).frame)
    (hself : Alike (o1.item i) (o2.item i)) (hf : (o2.item i).frame = .data f)
    (hend : f.endStream = true) : f.eof = true := by
  have hkind : (o1.item i).kind = .data := by
    rw [← hself.2]
    simp [OutboundItem.kind, hf]
  obtain ⟨f1, hf1⟩ := frame_of_kind_data hkind
  rw [hf1] at h
  obtain ⟨⟨g, hg, heof⟩, -⟩ := h
  rw [hg] at hf
  cases hf
  exact heof hend

/-- An item becomes active. -/
theorem activate_sound {opened : Option (ℕ × StreamState)}
    (hp : Prepares o1 o2 i opened) (hf : o2.Filed) (hi : i < o2.allocated)
    (hready : ReadyFor o1 o2 i (o1.item i).frame) : (o2.activate i env).Sound where
  tabled := hp.tabled
  filed := { hf with }
  active := by
    constructor
    case aob =>
      refine iff_of_false (fun hs => ?_) nofun
      dsimp only [Outbound.activate] at hs
      split_ifs at hs
    case sent => nofun
    case lt =>
      rintro j ⟨⟩
      exact hi
    case eof =>
      rintro j f ⟨⟩ hframe
      exact hready.eof hp.self hframe
    case noCopy =>
      rintro hs j ⟨⟩
      dsimp only [Outbound.activate] at hs
      split_ifs at hs with hnc
      show (o2.item i).kind = .data
      unfold Outbound.noCopy at hnc
      split at hnc
      · next f hframe => simp [OutboundItem.kind, hframe]
      · cases hnc

end Outbound

/-! ## Turns -/

namespace Recorded

open Outbound

variable {r r' : Recorded} {e : Outbound.Event}

/-- An item has been popped and prepared. -/
structure Prepared (r : Recorded) (o1 o2 : Outbound) (i : ItemPtr) : Prop where
  state : r.out.state = .popItem
  pop : Popped r.out o1 i
  prep : Prepares o1 o2 i (opensStream o1 i)
  filed : o2.Filed

/-- The active frame is written, or it has been written and is looked at once more; `o1` is what
`session_after_frame_sent1` leaves. -/
structure Writes (r : Recorded) (e : Outbound.Event) (r' : Recorded) (o1 : Outbound)
    (i : ItemPtr) : Prop where
  aob : r.out.session.items.aob = some i
  sends : Sends r.out o1 (r.out.item i).streamId (r.out.item i).frame
  other : (∀ f, (r.out.item i).frame ≠ .data f) → (∀ f, (r.out.item i).frame ≠ .headers f) →
    Grows r.out o1 ∧ ((r.out.item i).frame = .rstStream →
      o1.session.getStream (r.out.item i).streamId = none)
  out : (r.out.state = .sendData ∧ r'.out = { o1 with sent := true }) ∨
    (r.out.state = .sendNoCopy ∧ Grows o1.cleared r'.out)
  written : r'.written = r.written ++ if r.out.sent then [] else [(i, (r.out.item i).wire)]
  sent : ∃ env, r.out.afterFrameSent1 env = .ok o1 ∧
    (r.out.state = .sendData → e = .frameSent1 env)

/-- **What an event can do.** -/
inductive Turn (r : Recorded) (e : Outbound.Event) (r' : Recorded) : Prop
  /-- Frames are submitted, or streams are closed. -/
  | grows (h : Grows r.out r'.out) (hw : r'.written = r.written)
  /-- Something happens to the stream table. -/
  | outside (ev : Session.Event) (s : Session) (he : e = .session ev)
      (h : Session.Outside r.out.session s ev) (ho : r'.out = { r.out with session := s })
      (hw : r'.written = r.written)
  /-- An item is popped and prepared, and becomes the active item. -/
  | activates (o1 o2 : Outbound) (i : ItemPtr) (env : Env) (he : e = .popItem env)
      (hnext : r.out.popNextObItem env = (o1, some i)) (hp : Prepared r o1 o2 i)
      (hready : ReadyFor o1 o2 i (o1.item i).frame) (ho : r'.out = o2.activate i env)
      (hw : r'.written = r.written)
  /-- An item is popped and given up. -/
  | drops (o1 o2 : Outbound) (i : ItemPtr) (hp : Prepared r o1 o2 i)
      (hgoaway : ∀ n a b, (o1.item i).frame ≠ .goaway n a b)
      (h : Drops o2 r'.out (opensStream o1 i)) (hw : r'.written = r.written)
  /-- The active frame is written. -/
  | sends (o1 : Outbound) (i : ItemPtr) (h : Writes r e r' o1 i)
  /-- The active frame has been written, or it is DATA that cannot be sent any more. -/
  | clears (h : Grows r.out.cleared r'.out) (hsent : r.out.sent = true ∨ r.out.state = .sendNoCopy)
      (hw : r'.written = r.written)

/-- Nothing happens. -/
theorem Turn.same (hs : r.out.Sound) (ho : r'.out = r.out) (hw : r'.written = r.written) :
    Turn r e r' :=
  .grows (by rw [ho]; exact Grows.refl hs.tabled) hw

/-- **An item is popped.** -/
theorem turn_popItem {env : Env} (hs : r.out.Sound) (he : e = .popItem env)
    (hstate : r.out.state = .popItem) (hres : r.out.popItem env = .ok r'.out)
    (hw : r'.written = r.written) : Turn r e r' := by
  rcases popItem_cases hs.tabled hs.filed hres with ho | ⟨o1, i, o2, hnext, hpop, hprep, hf, hcase⟩
  · exact .same hs ho hw
  have hp : Prepared r o1 o2 i := ⟨hstate, hpop, hprep, hf⟩
  rcases hcase with ⟨hready, ho⟩ | ⟨hgoaway, hdrops⟩
  · exact .activates o1 o2 i env he hnext hp hready ho hw
  · exact .drops o1 o2 i hp hgoaway hdrops hw

/-- **A frame has been sent.** -/
theorem turn_frameSent1 {env : Env} (hs : r.out.Sound) (he : e = .frameSent1 env)
    (hstate : r.out.state = .sendData)
    (hres : (r.out.afterFrameSent1 env).map (fun o => { o with sent := true }) = .ok r'.out)
    (hw : r'.written = r.written ++
      ((if r.out.state = .sendData && !r.out.sent then r.out.session.items.aob else none).map
        fun i => (i, (r.out.item i).wire)).toList) : Turn r e r' := by
  obtain ⟨o1, hsent, ho⟩ := exists_of_map_eq_ok hres
  have ho := ho.symm
  cases haob : r.out.session.items.aob with
  | none => cases hstate.symm.trans (hs.active.aob.2 haob)
  | some i =>
    have hlt := hs.active.lt i haob
    refine .sends o1 i ⟨haob,
      afterFrameSent1_sends hs.tabled haob hlt (fun f => hs.active.eof i f haob) hsent,
      fun hdata hheaders => afterFrameSent1_grows hs.tabled haob hdata hheaders hsent,
      .inl ⟨hstate, ho⟩, ?_, env, hsent, fun _ => he⟩
    rw [hw, haob, hstate]
    cases r.out.sent with
    | true => rfl
    | false => rfl

/-- **DATA is sent without a copy.** -/
theorem turn_sendNoCopy {env : Env} {res : SendDataResult} (hs : r.out.Sound)
    (hstate : r.out.state = .sendNoCopy) (hres : r.out.sendNoCopy env res = .ok r'.out)
    (hw : r'.written = r.written ++
      ((r.out.writes (.sendNoCopy env res)).map fun i => (i, (r.out.item i).wire)).toList) :
    Turn r e r' := by
  have hsent : r.out.sent = false := by
    rw [← Bool.not_eq_true]
    intro h
    cases hstate.symm.trans (hs.active.sent h)
  unfold Outbound.sendNoCopy at hres
  cases haob : r.out.session.items.aob with
  | none => cases hstate.symm.trans (hs.active.aob.2 haob)
  | some i =>
    rw [haob] at hres
    dsimp only at hres
    cases hget : r.out.session.getStream (r.out.item i).streamId with
    | none =>
      rw [hget] at hres
      have ho := (Except.ok.inj hres).symm
      refine .clears (ho ▸ (Grows.refl hs.tabled).reset) (.inr hstate) ?_
      rw [hw]
      cases res <;> simp [Outbound.writes, haob, hget]
    | some x =>
      rw [hget] at hres
      cases res with
      | wouldBlock => exact .same hs (Except.ok.inj hres).symm (by simp [hw, Outbound.writes])
      | temporalFailure =>
        have hdet := detachItem_grows hs.tabled x
        have ho := (Except.ok.inj hres).symm
        refine .clears ?_ (.inr hstate) (by simp [hw, Outbound.writes])
        rw [ho]
        exact (hdet.trans ((addRstStream_submitted ..).grows hdet.tabled)).reset
      | sent =>
        obtain ⟨o1, hsent1, hres⟩ := bind_eq_ok.1 hres
        have hlt := hs.active.lt i haob
        have hsends := afterFrameSent1_sends hs.tabled haob hlt
          (fun f => hs.active.eof i f haob) hsent1
        have haob1 : o1.session.items.aob = some i := hsends.aob.trans haob
        have ho := (Except.ok.inj hres).symm
        refine .sends o1 i ⟨haob, hsends,
          fun hdata hheaders => afterFrameSent1_grows hs.tabled haob hdata hheaders hsent1,
          .inr ⟨hstate, ?_⟩, ?_, env, hsent1, fun h => nomatch hstate.symm.trans h⟩
        · rw [ho]
          exact afterFrameSent2_grows hsends.tabled haob1
        · simp [hw, Outbound.writes, haob, hget, hstate, hsent]

/-- **Every event is a turn.** -/
theorem turn_of_step (hs : r.out.Sound) (hres : r.step e = .ok r') : Turn r e r' := by
  obtain ⟨ho, hw⟩ := step_eq_ok hres
  cases e with
  | submit sub =>
    refine .grows ?_ (by simpa [Outbound.writes] using hw)
    rw [← Except.ok.inj ho]
    exact submit_grows hs.tabled sub
  | session ev =>
    have hw : r'.written = r.written := by simpa [Outbound.writes] using hw
    dsimp only [Outbound.step] at ho
    split_ifs at ho with hext
    · obtain ⟨s, hstep, ho⟩ := exists_of_map_eq_ok ho
      exact .outside ev s rfl (Session.step_outside hs.tabled hext hstep) ho.symm hw
    · exact .same hs (Except.ok.inj ho).symm hw
  | close env id =>
    exact .grows (closeStream_grows hs.tabled ho).1 (by simpa [Outbound.writes] using hw)
  | recvGoaway env lastStreamId =>
    have hflag : Grows r.out { r.out with goawayRecv := true } :=
      Grows.of_eq hs.tabled rfl rfl rfl fun hf => { hf with }
    exact .grows (hflag.trans (closeStreamOnGoaway_grows hflag.tabled ho))
      (by simpa [Outbound.writes] using hw)
  | popItem env =>
    have hw : r'.written = r.written := by simpa [Outbound.writes] using hw
    dsimp only [Outbound.step] at ho
    split_ifs at ho with hstate
    · exact turn_popItem hs rfl hstate ho hw
    · exact .same hs (Except.ok.inj ho).symm hw
  | frameSent1 env =>
    dsimp only [Outbound.step] at ho
    split_ifs at ho with hstate
    · exact turn_frameSent1 hs rfl hstate ho hw
    · exact .same hs (Except.ok.inj ho).symm (by simpa [Outbound.writes, hstate] using hw)
  | frameSent2 =>
    have hw : r'.written = r.written := by simpa [Outbound.writes] using hw
    have ho := (Except.ok.inj ho).symm
    split_ifs at ho with hcond
    · simp only [Bool.and_eq_true, decide_eq_true_eq] at hcond
      cases haob : r.out.session.items.aob with
      | none => cases hcond.1.symm.trans (hs.active.aob.2 haob)
      | some i =>
        exact .clears (ho ▸ afterFrameSent2_grows hs.tabled haob) (.inl hcond.2) hw
    · exact .same hs ho hw
  | sendNoCopy env res =>
    dsimp only [Outbound.step] at ho
    split_ifs at ho with hstate
    · exact turn_sendNoCopy hs hstate ho hw
    · refine .same hs (Except.ok.inj ho).symm ?_
      cases res <;> simpa [Outbound.writes, hstate] using hw

/-- **Every turn keeps the sending side in order.** -/
theorem Turn.sound (h : Turn r e r') (hs : r.out.Sound) : r'.out.Sound := by
  cases h with
  | grows h => exact h.toKeeps.sound hs
  | outside ev s he h ho =>
    rw [ho]
    exact hs.outside h
  | activates o1 o2 i env he hnext hp hready ho =>
    rw [ho]
    exact activate_sound hp.prep hp.filed
      ((hp.pop.filed hs.filed).2.1.trans_le hp.prep.allocated) hready
  | drops o1 o2 i hp hgoaway h => exact h.1.toKeeps.sound (cleared_sound hp.prep.tabled hp.filed)
  | sends o1 i h =>
    have h1 := h.sends.toKeeps.sound hs
    rcases h.out with ⟨hstate, ho⟩ | ⟨hstate, ho⟩
    · rw [ho]
      exact h1.setSent (h.sends.state.trans hstate)
    · exact ho.toKeeps.sound (cleared_sound h1.tabled h1.filed)
  | clears h => exact h.toKeeps.sound (cleared_sound hs.tabled hs.filed)

/-- The rule for what does not depend on the active item: it is kept while frames are submitted
and streams are closed, and by the turns that pop an item or send a frame. -/
theorem Turn.rule {P : Outbound → Prop} (h : Turn r e r') (hs : r.out.Sound) (hP : P r.out)
    (hactive : ∀ {o : Outbound} aob state sent, P o → P { o.setAob aob with state, sent })
    (hgrows : ∀ {o o' : Outbound}, o.Sound → Grows o o' → P o → P o')
    (houtside : ∀ ev s, e = .session ev → Session.Outside r.out.session s ev →
      P { r.out with session := s })
    (hprep : ∀ o1 o2 i, Prepared r o1 o2 i → P o2)
    (hsends : ∀ o1 i, Writes r e r' o1 i → P o1) : P r'.out := by
  cases h with
  | grows h => exact hgrows hs h hP
  | outside ev s he h ho =>
    rw [ho]
    exact houtside ev s he h
  | activates o1 o2 i env he hnext hp hready ho =>
    rw [ho]
    exact hactive _ _ _ (hprep o1 o2 i hp)
  | drops o1 o2 i hp hgoaway h =>
    exact hgrows (cleared_sound hp.prep.tabled hp.filed) h.1 (hactive _ _ _ (hprep o1 o2 i hp))
  | sends o1 i h =>
    have h1 := hsends o1 i h
    rcases h.out with ⟨-, ho⟩ | ⟨-, ho⟩
    · rw [ho]
      exact hactive o1.session.items.aob o1.state true h1
    · have hs1 := h.sends.toKeeps.sound hs
      exact hgrows (cleared_sound hs1.tabled hs1.filed) ho (hactive _ _ _ h1)
  | clears h => exact hgrows (cleared_sound hs.tabled hs.filed) h (hactive _ _ _ hP)

/-- A new session. -/
theorem new_sound (server : Bool) (n p m : ℕ) : (Recorded.new server n p m).out.Sound where
  tabled := by
    have hinv := Session.new_inv server n p m
    exact ⟨_, hinv.linked, hinv.size.le, hinv.tree.root_lt,
      fun _ ⟨_, hx⟩ => absurd hx List.not_mem_nil⟩
  filed :=
    ⟨nofun, nofun, nofun, fun x _ hi => (nomatch (loneRoot_item x).symm.trans hi), List.nodup_nil,
      nofun, nofun, List.Pairwise.nil, nofun, List.nodup_nil, nofun,
      (Session.new_inv server n p m).next_mine⟩
  active := ⟨iff_of_true rfl rfl, nofun, nofun, nofun, nofun⟩

/-- **Every run** is sound. -/
theorem Reaches.sound {C : Recorded → Outbound.Event → Prop} (h : Reaches C r) : r.out.Sound :=
  h.induct (fun server n p m => new_sound server n p m)
    fun _ _ _ _ hs _ hres => (turn_of_step hs hres).sound hs

/-- The rule of invariants, turn by turn. -/
theorem Reaches.turns {C : Recorded → Outbound.Event → Prop} {P : Recorded → Prop}
    (hnew : ∀ server n p m, P (Recorded.new server n p m))
    (hturn : ∀ r r' e, Reaches C r → r.out.Sound → P r → C r e → Turn r e r' → P r')
    (h : Reaches C r) : P r :=
  h.induct hnew fun r r' e hr hP hC hres =>
    hturn r r' e hr hr.sound hP hC (turn_of_step hr.sound hres)

/-! ## The frames a session has committed itself to -/

end Recorded

namespace Outbound

variable {o o' : Outbound} {env : Env} {i : ItemPtr}

/-- The frame that is being sent and has not been written. -/
def sending (o : Outbound) : List (ItemPtr × WireFrame) :=
  if o.sent then [] else (o.session.items.aob.map fun i => (i, (o.item i).wire)).toList

/-- The same frame is being sent. -/
theorem Keeps.sending (h : Keeps o o') (ha : o.Active) : o'.sending = o.sending := by
  unfold Outbound.sending
  rw [h.sent, h.aob]
  cases haob : o.session.items.aob with
  | none => rfl
  | some i => rw [Option.map_some, Option.map_some, (h.item i (ha.lt i haob)).wire]

/-- No frame is being sent. -/
theorem sending_of_popItem (ha : o.Active) (hs : o.state = .popItem) : o.sending = [] := by
  unfold Outbound.sending
  rw [ha.aob.1 hs]
  split_ifs
  · rfl
  · rfl

theorem sending_activate : (o.activate i env).sending = [(i, (o.item i).wire)] := rfl

theorem sending_cleared : o.cleared.sending = [] := rfl

end Outbound

namespace Recorded

open Outbound

variable {r r' : Recorded}

/-- The frames that have been written, and the one that is being sent. -/
def committed (r : Recorded) : List (ItemPtr × WireFrame) := r.written ++ r.out.sending

/-- No frame is written. -/
theorem committed_of_keeps (h : Keeps r.out r'.out) (hs : r.out.Sound)
    (hw : r'.written = r.written) : r'.committed = r.committed := by
  rw [Recorded.committed, Recorded.committed, hw, h.sending hs.active]

/-- Nothing is being sent when an item is popped. -/
theorem committed_of_popItem (hs : r.out.Sound) (hstate : r.out.state = .popItem) :
    r.committed = r.written := by
  rw [Recorded.committed, sending_of_popItem hs.active hstate, List.append_nil]

/-- Nothing is being sent after the active frame is done with. -/
theorem committed_of_cleared {o : Outbound} (h : Grows o.cleared r'.out) (ht : o.session.Tabled)
    (hf : o.Filed) : r'.committed = r'.written := by
  rw [Recorded.committed, h.toKeeps.sending (cleared_sound ht hf).active, sending_cleared,
    List.append_nil]

/-- No frame is written. -/
theorem committed_of_outside {s : Session} {ev : Session.Event}
    (h : Session.Outside r.out.session s ev) (ho : r'.out = { r.out with session := s })
    (hw : r'.written = r.written) : r'.committed = r.committed := by
  rw [Recorded.committed, Recorded.committed, hw, ho]
  unfold Outbound.sending
  rw [show s.items = r.out.session.items from h.items]

/-- After a turn that writes the active frame, nothing has changed for the frames that have
been committed. -/
theorem Writes.committed {e : Outbound.Event} {o1 : Outbound} {i : ItemPtr}
    (h : Writes r e r' o1 i) (hs : r.out.Sound) : r'.committed = r.committed := by
  have hafter : r'.out.sending = [] := by
    rcases h.out with ⟨-, ho⟩ | ⟨-, ho⟩
    · rw [ho]
      rfl
    · have h1 := h.sends.toKeeps.sound hs
      rw [ho.toKeeps.sending (cleared_sound h1.tabled h1.filed).active]
      rfl
  have hbefore : r.out.sending = if r.out.sent then [] else [(i, (r.out.item i).wire)] := by
    unfold Outbound.sending
    rw [h.aob]
    rfl
  rw [Recorded.committed, Recorded.committed, hafter, h.written, hbefore, List.append_nil]

end Recorded

end Nghttp2
