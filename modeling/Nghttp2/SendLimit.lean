/-
# The peer's limit on concurrent streams

The peer's SETTINGS_MAX_CONCURRENT_STREAMS bounds the streams that this side has open.
`nghttp2_session_pop_next_ob_item` looks at it before it takes an item from `ob_syn`, and
requests wait nowhere else.  The response on a promised stream waits there only if the stream
is in the table when the response is submitted, that is, after its PUSH_PROMISE was prepared.

* `Session.outgoing` is the set of the streams that the limit is about;
* `Honours` says that HEADERS which open a stream are packed below the limit;
* `Bypasses` describes the turns that do not ask for the limit;
* `limit_honoured_iff_of_reaches` says that these are the only ones that exceed it, and that
  without them the limit is exceeded only after the peer has lowered it.
-/
import Nghttp2.StreamCount

namespace Nghttp2

namespace Session

variable {s s' : Session} {id : ℕ} {x : Ptr}

/-- The streams of this side that are open: not reserved, not closed, not idle. -/
def outgoing (s : Session) : Set Ptr := {x | s.InTable x ∧ s.tally x = some .outgoing}

theorem mem_outgoing (h : s.Tabled) : x ∈ s.outgoing ↔
    ∃ id, s.getStream id = some x ∧ s.isMyStreamId id = true ∧ (s.info x).push = false := by
  have hkey : ∀ {id}, s.getStream id = some x → s.streamId x = id := fun hx =>
    (h.of_getStreamRaw (getStream_eq_some_iff.1 hx).1).1
  constructor
  · rintro ⟨htable, htally⟩
    unfold tally tallyOf at htally
    split_ifs at htally with hclosed hpush hpeer hidle hmine
    · cases htally
    · rw [Bool.not_eq_true] at hclosed hpush
      exact ⟨s.streamId x, getStream_eq_some_iff.2 ⟨htable, hclosed, hidle⟩, hmine, hpush⟩
    · cases htally
  · rintro ⟨id, hx, hmine, hpush⟩
    obtain ⟨hraw, hclosed, hidle⟩ := getStream_eq_some_iff.1 hx
    rw [← hkey hx] at hraw hmine
    exact ⟨hraw, by simp [tally, tallyOf, hclosed, hidle, hpush, hmine]⟩

/-- Ids of this side are taken up by the upgrade from HTTP/1.1 and by the application alone. -/
theorem step_nextStreamId {e : Event} (h : s.Tabled) (he : Outbound.external e = true)
    (hne : e ≠ .upgrade) (hset : ∀ n, e ≠ .setNextStreamId n) (hres : s.step e = .ok s') :
    s'.nextStreamId = s.nextStreamId := by
  cases hc : s.openCall e with
  | some c =>
    have hcall : c.session.nextStreamId = s.nextStreamId ∧ c.session.Tabled := by
      cases starts_of_openCall hc with
      | recvHeaders | recvPriority | recvPushPromise => exact ⟨rfl, h⟩
      | sendRequest | sendPushPromise => cases he
      | upgradeServer | upgradeClient => exact absurd rfl hne
    obtain ⟨y, hopens⟩ := step_opens hc hne hcall.2 hres
    exact hopens.nextStreamId.trans hcall.1
  | none =>
    cases settles_of_settle (settle_of_step hc hres) with
    | reprioritize hres => exact (reprioritizeStream_trims h hres).nextStreamId
    | setNextStreamId => exact absurd rfl (hset _)
    | submitStream | close | sendGoaway => cases he
    | _ => rfl

/-- Apart from the upgrade from HTTP/1.1, streams of this side are opened by sending. -/
theorem step_own {e : Event} (h : s.Tabled) (he : Outbound.external e = true)
    (hne : e ≠ .upgrade) (hres : s.step e = .ok s') (hx : s'.getStream id = some x)
    (hmine : s.isMyStreamId id = true) :
    s.getStream id = some x ∧ Touches e id (s.info x) (s'.info x) := by
  by_cases hset : ∃ n, e = .setNextStreamId n
  · obtain ⟨n, rfl⟩ := hset
    have hs' : s.settle (.setNextStreamId n) = .ok s' := hres
    rw [← Except.ok.inj hs'] at hx ⊢
    split_ifs at hx ⊢
    · exact ⟨hx, .inl rfl⟩
    · exact ⟨hx, .inl rfl⟩
  · have hnext := step_nextStreamId h he hne (fun n hn => hset ⟨n, hn⟩) hres
    rcases (step_outside h he hres).entry hx with hold | ⟨hpeer, -⟩ | ⟨-, hle, hlt, -⟩
    · exact hold
    · cases hpeer.symm.trans hmine
    · omega

/-- The upgrade from HTTP/1.1 opens stream 1. -/
theorem upgrade_own (h : s.Tabled) (hres : s.step .upgrade = .ok s')
    (hx : s'.getStream id = some x) (hmine : s.isMyStreamId id = true) :
    (s.getStream id = some x ∧ s'.info x = s.info x) ∨ id = 1 := by
  have hnext : s'.nextStreamId = s.nextStreamId ∨
      (s.server = false ∧ s.nextStreamId = 1 ∧ s'.nextStreamId = 3) := by
    cases hc : s.openCall .upgrade with
    | none =>
      cases settle_of_step hc hres
      exact .inl rfl
    | some c =>
      obtain ⟨-, -, hcall⟩ := openCall_upgrade hc
      obtain ⟨r, hopen, rfl⟩ := openStream_of_step hc hres
      have hs' : r.1.nextStreamId = c.session.nextStreamId := by
        refine (openStream_opens ?_ hopen).nextStreamId
        rcases hcall with ⟨-, -, hs⟩ | ⟨-, -, hs⟩
        all_goals exact hs ▸ h
      rcases hcall with ⟨-, -, hs⟩ | ⟨hside, hone, hs⟩
      · exact .inl (hs'.trans (by rw [hs]))
      · exact .inr ⟨hside, hone, hs'.trans (by rw [hs])⟩
  rcases (upgrade_outside h hres).entry hx with ⟨hold, htouch⟩ | ⟨hpeer, -⟩ | ⟨-, hle, hlt, -⟩
  · exact .inl ⟨hold, htouch.resolve_right not_false⟩
  · cases hpeer.symm.trans hmine
  · rcases hnext with hnext | ⟨hside, hone, hthree⟩
    · omega
    · have hodd : id % 2 = 1 := by
        simp only [isMyStreamId, hside, Bool.and_eq_true] at hmine
        simpa using hmine.2
      omega

end Session

namespace Outbound

variable {o o' o1 o2 : Outbound} {env : Env} {e : Event} {i : ItemPtr} {x : Ptr}

/-! ## Packing below the limit -/

/-- HEADERS that open a stream, a request or the response on a promised stream, have been
packed and are the active item now. -/
def PacksOpening (o o' : Outbound) : Prop :=
  o.session.items.aob = none ∧ ∃ i f, o'.session.items.aob = some i ∧
    (o'.item i).frame = .headers f ∧ (f.cat = .request ∨ f.cat = .pushResponse)

/-- The category of HEADERS. -/
def headersCat : Frame → Option HeadersCat
  | .headers f => some f.cat
  | _ => none

theorem packsOpening_of_headersCat {cat : HeadersCat} (hnone : o.session.items.aob = none)
    (haob : o'.session.items.aob = some i) (hcat : headersCat (o'.item i).frame = some cat)
    (hopens : cat = .request ∨ cat = .pushResponse) : o.PacksOpening o' := by
  unfold headersCat at hcat
  split at hcat
  · next f hf =>
    cases hcat
    exact ⟨hnone, i, f, haob, hf, hopens⟩
  · cases hcat

/-- If the event packs HEADERS that open a stream, fewer streams are open than the peer
allows. -/
def Honours (o : Outbound) (e : Event) (o' : Outbound) : Prop :=
  ∀ env, e = .popItem env → o.PacksOpening o' →
    o.session.outgoing.encard < env.remoteMaxConcurrentStreams

/-- The event packs the response on a promised stream that waited in `ob_reg` (or with a
stream) and not in `ob_syn`, while as many streams are open as the peer allows. -/
def Bypasses (o : Outbound) : Event → Prop
  | .popItem env => o.state = .popItem ∧ ∃ o1 i f, o.popNextObItem env = (o1, some i) ∧
      (i ∈ o.obReg ∨ ∃ x, o.session.tree.sched.item x = some i) ∧
      (o1.item i).frame = .headers f ∧ f.cat ≠ .request ∧
      o1.predicatePushResponseHeadersSend (o1.session.getStream (o1.item i).streamId) = none ∧
      estimateHeadersPayload f.nva prioritySpeclen ≤ maxHeaderslen ∧ env.packs = true ∧
      env.remoteMaxConcurrentStreams ≤ o.session.numOutgoingStreams
  | _ => False

/-- HEADERS that are popped come from `ob_syn`, below the limit, or they are no request. -/
theorem popNextObItem_headers {b : Bool} (hf : o.Filed) (hpop : o.popNextObItem env = (o1, some i))
    (hkind : (o.item i).kind = .headers b) :
    o.session.numOutgoingStreams < env.remoteMaxConcurrentStreams ∨
      (b = false ∧ (i ∈ o.obReg ∨ ∃ x, o.session.tree.sched.item x = some i)) := by
  have hreg : i ∈ o.obReg → b = false := fun hi => by
    have hne := (hf.reg i hi).2.1
    rw [hkind] at hne
    simpa using hne
  unfold Outbound.popNextObItem at hpop
  split at hpop
  · next j l hl =>
    cases hpop
    have := (hf.urgent i (by simp [hl])).2
    rw [hkind] at this
    simp at this
  split at hpop
  · next j l hl =>
    cases hpop
    have hi : i ∈ o.obReg := by simp [hl]
    exact .inr ⟨hreg hi, .inl hi⟩
  split at hpop
  · next j l hl =>
    split_ifs at hl with hmax
    exact .inl (not_le.1 hmax)
  · split_ifs at hpop
    · obtain ⟨x, hx⟩ := exists_item_of_nextOutboundLoop (congrArg Prod.snd hpop)
      have := (hf.tree x i hx).2.2
      rw [hkind] at this
      exact .inr ⟨by simpa using this, .inr ⟨x, hx⟩⟩
    · cases hpop

/-- An item that has become the active one was popped and could be prepared. -/
theorem popItem_active (htab : o.session.Tabled) (hf : o.Filed) (hnone : o.session.items.aob = none)
    (hres : o.popItem env = .ok o') (haob : o'.session.items.aob = some i) :
    ∃ o1 o2, o.popNextObItem env = (o1, some i) ∧ o1.prepFrame i env = .ok (o2, .ready) ∧
      o' = o2.activate i env := by
  unfold Outbound.popItem at hres
  split at hres
  · next o1 hpop =>
    cases hres
    rw [popNextObItem_none hpop, hnone] at haob
    cases haob
  · next o1 j hpop =>
    obtain ⟨⟨o2, r⟩, hprep, hres⟩ := bind_eq_ok.1 hres
    have hp := popNextObItem_popped hpop
    have htab1 : o1.session.Tabled := by
      rw [hp.eq]
      exact htab
    have hpreps := (prepFrame_prepares htab1 (hp.filed hf).2.1 hprep).1
    dsimp only at hres
    split at hres
    · cases hres
      rw [(Grows.refl hpreps.tabled).reset.aob] at haob
      cases haob
    · have hdrops := prepFailed_drops hpreps.tabled ((hp.filed hf).2.1.trans_le hpreps.allocated)
        (fun id st hid => by rw [hpreps.self.opens]; exact opens_of_opensStream hid) hres
      rw [hdrops.1.aob] at haob
      cases haob
    · cases hres
      cases haob
      exact ⟨o1, o2, hpop, hprep, rfl⟩

theorem modifyFrame_frame (o : Outbound) (i : ItemPtr) (f : Frame) :
    ((o.modifyFrame i f).item i).frame = f := by
  simp [modifyFrame]

/-- HEADERS are packed as a push response if the stream is reserved and they fit. -/
theorem prepHeaders_pushResponse {f g : HeadersFrame} (hcat : f.cat ≠ .request)
    (hres : o.prepHeaders i f env = .ok (o', .ready)) (hg : (o'.item i).frame = .headers g)
    (hpush : g.cat = .pushResponse) :
    o.predicatePushResponseHeadersSend (o.session.getStream (o.item i).streamId) = none ∧
      estimateHeadersPayload f.nva prioritySpeclen ≤ maxHeaderslen ∧ env.packs = true := by
  unfold Outbound.prepHeaders at hres
  split_ifs at hres with hsize
  · cases hres
  split at hres
  · next cat hclass =>
    obtain ⟨ho', hpack⟩ := Prod.mk.inj (Except.ok.inj hres)
    have hpacks : env.packs = true := by
      by_contra hne
      simp [packHeaders, hne] at hpack
    have hg' : cat = .pushResponse := by
      rw [← ho', modifyFrame_frame] at hg
      cases hg
      exact hpush
    refine ⟨?_, not_lt.1 hsize, hpacks⟩
    unfold classifyHeaders at hclass
    split_ifs at hclass with hpred hresp
    · exact hpred
    · cases hclass
      cases hg'
    · split at hclass
      all_goals
        cases hclass
      cases hg'
  · cases hres

/-- **Turns that do not ask for the limit** are the only ones that exceed it. -/
theorem honours_iff (hs : o.Sound) (hacc : o.session.Accounted) (hres : o.step e = .ok o') :
    o.Honours e o' ↔ ¬ o.Bypasses e := by
  have hnum : o.session.outgoing.encard = o.session.numOutgoingStreams := hacc.count .outgoing
  constructor
  · rintro hhon hbypass
    cases e with
    | popItem env =>
      obtain ⟨hstate, o1, i, f, hpop, -, hframe, hcat, hpred, hsize, hpacks, hlimit⟩ := hbypass
      have hprep : o1.prepFrame i env =
          .ok (o1.modifyFrame i (.headers { f with cat := .pushResponse }), .ready) := by
        simp only [prepFrame, hframe, prepHeaders, if_neg (not_lt.2 hsize), if_neg hcat,
          classifyHeaders, if_pos hpred, packHeaders, if_pos hpacks]
        rfl
      simp only [step, if_pos hstate, Outbound.popItem, hpop, hprep] at hres
      obtain rfl := Except.ok.inj hres
      have hlt := hhon env rfl ⟨hs.active.aob.1 hstate, i, { f with cat := .pushResponse }, rfl,
        modifyFrame_frame o1 i _, .inr rfl⟩
      rw [hnum, Nat.cast_lt] at hlt
      omega
    | _ => exact hbypass
  rintro hsafe env rfl ⟨hnone, i, g, haob, hg, hcat⟩
  rw [hnum, Nat.cast_lt]
  by_contra hlimit
  have hstate := hs.active.aob.2 hnone
  dsimp only [step] at hres
  rw [if_pos hstate] at hres
  obtain ⟨o1, o2, hpop, hprep, rfl⟩ := popItem_active hs.tabled hs.filed hnone hres haob
  have hp := popNextObItem_popped hpop
  have hitem : o1.item = o.item := by rw [hp.eq]
  have htab1 : o1.session.Tabled := by
    rw [hp.eq]
    exact hs.tabled
  have halike := (prepFrame_prepares htab1 (hp.filed hs.filed).2.1 hprep).1.self
  have hkind : (o.item i).kind = .headers (g.cat = .request) := by
    rw [← hitem, ← halike.2]
    simp [OutboundItem.kind, show (o2.item i).frame = _ from hg]
  obtain hlt | ⟨hreq, hsource⟩ := popNextObItem_headers hs.filed hpop hkind
  · exact hlimit hlt
  have hpush := hcat.resolve_left (by simpa using hreq)
  obtain ⟨f, hframe, hfcat⟩ : ∃ f, (o1.item i).frame = .headers f ∧ f.cat ≠ .request := by
    rw [hitem]
    unfold OutboundItem.kind at hkind
    split at hkind <;> simp_all
  have hprep : o1.prepHeaders i f env = .ok (o2, .ready) := by
    simpa only [prepFrame, hframe] using hprep
  obtain ⟨hpred, hsize, hpacks⟩ := prepHeaders_pushResponse hfcat hprep hg hpush
  exact hsafe ⟨hstate, o1, i, f, hpop, hsource, hframe, hfcat, hpred, hsize, hpacks,
    not_lt.1 hlimit⟩

/-! ## How many streams are open -/

/-- The promised stream whose response is being sent. -/
def fulfilled (o : Outbound) : Set Ptr := {x | ∃ i f, o.session.items.aob = some i ∧
  (o.item i).frame = .headers f ∧ f.cat = .pushResponse ∧
    o.session.isMyStreamId (o.item i).streamId = true ∧
    o.session.getStream (o.item i).streamId = some x}

/-- The streams of this side that are open, or about to be. -/
def occupied (o : Outbound) : Set Ptr := o.session.outgoing ∪ o.fulfilled

theorem fulfilled_eq_empty (h : o.session.items.aob = none) : o.fulfilled = ∅ := by
  refine Set.eq_empty_iff_forall_notMem.2 ?_
  rintro x ⟨i, f, hi, -⟩
  cases h.symm.trans hi

/-- What is no more than before if no stream of this side is new, and none but the one whose
response is sent has been a promise. -/
theorem occupied_subset (htab : o.session.Tabled) (htab' : o'.session.Tabled)
    (hserver : o'.session.server = o.session.server)
    (haob : ∀ i, o'.session.items.aob = some i → o.session.items.aob = some i ∧
      Cancels (o.item i) (o'.item i))
    (hentry : ∀ id x, o.session.isMyStreamId id = true → o'.session.getStream id = some x →
      o.session.getStream id = some x ∧
        ((o'.session.info x).push = (o.session.info x).push ∨ x ∈ o.fulfilled)) :
    o'.occupied ⊆ o.occupied := by
  rintro x (hx | ⟨i, f, hi, hf, hcat, hmine, hx⟩)
  · obtain ⟨id, hx, hmine, hpush⟩ := (Session.mem_outgoing htab').1 hx
    rw [isMyStreamId_congr hserver] at hmine
    obtain ⟨hold, hsame | hful⟩ := hentry id x hmine hx
    · exact .inl ((Session.mem_outgoing htab).2 ⟨id, hold, hmine, hsame ▸ hpush⟩)
    · exact .inr hful
  obtain ⟨hi, hc⟩ := haob i hi
  rw [hc.streamId] at hmine hx
  rw [isMyStreamId_congr hserver] at hmine
  refine .inr ⟨i, ?_⟩
  -- cancelling HEADERS leaves their category
  rcases hc with hsame | ⟨g, hg, hsame⟩
  · exact ⟨f, hi, hsame ▸ hf, hcat, hmine, (hentry _ x hmine hx).1⟩
  · rw [hsame] at hf
    cases hf
    exact ⟨g, hi, hg, hcat, hmine, (hentry _ x hmine hx).1⟩

theorem Grows.occupied_subset (h : Grows o o') (htab : o.session.Tabled) (ha : o.Active) :
    o'.occupied ⊆ o.occupied := by
  refine Outbound.occupied_subset htab h.tabled h.server (fun i hi => ?_) fun id x _ hx =>
    ⟨(h.entry hx).1, .inl (h.entry hx).2.proceeds.1⟩
  rw [h.aob] at hi
  exact ⟨hi, h.item i (ha.lt i hi)⟩

theorem cleared_occupied_subset (o : Outbound) : o.cleared.occupied ⊆ o.occupied := by
  refine Set.union_subset_union_right _ ?_
  rw [fulfilled_eq_empty rfl]
  exact Set.empty_subset _

/-- Lawful events fulfil no promise of this side. -/
theorem touches_push {ev : Session.Event} {id : ℕ} {a b : StreamInfo}
    (h : Session.Touches ev id a b) (hlaw : o.Lawful ev)
    (hmine : o.session.isMyStreamId id = true) :
    b.push = a.push := by
  rcases h with rfl | h
  · rfl
  cases ev with
  | setState id' st =>
    rw [h.2]
  | shutdown id' rd wr =>
    rw [h]
  | fulfillPush id' =>
    obtain ⟨rfl, -, -⟩ := h
    cases hmine.symm.trans hlaw
  | _ => exact h.elim

/-- The streams that are open after an item was popped and prepared. -/
theorem Prepares.mem_outgoing (hpop : Popped o o1 i)
    (h : Prepares o1 o2 i (opensStream o1 i)) (htab : o.session.Tabled)
    (hx : x ∈ o2.session.outgoing) : x ∈ o.session.outgoing ∨
      ∃ f, (o1.item i).frame = .headers f ∧ f.cat = .request ∧
        opensStream o1 i = some ((o1.item i).streamId, .initial) ∧
        o2.session.getStream (o1.item i).streamId = some x := by
  obtain ⟨id, hx, hmine, hpush⟩ := (Session.mem_outgoing h.tabled).1 hx
  have hsame : o1.session.info = o.session.info ∧ o1.session.server = o.session.server := by
    rw [hpop.eq]
    exact ⟨rfl, rfl⟩
  rw [isMyStreamId_congr h.server, isMyStreamId_congr hsame.2] at hmine
  rcases h.entry hx with ⟨hget, hinfo⟩ | ⟨st, hopened, hinfo⟩
  · rw [hpop.getStream] at hget
    rw [hsame.1] at hinfo
    exact .inl ((Session.mem_outgoing htab).2 ⟨id, hget, hmine, hinfo.proceeds.1 ▸ hpush⟩)
  right
  rw [hinfo] at hpush
  unfold opensStream at hopened ⊢
  split at hopened
  · next f hframe =>
    split_ifs at hopened with hcond
    cases hopened
    have hcat := hcond
    simp only [Bool.and_eq_true, decide_eq_true_eq] at hcat
    exact ⟨f, hframe, hcat.1.1, if_pos hcond, hx⟩
  · split_ifs at hopened
    cases hopened
    simp [Session.openedInfo] at hpush
  · cases hopened

end Outbound

namespace Recorded

open Outbound

variable {r r' : Recorded} {e : Outbound.Event}

/-- **What a turn adds to the open streams**: at most one stream, and only by packing HEADERS
that open it. -/
theorem Turn.occupied (ht : Turn r e r') (hs : r.out.Sound) (hlaw : LawfulEvent r e)
    (hres : r.step e = .ok r') (hne : e ≠ .session .upgrade) :
    r'.out.occupied ⊆ r.out.occupied ∨ (∃ env, e = .popItem env) ∧ r.out.PacksOpening r'.out ∧
      ∃ x, r'.out.occupied ⊆ insert x r.out.session.outgoing := by
  cases ht with
  | grows hg hw => exact .inl (hg.occupied_subset hs.tabled hs.active)
  | outside ev s he ho hout hw =>
    subst he
    have hstep := (step_eq_ok hres).1
    dsimp only [Outbound.step] at hstep
    split_ifs at hstep with hext
    · refine .inl (occupied_subset hs.tabled (hout ▸ ho.tabled) (by rw [hout]; exact ho.server)
        (fun i hi => ?_) fun id x hmine hx => ?_)
      · rw [hout] at hi ⊢
        exact ⟨(congrArg ItemStore.aob ho.items).symm.trans hi, Cancels.refl _⟩
      · obtain ⟨s', hs', heq⟩ := exists_of_map_eq_ok hstep
        rw [← heq] at hx ⊢
        obtain ⟨hold, htouch⟩ :=
          Session.step_own hs.tabled hext (fun h => hne (congrArg _ h)) hs' hx hmine
        exact ⟨hold, .inl (touches_push htouch hlaw hmine)⟩
    · rw [← Except.ok.inj hstep]
      exact .inl subset_rfl
  | activates o1 o2 i env he hnext hp hready ho hw =>
    obtain ⟨hstate, hpop, hprep, -⟩ := hp
    have hnone := hs.active.aob.1 hstate
    have hout : r'.out.session.outgoing = o2.session.outgoing := by
      rw [ho]
      rfl
    have hitem : ∀ j, r'.out.item j = o2.item j := fun j => by
      rw [ho]
      rfl
    have hget : ∀ id, r'.out.session.getStream id = o2.session.getStream id := fun id => by
      rw [ho]
      rfl
    have haob : r'.out.session.items.aob = some i := by
      rw [ho]
      rfl
    -- a stream that is new among the open ones is found under the id of the frame
    have hnew : ∀ x ∈ r'.out.occupied, x ∈ r.out.session.outgoing ∨
        r.out.PacksOpening r'.out ∧ r'.out.session.getStream (o2.item i).streamId = some x := by
      rintro x (hx | ⟨j, f, hj, hframe, hcat, -, hx⟩)
      · rw [hout] at hx
        rcases hprep.mem_outgoing hpop hs.tabled hx with hx | ⟨f, hframe, hcat, -, hx⟩
        · exact .inl hx
        · rw [hframe] at hready
          simp only [ReadyFor, hcat, if_true] at hready
          refine .inr ⟨⟨hnone, i, f, haob, ?_, .inl hcat⟩, ?_⟩
          · rw [hitem, hready.1, hframe]
          · rw [hget, hprep.self.1, hx]
      · cases haob.symm.trans hj
        refine .inr ⟨⟨hnone, i, f, haob, hframe, .inr hcat⟩, ?_⟩
        rwa [hitem] at hx
    by_cases hopening : r.out.PacksOpening r'.out
    · refine .inr ⟨⟨env, he⟩, hopening,
        (r'.out.session.getStream (o2.item i).streamId).getD root, fun x hx => ?_⟩
      rcases hnew x hx with hx | ⟨-, hx⟩
      · exact .inr hx
      · left
        rw [hx]
        rfl
    · refine .inl fun x hx => .inl ?_
      exact (hnew x hx).resolve_right fun h => hopening h.1
  | drops o1 o2 i hp hgoaway hd hw =>
    obtain ⟨-, hpop, hprep, -⟩ := hp
    have hnone : r'.out.session.items.aob = none := hd.1.aob
    refine .inl (occupied_subset hs.tabled hd.1.tabled ?_ (fun i hi => ?_) fun id x _ hx => ?_)
    · rw [hd.1.server, show o2.cleared.session.server = _ from hprep.server, hpop.eq]
    · cases hnone.symm.trans hi
    · obtain ⟨hmid, hinfo'⟩ := hd.1.entry hx
      rcases hprep.entry hmid with ⟨hold, hinfo⟩ | ⟨st, hopened, -⟩
      · rw [hpop.getStream] at hold
        refine ⟨hold, .inl ?_⟩
        have hpush := (hinfo.trans hinfo').proceeds.1
        rwa [hpop.eq] at hpush
      · cases (hd.2 id st hopened).symm.trans hx
  | sends o1 i hwrites =>
    obtain ⟨haob, hsends, -, ho, -⟩ := hwrites
    have h1 : o1.occupied ⊆ r.out.occupied := by
      refine occupied_subset hs.tabled hsends.tabled hsends.server (fun j hj => ?_)
        fun id x hmine hx => ?_
      · rw [hsends.aob] at hj
        exact ⟨hj, hsends.item j (hs.active.lt j hj)⟩
      obtain ⟨hold, ⟨-, hinfo⟩ | ⟨rfl, -, hpush, -⟩⟩ := hsends.entry hx
      · exact ⟨hold, .inl hinfo.proceeds.1⟩
      refine ⟨hold, ?_⟩
      cases hframe : (r.out.item i).frame with
      | headers f =>
        rw [hframe] at hpush
        cases hcat : f.cat with
        | pushResponse => exact .inr ⟨i, f, haob, hframe, hcat, hmine, hold⟩
        | request | response | headers =>
          simp only [sentOutcome, hcat, headersOutcome] at hpush
          exact .inl hpush
      | _ =>
        rw [hframe] at hpush
        exact .inl hpush
    have hs1 := hsends.toKeeps.sound hs
    left
    rcases ho with ⟨-, ho⟩ | ⟨-, ho⟩
    · rw [ho]
      exact h1
    · exact (ho.occupied_subset hs1.tabled (cleared_sound hs1.tabled hs1.filed).active).trans
        ((cleared_occupied_subset o1).trans h1)
  | clears hg hsent hw =>
    exact .inl ((hg.occupied_subset hs.tabled (cleared_sound hs.tabled hs.filed).active).trans
      (cleared_occupied_subset r.out))

/-- The upgrade from HTTP/1.1 adds one stream. -/
theorem occupied_upgrade (hs : r.out.Sound) (hres : r.step (.session .upgrade) = .ok r') :
    ∃ x, r'.out.occupied ⊆ insert x r.out.occupied := by
  have hstep := (step_eq_ok hres).1
  dsimp only [Outbound.step] at hstep
  rw [if_pos (show external .upgrade = true from rfl)] at hstep
  obtain ⟨s, hs', hout⟩ := exists_of_map_eq_ok hstep
  have ho := Session.upgrade_outside hs.tabled hs'
  refine ⟨(s.getStream 1).getD root, ?_⟩
  have hold : ∀ {id x}, r.out.session.isMyStreamId id = true → s.getStream id = some x →
      (r.out.session.getStream id = some x ∧ s.info x = r.out.session.info x) ∨
        x = (s.getStream 1).getD root := by
    intro id x hmine hx
    rcases Session.upgrade_own hs.tabled hs' hx hmine with hold | rfl
    · exact .inl hold
    · right
      rw [hx]
      rfl
  have hserver : s.server = r.out.session.server := ho.server
  rw [← hout]
  rintro x (hx | ⟨i, f, hi, hframe, hcat, hmine, hx⟩)
  · obtain ⟨id, hx, hmine, hpush⟩ := (Session.mem_outgoing ho.tabled).1 hx
    rw [isMyStreamId_congr hserver] at hmine
    rcases hold hmine hx with ⟨hget, hinfo⟩ | hnew
    · exact .inr (.inl ((Session.mem_outgoing hs.tabled).2 ⟨id, hget, hmine, hinfo ▸ hpush⟩))
    · exact .inl hnew
  · rw [isMyStreamId_congr hserver] at hmine
    rcases hold hmine hx with ⟨hget, -⟩ | hnew
    · exact .inr (.inr ⟨i, f, (congrArg ItemStore.aob ho.items).symm.trans hi, hframe, hcat, hmine,
        hget⟩)
    · exact .inl hnew

/-- The peer has never allowed more than `limit` streams, neither when HEADERS that open a
stream were packed nor at the upgrade from HTTP/1.1, which opens a stream of its own. -/
def Within (limit : ℕ) (r : Recorded) : Outbound.Event → Prop
  | .popItem env => ∀ r', r.step (.popItem env) = .ok r' → r.out.PacksOpening r'.out →
      env.remoteMaxConcurrentStreams ≤ limit
  | .session .upgrade => r.out.occupied.encard < limit
  | _ => True

/-- The events that neither lose streams nor count them twice, and that ask for the limit. -/
def Limited (r : Recorded) (e : Outbound.Event) : Prop :=
  LawfulEvent r e ∧ ¬ r.out.Cutting e ∧ ¬ r.out.Recounting e ∧ ¬ r.out.Bypasses e

theorem Reaches.accounted (h : Reaches Limited r) : r.out.session.Accounted := by
  have hbooks : Reaches (fun r e => LawfulEvent r e ∧ ¬ r.out.Cutting e ∧
      ¬ r.out.Recounting e) r := by
    induction h with
    | new server n p m => exact .new server n p m
    | step _ hc hres ih => exact ih.step ⟨hc.1, hc.2.1, hc.2.2.1⟩ hres
  exact hbooks.books.1.accounted

theorem Reaches.occupied_le {limit : ℕ}
    (h : Reaches (fun r e => Limited r e ∧ Within limit r e) r) :
    Reaches Limited r ∧ r.out.occupied.encard ≤ limit := by
  induction h with
  | new server n p m =>
    refine ⟨.new server n p m, ?_⟩
    have hempty : (Recorded.new server n p m).out.occupied = ∅ := by
      refine Set.eq_empty_iff_forall_notMem.2 ?_
      rintro x (hx | ⟨i, f, hi, -⟩)
      · obtain ⟨id, hx, -⟩ := (Session.mem_outgoing (new_sound server n p m).tabled).1 hx
        exact new_getStream server n p m id x hx
      · cases hi
    rw [hempty, Set.encard_empty]
    exact bot_le
  | @step r r' e hr hC hres ih =>
    obtain ⟨hlimited, hle⟩ := ih
    refine ⟨hlimited.step hC.1 hres, ?_⟩
    have hs := hr.sound
    -- one stream more than fewer than `limit`
    have hone : ∀ {S : Set Ptr}, S.encard < limit → (∃ x, r'.out.occupied ⊆ insert x S) →
        r'.out.occupied.encard ≤ limit := fun hlt ⟨x, hsub⟩ =>
      (Set.encard_le_encard hsub).trans ((Set.encard_insert_le _ x).trans
        (Order.add_one_le_of_lt hlt))
    by_cases hup : e = .session .upgrade
    · subst hup
      exact hone hC.2 (occupied_upgrade hs hres)
    · rcases (turn_of_step hs hres).occupied hs hC.1.1 hres hup with hsub
        | ⟨⟨env, he⟩, hopens, hsub⟩
      · exact (Set.encard_le_encard hsub).trans hle
      · have hhon := (honours_iff hs hlimited.accounted (step_eq_ok hres).1).2 hC.1.2.2.2
        have hwithin := hC.2
        rw [he] at hwithin hres
        exact hone ((hhon env he hopens).trans_le (Nat.cast_le.2 (hwithin r' hres hopens))) hsub

/-- **The peer's limit on concurrent streams.**  In every run of events that lose no stream,
count none twice and ask for the limit: an event packs HEADERS that open a stream below the
limit exactly if it is no push response that bypasses `ob_syn`; and no more streams of this
side are open than the peer has ever allowed, so the limit is exceeded only after the peer has
lowered it. -/
theorem limit_honoured_iff_of_reaches (h : Reaches Limited r) :
    (∀ e r', r.step e = .ok r' → (r.out.Honours e r'.out ↔ ¬ r.out.Bypasses e)) ∧
    ∀ limit : ℕ, Reaches (fun r e => Limited r e ∧ Within limit r e) r →
      r.out.session.outgoing.encard ≤ limit := by
  refine ⟨fun e r' hres => honours_iff h.sound h.accounted (step_eq_ok hres).1, fun limit hr => ?_⟩
  exact (Set.encard_le_encard Set.subset_union_left).trans hr.occupied_le.2

/-- The peer allows two streams. -/
def twoStreamsEnv : Env := { quietEnv with remoteMaxConcurrentStreams := 2 }

/-- The HEADERS that are popped are requests, under this limit. -/
def popsRequests (r : Recorded) : Outbound.Event → Bool
  | .session _ => false
  | .popItem env => env.remoteMaxConcurrentStreams ≤ 2 &&
    match r.out.popNextObItem env with
    | (o1, some i) => headersCat (o1.item i).frame ∈ [none, some .request]
    | _ => true
  | _ => true

theorem limited_of_popsRequests {e : Outbound.Event}
    (h : (r.countsOnce e && r.popsRequests e) = true) : Limited r e ∧ Within 2 r e := by
  rw [Bool.and_eq_true] at h
  obtain ⟨hcount, h⟩ := h
  obtain ⟨hlawful, hcut, hrecount⟩ := counted_of_countsOnce hcount
  cases e with
  | session ev => cases h
  | popItem env =>
    rw [popsRequests, Bool.and_eq_true, decide_eq_true_eq] at h
    refine ⟨⟨hlawful, hcut, hrecount, ?_⟩, fun _ _ _ => h.1⟩
    rintro ⟨-, o1, i, f, hpop, -, hframe, hcat, -⟩
    simp [hpop, hframe, headersCat, hcat] at h
  | _ => exact ⟨⟨hlawful, hcut, hrecount, id⟩, trivial⟩

/-- A client with an open stream packs its second request, which the peer allows. -/
theorem second_request_honoured : ∃ r r', (Recorded.new false 100 100 200).run
      [.submit (.request .default [] false false), .popItem twoStreamsEnv,
        .frameSent1 twoStreamsEnv, .frameSent2, .submit (.request .default [] false false)] =
        .ok r ∧
    r.step (.popItem twoStreamsEnv) = .ok r' ∧ r.out.session.numOutgoingStreams = 1 ∧
    r.out.PacksOpening r'.out ∧ r.out.Honours (.popItem twoStreamsEnv) r'.out ∧
    r.out.session.outgoing.encard ≤ 2 := by
  refine exists_of_eval₂ (·.step (.popItem twoStreamsEnv)) (fun r r' =>
    r.out.session.items.aob = none ∧ r'.out.session.items.aob = some 1 ∧
    headersCat (r'.out.item 1).frame = some .request ∧ r.out.session.numOutgoingStreams = 1)
    (reaches_of_guardedRun (c := fun r e => r.countsOnce e && r.popsRequests e)
      fun _ => limited_of_popsRequests) (by decide +kernel) ?_
  rintro r r' hreach hpop ⟨hnone, haob, hcat, hnum⟩
  obtain ⟨hhonours, hlimit⟩ := limit_honoured_iff_of_reaches hreach.occupied_le.1
  refine ⟨hpop, hnum, packsOpening_of_headersCat hnone haob hcat (.inl rfl),
    (hhonours _ r' hpop).2 ?_, hlimit 2 hreach⟩
  rintro ⟨-, o1, i, f, -, -, -, -, -, -, -, hle⟩
  rw [hnum] at hle
  exact absurd hle (by decide)

/-- The peer allows no stream. -/
def noStreamsEnv : Env := { quietEnv with remoteMaxConcurrentStreams := 0 }

/-- **The limit is exceeded.**  A server promises stream 2 and submits the response on it before
PUSH_PROMISE has been prepared.  The response waits in `ob_reg`, and it is packed although the
peer allows no stream. -/
theorem pushResponse_exceeds_limit : ∃ r r', (Recorded.new true 100 100 200).run
      [.session (.recvHeaders 1 .default), .submit (.pushPromise 1 []),
        .submit (.response 2 [] false), .popItem noStreamsEnv, .frameSent1 noStreamsEnv,
        .frameSent2] = .ok r ∧ r.out.obReg = [1] ∧
    r.step (.popItem noStreamsEnv) = .ok r' ∧ r.out.PacksOpening r'.out ∧
    ¬ r.out.Honours (.popItem noStreamsEnv) r'.out := by
  refine exists_of_eval₂ (·.step (.popItem noStreamsEnv)) (fun r r' => r.out.obReg = [1] ∧
    r.out.session.items.aob = none ∧ r'.out.session.items.aob = some 1 ∧
    headersCat (r'.out.item 1).frame = some .pushResponse) (And.intro trivial)
      (by decide +kernel) ?_
  rintro r r' - hpop ⟨hreg, hnone, haob, hcat⟩
  have hopens := packsOpening_of_headersCat hnone haob hcat (.inr rfl)
  refine ⟨hreg, hpop, hopens, fun hhon => ?_⟩
  exact not_lt_bot (hhon noStreamsEnv rfl hopens)

end Recorded

end Nghttp2
