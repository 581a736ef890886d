/-
# The frames that reach the peer

A run of the sending side with a record of the frames that were written, and what the
parts of a step do to the queues.

* `WireFrame` is what the peer sees of a frame, as far as the order of frames goes;
* `Recorded` is the sending side together with the frames written so far; a frame counts
  as written when its last part has been handed out;
* `Grows o o'` says what submissions and closed streams may do to the sending side: the
  queues grow at their ends by new items, and an old item can only be cancelled.
-/
import Nghttp2.OutboundInv
import Nghttp2.SessionFrame

namespace Nghttp2

open Function (update update_of_ne update_self)

/-! ## Recorded runs -/

/-- A frame on the wire. -/
inductive WireFrame
  | data (id : ℕ) (endStream : Bool)
  | headers (id : ℕ) (request endStream : Bool)
  | pushPromise (id promised : ℕ)
  | rstStream (id : ℕ)
  | goaway (lastStreamId : ℕ)
  | other
deriving DecidableEq, Repr

/-- The frame that the peer sees. -/
def OutboundItem.wire (it : OutboundItem) : WireFrame :=
  match it.frame with
  | .data f => .data it.streamId f.endStream
  | .headers f => .headers it.streamId (f.cat = .request) f.endStream
  | .pushPromise promised _ => .pushPromise it.streamId promised
  | .rstStream => .rstStream it.streamId
  | .goaway lastStreamId _ _ => .goaway lastStreamId
  | _ => .other

/-- `aux_data.headers.canceled`. -/
def OutboundItem.canceled (it : OutboundItem) : Bool :=
  match it.frame with
  | .headers f => f.canceled
  | _ => false

namespace Outbound

/-- The item whose last part an event hands out.  When a frame has been handed out and
`session_after_frame_sent1` runs once more, nothing is left to write. -/
def writes (o : Outbound) : Event → Option ItemPtr
  | .frameSent1 _ => if o.state = .sendData && !o.sent then o.session.items.aob else none
  | .sendNoCopy _ .sent =>
    if o.state = .sendNoCopy then
      o.session.items.aob.filter fun i => (o.session.getStream (o.item i).streamId).isSome
    else none
  | _ => none

end Outbound

/-- The sending side with the items that have been written, and the frames in them. -/
structure Recorded where
  out : Outbound
  written : List (ItemPtr × WireFrame)

namespace Recorded

/-- The frames that have been written. -/
def frames (r : Recorded) : List WireFrame := r.written.map Prod.snd

/-- **One event**, recorded. -/
def step (r : Recorded) (e : Outbound.Event) : Except Fault Recorded :=
  (r.out.step e).map fun o =>
    ⟨o, r.written ++ ((r.out.writes e).map fun i => (i, (r.out.item i).wire)).toList⟩

/-- **A run**, recorded. -/
def run (r : Recorded) (es : List Outbound.Event) : Except Fault Recorded := es.foldlM step r

/-- A new session, which has written nothing. -/
def new (server : Bool) (maxConcurrent pendingMaxConcurrent maxReserved : ℕ) : Recorded :=
  ⟨Outbound.new server maxConcurrent pendingMaxConcurrent maxReserved, []⟩

/-- The states that a new session reaches through events that meet the condition `C` in
the state in which they happen. -/
inductive Reaches (C : Recorded → Outbound.Event → Prop) : Recorded → Prop
  | new (server : Bool) (n p m : ℕ) : Reaches C (new server n p m)
  | step {r r' : Recorded} {e : Outbound.Event} :
      Reaches C r → C r e → r.step e = .ok r' → Reaches C r'

/-- A weaker condition on the events. -/
theorem Reaches.imp {C C' : Recorded → Outbound.Event → Prop} {r : Recorded} (h : Reaches C r)
    (himp : ∀ {r e}, C r e → C' r e) : Reaches C' r := by
  induction h with
  | new => exact .new ..
  | step _ hc hres ih => exact ih.step (himp hc) hres

/-- What a run reaches whose events pass a check for the condition `C`. -/
theorem reaches_of_guardedRun {C : Recorded → Outbound.Event → Prop}
    {c : Recorded → Outbound.Event → Bool} {server : Bool} {n p m : ℕ}
    {es : List Outbound.Event} {r : Recorded}
    (hcheck : ∀ {r e}, e ∈ es → c r e = true → C r e)
    (hrun : guardedRun step c (Recorded.new server n p m) es = .ok r) :
    Reaches C r ∧ (Recorded.new server n p m).run es = .ok r :=
  guardedRun_rule (fun hmem hs he hstep => hs.step (hcheck hmem he) hstep) (.new server n p m) hrun

/-- What an event writes. -/
theorem step_eq_ok {r r' : Recorded} {e : Outbound.Event} (h : r.step e = .ok r') :
    r.out.step e = .ok r'.out ∧ r'.written =
      r.written ++ ((r.out.writes e).map fun i => (i, (r.out.item i).wire)).toList := by
  obtain ⟨o, hstep, rfl⟩ := exists_of_map_eq_ok h
  exact ⟨hstep, rfl⟩

/-- The rule of invariants: what holds of a new session and is kept by every event that
meets the condition holds of every state that is reached. -/
theorem Reaches.induct {C : Recorded → Outbound.Event → Prop} {P : Recorded → Prop}
    (hnew : ∀ server n p m, P (Recorded.new server n p m))
    (hstep : ∀ r r' e, Reaches C r → P r → C r e → r.step e = .ok r' → P r') {r : Recorded}
    (h : Reaches C r) : P r := by
  induction h with
  | new server n p m => exact hnew server n p m
  | step hr hC hres ih => exact hstep _ _ _ hr ih hC hres

end Recorded

/-! ## Growing queues -/

namespace Outbound

/-- The item is as it was, or it has been cancelled. -/
def Cancels (it it' : OutboundItem) : Prop :=
  it' = it ∨ ∃ f, it.frame = .headers f ∧
    it' = { it with frame := .headers { f with canceled := true } }

/-- Nothing was cancelled. -/
theorem Cancels.refl (it : OutboundItem) : Cancels it it := .inl rfl

variable {a b c it it' : OutboundItem} {n n' n1 n2 : ℕ}

/-- Canceled in one of two changes. -/
theorem Cancels.trans (h : Cancels a b) (h' : Cancels b c) : Cancels a c := by
  rcases h with rfl | ⟨f, hf, rfl⟩
  · exact h'
  · rcases h' with rfl | ⟨g, hg, rfl⟩
    · exact .inr ⟨f, hf, rfl⟩
    · cases hg
      exact .inr ⟨f, hf, rfl⟩

/-- A cancelled item is the same on the wire. -/
theorem Cancels.wire (h : Cancels it it') : it'.wire = it.wire := by
  rcases h with rfl | ⟨f, hf, rfl⟩
  · rfl
  · simp [OutboundItem.wire, hf]

/-- A cancelled item keeps its stream. -/
theorem Cancels.streamId (h : Cancels it it') : it'.streamId = it.streamId := by
  rcases h with rfl | ⟨f, hf, rfl⟩
  · rfl
  · rfl

/-- What was cancelled stays so. -/
theorem Cancels.canceled (h : Cancels it it') (hc : it.canceled = true) : it'.canceled = true := by
  rcases h with rfl | ⟨f, hf, rfl⟩
  · exact hc
  · rfl

/-- The list grows at its end by items from `n` on. -/
def Appends (n n' : ℕ) (l l' : List ItemPtr) : Prop :=
  ∃ new, l' = l ++ new ∧ ∀ i ∈ new, n ≤ i ∧ i < n'

/-- Nothing is appended. -/
theorem Appends.refl (n n' : ℕ) (l : List ItemPtr) : Appends n n' l l := ⟨[], by simp, by simp⟩

/-- Later items may have been allocated. -/
theorem Appends.mono {n'' : ℕ} {l l' : List ItemPtr} (h : Appends n n' l l') (hn : n' ≤ n'') :
    Appends n n'' l l' := by
  obtain ⟨new, rfl, hnew⟩ := h
  exact ⟨new, rfl, fun i hi => ⟨(hnew i hi).1, (hnew i hi).2.trans_le hn⟩⟩

/-- New items are appended twice. -/
theorem Appends.trans {l l1 l2 : List ItemPtr} (hn : n ≤ n1) (hn' : n1 ≤ n2) (h : Appends n n1 l l1)
    (h' : Appends n1 n2 l1 l2) : Appends n n2 l l2 := by
  obtain ⟨a, rfl, ha⟩ := h
  obtain ⟨b, rfl, hb⟩ := h'
  refine ⟨a ++ b, by simp, fun i hi => ?_⟩
  rcases List.mem_append.1 hi with hi | hi
  · exact ⟨(ha i hi).1, (ha i hi).2.trans_le hn'⟩
  · exact ⟨hn.trans (hb i hi).1, (hb i hi).2⟩

/-- Items in a queue have been allocated. -/
theorem Appends.lt {l l' : List ℕ} (h : Appends n n' l l') (hn : n ≤ n')
    (hl : ∀ i ∈ l, i < n) : ∀ i ∈ l', i < n' := by
  obtain ⟨new, rfl, hnew⟩ := h
  intro i hi
  rcases List.mem_append.1 hi with hi | hi
  · exact (hl i hi).trans_le hn
  · exact (hnew i hi).2

/-- Stream ids from `n` on are taken, each of them once. -/
def Takes (n n' : ℕ) (l l' : List ℕ) : Prop :=
  n ≤ n' ∧ Appends n n' l l' ∧ (l.Nodup → (∀ id ∈ l, id < n) → l'.Nodup)

/-- No id is taken. -/
theorem Takes.refl (n : ℕ) (l : List ℕ) : Takes n n l l :=
  ⟨le_rfl, Appends.refl .., fun h _ => h⟩

/-- Ids are taken twice. -/
theorem Takes.trans {l l1 l2 : List ℕ} (h : Takes n n1 l l1)
    (h' : Takes n1 n2 l1 l2) : Takes n n2 l l2 :=
  ⟨h.1.trans h'.1, h.2.1.trans h.1 h'.1 h'.2.1, fun hnd hlt =>
    h'.2.2 (h.2.2 hnd hlt) (h.2.1.lt h.1 hlt)⟩

/-- The two items hold frames of one kind on one stream. -/
def Alike (it it' : OutboundItem) : Prop := it'.streamId = it.streamId ∧ it'.kind = it.kind

/-- The item itself. -/
theorem Alike.refl (it : OutboundItem) : Alike it it := ⟨rfl, rfl⟩

/-- Likeness is transitive. -/
theorem Alike.trans (h : Alike a b) (h' : Alike b c) : Alike a c :=
  ⟨h'.1.trans h.1, h'.2.trans h.2⟩

/-- Like items open the same stream. -/
theorem Alike.opens (h : Alike it it') : it'.opens = it.opens := by
  unfold OutboundItem.opens
  rw [h.1, h.2]

/-- A cancelled item is like the one before. -/
theorem Cancels.alike (h : Cancels it it') : Alike it it' := by
  rcases h with rfl | ⟨f, hf, rfl⟩
  · exact Alike.refl it'
  · exact ⟨rfl, by simp [OutboundItem.kind, hf]⟩

/-- Every item is where `nghttp2_session_add_item` puts frames of its kind, and the requests
and promises that wait have stream ids of their own that have not been used. -/
structure Filed (o : Outbound) : Prop where
  urgent : ∀ i ∈ o.obUrgent, i < o.allocated ∧
    ((o.item i).kind = .settings ∨ (o.item i).kind = .ping)
  reg : ∀ i ∈ o.obReg, i < o.allocated ∧ (o.item i).kind ≠ .headers true ∧
    (o.item i).kind ≠ .data
  syn : ∀ i ∈ o.obSyn, i < o.allocated ∧ ∃ b, (o.item i).kind = .headers b
  tree : ∀ x i, o.session.tree.sched.item x = some i → root < x ∧
    i < o.allocated ∧ ((o.item i).kind = .data ∨ (o.item i).kind = .headers false)
  nodup : (o.obReg ++ o.obSyn).Nodup
  asks : ∀ i ∈ o.obReg ++ o.obSyn, ∀ id, (o.item i).opens = some id → id ∈ o.session.unsent
  distinct : ∀ i ∈ o.obReg ++ o.obSyn, ∀ j ∈ o.obReg ++ o.obSyn, ∀ id,
    (o.item i).opens = some id → (o.item j).opens = some id → i = j
  sorted : o.obSyn.Pairwise fun i j => ∀ a b, (o.item i).opens = some a →
    (o.item j).opens = some b → a < b
  unsent_lt : ∀ id ∈ o.session.unsent, id < o.session.nextStreamId
  unsent_nodup : o.session.unsent.Nodup
  unsent_mine : ∀ id ∈ o.session.unsent, o.session.isMyStreamId id = true
  next_mine : o.session.isMyStreamId o.session.nextStreamId = true

/-- Items in a queue have been allocated. -/
theorem Filed.lt {o : Outbound} (h : o.Filed) {i : ItemPtr} (hi : i ∈ o.obReg ++ o.obSyn) :
    i < o.allocated := by
  rcases List.mem_append.1 hi with hi | hi
  · exact (h.reg i hi).1
  · exact (h.syn i hi).1

/-- Whether the items are filed depends on the queues, the kinds of the items, the ids and
what streams carry. -/
theorem Filed.of_alike {o o' : Outbound} (h : o.Filed) (halloc : o.allocated ≤ o'.allocated)
    (hitem : ∀ i < o.allocated, Alike (o.item i) (o'.item i)) (hurgent : o'.obUrgent = o.obUrgent)
    (hreg : o'.obReg = o.obReg) (hsyn : o'.obSyn = o.obSyn)
    (hserver : o'.session.server = o.session.server)
    (hnext : o'.session.nextStreamId = o.session.nextStreamId)
    (hunsent : o'.session.unsent = o.session.unsent)
    (hcar : ∀ x i, o'.session.tree.sched.item x = some i → o.session.tree.sched.item x = some i) :
    o'.Filed := by
  have hmine : ∀ id, o'.session.isMyStreamId id = o.session.isMyStreamId id := fun id => by
    rw [Session.isMyStreamId, Session.isMyStreamId, hserver]
  constructor
  case urgent =>
    intro i hi
    obtain ⟨hlt, hkind⟩ := h.urgent i (hurgent ▸ hi)
    exact ⟨hlt.trans_le halloc, (hitem i hlt).2 ▸ hkind⟩
  case reg =>
    intro i hi
    obtain ⟨hlt, hkind⟩ := h.reg i (hreg ▸ hi)
    exact ⟨hlt.trans_le halloc, (hitem i hlt).2 ▸ hkind⟩
  case syn =>
    intro i hi
    obtain ⟨hlt, hkind⟩ := h.syn i (hsyn ▸ hi)
    exact ⟨hlt.trans_le halloc, (hitem i hlt).2 ▸ hkind⟩
  case tree =>
    intro x i hi
    obtain ⟨hroot, hlt, hkind⟩ := h.tree x i (hcar x i hi)
    exact ⟨hroot, hlt.trans_le halloc, (hitem i hlt).2 ▸ hkind⟩
  case nodup =>
    rw [hreg, hsyn]
    exact h.nodup
  case asks =>
    rw [hreg, hsyn, hunsent]
    intro i hi id hid
    exact h.asks i hi id ((hitem i (h.lt hi)).opens ▸ hid)
  case distinct =>
    rw [hreg, hsyn]
    intro i hi j hj id hid hid'
    exact h.distinct i hi j hj id ((hitem i (h.lt hi)).opens ▸ hid)
      ((hitem j (h.lt hj)).opens ▸ hid')
  case sorted =>
    rw [hsyn]
    refine h.sorted.imp_of_mem fun {i j} hi hj hij a b ha hb => hij a b ?_ ?_
    · rwa [(hitem i (h.syn i hi).1).opens] at ha
    · rwa [(hitem j (h.syn j hj).1).opens] at hb
  case unsent_lt =>
    rw [hunsent, hnext]
    exact h.unsent_lt
  case unsent_nodup =>
    rw [hunsent]
    exact h.unsent_nodup
  case unsent_mine =>
    rw [hunsent]
    exact fun id hid => (hmine id).trans (h.unsent_mine id hid)
  case next_mine =>
    rw [hnext]
    exact (hmine _).trans h.next_mine

/-- The session fields of a stream stay, but for its state, which may become CLOSING. -/
def MayClose (a b : StreamInfo) : Prop := b = a ∨ b = { a with state := .closing }

/-- The stream is not touched. -/
theorem MayClose.refl (a : StreamInfo) : MayClose a a := .inl rfl

/-- Two changes, one after the other. -/
theorem MayClose.trans {a b c : StreamInfo} (h : MayClose a b) (h' : MayClose b c) :
    MayClose a c := by
  rcases h' with rfl | rfl
  · exact h
  · rcases h with rfl | rfl
    · exact .inr rfl
    · exact .inr rfl

/-- Requests and promises that are new have new stream ids. -/
def Numbered (o o' : Outbound) : Prop :=
  ∀ i, o.allocated ≤ i → i < o'.allocated → ∀ id, (o'.item i).opens = some id →
    o.session.nextStreamId ≤ id

/-- No item is new. -/
theorem Numbered.of_allocated {o o' : Outbound} (h : o'.allocated = o.allocated) : Numbered o o' :=
  fun _ hi hi' => absurd hi' (not_lt.2 (h.le.trans hi))

/-- What everything but popping an item does to the queues: they grow at their ends by new
items. -/
structure Lengthens (o o' : Outbound) : Prop where
  allocated : o.allocated ≤ o'.allocated
  urgent : Appends o.allocated o'.allocated o.obUrgent o'.obUrgent
  reg : Appends o.allocated o'.allocated o.obReg o'.obReg
  syn : Appends o.allocated o'.allocated o.obSyn o'.obSyn
  aob : o'.session.items.aob = o.session.items.aob
  state : o'.state = o.state
  sent : o'.sent = o.sent
  numbered : Numbered o o'
  server : o'.session.server = o.session.server
  lastRecvStreamId : o'.session.lastRecvStreamId = o.session.lastRecvStreamId
  tabled : o'.session.Tabled

/-- Old items can only be cancelled. -/
structure Keeps (o o' : Outbound) : Prop extends Lengthens o o' where
  item : ∀ i < o.allocated, Cancels (o.item i) (o'.item i)
  localLastStreamId : o'.localLastStreamId = o.localLastStreamId
  takes : Takes o.session.nextStreamId o'.session.nextStreamId o.session.unsent o'.session.unsent
  filed : o.Filed → o'.Filed

/-- What submissions and the closing of streams may do: no stream is opened, and those that
remain may enter the state CLOSING. -/
structure Grows (o o' : Outbound) : Prop extends Keeps o o' where
  entry : ∀ ⦃id x⦄, o'.session.getStream id = some x → o.session.getStream id = some x ∧
    MayClose (o.session.info x) (o'.session.info x)

variable {o o' o1 o2 : Outbound} {env : Env}

/-- The queues stay as they are. -/
theorem Lengthens.of_same (htab : o'.session.Tabled) (halloc : o'.allocated = o.allocated)
    (hu : o'.obUrgent = o.obUrgent) (hr : o'.obReg = o.obReg) (hs : o'.obSyn = o.obSyn)
    (haob : o'.session.items.aob = o.session.items.aob) (hstate : o'.state = o.state)
    (hsent : o'.sent = o.sent) (hserver : o'.session.server = o.session.server)
    (hlast : o'.session.lastRecvStreamId = o.session.lastRecvStreamId) : Lengthens o o' := by
  refine ⟨halloc.ge, ?_, ?_, ?_, haob, hstate, hsent, .of_allocated halloc, hserver, hlast, htab⟩
  · rw [hu]
    exact Appends.refl ..
  · rw [hr]
    exact Appends.refl ..
  · rw [hs]
    exact Appends.refl ..

/-- Nothing happens. -/
theorem Grows.refl (h : o.session.Tabled) : Grows o o where
  toLengthens := .of_same h rfl rfl rfl rfl rfl rfl rfl rfl rfl
  item _ _ := Cancels.refl _
  localLastStreamId := rfl
  takes := Takes.refl ..
  filed := id
  entry _ _ hx := ⟨hx, .inl rfl⟩

/-- The queues grow twice. -/
theorem Lengthens.trans (h : Lengthens o o1) (h' : Lengthens o1 o2)
    (hitem : ∀ i < o1.allocated, Cancels (o1.item i) (o2.item i))
    (hnext : o.session.nextStreamId ≤ o1.session.nextStreamId) : Lengthens o o2 where
  allocated := h.allocated.trans h'.allocated
  urgent := h.urgent.trans h.allocated h'.allocated h'.urgent
  reg := h.reg.trans h.allocated h'.allocated h'.reg
  syn := h.syn.trans h.allocated h'.allocated h'.syn
  aob := h'.aob.trans h.aob
  state := h'.state.trans h.state
  sent := h'.sent.trans h.sent
  numbered i hi hi' id hid := by
    by_cases hlt : i < o1.allocated
    · rw [(hitem i hlt).alike.opens] at hid
      exact h.numbered i hi hlt id hid
    · exact hnext.trans (h'.numbered i (not_lt.1 hlt) hi' id hid)
  server := h'.server.trans h.server
  lastRecvStreamId := h'.lastRecvStreamId.trans h.lastRecvStreamId
  tabled := h'.tabled

/-- Two steps, one after the other. -/
theorem Keeps.trans (h : Keeps o o1) (h' : Keeps o1 o2) : Keeps o o2 where
  toLengthens := h.toLengthens.trans h'.toLengthens h'.item h.takes.1
  item i hi := (h.item i hi).trans (h'.item i (hi.trans_le h.allocated))
  localLastStreamId := h'.localLastStreamId.trans h.localLastStreamId
  takes := h.takes.trans h'.takes
  filed hf := h'.filed (h.filed hf)

/-- Two steps, one after the other. -/
theorem Grows.trans (h : Grows o o1) (h' : Grows o1 o2) : Grows o o2 where
  toKeeps := h.toKeeps.trans h'.toKeeps
  entry id x hx := by
    obtain ⟨h1, hinfo'⟩ := h'.entry hx
    obtain ⟨h0, hinfo⟩ := h.entry h1
    exact ⟨h0, hinfo.trans hinfo'⟩

/-! ## Submitting -/

section Submitting

variable {id : ℕ} {i : ItemPtr}

/-- The table of streams changes, but the streams that can be found keep their fields. -/
theorem Grows.of_sameFrame {s : Session} (h : Session.SameFrame o.session s) (htab : s.Tabled)
    (hentry : ∀ ⦃id x⦄, s.getStream id = some x →
      o.session.getStream id = some x ∧ s.info x = o.session.info x) :
    Grows o { o with session := s } where
  toLengthens := .of_same htab rfl rfl rfl rfl (congrArg ItemStore.aob h.items) rfl rfl h.server
    h.lastRecvStreamId
  item _ _ := Cancels.refl _
  localLastStreamId := rfl
  takes := by
    rw [h.nextStreamId, h.unsent]
    exact Takes.refl ..
  filed hf := hf.of_alike le_rfl (fun _ _ => Alike.refl _) rfl rfl rfl
    h.server h.nextStreamId h.unsent h.carried
  entry id x hx := ⟨(hentry hx).1, .inl (hentry hx).2⟩

/-- Streams, their ids and the queues stay; the tree and the flags of items and of GOAWAYs
change. -/
theorem Grows.of_eq (h : o.session.Tabled) (ho' : o' = { o with
      session := { o.session with
        tree := o'.session.tree, items := o'.session.items, goawaySent := o'.session.goawaySent }
      termOnSend := o'.termOnSend, termSent := o'.termSent, goawayRecv := o'.goawayRecv })
    (halloc : o'.session.tree.allocated = o.session.tree.allocated)
    (haob : o'.session.items.aob = o.session.items.aob)
    (hfiled : o.Filed → o'.Filed) : Grows o o' := by
  have hinfo : o'.session.info = o.session.info := by rw [ho']
  have hstreams : o'.session.streams = o.session.streams := by rw [ho']
  refine ⟨⟨.of_same (h.of_streams hstreams halloc) (by rw [ho']) (by rw [ho']) (by rw [ho'])
    (by rw [ho']) haob (by rw [ho']) (by rw [ho']) (by rw [ho']) (by rw [ho']),
    fun i _ => by rw [ho']; exact Cancels.refl _, by rw [ho'], by rw [ho']; exact Takes.refl ..,
    hfiled⟩, fun id x hx => ?_⟩
  rw [Session.getStream_congr hinfo hstreams] at hx
  exact ⟨hx, .inl (by rw [hinfo])⟩

/-- An item is freed. -/
theorem freeItem_grows (h : o.session.Tabled) (i : ItemPtr) : Grows o (o.freeItem i) :=
  Grows.of_eq h rfl rfl rfl fun hf => { hf with }

/-- Detaching an item allocates no stream. -/
theorem streamDetachItem_allocated (t : StreamTree) (x : Ptr) :
    (streamDetachItem t x).allocated = t.allocated := by
  unfold streamDetachItem streamUpdateDepOnDetachItem
  dsimp only
  split_ifs
  · rfl
  · rfl

/-- Detaching an item attaches no other. -/
theorem streamDetachItem_carried (t : StreamTree) (x : Ptr) :
    ∀ y i, (streamDetachItem t x).sched.item y = some i → t.sched.item y = some i := by
  intro y i hi
  rw [(streamDetachItem_item t x).1] at hi
  by_cases hyx : y = x
  · rw [hyx, update_self] at hi
    cases hi
  · rwa [update_of_ne hyx] at hi

/-- A stream loses its item. -/
theorem detachItem_grows (h : o.session.Tabled) (x : Ptr) : Grows o (o.detachItem x) :=
  Grows.of_eq h rfl (streamDetachItem_allocated ..) rfl fun hf =>
    hf.of_alike le_rfl (fun _ _ => Alike.refl _) rfl rfl rfl rfl rfl rfl
      (streamDetachItem_carried o.session.tree x)

/-- An item is allocated. -/
theorem Grows.alloc (h : Grows o o1) (it : OutboundItem)
    (hnew : ∀ id, it.opens = some id → o.session.nextStreamId ≤ id) :
    Grows o { o1 with item := update o1.item o1.allocated it, allocated := o1.allocated + 1 } := by
  set item := update o1.item o1.allocated it with hitem
  have hself : item o1.allocated = it := update_self ..
  have hold : ∀ {i}, i < o1.allocated → item i = o1.item i := fun hi =>
    update_of_ne (Nat.ne_of_lt hi) ..
  -- an item below the new bound is the new one, or an old one
  have hcases : ∀ {i}, i < o1.allocated + 1 → i = o1.allocated ∨ i < o1.allocated := fun hi =>
    (Nat.lt_succ_iff_lt_or_eq.1 hi).symm
  refine { h with
    allocated := h.allocated.trans (Nat.le_succ _)
    urgent := h.urgent.mono (Nat.le_succ _)
    reg := h.reg.mono (Nat.le_succ _)
    syn := h.syn.mono (Nat.le_succ _)
    numbered := fun i hi hi' id hid => ?_
    item := fun i hi => ?_
    filed := fun hf => ?_ }
  · change (item i).opens = _ at hid
    rcases hcases hi' with rfl | hlt
    · rw [hself] at hid
      exact hnew id hid
    · rw [hold hlt] at hid
      exact h.numbered i hi hlt id hid
  · show Cancels (o.item i) (item i)
    rw [hold (hi.trans_le h.allocated)]
    exact h.item i hi
  · refine (h.filed hf).of_alike (Nat.le_succ _) (fun j hj => ?_) rfl rfl rfl rfl rfl rfl
      fun _ _ h => h
    show Alike (o1.item j) (item j)
    rw [hold hj]
    exact Alike.refl _

/-- The item is new to the queues, and the stream id it opens has been taken for it. -/
def Fresh (o : Outbound) (i : ItemPtr) : Prop :=
  i ∉ o.obReg ++ o.obSyn ∧ ∀ id, (o.item i).opens = some id →
    id ∈ o.session.unsent ∧ ∀ j ∈ o.obReg ++ o.obSyn, ∀ a, (o.item j).opens = some a → a < id

/-- The queues after an item was pushed. -/
theorem Filed.push (h : o.Filed) {q : Queue} (hi : i < o.allocated) (hfit : Fits o i q)
    (hfresh : Fresh o i) : (o.push q i).Filed := by
  have h1 : (o.setQueued i true).Filed := { h with }
  obtain ⟨hnot, hid⟩ := hfresh
  -- all waiting items, when `i` has joined them
  have hjoin : ∀ l : List ItemPtr, l.Perm (i :: (o.obReg ++ o.obSyn)) → l.Nodup ∧
      (∀ j ∈ l, ∀ id, (o.item j).opens = some id → id ∈ o.session.unsent) ∧
      ∀ j ∈ l, ∀ k ∈ l, ∀ id, (o.item j).opens = some id → (o.item k).opens = some id → j = k := by
    intro l hl
    have hmem : ∀ {j}, j ∈ l → j = i ∨ j ∈ o.obReg ++ o.obSyn := fun hj =>
      List.mem_cons.1 (hl.mem_iff.1 hj)
    refine ⟨hl.nodup_iff.2 (List.nodup_cons.2 ⟨hnot, h.nodup⟩), fun j hj id hj' => ?_,
      fun j hj k hk id hj' hk' => ?_⟩
    · rcases hmem hj with rfl | hj
      · exact (hid id hj').1
      · exact h.asks j hj id hj'
    · rcases hmem hj with rfl | hj
      · rcases hmem hk with rfl | hk
        · rfl
        · exact absurd ((hid id hj').2 k hk id hk') (lt_irrefl _)
      · rcases hmem hk with rfl | hk
        · exact absurd ((hid id hk').2 j hj id hj') (lt_irrefl _)
        · exact h.distinct j hj k hk id hj' hk'
  cases q with
  | urgent =>
    refine { h1 with urgent := fun j hj => ?_ }
    rcases List.mem_append.1 hj with hj | hj
    · exact h.urgent j hj
    · rw [List.mem_singleton.1 hj]
      exact ⟨hi, hfit⟩
  | reg =>
    have hperm : (o.obReg ++ [i] ++ o.obSyn).Perm (i :: (o.obReg ++ o.obSyn)) := by
      rw [List.append_assoc]
      exact List.perm_middle
    obtain ⟨hnodup, hasks, hdistinct⟩ := hjoin _ hperm
    refine { h1 with nodup := hnodup, asks := hasks, distinct := hdistinct, reg := fun j hj => ?_ }
    rcases List.mem_append.1 hj with hj | hj
    · exact h.reg j hj
    · rw [List.mem_singleton.1 hj]
      exact ⟨hi, hfit⟩
  | syn =>
    have hperm : (o.obReg ++ (o.obSyn ++ [i])).Perm (i :: (o.obReg ++ o.obSyn)) := by
      rw [← List.append_assoc]
      exact List.perm_append_singleton i _
    obtain ⟨hnodup, hasks, hdistinct⟩ := hjoin _ hperm
    have hsorted : (o.obSyn ++ [i]).Pairwise fun j k => ∀ a b, (o.item j).opens = some a →
        (o.item k).opens = some b → a < b := by
      refine List.pairwise_append.2 ⟨h.sorted, List.pairwise_singleton .., ?_⟩
      intro j hj k hk a b ha hb
      rw [List.mem_singleton.1 hk] at hb
      exact (hid b hb).2 j (List.mem_append_right _ hj) a ha
    refine { h1 with
      nodup := hnodup, asks := hasks, distinct := hdistinct, sorted := hsorted
      syn := fun j hj => ?_ }
    rcases List.mem_append.1 hj with hj | hj
    · exact h.syn j hj
    · rw [List.mem_singleton.1 hj]
      exact ⟨hi, hfit⟩

/-- A new item is pushed. -/
theorem Grows.push (h : Grows o o1) (q : Queue) (hi : o.allocated ≤ i) (hi' : i < o1.allocated)
    (hfit : Fits o1 i q) (hfresh : o.Filed → Fresh o1 i) : Grows o (o1.push q i) := by
  have hflag : Grows o (o1.setQueued i true) :=
    h.trans (Grows.of_eq h.tabled rfl rfl rfl fun hf => { hf with })
  have hfiled : o.Filed → (o1.push q i).Filed := fun hf =>
    (h.filed hf).push hi' hfit (hfresh hf)
  have happ : ∀ {l l'}, Appends o.allocated o1.allocated l l' →
      Appends o.allocated o1.allocated l (l' ++ [i]) := by
    rintro l l' ⟨new, rfl, hnew⟩
    refine ⟨new ++ [i], by simp, fun j hj => ?_⟩
    rcases List.mem_append.1 hj with hj | hj
    · exact hnew j hj
    · rw [List.mem_singleton.1 hj]
      exact ⟨hi, hi'⟩
  cases q with
  | urgent => exact { hflag with urgent := happ hflag.urgent, filed := hfiled }
  | reg => exact { hflag with reg := happ hflag.reg, filed := hfiled }
  | syn => exact { hflag with syn := happ hflag.syn, filed := hfiled }

/-- Attaching an item allocates no stream. -/
theorem streamAttachItem_allocated (t : StreamTree) (x : Ptr) (i : ItemPtr) :
    (streamAttachItem t x i).allocated = t.allocated := rfl

/-- A new item is attached to a stream. -/
theorem Grows.attach {x : Ptr} (h : Grows o o1) (hx : o1.session.getStream id = some x)
    (hi : i < o1.allocated)
    (hfit : (o1.item i).kind = .data ∨ (o1.item i).kind = .headers false)
    (hres : o1.attach x i = .ok o') : Grows o o' := by
  unfold Outbound.attach at hres
  split_ifs at hres
  cases hres
  refine h.trans (Grows.of_eq h.tabled rfl (streamAttachItem_allocated ..) rfl fun hf => ?_)
  refine { hf with tree := fun y j hj => ?_ }
  rw [(streamAttachItem_item o1.session.tree x i).1] at hj
  by_cases hyx : y = x
  · rw [hyx, update_self] at hj
    cases hj
    have hroot := h.tabled.ne_root (Session.getStream_eq_some_iff.1 hx).1
    exact ⟨hyx ▸ hroot, hi, hfit⟩
  · rw [update_of_ne hyx] at hj
    exact hf.tree y j hj

/-- An open stream enters the state CLOSING. -/
theorem closing_grows {x : Ptr} (h : o.session.Tabled) (hx : o.session.getStream id = some x) :
    Grows o { o with
      session := o.session.modifyInfo x fun info => { info with state := .closing } } := by
  refine { Grows.refl h with
    filed := fun hf => { hf with }, tabled := h, entry := fun id' y hy => ?_ }
  have hlive := (Session.getStream_eq_some_iff.1 hx).2
  by_cases hyx : y = x
  · subst hyx
    have hinfo : (o.session.modifyInfo y fun info => { info with state := .closing }).info y =
        { o.session.info y with state := .closing } := update_self _ _ _
    have hraw : o.session.getStreamRaw id' = some y := (Session.getStream_eq_some_iff.1 hy).1
    exact ⟨Session.getStream_eq_some_iff.2 ⟨hraw, hlive⟩, .inr hinfo⟩
  · have hinfo : (o.session.modifyInfo x fun info => { info with state := .closing }).info y =
        o.session.info y := update_of_ne hyx _ _
    rw [Session.getStream_eq_some_iff] at hy
    rw [hinfo] at hy
    exact ⟨Session.getStream_eq_some_iff.2 hy, .inl hinfo⟩

/-- **`nghttp2_session_add_item`** with an item that is new. -/
theorem Grows.addItem (h : Grows o o1) (hi : o.allocated ≤ i) (hi' : i < o1.allocated)
    (hfresh : o.Filed → Fresh o1 i) (hres : o1.addItem i = .ok o') : Grows o o' := by
  cases placed_of_addItem hres with
  | queue hfit => exact h.push _ hi hi' hfit hfresh
  | stream hget hframe hres => exact h.attach hget hi' (kind_of_attachable hframe) hres
  | closing hget hkind =>
    have hfit : Fits o1 i .reg := by simp [Fits, hkind]
    exact (h.trans (closing_grows h.tabled hget)).push _ hi hi' hfit hfresh

/-- **A frame is submitted.**  The stream id it opens has been taken for it. -/
theorem Grows.submitItem (h : Grows o o1) (streamId : ℕ) (frame : Frame)
    (hnew : ∀ id, OutboundItem.opens ⟨streamId, frame⟩ = some id → o.session.nextStreamId ≤ id)
    (hask : o.Filed → ∀ id, OutboundItem.opens ⟨streamId, frame⟩ = some id →
      id ∈ o1.session.unsent ∧
        ∀ j ∈ o1.obReg ++ o1.obSyn, ∀ a, (o1.item j).opens = some a → a < id) :
    Grows o (o1.submitItem streamId frame) := by
  have halloc := h.alloc ⟨streamId, frame⟩ hnew
  unfold Outbound.submitItem
  dsimp only
  split
  · next o' hres =>
    refine halloc.addItem h.allocated (Nat.lt_succ_self _) (fun hf => ?_) hres
    have hlt : ∀ {j}, j ∈ o1.obReg ++ o1.obSyn → j < o1.allocated := fun hj => (h.filed hf).lt hj
    refine ⟨fun hmem => lt_irrefl _ (hlt hmem), fun id hid => ?_⟩
    dsimp only at hid ⊢
    rw [update_self] at hid
    obtain ⟨hmem, hne⟩ := hask hf id hid
    refine ⟨hmem, fun j hj => ?_⟩
    rw [update_of_ne (Nat.ne_of_lt (hlt hj))]
    exact hne j hj
  · exact halloc.trans (freeItem_grows halloc.tabled _)

/-- An item that opens no stream is submitted. -/
theorem submitItem_grows (h : o.session.Tabled) (streamId : ℕ) (frame : Frame)
    (hframe : OutboundItem.opens ⟨streamId, frame⟩ = none) :
    Grows o (o.submitItem streamId frame) :=
  (Grows.refl h).submitItem streamId frame (fun _ hid => nomatch hframe.symm.trans hid)
    fun _ _ hid => nomatch hframe.symm.trans hid

/-- A request in `ob_syn` is cancelled. -/
theorem cancel_grows {f : HeadersFrame} (h : o.session.Tabled)
    (hf : (o.item i).frame = .headers f) :
    Grows o (o.modifyFrame i (.headers { f with canceled := true })) := by
  have hitem : ∀ j, Cancels (o.item j)
      ((o.modifyFrame i (.headers { f with canceled := true })).item j) := fun j => by
    by_cases hji : j = i
    · subst hji
      exact .inr ⟨f, hf, update_self _ _ _⟩
    · exact .inl (update_of_ne hji _ _)
  exact { Grows.refl h with
    item := fun j _ => hitem j
    numbered := .of_allocated rfl
    filed := fun hf => hf.of_alike le_rfl (fun j _ => (hitem j).alike) rfl rfl rfl rfl rfl rfl
      fun _ _ h => h }

section

variable (h : o.session.Tabled)
include h

/-- **The next stream id is taken.** -/
theorem takeStreamId_grows (frame : ℕ → ℕ × Frame)
    (hopen : ∀ id, OutboundItem.opens ⟨(frame id).1, (frame id).2⟩ = some id) :
    Grows o (o.takeStreamId frame) := by
  unfold Outbound.takeStreamId
  dsimp only
  split_ifs
  · set next := o.session.nextStreamId with hnext
    set o1 : Outbound := { o with session :=
      { o.session with nextStreamId := next + 2, unsent := o.session.unsent ++ [next] } } with ho1
    have hnodup : o.session.unsent.Nodup → (∀ id ∈ o.session.unsent, id < next) →
        (o.session.unsent ++ [next]).Nodup := fun hnd hlt => by
      refine List.nodup_append'.2 ⟨hnd, by simp, fun id hid hid' => ?_⟩
      exact (hlt id hid).ne (List.mem_singleton.1 hid')
    have hmem : ∀ {id}, id ∈ o.session.unsent ++ [next] → id ∈ o.session.unsent ∨ id = next :=
      fun hid => by simpa using hid
    have hfiled : o.Filed → o1.Filed := fun hf => by
      have hmine : ∀ id ∈ o.session.unsent ++ [next], o.session.isMyStreamId id = true := by
        intro id hid
        rcases hmem hid with hid | rfl
        · exact hf.unsent_mine id hid
        · exact hf.next_mine
      have hlt : ∀ id ∈ o.session.unsent ++ [next], id < next + 2 := by
        intro id hid
        rcases hmem hid with hid | rfl
        · exact (hf.unsent_lt id hid).trans (by omega)
        · omega
      have hmine' : o.session.isMyStreamId (next + 2) = true := by
        have := hf.next_mine
        unfold Session.isMyStreamId at this ⊢
        rw [Nat.add_mod_right]
        simp only [Bool.and_eq_true] at this ⊢
        exact ⟨by simp, this.2⟩
      exact { hf with
        asks := fun i hi id hid => List.mem_append_left _ (hf.asks i hi id hid)
        unsent_lt := hlt
        unsent_nodup := hnodup hf.unsent_nodup hf.unsent_lt
        unsent_mine := hmine
        next_mine := hmine' }
    have h1 : Grows o o1 :=
      { Grows.refl h with
        takes := ⟨Nat.le_add_right _ _, ⟨[next], rfl, fun id hid => by
          rw [List.mem_singleton.1 hid]
          exact ⟨le_rfl, Nat.lt_add_of_pos_right two_pos⟩⟩, hnodup⟩
        filed := hfiled
        tabled := h
        entry := fun _ _ hx => ⟨hx, .inl rfl⟩ }
    refine h1.submitItem _ _ (fun id hid => ?_) fun hf id hid => ?_
    · rw [hopen next, Option.some.injEq] at hid
      exact hid.le
    rw [hopen next, Option.some.injEq] at hid
    subst hid
    -- the frames that wait have older ids
    exact ⟨by simp [ho1], fun j hj a ha => hf.unsent_lt a (hf.asks j hj a ha)⟩
  · exact Grows.refl h

/-- **A submission.** -/
theorem Submitted.grows {sub : Submission} (hsub : Submitted o sub o') : Grows o o' := by
  cases hsub with
  | same => exact Grows.refl h
  | item hopens => exact submitItem_grows h _ _ hopens
  | cancel hc => exact cancel_grows h (frame_of_cancelable hc).2.2.1
  | take hopen => exact takeStreamId_grows h _ hopen
  | @terminate n =>
    have h1 : Grows o _ := submitItem_grows h 0 (.goaway n false true) rfl
    exact h1.trans (Grows.of_eq h1.tabled rfl rfl rfl fun hf => { hf with })

/-- **Every submission.** -/
theorem submit_grows (sub : Submission) : Grows o (o.submit sub) :=
  (submit_submitted o sub).grows h

end

end Submitting

/-! ## Acting for the application -/

section Acting

/-- The application submits the frame in a callback. -/
def Env.Submits (env : Env) (sub : Submission) : Prop :=
  sub ∈ env.onFrameSend ∨ sub ∈ env.onFrameNotSend ∨ ∃ id, sub ∈ env.onStreamClose id

/-- What goes on while no frame is being sent: nothing is queued, or one of the frames `S` is
submitted, or DATA that follows HEADERS. -/
inductive Acts (S : Submission → Prop) : Outbound → Outbound → Prop
  | quiet {o o' : Outbound} (h : Grows o o') (hnew : o'.allocated = o.allocated) : Acts S o o'
  | submit {o : Outbound} {sub : Submission} (h : o.session.Tabled) (hs : S sub) :
      Acts S o (o.submit sub)
  | data {o : Outbound} (h : o.session.Tabled) (id : ℕ) (b : Bool) :
    Acts S o (o.submit (.data id b))
  | trans {o o1 o2 : Outbound} (h : Acts S o o1) (h' : Acts S o1 o2) : Acts S o o2

variable {S : Submission → Prop} {l : List Submission}

/-- Nothing happens. -/
theorem Acts.refl (h : o.session.Tabled) : Acts S o o := .quiet (Grows.refl h) rfl

/-- Submissions and closed streams. -/
theorem Acts.grows (h : Acts S o o') : Grows o o' := by
  induction h with
  | quiet h => exact h
  | submit h => exact submit_grows h _
  | data h => exact submit_grows h _
  | trans _ _ ih ih' => exact ih.trans ih'

/-- The submissions of a callback. -/
theorem submitAll_acts (h : o.session.Tabled) (hl : ∀ sub ∈ l, S sub) :
    Acts S o (o.submitAll l) := by
  unfold Outbound.submitAll
  induction l generalizing o with
  | nil => exact .refl h
  | cons sub l ih =>
    rw [List.forall_mem_cons] at hl
    exact .trans (.submit h hl.1) (ih (submit_grows h sub).tabled hl.2)

/-- The same, for the queues. -/
theorem submitAll_grows (h : o.session.Tabled) (l : List Submission) : Grows o (o.submitAll l) :=
  (submitAll_acts (S := fun _ => True) h fun _ _ => trivial).grows

end Acting

/-! ## Closing streams -/

section Closing

variable {id : ℕ} {x : Ptr} {S : Submission → Prop}

/-- The item of a stream that is closed. -/
theorem releaseItem_grows (h : o.session.Tabled) (x : Ptr) :
    Grows o { o with session := o.session.releaseItem x } := by
  unfold Session.releaseItem
  split
  · exact Grows.refl h
  · dsimp only
    split_ifs
    · refine Grows.of_eq h rfl (streamDetachItem_allocated ..) rfl fun hf => ?_
      exact hf.of_alike le_rfl (fun _ _ => Alike.refl _) rfl rfl rfl rfl rfl rfl
        (streamDetachItem_carried o.session.tree x)
    · exact detachItem_grows h x

/-- **`nghttp2_session_close_stream`**: the stream cannot be found afterwards. -/
theorem closeStream_acts (h : o.session.Tabled) (hS : ∀ sub, env.Submits sub → S sub)
    (hres : o.closeStream env id = .ok o') : Acts S o o' ∧ o'.session.getStream id = none := by
  unfold Outbound.closeStream at hres
  cases hget : o.session.getStream id with
  | none =>
    rw [hget] at hres
    cases hres
    exact ⟨.refl h, hget⟩
  | some x =>
    rw [hget] at hres
    obtain ⟨s, hfin, hres⟩ := bind_eq_ok.1 hres
    cases hres
    have h1 := releaseItem_grows h x
    have h2 := (Acts.quiet h1 rfl).trans
      (submitAll_acts h1.tabled fun sub hsub => hS sub (.inr (.inr ⟨id, hsub⟩)))
    have hclose := Session.finishClose_closes h2.grows.tabled hfin
    have h3 := h2.trans (.quiet (Grows.of_sameFrame hclose.toSameFrame hclose.tabled
      fun _ _ hy => ⟨(hclose.entry hy).1, (hclose.entry hy).2.1⟩) rfl)
    refine ⟨h3, ?_⟩
    cases hget' : s.getStream id with
    | none => rfl
    | some y =>
      -- it could only be the stream that was there
      have hy := (h3.grows.entry hget').1
      rw [hget] at hy
      cases hy
      exact absurd rfl (hclose.entry hget').2.2

/-- **`nghttp2_session_close_stream`.** -/
theorem closeStream_grows (h : o.session.Tabled) (hres : o.closeStream env id = .ok o') :
    Grows o o' ∧ o'.session.getStream id = none :=
  (closeStream_acts (S := fun _ => True) h (fun _ _ => trivial) hres).imp_left Acts.grows

/-- A stream that is finished on both sides is closed. -/
theorem closeStreamIfShutRdwr_acts (h : o.session.Tabled) (hS : ∀ sub, env.Submits sub → S sub)
    (hres : o.closeStreamIfShutRdwr env x = .ok o') : Acts S o o' := by
  unfold Outbound.closeStreamIfShutRdwr at hres
  split_ifs at hres
  · exact (closeStream_acts h hS hres).1
  · cases hres
    exact .refl h

/-- The streams that a GOAWAY refuses are closed. -/
theorem closeStreamOnGoaway_acts {incoming : Bool} (h : o.session.Tabled)
    (hS : ∀ sub, env.Submits sub → S sub)
    (hres : o.closeStreamOnGoaway env n incoming = .ok o') : Acts S o o' := by
  unfold Outbound.closeStreamOnGoaway at hres
  generalize goawayTargets o.session n incoming = ids at hres
  induction ids generalizing o with
  | nil =>
    cases hres
    exact .refl h
  | cons id ids ih =>
    obtain ⟨o1, h1, hres⟩ := bind_eq_ok.1 hres
    have hacts := (closeStream_acts h hS h1).1
    exact hacts.trans (ih hacts.grows.tabled hres)

/-- The same, without the submissions. -/
theorem closeStreamOnGoaway_grows {incoming : Bool} (h : o.session.Tabled)
    (hres : o.closeStreamOnGoaway env n incoming = .ok o') : Grows o o' :=
  (closeStreamOnGoaway_acts (S := fun _ => True) h (fun _ _ => trivial) hres).grows

end Closing

end Outbound

end Nghttp2
