/-
# Where the queued frames come from

A frame enters the queues of a session because the application submits it, in an event of its
own or in a callback, or because the library does: GOAWAY when a header block cannot be packed,
and RST_STREAM when the application cannot deliver the data of a stream.

* `Event.Calls` are the frames that an event may submit, told before it runs;
* `Makes` composes: what was made before stays as it was made;
* `step_news` says of every RST_STREAM, GOAWAY and HEADERS that is new after an event that it was
  submitted, and that the stream of a new RST_STREAM is CLOSING.
-/
import Nghttp2.OutboundRuns
import Nghttp2.WireRuns

namespace Nghttp2

namespace Outbound

variable {o o' o1 o2 : Outbound} {env : Env} {i : ItemPtr} {x : Ptr} {S : Submission → Prop}
  {W : ℕ → Prop} {sub : Submission} {e : Event} {it it' : OutboundItem}

/-- The frames that the event may submit: those of the application, and GOAWAY if a header block
cannot be packed. -/
def Event.Calls : Event → Submission → Prop
  | .submit sub, sub' => sub' = sub
  | .close env _, sub => env.Submits sub
  | .recvGoaway env _, sub => env.Submits sub
  | .popItem env, sub => env.Submits sub ∨
    (env.packs = false ∧ sub = .terminate env.lastProcStreamId)
  | .frameSent1 env, sub => env.Submits sub
  | .sendNoCopy env _, sub => env.Submits sub
  | .session _, _ => False
  | .frameSent2, _ => False

/-- The event ends the transmission of HEADERS that begin a request or a response on the stream:
it writes the state of the stream. -/
def WritesState (o : Outbound) (id : ℕ) : Event → Prop
  | .frameSent1 _ => o.state = .sendData ∧ ∃ i f, o.session.items.aob = some i ∧
      (o.item i).streamId = id ∧ (o.item i).frame = .headers f ∧ f.cat ≠ .headers
  | _ => False

/-- The item was made by one of the submissions `S`.  RST_STREAM has put its stream into the
state CLOSING, unless the state is written later: this may be so for the streams `W`. -/
structure Made (S : Submission → Prop) (W : ℕ → Prop) (o : Outbound) (it : OutboundItem) :
    Prop where
  reset : it.kind = .rstStream → S (.rstStream it.streamId)
  closing : it.kind = .rstStream → ¬ W it.streamId → ∀ x,
    o.session.getStream it.streamId = some x → (o.session.info x).state = .closing
  goaway : ∀ n, it.kind = .goaway n →
    ∃ sub m, S sub ∧ sub.goawayId = some m ∧ n = min m o.localLastStreamId
  headers : it.kind = .headers false → ∃ sub, S sub ∧ sub.headersId = some it.streamId

/-- The items that were there are still what they were, and a stream that is CLOSING remains so,
apart from the streams `W`. -/
structure Persists (W : ℕ → Prop) (o o' : Outbound) : Prop where
  allocated : o.allocated ≤ o'.allocated
  item : ∀ i < o.allocated, Alike (o.item i) (o'.item i)
  localLastStreamId : o'.localLastStreamId = o.localLastStreamId
  entry : ∀ ⦃id x⦄, ¬ W id → o'.session.getStream id = some x → o.session.getStream id = some x ∧
    ((o.session.info x).state = .closing → (o'.session.info x).state = .closing)

/-- The new items were made by the submissions `S`. -/
def News (S : Submission → Prop) (W : ℕ → Prop) (o o' : Outbound) : Prop :=
  ∀ i, o.allocated ≤ i → i < o'.allocated → Made S W o' (o'.item i)

/-- Something happens that leaves the old items, and the new ones come from `S`. -/
structure Makes (S : Submission → Prop) (W : ℕ → Prop) (o o' : Outbound) : Prop
    extends Persists W o o' where
  news : News S W o o'

theorem Made.persists (h : Made S W o it) (hs : Persists W o o') (ha : Alike it it') :
    Made S W o' it' where
  reset hk := by
    rw [ha.1]
    exact h.reset (ha.2 ▸ hk)
  closing hk hW x hx := by
    rw [ha.1] at hW hx
    obtain ⟨hold, hclosing⟩ := hs.entry hW hx
    exact hclosing (h.closing (ha.2 ▸ hk) hW x hold)
  goaway n hk := by
    rw [hs.localLastStreamId]
    exact h.goaway n (ha.2 ▸ hk)
  headers hk := by
    rw [ha.1]
    exact h.headers (ha.2 ▸ hk)

theorem Persists.trans (h : Persists W o o1) (h' : Persists W o1 o2) : Persists W o o2 where
  allocated := h.allocated.trans h'.allocated
  item i hi := (h.item i hi).trans (h'.item i (hi.trans_le h.allocated))
  localLastStreamId := h'.localLastStreamId.trans h.localLastStreamId
  entry id x hW hx := by
    obtain ⟨hmid, hclosing'⟩ := h'.entry hW hx
    obtain ⟨hold, hclosing⟩ := h.entry hW hmid
    exact ⟨hold, fun hc => hclosing' (hclosing hc)⟩

theorem News.trans (h : News S W o o1) (h' : Makes S W o1 o2) : News S W o o2 := by
  intro i hge hlt
  by_cases hi : i < o1.allocated
  · exact (h i hge hi).persists h'.toPersists (h'.item i hi)
  · exact h'.news i (not_lt.1 hi) hlt

theorem News.of_allocated (h : o'.allocated = o.allocated) : News S W o o' :=
  fun _ hge hlt => absurd (hlt.trans_le h.le) (not_lt.2 hge)

theorem Makes.trans (h : Makes S W o o1) (h' : Makes S W o1 o2) : Makes S W o o2 :=
  ⟨h.toPersists.trans h'.toPersists, h.news.trans h'⟩

theorem Grows.persists (h : Grows o o') : Persists W o o' where
  allocated := h.allocated
  item i hi := (h.item i hi).alike
  localLastStreamId := h.localLastStreamId
  entry id x _ hx := by
    obtain ⟨hold, hinfo⟩ := h.entry hx
    exact ⟨hold, hinfo.proceeds.closing⟩

/-- Only HEADERS that begin a request or a response write the state of their stream. -/
theorem Sends.persists {id : ℕ} {frame : Frame} (h : Sends o o' id frame)
    (hW : ∀ f, frame = .headers f → f.cat ≠ .headers → W id) : Persists W o o' where
  allocated := h.allocated
  item i hi := (h.item i hi).alike
  localLastStreamId := h.localLastStreamId
  entry id' x hnot hx := by
    obtain ⟨hold, ⟨-, hinfo⟩ | ⟨rfl, -, hproceeds⟩⟩ := h.entry hx
    · exact ⟨hold, hinfo.proceeds.closing⟩
    have hout : sentOutcome (o.session.info x) frame = o.session.info x := by
      cases frame with
      | headers f =>
        have hcat : f.cat = .headers := by
          by_contra hne
          exact hnot (hW f rfl hne)
        simp [sentOutcome, hcat, headersOutcome]
      | _ => rfl
    rw [hout] at hproceeds
    exact ⟨hold, hproceeds.closing⟩

theorem Grows.makes (h : Grows o o') (hnew : o'.allocated = o.allocated) : Makes S W o o' :=
  ⟨h.persists, .of_allocated hnew⟩

/-! ## Submissions -/

/-- A new item is what was submitted. -/
theorem submitItem_new (o : Outbound) (streamId : ℕ) (frame : Frame) :
    (o.submitItem streamId frame).allocated = o.allocated + 1 ∧
      (o.submitItem streamId frame).item o.allocated = ⟨streamId, frame⟩ ∧
      (o.submitItem streamId frame).localLastStreamId = o.localLastStreamId := by
  unfold Outbound.submitItem
  dsimp only
  split
  · next o' hadd =>
    cases placed_of_addItem hadd with
    | @queue q _ => cases q <;> simp [push, setQueued]
    | stream _ _ h =>
      unfold attach at h
      split_ifs at h
      cases h
      simp
    | closing => simp [push, setQueued]
  · simp [freeItem]

/-- RST_STREAM puts its stream into the state CLOSING. -/
theorem submitItem_closing (h : o.session.Tabled) {id : ℕ}
    (hx : (o.submitItem id .rstStream).session.getStream id = some x) :
    ((o.submitItem id .rstStream).session.info x).state = .closing := by
  have hold := ((submitItem_grows h id .rstStream rfl).entry hx).1
  simp [submitItem, addItem, hold, push, setQueued, Session.modifyInfo]

/-- A frame that is asked for. -/
theorem Made.of_asks {streamId : ℕ} {frame : Frame} (h : o.session.Tabled) (hs : S sub)
    (hasks : o.Asks sub ⟨streamId, frame⟩) :
    Made S W (o.submitItem streamId frame) ⟨streamId, frame⟩ := by
  unfold Asks at hasks
  refine ⟨fun hk => ?_, fun hk _ x hx => ?_, fun n hk => ?_, fun hk => ?_⟩
  · rw [hk] at hasks
    exact hasks ▸ hs
  · have hframe : frame = .rstStream := by
      cases frame with
      | rstStream => rfl
      | _ => cases hk
    subst hframe
    exact submitItem_closing h hx
  · rw [hk] at hasks
    obtain ⟨m, hid, hn⟩ := hasks
    exact ⟨sub, m, hs, hid, hn.trans (by rw [(submitItem_new ..).2.2])⟩
  · rw [hk] at hasks
    exact ⟨sub, hs, hasks⟩

/-- A request or a promise. -/
theorem Made.of_opens {id : ℕ} (h : it.opens = some id) : Made S W o it := by
  unfold OutboundItem.opens at h
  refine ⟨fun hk => ?_, fun hk => ?_, fun n hk => ?_, fun hk => ?_⟩
  all_goals
    rw [hk] at h
    cases h

theorem News.submitItem {streamId : ℕ} {frame : Frame}
    (h : Made S W (o.submitItem streamId frame) ⟨streamId, frame⟩) :
    News S W o (o.submitItem streamId frame) := by
  obtain ⟨halloc, hitem, -⟩ := submitItem_new o streamId frame
  intro i hge hlt
  have hi : i = o.allocated := by omega
  rw [hi, hitem]
  exact h

/-- **A submission.** -/
theorem Submitted.news (hsub : Submitted o sub o') (h : o.session.Tabled) (hs : S sub) :
    News S W o o' := by
  cases hsub with
  | same => exact .of_allocated rfl
  | item _ hasks => exact .submitItem (.of_asks h hs hasks)
  | cancel => exact .of_allocated rfl
  | @take frame hopens =>
    intro i hge hlt
    unfold takeStreamId at hlt ⊢
    dsimp only at hlt ⊢
    split_ifs at hlt ⊢
    · exact News.submitItem (.of_opens (hopens _)) i hge hlt
    · exact absurd hlt (not_lt.2 hge)
  | terminate hasks =>
    have hnews := News.submitItem (W := W) (.of_asks h hs hasks)
    exact fun i hge hlt => { hnews i hge hlt with }

/-- DATA follows the HEADERS of the application. -/
theorem submit_data_news (o : Outbound) (id : ℕ) (b : Bool) :
    News S W o (o.submit (.data id b)) := by
  simp only [Outbound.submit]
  split_ifs
  · exact .of_allocated rfl
  · refine .submitItem ⟨fun hk => ?_, fun hk => ?_, fun n hk => ?_, fun hk => ?_⟩
    all_goals cases hk

theorem Acts.makes (h : Acts S o o') : Makes S W o o' := by
  induction h with
  | quiet h hnew => exact h.makes hnew
  | submit h hs => exact ⟨(submit_grows h _).persists, (submit_submitted ..).news h hs⟩
  | data h => exact ⟨(submit_grows h _).persists, submit_data_news _ _ _⟩
  | trans _ _ ih ih' => exact ih.trans ih'

/-! ## Popping an item -/

theorem Makes.of_eq (halloc : o'.allocated = o.allocated) (hitem : o'.item = o.item)
    (hlast : o'.localLastStreamId = o.localLastStreamId)
    (hget : ∀ id, o'.session.getStream id = o.session.getStream id)
    (hinfo : o'.session.info = o.session.info) : Makes S W o o' where
  allocated := halloc.ge
  item i _ := by
    rw [hitem]
    exact Alike.refl _
  localLastStreamId := hlast
  entry id x _ hx := by
    rw [hinfo]
    exact ⟨hget id ▸ hx, fun hc => hc⟩
  news := .of_allocated halloc

theorem activeOutboundItemReset_makes (o : Outbound) : Makes S W o o.activeOutboundItemReset := by
  refine .of_eq ?_ ?_ ?_ activeOutboundItemReset_getStream ?_
  all_goals
    unfold activeOutboundItemReset
    dsimp only
    split
    · rfl
    · rfl

/-- Only the reset of a stream whose data cannot be read makes an item. -/
theorem prepFrame_allocated {r : PrepResult} (hres : o.prepFrame i env = .ok (o', r)) :
    o'.allocated = o.allocated ∨ ∃ x, o.session.getStream (o.item i).streamId = some x ∧
      o' = (o.detachItem x).addRstStream (o.item i).streamId := by
  unfold prepFrame at hres
  dsimp only at hres
  cases hframe : (o.item i).frame with
  | headers f =>
    simp only [hframe, prepHeaders] at hres
    split_ifs at hres
    · cases hres
      exact .inl rfl
    · obtain ⟨s, -, hres⟩ := bind_eq_ok.1 hres
      dsimp only at hres
      split at hres <;> cases hres <;> exact .inl rfl
    · split at hres
      · cases hres
        exact .inl rfl
      · cases hres
        left
        unfold detachFromRaw
        split
        · split_ifs <;> rfl
        · rfl
  | pushPromise promised nva =>
    simp only [hframe] at hres
    obtain ⟨s, -, hres⟩ := bind_eq_ok.1 hres
    dsimp only at hres
    split_ifs at hres
    · cases hres
      exact .inl rfl
    · split at hres <;> cases hres <;> exact .inl rfl
  | data f =>
    simp only [hframe, prepData] at hres
    split_ifs at hres
    split at hres
    · split at hres <;> cases hres <;> exact .inl rfl
    · next x _ hx =>
      unfold prepDataOn at hres
      split_ifs at hres
      · cases hres
        exact .inl rfl
      · split at hres
        · cases hres
          exact .inl rfl
        · cases hres
          exact .inr ⟨x, hx, rfl⟩
        · obtain ⟨o1, hpack, hres⟩ := bind_eq_ok.1 hres
          cases hres
          unfold packData at hpack
          dsimp only at hpack
          split_ifs at hpack
          cases hpack
          exact .inl rfl
    · cases hres
  | _ =>
    simp only [hframe] at hres
    cases hres
    exact .inl rfl

/-- No predicate says that a header block cannot be packed. -/
theorem predicateThen_ne {stream : Option Ptr} {check : Ptr → Option LibError}
    (h : ∀ x, check x ≠ some .headerComp) : o.predicateThen stream check ≠ some .headerComp := by
  unfold predicateThen predicateForStreamSend
  cases stream with
  | none => simp
  | some x => grind

/-- Only a header block that cannot be packed ends the session. -/
theorem packs_of_headerComp (hres : o.prepFrame i env = .ok (o', .failed .headerComp)) :
    env.packs = false := by
  by_contra hpacks
  have hready : packHeaders env = .ready := if_pos (Bool.not_eq_false _ ▸ hpacks)
  have hheaders : ∀ stream, o.predicateHeadersSend stream ≠ some .headerComp :=
    fun stream => predicateThen_ne fun x => by grind
  have hdata : ∀ stream, o.predicateDataSend stream ≠ some .headerComp :=
    fun stream => predicateThen_ne fun x => by grind
  have hpush : ∀ (o : Outbound) stream, o.predicatePushPromiseSend env stream ≠
      some .headerComp := by
    intro o stream
    unfold predicatePushPromiseSend
    split
    · simp
    · exact predicateThen_ne fun x => by grind
  have hwindow : ∀ id, o.predicateWindowUpdateSend id ≠ some .headerComp := by
    grind [predicateWindowUpdateSend]
  unfold prepFrame at hres
  cases hframe : (o.item i).frame with
  | headers f =>
    simp only [hframe, prepHeaders, prepRequest, classifyHeaders,
      predicateRequestHeadersSend, hready, pure, Except.pure, bind, Except.bind] at hres
    grind
  | pushPromise =>
    simp only [hframe, prepPushPromise, hready, pure, Except.pure, bind, Except.bind] at hres
    grind
  | data =>
    simp only [hframe, prepData, prepDataOn, pure, Except.pure, bind, Except.bind,
      throw, throwThe, MonadExceptOf.throw] at hres
    grind
  | _ =>
    simp only [hframe, pure, Except.pure, PrepResult.ofPredicate] at hres
    grind

theorem mem_of_notSendCallback {f : Frame} (h : sub ∈ notSendCallback env f) :
    sub ∈ env.onFrameNotSend := by
  unfold notSendCallback at h
  split at h
  · cases h
  · cases h
  · exact h

section Steps

variable (h : o.session.Tabled) (hS : ∀ sub, env.Submits sub → S sub)
include h hS

theorem prepFailed_makes {e : LibError}
    (hterm : e = .headerComp → S (.terminate env.lastProcStreamId))
    (hres : o.prepFailed i e env = .ok o') : Makes S W o o' := by
  obtain ⟨o1, hclose, hres⟩ := bind_eq_ok.1 hres
  have hsub : Acts S o (o.submitAll (notSendCallback env (o.item i).frame)) :=
    submitAll_acts h fun sub hsub => hS sub (.inr (.inl (mem_of_notSendCallback hsub)))
  have hclosed : Acts S (o.submitAll (notSendCallback env (o.item i).frame)) o1 := by
    unfold closeOpened at hclose
    split at hclose
    · exact (closeStream_acts hsub.grows.tabled hS hclose).1
    · cases hclose
      exact .refl hsub.grows.tabled
  have hfree := (hsub.trans hclosed).trans (.quiet (freeItem_grows hclosed.grows.tabled i) rfl)
  have hreset := hfree.makes.trans (activeOutboundItemReset_makes (S := S) (W := W) _)
  cases hres
  split_ifs with he
  · exact hreset.trans (Acts.submit hfree.grows.reset.tabled (hterm he)).makes
  · exact hreset

/-- **A turn that pops an item.** -/
theorem popItem_news (hf : o.Filed)
    (hterm : env.packs = false → S (.terminate env.lastProcStreamId))
    (hown : ∀ id x, o.session.getStream id = some x → S (.rstStream id))
    (hres : o.popItem env = .ok o') : News S W o o' := by
  unfold popItem at hres
  split at hres
  · next o1 hpop =>
    cases hres
    rw [popNextObItem_none hpop]
    exact .of_allocated rfl
  next o1 i hpop =>
  obtain ⟨⟨o2, r⟩, hprep, hres⟩ := bind_eq_ok.1 hres
  have hp := popNextObItem_popped hpop
  have hi := (hp.filed hf).2.1
  have halloc : o1.allocated = o.allocated := by rw [hp.eq]
  have htab1 : o1.session.Tabled := by
    rw [hp.eq]
    exact h
  have htab2 := (prepFrame_prepares htab1 hi hprep).1.tabled
  have hnews : News S W o o2 := by
    rcases prepFrame_allocated hprep with ho2 | ⟨x, hx, ho2⟩
    · exact .of_allocated (ho2.trans halloc)
    · intro j hge hlt
      rw [hp.getStream] at hx
      rw [ho2] at hlt ⊢
      exact (addRstStream_submitted ..).news (detachItem_grows htab1 x).tabled (hown _ x hx) j
        (halloc ▸ hge) hlt
  dsimp only at hres
  split at hres
  · cases hres
    exact hnews.trans (activeOutboundItemReset_makes o2)
  · refine hnews.trans (prepFailed_makes htab2 hS (fun he => ?_) hres)
    subst he
    exact hterm (packs_of_headerComp hprep)
  · cases hres
    exact hnews.trans (.of_eq rfl rfl rfl (fun _ => rfl) rfl)

/-! ## After sending -/

/-- **`session_after_frame_sent1`.** -/
theorem afterFrameSent1_makes (haob : o.session.items.aob = some i) (hi : i < o.allocated)
    (heof : ∀ f, (o.item i).frame = .data f → f.endStream = true → f.eof = true)
    (hW : ∀ f, (o.item i).frame = .headers f → f.cat ≠ .headers → W (o.item i).streamId)
    (hres : o.afterFrameSent1 env = .ok o') : Makes S W o o' := by
  obtain ⟨o1, o2, h1, ⟨hsends, halloc⟩, h2⟩ := afterFrameSent1_stamps h hS haob hi heof hres
  exact h1.makes.trans (.trans ⟨hsends.persists hW, .of_allocated halloc⟩ h2.makes)

omit hS in
theorem afterFrameSent2_makes : Makes S W o o.afterFrameSent2 := by
  have hreset := fun o' => activeOutboundItemReset_makes (S := S) (W := W) o'
  unfold afterFrameSent2
  split
  · exact (Acts.refl h).makes
  split
  · split_ifs
    · exact hreset o
    dsimp only
    split
    · have hnone : Makes S W o (o.setAob none) := .of_eq rfl rfl rfl (fun _ => rfl) rfl
      exact hnone.trans (hreset _)
    · exact .trans ((detachItem_grows h _).makes rfl) (hreset _)
    · exact hreset o
  · exact hreset o

end Steps

/-- **One event**: the new frames were submitted by it, or are RST_STREAM for a stream whose data
cannot be delivered. -/
theorem step_news (hs : o.Sound) (hS : ∀ sub, e.Calls sub → S sub)
    (hown : ∀ id x, o.session.getStream id = some x → S (.rstStream id))
    (hres : o.step e = .ok o') : News S (fun id => o.WritesState id e) o o' := by
  have htab := hs.tabled
  cases e with
  | submit sub =>
    cases hres
    exact (submit_submitted o sub).news htab (hS sub rfl)
  | session ev =>
    dsimp only [step] at hres
    split_ifs at hres
    · obtain ⟨s, -, rfl⟩ := exists_of_map_eq_ok hres
      exact .of_allocated rfl
    · cases hres
      exact .of_allocated rfl
  | close env id => exact (closeStream_acts htab hS hres).1.makes.news
  | recvGoaway env n =>
    have hg : Grows o { o with goawayRecv := true } :=
      Grows.of_eq htab rfl rfl rfl fun hf => { hf with }
    exact (Acts.trans (.quiet hg rfl) (closeStreamOnGoaway_acts hg.tabled hS hres)).makes.news
  | popItem env =>
    dsimp only [step] at hres
    split_ifs at hres
    · exact popItem_news htab (fun sub hsub => hS sub (.inl hsub)) hs.filed
        (fun hpacks => hS _ (.inr ⟨hpacks, rfl⟩)) hown hres
    · cases hres
      exact .of_allocated rfl
  | frameSent1 env =>
    dsimp only [step] at hres
    split_ifs at hres with hstate
    · obtain ⟨o1, hsent, rfl⟩ := exists_of_map_eq_ok hres
      cases haob : o.session.items.aob with
      | none => cases hstate.symm.trans (hs.active.aob.2 haob)
      | some i =>
        have hmakes := afterFrameSent1_makes (W := fun id =>
          o.WritesState id (.frameSent1 env)) htab hS
          haob (hs.active.lt i haob) (fun f => hs.active.eof i f haob)
          (fun f hf hcat => ⟨hstate, i, f, haob, rfl, hf, hcat⟩) hsent
        exact hmakes.news.trans (.of_eq rfl rfl rfl (fun _ => rfl) rfl)
    · cases hres
      exact .of_allocated rfl
  | frameSent2 =>
    cases hres
    split_ifs
    · exact (afterFrameSent2_makes htab).news
    · exact .of_allocated rfl
  | sendNoCopy env r =>
    dsimp only [step] at hres
    split_ifs at hres with hstate
    · unfold sendNoCopy at hres
      split at hres
      · cases hres
        exact .of_allocated rfl
      next i haob =>
      split at hres
      · cases hres
        exact (activeOutboundItemReset_makes o).news
      next x hx =>
      split at hres
      · cases hres
        exact .of_allocated rfl
      · cases hres
        have hdet := detachItem_grows htab x
        exact ((hdet.makes rfl).trans ⟨((addRstStream_submitted ..).grows hdet.tabled).persists,
          (addRstStream_submitted ..).news hdet.tabled (hown _ x hx)⟩).news.trans
            (activeOutboundItemReset_makes _)
      · obtain ⟨o1, hsent, hres⟩ := bind_eq_ok.1 hres
        cases hres
        have hkind := hs.active.noCopy hstate i haob
        have heof := fun f => hs.active.eof i f haob
        have hmakes := afterFrameSent1_makes (W := fun id =>
          o.WritesState id (.sendNoCopy env .sent)) htab hS haob (hs.active.lt i haob) heof
          (fun f hf => by simp [OutboundItem.kind, hf] at hkind) hsent
        have htab1 := (afterFrameSent1_sends htab haob (hs.active.lt i haob) heof hsent).tabled
        exact (hmakes.trans (afterFrameSent2_makes htab1)).news
    · cases hres
      exact .of_allocated rfl

theorem not_calls_of_quietTurn (h : e ∈ quietTurn) : ¬ e.Calls sub := by
  simp only [quietTurn, List.mem_cons, List.not_mem_nil, or_false] at h
  rcases h with rfl | rfl | rfl
  · simp [Event.Calls, Env.Submits, quietEnv]
  · simp [Event.Calls, Env.Submits, quietEnv]
  · exact id

end Outbound

end Nghttp2
