/-
# Stream accounting in runs

What submitting, preparing and sending frames does to the books of a session.

* `Outbound.Booked.step`: every event of a session keeps the books, unless it reuses an idle
  stream that is not the last of its chain, or handles a push response a second time after it
  was sent;
* `Recorded.accounted_iff_of_reaches`: so the counters are right in runs without such events,
  and they are wrong after such an event.
-/
import Nghttp2.StreamBooks
import Nghttp2.StreamOrder

namespace Nghttp2

open ChainMap

theorem Session.SameBooks.refl (s : Session) : SameBooks s s := .of_eq rfl rfl

variable {s : Session}

theorem Session.SameBooks.getStream {s' : Session} (h : SameBooks s s') (id : ℕ) :
    s'.getStream id = s.getStream id := by
  ext x
  rw [getStream_eq_some_iff, getStream_eq_some_iff, getStreamRaw, getStreamRaw, h.streams,
    (h.info x).closed, Ne, (h.info x).idle]

namespace Outbound

open Session (SameBooks SameKind)

variable {o o' o1 o2 : Outbound} {env : Env} {i : ItemPtr} {id : ℕ} {x : Ptr} {extra : Tally → ℕ}

/-! ## Submitting -/

theorem attach_same (h : o.attach x i = .ok o') : SameBooks o.session o'.session := by
  unfold attach at h
  split_ifs at h
  cases h
  exact .of_tree (streamAttachItem_allocated ..)

theorem push_same (o : Outbound) (q : Queue) (i : ItemPtr) :
    SameBooks o.session (o.push q i).session := by
  cases q
  all_goals exact .of_eq rfl rfl

theorem addItem_same (h : o.addItem i = .ok o') : SameBooks o.session o'.session := by
  cases placed_of_addItem h with
  | queue => exact push_same ..
  | stream _ _ h => exact attach_same h
  | @closing x hx =>
    -- the stream is open, and closing it does not make it idle
    have hopen := (Session.getStream_eq_some_iff.1 hx).2.2
    have hclosing : SameBooks o.session (o.session.modifyInfo x fun info =>
        { info with state := .closing }) :=
      .modifyInfo o.session x ⟨rfl, rfl, iff_of_false (by simp) hopen⟩
    exact hclosing.trans (push_same { o with session := o.session.modifyInfo x fun info =>
      { info with state := .closing } } ..)

theorem submitItem_same (o : Outbound) (streamId : ℕ) (frame : Frame) :
    SameBooks o.session (o.submitItem streamId frame).session := by
  unfold submitItem
  dsimp only
  split
  · next o' hres =>
    have hsame := addItem_same hres
    exact hsame
  · exact .of_eq rfl rfl

theorem takeStreamId_same (o : Outbound) (frame : ℕ → ℕ × Frame) :
    SameBooks o.session (o.takeStreamId frame).session := by
  unfold takeStreamId
  dsimp only
  split_ifs
  · refine SameBooks.trans ?_ (submitItem_same ..)
    exact .of_eq rfl rfl
  · exact .refl _

/-- **A submission** does not touch the books. -/
theorem Submitted.books {sub : Submission} (h : Submitted o sub o') :
    SameBooks o.session o'.session := by
  cases h with
  | same => exact .refl _
  | item => exact submitItem_same ..
  | cancel => exact .of_eq rfl rfl
  | take => exact takeStreamId_same ..
  | terminate => exact submitItem_same o 0 (.goaway _ false true)

theorem submit_same (o : Outbound) (sub : Submission) :
    SameBooks o.session (o.submit sub).session :=
  (submit_submitted o sub).books

theorem submitAll_same (o : Outbound) (l : List Submission) :
    SameBooks o.session (o.submitAll l).session := by
  induction l generalizing o with
  | nil => exact .refl _
  | cons sub l ih => exact (submit_same o sub).trans (ih _)

/-! ## Closing streams -/

theorem freeItem_same (o : Outbound) (i : ItemPtr) : SameBooks o.session (o.freeItem i).session :=
  .of_eq rfl rfl

theorem activeOutboundItemReset_same (o : Outbound) :
    SameBooks o.session o.activeOutboundItemReset.session := by
  unfold activeOutboundItemReset
  cases haob : o.session.items.aob
  all_goals exact .of_eq rfl rfl

section

variable {P : Session → Prop} (hsame : ∀ {s s' : Session}, SameBooks s s' → P s → P s')
  (hfin : ∀ {s s' : Session} {x : Ptr} {id : ℕ}, s.getStream id = some x →
    s.finishClose x id = .ok s' → P s → P s')
  (h : P o.session)
include hsame hfin h

/-- What submissions keep, and the end of `nghttp2_session_close_stream`, is kept when a stream is
closed. -/
theorem closeStream_rule (hres : o.closeStream env id = .ok o') : P o'.session := by
  unfold closeStream at hres
  split at hres
  · cases hres
    exact h
  · next x hx =>
    obtain ⟨s, hclose, hres⟩ := bind_eq_ok.1 hres
    cases hres
    have hs := (Session.releaseItem_same o.session x).1.trans
      (submitAll_same { o with session := o.session.releaseItem x } (env.onStreamClose id))
    exact hfin ((hs.getStream id).trans hx) hclose (hsame hs h)

theorem prepFailed_rule {e : LibError} (hres : o.prepFailed i e env = .ok o') : P o'.session := by
  obtain ⟨o1, hclose, hres⟩ := bind_eq_ok.1 hres
  cases hres
  have h1 : P o1.session := by
    have hsub := hsame (submitAll_same o (notSendCallback env (o.item i).frame)) h
    unfold closeOpened at hclose
    split at hclose
    · exact closeStream_rule hsame hfin hsub hclose
    · cases hclose
      exact hsub
  have h2 := hsame ((freeItem_same o1 i).trans (activeOutboundItemReset_same _)) h1
  split_ifs
  · exact hsame (terminateSession_submitted ..).books h2
  · exact h2

end

/-- The books of a session are right, up to `extra`. -/
def Booked (o : Outbound) (extra : Tally → ℕ) : Prop :=
  ∃ chains, Session.Book o.session chains extra []

theorem Booked.of_same (h : o.Booked extra) (hs : SameBooks o.session o'.session) :
    o'.Booked extra := by
  obtain ⟨chains, h⟩ := h
  exact ⟨chains, h.of_same hs⟩

theorem Booked.accounted (h : o.Booked 0) : o.session.Accounted := by
  obtain ⟨chains, h⟩ := h
  exact h.accounted

section

variable (h : o.Booked extra)
include h

theorem Booked.submit (sub : Submission) : (o.submit sub).Booked extra :=
  h.of_same (submit_same o sub)

theorem Booked.submitAll (l : List Submission) : (o.submitAll l).Booked extra :=
  h.of_same (submitAll_same o l)

theorem Booked.closeStream (hres : o.closeStream env id = .ok o') : o'.Booked extra :=
  closeStream_rule (P := fun s => ∃ chains, Session.Book s chains extra [])
    (fun hs ⟨_, h⟩ => ⟨_, h.of_same hs⟩) (fun hx hfin ⟨_, h⟩ => h.finishClose hx hfin) h hres

theorem Booked.closeStreamIfShutRdwr
    (hres : o.closeStreamIfShutRdwr env x = .ok o') : o'.Booked extra := by
  unfold Outbound.closeStreamIfShutRdwr at hres
  split_ifs at hres
  · exact h.closeStream hres
  · cases hres
    exact h

theorem Booked.closeAll {ids : List ℕ}
    (hres : ids.foldlM (Outbound.closeStream env) o = .ok o') : o'.Booked extra := by
  induction ids generalizing o with
  | nil =>
    cases hres
    exact h
  | cons id ids ih =>
    obtain ⟨o1, hclose, hres⟩ := bind_eq_ok.1 hres
    exact ih (h.closeStream hclose) hres

theorem Booked.sessionStep {e : Session.Event} (hreuse : o.session.ReuseSafe e)
    (hres : o.session.step e = .ok s) : Booked { o with session := s } extra := by
  obtain ⟨chains, h⟩ := h
  exact h.step hreuse hres

end

/-! ## Preparing frames -/

theorem detachItem_same (o : Outbound) (x : Ptr) : SameBooks o.session (o.detachItem x).session :=
  .of_tree (streamDetachItem_allocated ..)

theorem popNextObItem_same {next : Option ItemPtr} (h : o.popNextObItem env = (o', next)) :
    SameBooks o.session o'.session := by
  unfold popNextObItem at h
  split at h
  · cases h
    exact .of_eq rfl rfl
  split at h
  · cases h
    exact .of_eq rfl rfl
  · split at h
    · cases h
      exact .of_eq rfl rfl
    · cases h
      exact .refl _

variable {mine : Bool} {f : HeadersFrame} {ev : Session.Event} {a b : StreamInfo}

theorem Booked.prepRequest {r : PrepResult} (h : o.Booked extra)
    (hreuse : o.session.ReuseSafe (.sendRequest (o.item i).streamId f.pri))
    (hres : o.prepRequest i f env = .ok (o', r)) : o'.Booked extra := by
  obtain ⟨s, hstep, hres⟩ := bind_eq_ok.1 hres
  have h1 := h.sessionStep hreuse hstep
  dsimp only at hres
  split at hres
  all_goals
    cases hres
    exact h1

theorem Booked.prepPushPromise {promised : ℕ} {nva : List (ℕ × ℕ)} {r : PrepResult}
    (h : o.Booked extra)
    (hreuse : o.session.ReuseSafe (.sendPushPromise (o.item i).streamId promised))
    (hres : o.prepPushPromise i promised nva env = .ok (o', r)) : o'.Booked extra := by
  obtain ⟨s, hstep, hres⟩ := bind_eq_ok.1 hres
  have h1 := h.sessionStep hreuse hstep
  dsimp only at hres
  split at hres
  · cases hres
    exact h1
  · split at hres
    all_goals
      cases hres
      exact h1

theorem Booked.prepHeaders {r : PrepResult} (h : o.Booked extra)
    (hreuse : f.cat = .request → estimateHeadersPayload f.nva prioritySpeclen ≤ maxHeaderslen →
      o.session.ReuseSafe (.sendRequest (o.item i).streamId f.pri))
    (hres : o.prepHeaders i f env = .ok (o', r)) : o'.Booked extra := by
  unfold Outbound.prepHeaders at hres
  split_ifs at hres with hsize hcat
  · cases hres
    exact h
  · exact h.prepRequest (hreuse hcat (not_lt.1 hsize)) hres
  split at hres
  · cases hres
    exact h
  cases hres
  refine h.of_same ?_
  unfold detachFromRaw
  split
  · split_ifs
    · exact .of_tree (streamDetachItem_allocated ..)
    · exact .refl _
  · exact .refl _

theorem prepData_same {f : DataFrame} {r : PrepResult} (hres : o.prepData i f env = .ok (o', r)) :
    SameBooks o.session o'.session := by
  unfold prepData at hres
  dsimp only at hres
  split_ifs at hres
  split at hres
  · split at hres
    · cases hres
      exact detachItem_same ..
    · cases hres
      exact .refl _
  · next x _ _ =>
    unfold prepDataOn at hres
    split_ifs at hres
    · cases hres
      exact .of_tree (streamDeferItem_allocated ..)
    split at hres
    · cases hres
      exact .of_tree (streamDeferItem_allocated ..)
    · cases hres
      exact (detachItem_same ..).trans (addRstStream_submitted ..).books
    · obtain ⟨o1, hpack, hres⟩ := bind_eq_ok.1 hres
      cases hres
      unfold packData at hpack
      dsimp only at hpack
      split_ifs at hpack
      cases hpack
      exact .of_tree rfl
  · cases hres

/-- Preparing the item opens a stream with the object of an idle stream that is not the last of
its chain. -/
def Cuts (o : Outbound) (i : ItemPtr) : Prop :=
  match (o.item i).frame with
  | .headers f => f.cat = .request ∧ estimateHeadersPayload f.nva prioritySpeclen ≤ maxHeaderslen ∧
      ¬ o.session.ReuseSafe (.sendRequest (o.item i).streamId f.pri)
  | .pushPromise promised _ =>
      ¬ o.session.ReuseSafe (.sendPushPromise (o.item i).streamId promised)
  | _ => False

/-- **`session_prep_frame`.** -/
theorem Booked.prepFrame {r : PrepResult} (h : o.Booked extra) (hcut : ¬ o.Cuts i)
    (hres : o.prepFrame i env = .ok (o', r)) : o'.Booked extra := by
  unfold Outbound.prepFrame at hres
  unfold Cuts at hcut
  cases hframe : (o.item i).frame with
  | headers f =>
    rw [hframe] at hres hcut
    refine h.prepHeaders (fun hcat hsize => ?_) hres
    by_contra hreuse
    exact hcut ⟨hcat, hsize, hreuse⟩
  | pushPromise promised nva =>
    rw [hframe] at hres hcut
    exact h.prepPushPromise (not_not.1 hcut) hres
  | data f =>
    rw [hframe] at hres
    exact h.of_same (prepData_same hres)
  | _ =>
    rw [hframe] at hres
    cases hres
    exact h

theorem Booked.prepFailed {e : LibError} (h : o.Booked extra)
    (hres : o.prepFailed i e env = .ok o') : o'.Booked extra :=
  prepFailed_rule (P := fun s => ∃ chains, Session.Book s chains extra [])
    (fun hs ⟨_, h⟩ => ⟨_, h.of_same hs⟩) (fun hx hfin ⟨_, h⟩ => h.finishClose hx hfin) h hres

/-- **An item is popped and prepared.** -/
theorem Booked.popItem (h : o.Booked extra)
    (hcut : ∀ o1 i, o.popNextObItem env = (o1, some i) → ¬ o1.Cuts i)
    (hres : o.popItem env = .ok o') : o'.Booked extra := by
  unfold Outbound.popItem at hres
  split at hres
  · next o1 hpop =>
    cases hres
    exact h.of_same (popNextObItem_same hpop)
  · next o1 i hpop =>
    obtain ⟨⟨o2, r⟩, hprep, hres⟩ := bind_eq_ok.1 hres
    have h2 := (h.of_same (popNextObItem_same hpop)).prepFrame (hcut o1 i hpop) hprep
    dsimp only at hres
    split at hres
    · cases hres
      exact h2.of_same (activeOutboundItemReset_same o2)
    · exact h2.prepFailed hres
    · cases hres
      exact h2.of_same (.of_eq rfl rfl)

/-! ## After sending -/

/-- One outgoing stream too many is counted. -/
def bump (extra : Tally → ℕ) : Tally → ℕ :=
  Function.update extra .outgoing (extra .outgoing + 1)

theorem Booked.bump (h : o.Booked extra)
    (hs : SameBooks { o.session with numOutgoingStreams := o.session.numOutgoingStreams + 1 } s)
    (ho' : o'.session = s) : o'.Booked (bump extra) := by
  obtain ⟨chains, h⟩ := h
  have hbook : Session.Book
      { o.session with numOutgoingStreams := o.session.numOutgoingStreams + 1 } chains
      (Outbound.bump extra) [] := {
    h with
    count := fun k => by
      obtain ⟨m, hm, hn⟩ := h.count k
      refine ⟨m, hm, ?_⟩
      cases k with
      | outgoing =>
        have hn : o.session.numOutgoingStreams = m + extra .outgoing := hn
        show o.session.numOutgoingStreams + 1 = m + (extra .outgoing + 1)
        omega
      | incoming => exact hn
      | promised => exact hn }
  exact ⟨chains, ho' ▸ hbook.of_same hs⟩

theorem shutWrIf_same (o : Outbound) (x : Ptr) (b : Bool) :
    SameBooks o.session (o.shutWrIf x b).session := by
  unfold shutWrIf
  split_ifs
  · exact .modifyInfo (f := fun info => { info with shutWr := true }) o.session x
      ⟨rfl, rfl, Iff.rfl⟩
  · exact .refl _

/-- The stream of HEADERS that are no push response. -/
theorem openAfterHeaders_same {cat : HeadersCat} (hx : o.session.getStream id = some x)
    (hcat : cat ≠ .pushResponse) :
    SameBooks o.session (o.openAfterHeaders x cat).session := by
  have hidle := (Session.getStream_eq_some_iff.1 hx).2.2
  cases cat with
  | request =>
    exact .modifyInfo (f := fun info => { info with state := .opening }) o.session x
      ⟨rfl, rfl, iff_of_false (by simp) hidle⟩
  | response =>
    exact .modifyInfo (f := fun info => { info with state := .opened }) o.session x
      ⟨rfl, rfl, iff_of_false (by simp) hidle⟩
  | pushResponse => exact absurd rfl hcat
  | headers => exact .refl _

/-- What the counters miss after HEADERS were sent on the stream `x`: a push response has made
a push an outgoing stream, or it has counted an outgoing stream again. -/
theorem Booked.openAfterHeaders (h : o.Booked extra) (hx : o.session.getStream id = some x)
    (cat : HeadersCat) :
    (cat = .pushResponse → (o.session.info x).push = true ∧ o.session.isMyStreamId id = true →
      (o.openAfterHeaders x cat).Booked extra) ∧
    (cat = .pushResponse → (o.session.info x).push = false →
      (o.openAfterHeaders x cat).Booked (Outbound.bump extra)) ∧
    (cat ≠ .pushResponse → (o.openAfterHeaders x cat).Booked extra) := by
  refine ⟨?_, ?_, fun hcat => h.of_same (openAfterHeaders_same hx hcat)⟩
  · rintro rfl ⟨hpush, hmine⟩
    obtain ⟨chains, h⟩ := h
    refine ⟨chains, h.fulfill hx hpush rfl ?_ ?_ ?_⟩
    all_goals simp [Outbound.openAfterHeaders, Outbound.modifyInfo, Session.modifyInfo, hmine]
  · rintro rfl hpush
    have hidle := (Session.getStream_eq_some_iff.1 hx).2.2
    refine h.bump ?_ rfl
    exact .modifyInfo (f := fun info => { info with state := .opened, push := false })
      { o.session with numOutgoingStreams := o.session.numOutgoingStreams + 1 } x
      ⟨rfl, hpush.symm, iff_of_false (by simp) hidle⟩

/-- Whether the frame is a push response for an open stream that is no promise any more. -/
def Recounts (o : Outbound) (i : ItemPtr) (f : HeadersFrame) : Prop :=
  f.cat = .pushResponse ∧ ∃ x, o.session.getStream (o.item i).streamId = some x ∧
    (o.session.info x).push = false

/-- **HEADERS have been sent.** -/
theorem Booked.headersSent (h : o.Booked extra)
    (hmine : f.cat = .pushResponse → ∀ x, o.session.getStream (o.item i).streamId = some x →
      o.session.isMyStreamId (o.item i).streamId = true)
    (hres : o.headersSent i f env = .ok o') :
    (¬ o.Recounts i f → o'.Booked extra) ∧ (o.Recounts i f → o'.Booked (Outbound.bump extra)) := by
  unfold Outbound.headersSent at hres
  cases hx : o.session.getStream (o.item i).streamId with
  | none =>
    rw [hx] at hres
    cases hres
    refine ⟨fun _ => h, fun ⟨_, x, hx', _⟩ => ?_⟩
    cases hx.symm.trans hx'
  | some x =>
    rw [hx] at hres
    obtain ⟨o3, hclose, hres⟩ := bind_eq_ok.1 hres
    set o1 := if o.session.tree.sched.item x = some i then o.detachItem x else o with ho1
    have hsame : SameBooks o.session o1.session ∧ o1.session.info = o.session.info ∧
        o1.session.getStream (o.item i).streamId = some x ∧
        ∀ id, o1.session.isMyStreamId id = o.session.isMyStreamId id := by
      rw [ho1]
      split_ifs
      · exact ⟨detachItem_same o x, rfl, hx, fun _ => rfl⟩
      · exact ⟨.refl _, rfl, hx, fun _ => rfl⟩
    obtain ⟨hsame, hinfo, hx1, hmine1⟩ := hsame
    -- what follows keeps the books as they are
    have htail : ∀ {extra}, (o1.openAfterHeaders x f.cat).Booked extra → o'.Booked extra := by
      intro extra h2
      have h3 := (h2.of_same (shutWrIf_same _ x f.endStream)).closeStreamIfShutRdwr hclose
      cases hres
      split_ifs
      · exact h3.submit _
      · exact h3
    obtain ⟨hfulfil, hagain, hother⟩ := (h.of_same hsame).openAfterHeaders hx1 f.cat
    rw [hinfo, hmine1] at hfulfil
    rw [hinfo] at hagain
    constructor
    · intro hnot
      refine htail ?_
      by_cases hcat : f.cat = .pushResponse
      · refine hfulfil hcat ⟨?_, hmine hcat x hx⟩
        by_contra hpush
        exact hnot ⟨hcat, x, hx, by simpa using hpush⟩
      · exact hother hcat
    · rintro ⟨hcat, y, hy, hpush⟩
      cases hx.symm.trans hy
      exact htail (hagain hcat hpush)

theorem Booked.dataSent {f : DataFrame} (h : o.Booked extra)
    (hres : o.dataSent i f env = .ok o') : o'.Booked extra := by
  unfold Outbound.dataSent at hres
  split at hres
  · cases hres
    exact h.submitAll _
  · next x _ =>
    split_ifs at hres
    · exact (((h.of_same (detachItem_same o x)).submitAll _).of_same
        (shutWrIf_same _ x true)).closeStreamIfShutRdwr hres
    · cases hres
      exact (h.of_same (detachItem_same o x)).submitAll _
    · cases hres
      exact h.submitAll _

/-- The event looks at a push response once more that has been sent. -/
def Recounting (o : Outbound) : Event → Prop
  | .frameSent1 _ => o.state = .sendData ∧ ∃ i f, o.session.items.aob = some i ∧
      (o.item i).frame = .headers f ∧ o.Recounts i f
  | _ => False

/-- The event opens a stream with the object of an idle stream that is not the last of its
chain. -/
def Cutting (o : Outbound) : Event → Prop
  | .session e => external e = true ∧ ¬ o.session.ReuseSafe e
  | .popItem env => o.state = .popItem ∧ ∃ o1 i, o.popNextObItem env = (o1, some i) ∧ o1.Cuts i
  | _ => False

/-- Callbacks leave the frame and its stream as they are. -/
theorem recounts_submitAll (h : o.session.Tabled) (hi : i < o.allocated)
    (l : List Submission) : (o.submitAll l).Recounts i f ↔ o.Recounts i f := by
  have hsame := submitAll_same o l
  have hid : ((o.submitAll l).item i).streamId = (o.item i).streamId :=
    ((submitAll_grows h l).item i hi).alike.1
  unfold Recounts
  rw [hid, hsame.getStream]
  simp only [(hsame.info _).push]

/-- A push response is sent on a stream of this side. -/
def PushesMine (o : Outbound) : Prop := ∀ i f, o.session.items.aob = some i →
  (o.item i).frame = .headers f → f.cat = .pushResponse →
    o.session.isMyStreamId (o.item i).streamId = true

/-- **`session_after_frame_sent1`.** -/
theorem Booked.afterFrameSent1 (h : o.Booked extra) (hs : o.Sound) (hmine : o.PushesMine)
    (hres : o.afterFrameSent1 env = .ok o') :
    ((∀ i f, o.session.items.aob = some i → (o.item i).frame = .headers f → ¬ o.Recounts i f) →
      o'.Booked extra) ∧
    ∀ i f, o.session.items.aob = some i → (o.item i).frame = .headers f → o.Recounts i f →
      o'.Booked (Outbound.bump extra) := by
  unfold Outbound.afterFrameSent1 at hres
  cases haob : o.session.items.aob with
  | none =>
    rw [haob] at hres
    cases hres
    exact ⟨fun _ => h, nofun⟩
  | some i =>
    rw [haob] at hres
    dsimp only at hres
    -- only push responses are counted
    have hplain : (∀ f, (o.item i).frame ≠ .headers f) → o'.Booked extra → ((∀ j f,
        some i = some j → (o.item j).frame = .headers f → ¬ o.Recounts j f) → o'.Booked extra) ∧
        ∀ j f, some i = some j → (o.item j).frame = .headers f → o.Recounts j f →
          o'.Booked (Outbound.bump extra) := by
      intro hne h'
      refine ⟨fun _ => h', fun j f hj hf => ?_⟩
      cases hj
      exact absurd hf (hne f)
    have hsub := h.submitAll env.onFrameSend
    cases hframe : (o.item i).frame with
    | headers f =>
      rw [hframe] at hres
      have hlt := hs.active.lt i haob
      have hiff := recounts_submitAll (f := f) hs.tabled hlt env.onFrameSend
      have hid : ((o.submitAll env.onFrameSend).item i).streamId = (o.item i).streamId :=
        ((submitAll_grows hs.tabled env.onFrameSend).item i hlt).alike.1
      have hserver := (submitAll_same o env.onFrameSend).server
      obtain ⟨hnot, hagain⟩ := hsub.headersSent (fun hcat x _ => by
        rw [hid, isMyStreamId_congr hserver]
        exact hmine i f haob hframe hcat) hres
      rw [hiff] at hnot hagain
      refine ⟨fun hall => hnot (hall i f rfl hframe), fun j g hj hg hrec => ?_⟩
      cases hj
      cases hframe.symm.trans hg
      exact hagain hrec
    | data f =>
      rw [hframe] at hres
      exact hplain (by simp [hframe]) (h.dataSent hres)
    | priority pri =>
      rw [hframe] at hres
      obtain ⟨s, hstep, hres⟩ := bind_eq_ok.1 hres
      cases hres
      exact hplain (by simp [hframe]) (hsub.sessionStep (fun c hc => by cases hc) hstep)
    | rstStream =>
      rw [hframe] at hres
      exact hplain (by simp [hframe]) (hsub.closeStream hres)
    | goaway n notice term =>
      rw [hframe] at hres
      refine hplain (by simp [hframe]) ?_
      dsimp only at hres
      split_ifs at hres
      · cases hres
        exact hsub
      · have hflag : Booked { o.submitAll env.onFrameSend with
            session := { (o.submitAll env.onFrameSend).session with goawaySent := true }
            termSent := (o.submitAll env.onFrameSend).termSent || term } extra :=
          hsub.of_same (.of_eq rfl rfl)
        exact hflag.closeAll hres
    | settings | pushPromise | ping | windowUpdate =>
      rw [hframe] at hres
      cases hres
      exact hplain (by simp [hframe]) hsub

theorem afterFrameSent2_same (o : Outbound) : SameBooks o.session o.afterFrameSent2.session := by
  unfold afterFrameSent2
  split
  · exact .refl _
  split
  · split_ifs
    · exact activeOutboundItemReset_same o
    · dsimp only
      split
      · have haob : SameBooks o.session (o.setAob none).session := .of_eq rfl rfl
        exact haob.trans (activeOutboundItemReset_same _)
      · exact (detachItem_same ..).trans (activeOutboundItemReset_same _)
      · exact activeOutboundItemReset_same o
  · exact activeOutboundItemReset_same o

theorem Booked.sendNoCopy {r : SendDataResult} (h : o.Booked extra) (hs : o.Sound)
    (hmine : o.PushesMine) (hstate : o.state = .sendNoCopy)
    (hres : o.sendNoCopy env r = .ok o') : o'.Booked extra := by
  unfold Outbound.sendNoCopy at hres
  split at hres
  · cases hres
    exact h
  · next i haob =>
    split at hres
    · cases hres
      exact h.of_same (activeOutboundItemReset_same o)
    · next x _ =>
      split at hres
      · cases hres
        exact h
      · cases hres
        exact h.of_same ((detachItem_same o x).trans ((addRstStream_submitted ..).books.trans
          (activeOutboundItemReset_same _)))
      obtain ⟨o1, hsent, hres⟩ := bind_eq_ok.1 hres
      cases hres
      have hkind := hs.active.noCopy hstate i haob
      refine Booked.of_same ((h.afterFrameSent1 hs hmine hsent).1 fun j f hj hf => ?_)
        (afterFrameSent2_same o1)
      cases haob.symm.trans hj
      rw [OutboundItem.kind, hf] at hkind
      cases hkind

/-- **One event** keeps the books, or counts an outgoing stream again. -/
theorem Booked.step {e : Event} (h : o.Booked extra) (hs : o.Sound) (hmine : o.PushesMine)
    (hcut : ¬ o.Cutting e) (hres : o.step e = .ok o') :
    (¬ o.Recounting e → o'.Booked extra) ∧ (o.Recounting e → o'.Booked (Outbound.bump extra)) := by
  cases e with
  | frameSent1 env =>
    unfold Outbound.step at hres
    dsimp only at hres
    split_ifs at hres with hstate
    · obtain ⟨o1, hsent, rfl⟩ := exists_of_map_eq_ok hres
      obtain ⟨hnot, hagain⟩ := h.afterFrameSent1 hs hmine hsent
      refine ⟨fun hno => ?_, ?_⟩
      · exact (hnot fun i f hi hf hrec => hno ⟨hstate, i, f, hi, hf, hrec⟩).of_same (.of_eq rfl rfl)
      · rintro ⟨-, i, f, hi, hf, hrec⟩
        exact (hagain i f hi hf hrec).of_same (.of_eq rfl rfl)
    · cases hres
      exact ⟨fun _ => h, fun hrec => absurd hrec.1 hstate⟩
  | submit sub =>
    cases hres
    exact ⟨fun _ => h.submit sub, nofun⟩
  | session e =>
    refine ⟨fun _ => ?_, nofun⟩
    unfold Outbound.step at hres
    dsimp only at hres
    split_ifs at hres with hext
    · obtain ⟨s, hstep, rfl⟩ := exists_of_map_eq_ok hres
      exact h.sessionStep (not_not.1 fun hreuse => hcut ⟨hext, hreuse⟩) hstep
    · cases hres
      exact h
  | close env id => exact ⟨fun _ => h.closeStream hres, nofun⟩
  | recvGoaway env n =>
    refine ⟨fun _ => ?_, nofun⟩
    have hflag : Booked { o with goawayRecv := true } extra := h
    exact hflag.closeAll hres
  | popItem env =>
    refine ⟨fun _ => ?_, nofun⟩
    unfold Outbound.step at hres
    dsimp only at hres
    split_ifs at hres with hstate
    · exact h.popItem (fun o1 i hpop hcuts => hcut ⟨hstate, o1, i, hpop, hcuts⟩) hres
    · cases hres
      exact h
  | frameSent2 =>
    refine ⟨fun _ => ?_, nofun⟩
    cases hres
    split_ifs
    · exact h.of_same (afterFrameSent2_same o)
    · exact h
  | sendNoCopy env r =>
    refine ⟨fun _ => ?_, nofun⟩
    unfold Outbound.step at hres
    dsimp only at hres
    split_ifs at hres with hstate
    · exact h.sendNoCopy hs hmine hstate hres
    · cases hres
      exact h

/-! ## Losing streams -/

theorem short_prepFailed {e : LibError} (h : o.session.Short)
    (hres : o.prepFailed i e env = .ok o') : o'.session.Short :=
  prepFailed_rule (fun hs h => h.of_streams hs.streams) (fun _ hfin h => h.finishClose hfin) h hres

theorem Booked.sessionStep_short {e : Session.Event} (h : o.Booked extra)
    (hreuse : ¬ o.session.ReuseSafe e) (hres : o.session.step e = .ok s) : s.Short := by
  obtain ⟨chains, h⟩ := h
  exact h.step_short hreuse hres

/-- An item that opens a stream and cuts a chain. -/
theorem Booked.prepFrame_short {r : PrepResult} (h : o.Booked extra) (hcut : o.Cuts i)
    (hres : o.prepFrame i env = .ok (o', r)) : o'.session.Short ∧ r ≠ .deferred := by
  unfold Outbound.prepFrame at hres
  unfold Cuts at hcut
  have hpack : packHeaders env ≠ .deferred := by
    unfold packHeaders
    split_ifs
    all_goals nofun
  cases hframe : (o.item i).frame with
  | headers f =>
    rw [hframe] at hres hcut
    obtain ⟨hcat, hsize, hreuse⟩ := hcut
    dsimp only [Outbound.prepHeaders] at hres
    rw [if_neg (not_lt.2 hsize), if_pos hcat] at hres
    obtain ⟨s, hstep, hres⟩ := bind_eq_ok.1 hres
    have h1 := h.sessionStep_short hreuse hstep
    dsimp only at hres
    split at hres
    · cases hres
      exact ⟨h1, nofun⟩
    · cases hres
      exact ⟨h1, hpack⟩
  | pushPromise promised nva =>
    rw [hframe] at hres hcut
    obtain ⟨s, hstep, hres⟩ := bind_eq_ok.1 hres
    have h1 := h.sessionStep_short hcut hstep
    dsimp only at hres
    split_ifs at hres
    · cases hres
      exact ⟨h1, nofun⟩
    · split at hres
      · cases hres
        exact ⟨h1, nofun⟩
      · cases hres
        exact ⟨h1, hpack⟩
  | _ =>
    rw [hframe] at hcut
    exact hcut.elim

/-- **One event** that cuts a chain loses streams. -/
theorem Booked.step_short {e : Event} (h : o.Booked extra) (hcut : o.Cutting e)
    (hres : o.step e = .ok o') : o'.session.Short := by
  cases e with
  | session e =>
    obtain ⟨hext, hreuse⟩ := hcut
    unfold Outbound.step at hres
    dsimp only at hres
    rw [if_pos hext] at hres
    cases hstep : o.session.step e with
    | error f =>
      rw [hstep] at hres
      cases hres
    | ok s =>
      rw [hstep] at hres
      cases hres
      exact h.sessionStep_short hreuse hstep
  | popItem env =>
    obtain ⟨hstate, o1, i, hpop, hcut⟩ := hcut
    unfold Outbound.step at hres
    dsimp only at hres
    rw [if_pos hstate, Outbound.popItem, hpop] at hres
    obtain ⟨⟨o2, r⟩, hprep, hres⟩ := bind_eq_ok.1 hres
    obtain ⟨h2, hr⟩ := (h.of_same (popNextObItem_same hpop)).prepFrame_short hcut hprep
    dsimp only at hres
    split at hres
    · exact absurd rfl hr
    · exact short_prepFailed h2 hres
    · cases hres
      exact h2.of_streams rfl
  | _ => exact hcut.elim

/-! ## Promised streams -/

/-- A stream in the state RESERVED is a promise, and this side sends nothing on a stream that
the peer has promised. -/
def Promised (mine : Bool) (info : StreamInfo) : Prop :=
  (info.state = .reserved → info.push = true) ∧
    (mine = false → info.push = true → info.shutWr = true)

theorem MayClose.promised (h : MayClose a b) (ha : Promised mine a) : Promised mine b := by
  rcases h with rfl | rfl
  · exact ha
  · exact ⟨nofun, ha.2⟩

theorem Marks.promised {frame : Frame} (h : Marks frame a b) (ha : Promised mine a) :
    Promised mine b := by
  refine ⟨fun hb => ?_, fun hmine hb => h.1 (.inl (ha.2 hmine (h.push hb)))⟩
  rw [(h.reserved hb).2]
  exact ha.1 (h.reserved hb).1

theorem openedInfo_promised (s : Session) (id : ℕ) (st : StreamState) :
    Promised (s.isMyStreamId id) (s.openedInfo id st) := by
  constructor
  · simp [Session.openedInfo]
  · intro hmine
    simp [Session.openedInfo, hmine]

/-- Lawful events make no stream RESERVED. -/
theorem Touches.promised
    (h : Session.Touches ev id a b) (hlaw : o.Lawful ev) (ha : Promised mine a) :
    Promised mine b := by
  rcases h with rfl | h
  · exact ha
  cases ev with
  | setState id' st =>
    obtain ⟨rfl, rfl⟩ := h
    obtain ⟨-, rfl, -⟩ := hlaw
    exact ⟨nofun, ha.2⟩
  | shutdown id' rd wr =>
    subst h
    refine ⟨ha.1, fun hmine hpush => ?_⟩
    simp [ha.2 hmine hpush]
  | fulfillPush id' =>
    obtain ⟨rfl, -, rfl⟩ := h
    exact ⟨nofun, nofun⟩
  | _ => exact h.elim

/-- What is known of the streams that can be found and of a push response that is being sent. -/
structure Promises (o : Outbound) : Prop where
  found : ∀ ⦃id x⦄, o.session.getStream id = some x →
    Promised (o.session.isMyStreamId id) (o.session.info x)
  pushes : o.PushesMine

theorem Keeps.pushesMine (h : Keeps o o') (ha : o.Active) (hp : o.PushesMine) : o'.PushesMine := by
  intro i f haob hf hcat
  rw [h.aob] at haob
  have hc := h.item i (ha.lt i haob)
  rw [isMyStreamId_congr h.server, hc.streamId]
  -- a request may have been canceled, and a push response is no request
  rcases hc with hsame | ⟨g, hg, hsame⟩
  · exact hp i f haob (hsame ▸ hf) hcat
  · rw [hsame] at hf
    cases hf
    exact hp i g haob hg hcat

theorem Grows.promises (h : Grows o o') (ha : o.Active) (hp : o.Promises) : o'.Promises where
  found id x hx := by
    rw [isMyStreamId_congr h.server]
    exact (h.entry hx).2.promised (hp.found (h.entry hx).1)
  pushes := h.toKeeps.pushesMine ha hp.pushes

theorem Promises.cleared (hp : o.Promises) : o.cleared.Promises := ⟨hp.found, nofun⟩

theorem Sends.promises {frame : Frame} (h : Sends o o' id frame) (ha : o.Active)
    (hp : o.Promises) : o'.Promises where
  found id' x hx := by
    rw [isMyStreamId_congr h.server]
    obtain ⟨hold, ⟨-, hinfo⟩ | ⟨-, hmarks⟩⟩ := h.entry hx
    · exact hinfo.promised (hp.found hold)
    · exact Marks.promised hmarks (hp.found hold)
  pushes := h.toKeeps.pushesMine ha hp.pushes

theorem outside_promises (h : Session.Outside o.session s ev)
    (hlaw : o.Lawful ev) (hp : o.Promises) : Promises { o with session := s } where
  found id x hx := by
    dsimp only
    rw [isMyStreamId_congr h.server]
    rcases h.entry hx with ⟨hget, htouch⟩ | ⟨-, -, -, -, hshut, hpush⟩ | ⟨hmine, -, -, -, hne, -⟩
    · exact Touches.promised htouch hlaw (hp.found hget)
    · exact ⟨hpush, fun _ => hshut⟩
    · rw [hmine]
      exact ⟨fun hst => absurd hst hne, nofun⟩
  pushes i f haob hf hcat := by
    dsimp only
    rw [isMyStreamId_congr h.server]
    exact hp.pushes i f ((congrArg ItemStore.aob h.items).symm.trans haob) hf hcat

/-- The streams after an item was popped and prepared. -/
theorem Prepares.found_promised {opened : Option (ℕ × StreamState)} (hpop : Popped o o1 i)
    (h : Prepares o1 o2 i opened) (hp : o.Promises) ⦃id x⦄
    (hx : o2.session.getStream id = some x) :
    Promised (o2.session.isMyStreamId id) (o2.session.info x) := by
  rw [isMyStreamId_congr h.server]
  rcases h.entry hx with ⟨hget, hinfo⟩ | ⟨st, -, hinfo⟩
  · rw [hpop.getStream] at hget
    have hold := hp.found hget
    rw [hpop.eq] at hinfo ⊢
    exact hinfo.promised hold
  · rw [hinfo]
    exact openedInfo_promised ..

/-- A push response is only sent on a stream that this side has promised. -/
theorem ReadyFor.pushesMine (hpop : Popped o o1 i) (h : ReadyFor o1 o2 i (o1.item i).frame)
    (hprep : Prepares o1 o2 i (opensStream o1 i)) (hp : o.Promises)
    (hf : (o2.item i).frame = .headers f) (hcat : f.cat = .pushResponse) :
    o2.session.isMyStreamId (o2.item i).streamId = true := by
  have hkind := hprep.self.2
  rw [isMyStreamId_congr hprep.server, hprep.self.1]
  cases hframe : (o1.item i).frame with
  | headers g =>
    rw [hframe] at h
    by_cases hreq : g.cat = .request
    · simp only [ReadyFor, hreq, if_true] at h
      rw [h.1, hframe] at hf
      cases hf
      cases hreq.symm.trans hcat
    simp only [ReadyFor, hreq, if_false] at h
    obtain ⟨⟨cat, -, hsame, hres⟩, x, hx, hshut⟩ := h
    rw [hsame] at hf
    cases hf
    have hstate := hres hcat x hx
    rw [hpop.getStream] at hx
    obtain ⟨hreserved, hpeer⟩ := hp.found hx
    have hinfo : o1.session.info = o.session.info := by rw [hpop.eq]
    have hserver : o1.session.server = o.session.server := by rw [hpop.eq]
    rw [hinfo] at hstate hshut
    rw [isMyStreamId_congr hserver]
    by_contra hmine
    have hshut' := hpeer (by simpa using hmine) (hreserved hstate)
    cases hshut.symm.trans hshut'
  | _ =>
    simp only [OutboundItem.kind, hf, hframe, hcat] at hkind
    cases hkind

end Outbound

namespace Recorded

open Outbound

variable {r r' : Recorded} {e : Outbound.Event}

/-- **Every turn** keeps promised streams apart. -/
theorem Turn.promises (ht : Turn r e r') (hs : r.out.Sound) (hlaw : LawfulEvent r e)
    (hp : r.out.Promises) : r'.out.Promises := by
  cases ht with
  | grows hg hw => exact hg.promises hs.active hp
  | outside ev s he ho hout hw =>
    subst he
    rw [hout]
    exact outside_promises ho hlaw hp
  | activates o1 o2 i env he hnext hprep hready ho hw =>
    rw [ho]
    have hfound := hprep.prep.found_promised hprep.pop hp
    refine ⟨hfound, ?_⟩
    rintro j f ⟨⟩ hframe hcat
    have hmine := ReadyFor.pushesMine hprep.pop hready hprep.prep hp hframe hcat
    exact hmine
  | drops o1 o2 i hprep hgoaway hd hw =>
    have hfound := hprep.prep.found_promised hprep.pop hp
    exact hd.1.promises (cleared_sound hprep.prep.tabled hprep.filed).active ⟨hfound, nofun⟩
  | sends o1 i h =>
    have h1 := h.sends.promises hs.active hp
    rcases h.out with ⟨-, ho⟩ | ⟨-, ho⟩
    · rw [ho]
      exact ⟨h1.found, h1.pushes⟩
    · have hs1 := h.sends.toKeeps.sound hs
      exact ho.promises (cleared_sound hs1.tabled hs1.filed).active h1.cleared
  | clears hg hsent hw =>
    exact hg.promises (cleared_sound hs.tabled hs.filed).active hp.cleared

theorem new_booked (server : Bool) (n p m : ℕ) : (Recorded.new server n p m).out.Booked 0 := by
  have hinv := Session.new_inv server n p m
  have hnot : ∀ x, ¬ Holds (fun _ => ([] : List Ptr)) x := fun x ⟨_, hx⟩ => List.not_mem_nil hx
  refine ⟨fun _ => [], ?_⟩
  constructor
  case linked => exact hinv.linked
  case size => exact hinv.size
  case bound => exact ⟨hinv.tree.root_lt, fun x hx => absurd hx (hnot x)⟩
  case hole => nofun
  case idle_mem => exact fun x => iff_of_false List.not_mem_nil fun hx => hnot x hx.1
  case idle_open => exact fun x hx => absurd hx (hnot x)
  case idle_nodup => exact List.nodup_nil
  case idle_num => rfl
  case closed_mem => exact fun x => iff_of_false List.not_mem_nil fun hx => hnot x hx.1
  case closed_nodup => exact List.nodup_nil
  case closed_num => rfl
  case count =>
    intro k
    refine ⟨0, ?_, by cases k <;> rfl⟩
    rw [Nat.cast_zero, Set.encard_eq_zero, Set.eq_empty_iff_forall_notMem]
    exact fun x hx => hnot x hx.1

theorem new_promises (server : Bool) (n p m : ℕ) : (Recorded.new server n p m).out.Promises :=
  ⟨fun id x hx => absurd hx (new_getStream server n p m id x), nofun⟩

/-- The books are right in runs that lose no stream and count none twice. -/
theorem Reaches.books (h : Reaches (fun r e => LawfulEvent r e ∧ ¬ r.out.Cutting e ∧
      ¬ r.out.Recounting e) r) : r.out.Booked 0 ∧ r.out.Promises := by
  induction h with
  | new server n p m => exact ⟨new_booked server n p m, new_promises server n p m⟩
  | step hr hC hres ih =>
    have hs := hr.sound
    exact ⟨(ih.1.step hs ih.2.pushes hC.2.1 (step_eq_ok hres).1).1 hC.2.2,
      (turn_of_step hs hres).promises hs hC.1 ih.2⟩

/-- **The counters of a session** are right in every run in which no stream is opened with the
object of an idle stream that is not the last of its chain, and in which no push response is
counted again; the first such event makes them wrong. -/
theorem accounted_iff_of_reaches (h : Reaches (fun r e => LawfulEvent r e ∧ ¬ r.out.Cutting e ∧
      ¬ r.out.Recounting e) r) :
    r.out.session.Accounted ∧ ∀ e r', LawfulEvent r e → r.step e = .ok r' →
      (r'.out.session.Accounted ↔ ¬ r.out.Cutting e ∧ ¬ r.out.Recounting e) := by
  obtain ⟨hbook, hprom⟩ := h.books
  have hs := h.sound
  refine ⟨hbook.accounted, fun e r' _ hres => ⟨fun hacc => ⟨fun hcut => ?_, fun hrec => ?_⟩,
    fun hsafe => ?_⟩⟩
  · exact (hbook.step_short hcut (step_eq_ok hres).1).not_accounted hacc
  · have hcut : ¬ r.out.Cutting e := fun hcut => by
      cases e <;> first | exact hcut | exact hrec
    obtain ⟨chains, hbook'⟩ := (hbook.step hs hprom.pushes hcut (step_eq_ok hres).1).2 hrec
    exact hbook'.not_accounted (k := .outgoing) (by simp [Outbound.bump]) hacc
  · exact ((hbook.step hs hprom.pushes hsafe.1 (step_eq_ok hres).1).1 hsafe.2).accounted

/-- No stream is set to a state, and no push response is sent. -/
def pushesNothing (r : Recorded) : Outbound.Event → Bool
  | .session (.setState _ _) => false
  | .session (.fulfillPush _) => false
  | .frameSent1 _ => r.out.session.items.aob.all fun i =>
    match (r.out.item i).frame with
    | .headers f => f.cat ≠ .pushResponse
    | _ => true
  | _ => true

/-- A check for the three conditions. -/
def countsOnce (r : Recorded) (e : Outbound.Event) : Bool :=
  r.out.packsSafely e && r.pushesNothing e

theorem counted_of_countsOnce {e : Outbound.Event} (h : r.countsOnce e = true) :
    LawfulEvent r e ∧ ¬ r.out.Cutting e ∧ ¬ r.out.Recounting e := by
  rw [countsOnce, Bool.and_eq_true] at h
  obtain ⟨hpacks, h⟩ := h
  have hreuse := (safe_of_packsSafely hpacks).1
  cases e with
  | session ev =>
    refine ⟨?_, fun hcut => hcut.2 (hreuse hcut.1), id⟩
    cases ev <;> trivial
  | popItem env =>
    refine ⟨trivial, ?_, id⟩
    rintro ⟨hstate, o1, i, hpop, hcuts⟩
    have hopens := hreuse hstate o1 i hpop
    unfold OpensSafely at hopens
    unfold Outbound.Cuts at hcuts
    cases hframe : (o1.item i).frame with
    | headers f =>
      rw [hframe] at hcuts hopens
      exact hcuts.2.2 (hopens hcuts.1)
    | pushPromise promised nva =>
      rw [hframe] at hcuts hopens
      exact hcuts hopens
    | _ =>
      rw [hframe] at hcuts
      exact hcuts
  | frameSent1 env =>
    refine ⟨trivial, id, ?_⟩
    rintro ⟨-, i, f, haob, hframe, hcat, -⟩
    simp [pushesNothing, haob, hframe, hcat] at h
  | _ => exact ⟨trivial, id, id⟩

/-- A server has an idle stream, a stream that its response has closed, and an open stream. -/
theorem response_accounted : ∃ r, (Recorded.new true 100 100 200).run
      ([.session (.recvPriority 7 .default), .session (.recvHeaders 1 .default),
        .session (.shutdown 1 true false), .session (.recvHeaders 3 (.dependsOn 7)),
        .submit (.response 1 [] false)] ++ quietTurn) = .ok r ∧
    r.out.session.numIncomingStreams = 1 ∧ r.out.session.closedStreams = [2] ∧
    r.out.session.idleStreams = [1] ∧ r.out.session.Accounted := by
  refine exists_of_eval (fun r => r.out.session.numIncomingStreams = 1 ∧
    r.out.session.closedStreams = [2] ∧ r.out.session.idleStreams = [1])
    (reaches_of_guardedRun (c := countsOnce) fun _ => counted_of_countsOnce) (by decide +kernel)
    fun r hreach hobs => ?_
  exact ⟨hobs.1, hobs.2.1, hobs.2.2, (accounted_iff_of_reaches hreach).1⟩

/-- **An open stream is lost.**  The ids 1 and 551 have the same hash.  After the request on
stream 1 and a PRIORITY for stream 551, the request on stream 551 takes stream 1 out of the
table; it is counted still. -/
theorem recvHeaders_miscounts : ∃ r, (Recorded.new true 100 100 200).run
      [.session (.recvHeaders 1 .default), .session (.recvPriority 551 .default),
        .session (.recvHeaders 551 .default)] = .ok r ∧
    r.out.session.numIncomingStreams = 2 ∧ r.out.session.numActiveStreams = 2 ∧
    r.out.session.streams.entries.length = 1 ∧ ¬ r.out.session.Accounted := by
  have heval : ((Recorded.new true 100 100 200).step (.session (.recvHeaders 1 .default))).map
      (fun r1 => (r1.step (.session (.recvPriority 551 .default))).map fun r2 =>
        (r2.step (.session (.recvHeaders 551 .default))).map fun r3 =>
          decide (r3.out.session.numIncomingStreams = 2 ∧ r3.out.session.numActiveStreams = 2 ∧
            r3.out.session.streams.size = 2 ∧ r3.out.session.streams.entries.length = 1)) =
      .ok (.ok (.ok true)) := by decide +kernel
  obtain ⟨r1, h₁, heval⟩ := exists_of_map_eq_ok heval
  obtain ⟨r2, h₂, heval⟩ := exists_of_map_eq_ok heval
  obtain ⟨r3, h₃, hobs⟩ := exists_of_map_eq_ok heval
  rw [decide_eq_true_eq] at hobs
  obtain ⟨hin, hact, hsize, hlen⟩ := hobs
  refine ⟨r3, ?_, hin, hact, hlen, fun hacc => ?_⟩
  · simp [Recorded.run, List.foldlM, h₁, h₂, h₃, bind, Except.bind, pure, Except.pure]
  · have hr1 := Reaches.step (C := fun _ _ => True) (.new true 100 100 200) trivial h₁
    have hr3 := (hr1.step trivial h₂).step trivial h₃
    have hentries := hacc.entries_length hr3.sound.tabled
    omega

end Recorded

end Nghttp2
