/-
# RST_STREAM for streams that were not opened

A client must not send RST_STREAM for an idle stream.  `nghttp2_session_add_rst_stream`
looks for the request in `ob_syn` and cancels it there; but when the request has been cancelled
already, or was given up when it was popped, it queues RST_STREAM.

* `NoEarlyReset` says that RST_STREAM comes after the HEADERS that open its stream, among the
  frames that were written, that is being sent and that wait in `ob_reg`;
* a request that has been cancelled is never written, and the others in the order of their ids.
-/
import Nghttp2.NewItems
import Nghttp2.StreamOrder

namespace Nghttp2

/-- The HEADERS that open the stream are among the frames. -/
def HasRequest (l : List WireFrame) (id : ℕ) : Prop := ∃ endStream, .headers id true endStream ∈ l

/-- RST_STREAM for a stream of the client comes after the HEADERS that open the stream. -/
def OpensFirst (l : List WireFrame) : Prop :=
  ∀ l₁ id l₂, l = l₁ ++ .rstStream id :: l₂ → id % 2 = 1 → HasRequest l₁ id

variable {l l' : List WireFrame}

/-- More frames. -/
theorem HasRequest.mono {id : ℕ} (h : HasRequest l id) (hl : l ⊆ l') : HasRequest l' id := by
  obtain ⟨e, hmem⟩ := h
  exact ⟨e, hl hmem⟩

/-- No frames. -/
theorem OpensFirst.nil : OpensFirst [] := by
  intro l1 id l2 hl
  cases l1 with
  | nil => cases hl
  | cons => cases hl

/-- The frames up to some place. -/
theorem OpensFirst.of_append (h : OpensFirst (l ++ l')) : OpensFirst l :=
  fun l1 id l2 hl => h l1 id (l2 ++ l') (by rw [hl]; simp)

/-- One more frame. -/
theorem OpensFirst.snoc {f : WireFrame} (h : OpensFirst l)
    (hf : ∀ id, f = .rstStream id → id % 2 = 1 → HasRequest l id) : OpensFirst (l ++ [f]) := by
  intro l1 id l2 hl
  rcases split_concat hl with ⟨rfl, hfid⟩ | ⟨l3, hl⟩
  · exact hf id hfid.symm
  · exact h l1 id l3 hl

/-! ## What an event does to the queues -/

namespace Outbound

variable {o o' o1 o2 : Outbound} {i : ItemPtr}

/-- The items that wait have waited before or are new, and old items keep their kinds and stay
cancelled. -/
structure Inherits (o o' : Outbound) : Prop where
  allocated : o.allocated ≤ o'.allocated
  item : ∀ j < o.allocated, Alike (o.item j) (o'.item j) ∧
    ((o.item j).canceled = true → (o'.item j).canceled = true)
  reg : ∀ j ∈ o'.obReg, j ∈ o.obReg ∨ o.allocated ≤ j
  syn : ∀ j ∈ o'.obSyn, j ∈ o.obSyn ∨ o.allocated ≤ j
  server : o'.session.server = o.session.server

/-- Two changes, one after the other. -/
theorem Inherits.trans (h : Inherits o o1) (h' : Inherits o1 o2) : Inherits o o2 where
  allocated := h.allocated.trans h'.allocated
  item j hj := by
    have h1 := h'.item j (hj.trans_le h.allocated)
    exact ⟨(h.item j hj).1.trans h1.1, fun hc => h1.2 ((h.item j hj).2 hc)⟩
  reg j hj := by
    rcases h'.reg j hj with hj | hj
    · exact h.reg j hj
    · exact .inr (h.allocated.trans hj)
  syn j hj := by
    rcases h'.syn j hj with hj | hj
    · exact h.syn j hj
    · exact .inr (h.allocated.trans hj)
  server := h'.server.trans h.server

/-- What is appended is new. -/
theorem mem_of_append {n n' : ℕ} {l l' : List ItemPtr} (h : Appends n n' l l') :
    ∀ j ∈ l', j ∈ l ∨ n ≤ j := by
  obtain ⟨new, rfl, hnew⟩ := h
  intro j hj
  rcases List.mem_append.1 hj with hj | hj
  · exact .inl hj
  · exact .inr (hnew j hj).1

/-- Frames are submitted. -/
theorem Keeps.inherits (h : Keeps o o') : Inherits o o' where
  allocated := h.allocated
  item j hj := ⟨(h.item j hj).alike, (h.item j hj).canceled⟩
  reg := mem_of_append h.reg
  syn := mem_of_append h.syn
  server := h.server

/-- An item is prepared. -/
theorem Prepares.inherits {opened : Option (ℕ × StreamState)} (h : Prepares o o' i opened) :
    Inherits o o' where
  allocated := h.allocated
  item j hj := by
    by_cases hji : j = i
    · rw [hji]
      exact ⟨h.self, h.canceled⟩
    · exact ⟨(h.item j hj hji).alike, (h.item j hj hji).canceled⟩
  reg := mem_of_append h.reg
  syn := mem_of_append h.syn
  server := h.server

/-- An item leaves its queue. -/
theorem Popped.inherits (h : Popped o o1 i) : Inherits o o1 := by
  have halloc : o1.allocated = o.allocated := by rw [h.eq]
  obtain ⟨-, hr, hs⟩ := h.sublist
  exact ⟨halloc.ge, fun j _ => by rw [h.item]; exact ⟨Alike.refl _, (·)⟩,
    fun j hj => .inl (hr.subset hj), fun j hj => .inl (hs.subset hj), h.sameIds.server⟩

end Outbound

namespace Recorded

open Outbound

variable {r r' : Recorded} {e : Outbound.Event}

/-- **Every turn** only adds items. -/
theorem Turn.inherits (h : Turn r e r') (hs : r.out.Sound) : Inherits r.out r'.out :=
  h.rule hs (P := Inherits r.out) (Grows.refl hs.tabled).toKeeps.inherits
    (fun _ _ _ h => { h with }) (fun _ hg h => h.trans hg.toKeeps.inherits)
    (fun _ _ _ h => ⟨le_rfl, fun _ _ => ⟨Alike.refl _, (·)⟩, fun _ hj => .inl hj,
      fun _ hj => .inl hj, h.server⟩)
    (fun _ _ _ h => h.pop.inherits.trans h.prep.inherits)
    (fun _ _ h => h.sends.toKeeps.inherits)

/-! ## What an event does to the frames -/

/-- What an event does to the frames that have been committed to: nothing, or one more frame is
committed to, or DATA that was to be sent without copying is given up. -/
theorem Turn.committed (h : Turn r e r') (hs : r.out.Sound) : r'.committed = r.committed ∨
    (∃ o1 o2 i env, Popped r.out o1 i ∧ Prepares o1 o2 i (opensStream o1 i) ∧
      ReadyFor o1 o2 i (o1.item i).frame ∧ r'.out = o2.activate i env ∧
      r'.committed = r.committed ++ [(i, (o2.item i).wire)]) ∨
    ∃ i id b, r.committed = r'.committed ++ [(i, .data id b)] := by
  cases h with
  | grows h hw => exact .inl (committed_of_keeps h.toKeeps hs hw)
  | outside ev s he h ho hw => exact .inl (committed_of_outside h ho hw)
  | activates o1 o2 i env he hnext hp hready ho hw =>
    refine .inr (.inl ⟨o1, o2, i, env, hp.pop, hp.prep, hready, ho, ?_⟩)
    rw [committed_of_popItem hs hp.state, Recorded.committed, hw, ho, sending_activate]
  | drops o1 o2 i hp hgoaway h hw =>
    left
    rw [committed_of_popItem hs hp.state, committed_of_cleared h.1 hp.prep.tabled hp.filed, hw]
  | sends o1 i h => exact .inl (h.committed hs)
  | clears h hsent hw =>
    rw [committed_of_cleared h hs.tabled hs.filed, hw, Recorded.committed]
    by_cases hsent' : r.out.sent = true
    · rw [Outbound.sending, if_pos hsent', List.append_nil]
      exact .inl rfl
    have hstate := hsent.resolve_left hsent'
    cases haob : r.out.session.items.aob with
    | none => cases hstate.symm.trans (hs.active.aob.2 haob)
    | some i =>
      obtain ⟨g, hg⟩ := frame_of_kind_data (hs.active.noCopy hstate i haob)
      refine .inr (.inr ⟨i, (r.out.item i).streamId, g.endStream, ?_⟩)
      rw [Outbound.sending, if_neg hsent', haob]
      simp [OutboundItem.wire, hg]

/-! ## RST_STREAM and the request -/

/-- RST_STREAM for a stream of the client comes after the HEADERS that open the stream, and
every RST_STREAM that waits will do so. -/
def NoEarlyReset (r : Recorded) : Prop :=
  OpensFirst r.committedFrames ∧ ∀ i ∈ r.out.obReg, (r.out.item i).kind = .rstStream →
    (r.out.item i).streamId % 2 = 1 → HasRequest r.committedFrames (r.out.item i).streamId

/-- Every RST_STREAM that is new and for a stream of the client is for one whose opening HEADERS
have been written or are being sent. -/
def NewResets (r r' : Recorded) : Prop :=
  ∀ i ∈ r'.out.obReg, r.out.allocated ≤ i → (r'.out.item i).kind = .rstStream →
    (r'.out.item i).streamId % 2 = 1 → HasRequest r'.committedFrames (r'.out.item i).streamId

/-- A request that was committed to stays so. -/
theorem Turn.hasRequest (h : Turn r e r') (hs : r.out.Sound) {id : ℕ}
    (hreq : HasRequest r.committedFrames id) : HasRequest r'.committedFrames id := by
  unfold Recorded.committedFrames at *
  rcases h.committed hs with hc | ⟨o1, o2, i, env, -, -, -, -, hc⟩ | ⟨i, id', b, hc⟩
  · rwa [hc]
  · rw [hc, List.map_append]
    exact hreq.mono (List.subset_append_left ..)
  · rw [hc, List.map_append] at hreq
    obtain ⟨e, hmem⟩ := hreq
    exact ⟨e, by simpa using hmem⟩

/-- RST_STREAM comes from the regular queue. -/
theorem Popped.mem_obReg {o o1 : Outbound} {i : ItemPtr} (h : Popped o o1 i) (hf : o.Filed)
    (hk : (o.item i).kind = .rstStream) : i ∈ o.obReg := by
  rcases (h.origin hf).2 with ⟨hr, -⟩ | ⟨-, -, b, hk'⟩ | ⟨-, hk'⟩
  · simp [hr]
  · cases hk.symm.trans hk'
  · simp [hk] at hk'

/-- **One event.** -/
theorem Turn.noEarlyReset_iff (h : Turn r e r') (hs : r.out.Sound) (hr : NoEarlyReset r) :
    NoEarlyReset r' ↔ NewResets r r' := by
  refine ⟨fun h' i hi _ hk => h'.2 i hi hk, fun hnew => ⟨?_, fun i hi hk hodd => ?_⟩⟩
  · unfold Recorded.committedFrames
    have hfirst := hr.1
    unfold Recorded.committedFrames at hfirst
    rcases h.committed hs with hc | ⟨o1, o2, i, env, hpop, hprep, -, -, hc⟩ | ⟨i, id', b, hc⟩
    · rwa [hc]
    · rw [hc, List.map_append]
      refine hfirst.snoc fun id hid hodd => ?_
      -- RST_STREAM was waiting, so that its HEADERS come before
      obtain ⟨hframe, hstream⟩ := wire_eq_rstStream hid
      have hitem := hpop.item
      have hk2 : (o2.item i).kind = .rstStream := by rw [OutboundItem.kind, hframe]
      have hk : (r.out.item i).kind = .rstStream := by rw [← hitem, ← hprep.self.2, hk2]
      have hid : (r.out.item i).streamId = id := by rw [← hitem, ← hprep.self.1, hstream]
      have hreq := hr.2 i (Popped.mem_obReg hpop hs.filed hk) hk
      rw [hid] at hreq
      exact hreq hodd
    · rw [hc, List.map_append] at hfirst
      exact hfirst.of_append
  · rcases (h.inherits hs).reg i hi with hi' | hge
    · have hitem := ((h.inherits hs).item i (hs.filed.reg i hi').1).1
      rw [hitem.2] at hk
      rw [hitem.1] at hodd ⊢
      exact h.hasRequest hs (hr.2 i hi' hk hodd)
    · exact hnew i hi hge hk hodd

/-! ## Requests that are cancelled -/

/-- Frames have been made from items that exist, and not from requests that wait. -/
structure Unwritten (r : Recorded) : Prop where
  lt : ∀ w ∈ r.committed, w.1 < r.out.allocated
  syn : ∀ j ∈ r.out.obSyn, (r.out.item j).kind = .headers true → ∀ w ∈ r.committed, w.1 ≠ j

/-- A popped request waits no more. -/
theorem Popped.notMem_obSyn {o o1 : Outbound} {i : ItemPtr} (h : Popped o o1 i) (hf : o.Filed)
    (hk : (o.item i).kind = .headers true) : i ∉ o1.obSyn := by
  have hnodup := (List.nodup_append.1 hf.nodup).2.1
  rcases (h.origin hf).2 with ⟨-, -, hk'⟩ | ⟨hs, -, -⟩ | ⟨-, hk'⟩
  · exact absurd hk hk'
  · rw [hs] at hnodup
    exact (List.nodup_cons.1 hnodup).1
  · simp [hk] at hk'

/-- **Every turn** keeps what waits unwritten. -/
theorem Turn.unwritten (h : Turn r e r') (hs : r.out.Sound) (hr : Unwritten r) : Unwritten r' := by
  have hin := h.inherits hs
  -- a request that waits has waited before, or is new
  have hsyn : ∀ j ∈ r'.out.obSyn, (r'.out.item j).kind = .headers true →
      ∀ w ∈ r.committed, w.1 ≠ j := by
    intro j hj hk w hw
    rcases hin.syn j hj with hj' | hge
    · rw [(hin.item j (hs.filed.syn j hj').1).1.2] at hk
      exact hr.syn j hj' hk w hw
    · exact ((hr.lt w hw).trans_le hge).ne
  rcases h.committed hs with hc | ⟨o1, o2, i, env, hpop, hprep, -, ho, hc⟩ | ⟨i, id, b, hc⟩
  · rw [← hc] at hsyn
    exact ⟨fun w hw => (hr.lt w (hc ▸ hw)).trans_le hin.allocated, hsyn⟩
  · have hlt := (hpop.origin hs.filed).1
    constructor
    · intro w hw
      rw [hc, List.mem_append, List.mem_singleton] at hw
      rcases hw with hw | rfl
      · exact (hr.lt w hw).trans_le hin.allocated
      · exact hlt.trans_le hin.allocated
    intro j hj hk w hw
    rw [hc, List.mem_append, List.mem_singleton] at hw
    rcases hw with hw | rfl
    · exact hsyn j hj hk w hw
    · rintro rfl
      rw [(hin.item i hlt).1.2] at hk
      rw [ho] at hj
      have halloc : o1.allocated = r.out.allocated := by rw [hpop.eq]
      rcases hprep.inherits.syn i hj with hj | hge
      · exact Popped.notMem_obSyn hpop hs.filed hk hj
      · exact absurd hlt (not_lt.2 (halloc ▸ hge))
  · have hsub : r'.committed ⊆ r.committed := by
      rw [hc]
      exact List.subset_append_left ..
    exact ⟨fun w hw => (hr.lt w (hsub hw)).trans_le hin.allocated,
      fun j hj hk w hw => hsyn j hj hk w (hsub hw)⟩

/-- The request has been cancelled before it was sent. -/
structure Gone (r : Recorded) (j : ItemPtr) : Prop where
  lt : j < r.out.allocated
  kind : (r.out.item j).kind = .headers true
  canceled : (r.out.item j).canceled = true
  notMem : ∀ w ∈ r.committed, w.1 ≠ j

/-- A canceled request is not sent. -/
theorem ReadyFor.canceled {o o' : Outbound} {i : ItemPtr} (h : ReadyFor o o' i (o.item i).frame)
    (hk : (o.item i).kind = .headers true) : (o.item i).canceled = false := by
  unfold OutboundItem.kind at hk
  unfold OutboundItem.canceled
  cases hframe : (o.item i).frame with
  | headers f =>
    rw [hframe] at h hk
    simp only [FrameKind.headers.injEq, decide_eq_true_eq] at hk
    simp only [ReadyFor, if_pos hk] at h
    exact h.2.1
  | _ => rfl

/-- What is gone stays gone. -/
theorem Turn.gone (h : Turn r e r') (hs : r.out.Sound) {j : ItemPtr} (hj : Gone r j) :
    Gone r' j := by
  obtain ⟨halike, hcancel⟩ := (h.inherits hs).item j hj.lt
  refine ⟨hj.lt.trans_le (h.inherits hs).allocated, halike.2.trans hj.kind, hcancel hj.canceled, ?_⟩
  intro w hw
  rcases h.committed hs with hc | ⟨o1, o2, i, env, hpop, hprep, hready, ho, hc⟩ | ⟨i, id, b, hc⟩
  · exact hj.notMem w (hc ▸ hw)
  · rw [hc, List.mem_append, List.mem_singleton] at hw
    rcases hw with hw | rfl
    · exact hj.notMem w hw
    · rintro rfl
      have hitem := hpop.item
      have hnot := ReadyFor.canceled hready (by rw [hitem]; exact hj.kind)
      rw [hitem, hj.canceled] at hnot
      cases hnot
  · exact hj.notMem w (by rw [hc]; exact List.mem_append_left _ hw)

end Recorded

namespace Outbound

variable {o : Outbound} {id : ℕ} {j : ItemPtr}

/-- A request for the stream waits in `ob_syn` and has not been cancelled. -/
def Pending (o : Outbound) (id : ℕ) : Prop :=
  ∃ j ∈ o.obSyn, (o.item j).kind = .headers true ∧ (o.item j).streamId = id ∧
    (o.item j).canceled = false

/-- A request opens its stream. -/
theorem opens_of_request {it : OutboundItem} (h : it.kind = .headers true) :
    it.opens = some it.streamId := by
  rw [OutboundItem.opens, h]

/-- A request is HEADERS. -/
theorem frame_of_request {it : OutboundItem} (h : it.kind = .headers true) :
    ∃ f, it.frame = .headers f ∧ f.canceled = it.canceled := by
  unfold OutboundItem.kind at h
  cases hframe : it.frame with
  | headers f => exact ⟨f, rfl, by rw [OutboundItem.canceled, hframe]⟩
  | _ =>
    rw [hframe] at h
    cases h

/-- The search in `ob_syn` finds the request. -/
theorem find?_request (hf : o.Filed) (hreq : ∀ i ∈ o.obSyn, (o.item i).kind = .headers true)
    (hj : j ∈ o.obSyn) :
    o.obSyn.find? (fun i => (o.item j).streamId ≤ (o.item i).streamId) = some j := by
  cases hfind : o.obSyn.find? (fun i => (o.item j).streamId ≤ (o.item i).streamId) with
  | none =>
    have hnot := List.find?_eq_none.1 hfind j hj
    simp at hnot
  | some i =>
    obtain ⟨hle, l1, l2, hl, hbefore⟩ := List.find?_eq_some_iff_append.1 hfind
    have hsorted := hf.sorted
    rw [hl] at hj hsorted hreq
    rcases List.mem_append.1 hj with hj1 | hj2
    · simpa using hbefore j hj1
    · rcases List.mem_cons.1 hj2 with rfl | hj2
      · rfl
      · -- the request would come after one with a larger id
        have hlt := (List.pairwise_cons.1 (List.pairwise_append.1 hsorted).2.1).1 j hj2 _ _
          (opens_of_request (hreq i (by simp))) (opens_of_request (hreq j (by simp [hj2])))
        exact absurd (of_decide_eq_true hle) (not_le.2 hlt)

/-- Something can be canceled if a request waits. -/
theorem cancelable_isSome_iff (hf : o.Filed) (hclient : o.session.server = false)
    (hreq : ∀ i ∈ o.obSyn, (o.item i).kind = .headers true) :
    (o.cancelable id).isSome ↔ o.Pending id := by
  constructor
  · intro h
    obtain ⟨⟨i, f⟩, hi⟩ := Option.isSome_iff_exists.1 h
    obtain ⟨hmem, hid, hframe, hcan⟩ := frame_of_cancelable hi
    exact ⟨i, hmem, hreq i hmem, hid, by rw [OutboundItem.canceled, hframe]; exact hcan⟩
  · rintro ⟨j, hj, hk, rfl, hcan⟩
    obtain ⟨f, hframe, hf'⟩ := frame_of_request hk
    have hmem := hf.asks j (List.mem_append_right _ hj) _ (opens_of_request hk)
    unfold Outbound.cancelable
    rw [find?_request hf hreq hj]
    simp [hclient, hf.unsent_mine _ hmem, hf.unsent_lt _ hmem, hframe, hf', hcan]

/-- No stream has been opened for a request that waits. -/
theorem getStream_of_waiting (hf : o.Filed) (hu : o.FoundUsed) (hj : j ∈ o.obSyn)
    (hk : (o.item j).kind = .headers true) : o.session.getStream (o.item j).streamId = none := by
  rw [Option.eq_none_iff_forall_ne_some]
  intro x hx
  have hmem := hf.asks j (List.mem_append_right _ hj) _ (opens_of_request hk)
  exact ((Session.used_own_iff (hf.unsent_mine _ hmem)).1 (hu hx)).2 hmem

/-- The peer has promised the stream. -/
def Reserved (o : Outbound) (id : ℕ) : Prop :=
  ∃ x, o.session.getStream id = some x ∧ o.streamState x = .reserved

/-- HEADERS on a stream that is not reserved do not go to `ob_syn`. -/
theorem submit_obSyn {sub : Submission} (hid : sub.headersId = some id) (h : ¬ o.Reserved id) :
    (o.submit sub).obSyn = o.obSyn := by
  have hitem : ∀ {f : HeadersFrame}, f.cat ≠ .request →
      (o.submitItem id (.headers f)).obSyn = o.obSyn := by
    intro f hcat
    unfold submitItem addItem attach
    have hres : ((o.session.getStream id).any fun x => (o.session.info x).state =
        .reserved) = false := by
      rw [Bool.eq_false_iff]
      exact fun hany => h (((Option.any_eq_true _ _).1 hany).imp fun x hx =>
        ⟨hx.1, of_decide_eq_true hx.2⟩)
    simp only [Function.update_self]
    grind [push, setQueued, freeItem, streamState]
  cases sub with
  | response | headers =>
    cases hid
    simp only [Outbound.submit, submitHeadersShared]
    split_ifs
    · rfl
    · exact hitem (by simp)
  | _ => cases hid

/-- RST_STREAM cancels a request that waits. -/
theorem addRstStream_canceled (hf : o.Filed) (hu : o.FoundUsed) (hclient : o.session.server = false)
    (hreq : ∀ i ∈ o.obSyn, (o.item i).kind = .headers true) (hj : j ∈ o.obSyn) :
    ((o.addRstStream (o.item j).streamId).item j).canceled = true ∨
      (o.item j).canceled = true := by
  cases hcan : (o.item j).canceled with
  | true => exact .inr rfl
  | false =>
    have hk := hreq j hj
    have hsome := (cancelable_isSome_iff hf hclient hreq).2 ⟨j, hj, hk, rfl, hcan⟩
    obtain ⟨⟨i, f⟩, hi⟩ := Option.isSome_iff_exists.1 hsome
    obtain ⟨hmem, hid, -⟩ := frame_of_cancelable hi
    have hij : i = j := hf.distinct i (List.mem_append_right _ hmem) j
      (List.mem_append_right _ hj) _ (opens_of_request (hreq i hmem)) (hid ▸ opens_of_request hk)
    left
    unfold Outbound.addRstStream
    rw [getStream_of_waiting hf hu hj hk, hi]
    simp [Outbound.modifyFrame, OutboundItem.canceled, hij]

/-- Otherwise RST_STREAM is queued. -/
theorem addRstStream_queues (hclosing : ((o.session.getStream id).any fun x =>
      o.streamState x = .closing) = false) (hnone : o.cancelable id = none) :
    (o.addRstStream id).obReg = o.obReg ++ [o.allocated] ∧
      (o.addRstStream id).item o.allocated = ⟨id, .rstStream⟩ := by
  unfold Outbound.addRstStream Outbound.submitItem Outbound.addItem
  rw [hclosing, hnone]
  cases hget : o.session.getStream id with
  | none => simp [hget, Outbound.push, Outbound.setQueued]
  | some x => simp [hget, Outbound.push, Outbound.setQueued]

/-- What `nghttp2_session_add_rst_stream` has queued. -/
theorem of_mem_addRstStream {i : ItemPtr} (hf : o.Filed) (hi : i ∈ (o.addRstStream id).obReg)
    (hge : o.allocated ≤ i) : ((o.session.getStream id).any fun x =>
      o.streamState x = .closing) = false ∧ o.cancelable id = none ∧ i = o.allocated := by
  have hold : i ∉ o.obReg := fun hmem => absurd (hf.reg i hmem).1 (not_lt.2 hge)
  by_cases hclosing : ((o.session.getStream id).any fun x => o.streamState x = .closing) = true
  · rw [Outbound.addRstStream, if_pos hclosing] at hi
    exact absurd hi hold
  cases hcan : o.cancelable id with
  | some p =>
    rw [Outbound.addRstStream, if_neg hclosing, hcan] at hi
    exact absurd hi hold
  | none =>
    have hfalse := Bool.eq_false_iff.2 hclosing
    rw [(addRstStream_queues hfalse hcan).1, List.mem_append, List.mem_singleton] at hi
    exact ⟨hfalse, rfl, hi.resolve_left hold⟩

end Outbound

/-! ## The order of RST_STREAM and HEADERS -/

namespace Recorded

open Outbound

variable {r r' : Recorded} {e : Outbound.Event}

/-- HEADERS on a stream that the peer has reserved go to `ob_syn`, as requests do: the event
submits none. -/
def OnlyRequests (r : Recorded) : Outbound.Event → Prop
  | .submit sub => ∀ id, sub.headersId = some id → ¬ r.out.Reserved id
  | e => ∀ sub, e.Calls sub → sub.headersId = none

/-- **A condition on the state before the event.**  The application resets a stream of its own
only if the stream is being reset, its request waits and has not been cancelled, or the request
is sent.  In callbacks it resets only streams whose request is sent. -/
def ResetSafe (r : Recorded) : Outbound.Event → Prop
  | .submit (.rstStream id) => id % 2 = 0 ∨
      ((r.out.session.getStream id).any fun x => r.out.streamState x = .closing) = true ∨
      r.out.Pending id ∨ HasRequest r.committedFrames id
  | .submit _ => True
  -- the upgrade from HTTP/1.1 opens stream 1 without HEADERS
  | .session ev => ev ≠ .upgrade
  | e => ∀ id, e.Calls (.rstStream id) → id % 2 = 0 ∨ HasRequest r.committedFrames id

/-- What holds in the runs of a client. -/
structure Requests (r : Recorded) : Prop where
  kind : ∀ i ∈ r.out.obSyn, (r.out.item i).kind = .headers true
  unwritten : Unwritten r
  foundUsed : r.out.FoundUsed

/-- A new session. -/
theorem new_requests (server : Bool) (n p m : ℕ) : Requests (Recorded.new server n p m) where
  kind := nofun
  unwritten := ⟨nofun, nofun⟩
  foundUsed _ _ hx := nomatch hx

/-- What is new in `ob_syn` is a request. -/
theorem OnlyRequests.kind (h : OnlyRequests r e) (hs : r.out.Sound) (hres : r.step e = .ok r')
    {i : ItemPtr} (hi : i ∈ r'.out.obSyn) (hge : r.out.allocated ≤ i) :
    (r'.out.item i).kind = .headers true := by
  have hs' := (turn_of_step hs hres).sound hs
  obtain ⟨hlt, b, hb⟩ := hs'.filed.syn i hi
  cases b with
  | true => exact hb
  | false =>
    obtain ⟨sub, hsub, hid⟩ := (step_news (S := fun sub => e.Calls sub ∨ sub.headersId = none) hs
      (fun _ => .inl) (fun _ _ _ => .inr rfl) (step_eq_ok hres).1 i hge hlt).headers hb
    have hcalls := hsub.resolve_right (by simp [hid])
    cases e with
    | submit sub' =>
      cases hcalls
      have hout : r'.out = r.out.submit sub := (Except.ok.inj (step_eq_ok hres).1).symm
      rw [hout, submit_obSyn hid (h _ hid)] at hi
      exact absurd (hs.filed.syn i hi).1 (not_lt.2 hge)
    | _ =>
      rw [h sub hcalls] at hid
      cases hid

/-- **Every run** that only submits requests. -/
theorem Reaches.requests (h : Reaches OnlyRequests r) : Requests r := by
  refine h.induct new_requests fun r r' e hr ih honly hres => ?_
  have hturn := turn_of_step hr.sound hres
  refine ⟨fun i hi => ?_, hturn.unwritten hr.sound ih.unwritten,
    hturn.foundUsed hr.sound ih.foundUsed⟩
  rcases (hturn.inherits hr.sound).syn i hi with hi' | hge
  · exact ((hturn.inherits hr.sound).item i (hr.sound.filed.syn i hi').1).1.2.trans (ih.kind i hi')
  · exact honly.kind hr.sound hres hi hge

/-- The streams that a client has opened show their requests. -/
def Opened (r : Recorded) : Prop :=
  ∀ ⦃id x⦄, r.out.session.getStream id = some x → id % 2 = 1 → HasRequest r.committedFrames id

/-- A stream that has been opened for a request. -/
theorem hasRequest_of_opens {o1 o2 : Outbound} {i : ItemPtr} {id : ℕ} {st : StreamState}
    (hopens : opensStream o1 i = some (id, st)) (hself : Alike (o1.item i) (o2.item i))
    (hclient : o1.session.server = false) : ∃ b, (o2.item i).wire = .headers id true b := by
  unfold opensStream at hopens
  cases hframe : (o1.item i).frame with
  | headers f =>
    simp only [hframe, Bool.and_eq_true, decide_eq_true_eq, Option.ite_none_right_eq_some,
      Option.some.injEq, Prod.mk.injEq] at hopens
    have hk : (o2.item i).kind = .headers true := by
      rw [hself.2, OutboundItem.kind, hframe]
      simp [hopens.1.1.1]
    unfold OutboundItem.kind at hk
    unfold OutboundItem.wire
    cases hframe' : (o2.item i).frame with
    | headers g =>
      simp only [hframe', FrameKind.headers.injEq] at hk
      exact ⟨g.endStream, by simp [hk, hself.1, hopens.2.1]⟩
    | _ => simp [hframe'] at hk
  | pushPromise => simp [hframe, hclient] at hopens
  | _ => simp [hframe] at hopens

/-- **Every turn** of a client. -/
theorem Turn.opened (h : Turn r e r') (hs : r.out.Sound) (hclient : r.out.session.server = false)
    (he : e ≠ .session .upgrade) (hr : Opened r) : Opened r' := by
  intro id x hx hodd
  have hold : ∀ {y}, r.out.session.getStream id = some y → HasRequest r'.committedFrames id :=
    fun hy => h.hasRequest hs (hr hy hodd)
  cases h with
  | grows h => exact hold (h.entry hx).1
  | outside ev s he' h ho =>
    rw [ho] at hx
    rcases h.entry hx with ⟨hget, -⟩ | ⟨hmine, -⟩ | ⟨-, -, -, -, -, hup⟩
    · exact hold hget
    · have hpos : id ≠ 0 := by omega
      simp [Session.isMyStreamId, hclient, hodd, hpos] at hmine
    · exact absurd (he'.trans (congrArg _ hup)) he
  | activates o1 o2 i env he' hnext hp hready ho hw =>
    have hx2 : o2.session.getStream id = some x := by
      rw [ho] at hx
      exact hx
    rcases hp.prep.entry hx2 with ⟨hget, -⟩ | ⟨st, hopened, -⟩
    · exact hold (hp.pop.getStream id ▸ hget)
    · obtain ⟨b, hb⟩ := hasRequest_of_opens hopened hp.prep.self
        (hp.pop.sameIds.server.trans hclient)
      refine ⟨b, ?_⟩
      rw [committedFrames_eq, ho, sending_activate, hb]
      simp
  | drops o1 o2 i hp hgoaway h =>
    rcases hp.prep.entry (h.1.entry hx).1 with ⟨hget, -⟩ | ⟨st, hopened, -⟩
    · exact hold (hp.pop.getStream id ▸ hget)
    · cases (h.2 id st hopened).symm.trans hx
  | sends o1 i h =>
    rcases h.out with ⟨-, ho⟩ | ⟨-, ho⟩
    · rw [ho] at hx
      exact hold (h.sends.entry hx).1
    · exact hold (h.sends.entry (ho.entry hx).1).1
  | clears h => exact hold (h.entry hx).1

/-- Nothing brings a request back that has been cancelled. -/
theorem Gone.run {j : ItemPtr} {es : List Outbound.Event} (h : Gone r j) (hs : r.out.Sound)
    (hres : r.run es = .ok r') : Gone r' j := by
  induction es generalizing r with
  | nil =>
    cases hres
    exact h
  | cons e es ih =>
    obtain ⟨r1, hstep, hrun⟩ := bind_eq_ok.1 hres
    have hturn := turn_of_step hs hstep
    exact ih (hturn.gone hs h) (hturn.sound hs) hrun

/-- What is gone was not written. -/
theorem Gone.notMem_written {j : ItemPtr} (h : Gone r j) : ∀ w ∈ r.written, w.1 ≠ j :=
  fun w hw => h.notMem w (List.mem_append_left _ hw)

/-- The application resets a stream. -/
theorem newResets_submit_iff {id : ℕ} (h : Requests r) (hs : r.out.Sound)
    (hclient : r.out.session.server = false) (hres : r.step (.submit (.rstStream id)) = .ok r') :
    NewResets r r' ↔ ResetSafe r (.submit (.rstStream id)) := by
  obtain ⟨hout, hw⟩ := step_eq_ok hres
  have hout : r'.out = r.out.submit (.rstStream id) := (Except.ok.inj hout).symm
  have hframes : r'.committedFrames = r.committedFrames := by
    rw [committedFrames, committedFrames, committed_of_keeps _ hs (hw.trans (List.append_nil _))]
    rw [hout]
    exact (submit_grows hs.tabled _).toKeeps
  constructor
  · intro hnew
    by_contra hcon
    simp only [ResetSafe, not_or, Bool.not_eq_true] at hcon
    obtain ⟨heven, hclosing, hpending, hreq⟩ := hcon
    have hcan : r.out.cancelable id = none := by
      rw [← Option.not_isSome_iff_eq_none, cancelable_isSome_iff hs.filed hclient h.kind]
      exact hpending
    rw [Outbound.submit, if_neg (by rintro rfl; exact heven rfl)] at hout
    obtain ⟨hreg, hitem⟩ := addRstStream_queues hclosing hcan
    have hnew := hnew r.out.allocated (by rw [hout, hreg]; simp) le_rfl
    rw [hframes, hout, hitem] at hnew
    exact hreq (hnew rfl (Nat.mod_two_ne_zero.1 heven))
  intro hcases i hi hge hk hodd
  have hid : id ≠ 0 := by
    rintro rfl
    rw [Outbound.submit, if_pos rfl] at hout
    exact absurd (hs.filed.reg i (hout ▸ hi)).1 (not_lt.2 hge)
  rw [Outbound.submit, if_neg hid] at hout
  obtain ⟨hclosing, hcan, rfl⟩ := of_mem_addRstStream hs.filed (hout ▸ hi) hge
  rw [hframes]
  rw [hout, (addRstStream_queues hclosing hcan).2] at hodd ⊢
  rcases hcases with heven | hc | hpending | hreq
  · dsimp only at hodd
    omega
  · cases hclosing.symm.trans hc
  · rw [← cancelable_isSome_iff hs.filed hclient h.kind, hcan] at hpending
    cases hpending
  · exact hreq

/-- **One event** that meets the condition. -/
theorem ResetSafe.newResets (he : ResetSafe r e) (h : Requests r) (hs : r.out.Sound)
    (hclient : r.out.session.server = false) (ho : Opened r) (hres : r.step e = .ok r') :
    NewResets r r' := by
  have hturn := turn_of_step hs hres
  have hother : (∀ id, e.Calls (.rstStream id) → id % 2 = 0 ∨ HasRequest r.committedFrames id) →
      NewResets r r' := by
    intro hcalls i hi hge hk hodd
    have hlt := ((hturn.sound hs).filed.reg i hi).1
    have hmade := (step_news (S := fun sub => e.Calls sub ∨
        ∃ id x, sub = .rstStream id ∧ r.out.session.getStream id = some x) hs (fun _ => .inl)
      (fun id x hx => .inr ⟨id, x, rfl, hx⟩) (step_eq_ok hres).1 i hge hlt).reset hk
    refine hturn.hasRequest hs ?_
    rcases hmade with hsub | ⟨id, x, hid, hx⟩
    · exact (hcalls _ hsub).resolve_left (by omega)
    · cases hid
      exact ho hx hodd
  cases e with
  | submit sub =>
    cases sub with
    | rstStream id => exact (newResets_submit_iff h hs hclient hres).2 he
    | _ => exact hother fun id hid => by cases hid
  | session ev => exact hother fun id hid => hid.elim
  | _ => exact hother he

/-- **The runs of a client.** -/
theorem Reaches.noEarlyReset (h : Reaches (fun r e => OnlyRequests r e ∧ ResetSafe r e) r)
    (hclient : r.out.session.server = false) : NoEarlyReset r ∧ Opened r := by
  induction h with
  | new server n p m => exact ⟨⟨.nil, nofun⟩, fun _ _ hx => nomatch hx⟩
  | @step r r' e hr hc hres ih =>
    have hs := hr.sound
    have hturn := turn_of_step hs hres
    have hclient' := (hturn.inherits hs).server.symm.trans hclient
    obtain ⟨hearly, hopened⟩ := ih hclient'
    have hreq := (hr.imp And.left).requests
    refine ⟨(hturn.noEarlyReset_iff hs hearly).2 (hc.2.newResets hreq hs hclient' hopened hres),
      hturn.opened hs hclient' ?_ hopened⟩
    rintro rfl
    exact hc.2 rfl

/-- A request that waits when its stream is reset is cancelled. -/
theorem gone_of_reset {id : ℕ} {j : ItemPtr} (h : Requests r) (hs : r.out.Sound)
    (hclient : r.out.session.server = false) (hres : r.step (.submit (.rstStream id)) = .ok r')
    (hj : j ∈ r.out.obSyn) (hid : (r.out.item j).streamId = id) : Gone r' j := by
  have hturn := turn_of_step hs hres
  have hlt := (hs.filed.syn j hj).1
  obtain ⟨halike, hcancel⟩ := (hturn.inherits hs).item j hlt
  have hk := h.kind j hj
  have hmem := hs.filed.asks j (List.mem_append_right _ hj) _ (opens_of_request hk)
  have hne : id ≠ 0 := by
    rintro rfl
    have hmine := hs.filed.unsent_mine _ hmem
    rw [hid] at hmine
    simp [Session.isMyStreamId] at hmine
  obtain ⟨hout, hw⟩ := step_eq_ok hres
  have hout : r'.out = r.out.submit (.rstStream id) := (Except.ok.inj hout).symm
  have hkeeps : Keeps r.out r'.out := by
    rw [hout]
    exact (submit_grows hs.tabled _).toKeeps
  refine ⟨hlt.trans_le (hturn.inherits hs).allocated, halike.2.trans hk, ?_, ?_⟩
  · rcases addRstStream_canceled hs.filed h.foundUsed hclient h.kind hj with hcan | hcan
    · rw [hout, Outbound.submit, if_neg hne, ← hid]
      exact hcan
    · exact hcancel hcan
  · rw [committed_of_keeps hkeeps hs (hw.trans (List.append_nil _))]
    exact h.unwritten.syn j hj hk

/-- **RST_STREAM and the request.**  In a run of a client whose events meet the conditions, every
RST_STREAM for a stream of the client that was written comes after the HEADERS that open the
stream, and this remains so for what is to be written after the next event that meets them.  When
the application resets a stream, it remains so only if the event meets them.  A request that
waits when its stream is reset is never written. -/
theorem reset_order_iff (h : Reaches OnlyRequests r) (hclient : r.out.session.server = false)
    (hres : r.step e = .ok r') :
    (Reaches (fun r e => OnlyRequests r e ∧ ResetSafe r e) r → OpensFirst r.frames ∧
      (ResetSafe r e → NoEarlyReset r') ∧
      ∀ id, e = .submit (.rstStream id) → (NoEarlyReset r' ↔ ResetSafe r e)) ∧
    ∀ id, e = .submit (.rstStream id) → ∀ j ∈ r.out.obSyn, (r.out.item j).streamId = id →
      ∀ es r'', r'.run es = .ok r'' → ∀ w ∈ r''.written, w.1 ≠ j := by
  have hr := h.requests
  have hs := h.sound
  have hturn := turn_of_step hs hres
  refine ⟨fun hreach => ?_, ?_⟩
  · obtain ⟨hearly, hopened⟩ := hreach.noEarlyReset hclient
    have hiff := hturn.noEarlyReset_iff hs hearly
    have hfirst := hearly.1
    rw [committedFrames_eq] at hfirst
    refine ⟨hfirst.of_append, fun he => hiff.2 (he.newResets hr hs hclient hopened hres), ?_⟩
    rintro id rfl
    exact hiff.trans (newResets_submit_iff hr hs hclient hres)
  · rintro id rfl j hj hid es r'' hrun
    exact ((gone_of_reset hr hs hclient hres hj hid).run (hturn.sound hs) hrun).notMem_written

instance (l : List WireFrame) (id : ℕ) : Decidable (HasRequest l id) := by
  unfold HasRequest
  infer_instance

instance (o : Outbound) (id : ℕ) : Decidable (o.Pending id) := by
  unfold Outbound.Pending
  infer_instance

/-- A check for the two conditions, if callbacks submit nothing. -/
def resetFits (r : Recorded) : Outbound.Event → Bool
  | .submit (.rstStream id) => r.out.Pending id || HasRequest r.committedFrames id
  | .submit sub => sub.headersId.isNone
  | .session _ => false
  | _ => true

/-- The condition, as it is tested. -/
theorem resetSafe_of_resetFits (h : (∃ sub, e = .submit sub) ∨ e ∈ quietTurn)
    (hfits : resetFits r e = true) : OnlyRequests r e ∧ ResetSafe r e := by
  rcases h with ⟨sub, rfl⟩ | hmem
  · cases sub with
    | rstStream id =>
      simp only [resetFits, Bool.or_eq_true, decide_eq_true_eq] at hfits
      exact ⟨fun _ hid => (by cases hid), .inr (.inr hfits)⟩
    | response | headers => cases hfits
    | _ => exact ⟨fun _ hid => (by cases hid), trivial⟩
  · have hcalls : ∀ sub, ¬ e.Calls sub := fun sub => not_calls_of_quietTurn hmem
    cases e with
    | submit | session => simp [quietTurn] at hmem
    | _ => exact ⟨fun sub hsub => absurd hsub (hcalls sub), fun id hid => absurd hid (hcalls _)⟩

/-- A client has sent a request and has reset its stream, and resets the stream of a second
request that waits. -/
theorem two_requests_reset : ∃ r r', (Recorded.new false 100 100 200).run
      (.submit (.request .default [] false false) :: quietTurn ++
        [.submit (.request .default [] true false), .submit (.rstStream 1)] ++ quietTurn) = .ok r ∧
    r.step (.submit (.rstStream 3)) = .ok r' ∧ r.frames = [.headers 1 true false, .rstStream 1] ∧
    OpensFirst r.frames ∧ NoEarlyReset r' ∧
    ∀ es r'', r'.run es = .ok r'' → ∀ w ∈ r''.written, w.1 ≠ 1 := by
  refine exists_of_eval₂ (·.step (.submit (.rstStream 3))) (fun r _ =>
    r.frames = [.headers 1 true false, .rstStream 1] ∧ r.out.session.server = false ∧
    r.out.obSyn = [1] ∧ (r.out.item 1).streamId = 3 ∧ resetFits r (.submit (.rstStream 3)) = true)
    (reaches_of_guardedRun (C := fun r e => OnlyRequests r e ∧ ResetSafe r e) (c := resetFits)
      fun hmem hfits => resetSafe_of_resetFits ?_ hfits) (by decide +kernel) ?_
  · simp only [List.cons_append, List.mem_append, List.mem_cons, List.not_mem_nil, or_false] at hmem
    rcases hmem with rfl | (hmem | rfl | rfl) | hmem
    · exact .inl ⟨_, rfl⟩
    · exact .inr hmem
    · exact .inl ⟨_, rfl⟩
    · exact .inl ⟨_, rfl⟩
    · exact .inr hmem
  · rintro r r' hreach hstep ⟨hframes, hclient, hsyn, hid, hfits⟩
    have horder := reset_order_iff (hreach.imp And.left) hclient hstep
    obtain ⟨hfirst, hnext, -⟩ := horder.1 hreach
    exact ⟨hstep, hframes, hfirst, hnext (resetSafe_of_resetFits (.inl ⟨_, rfl⟩) hfits).2,
      horder.2 3 rfl 1 (by simp [hsyn]) hid⟩

/-- **RST_STREAM for an idle stream.**  The second RST_STREAM for a request that waits is
queued, because the request has been cancelled; it is sent before the request is given up. -/
theorem rstStream_for_idle : ∃ r, (Recorded.new false 100 100 200).run
      [.submit (.request .default [] true false), .submit (.rstStream 1),
        .submit (.rstStream 1), .popItem quietEnv, .frameSent1 quietEnv] = .ok r ∧
    r.frames = [.rstStream 1] ∧ ¬ OpensFirst r.frames := by
  refine exists_of_eval (fun r => r.frames = [.rstStream 1]) (And.intro trivial)
    (by decide +kernel) fun r _ hframes => ⟨hframes, fun hfirst => ?_⟩
  obtain ⟨b, hmem⟩ := hfirst [] 1 [] hframes rfl
  cases hmem

end Recorded

/-! ## The order of requests -/

namespace Outbound

variable {o o' o1 : Outbound} {i : ItemPtr} {a : ℕ}

/-- The stream id is below those of the requests that wait or are still to come. -/
def Behind (o : Outbound) (a : ℕ) : Prop :=
  a < o.session.nextStreamId ∧ ∀ j ∈ o.obSyn, ∀ id, (o.item j).opens = some id → a < id

/-- Items are numbered in order. -/
theorem Behind.mono (hb : o.Behind a) (hf : o.Filed) (hf' : o'.Filed) (h : Inherits o o')
    (hnum : Numbered o o') (hnext : o.session.nextStreamId ≤ o'.session.nextStreamId) :
    o'.Behind a := by
  refine ⟨hb.1.trans_le hnext, fun j hj id hid => ?_⟩
  rcases h.syn j hj with hj' | hge
  · exact hb.2 j hj' id ((h.item j (hf.syn j hj').1).1.opens ▸ hid)
  · exact hb.1.trans_le (hnum j hge (hf'.syn j hj).1 id hid)

/-- New requests get later ids. -/
theorem Keeps.behind (h : Keeps o o') (hs : o.Sound) (hb : o.Behind a) : o'.Behind a :=
  hb.mono hs.filed (h.sound hs).filed h.inherits h.numbered h.takes.1

/-- Preparing an item keeps them behind. -/
theorem Prepares.behind {opened : Option (ℕ × StreamState)} (h : Prepares o o' i opened)
    (hf : o.Filed) (hf' : o'.Filed) (hb : o.Behind a) : o'.Behind a :=
  hb.mono hf hf' h.inherits h.numbered h.takes.1

/-- The items that are left stay behind. -/
theorem Popped.behind (h : Popped o o1 i) (hb : o.Behind a) : o1.Behind a := by
  unfold Behind
  rw [h.sameIds.nextStreamId, h.item]
  exact ⟨hb.1, fun j hj => hb.2 j (h.sublist.2.2.subset hj)⟩

/-- A request is popped from `ob_syn`, where those behind it have larger ids. -/
theorem Popped.request (h : Popped o o1 i) (hf : o.Filed) (hk : (o.item i).kind = .headers true)
    (hid : (o.item i).opens = some a) : i ∈ o.obSyn ∧ o1.Behind a := by
  rcases (h.origin hf).2 with ⟨-, -, hk'⟩ | ⟨hs, -, -⟩ | ⟨-, hk'⟩
  · exact absurd hk hk'
  · have hi : i ∈ o.obSyn := by simp [hs]
    have hsorted := hf.sorted
    rw [hs] at hsorted
    refine ⟨hi, ?_, fun j hj id hid' => ?_⟩
    · rw [h.sameIds.nextStreamId]
      exact hf.unsent_lt a (hf.asks i (List.mem_append_right _ hi) a hid)
    · rw [h.item] at hid'
      exact (List.pairwise_cons.1 hsorted).1 j hj a id hid hid'
  · simp [hk] at hk'

end Outbound

namespace Recorded

open Outbound

variable {r r' : Recorded} {e : Outbound.Event} {a : ℕ}

/-- **Every turn** keeps later requests behind. -/
theorem Turn.behind (h : Turn r e r') (hs : r.out.Sound) (hb : r.out.Behind a) :
    r'.out.Behind a :=
  h.rule hs hb (fun _ _ _ h => h) (fun hs hg => hg.toKeeps.behind hs)
    (fun _ _ _ ho => ⟨hb.1.trans_le ho.nextStreamId, hb.2⟩)
    (fun _ _ _ h => h.prep.behind (h.pop.filed hs.filed).1 h.filed (h.pop.behind hb))
    (fun _ _ h => h.sends.toKeeps.behind hs hb)

/-- The stream id of a request. -/
def requestId : WireFrame → Option ℕ
  | .headers id true _ => some id
  | _ => none

/-- A request on the wire and its item. -/
theorem of_requestId {it : OutboundItem} (h : requestId it.wire = some a) :
    it.kind = .headers true ∧ it.opens = some a := by
  unfold OutboundItem.opens OutboundItem.kind
  unfold OutboundItem.wire at h
  cases hf : it.frame with
  | headers f =>
    simp only [hf, requestId] at h
    split at h
    · simp_all
    · cases h
  | _ => simp [hf, requestId] at h

/-- The stream ids of requests. -/
def requestIds (l : List (ItemPtr × WireFrame)) : List ℕ := l.filterMap fun w => requestId w.2

/-- The id of one more request. -/
theorem requestIds_concat (l : List (ItemPtr × WireFrame)) (w : ItemPtr × WireFrame) :
    requestIds (l ++ [w]) = requestIds l ++ (requestId w.2).toList := by
  cases h : requestId w.2 with
  | none => simp [requestIds, h]
  | some => simp [requestIds, h]

/-- The requests that have been committed to are in the order of their ids, and the other ones
follow. -/
def Increasing (r : Recorded) : Prop :=
  (requestIds r.committed).Pairwise (· < ·) ∧ ∀ a ∈ requestIds r.committed, r.out.Behind a

/-- **Every turn** keeps the ids increasing. -/
theorem Turn.increasing (h : Turn r e r') (hs : r.out.Sound) (hr : r.Increasing) :
    r'.Increasing := by
  have hbehind := fun a ha => h.behind hs (hr.2 a ha)
  rcases h.committed hs with hc | ⟨o1, o2, i, env, hpop, hprep, -, ho, hc⟩ | ⟨i, id, b, hc⟩
  · unfold Increasing
    rw [hc]
    exact ⟨hr.1, hbehind⟩
  · unfold Increasing
    rw [hc, requestIds_concat]
    cases hreq : requestId (o2.item i).wire with
    | none =>
      rw [Option.toList_none, List.append_nil]
      exact ⟨hr.1, hbehind⟩
    | some id =>
      obtain ⟨hk, hid⟩ := of_requestId hreq
      rw [hprep.self.2, hpop.item] at hk
      rw [hprep.self.opens, hpop.item] at hid
      obtain ⟨hi, hb⟩ := hpop.request hs.filed hk hid
      have hf2 : o2.Filed := { ho ▸ (h.sound hs).filed with }
      have hb2 : r'.out.Behind id := by
        rw [ho]
        exact hprep.behind (hpop.filed hs.filed).1 hf2 hb
      simp only [Option.toList_some, List.pairwise_append, List.mem_append, List.mem_singleton]
      refine ⟨⟨hr.1, List.pairwise_singleton .., ?_⟩, ?_⟩
      · intro a ha b hb
        rw [hb]
        exact (hr.2 a ha).2 i hi id hid
      · rintro a (ha | rfl)
        · exact hbehind a ha
        · exact hb2
  · unfold Increasing at hr
    rw [hc, requestIds_concat, show requestId (.data id b) = none from rfl, Option.toList_none,
      List.append_nil] at hr hbehind
    exact ⟨hr.1, hbehind⟩

/-- More events. -/
theorem Reaches.run {es : List Outbound.Event} (h : Reaches (fun _ _ => True) r)
    (hres : r.run es = .ok r') : Reaches (fun _ _ => True) r' := by
  induction es generalizing r with
  | nil =>
    cases hres
    exact h
  | cons e es ih =>
    obtain ⟨r1, hstep, hrun⟩ := bind_eq_ok.1 hres
    exact ih (h.step trivial hstep) hrun

/-- **Requests are written in the order of their stream ids**, in every run. -/
theorem requests_increase {server : Bool} {n p m : ℕ} {es : List Outbound.Event}
    (hres : (Recorded.new server n p m).run es = .ok r) :
    (requestIds r.written).Pairwise (· < ·) := by
  have hr : r.Increasing := ((Reaches.new server n p m).run hres).turns
    (fun _ _ _ _ => ⟨.nil, nofun⟩) fun _ _ _ _ hs ih _ hturn => hturn.increasing hs ih
  have hsorted := hr.1
  rw [committed, requestIds, List.filterMap_append] at hsorted
  exact (List.pairwise_append.1 hsorted).1

/-- Two requests. -/
theorem two_requests_increase : ∃ es r, (Recorded.new false 100 100 200).run es = .ok r ∧
    requestIds r.written = [1, 3] ∧ (requestIds r.written).Pairwise (· < ·) := by
  have heval : ((Recorded.new false 100 100 200).run
      [.submit (.request .default [] true false), .submit (.request .default [] true false),
        .popItem quietEnv, .frameSent1 quietEnv, .frameSent2, .popItem quietEnv,
        .frameSent1 quietEnv]).map (fun r => decide (requestIds r.written = [1, 3])) =
      .ok true := by decide +kernel
  obtain ⟨r, hrun, hr⟩ := exists_of_map_eq_ok heval
  exact ⟨_, r, hrun, of_decide_eq_true hr, requests_increase hrun⟩

end Recorded

end Nghttp2
