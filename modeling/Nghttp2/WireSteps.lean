/-
# What a turn of sending does

`popItem` takes an item, prepares it and makes it the active item, or gives it up.  The
lemmas here say once what each of these turns can do to the queues, to the streams that
can be found, and to the active item; the results about the order of frames are derived
from them.
-/
import Nghttp2.Wire

namespace Nghttp2.Outbound

open Function (update_of_ne update_self)

variable {o o' o1 o2 : Outbound} {env : Env} {i : ItemPtr}

/-! ## Preparing -/

/-- The ids that are waiting to be used once a stream has been opened. -/
def unsentAfter (o : Outbound) (opened : Option (ℕ × StreamState)) : List ℕ :=
  match opened with
  | none => o.session.unsent
  | some (id, _) => o.session.unsent.erase id

/-- What `session_prep_frame` may do with the item `i`: it may open the stream `opened`,
and change the item itself. -/
structure Prepares (o o' : Outbound) (i : ItemPtr) (opened : Option (ℕ × StreamState)) : Prop
    extends Lengthens o o' where
  item : ∀ j < o.allocated, j ≠ i → Cancels (o.item j) (o'.item j)
  self : Alike (o.item i) (o'.item i)
  canceled : (o.item i).canceled = true → (o'.item i).canceled = true
  localLastStreamId : (∀ n a b, (o.item i).frame ≠ .goaway n a b) →
    o'.localLastStreamId = o.localLastStreamId
  takes : Takes o.session.nextStreamId o'.session.nextStreamId (unsentAfter o opened)
    o'.session.unsent
  mem : ∀ id st, opened = some (id, st) → id ∈ o.session.unsent
  filed : o.Filed → (∀ id st, opened = some (id, st) →
    ∀ j ∈ o.obReg ++ o.obSyn, (o.item j).opens ≠ some id) → o'.Filed
  entry : ∀ ⦃id x⦄, o'.session.getStream id = some x →
    (o.session.getStream id = some x ∧ MayClose (o.session.info x) (o'.session.info x)) ∨
    ∃ st, opened = some (id, st) ∧ o'.session.info x = o.session.openedInfo id st

/-- Nothing changes but the tree, the contents of the item, and the bound for GOAWAYs. -/
theorem Prepares.of_eq (h : o.session.Tabled) (ho' : o' = { o with
      session := { o.session with tree := o'.session.tree }, item := o'.item
      localLastStreamId := o'.localLastStreamId })
    (hlast : (∀ n a b, (o.item i).frame ≠ .goaway n a b) →
      o'.localLastStreamId = o.localLastStreamId)
    (halloc : o'.session.tree.allocated = o.session.tree.allocated)
    (hcar : ∀ x j, o'.session.tree.sched.item x = some j → o.session.tree.sched.item x = some j)
    (hitem : ∀ j, j ≠ i → o'.item j = o.item j)
    (hself : Alike (o.item i) (o'.item i))
    (hcancel : (o.item i).canceled = true → (o'.item i).canceled = true) :
    Prepares o o' i none := by
  have hinfo : o'.session.info = o.session.info := by rw [ho']
  have hstreams : o'.session.streams = o.session.streams := by rw [ho']
  have htaken : o'.session.nextStreamId = o.session.nextStreamId ∧
      o'.session.unsent = o.session.unsent := by
    rw [ho']
    exact ⟨rfl, rfl⟩
  constructor
  case toLengthens =>
    exact .of_same (h.of_streams hstreams halloc) (by rw [ho']) (by rw [ho']) (by rw [ho'])
      (by rw [ho']) (by rw [ho']) (by rw [ho']) (by rw [ho']) (by rw [ho']) (by rw [ho'])
  case item => exact fun j _ hj => .inl (hitem j hj)
  case self => exact hself
  case canceled => exact hcancel
  case localLastStreamId => exact hlast
  case takes =>
    rw [htaken.1, htaken.2]
    exact Takes.refl ..
  case mem => exact fun id st h => by cases h
  case filed =>
    intro hf _
    refine hf.of_alike (by rw [ho']) (fun j _ => ?_) (by rw [ho']) (by rw [ho']) (by rw [ho'])
      (by rw [ho']) htaken.1 htaken.2 hcar
    by_cases hj : j = i
    · rw [hj]
      exact hself
    · rw [hitem j hj]
      exact Alike.refl _
  case entry =>
    intro id x hx
    rw [Session.getStream_congr hinfo hstreams] at hx
    exact .inl ⟨hx, .inl (by rw [hinfo])⟩

/-- Nothing happens. -/
theorem Prepares.refl (h : o.session.Tabled) : Prepares o o i none :=
  Prepares.of_eq h rfl (fun _ => rfl) rfl (fun _ _ h => h) (fun _ _ => rfl) (Alike.refl _)
    (·)

/-- The tree changes, as far as items and their deferral go. -/
theorem Prepares.tree (h : o.session.Tabled) {t : StreamTree}
    (halloc : t.allocated = o.session.tree.allocated)
    (hcar : ∀ x j, t.sched.item x = some j → o.session.tree.sched.item x = some j) :
    Prepares o { o with session := { o.session with tree := t } } i none :=
  Prepares.of_eq h rfl (fun _ => rfl) halloc hcar (fun _ _ => rfl) (Alike.refl _) (·)

/-- The stream loses its item. -/
theorem Prepares.detach (h : o.session.Tabled) (x : Ptr) : Prepares o (o.detachItem x) i none :=
  Prepares.tree h (streamDetachItem_allocated ..) (streamDetachItem_carried o.session.tree x)

/-- Deferring an item allocates no stream. -/
theorem streamDeferItem_allocated (t : StreamTree) (x : Ptr) (flags : DeferFlags) :
    (streamDeferItem t x flags).allocated = t.allocated := by
  unfold streamDeferItem streamUpdateDepOnDetachItem
  dsimp only
  split_ifs
  · rfl
  · rfl

/-- The item is deferred. -/
theorem Prepares.defer (h : o.session.Tabled) (x : Ptr) (flags : DeferFlags) :
    Prepares o (o.deferItem x flags) i none := by
  refine Prepares.tree h (streamDeferItem_allocated ..) fun y j hj => ?_
  rwa [streamDeferItem_item] at hj

/-- The frame of the item is changed. -/
theorem Prepares.modifyFrame (h : o.session.Tabled) {f : Frame}
    (hf : OutboundItem.kind { o.item i with frame := f } = (o.item i).kind)
    (hcancel : (o.item i).canceled = true →
      OutboundItem.canceled { o.item i with frame := f } = true) :
    Prepares o (o.modifyFrame i f) i none := by
  have hself : (o.modifyFrame i f).item i = { o.item i with frame := f } :=
    update_self _ _ _
  refine Prepares.of_eq h rfl (fun _ => rfl) rfl (fun _ _ h => h)
    (fun _ hj => update_of_ne hj _ _) ?_ ?_
  · rw [hself]
    exact ⟨rfl, hf⟩
  · rw [hself]
    exact hcancel

/-- Submissions follow, when no stream has been opened. -/
theorem Prepares.grows (h : Prepares o o1 i none) (hi : i < o.allocated) (h' : Grows o1 o2) :
    Prepares o o2 i none where
  toLengthens := h.toLengthens.trans h'.toLengthens h'.item h.takes.1
  item j hj hji := (h.item j hj hji).trans (h'.item j (hj.trans_le h.allocated))
  self := h.self.trans (h'.item i (hi.trans_le h.allocated)).alike
  canceled hc := (h'.item i (hi.trans_le h.allocated)).canceled (h.canceled hc)
  localLastStreamId hf := h'.localLastStreamId.trans (h.localLastStreamId hf)
  takes := h.takes.trans h'.takes
  mem := h.mem
  filed hf hne := h'.filed (h.filed hf hne)
  entry id x hx := by
    obtain ⟨h1, hinfo'⟩ := h'.entry hx
    rcases h.entry h1 with ⟨h0, hinfo⟩ | ⟨st, hst, -⟩
    · exact .inl ⟨h0, hinfo.trans hinfo'⟩
    · cases hst

/-! ### Frames that open streams -/

/-- The stream that is opened when the item is prepared. -/
def opensStream (o : Outbound) (i : ItemPtr) : Option (ℕ × StreamState) :=
  match (o.item i).frame with
  | .headers f =>
    if f.cat = .request && estimateHeadersPayload f.nva prioritySpeclen ≤ maxHeaderslen &&
        (o.item i).streamId ∈ o.session.unsent then some ((o.item i).streamId, .initial) else none
  | .pushPromise promised _ =>
    if o.session.server && promised ∈ o.session.unsent then some (promised, .reserved) else none
  | _ => none

variable {e : Bool} {f : DataFrame} {cat : HeadersCat} {stream : Option Ptr} {r : PrepResult}
  {pri : PrioritySpec} {x y : Ptr} {s s' : Session} {a b c : StreamInfo} {st : StreamState}
  {id n promised : ℕ}

/-- A session that has opened a stream with an id that was waiting. -/
theorem Prepares.opens (hs : s = { o.session with unsent := o.session.unsent.erase id })
    (hmem : id ∈ o.session.unsent) (h : Session.Opens s s' id st x) :
    Prepares o { o with session := s' } i (some (id, st)) := by
  subst hs
  constructor
  case toLengthens =>
    exact .of_same h.tabled rfl rfl rfl rfl (congrArg ItemStore.aob h.items) rfl rfl h.server
      h.lastRecvStreamId
  case item => exact fun j _ _ => Cancels.refl _
  case self => exact Alike.refl _
  case canceled => exact (·)
  case takes =>
    show Takes _ s'.nextStreamId _ s'.unsent
    rw [h.nextStreamId, h.unsent]
    exact Takes.refl ..
  case mem =>
    rintro id' st' ⟨⟩
    exact hmem
  case filed =>
    intro hf hne
    have hf1 : Filed { o with session := { o.session with unsent := o.session.unsent.erase id } } :=
      { hf with
        asks := fun j hj id' hid' => by
          refine (List.mem_erase_of_ne ?_).2 (hf.asks j hj id' hid')
          rintro rfl
          exact hne _ st rfl j hj hid'
        unsent_lt := fun id' hid' => hf.unsent_lt id' (List.mem_of_mem_erase hid')
        unsent_nodup := hf.unsent_nodup.erase id
        unsent_mine := fun id' hid' => hf.unsent_mine id' (List.mem_of_mem_erase hid') }
    exact hf1.of_alike le_rfl (fun _ _ => Alike.refl _) rfl rfl rfl
      h.server h.nextStreamId h.unsent h.carried
  case entry =>
    intro id' y hy
    rcases h.entry hy with ⟨hold, hinfo, -⟩ | ⟨rfl, -, hinfo⟩
    · exact .inl ⟨hold, .inl hinfo⟩
    · exact .inr ⟨st, rfl, hinfo⟩
  case localLastStreamId => exact fun _ => rfl

/-- The stream of a request is opened. -/
theorem sendRequest_prepares (h : o.session.Tabled)
    (hres : o.session.step (.sendRequest id pri) = .ok s) :
    Prepares o { o with session := s } i
      (if id ∈ o.session.unsent then some (id, .initial) else none) := by
  by_cases hmem : id ∈ o.session.unsent
  · have hc : o.session.openCall (.sendRequest id pri) = some
        ⟨{ o.session with unsent := o.session.unsent.erase id }, id, pri, .initial⟩ := by
      simp only [Session.openCall, hmem, if_true]
    obtain ⟨x, hopen⟩ := Session.step_opens hc (by simp) h hres
    rw [if_pos hmem]
    exact Prepares.opens rfl hmem hopen
  · have hc : o.session.openCall (.sendRequest id pri) = none := if_neg hmem
    cases Session.settle_of_step hc hres
    rw [if_neg hmem]
    exact Prepares.refl h

/-- The promised stream is opened. -/
theorem sendPushPromise_prepares (h : o.session.Tabled)
    (hres : o.session.step (.sendPushPromise id promised) = .ok s) :
    Prepares o { o with session := s } i
      (if (o.session.server && promised ∈ o.session.unsent) = true then some (promised, .reserved)
        else none) ∧
      ∀ id x, o.session.getStream id = some x → s.info x = o.session.info x := by
  by_cases hmem : (o.session.server && promised ∈ o.session.unsent) = true
  · have hc : o.session.openCall (.sendPushPromise id promised) = some
        ⟨{ o.session with unsent := o.session.unsent.erase promised }, promised,
          if (o.session.getStream id).isSome then .dependsOn id else .default, .reserved⟩ := by
      simp only [Session.openCall, hmem, if_true]
    obtain ⟨x, hopen⟩ := Session.step_opens hc (by simp) h hres
    rw [if_pos hmem]
    simp only [Bool.and_eq_true, decide_eq_true_eq] at hmem
    exact ⟨Prepares.opens rfl hmem.2 hopen, fun id' y hy => hopen.info_of_getStream h hy⟩
  · have hc : o.session.openCall (.sendPushPromise id promised) = none := if_neg hmem
    cases Session.settle_of_step hc hres
    rw [if_neg hmem]
    exact ⟨Prepares.refl h, fun _ _ _ => rfl⟩

/-! ### All frames -/

/-- What is known of an item that is ready to be sent. -/
def ReadyFor (o o' : Outbound) (i : ItemPtr) : Frame → Prop
  | .headers f =>
    if f.cat = .request then o'.item i = o.item i ∧ f.canceled = false ∧
      estimateHeadersPayload f.nva prioritySpeclen ≤ maxHeaderslen
    else (∃ cat, cat ≠ .request ∧
        o'.item i = { o.item i with frame := .headers { f with cat := cat } } ∧
        (cat = .pushResponse → ∀ x, o.session.getStream (o.item i).streamId = some x →
          (o.session.info x).state = .reserved)) ∧
      ∃ x, o.session.getStream (o.item i).streamId = some x ∧ (o.session.info x).shutWr = false
  | .pushPromise _ _ => o'.item i = o.item i ∧
      ∃ x, o.session.getStream (o.item i).streamId = some x ∧ (o.session.info x).shutWr = false
  | .data _ => (∃ g : DataFrame, o'.item i = { o.item i with frame := .data g } ∧
      (g.endStream = true → g.eof = true)) ∧
      ∃ x, o.session.getStream (o.item i).streamId = some x ∧ o.predicateDataSend (some x) = none
  | .goaway n _ _ =>
    o'.item i = o.item i ∧ o'.localLastStreamId = n ∧ o'.allocated = o.allocated
  | _ => o'.item i = o.item i

/-- A predicate that goes on with the stream holds only for a stream that is there and not
shut down. -/
theorem of_predicateThen {check : Ptr → Option LibError} (h : o.predicateThen stream check = none) :
    ∃ x, stream = some x ∧ (o.session.info x).shutWr = false ∧ check x = none := by
  unfold predicateThen predicateForStreamSend at h
  cases stream with
  | none => cases h
  | some x =>
    by_cases hterm : o.termOnSend = true
    · simp [hterm] at h
    · by_cases hshut : (o.session.info x).shutWr = true
      · simp [hterm, hshut] at h
      · refine ⟨x, rfl, by simpa using hshut, ?_⟩
        simpa [hterm, hshut] using h

/-- HEADERS that are no request need a stream. -/
theorem of_classifyHeaders (h : o.classifyHeaders stream = .ok cat) :
    (cat ≠ .request ∧ (cat = .pushResponse → ∀ x, stream = some x →
      (o.session.info x).state = .reserved)) ∧
      ∃ x, stream = some x ∧ (o.session.info x).shutWr = false := by
  unfold classifyHeaders at h
  split_ifs at h with hpush hresp
  · cases h
    obtain ⟨x, hx, hshut, hcheck⟩ := of_predicateThen hpush
    refine ⟨⟨nofun, fun _ y hy => ?_⟩, x, hx, hshut⟩
    cases hx.symm.trans hy
    by_contra hstate
    rw [if_pos (show o.streamState x ≠ .reserved from hstate)] at hcheck
    cases hcheck
  · cases h
    obtain ⟨x, hx, hshut, -⟩ := of_predicateThen hresp
    exact ⟨⟨nofun, nofun⟩, x, hx, hshut⟩
  · split at h
    · next hnone =>
      cases h
      obtain ⟨x, hx, hshut, -⟩ := of_predicateThen hnone
      exact ⟨⟨nofun, nofun⟩, x, hx, hshut⟩
    · cases h

/-- The item is detached from its stream. -/
theorem detachFromRaw_grows (h : o.session.Tabled) (i : ItemPtr) : Grows o (o.detachFromRaw i) := by
  unfold Outbound.detachFromRaw
  split
  · split_ifs
    · exact detachItem_grows h _
    · exact Grows.refl h
  · exact Grows.refl h

/-- **HEADERS.** -/
theorem prepHeaders_prepares {f : HeadersFrame} (h : o.session.Tabled) (hi : i < o.allocated)
    (hframe : (o.item i).frame = .headers f) (hres : o.prepHeaders i f env = .ok (o', r)) :
    Prepares o o' i (opensStream o i) ∧ (r = .ready → ReadyFor o o' i (.headers f)) := by
  unfold Outbound.prepHeaders at hres
  have hopens : opensStream o i =
      if f.cat = .request && estimateHeadersPayload f.nva prioritySpeclen ≤ maxHeaderslen &&
          (o.item i).streamId ∈ o.session.unsent then
        some ((o.item i).streamId, .initial) else none := by
    unfold opensStream
    rw [hframe]
  by_cases hsize : estimateHeadersPayload f.nva prioritySpeclen > maxHeaderslen
  · rw [if_pos hsize] at hres
    cases hres
    rw [hopens, if_neg (by simp [not_le.2 hsize])]
    exact ⟨Prepares.refl h, nofun⟩
  rw [if_neg hsize] at hres
  have hsize : estimateHeadersPayload f.nva prioritySpeclen ≤ maxHeaderslen := not_lt.1 hsize
  by_cases hcat : f.cat = .request
  · rw [if_pos hcat] at hres
    obtain ⟨s, hs, hres⟩ := bind_eq_ok.1 hres
    have hprep : Prepares o { o with session := s } i (opensStream o i) := by
      have := sendRequest_prepares (i := i) h hs
      rw [hopens]
      simpa [hcat, hsize] using this
    dsimp only at hres
    split at hres
    · cases hres
      exact ⟨hprep, nofun⟩
    · next hpred =>
      cases hres
      refine ⟨hprep, fun _ => ?_⟩
      simp only [ReadyFor, hcat, if_true]
      refine ⟨trivial, ?_, hsize⟩
      unfold predicateRequestHeadersSend at hpred
      split_ifs at hpred with hcancel
      simpa using hcancel
  rw [if_neg hcat] at hres
  rw [hopens, if_neg (by simp [hcat])]
  have hcancel : ∀ {cat}, (o.item i).canceled = true → OutboundItem.canceled
      { o.item i with frame := .headers { f with cat := cat } } = true := by
    intro cat hc
    simpa [OutboundItem.canceled, hframe] using hc
  cases hclass : o.classifyHeaders (o.session.getStream (o.item i).streamId) with
  | ok cat =>
    rw [hclass] at hres
    cases hres
    obtain ⟨⟨hne, hpush⟩, x, hx, hshut⟩ := of_classifyHeaders hclass
    have hkind : ∀ cat, cat ≠ .request → OutboundItem.kind
        { o.item i with frame := .headers { f with cat := cat } } = (o.item i).kind := by
      intro cat hne
      simp [OutboundItem.kind, hframe, hcat, hne]
    refine ⟨Prepares.modifyFrame h (hkind cat hne) hcancel, fun _ => ?_⟩
    simp only [ReadyFor, hcat, if_false]
    exact ⟨⟨cat, hne, update_self _ _ _, hpush⟩, x, hx, hshut⟩
  | error e =>
    rw [hclass] at hres
    cases hres
    refine ⟨?_, nofun⟩
    have h1 : Prepares o (o.modifyFrame i (.headers { f with cat := .headers })) i none :=
      Prepares.modifyFrame h (by simp [OutboundItem.kind, hframe, hcat]) hcancel
    exact h1.grows hi (detachFromRaw_grows h1.tabled i)

/-- **PUSH_PROMISE.** -/
theorem prepPushPromise_prepares {nva : List (ℕ × ℕ)} (h : o.session.Tabled)
    (hframe : (o.item i).frame = .pushPromise promised nva)
    (hres : o.prepPushPromise i promised nva env = .ok (o', r)) :
    Prepares o o' i (opensStream o i) ∧
    (r = .ready → ReadyFor o o' i (.pushPromise promised nva)) := by
  obtain ⟨s, hs, hres⟩ := bind_eq_ok.1 hres
  obtain ⟨hprep, hinfo⟩ := sendPushPromise_prepares (i := i) h hs
  have hopens : opensStream o i = if (o.session.server && promised ∈ o.session.unsent) = true then
      some (promised, .reserved) else none := by
    unfold opensStream
    rw [hframe]
  rw [← hopens] at hprep
  dsimp only at hres
  split at hres
  · cases hres
    exact ⟨hprep, nofun⟩
  split at hres
  · cases hres
    exact ⟨hprep, nofun⟩
  · next hpred =>
    cases hres
    refine ⟨hprep, fun _ => ⟨rfl, ?_⟩⟩
    unfold predicatePushPromiseSend at hpred
    split at hpred
    · cases hpred
    · obtain ⟨x, hx, hshut, -⟩ := of_predicateThen hpred
      -- the stream that was found before is not the one that has been opened
      exact ⟨x, hx, hinfo _ x hx ▸ hshut⟩

/-- Rescheduling keeps all items. -/
theorem streamReschedule_pending (t : StreamTree) (x : Ptr) :
    (streamReschedule t x).pending = t.pending := by
  have hstep : ∀ (s : Sched) (d y : Ptr), (rescheduleStep t.dep s d y).pending = s.pending := by
    intro s d y
    unfold rescheduleStep
    dsimp only
    split_ifs
    · rfl
    · rfl
  have hloop : ∀ (n : ℕ) (s : Sched) (d : Option Ptr) (y : Ptr),
      (rescheduleLoop t.dep n s d y).pending = s.pending := by
    intro n
    induction n with
    | zero => exact fun _ _ _ => rfl
    | succ n ih =>
      intro s d y
      cases d with
      | none => rfl
      | some d => exact (ih _ _ _).trans (hstep s d y)
  exact hloop ..

/-- DATA opens no stream. -/
theorem opensStream_data (hframe : (o.item i).frame = .data f) : opensStream o i = none := by
  unfold opensStream
  rw [hframe]

/-- **DATA.** -/
theorem prepData_prepares (h : o.session.Tabled) (hi : i < o.allocated)
    (hframe : (o.item i).frame = .data f) (hres : o.prepData i f env = .ok (o', r)) :
    Prepares o o' i (opensStream o i) ∧ (r = .ready → ReadyFor o o' i (.data f)) := by
  rw [opensStream_data hframe]
  unfold Outbound.prepData at hres
  dsimp only at hres
  split at hres
  · cases hres
  split at hres
  · split at hres
    · cases hres
      exact ⟨Prepares.detach h _, nofun⟩
    · cases hres
      exact ⟨Prepares.refl h, nofun⟩
  · next x hpred hx =>
    unfold Outbound.prepDataOn at hres
    split at hres
    · cases hres
      exact ⟨Prepares.defer h _ _, nofun⟩
    split at hres
    · cases hres
      exact ⟨Prepares.defer h _ _, nofun⟩
    · cases hres
      have h1 : Prepares o (o.detachItem x) i none := Prepares.detach h x
      exact ⟨h1.grows hi ((addRstStream_submitted ..).grows h1.tabled), nofun⟩
    · next length eof noEndStream _ _ =>
      obtain ⟨o1, hpack, hres⟩ := bind_eq_ok.1 hres
      cases hres
      unfold Outbound.packData at hpack
      dsimp only at hpack
      split at hpack
      · cases hpack
        refine ⟨Prepares.of_eq h rfl (fun _ => rfl) rfl ?_
          (fun _ hj => update_of_ne hj _ _) ?_ ?_,
          fun _ => ⟨⟨_, update_self _ _ _, ?_⟩, x, hx, ?_⟩⟩
        · exact Session.carried_of_pending (streamReschedule_pending ..)
        · simp [Alike, Outbound.modifyFrame, OutboundItem.kind, hframe]
        · simp [OutboundItem.canceled, hframe]
        · simp only [Bool.and_eq_true, Bool.or_eq_true]
          exact fun h => .inr h.1.1
        · rw [← hx]
          exact hpred
      · cases hpack
  · cases hres

/-- **`session_prep_frame`.** -/
theorem prepFrame_prepares (h : o.session.Tabled) (hi : i < o.allocated)
    (hres : o.prepFrame i env = .ok (o', r)) :
    Prepares o o' i (opensStream o i) ∧ (r = .ready → ReadyFor o o' i (o.item i).frame) := by
  unfold Outbound.prepFrame at hres
  dsimp only at hres
  cases hframe : (o.item i).frame with
  | headers f =>
    rw [hframe] at hres
    exact prepHeaders_prepares h hi hframe hres
  | pushPromise promised nva =>
    rw [hframe] at hres
    exact prepPushPromise_prepares h hframe hres
  | data f =>
    rw [hframe] at hres
    exact prepData_prepares h hi hframe hres
  | goaway n a b =>
    rw [hframe] at hres
    cases hres
    have : opensStream o i = none := by
      unfold opensStream
      rw [hframe]
    rw [this]
    exact ⟨Prepares.of_eq h rfl (fun hf => absurd hframe (hf n a b)) rfl (fun _ _ h => h)
      (fun _ _ => rfl) (Alike.refl _) (·), fun _ => ⟨rfl, rfl, rfl⟩⟩
  | priority | rstStream | settings | ping | windowUpdate =>
    rw [hframe] at hres
    cases hres
    have : opensStream o i = none := by
      unfold opensStream
      rw [hframe]
    rw [this]
    exact ⟨Prepares.refl h, fun _ => rfl⟩

/-- Only DATA is deferred. -/
theorem opensStream_of_deferred (hres : o.prepFrame i env = .ok (o', .deferred)) :
    opensStream o i = none := by
  have hpack : packHeaders env ≠ .deferred := by
    unfold packHeaders
    split_ifs
    · nofun
    · nofun
  unfold Outbound.prepFrame at hres
  dsimp only at hres
  cases hframe : (o.item i).frame with
  | headers f =>
    rw [hframe] at hres
    dsimp only [Outbound.prepHeaders] at hres
    split_ifs at hres
    · cases hres
    · obtain ⟨s, -, hres⟩ := bind_eq_ok.1 hres
      dsimp only at hres
      split at hres
      · cases hres
      · exact absurd (congrArg Prod.snd (Except.ok.inj hres)) hpack
    · split at hres
      · exact absurd (congrArg Prod.snd (Except.ok.inj hres)) hpack
      · cases hres
  | pushPromise promised nva =>
    rw [hframe] at hres
    obtain ⟨s, -, hres⟩ := bind_eq_ok.1 hres
    dsimp only at hres
    split at hres
    · cases hres
    · split at hres
      · cases hres
      · exact absurd (congrArg Prod.snd (Except.ok.inj hres)) hpack
  | _ =>
    unfold opensStream
    rw [hframe]

/-- GOAWAY is always ready. -/
theorem prepFrame_goaway {a b : Bool} (hf : (o.item i).frame = .goaway n a b)
    (hres : o.prepFrame i env = .ok (o', r)) : r = .ready := by
  unfold Outbound.prepFrame at hres
  rw [hf] at hres
  cases hres
  rfl

/-! ## Popping -/

/-- The scheduler finds an item of a stream. -/
theorem exists_item_of_nextOutboundLoop {s : Sched}
    (h : nextOutboundLoop s n x = some i) : ∃ y, s.item y = some i := by
  induction n generalizing x with
  | zero => cases h
  | succ n ih =>
    rw [nextOutboundLoop] at h
    split_ifs at h
    · exact ⟨x, h⟩
    · split at h
      · cases h
      · exact ih h

/-- The item `i` was taken from the head of a queue, or is the one that the scheduler
chooses. -/
structure Popped (o o1 : Outbound) (i : ItemPtr) : Prop where
  eq : o1 = { o with
    session := { o.session with
      items := { o.session.items with queued := o1.session.items.queued } }
    obUrgent := o1.obUrgent, obReg := o1.obReg, obSyn := o1.obSyn }
  source : (o.obUrgent = i :: o1.obUrgent ∧ o1.obReg = o.obReg ∧ o1.obSyn = o.obSyn) ∨
    (o.obReg = i :: o1.obReg ∧ o1.obUrgent = o.obUrgent ∧ o1.obSyn = o.obSyn) ∨
    (o.obSyn = i :: o1.obSyn ∧ o1.obUrgent = o.obUrgent ∧ o1.obReg = o.obReg) ∨
    ((∃ x, o.session.tree.sched.item x = some i) ∧ o1.obUrgent = o.obUrgent ∧
      o1.obReg = o.obReg ∧ o1.obSyn = o.obSyn)

/-- **`nghttp2_session_pop_next_ob_item`.** -/
theorem popNextObItem_popped (h : o.popNextObItem env = (o1, some i)) : Popped o o1 i := by
  unfold Outbound.popNextObItem at h
  split at h
  · next j l hl =>
    cases h
    exact ⟨rfl, .inl ⟨hl, rfl, rfl⟩⟩
  split at h
  · next j l hl =>
    cases h
    exact ⟨rfl, .inr (.inl ⟨hl, rfl, rfl⟩)⟩
  split at h
  · next j l hl =>
    split_ifs at hl
    cases h
    exact ⟨rfl, .inr (.inr (.inl ⟨hl, rfl, rfl⟩))⟩
  · split_ifs at h
    · simp only [Prod.mk.injEq] at h
      obtain ⟨rfl, h⟩ := h
      exact ⟨rfl, .inr (.inr (.inr ⟨exists_item_of_nextOutboundLoop h, rfl, rfl, rfl⟩))⟩
    · cases h

/-- Nothing is popped. -/
theorem popNextObItem_none (h : o.popNextObItem env = (o1, none)) : o1 = o := by
  unfold Outbound.popNextObItem at h
  split at h
  · cases h
  · split at h
    · cases h
    · split at h
      · cases h
      · exact (congrArg Prod.fst h).symm

section

variable (h : Popped o o1 i)
include h

/-- The items stay as they are. -/
theorem Popped.item : o1.item = o.item := by rw [h.eq]

/-- The streams stay as they are. -/
theorem Popped.info : o1.session.info = o.session.info := by rw [h.eq]

/-- The ids stay as they are. -/
theorem Popped.sameIds : Session.SameIds o.session o1.session := by
  rw [h.eq]
  exact ⟨rfl, rfl, rfl, rfl⟩

/-- The same streams are found. -/
theorem Popped.getStream (id : ℕ) : o1.session.getStream id = o.session.getStream id := by
  rw [h.eq]
  rfl

/-- The queues get shorter. -/
theorem Popped.sublist :
    o1.obUrgent.Sublist o.obUrgent ∧ o1.obReg.Sublist o.obReg ∧ o1.obSyn.Sublist o.obSyn := by
  rcases h.source with ⟨hu, hr, hs⟩ | ⟨hr, hu, hs⟩ | ⟨hs, hu, hr⟩ | ⟨-, hu, hr, hs⟩
  · rw [hu, hr, hs]
    exact ⟨List.sublist_cons_self .., .refl _, .refl _⟩
  · rw [hu, hr, hs]
    exact ⟨.refl _, List.sublist_cons_self .., .refl _⟩
  · rw [hu, hr, hs]
    exact ⟨.refl _, .refl _, List.sublist_cons_self ..⟩
  · rw [hu, hr, hs]
    exact ⟨.refl _, .refl _, .refl _⟩

/-- An item that has been popped comes from `ob_reg` or `ob_syn`, or is of another kind. -/
theorem Popped.origin (hf : o.Filed) : i < o.allocated ∧
    ((o.obReg = i :: o1.obReg ∧ o1.obSyn = o.obSyn ∧ (o.item i).kind ≠ .headers true) ∨
      (o.obSyn = i :: o1.obSyn ∧ o1.obReg = o.obReg ∧ ∃ b, (o.item i).kind = .headers b) ∨
      (o1.obReg = o.obReg ∧ (o.item i).kind ∈ [.settings, .ping, .data, .headers false])) := by
  rcases h.source with ⟨hu, hr, -⟩ | ⟨hr, -, hs⟩ | ⟨hs, -, hr⟩ | ⟨⟨x, hx⟩, -, hr, -⟩
  · obtain ⟨hlt, hk⟩ := hf.urgent i (by simp [hu])
    exact ⟨hlt, .inr (.inr ⟨hr, by rcases hk with hk | hk <;> simp [hk]⟩)⟩
  · obtain ⟨hlt, hk, -⟩ := hf.reg i (by simp [hr])
    exact ⟨hlt, .inl ⟨hr, hs, hk⟩⟩
  · obtain ⟨hlt, hk⟩ := hf.syn i (by simp [hs])
    exact ⟨hlt, .inr (.inl ⟨hs, hr, hk⟩)⟩
  · obtain ⟨-, hlt, hk⟩ := hf.tree x i hx
    exact ⟨hlt, .inr (.inr ⟨hr, by rcases hk with hk | hk <;> simp [hk]⟩)⟩

/-- A request or a promise that is popped was waiting in one of the two queues, and does so no
more. -/
theorem Popped.waited (hf : o.Filed)
    (hid : (o.item i).opens = some id) : i ∈ o.obReg ++ o.obSyn ∧ i ∉ o1.obReg ++ o1.obSyn := by
  have hnd := hf.nodup
  rcases (h.origin hf).2 with ⟨hr, hs, -⟩ | ⟨hs, hr, -⟩ | ⟨-, hk⟩
  · rw [hr, ← hs, List.cons_append, List.nodup_cons] at hnd
    exact ⟨by simp [hr], hnd.1⟩
  · rw [hs, ← hr, List.nodup_middle, List.nodup_cons] at hnd
    exact ⟨by simp [hs], hnd.1⟩
  · simp only [List.mem_cons, List.not_mem_nil, or_false] at hk
    rcases hk with hk | hk | hk | hk <;> simp [OutboundItem.opens, hk] at hid

/-- An item that has been popped is an old one, and no other item opens its stream. -/
theorem Popped.filed (hf : o.Filed) :
    o1.Filed ∧ i < o1.allocated ∧ ∀ id, (o1.item i).opens = some id →
      ∀ j ∈ o1.obReg ++ o1.obSyn, (o1.item j).opens ≠ some id := by
  have hitem := h.item
  have halloc : o1.allocated = o.allocated := by rw [h.eq]
  have htree : o1.session.tree = o.session.tree := by rw [h.eq]
  have hids := h.sameIds
  obtain ⟨hu, hr, hs⟩ := h.sublist
  have hmem := (hr.append hs).subset
  refine ⟨?_, halloc ▸ (h.origin hf).1, fun id hid j hj hj' => ?_⟩
  · constructor
    case urgent =>
      rw [hitem, halloc]
      exact fun j hj => hf.urgent j (hu.subset hj)
    case reg =>
      rw [hitem, halloc]
      exact fun j hj => hf.reg j (hr.subset hj)
    case syn =>
      rw [hitem, halloc]
      exact fun j hj => hf.syn j (hs.subset hj)
    case tree =>
      rw [hitem, halloc, htree]
      exact hf.tree
    case nodup => exact hf.nodup.sublist (hr.append hs)
    case asks =>
      rw [hitem, hids.unsent]
      exact fun j hj => hf.asks j (hmem hj)
    case distinct =>
      rw [hitem]
      exact fun j hj k hk => hf.distinct j (hmem hj) k (hmem hk)
    case sorted =>
      rw [hitem]
      exact hf.sorted.sublist hs
    case unsent_lt =>
      rw [hids.unsent, hids.nextStreamId]
      exact hf.unsent_lt
    case unsent_nodup =>
      rw [hids.unsent]
      exact hf.unsent_nodup
    case unsent_mine =>
      rw [hids.unsent]
      exact fun id hid => (hids.isMyStreamId id).trans (hf.unsent_mine id hid)
    case next_mine =>
      rw [hids.nextStreamId]
      exact (hids.isMyStreamId _).trans hf.next_mine
  · rw [hitem] at hid hj'
    obtain ⟨hi, hgone⟩ := h.waited hf hid
    exact hgone (hf.distinct j (hmem hj) i hi id hj' hid ▸ hj)

end

/-- The stream that is closed if the item fails. -/
theorem openedStreamId_eq (it : OutboundItem) : openedStreamId it = it.opens := by
  unfold openedStreamId OutboundItem.opens OutboundItem.kind
  cases it.frame with
  | headers f =>
    dsimp only
    by_cases hcat : f.cat = .request
    · simp [hcat]
    · simp [hcat]
  | _ => rfl

/-- The item asks for the stream that it opens. -/
theorem opens_of_opensStream (h : opensStream o i = some (id, st)) :
    (o.item i).opens = some id := by
  unfold opensStream at h
  unfold OutboundItem.opens OutboundItem.kind
  split at h
  · next f hf =>
    split_ifs at h with hcond
    simp only [Bool.and_eq_true, decide_eq_true_eq] at hcond
    cases h
    simp [hf, hcond.1.1]
  · next promised nva hf =>
    split_ifs at h
    cases h
    simp [hf]
  · cases h

/-- There is no active item any more. -/
def cleared (o : Outbound) : Outbound := { o.setAob none with state := .popItem, sent := false }

/-- The active item is done with. -/
theorem Grows.clear (h : Grows o o') : Grows o.cleared o'.cleared :=
  { h with
    aob := rfl
    state := rfl
    sent := rfl
    filed := fun hf => { h.filed { hf with } with } }

/-- The active item is freed. -/
theorem Grows.reset (h : Grows o o') : Grows o.cleared o'.activeOutboundItemReset := by
  have hfree : Grows o'.cleared o'.activeOutboundItemReset := by
    unfold Outbound.activeOutboundItemReset
    dsimp only
    split
    · exact Grows.refl h.tabled
    · next i _ => exact (freeItem_grows h.tabled i).clear
  exact h.clear.trans hfree

/-- The item could not be sent: the stream it has opened is closed, and there is no active
item any more. -/
def Drops (o o' : Outbound) (opened : Option (ℕ × StreamState)) : Prop :=
  Grows o.cleared o' ∧ ∀ id st, opened = some (id, st) → o'.session.getStream id = none

/-- The same streams are found. -/
theorem activeOutboundItemReset_getStream (id : ℕ) :
    o.activeOutboundItemReset.session.getStream id = o.session.getStream id := by
  unfold Outbound.activeOutboundItemReset
  dsimp only
  split
  · rfl
  · rfl

/-- **The item is given up.** -/
theorem prepFailed_drops {e : LibError} {opened : Option (ℕ × StreamState)} (h : o.session.Tabled)
    (hi : i < o.allocated) (hopened : ∀ id st, opened = some (id, st) → (o.item i).opens = some id)
    (hres : o.prepFailed i e env = .ok o') : Drops o o' opened := by
  obtain ⟨o1, hclose, hres⟩ := bind_eq_ok.1 hres
  have hsub := submitAll_grows h (notSendCallback env (o.item i).frame)
  set o0 := o.submitAll (notSendCallback env (o.item i).frame) with ho0
  have hopens : (o0.item i).opens = (o.item i).opens := (hsub.item i hi).alike.opens
  -- the stream that the frame has opened is closed
  have hclosed : Grows o0 o1 ∧ ∀ id, (o.item i).opens = some id →
      o1.session.getStream id = none := by
    unfold Outbound.closeOpened at hclose
    rw [openedStreamId_eq, hopens] at hclose
    split at hclose
    · next id hid =>
      obtain ⟨hg, hnone⟩ := closeStream_grows hsub.tabled hclose
      refine ⟨hg, fun id' hid' => ?_⟩
      rw [hid] at hid'
      cases hid'
      exact hnone
    · next hid =>
      rw [← Except.ok.inj hclose]
      refine ⟨Grows.refl hsub.tabled, fun id' hid' => ?_⟩
      rw [hid] at hid'
      cases hid'
  have hreset := ((hsub.trans hclosed.1).trans (freeItem_grows hclosed.1.tabled i)).reset
  have hend : Grows (o1.freeItem i).activeOutboundItemReset o' := by
    cases hres
    split_ifs
    · exact (terminateSession_submitted ..).grows hreset.tabled
    · exact Grows.refl hreset.tabled
  refine ⟨hreset.trans hend, fun id st hid => ?_⟩
  -- a stream that can be found at the end was there after the other one had been closed
  rw [Option.eq_none_iff_forall_not_mem]
  intro x hx
  have hx := (hend.entry hx).1
  rw [activeOutboundItemReset_getStream id] at hx
  cases (hclosed.2 id (hopened id st hid)).symm.trans hx

/-- **What a turn that pops an item can do**: nothing is there to be popped, or the item is
prepared and becomes the active item, or it is given up. -/
theorem popItem_cases (htab : o.session.Tabled) (hf : o.Filed)
    (hres : o.popItem env = .ok o') : o' = o ∨ ∃ o1 i o2,
      o.popNextObItem env = (o1, some i) ∧ Popped o o1 i ∧
      Prepares o1 o2 i (opensStream o1 i) ∧ o2.Filed ∧
      ((ReadyFor o1 o2 i (o1.item i).frame ∧ o' = o2.activate i env) ∨
        ((∀ n a b, (o1.item i).frame ≠ .goaway n a b) ∧ Drops o2 o' (opensStream o1 i))) := by
  unfold Outbound.popItem at hres
  split at hres
  · next o1 hpop =>
    cases hres
    exact .inl (popNextObItem_none hpop)
  · next o1 i hpop =>
    obtain ⟨⟨o2, r⟩, hprep, hres⟩ := bind_eq_ok.1 hres
    have hp := popNextObItem_popped hpop
    obtain ⟨hf1, hi, hother⟩ := hp.filed hf
    have htab1 : o1.session.Tabled := by
      rw [hp.eq]
      exact htab
    obtain ⟨hpreps, hready⟩ := prepFrame_prepares htab1 hi hprep
    have hf2 := hpreps.filed hf1 fun id st hid => hother id (opens_of_opensStream hid)
    refine .inr ⟨o1, i, o2, hpop, hp, hpreps, hf2, ?_⟩
    dsimp only at hres
    split at hres
    · cases hres
      refine .inr ⟨fun n a b hf => ?_, (Grows.refl hpreps.tabled).reset, fun id st hid => ?_⟩
      · cases prepFrame_goaway hf hprep
      rw [opensStream_of_deferred hprep] at hid
      cases hid
    · refine .inr ⟨fun n a b hf => ?_, prepFailed_drops hpreps.tabled (hi.trans_le hpreps.allocated)
        (fun id st hid => ?_) hres⟩
      · cases prepFrame_goaway hf hprep
      rw [hpreps.self.opens]
      exact opens_of_opensStream hid
    · cases hres
      exact .inl ⟨hready rfl, rfl⟩

/-! ## After sending -/

/-- Whether END_STREAM is set on a frame. -/
def endsStream : Frame → Bool
  | .data f => f.endStream
  | .headers f => f.endStream
  | _ => false

/-- The session fields of a stream once HEADERS on it have been sent. -/
def headersOutcome (a : StreamInfo) : HeadersCat → StreamInfo
  | .request => { a with state := .opening }
  | .pushResponse => { a with state := .opened, push := false }
  | .response => { a with state := .opened }
  | .headers => a

/-- The session fields of a stream once a frame on it has been sent: HEADERS that begin a
request or a response write the state, whatever it was. -/
def sentOutcome (a : StreamInfo) : Frame → StreamInfo
  | .headers f => headersOutcome a f.cat
  | _ => a

/-- The stream is a promise as before, and keeps its state or enters the state CLOSING. -/
def Proceeds (a b : StreamInfo) : Prop := b.push = a.push ∧ (b.state = a.state ∨ b.state = .closing)

variable {frame : Frame}

/-- A stream may be reset. -/
theorem MayClose.proceeds (h : MayClose a b) : Proceeds a b := by
  rcases h with rfl | rfl
  · exact ⟨rfl, .inl rfl⟩
  · exact ⟨rfl, .inr rfl⟩

/-- Two changes, one after the other. -/
theorem Proceeds.trans (h : Proceeds a b) (h' : Proceeds b c) : Proceeds a c := by
  refine ⟨h'.1.trans h.1, ?_⟩
  rcases h'.2 with hc | hc
  · rw [hc]
    exact h.2
  · exact .inr hc

/-- A reset stream stays so. -/
theorem Proceeds.closing (h : Proceeds a b) (ha : a.state = .closing) : b.state = .closing :=
  h.2.elim (fun heq => heq.trans ha) id

/-- A stream may be reset before. -/
theorem Proceeds.sentOutcome (h : Proceeds a b) (frame : Frame) :
    Proceeds (sentOutcome a frame) (sentOutcome b frame) := by
  cases frame with
  | headers f =>
    change Proceeds (headersOutcome a f.cat) (headersOutcome b f.cat)
    cases f.cat with
    | headers => exact h
    | pushResponse => exact ⟨rfl, .inl rfl⟩
    | request | response => exact ⟨h.1, .inl rfl⟩
  | _ => exact h

/-- The session fields of a stream on which a frame was sent: the stream is shut down if the
frame had END_STREAM, and HEADERS may have written its state. -/
def Marks (frame : Frame) (a b : StreamInfo) : Prop :=
  (a.shutWr = true ∨ endsStream frame = true → b.shutWr = true) ∧ Proceeds (sentOutcome a frame) b

/-- No stream becomes a promise. -/
theorem Marks.push (h : Marks frame a b) (hb : b.push = true) : a.push = true := by
  rw [h.2.1] at hb
  cases frame with
  | headers f =>
    revert hb
    cases hcat : f.cat <;> simp [sentOutcome, headersOutcome, hcat]
  | _ => exact hb

/-- The stream is not reserved again. -/
theorem Marks.reserved (h : Marks frame a b) (hb : b.state = .reserved) :
    a.state = .reserved ∧ b.push = a.push := by
  obtain ⟨-, hpush, hstate⟩ := h
  have hout : (sentOutcome a frame).state = .reserved := by
    rcases hstate with heq | heq
    · exact heq.symm.trans hb
    · cases heq.symm.trans hb
  rw [hpush]
  cases frame with
  | headers f =>
    revert hout
    cases hcat : f.cat <;> simp [sentOutcome, headersOutcome, hcat]
  | _ => exact ⟨hout, rfl⟩

/-- The stream may be reset before. -/
theorem Marks.left (h : MayClose a b) (h' : Marks frame b c) : Marks frame a c := by
  refine ⟨fun hshut => h'.1 (hshut.imp_left fun hw => ?_),
    (h.proceeds.sentOutcome frame).trans h'.2⟩
  rcases h with rfl | rfl
  · exact hw
  · exact hw

/-- The stream may be reset afterwards. -/
theorem Marks.right (h : Marks frame a b) (h' : MayClose b c) : Marks frame a c := by
  refine ⟨fun hshut => ?_, h.2.trans h'.proceeds⟩
  rcases h' with rfl | rfl
  · exact h.1 hshut
  · exact h.1 hshut

/-- What happens when a frame on the stream `id` has been sent. -/
structure Sends (o o' : Outbound) (id : ℕ) (frame : Frame) : Prop extends Keeps o o' where
  entry : ∀ ⦃id' x⦄, o'.session.getStream id' = some x → o.session.getStream id' = some x ∧
    ((id' ≠ id ∧ MayClose (o.session.info x) (o'.session.info x)) ∨
      (id' = id ∧ Marks frame (o.session.info x) (o'.session.info x)))

/-- Nothing happens if the stream is gone, or for a frame that does not concern it. -/
theorem Sends.refl (h : o.session.Tabled) (hid : o.session.getStream id = none ∨
    (endsStream frame = false ∧ ∀ a, sentOutcome a frame = a)) : Sends o o id frame where
  toKeeps := (Grows.refl h).toKeeps
  entry id' x hx := by
    refine ⟨hx, ?_⟩
    rcases hid with hnone | ⟨hend, hout⟩
    · exact .inl ⟨fun heq => Option.some_ne_none x ((heq ▸ hx).symm.trans hnone), MayClose.refl _⟩
    by_cases heq : id' = id
    · exact .inr ⟨heq, by simp [hend], by rw [hout]; exact (MayClose.refl _).proceeds⟩
    · exact .inl ⟨heq, MayClose.refl _⟩

/-- Something happens before. -/
theorem Sends.grows_left (h : Grows o o1) (h' : Sends o1 o2 id frame) :
    Sends o o2 id frame where
  toKeeps := h.toKeeps.trans h'.toKeeps
  entry id' x hx := by
    obtain ⟨hmid, hinfo'⟩ := h'.entry hx
    obtain ⟨hold, hinfo⟩ := h.entry hmid
    refine ⟨hold, ?_⟩
    rcases hinfo' with ⟨hid, hinfo'⟩ | ⟨hid, hmarks⟩
    · exact .inl ⟨hid, hinfo.trans hinfo'⟩
    · exact .inr ⟨hid, .left hinfo hmarks⟩

/-- Something happens afterwards. -/
theorem Sends.grows_right (h : Sends o o1 id frame) (h' : Grows o1 o2) :
    Sends o o2 id frame where
  toKeeps := h.toKeeps.trans h'.toKeeps
  entry id' x hx := by
    obtain ⟨hmid, hinfo'⟩ := h'.entry hx
    obtain ⟨hold, hinfo⟩ := h.entry hmid
    refine ⟨hold, ?_⟩
    rcases hinfo with ⟨hid, hinfo⟩ | ⟨hid, hmarks⟩
    · exact .inl ⟨hid, hinfo.trans hinfo'⟩
    · exact .inr ⟨hid, hmarks.right hinfo'⟩

/-- One stream has one id. -/
theorem getStream_inj {id' : ℕ} (h : s.Tabled) (hx : s.getStream id = some x)
    (hy : s.getStream id' = some y) : y = x ↔ id' = id := by
  have hkey := (h.of_getStreamRaw (Session.getStream_eq_some_iff.1 hx).1).1
  have hkey' := (h.of_getStreamRaw (Session.getStream_eq_some_iff.1 hy).1).1
  constructor
  · rintro rfl
    exact hkey'.symm.trans hkey
  · rintro rfl
    exact Option.some.inj (hy.symm.trans hx)

section

variable (h : o.session.Tabled)
include h

/-- The session fields of the stream `x`, the only one that can be found under `id`, change. -/
theorem Sends.mark
    (hx : ∀ id' y, o.session.getStream id' = some y → (y = x ↔ id' = id))
    (hs' : s' = { o.session with info := s'.info, numOutgoingStreams := s'.numOutgoingStreams })
    (hne : ∀ y, y ≠ x → s'.info y = o.session.info y)
    (hlive : (s'.info x).closed = false → (s'.info x).state ≠ .idle →
      (o.session.info x).closed = false ∧ (o.session.info x).state ≠ .idle)
    (hmarks : Marks frame (o.session.info x) (s'.info x)) :
    Sends o { o with session := s' } id frame := by
  have hstreams : s'.streams = o.session.streams := by rw [hs']
  have hsame : s'.tree = o.session.tree ∧ s'.items = o.session.items ∧
      s'.server = o.session.server ∧ s'.lastRecvStreamId = o.session.lastRecvStreamId ∧
      s'.nextStreamId = o.session.nextStreamId ∧ s'.unsent = o.session.unsent := by
    rw [hs']
    exact ⟨rfl, rfl, rfl, rfl, rfl, rfl⟩
  obtain ⟨htree, hitems, hserver, hrecv, hnext, hunsent⟩ := hsame
  refine { (Grows.refl h).toKeeps with
    numbered := .of_allocated rfl
    aob := congrArg ItemStore.aob hitems
    server := hserver
    lastRecvStreamId := hrecv
    takes := ?_
    filed := fun hf => hf.of_alike le_rfl (fun _ _ => Alike.refl _) rfl rfl rfl
      hserver hnext hunsent (fun y j hj => htree ▸ hj)
    tabled := h.of_streams hstreams (congrArg _ htree)
    entry := fun id' y hy => ?_ }
  · show Takes _ s'.nextStreamId _ s'.unsent
    rw [hnext, hunsent]
    exact Takes.refl ..
  obtain ⟨hraw, hclosed, hidle⟩ := Session.getStream_eq_some_iff.1 hy
  have hraw : o.session.getStreamRaw id' = some y := by
    rw [Session.getStreamRaw, ← hstreams]
    exact hraw
  by_cases hyx : y = x
  · have hold : o.session.getStream id' = some y := by
      rw [hyx] at hclosed hidle hraw ⊢
      exact Session.getStream_eq_some_iff.2 ⟨hraw, hlive hclosed hidle⟩
    exact ⟨hold, .inr ⟨(hx id' y hold).1 hyx, hyx ▸ hmarks⟩⟩
  · have hinfo : s'.info y = o.session.info y := hne y hyx
    have hold : o.session.getStream id' = some y :=
      Session.getStream_eq_some_iff.2 ⟨hraw, hinfo ▸ ⟨hclosed, hidle⟩⟩
    exact ⟨hold, .inl ⟨fun hid => hyx ((hx id' y hold).2 hid), .inl hinfo⟩⟩

/-- The stream of HEADERS that were sent. -/
theorem headers_mark {f : HeadersFrame} (hx : o.session.getStream id = some x) :
    Sends o ((o.openAfterHeaders x f.cat).shutWrIf x f.endStream) id (.headers f) := by
  set o' := (o.openAfterHeaders x f.cat).shutWrIf x f.endStream with ho'
  have hs : o' = { o with session := o'.session } ∧ o'.session = { o.session with
      info := o'.session.info, numOutgoingStreams := o'.session.numOutgoingStreams } := by
    rw [ho']
    cases f.cat <;> cases f.endStream <;> exact ⟨rfl, rfl⟩
  rw [hs.1]
  refine Sends.mark h (fun id' y hy => getStream_inj h hx hy) hs.2 (fun y hy => ?_)
    (fun _ _ => (Session.getStream_eq_some_iff.1 hx).2) ?_
  · rw [ho']
    cases f.cat <;> cases f.endStream <;>
      simp [Outbound.openAfterHeaders, Outbound.shutWrIf, Outbound.modifyInfo,
        Session.modifyInfo, hy]
  · rw [ho']
    cases hcat : f.cat <;> cases hend : f.endStream <;>
      simp [Marks, Proceeds, sentOutcome, headersOutcome, endsStream, hcat, hend,
        Outbound.openAfterHeaders, Outbound.shutWrIf, Outbound.modifyInfo, Session.modifyInfo]

/-- PRIORITY that was sent. -/
theorem sendPriority_grows
    (hres : o.session.step (.sendPriority id pri) = .ok s) : Grows o { o with session := s } := by
  replace hres := Session.settle_of_step rfl hres
  dsimp only [Session.settle] at hres
  split at hres
  · split at hres
    · have ht := Session.reprioritizeStream_trims h hres
      exact Grows.of_sameFrame ht.toSameFrame ht.tabled ht.entry
    · cases hres
      exact Grows.refl h
  · cases hres
    exact Grows.refl h

/-- `session_after_frame_sent1` for the frames that carry no data of a stream. -/
theorem afterFrameSent1_acts {S : Submission → Prop} (hS : ∀ sub, env.Submits sub → S sub)
    (haob : o.session.items.aob = some i)
    (hdata : ∀ f, (o.item i).frame ≠ .data f) (hheaders : ∀ f, (o.item i).frame ≠ .headers f)
    (hres : o.afterFrameSent1 env = .ok o') : Acts S o o' ∧
      ((o.item i).frame = .rstStream → o'.session.getStream (o.item i).streamId = none) := by
  have hsub : Acts S o (o.submitAll env.onFrameSend) :=
    submitAll_acts h fun sub hsub => hS sub (.inl hsub)
  have htab := hsub.grows.tabled
  unfold Outbound.afterFrameSent1 at hres
  rw [haob] at hres
  dsimp only at hres
  cases hframe : (o.item i).frame with
  | data f => exact absurd hframe (hdata f)
  | headers f => exact absurd hframe (hheaders f)
  | priority pri =>
    rw [hframe] at hres
    obtain ⟨s, hs, hres⟩ := bind_eq_ok.1 hres
    cases hres
    exact ⟨hsub.trans (.quiet (sendPriority_grows htab hs) rfl), nofun⟩
  | rstStream =>
    rw [hframe] at hres
    obtain ⟨hclose, hnone⟩ := closeStream_acts htab hS hres
    exact ⟨hsub.trans hclose, fun _ => hnone⟩
  | goaway n notice term =>
    rw [hframe] at hres
    dsimp only at hres
    split at hres
    · cases hres
      exact ⟨hsub, nofun⟩
    · have hflag : Acts S o { o.submitAll env.onFrameSend with
          session := { (o.submitAll env.onFrameSend).session with goawaySent := true }
          termSent := (o.submitAll env.onFrameSend).termSent || term } :=
        hsub.trans (.quiet (Grows.of_eq htab rfl rfl rfl fun hf => { hf with }) rfl)
      exact ⟨hflag.trans (closeStreamOnGoaway_acts hflag.grows.tabled hS hres), nofun⟩
  | settings | pushPromise | ping | windowUpdate =>
    rw [hframe] at hres
    cases hres
    exact ⟨hsub, nofun⟩

/-- Frames that are neither DATA nor HEADERS. -/
theorem afterFrameSent1_grows (haob : o.session.items.aob = some i)
    (hdata : ∀ f, (o.item i).frame ≠ .data f) (hheaders : ∀ f, (o.item i).frame ≠ .headers f)
    (hres : o.afterFrameSent1 env = .ok o') : Grows o o' ∧
      ((o.item i).frame = .rstStream → o'.session.getStream (o.item i).streamId = none) :=
  (afterFrameSent1_acts (S := fun _ => True) h (fun _ _ => trivial) haob hdata hheaders
    hres).imp_left Acts.grows

end

/-! ## The stream of the frame that was sent -/

/-- A frame on the stream `id` has been sent.  Before and after the fields of the stream are
written, frames are submitted and streams are closed. -/
def Stamps (S : Submission → Prop) (o o' : Outbound) (id : ℕ) (frame : Frame) : Prop :=
  ∃ o1 o2, Acts S o o1 ∧ (Sends o1 o2 id frame ∧ o2.allocated = o1.allocated) ∧ Acts S o2 o'

/-- The frame has been sent. -/
theorem Stamps.sends {S : Submission → Prop} (h : Stamps S o o' id frame) :
    Sends o o' id frame := by
  obtain ⟨o1, o2, h1, ⟨hsends, -⟩, h2⟩ := h
  exact (Sends.grows_left h1.grows hsends).grows_right h2.grows

section

variable {S : Submission → Prop} (h : o.session.Tabled) (hS : ∀ sub, env.Submits sub → S sub)
include h hS

/-- HEADERS have been sent. -/
theorem headersSent_stamps {f : HeadersFrame} (hres : o.headersSent i f env = .ok o') :
    Stamps S o o' (o.item i).streamId (.headers f) := by
  unfold Outbound.headersSent at hres
  cases hget : o.session.getStream (o.item i).streamId with
  | none =>
    rw [hget] at hres
    cases hres
    exact ⟨o, o, .refl h, ⟨.refl h (.inl hget), rfl⟩, .refl h⟩
  | some x =>
    rw [hget] at hres
    obtain ⟨o3, hclose, hres⟩ := bind_eq_ok.1 hres
    set o1 := if o.session.tree.sched.item x = some i then o.detachItem x else o with ho1
    have h1 : Acts S o o1 ∧ o1.session.getStream (o.item i).streamId = some x := by
      rw [ho1]
      split_ifs
      · exact ⟨.quiet (detachItem_grows h x) rfl, hget⟩
      · exact ⟨.refl h, hget⟩
    -- the state and the shutdown flag of the stream
    have h2 := headers_mark (f := f) h1.1.grows.tabled h1.2
    have h3 : Acts S _ o3 := closeStreamIfShutRdwr_acts h2.tabled hS hclose
    refine ⟨o1, _, h1.1, ⟨h2, ?_⟩, h3.trans ?_⟩
    · cases f.cat <;> cases f.endStream <;> rfl
    cases hres
    split_ifs
    · exact .data h3.grows.tabled _ _
    · exact .refl h3.grows.tabled

/-- DATA has been sent. -/
theorem dataSent_stamps (hf : f.endStream = true → f.eof = true)
    (hres : o.dataSent i f env = .ok o') : Stamps S o o' (o.item i).streamId (.data f) := by
  have hsub : ∀ {o1 : Outbound}, o1.session.Tabled → Acts S o1 (o1.submitAll env.onFrameSend) :=
    fun htab => submitAll_acts htab fun sub hsub => hS sub (.inl hsub)
  unfold Outbound.dataSent at hres
  cases hget : o.session.getStream (o.item i).streamId with
  | none =>
    rw [hget] at hres
    cases hres
    exact ⟨o, o, .refl h, ⟨.refl h (.inl hget), rfl⟩, hsub h⟩
  | some x =>
    rw [hget] at hres
    dsimp only at hres
    split at hres
    · have hdet := detachItem_grows h x
      have h1 : Acts S o _ := .trans (.quiet hdet rfl) (hsub hdet.tabled)
      split at hres
      · next hend =>
        set o1 := (o.detachItem x).submitAll env.onFrameSend
        have h2 : Sends o1 (o1.shutWrIf x true) (o.item i).streamId (.data f) := by
          refine Sends.mark (x := x) h1.grows.tabled (fun id' y hy => ?_) rfl (fun y hy => ?_)
            (fun hc hi => ?_) ?_
          · exact getStream_inj h hget (h1.grows.entry hy).1
          · simp [Session.modifyInfo, hy]
          · simpa [Session.modifyInfo] using And.intro hc hi
          · simp [Marks, Proceeds, sentOutcome, Session.modifyInfo]
        exact ⟨o1, _, h1, ⟨h2, rfl⟩, closeStreamIfShutRdwr_acts h2.tabled hS hres⟩
      · next hend =>
        cases hres
        have htab := h1.grows.tabled
        exact ⟨_, _, h1, ⟨.refl htab (.inr ⟨by simpa [endsStream] using hend, fun _ => rfl⟩), rfl⟩,
          .refl htab⟩
    · next heof =>
      cases hres
      have hend : f.endStream = false := by
        rw [← Bool.not_eq_true]
        exact fun h => heof (hf h)
      have htab := (hsub h).grows.tabled
      exact ⟨_, _, hsub h, ⟨.refl htab (.inr ⟨hend, fun _ => rfl⟩), rfl⟩, .refl htab⟩

/-- **`session_after_frame_sent1`** writes the state of the stream only for HEADERS that begin
a request or a response. -/
theorem afterFrameSent1_stamps (haob : o.session.items.aob = some i) (hi : i < o.allocated)
    (heof : ∀ f, (o.item i).frame = .data f → f.endStream = true → f.eof = true)
    (hres : o.afterFrameSent1 env = .ok o') :
    Stamps S o o' (o.item i).streamId (o.item i).frame := by
  have hother : (∀ f, (o.item i).frame ≠ .data f) → (∀ f, (o.item i).frame ≠ .headers f) →
      Acts S o o' := fun hdata hheaders => (afterFrameSent1_acts h hS haob hdata hheaders hres).1
  cases hframe : (o.item i).frame with
  | data f =>
    simp only [Outbound.afterFrameSent1, haob, hframe] at hres
    exact dataSent_stamps h hS (heof f hframe) hres
  | headers f =>
    have hsub : Acts S o (o.submitAll env.onFrameSend) :=
      submitAll_acts h fun sub hsub => hS sub (.inl hsub)
    simp only [Outbound.afterFrameSent1, haob, hframe] at hres
    obtain ⟨o1, o2, h1, h2, h3⟩ := headersSent_stamps hsub.grows.tabled hS hres
    rw [(hsub.grows.item i hi).streamId] at h2
    exact ⟨o1, o2, hsub.trans h1, h2, h3⟩
  | _ =>
    have hacts := hother (by simp [hframe]) (by simp [hframe])
    have htab := hacts.grows.tabled
    exact ⟨o', o', hacts, ⟨.refl htab (.inr ⟨rfl, fun _ => rfl⟩), rfl⟩, .refl htab⟩

end

/-- **`session_after_frame_sent1`.** -/
theorem afterFrameSent1_sends (h : o.session.Tabled) (haob : o.session.items.aob = some i)
    (hi : i < o.allocated)
    (heof : ∀ f, (o.item i).frame = .data f → f.endStream = true → f.eof = true)
    (hres : o.afterFrameSent1 env = .ok o') : Sends o o' (o.item i).streamId (o.item i).frame :=
  (afterFrameSent1_stamps (S := fun _ => True) h (fun _ _ => trivial) haob hi heof hres).sends

end Nghttp2.Outbound

/-! ## Events that open no stream -/

namespace Nghttp2.Session

/-- **What an event does that opens no stream.** -/
inductive Settles (s : Session) : Event → Session → Prop
  | same {e : Event} : Settles s e s
  | offered {e : Event} {id : ℕ} (hnew : s.isNewPeerStreamId id = true) :
      Settles s e { s with lastRecvStreamId := id }
  | submitStream : Settles s .submitStream
      { s with nextStreamId := s.nextStreamId + 2, unsent := s.unsent ++ [s.nextStreamId] }
  | setNextStreamId {id : ℕ} (hle : s.nextStreamId ≤ id) (hmine : s.isMyStreamId id = true) :
      Settles s (.setNextStreamId id) { s with nextStreamId := id }
  | reprioritize {e : Event} {x : Ptr} {pri : PrioritySpec} {s' : Session}
      (hres : s.reprioritizeStream x pri = .ok s') : Settles s e s'
  | close {id : ℕ} {s' : Session} (hres : s.closeStream id = .ok s') : Settles s (.close id) s'
  | setState {id : ℕ} {st : StreamState} {x : Ptr} (hx : s.getStream id = some x)
    (hst : st ≠ .idle) :
      Settles s (.setState id st) (s.modifyInfo x fun i => { i with state := st })
  | shutdown {id : ℕ} {rd wr : Bool} {x : Ptr} (hx : s.getStream id = some x) :
      Settles s (.shutdown id rd wr) (s.modifyInfo x fun i =>
        { i with shutRd := i.shutRd || rd, shutWr := i.shutWr || wr })
  | fulfillMine {id : ℕ} {x : Ptr} (hx : s.getStream id = some x) (hpush : (s.info x).push = true)
      (hmine : s.isMyStreamId id = true) : Settles s (.fulfillPush id)
        { s.modifyInfo x fun i => { i with state := .opened, push := false } with
          numOutgoingStreams := s.numOutgoingStreams + 1 }
  | fulfillPeer {id : ℕ} {x : Ptr} (hx : s.getStream id = some x) (hpush : (s.info x).push = true)
      (hmine : ¬ s.isMyStreamId id = true) : Settles s (.fulfillPush id)
        { s.modifyInfo x fun i => { i with state := .opened, push := false } with
          numIncomingReservedStreams := s.numIncomingReservedStreams - 1
          numIncomingStreams := s.numIncomingStreams + 1 }
  | setLimits {n p : ℕ} : Settles s (.setLimits n p)
      { s with maxConcurrentStreams := n, pendingMaxConcurrentStreams := p }
  | sendGoaway : Settles s .sendGoaway { s with goawaySent := true }
  | tree {e : Event} {t : StreamTree} (halloc : t.allocated = s.tree.allocated)
      (hcar : Outbound.external e = true →
        ∀ x i, t.sched.item x = some i → s.tree.sched.item x = some i) :
      Settles s e { s with tree := t }

/-- **Every event that opens no stream.** -/
theorem settles_of_settle {s s' : Session} {e : Event} (hres : s.settle e = .ok s') :
    Settles s e s' := by
  cases e with
  | close id => exact .close hres
  | recvPriority id pri | sendPriority id pri =>
    dsimp only [settle] at hres
    split at hres
    · split at hres
      · exact .reprioritize hres
      · cases hres
        exact .same
    · cases hres
      exact .same
  | recvHeaders | recvPushPromise =>
    rw [← Except.ok.inj hres]
    split_ifs with hcond
    · exact .offered (Bool.and_eq_true_iff.1 hcond).2
    · exact .same
  | submitStream =>
    rw [← Except.ok.inj hres]
    split_ifs
    · exact .submitStream
    · exact .same
  | setNextStreamId id =>
    rw [← Except.ok.inj hres]
    split_ifs with hcond
    · simp only [Bool.and_eq_true, decide_eq_true_eq] at hcond
      exact .setNextStreamId hcond.1 hcond.2
    · exact .same
  | setLimits => exact Except.ok.inj hres ▸ .setLimits
  | sendGoaway => exact Except.ok.inj hres ▸ .sendGoaway
  | sendRequest | sendPushPromise | upgrade => exact Except.ok.inj hres ▸ .same
  | _ =>
    -- the event is about a stream that may not be there
    rw [← Except.ok.inj hres]
    split
    swap
    · exact .same
    next x hx =>
    first
    | exact .shutdown hx
    | exact .tree (Outbound.streamDetachItem_allocated ..) nofun
    | split_ifs
      all_goals first
        | exact .same
        | exact .setState hx ‹_›
        | exact .fulfillMine hx ‹_› ‹_›
        | exact .fulfillPeer hx ‹_› ‹_›
        | exact .tree (Outbound.streamAttachItem_allocated ..) nofun
        | exact .tree (Outbound.streamDeferItem_allocated ..) nofun
        | exact .tree (streamResumeDeferredItem_dep ..).2 fun _ y i hi =>
            (streamResumeDeferredItem_item ..).1 ▸ hi
        | exact .tree rfl nofun

end Nghttp2.Session
