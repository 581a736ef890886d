/-
# Outbound items over whole runs

Every event of the sending side keeps the ownership of items, with one exception:
`session_prep_frame` does not detach response HEADERS from their stream when the header
block is too large or cannot be packed.

* `Owned.prepFrame`, `Owned.popItem`: one turn of `nghttp2_session_mem_send_internal`;
* `Owned.afterFrameSent1`, `Owned.afterFrameSent2`: a frame has been sent;
* `Owned.step`, `Reachable.owned`: one event, and every run;
* `clean_iff_of_reachable`: no freed item is referred to exactly if attached HEADERS can be
  packed (`HeadersSafe`).
-/
import Nghttp2.OutboundInv

namespace Nghttp2

open ChainMap ParentForest
open Function (update update_of_ne update_self)

namespace Outbound

variable {o o' : Outbound} {kids kids' : Ptr → List Ptr} {chains chains' : ℕ → List Ptr}
  {x y : Ptr} {i j : ItemPtr} {id : ℕ} {env : Env}

/-! ## Popping -/

/-- **An item is taken from its queue.** -/
theorem Owned.pop {u r s : List ItemPtr} (h : Owned o kids chains)
    (hperm : o.queues.Perm (i :: (u ++ r ++ s)))
    (ho' : o' = { o with obUrgent := u, obReg := r, obSyn := s }.setQueued i false) :
    Owned o' kids chains ∧ Loose o' chains i ∧ (∀ f, (o'.item i).frame ≠ .data f) ∧
      o'.aob = o.aob ∧ o'.state = o.state := by
  subst ho'
  have hmem : ∀ j, j ∈ o.queues ↔ j = i ∨ j ∈ u ++ r ++ s := fun j => by
    rw [hperm.mem_iff, List.mem_cons]
  have hi : i ∈ o.queues := (hmem i).2 (Or.inl rfl)
  obtain ⟨hlt, hfreed, haob, hdata⟩ := h.queued hi
  obtain ⟨hnot, hnodup⟩ := List.nodup_cons.1 (hperm.nodup_iff.1 h.nodup)
  have hinv : Session.Inv (o.setQueued i false).session kids chains [] :=
    h.inv.of_sameTable (Session.sameTable_of_eq rfl)
  refine ⟨{ h with
    inv := hinv
    nodup := hnodup
    flag := fun j => ?_
    queued := fun {j} hj => h.queued ((hmem j).2 (Or.inr hj))
    attached := fun {x j} hx => ?_ }, ⟨⟨hlt, hfreed, hnot, haob⟩, fun x hx =>
      (h.attached hx).2.2.1 hi⟩, hdata, rfl,
      rfl⟩
  · show update o.session.items.queued i false j = true ↔ j ∈ u ++ r ++ s
    rcases eq_or_ne j i with rfl | hji
    · simpa using hnot
    · rw [update_of_ne hji, h.flag, hmem]
      simp [hji]
  · obtain ⟨h1, h2, h3, h4⟩ := h.attached hx
    exact ⟨h1, h2, fun hj => h3 ((hmem j).2 (Or.inr hj)), h4⟩

/-- The item is next in the dependency tree: the stream that carries it is active. -/
structure Next (o : Outbound) (chains : ℕ → List Ptr) (x : Ptr) (i : ItemPtr) : Prop where
  attached : o.Attached chains x i
  queued : o.session.tree.sched.queued x = true

/-- What the dependency tree offers is carried by a stream of the table. -/
theorem Owned.nextOutboundItem (h : Owned o kids chains)
    (hnext : streamNextOutboundItem o.session.tree root = some i) : ∃ x, o.Next chains x i := by
  obtain ⟨x, hin, hactx, hitem⟩ : ∃ x, InTree o.session.tree.dep x ∧
      streamActive o.session.tree.sched x = true ∧ o.itemOf x = some i := by
    rcases h.inv.tree.toTreeInv.nextOutboundItem_cases with ⟨hnone, -⟩ | ⟨x, j,
      hin, hact, hj, hsome⟩
    · cases hnext.symm.trans hnone
    · exact ⟨x, hin, hact, hj.trans (hsome.symm.trans hnext)⟩
  have hroot : x ≠ root := by
    rintro rfl
    have := h.rootItem
    rw [hitem] at this
    cases this
  refine ⟨x, ⟨(h.inv.inTree hin).resolve_left hroot, hitem⟩, ?_⟩
  obtain ⟨p, hp, -⟩ := (above_iff.1 hin).resolve_left (Ne.symm hroot)
  exact h.inv.tree.wf.sched.noLost x (by simp [show o.session.tree.dep.depPrev x = some p from hp])
    (streamSubtreeActive_iff.2 (Or.inl hactx))

/-- **`nghttp2_session_pop_next_ob_item`**: an item from a queue is loose, and one from the
dependency tree stays with its stream. -/
theorem Owned.popNextObItem (h : Owned o kids chains) (hpop : o.popNextObItem env = (o', some i)) :
    Owned o' kids chains ∧ o'.aob = o.aob ∧ o'.state = o.state ∧
      ((Loose o' chains i ∧ ∀ f, (o'.item i).frame ≠ .data f) ∨
      (o' = o ∧ ∃ x, o.Next chains x i)) := by
  have hqueue : ∀ {u r s}, o.queues.Perm (i :: (u ++ r ++ s)) →
      o' = { o with obUrgent := u, obReg := r, obSyn := s }.setQueued i false →
      Owned o' kids chains ∧ o'.aob = o.aob ∧ o'.state = o.state ∧
        ((Loose o' chains i ∧ ∀ f, (o'.item i).frame ≠ .data f) ∨
          (o' = o ∧ ∃ x, o.Next chains x i)) := by
    intro u r s hperm ho'
    obtain ⟨h', hloose, hdata, haob, hstate⟩ := h.pop hperm ho'
    exact ⟨h', haob, hstate, Or.inl ⟨hloose, hdata⟩⟩
  unfold Outbound.popNextObItem at hpop
  cases hu : o.obUrgent with
  | cons a l =>
    simp only [hu, Prod.mk.injEq, Option.some.injEq] at hpop
    obtain ⟨ho', rfl⟩ := hpop
    exact hqueue (u := l) (by simp [queues, hu]) ho'.symm
  | nil =>
    cases hr : o.obReg with
    | cons a l =>
      simp only [hu, hr, Prod.mk.injEq, Option.some.injEq] at hpop
      obtain ⟨ho', rfl⟩ := hpop
      exact hqueue (u := []) (r := l) (s := o.obSyn) (by simp [queues, hu, hr]) ho'.symm
    | nil =>
      simp only [hu, hr] at hpop
      split at hpop
      next a l hsyn =>
        rw [Prod.mk.injEq, Option.some.injEq] at hpop
        obtain ⟨ho', rfl⟩ := hpop
        split_ifs at hsyn with hmax
        exact hqueue (u := []) (r := []) (s := l) (by simp [queues, hu, hr, hsyn]) ho'.symm
      next =>
        obtain ⟨rfl, hnext⟩ := Prod.mk.inj hpop
        split_ifs at hnext
        exact ⟨h, rfl, rfl, Or.inr ⟨rfl, h.nextOutboundItem hnext⟩⟩

/-! ## Preparing -/

variable {f : HeadersFrame} {stream : Option Ptr} {e : Session.Event}

/-- An event of the stream table that is part of sending. -/
theorem Owned.sessionStep (h : Owned o kids chains) (hreuse : o.session.ReuseSafe e)
    (hspare : o.session.Spares e) (hquiet : e.quiet = true) :
    ∃ s kids' chains', o.session.step e = .ok s ∧ Owned { o with session := s } kids' chains' ∧
      Passes o { o with session := s } chains chains' := by
  obtain ⟨s, kids', chains', hres, hinv, hcar⟩ := h.inv.step hreuse hspare
  obtain ⟨h', hpass⟩ := h.carry hinv (hcar hquiet) fun _ hx => absurd hx List.not_mem_nil
  exact ⟨s, kids', chains', hres, h', hpass⟩

/-- The contents of an item in the hands of the function change. -/
theorem Owned.modifyHeld (h : Owned o kids chains) (hi : InHand o i) {f : Frame}
    (hf : Frame.attachable (o.item i).frame → Frame.attachable f) :
    Owned (o.modifyFrame i f) kids chains :=
  h.modifyFrame hi.aob (fun hq => absurd hq hi.queue) fun _ => hf

/-- What holds when `session_prep_frame` has returned: a frame that is ready is carried by
an open stream at most, and one that failed by none. -/
def Prepped (o : Outbound) (chains : ℕ → List Ptr) (i : ItemPtr) : PrepResult → Prop
  | .ready => InHand o i ∧ ∀ x, o.Attached chains x i → o.session.Live x
  | .deferred => True
  | .failed _ => Loose o chains i

/-- A loose item is prepared in any way. -/
theorem Loose.prepped (hi : Loose o chains i) (r : PrepResult) (hr : r ≠ .deferred) :
    Prepped o chains i r := by
  cases r with
  | ready => exact ⟨hi.toInHand, fun x hx => absurd hx (hi.stream x)⟩
  | deferred => exact absurd rfl hr
  | failed e => exact hi

theorem packHeaders_ne_deferred (env : Env) : packHeaders env ≠ .deferred := by
  unfold packHeaders
  split_ifs
  · nofun
  · nofun

/-- A predicate that begins with `session_predicate_for_stream_send` fails without an open
stream. -/
theorem predicateThen_none {check : Ptr → Option LibError}
    (h : o.predicateThen stream check = none) : ∃ x, stream = some x := by
  cases stream with
  | none => simp [predicateThen, predicateForStreamSend] at h
  | some x => exact ⟨x, rfl⟩

/-- HEADERS are classified only on an open stream. -/
theorem classifyHeaders_ok {cat : HeadersCat}
    (h : o.classifyHeaders stream = .ok cat) : cat ≠ .request ∧ ∃ x, stream = some x := by
  unfold classifyHeaders at h
  split_ifs at h with h1 h2
  · obtain rfl := Except.ok.inj h
    exact ⟨nofun, predicateThen_none h1⟩
  · obtain rfl := Except.ok.inj h
    exact ⟨nofun, predicateThen_none h2⟩
  · split at h
    next h3 =>
      obtain rfl := Except.ok.inj h
      exact ⟨nofun, predicateThen_none h3⟩
    next => cases h

/-- **The condition under which a stream that carries HEADERS gives them up**: the header
block is not too large, and if the stream can send it, it can be packed. -/
def Packable (o : Outbound) (i : ItemPtr) (env : Env) : Prop :=
  ∀ f, (o.item i).frame = .headers f →
    estimateHeadersPayload f.nva prioritySpeclen ≤ maxHeaderslen ∧
    ∀ cat, o.classifyHeaders (o.session.getStream (o.item i).streamId) = .ok cat → env.packs = true

section

variable (h : Owned o kids chains)
include h

/-- The function lets the stream go that carries the item. -/
theorem Owned.detachFromRaw (hi : InHand o i) :
    Owned (o.detachFromRaw i) kids chains ∧ Loose (o.detachFromRaw i) chains i ∧
      (o.detachFromRaw i).aob = o.aob ∧ (o.detachFromRaw i).state = o.state := by
  have hstay : (∀ x, ¬ o.Attached chains x i) → Owned o kids chains ∧ Loose o chains i ∧
      o.aob = o.aob ∧ o.state = o.state := fun hnot => ⟨h, ⟨hi, hnot⟩, rfl, rfl⟩
  unfold Outbound.detachFromRaw
  cases hraw : o.session.getStreamRaw (o.item i).streamId with
  | none =>
    refine hstay fun x hx => ?_
    rw [h.getStreamRaw hx] at hraw
    cases hraw
  | some x =>
    dsimp only
    split_ifs with hitem
    · have hx : o.Attached chains x i := ⟨(h.inv.getStreamRaw_iff.1 hraw).1, hitem⟩
      exact ⟨(h.detachItem x).1, ⟨⟨hi.allocated, hi.freed, hi.queue, hi.aob⟩,
        not_attached_detachItem h hx⟩, rfl, rfl⟩
    · refine hstay fun y hy => hitem ?_
      have hxy := h.getStreamRaw hy
      rw [hraw, Option.some.injEq] at hxy
      exact hxy ▸ hy.2

/-- **HEADERS on a stream that exists.** -/
theorem Owned.prepHeaders (hi : InHand o i) (hframe : (o.item i).frame = .headers f)
    (hcat : f.cat ≠ .request) (hpack : o.Packable i env ∨ Loose o chains i) :
    ∃ o' r, o.prepHeaders i f env = .ok (o', r) ∧ Owned o' kids chains ∧ Prepped o' chains i r ∧
      o'.aob = o.aob ∧ o'.state = o.state := by
  unfold Outbound.prepHeaders
  split_ifs with hsize
  · rcases hpack with hpack | hloose
    · exact absurd (hpack f hframe).1 (not_le.2 hsize)
    · exact ⟨o, _, rfl, h, hloose, rfl, rfl⟩
  have hmod : ∀ cat : HeadersCat, cat ≠ .request →
      Owned (o.modifyFrame i (.headers { f with cat := cat })) kids chains := fun cat hne =>
    h.modifyHeld hi fun _ => hne
  have hand : ∀ f', InHand (o.modifyFrame i f') i := fun _ =>
    ⟨hi.allocated, hi.freed, hi.queue, hi.aob⟩
  cases hclass : o.classifyHeaders (o.session.getStream (o.item i).streamId) with
  | error e =>
    obtain ⟨h', hloose, haob, hstate⟩ := (hmod .headers nofun).detachFromRaw (hand _)
    exact ⟨_, _, rfl, h', hloose, haob, hstate⟩
  | ok cat =>
    obtain ⟨hne, x, hget⟩ := classifyHeaders_ok hclass
    refine ⟨_, _, rfl, hmod cat hne, ?_, rfl, rfl⟩
    rcases hpack with hpack | hloose
    · rw [packHeaders, if_pos ((hpack f hframe).2 cat hclass)]
      refine ⟨hand _, fun y hy => ?_⟩
      -- the stream that carries the item is the open one
      have hraw : o.session.getStreamRaw (o.item i).streamId = some y := h.getStreamRaw hy
      rw [getStreamRaw_of_getStream hget, Option.some.injEq] at hraw
      exact hraw ▸ live_of_getStream hget
    · exact Loose.prepped ⟨hand _, hloose.stream⟩ _ (packHeaders_ne_deferred env)

/-- **Frames that open a stream** are carried by none. -/
theorem Owned.prepRequest (hi : Loose o chains i)
    (hreuse : o.session.ReuseSafe (.sendRequest (o.item i).streamId f.pri)) :
    ∃ o' r kids' chains', o.prepRequest i f env = .ok (o', r) ∧ Owned o' kids' chains' ∧
      Prepped o' chains' i r ∧ o'.aob = o.aob ∧ o'.state = o.state := by
  obtain ⟨s, kids', chains', hres, h', hpass⟩ := h.sessionStep hreuse nofun rfl
  have hloose := hpass.loose hi
  unfold Outbound.prepRequest
  simp only [hres, ok_bind]
  split
  · exact ⟨_, _, kids', chains', rfl, h', hloose, hpass.aob, hpass.state⟩
  · exact ⟨_, _, kids', chains', rfl, h', hloose.prepped _ (packHeaders_ne_deferred env), hpass.aob,
      hpass.state⟩

theorem Owned.prepPushPromise {promised : ℕ} {nva : List (ℕ × ℕ)} (hi : Loose o chains i)
    (hreuse : o.session.ReuseSafe (.sendPushPromise (o.item i).streamId promised)) :
    ∃ o' r kids' chains', o.prepPushPromise i promised nva env = .ok (o', r) ∧
      Owned o' kids' chains' ∧ Prepped o' chains' i r ∧ o'.aob = o.aob ∧ o'.state = o.state := by
  obtain ⟨s, kids', chains', hres, h', hpass⟩ := h.sessionStep hreuse nofun rfl
  have hloose := hpass.loose hi
  unfold Outbound.prepPushPromise
  simp only [hres, ok_bind]
  split_ifs
  · exact ⟨_, _, kids', chains', rfl, h', hloose, hpass.aob, hpass.state⟩
  · split
    · exact ⟨_, _, kids', chains', rfl, h', hloose, hpass.aob, hpass.state⟩
    · exact ⟨_, _, kids', chains', rfl, h', hloose.prepped _ (packHeaders_ne_deferred env),
        hpass.aob, hpass.state⟩

/-- A stream that carries DATA defers it. -/
theorem Owned.deferItem {flags : DeferFlags} (hitem : (o.itemOf x).isSome = true)
    (hflags : flags.any = true) : Owned (o.deferItem x flags) kids chains := by
  refine (h.carry (h.inv.withLinks (h.inv.tree.deferItem hitem hflags))
    (Session.carries_withTree (fun hi => ?_) chains) fun _ hx => absurd hx List.not_mem_nil).1
  rwa [streamDeferItem_item] at hi

/-- **DATA on an open stream.** -/
theorem Owned.prepDataOn {f : DataFrame} (hi : InHand o i) (hx : o.Next chains x i)
    (hlive : o.session.Live x) :
    ∃ o' r, o.prepDataOn i x f env = .ok (o', r) ∧ Owned o' kids chains ∧ Prepped o' chains i r ∧
      o'.aob = o.aob ∧ o'.state = o.state := by
  have hitem : (o.itemOf x).isSome = true := by rw [hx.attached.2]; rfl
  unfold Outbound.prepDataOn
  split_ifs
  · exact ⟨_, _, rfl, h.deferItem hitem rfl, trivial, rfl, rfl⟩
  cases env.read with
  | deferred => exact ⟨_, _, rfl, h.deferItem hitem rfl, trivial, rfl, rfl⟩
  | temporalFailure =>
    obtain ⟨h1, hpass⟩ := h.detachItem x
    have hloose : Loose (o.detachItem x) chains i :=
      ⟨⟨hi.allocated, hi.freed, hi.queue, hi.aob⟩, not_attached_detachItem h hx.attached⟩
    obtain ⟨h2, hsub⟩ := h1.submitted (addRstStream_submitted _ (o.item i).streamId)
    exact ⟨_, _, rfl, h2, hsub.toPasses.loose hloose, hsub.aob, hsub.state⟩
  | data length eof noEndStream noCopy =>
    have h1 := h.modifyHeld hi (f := .data { f with
      eof := f.eof || eof, endStream := eof && f.auxEndStream && !noEndStream }) fun _ => trivial
    set o1 := o.modifyFrame i (.data { f with
      eof := f.eof || eof, endStream := eof && f.auxEndStream && !noEndStream }) with ho1
    have hq : (o1.session.tree.setLastWritelen x length).sched.queued x = true := hx.queued
    obtain ⟨h2, hpass⟩ := h1.carry (h1.inv.withLinks (h1.inv.tree.reschedule hx.queued length))
      (Session.carries_withTree (fun hj => by rwa [h1.inv.tree.reschedule_item hx.queued] at hj)
        chains) fun _ hx => absurd hx List.not_mem_nil
    refine ⟨_, .ready, ?_, h2, ⟨⟨hi.allocated, hi.freed, hi.queue, hi.aob⟩, fun y hy => ?_⟩, rfl,
      rfl⟩
    · simp only [packData, ← ho1, hq, if_true]
      rfl
    · obtain rfl := h.unique hx.attached (hpass.attached hi.allocated hy)
      exact hlive

/-- **DATA.** -/
theorem Owned.prepData {f : DataFrame} (hi : InHand o i) (hx : o.Next chains x i) :
    ∃ o' r, o.prepData i f env = .ok (o', r) ∧ Owned o' kids chains ∧ Prepped o' chains i r ∧
      o'.aob = o.aob ∧ o'.state = o.state := by
  have hraw := h.getStreamRaw hx.attached
  have hsame : ∀ {y}, o.session.getStream (o.item i).streamId = some y → y = x := by
    intro y hy
    rw [getStreamRaw_of_getStream hy, Option.some.injEq] at hraw
    exact hraw
  have hassert : ((o.session.getStream (o.item i).streamId).any fun x =>
      o.session.tree.sched.item x ≠ some i) = false := by
    cases hget : o.session.getStream (o.item i).streamId with
    | none => rfl
    | some y =>
      obtain rfl := hsame hget
      simp [show o.session.tree.sched.item y = some i from hx.attached.2]
  unfold Outbound.prepData
  simp only [hassert, Bool.false_eq_true, if_false]
  split
  next e _ =>
    -- the stream may be closed, but it is in the table
    rw [hraw]
    exact ⟨_, _, rfl, (h.detachItem x).1, ⟨⟨hi.allocated, hi.freed, hi.queue, hi.aob⟩,
      not_attached_detachItem h hx.attached⟩, rfl, rfl⟩
  next y _ hget =>
    obtain rfl := hsame hget
    exact h.prepDataOn hi hx (live_of_getStream hget)
  next hpred hget =>
    rw [hget] at hpred
    obtain ⟨y, hy⟩ := predicateThen_none hpred
    cases hy

/-- Preparing the item opens no stream, or opens one that the table can take in. -/
def OpensSafely (o : Outbound) (i : ItemPtr) : Prop :=
  match (o.item i).frame with
  | .headers f => f.cat = .request → o.session.ReuseSafe (.sendRequest (o.item i).streamId f.pri)
  | .pushPromise promised _ =>
    o.session.ReuseSafe (.sendPushPromise (o.item i).streamId promised)
  | _ => True

/-- **`session_prep_frame`** for an item from a queue, or for one that a stream carries. -/
theorem Owned.prepFrame (hi : InHand o i)
    (hsource : (Loose o chains i ∧ ∀ f, (o.item i).frame ≠ .data f) ∨ ∃ x, o.Next chains x i)
    (hpack : o.Packable i env ∨ Loose o chains i) (hopen : o.OpensSafely i) :
    ∃ o' r kids' chains', o.prepFrame i env = .ok (o', r) ∧ Owned o' kids' chains' ∧
      Prepped o' chains' i r ∧ o'.aob = o.aob ∧ o'.state = o.state := by
  -- a frame of another type is carried by no stream
  have hloose : ¬ Frame.attachable (o.item i).frame → Loose o chains i := fun hnot =>
    ⟨hi, fun x hx => hnot (h.attached hx).2.2.2.2⟩
  have hplain : ∀ r, ¬ Frame.attachable (o.item i).frame → r ≠ .deferred →
      ∃ o' r' kids' chains', (pure (o, r) : Except Fault (Outbound × PrepResult)) = .ok (o', r') ∧
        Owned o' kids' chains' ∧ Prepped o' chains' i r' ∧ o'.aob = o.aob ∧ o'.state = o.state :=
    fun r hnot hr => ⟨o, r, kids, chains, rfl, h, (hloose hnot).prepped r hr, rfl, rfl⟩
  have hclosing : (if o.termOnSend then PrepResult.failed .sessionClosing else .ready) ≠
      .deferred := by
    split_ifs
    · nofun
    · nofun
  unfold Outbound.prepFrame
  unfold OpensSafely at hopen
  cases hframe : (o.item i).frame with
  | headers f =>
    rw [hframe] at hopen
    by_cases hcat : f.cat = .request
    · have hl := hloose (by rw [hframe]; exact not_not_intro hcat)
      simp only [Outbound.prepHeaders, hcat, if_true]
      split_ifs
      · exact ⟨o, _, kids, chains, rfl, h, hl, rfl, rfl⟩
      · exact h.prepRequest hl (hopen hcat)
    · obtain ⟨o', r, hres, h', hrest⟩ := h.prepHeaders hi hframe hcat hpack
      exact ⟨o', r, kids, chains, hres, h', hrest⟩
  | data f =>
    rcases hsource with ⟨-, hdata⟩ | ⟨x, hx⟩
    · exact absurd hframe (hdata f)
    · obtain ⟨o', r, hres, h', hrest⟩ := h.prepData (f := f) hi hx
      exact ⟨o', r, kids, chains, hres, h', hrest⟩
  | pushPromise promised nva =>
    rw [hframe] at hopen
    exact h.prepPushPromise (hloose (by rw [hframe]; exact id)) hopen
  | priority pri => exact hplain _ (by rw [hframe]; exact id) hclosing
  | rstStream => exact hplain _ (by rw [hframe]; exact id) hclosing
  | ping => exact hplain _ (by rw [hframe]; exact id) hclosing
  | goaway n a b =>
    have hl := hloose (by rw [hframe]; exact id)
    exact ⟨_, _, kids, chains, rfl, { h with },
      ⟨{ hl.toInHand with }, fun x hx => absurd hx (hl.2 x)⟩, rfl, rfl⟩
  | settings =>
    refine hplain _ (by rw [hframe]; exact id) ?_
    split_ifs
    · nofun
    · nofun
  | windowUpdate =>
    refine hplain _ (by rw [hframe]; exact id) ?_
    cases o.predicateWindowUpdateSend (o.item i).streamId with
    | none => nofun
    | some e => nofun

/-! ## Sending -/

/-- **A frame that cannot be sent** is freed. -/
theorem Owned.prepFailed (hi : Loose o chains i) (haob : o.aob = none) (e : LibError) :
    ∃ o' kids' chains', o.prepFailed i e env = .ok o' ∧ Owned o' kids' chains' := by
  obtain ⟨h1, hsub⟩ := h.submitAll (notSendCallback env (o.item i).frame)
  set o1 := o.submitAll (notSendCallback env (o.item i).frame) with ho1
  have hclose : ∃ o2 k2 c2, o1.closeOpened i env = .ok o2 ∧ Owned o2 k2 c2 ∧
      Passes o1 o2 chains c2 := by
    unfold closeOpened
    cases openedStreamId (o1.item i) with
    | none => exact ⟨o1, kids, chains, rfl, h1, Passes.refl o1 chains⟩
    | some id => exact h1.closeStream env id
  obtain ⟨o2, k2, c2, hres, h2, hpass⟩ := hclose
  have hall := hsub.toPasses.trans hpass
  have h3 := h2.freeItem (hall.loose hi)
  have haob2 : (o2.freeItem i).aob = none := hall.aob.trans haob
  have h4 := h3.reset fun j hj => by
    rw [haob2] at hj
    cases hj
  unfold Outbound.prepFailed
  rw [← ho1]
  simp only [hres, ok_bind]
  split_ifs
  · exact ⟨_, k2, c2, rfl, (h4.submitted (terminateSession_submitted ..)).1⟩
  · exact ⟨_, k2, c2, rfl, h4⟩

/-- **A frame that is ready** becomes the active item. -/
theorem Owned.activate (hi : InHand o i) (hlive : ∀ x, o.Attached chains x i → o.session.Live x)
    (env : Env) : Owned (o.activate i env) kids chains := by
  have hinv : Session.Inv (o.setAob (some i)).session kids chains [] :=
    h.inv.of_sameTable (Session.sameTable_of_eq rfl)
  unfold Outbound.activate
  refine { h with
    inv := hinv
    queued := fun {j} hj => ⟨(h.queued hj).1, (h.queued hj).2.1, fun hij => ?_, (h.queued hj).2.2.2⟩
    active := fun {j} hj => ?_
    live := fun {x j} hj hx => ?_
    sent := nofun
    state := ?_ }
  · obtain rfl := Option.some.inj hij
    exact hi.queue hj
  · obtain rfl := Option.some.inj hj
    exact ⟨hi.allocated, hi.freed⟩
  · obtain rfl := Option.some.inj hj
    exact hlive x hx
  · refine iff_of_false ?_ nofun
    dsimp only
    split_ifs
    · nofun
    · nofun

/-- **NGHTTP2_OB_POP_ITEM.** -/
theorem Owned.popItem (hstate : o.state = .popItem)
    (hpack : ∀ o1 i, o.popNextObItem env = (o1, some i) → o1.Packable i env ∨ Loose o1 chains i)
    (hopen : ∀ o1 i, o.popNextObItem env = (o1, some i) → o1.OpensSafely i) :
    ∃ o' kids' chains', o.popItem env = .ok o' ∧ Owned o' kids' chains' := by
  have haob : o.aob = none := h.state.1 hstate
  unfold Outbound.popItem
  cases hpop : o.popNextObItem env with
  | mk o1 next =>
    cases next with
    | none =>
      refine ⟨o1, kids, chains, rfl, ?_⟩
      -- nothing was popped
      unfold Outbound.popNextObItem at hpop
      split at hpop
      · cases hpop
      split at hpop
      · cases hpop
      split at hpop
      · cases hpop
      exact (Prod.mk.inj hpop).1 ▸ h
    | some i =>
      obtain ⟨h1, haob1, -, hsource⟩ := h.popNextObItem hpop
      have haob1' : o1.aob = none := haob1.trans haob
      have hi : InHand o1 i := by
        rcases hsource with ⟨hl, -⟩ | ⟨rfl, x, hx⟩
        · exact hl.toInHand
        · obtain ⟨hlt, hfreed, hq, -⟩ := h.attached hx.attached
          exact ⟨hlt, hfreed, hq, by rw [haob]; nofun⟩
      have hsource' : (Loose o1 chains i ∧ ∀ f, (o1.item i).frame ≠ .data f) ∨
          ∃ x, o1.Next chains x i := by
        rcases hsource with hl | ⟨rfl, hx⟩
        · exact Or.inl hl
        · exact Or.inr hx
      obtain ⟨o2, r, k2, c2, hres, h2, hprep, haob2, -⟩ :=
        h1.prepFrame hi hsource' (hpack o1 i hpop) (hopen o1 i hpop)
      have haob2' : o2.aob = none := haob2.trans haob1'
      simp only [hres, ok_bind]
      cases r with
      | deferred =>
        refine ⟨_, k2, c2, rfl, h2.reset fun j hj => ?_⟩
        rw [haob2'] at hj
        cases hj
      | failed e => exact h2.prepFailed hprep haob2' e
      | ready => exact ⟨_, k2, c2, rfl, h2.activate hprep.1 hprep.2 env⟩

/-- The active item can be given up: the stream that carries it wants to send more of it. -/
def Finished (o : Outbound) (chains : ℕ → List Ptr) : Prop :=
  ∀ i x, o.aob = some i → o.Attached chains x i → Frame.dataToBeContinued (o.item i).frame

theorem Passes.finished (hpass : Passes o o' chains chains')
    (hf : Finished o chains) : Finished o' chains' := by
  intro i x haob hx
  have haob' : o.aob = some i := hpass.aob.symm.trans haob
  have hlt := (h.active haob').1
  rw [hpass.item hlt fun hq => (h.queued hq).2.2.1 haob']
  exact hf i x haob' (hpass.attached hlt hx)

end

section Sent

variable (h : Owned o kids chains) (haob : o.aob = some i)
include h haob

theorem Owned.not_attached_of_getStream_none
    (hget : o.session.getStream (o.item i).streamId = none) (x : Ptr) :
      ¬ o.Attached chains x i := by
  intro hx
  rw [h.getStream_of_active haob hx] at hget
  cases hget

theorem Owned.eq_of_getStream (hget : o.session.getStream (o.item i).streamId = some x)
    (hy : o.Attached chains y i) : y = x := by
  rw [h.getStream_of_active haob hy, Option.some.injEq] at hget
  exact hget

/-- The open stream of the frame gives up the item. -/
theorem Owned.not_attached_of_detach (hget : o.session.getStream (o.item i).streamId = some x)
    (y : Ptr) : ¬ (o.detachItem x).Attached chains y i := by
  intro hy
  have hy' := (h.detachItem x).2.attached (h.active haob).1 hy
  obtain rfl := h.eq_of_getStream haob hget hy'
  exact not_attached_detachItem h hy' y hy

omit h in
theorem finished_of_not_attached (hnot : ∀ x, ¬ o.Attached chains x i) : Finished o chains := by
  intro j x hj hx
  rw [haob, Option.some.injEq] at hj
  exact absurd (hj ▸ hx) (hnot x)

end Sent

section

variable (h : Owned o kids chains)
include h

/-- The counter of outgoing streams and the flags of GOAWAY change. -/
theorem Owned.withCounters {n : ℕ} {b t : Bool}
    (ho' : o' = { o with
      session := { o.session with numOutgoingStreams := n, goawaySent := b }, termSent := t }) :
    Owned o' kids chains ∧ Passes o o' chains chains := by
  subst ho'
  obtain ⟨h', hpass⟩ := h.carry (s :=
    { o.session with numOutgoingStreams := n, goawaySent := b })
    (h.inv.of_sameTable (Session.sameTable_of_eq rfl)) (Session.Carries.of_rest rfl chains)
    fun _ hx => absurd hx List.not_mem_nil
  exact ⟨{ h' with }, { hpass with }⟩

/-- The state of the stream changes when its HEADERS were sent. -/
theorem Owned.openAfterHeaders (hlive : o.session.Live x) (cat : HeadersCat) :
    Owned (o.openAfterHeaders x cat) kids chains ∧
      Passes o (o.openAfterHeaders x cat) chains chains ∧
      (o.openAfterHeaders x cat).session.Live x := by
  cases cat with
  | headers => exact ⟨h, Passes.refl o chains, hlive⟩
  | request =>
    obtain ⟨h', hpass⟩ := h.modifyInfo (f := fun info => { info with state := .opening }) hlive
      (by simp) rfl
    exact ⟨h', hpass, live_modifyInfo (by simp) rfl hlive⟩
  | response =>
    obtain ⟨h', hpass⟩ := h.modifyInfo (f := fun info => { info with state := .opened }) hlive
      (by simp) rfl
    exact ⟨h', hpass, live_modifyInfo (by simp) rfl hlive⟩
  | pushResponse =>
    have hlive1 : (o.modifyInfo x fun info =>
        { info with state := .opened, push := false }).session.Live x :=
      live_modifyInfo (by simp) rfl hlive
    obtain ⟨h1, hpass1⟩ := h.modifyInfo
      (f := fun info => { info with state := .opened, push := false }) hlive (by simp) rfl
    obtain ⟨h2, hpass2⟩ := h1.withCounters (n := o.session.numOutgoingStreams + 1)
      (b := o.session.goawaySent) (t := o.termSent) rfl
    exact ⟨h2, hpass1.trans hpass2, hlive1⟩

theorem Owned.shutWrIf (hlive : o.session.Live x) (endStream : Bool) :
    Owned (o.shutWrIf x endStream) kids chains ∧ Passes o (o.shutWrIf x endStream)
      chains chains := by
  unfold Outbound.shutWrIf
  split_ifs
  · exact h.modifyInfo hlive hlive.2 rfl
  · exact ⟨h, Passes.refl o chains⟩

/-- **HEADERS have been sent**: the stream does not carry them any more. -/
theorem Owned.headersSent (haob : o.aob = some i) :
    ∃ o' kids' chains', o.headersSent i f env = .ok o' ∧ Owned o' kids' chains' ∧
      Finished o' chains' ∧ o'.aob = o.aob ∧ o'.state = o.state := by
  unfold Outbound.headersSent
  cases hget : o.session.getStream (o.item i).streamId with
  | none =>
    exact ⟨o, kids, chains, rfl, h,
      finished_of_not_attached haob (h.not_attached_of_getStream_none haob hget), rfl, rfl⟩
  | some x =>
    have hlive := live_of_getStream hget
    -- the item is detached, if the stream carries it
    have hdetach : ∃ o1, o1 = (if o.session.tree.sched.item x = some i then o.detachItem x else o) ∧
        Owned o1 kids chains ∧ Passes o o1 chains chains ∧ Finished o1 chains ∧
        o1.session.Live x := by
      refine ⟨_, rfl, ?_⟩
      split_ifs with hitem
      · obtain ⟨h1, hpass1⟩ := h.detachItem x
        exact ⟨h1, hpass1, finished_of_not_attached haob
          (h.not_attached_of_detach haob hget), hlive⟩
      · refine ⟨h, Passes.refl o chains, finished_of_not_attached haob fun y hy => hitem ?_, hlive⟩
        exact h.eq_of_getStream haob hget hy ▸ hy.2
    obtain ⟨o1, ho1, h1, hpass1, hfin, hlive1⟩ := hdetach
    obtain ⟨h2, hpass2, hlive2⟩ := h1.openAfterHeaders hlive1 f.cat
    obtain ⟨h3, hpass3⟩ := h2.shutWrIf hlive2 f.endStream
    obtain ⟨o4, k4, c4, hres4, h4, hpass4⟩ := h3.closeStreamIfShutRdwr env x
    have hpass := (hpass1.trans (hpass2.trans hpass3)).trans hpass4
    have hfin4 : Finished o4 c4 := ((hpass2.trans hpass3).trans hpass4).finished h1 hfin
    simp only [← ho1, hres4, ok_bind]
    split_ifs
    · obtain ⟨h5, hsub⟩ := h4.submit (.data (o4.item i).streamId true)
      exact ⟨_, k4, c4, rfl, h5, hsub.toPasses.finished h4 hfin4, hsub.aob.trans hpass.aob,
        hsub.state.trans hpass.state⟩
    · exact ⟨_, k4, c4, rfl, h4, hfin4, hpass.aob, hpass.state⟩

/-- **DATA has been sent**: the stream carries it if there is more to come. -/
theorem Owned.dataSent {f : DataFrame} (haob : o.aob = some i)
    (hframe : (o.item i).frame = .data f) :
    ∃ o' kids' chains', o.dataSent i f env = .ok o' ∧ Owned o' kids' chains' ∧
      Finished o' chains' ∧ o'.aob = o.aob ∧ o'.state = o.state := by
  have hcallback : Finished o chains → ∃ o' kids' chains',
      (pure (o.submitAll env.onFrameSend) : Except Fault Outbound) = .ok o' ∧
        Owned o' kids' chains' ∧ Finished o' chains' ∧ o'.aob = o.aob ∧ o'.state = o.state := by
    intro hfin
    obtain ⟨h', hsub⟩ := h.submitAll env.onFrameSend
    exact ⟨_, kids, chains, rfl, h', hsub.toPasses.finished h hfin, hsub.aob, hsub.state⟩
  unfold Outbound.dataSent
  cases hget : o.session.getStream (o.item i).streamId with
  | none =>
    exact hcallback (finished_of_not_attached haob (h.not_attached_of_getStream_none haob hget))
  | some x =>
    dsimp only
    split_ifs with heof hend
    · obtain ⟨h1, hpass1⟩ := h.detachItem x
      have hfin1 : Finished (o.detachItem x) chains :=
        finished_of_not_attached haob (h.not_attached_of_detach haob hget)
      obtain ⟨h2, hsub⟩ := h1.submitAll env.onFrameSend
      have hlive : (o.detachItem x).session.Live x := live_of_getStream hget
      obtain ⟨h3, hpass3⟩ := h2.shutWrIf (hsub.live hlive) true
      obtain ⟨o4, k4, c4, hres4, h4, hpass4⟩ := h3.closeStreamIfShutRdwr env x
      have hpass := hsub.toPasses.trans (hpass3.trans hpass4)
      exact ⟨o4, k4, c4, hres4, h4, hpass.finished h1 hfin1, hpass.aob, hpass.state⟩
    · obtain ⟨h1, hpass1⟩ := h.detachItem x
      obtain ⟨h2, hsub⟩ := h1.submitAll env.onFrameSend
      refine ⟨_, kids, chains, rfl, h2, hsub.toPasses.finished h1 ?_, hsub.aob, hsub.state⟩
      exact finished_of_not_attached haob (h.not_attached_of_detach haob hget)
    · refine hcallback fun j y hj hy => ?_
      rw [haob, Option.some.injEq] at hj
      subst hj
      rw [hframe]
      show f.eof = false
      simpa using heof

/-- **`session_after_frame_sent1`.** -/
theorem Owned.afterFrameSent1 (env : Env) :
    ∃ o' kids' chains', o.afterFrameSent1 env = .ok o' ∧ Owned o' kids' chains' ∧
      Finished o' chains' ∧ o'.aob = o.aob ∧ o'.state = o.state := by
  unfold Outbound.afterFrameSent1
  cases haob : o.session.items.aob with
  | none =>
    refine ⟨o, kids, chains, rfl, h, fun i x hi => ?_, rfl, rfl⟩
    cases haob.symm.trans hi
  | some i =>
    obtain ⟨h1, hsub⟩ := h.submitAll env.onFrameSend
    have haob1 : (o.submitAll env.onFrameSend).aob = some i := hsub.aob.trans haob
    -- a frame of another type is carried by no stream
    have hfin1 : ¬ Frame.attachable (o.item i).frame →
      Finished (o.submitAll env.onFrameSend) chains := fun hnot => hsub.toPasses.finished h
        (finished_of_not_attached haob fun x hx => hnot (h.attached hx).2.2.2.2)
    have hplain : ¬ Frame.attachable (o.item i).frame → ∃ o' kids' chains',
        (pure (o.submitAll env.onFrameSend) : Except Fault Outbound) = .ok o' ∧
          Owned o' kids' chains' ∧ Finished o' chains' ∧ o'.aob = o.aob ∧ o'.state = o.state :=
      fun hnot => ⟨_, kids, chains, rfl, h1, hfin1 hnot, hsub.aob, hsub.state⟩
    dsimp only
    cases hframe : (o.item i).frame with
    | data f => exact h.dataSent haob hframe
    | headers f =>
      obtain ⟨o', k', c', hres, h', hfin, haob', hstate'⟩ := h1.headersSent (f := f) haob1
      exact ⟨o', k', c', hres, h', hfin, haob'.trans hsub.aob, hstate'.trans hsub.state⟩
    | priority pri =>
      obtain ⟨s, k', c', hres, h', hpass⟩ := h1.sessionStep
        (e := .sendPriority ((o.submitAll env.onFrameSend).item i).streamId pri) nofun nofun rfl
      simp only [hres, ok_bind]
      exact ⟨_, k', c', rfl, h', hpass.finished h1 (hfin1 (by rw [hframe]; exact id)),
        hpass.aob.trans hsub.aob, hpass.state.trans hsub.state⟩
    | rstStream =>
      obtain ⟨o', k', c', hres, h', hpass⟩ := h1.closeStream env (o.item i).streamId
      exact ⟨o', k', c', hres, h', hpass.finished h1 (hfin1 (by rw [hframe]; exact id)),
        hpass.aob.trans hsub.aob, hpass.state.trans hsub.state⟩
    | goaway lastStreamId shutdownNotice termOnSend =>
      dsimp only
      split_ifs
      · exact hplain (by rw [hframe]; exact id)
      · obtain ⟨h2, hpass2⟩ := h1.withCounters
          (n := (o.submitAll env.onFrameSend).session.numOutgoingStreams) (b := true)
          (t := (o.submitAll env.onFrameSend).termSent || termOnSend) rfl
        obtain ⟨o', k', c', hres, h', hpass⟩ := h2.closeStreamOnGoaway env lastStreamId true
        have hall := hpass2.trans hpass
        exact ⟨o', k', c', hres, h', hall.finished h1 (hfin1 (by rw [hframe]; exact id)),
          hall.aob.trans hsub.aob, hall.state.trans hsub.state⟩
    | settings => exact hplain (by rw [hframe]; exact id)
    | ping => exact hplain (by rw [hframe]; exact id)
    | pushPromise promised nva => exact hplain (by rw [hframe]; exact id)
    | windowUpdate => exact hplain (by rw [hframe]; exact id)

/-- **`session_after_frame_sent2`.** -/
theorem Owned.afterFrameSent2 (hfin : Finished o chains) : Owned o.afterFrameSent2 kids chains := by
  unfold Outbound.afterFrameSent2
  cases haob : o.session.items.aob with
  | none => exact h
  | some i =>
    have hreset : (¬ Frame.dataToBeContinued (o.item i).frame) →
        Owned o.activeOutboundItemReset kids chains := by
      intro hnot
      refine h.reset fun j hj x hx => hnot ?_
      obtain rfl := Option.some.inj (haob.symm.trans hj)
      exact hfin _ x hj hx
    dsimp only
    cases hframe : (o.item i).frame with
    | data f =>
      dsimp only
      split_ifs with heof
      · exact hreset (by rw [hframe]; simp [Frame.dataToBeContinued, heof])
      split
      · exact h.clearAob
      next e x _ hget =>
        refine (h.detachItem x).1.reset fun j hj => ?_
        obtain rfl := Option.some.inj (haob.symm.trans hj)
        exact h.not_attached_of_detach haob hget
      next e _ hget =>
        refine h.reset fun j hj => ?_
        obtain rfl := Option.some.inj (haob.symm.trans hj)
        exact h.not_attached_of_getStream_none haob hget
    | headers f => exact hreset (by rw [hframe]; exact id)
    | priority pri => exact hreset (by rw [hframe]; exact id)
    | rstStream => exact hreset (by rw [hframe]; exact id)
    | settings => exact hreset (by rw [hframe]; exact id)
    | pushPromise promised nva => exact hreset (by rw [hframe]; exact id)
    | ping => exact hreset (by rw [hframe]; exact id)
    | goaway n a b => exact hreset (by rw [hframe]; exact id)
    | windowUpdate => exact hreset (by rw [hframe]; exact id)

/-- **NGHTTP2_OB_SEND_NO_COPY.** -/
theorem Owned.sendNoCopy (env : Env) (r : SendDataResult) :
    ∃ o' kids' chains', o.sendNoCopy env r = .ok o' ∧ Owned o' kids' chains' := by
  unfold Outbound.sendNoCopy
  cases haob : o.session.items.aob with
  | none => exact ⟨o, kids, chains, rfl, h⟩
  | some i =>
    dsimp only
    cases hget : o.session.getStream (o.item i).streamId with
    | none =>
      refine ⟨_, kids, chains, rfl, h.reset fun j hj => ?_⟩
      obtain rfl := Option.some.inj (haob.symm.trans hj)
      exact h.not_attached_of_getStream_none haob hget
    | some x =>
      cases r with
      | wouldBlock => exact ⟨o, kids, chains, rfl, h⟩
      | temporalFailure =>
        obtain ⟨h1, -⟩ := h.detachItem x
        obtain ⟨h2, hsub⟩ := h1.submitted (addRstStream_submitted _ (o.item i).streamId)
        refine ⟨_, kids, chains, rfl, h2.reset fun j hj y hy => ?_⟩
        obtain rfl := Option.some.inj ((hsub.aob.trans haob).symm.trans hj)
        exact h.not_attached_of_detach haob hget y (hsub.attached (h.active haob).1 hy)
      | sent =>
        obtain ⟨o1, k1, c1, hres, h1, hfin, -⟩ := h.afterFrameSent1 env
        exact ⟨_, k1, c1, by simp only [hres, ok_bind]; rfl, h1.afterFrameSent2 hfin⟩

end

/-! ## Runs -/

/-- The event opens no stream by reusing an idle stream that is not the last of its hash
chain. -/
def ReuseSafe (o : Outbound) : Event → Prop
  | .session e => external e = true → o.session.ReuseSafe e
  | .popItem env => o.state = .popItem → ∀ o₁ i, o.popNextObItem env = (o₁, some i) →
      o₁.OpensSafely i
  | _ => True

/-- **HEADERS that are popped from a stream can be packed**, or the stream is in no state to
send them. -/
def HeadersSafe (o : Outbound) : Event → Prop
  | .popItem env => o.state = .popItem → ∀ o₁ i x, o.popNextObItem env = (o₁, some i) →
      o₁.session.getStreamRaw (o₁.item i).streamId = some x → o₁.itemOf x = some i →
      o₁.Packable i env
  | _ => True

/-- The idle limit spares the streams that an event refers to. -/
def Spares (o : Outbound) : Event → Prop
  | .session e => external e = true → o.session.Spares e
  | _ => True

theorem quiet_of_external (he : external e = true) : e.quiet = true := by
  cases e with
  | close id => cases he
  | attachItem id i => cases he
  | _ => rfl

/-- **One event** succeeds and keeps the invariant. -/
theorem Owned.step {e : Event} (h : Owned o kids chains) (hreuse : o.ReuseSafe e)
    (hsafe : o.HeadersSafe e) (hspare : o.Spares e) :
    ∃ o' kids' chains', o.step e = .ok o' ∧ Owned o' kids' chains' := by
  have hsame : ∃ o' kids' chains', (pure o : Except Fault Outbound) = .ok o' ∧
      Owned o' kids' chains' := ⟨o, kids, chains, rfl, h⟩
  cases e with
  | submit sub => exact ⟨_, kids, chains, rfl, (h.submit sub).1⟩
  | session e =>
    simp only [Outbound.step]
    split_ifs with he
    · obtain ⟨s, kids', chains', hres, h', -⟩ :=
        h.sessionStep (hreuse he) (hspare he) (quiet_of_external he)
      exact ⟨_, kids', chains', by rw [hres]; rfl, h'⟩
    · exact hsame
  | close env id =>
    obtain ⟨o', kids', chains', hres, h', -⟩ := h.closeStream env id
    exact ⟨o', kids', chains', hres, h'⟩
  | recvGoaway env lastStreamId =>
    have h1 : Owned { o with goawayRecv := true } kids chains := { h with }
    obtain ⟨o', kids', chains', hres, h', -⟩ := h1.closeStreamOnGoaway env lastStreamId false
    exact ⟨o', kids', chains', hres, h'⟩
  | popItem env =>
    simp only [Outbound.step]
    split_ifs with hstate
    · refine h.popItem hstate (fun o1 i hpop => ?_) (hreuse hstate)
      obtain ⟨h1, haob, hstate1, hsource⟩ := h.popNextObItem hpop
      rcases hsource with ⟨hloose, -⟩ | ⟨rfl, x, hx⟩
      · exact Or.inr hloose
      · exact Or.inl (hsafe hstate o1 i x hpop (h.getStreamRaw hx.attached) hx.attached.2)
    · exact hsame
  | frameSent1 env =>
    simp only [Outbound.step]
    split_ifs
    · obtain ⟨o1, k1, c1, hres, h1, hfin, -⟩ := h.afterFrameSent1 env
      have h2 : Owned { o1 with sent := true } k1 c1 :=
        { h1 with sent := fun {x i} _ haob hx => hfin i x haob hx }
      exact ⟨_, k1, c1, by rw [hres]; rfl, h2⟩
    · exact hsame
  | frameSent2 =>
    refine ⟨_, kids, chains, rfl, ?_⟩
    split_ifs with hcond
    · rw [Bool.and_eq_true] at hcond
      exact h.afterFrameSent2 fun i x haob hx => h.sent hcond.2 haob hx
    · exact h
  | sendNoCopy env r =>
    simp only [Outbound.step]
    split_ifs
    · exact h.sendNoCopy env r
    · exact hsame

theorem Owned.of_step {e : Event} (h : Owned o kids chains) (hreuse : o.ReuseSafe e)
    (hsafe : o.HeadersSafe e) (hstep : o.step e = .ok o') :
    ∃ kids' chains', Owned o' kids' chains' := by
  have hspare : o.Spares e := by
    cases e with
    | session e =>
      intro he
      by_contra hnot
      simp only [Outbound.step, he, if_true, h.inv.step_fault (hreuse he) hnot] at hstep
      cases hstep
    | _ => trivial
  obtain ⟨o'', kids', chains', hok, h'⟩ := h.step hreuse hsafe hspare
  rw [hstep, Except.ok.injEq] at hok
  exact ⟨kids', chains', hok ▸ h'⟩

/-- The states that a new session reaches by events that meet the condition `P` and
succeed. -/
inductive Reachable (P : Outbound → Event → Prop) : Outbound → Prop
  | new (server : Bool) (n p r : ℕ) : Reachable P (Outbound.new server n p r)
  | step {o o' : Outbound} {e : Event} (ho : Reachable P o) (he : P o e)
    (hstep : o.step e = .ok o') :
      Reachable P o'

theorem new_owned (server : Bool) (n p r : ℕ) :
    Owned (Outbound.new server n p r) (fun _ => []) (fun _ => []) where
  inv := Session.new_inv server n p r
  rootItem := rfl
  nodup := List.nodup_nil
  flag _ := iff_of_false nofun List.not_mem_nil
  queued hi := absurd hi List.not_mem_nil
  attached := fun ⟨⟨_, hx⟩, _⟩ => absurd hx List.not_mem_nil
  active := nofun
  live := nofun
  sent := nofun
  once _ := Nat.zero_le 1
  fresh _ := rfl
  state := iff_of_true rfl rfl

/-- **Run lemma**: every reachable state owns its items. -/
theorem Reachable.owned (h : Reachable (fun o e => o.ReuseSafe e ∧ o.HeadersSafe e) o) :
    ∃ kids chains, Owned o kids chains := by
  induction h with
  | new server n p r => exact ⟨_, _, new_owned server n p r⟩
  | step _ he hstep ih =>
    obtain ⟨kids, chains, h⟩ := ih
    exact h.of_step he.1 he.2 hstep

/-- **No freed item is referred to.**  Every item is freed at most once; a freed item is in
no queue, it is not the active item, and no stream in the table or in the dependency tree
carries it; and every stream that waits in a queue of the dependency tree does so on
account of an item that has not been freed. -/
structure Clean (o : Outbound) : Prop where
  once : ∀ i, o.freed i ≤ 1
  queue : ∀ i, 0 < o.freed i → i ∉ o.queues
  aob : ∀ i, 0 < o.freed i → o.aob ≠ some i
  stream : ∀ i, 0 < o.freed i → ∀ x,
    o.session.getStreamRaw (o.session.streamId x) = some x ∨ InTree o.session.tree.dep x →
    o.itemOf x ≠ some i
  waits : ∀ x, InTree o.session.tree.dep x → o.session.tree.sched.queued x = true →
    ∃ y i, Above o.session.tree.dep.depPrev x y ∧ streamActive o.session.tree.sched y = true ∧
      o.itemOf y = some i ∧ o.freed i = 0

/-- A stream of the tree with an item is in the table. -/
theorem Owned.attached_of_inTree (h : Owned o kids chains) (hx : InTree o.session.tree.dep x)
    (hi : o.itemOf x = some i) : o.Attached chains x i := by
  refine ⟨(h.inv.inTree hx).resolve_left ?_, hi⟩
  rintro rfl
  have := h.rootItem
  rw [hi] at this
  cases this

/-- The invariant leaves no reference to a freed item. -/
theorem Owned.clean (h : Owned o kids chains) : o.Clean where
  once := h.once
  queue i hi hq := by
    have := (h.queued hq).2.1
    omega
  aob i hi haob := by
    have := (h.active haob).2
    omega
  stream i hi x hx hitem := by
    have hatt : o.Attached chains x i := by
      rcases hx with hx | hx
      · exact ⟨(h.inv.getStreamRaw_iff.1 hx).1, hitem⟩
      · exact h.attached_of_inTree hx hitem
    have := (h.attached hatt).2.1
    omega
  waits x hx hq := by
    have hdown := h.inv.tree.wf.tree.rooted.down
    obtain ⟨-, y, hy, hact⟩ := (h.inv.tree.wf.sched.queued_iff (hdown x)).1 hq
    have hitem : (o.itemOf y).isSome = true := by
      simp only [streamActive, Bool.and_eq_true] at hact
      exact hact.1
    obtain ⟨i, hi⟩ := Option.isSome_iff_exists.1 hitem
    have hin : InTree o.session.tree.dep y := Above.trans hx hy
    exact ⟨y, i, hy, hact, hi, (h.attached (h.attached_of_inTree hin hi)).2.1⟩

/-! ## The leak of response HEADERS -/

/-- A GOAWAY is queued, and no item is freed or detached for it. -/
theorem terminateSession_session (o : Outbound) (n : ℕ) :
    (o.terminateSession n).session.tree = o.session.tree ∧
      (o.terminateSession n).session.streams = o.session.streams ∧
      (o.terminateSession n).freed = o.freed := by
  unfold Outbound.terminateSession Outbound.addGoaway
  split_ifs
  · exact ⟨rfl, rfl, rfl⟩
  · exact ⟨rfl, rfl, rfl⟩
  · simp [Outbound.submitItem, Outbound.addItem, Outbound.push, setQueued]

/-- **Attached HEADERS that cannot be packed** are freed, and the stream still carries
them. -/
theorem Owned.not_clean_of_not_packable (h : Owned o kids chains) (hstate : o.state = .popItem)
    (hpop : o.popNextObItem env = (o, some i)) (hx : o.Attached chains x i)
    (hnot : ¬ o.Packable i env) (hok : o.popItem env = .ok o') : ¬ o'.Clean := by
  have haob : o.aob = none := h.state.1 hstate
  obtain ⟨hlt, hfreed, hq, hid, hatt⟩ := h.attached hx
  have hi : InHand o i := ⟨hlt, hfreed, hq, by rw [haob]; nofun⟩
  simp only [Packable, not_forall] at hnot
  obtain ⟨f, hframe, hbad⟩ := hnot
  rw [hframe] at hatt
  have hcat : f.cat ≠ .request := hatt
  -- the frame is refused while the stream carries it
  have hprep : ∃ o1 e f', o.prepFrame i env = .ok (o1, .failed e) ∧ Owned o1 kids chains ∧
      o1.Attached chains x i ∧ InHand o1 i ∧ o1.aob = none ∧ (o1.item i).frame = .headers f' ∧
      f'.cat ≠ .request := by
    simp only [Outbound.prepFrame, hframe, Outbound.prepHeaders, if_neg hcat]
    by_cases hsize : estimateHeadersPayload f.nva prioritySpeclen > maxHeaderslen
    · rw [if_pos hsize]
      exact ⟨o, .frameSize, f, rfl, h, hx, hi, haob, hframe, hcat⟩
    rw [if_neg hsize]
    have hclass : ∃ cat, o.classifyHeaders (o.session.getStream (o.item i).streamId) = .ok cat ∧
        env.packs = false := by
      by_contra hnone
      refine hbad ⟨not_lt.1 hsize, fun cat hcat => ?_⟩
      by_contra hpacks
      exact hnone ⟨cat, hcat, by simpa using hpacks⟩
    obtain ⟨cat, hclass, hpacks⟩ := hclass
    have hne := (classifyHeaders_ok hclass).1
    simp only [hclass, packHeaders, hpacks, Bool.false_eq_true, if_false]
    have hown : Owned (o.modifyFrame i (.headers { f with cat := cat })) kids chains :=
      h.modifyHeld hi fun _ => hne
    have hself : (o.modifyFrame i (.headers { f with cat := cat })).item i =
        ⟨(o.item i).streamId, .headers { f with cat := cat }⟩ := update_self ..
    exact ⟨_, _, { f with cat := cat }, rfl, hown, hx, ⟨hlt, hfreed, hq, hi.aob⟩, haob,
      by rw [hself], hne⟩
  obtain ⟨o1, e, f', hres, h1, hx1, hi1, haob1, hframe1, hcat1⟩ := hprep
  obtain ⟨h2, hsub⟩ := h1.submitAll (notSendCallback env (o1.item i).frame)
  set o2 := o1.submitAll (notSendCallback env (o1.item i).frame) with ho2
  have hx2 := hsub.keeps hi1.allocated hx1
  have hitem2 : o2.item i = o1.item i := hsub.item hi1.allocated hi1.queue
  have hopened : o2.closeOpened i env = .ok o2 := by
    simp only [closeOpened, openedStreamId, hitem2, hframe1, if_neg hcat1]
    rfl
  have haob2 : o2.session.items.aob = none := hsub.aob.trans haob1
  have hraw2 : o2.session.getStreamRaw (o2.session.streamId x) = some x :=
    h2.inv.getStreamRaw_iff.2 ⟨hx2.1, rfl⟩
  -- the rest frees the item and changes neither the tree nor the table
  have hrest : o'.session.tree = o2.session.tree ∧ o'.session.streams = o2.session.streams ∧
      o'.freed = (o2.freeItem i).freed := by
    simp only [Outbound.popItem, hpop, hres, ok_bind, Outbound.prepFailed, ← ho2, hopened] at hok
    obtain rfl := Except.ok.inj hok
    have hreset : (o2.freeItem i).activeOutboundItemReset =
        { (o2.freeItem i).setAob none with state := .popItem, sent := false } := by
      unfold activeOutboundItemReset
      rw [show (o2.freeItem i).session.items.aob = none from haob2]
    split_ifs
    · obtain ⟨htree, hstreams, hfr⟩ :=
        terminateSession_session (o2.freeItem i).activeOutboundItemReset env.lastProcStreamId
      rw [htree, hstreams, hfr, hreset]
      exact ⟨rfl, rfl, rfl⟩
    · rw [hreset]
      exact ⟨rfl, rfl, rfl⟩
  obtain ⟨htree, hstreams, hfr⟩ := hrest
  intro hclean
  have hpos : 0 < o'.freed i := by
    rw [hfr]
    have : (o2.freeItem i).freed i = o2.freed i + 1 := update_self ..
    omega
  refine hclean.stream i hpos x (Or.inl ?_) ?_
  · rw [Session.getStreamRaw, Session.streamId, hstreams]
    exact hraw2
  · rw [itemOf, htree]
    exact hx2.2

/-- **Ownership of outbound items.**  In a run in which every popped response HEADERS could be
packed so far, the next event leaves no reference to a freed item exactly if it meets this
condition too. -/
theorem clean_iff_of_reachable {e : Event}
    (h : Reachable (fun o e => o.ReuseSafe e ∧ o.HeadersSafe e) o) (hreuse : o.ReuseSafe e)
    (hstep : o.step e = .ok o') : o'.Clean ↔ o.HeadersSafe e := by
  obtain ⟨kids, chains, h⟩ := h.owned
  refine ⟨fun hclean => ?_, fun hsafe => ?_⟩
  · by_contra hunsafe
    cases e with
    | popItem env =>
      simp only [HeadersSafe, not_forall] at hunsafe
      obtain ⟨hstate, o₁, i, x, hpop, hraw, hitem, hnot⟩ := hunsafe
      obtain ⟨h₁, -, -, hsource⟩ := h.popNextObItem hpop
      have hx : o₁.Attached chains x i := ⟨(h₁.inv.getStreamRaw_iff.1 hraw).1, hitem⟩
      rcases hsource with ⟨hloose, -⟩ | ⟨rfl, -⟩
      · exact hloose.stream x hx
      · simp only [Outbound.step, if_pos hstate] at hstep
        exact h.not_clean_of_not_packable hstate hpop hx hnot hstep hclean
    | _ => exact hunsafe trivial
  · obtain ⟨kids', chains', h'⟩ := h.of_step hreuse hsafe hstep
    exact h'.clean

/-- The environment of a session whose windows are open and whose callbacks do nothing. -/
def quietEnv : Env where
  windowOpen := true
  remoteMaxConcurrentStreams := 100
  enablePush := true
  packs := true
  nextReadmax := 16384
  read := .deferred
  lastProcStreamId := 0
  onStreamClose := fun _ => []
  onFrameSend := []
  onFrameNotSend := []

/-- One turn of `nghttp2_session_mem_send` that sends an item. -/
def quietTurn : List Event := [.popItem quietEnv, .frameSent1 quietEnv, .frameSent2]

/-- A check for the two conditions: streams are opened with new ids, and HEADERS that are
popped can be packed. -/
def packsSafely (o : Outbound) : Event → Bool
  | .session e => o.session.opensNew e
  | .popItem env =>
    match o.popNextObItem env with
    | (_, none) => true
    | (o₁, some i) =>
      match (o₁.item i).frame with
      | .headers f =>
        o₁.session.opensNew (.sendRequest (o₁.item i).streamId f.pri) && env.packs &&
          estimateHeadersPayload f.nva prioritySpeclen ≤ maxHeaderslen
      | .pushPromise promised _ =>
        o₁.session.opensNew (.sendPushPromise (o₁.item i).streamId promised)
      | _ => true
  | _ => true

theorem safe_of_packsSafely {e : Event} (h : o.packsSafely e = true) :
    o.ReuseSafe e ∧ o.HeadersSafe e := by
  cases e with
  | session e => exact ⟨fun _ => Session.reuseSafe_of_opensNew h, trivial⟩
  | popItem env =>
    refine ⟨fun _ o₁ i hpop => ?_, fun _ o₁ i x hpop _ _ f hframe => ?_⟩
    · simp only [packsSafely, hpop] at h
      unfold OpensSafely
      cases hframe : (o₁.item i).frame with
      | headers f =>
        simp only [hframe, Bool.and_eq_true] at h
        exact fun _ => Session.reuseSafe_of_opensNew h.1.1
      | pushPromise promised nva =>
        simp only [hframe] at h
        exact Session.reuseSafe_of_opensNew h
      | _ => trivial
    · simp only [packsSafely, hpop, hframe, Bool.and_eq_true, decide_eq_true_eq] at h
      exact ⟨h.2, fun _ _ => h.1.2⟩
  | _ => exact ⟨trivial, trivial⟩

theorem reachable_of_guardedRun {server : Bool} {n p r : ℕ} {es : List Event}
    (hrun : guardedRun step packsSafely (Outbound.new server n p r) es = .ok o) :
    Reachable (fun o e => o.ReuseSafe e ∧ o.HeadersSafe e) o ∧
      (Outbound.new server n p r).run es = .ok o :=
  guardedRun_rule (fun _ hs hcheck hstep => hs.step (safe_of_packsSafely hcheck) hstep)
    (.new server n p r) hrun

/-- The HEADERS of a large response are popped from the stream, packed and sent, and freed. -/
theorem response_sent_clean : ∃ o o', (Outbound.new true 100 100 200).run
      [.session (.recvHeaders 1 .default), .submit (.response 1 [(7, 65500)] false),
        .popItem quietEnv, .frameSent1 quietEnv] = .ok o ∧
    o.aob = some 0 ∧ o.step .frameSent2 = .ok o' ∧ o'.freed 0 = 1 ∧ o'.itemOf 1 = none ∧
    o'.Clean := by
  refine exists_of_eval₂ (·.step .frameSent2) (fun o o' => o.aob = some 0 ∧ o'.freed 0 = 1 ∧
    o'.itemOf 1 = none) reachable_of_guardedRun (by decide +kernel) fun o o' hreach hstep hobs => ?_
  exact ⟨hobs.1, hstep, hobs.2.1, hobs.2.2,
    (clean_iff_of_reachable (e := .frameSent2) hreach trivial hstep).2 trivial⟩

/-- **A response that is too large is freed twice.**  Its HEADERS are refused with
NGHTTP2_ERR_FRAME_SIZE_ERROR and freed, stream 1 still carries them and waits in the
queue of the root, and the next turn pops and frees them again. -/
theorem response_freed_twice :
    ∃ o o' o'', (Outbound.new true 100 100 200).run
        [.session (.recvHeaders 1 .default), .submit (.response 1 [(7, 70000)] false)] = .ok o ∧
      o.step (.popItem quietEnv) = .ok o' ∧ o'.freed 0 = 1 ∧
      o'.session.getStreamRaw 1 = some 1 ∧ o'.itemOf 1 = some 0 ∧
      o'.session.tree.sched.queued 1 = true ∧ ¬ o'.Clean ∧
      o'.step (.popItem quietEnv) = .ok o'' ∧ o''.freed 0 = 2 := by
  have heval : ((Outbound.new true 100 100 200).run
        [.session (.recvHeaders 1 .default), .submit (.response 1 [(7, 70000)] false)]).map
          (fun o =>
      (o.step (.popItem quietEnv)).map fun o' => decide (
        (o'.freed 0 = 1 ∧ o'.session.getStreamRaw 1 = some 1 ∧ o'.itemOf 1 = some 0) ∧
        (o'.session.tree.sched.queued 1 = true ∧ o'.session.streamId 1 = 1) ∧
        ((o'.step (.popItem quietEnv)).map fun o'' => o''.freed 0) = .ok 2)) =
      .ok (.ok true) := by decide +kernel
  obtain ⟨o, hrun, hstep⟩ := exists_of_map_eq_ok heval
  obtain ⟨o', hstep, hobs⟩ := exists_of_map_eq_ok hstep
  rw [decide_eq_true_eq] at hobs
  obtain ⟨⟨hfreed, hraw, hitem⟩, ⟨hqueued, hid⟩, hagain⟩ := hobs
  obtain ⟨o'', hstep', hfreed'⟩ := exists_of_map_eq_ok hagain
  refine ⟨o, o', o'', hrun, hstep, hfreed, hraw, hitem, hqueued, fun hclean => ?_, hstep', hfreed'⟩
  exact hclean.stream 0 (by omega) 1 (Or.inl (by rw [hid]; exact hraw)) hitem

end Outbound

end Nghttp2
