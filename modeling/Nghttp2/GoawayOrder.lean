/-
# The order of GOAWAY frames

`nghttp2_session_add_goaway` bounds the last stream id of a GOAWAY by
`local_last_stream_id`, so that the ids that the peer sees do not grow.  That field is set
when a GOAWAY is packed, not when it is queued: the GOAWAYs that still wait in `ob_reg` do
not count.

* `Recorded.promised` are the last stream ids of the GOAWAYs that were written, that is
  being sent and that wait, in this order: the sequence that the peer will see;
* an event extends it at its end, by ids that `local_last_stream_id` bounds;
* so it stays non-increasing exactly as long as the ids that wait do;
* `GoawaySafe` is a condition on the GOAWAYs that an event asks for and on those that wait
  before it.
-/
import Nghttp2.NewItems

namespace Nghttp2

/-- The last stream id of a GOAWAY. -/
def WireFrame.goawayId : WireFrame → Option ℕ
  | .goaway n => some n
  | _ => none

/-- The last stream id of a GOAWAY. -/
def OutboundItem.goawayId (it : OutboundItem) : Option ℕ :=
  match it.kind with
  | .goaway n => some n
  | _ => none

theorem OutboundItem.wire_goawayId (it : OutboundItem) : it.wire.goawayId = it.goawayId := by
  unfold OutboundItem.wire OutboundItem.goawayId OutboundItem.kind
  cases it.frame with
  | _ => rfl

variable {it : OutboundItem} {n : ℕ}

theorem OutboundItem.goawayId_eq_some : it.goawayId = some n ↔ it.kind = .goaway n := by
  unfold OutboundItem.goawayId
  cases it.kind with
  | goaway m => simp
  | _ => simp

/-- The last stream ids of the GOAWAYs among frames. -/
def goawayIds (l : List (ItemPtr × WireFrame)) : List ℕ := l.filterMap fun p => p.2.goawayId

theorem goawayIds_append (l l' : List (ItemPtr × WireFrame)) :
    goawayIds (l ++ l') = goawayIds l ++ goawayIds l' := List.filterMap_append

theorem goawayIds_wire (i : ItemPtr) (it : OutboundItem) :
    goawayIds [(i, it.wire)] = it.goawayId.toList := by
  rw [← it.wire_goawayId]
  unfold goawayIds
  cases hid : it.wire.goawayId with
  | none => simp [hid]
  | some n => simp [hid]

namespace Outbound

variable {o o' o1 : Outbound} {i : ItemPtr}

/-- The last stream ids of the GOAWAYs that wait in `ob_reg`. -/
def waitingGoaways (o : Outbound) : List ℕ := o.obReg.filterMap fun i => (o.item i).goawayId

theorem Alike.goawayId {it' : OutboundItem} (h : Alike it it') : it'.goawayId = it.goawayId := by
  unfold OutboundItem.goawayId
  rw [h.2]

/-- A GOAWAY with this last stream id is new. -/
def Queued (o o' : Outbound) (n : ℕ) : Prop :=
  ∃ i, o.allocated ≤ i ∧ i < o'.allocated ∧ (o'.item i).kind = .goaway n

theorem Queued.left (h : Queued o1 o' n) (ha : o.allocated ≤ o1.allocated) : Queued o o' n := by
  obtain ⟨i, hge, hlt, hk⟩ := h
  exact ⟨i, ha.trans hge, hlt, hk⟩

theorem Queued.right (h : Queued o o1 n) (ha : o1.allocated ≤ o'.allocated)
    (hitem : ∀ i < o1.allocated, Cancels (o1.item i) (o'.item i)) : Queued o o' n := by
  obtain ⟨i, hge, hlt, hkind⟩ := h
  exact ⟨i, hge, hlt.trans_le ha, (hitem i hlt).alike.2.trans hkind⟩

/-- The queue grows at its end by new GOAWAYs. -/
theorem waitingGoaways_append (happ : Appends o.allocated o'.allocated o.obReg o'.obReg)
    (halike : ∀ i ∈ o.obReg, Alike (o.item i) (o'.item i)) :
    ∃ l, o'.waitingGoaways = o.waitingGoaways ++ l ∧ ∀ n ∈ l, Queued o o' n := by
  obtain ⟨new, hnew, hrange⟩ := happ
  refine ⟨new.filterMap fun i => (o'.item i).goawayId, ?_, fun n hn => ?_⟩
  · unfold waitingGoaways
    rw [hnew, List.filterMap_append]
    congr 1
    exact List.filterMap_congr fun i hi => (halike i hi).goawayId
  · obtain ⟨i, hi, hid⟩ := List.mem_filterMap.1 hn
    exact ⟨i, (hrange i hi).1, (hrange i hi).2, OutboundItem.goawayId_eq_some.1 hid⟩

theorem Keeps.waitingGoaways (h : Keeps o o') (hf : o.Filed) :
    ∃ l, o'.waitingGoaways = o.waitingGoaways ++ l ∧ ∀ n ∈ l, Queued o o' n :=
  waitingGoaways_append h.reg fun i hi => (h.item i (hf.reg i hi).1).alike

theorem Prepares.waitingGoaways {opened : Option (ℕ × StreamState)} (h : Prepares o o' i opened)
    (hf : o.Filed) : ∃ l, o'.waitingGoaways = o.waitingGoaways ++ l ∧ ∀ n ∈ l, Queued o o' n := by
  refine waitingGoaways_append h.reg fun j hj => ?_
  by_cases hji : j = i
  · rw [hji]
    exact h.self
  · exact (h.item j (hf.reg j hj).1 hji).alike

/-- A GOAWAY is popped from `ob_reg` only. -/
theorem Popped.waitingGoaways (h : Popped o o1 i) (hf : o.Filed) :
    o.waitingGoaways = (o.item i).goawayId.toList ++ o1.waitingGoaways := by
  unfold Outbound.waitingGoaways
  rw [h.item]
  have hnone : o1.obReg = o.obReg → (∀ n, (o.item i).kind ≠ .goaway n) →
      o.obReg.filterMap (fun i => (o.item i).goawayId) =
        (o.item i).goawayId.toList ++ o1.obReg.filterMap fun i => (o.item i).goawayId := by
    intro hreg hkind
    have : (o.item i).goawayId = none := by
      rw [Option.eq_none_iff_forall_ne_some]
      exact fun n hn => hkind n (OutboundItem.goawayId_eq_some.1 hn)
    rw [this, hreg]
    rfl
  rcases (h.origin hf).2 with ⟨hr, -⟩ | ⟨-, hr, b, hk⟩ | ⟨hr, hk⟩
  · rw [hr, List.filterMap_cons]
    cases (o.item i).goawayId with
    | none => rfl
    | some n => rfl
  · exact hnone hr fun n hn => nomatch hk.symm.trans hn
  · exact hnone hr fun n hn => by simp [hn] at hk

end Outbound

namespace Recorded

open Outbound

variable {r r' : Recorded} {e : Outbound.Event}

/-- The last stream ids of all GOAWAYs that were written, that is being sent and that wait. -/
def promised (r : Recorded) : List ℕ := goawayIds r.committed ++ r.out.waitingGoaways

/-- `local_last_stream_id` is the last stream id of the GOAWAY that was packed last. -/
def Bounded (r : Recorded) : Prop :=
  r.out.localLastStreamId = (goawayIds r.committed).getLastD (2 ^ 31 - 1)

/-- What an event does to the sequence of GOAWAYs: it grows at its end by new GOAWAYs, unless one
is packed, and what is committed to comes from the front of those that waited. -/
structure Extends (r r' : Recorded) : Prop where
  bounded : Bounded r'
  grows : ∃ l, r'.promised = r.promised ++ l ∧ ∀ n ∈ l, Queued r.out r'.out n ∧
    r'.out.localLastStreamId = r.out.localLastStreamId
  front : ∃ taken rest, r.out.waitingGoaways = taken ++ rest ∧
    goawayIds r'.committed = goawayIds r.committed ++ taken

/-- The frames that have been committed to stay, and frames are submitted. -/
theorem Extends.of_grows {l : List ℕ} (hb : Bounded r)
    (hc : goawayIds r'.committed = goawayIds r.committed)
    (hlast : r'.out.localLastStreamId = r.out.localLastStreamId)
    (hwait : r'.out.waitingGoaways = r.out.waitingGoaways ++ l)
    (hnew : ∀ n ∈ l, Queued r.out r'.out n) : Extends r r' where
  bounded := by
    rw [Bounded, hc, hlast]
    exact hb
  grows := ⟨l, by rw [promised, promised, hc, hwait, List.append_assoc],
    fun n hn => ⟨hnew n hn, hlast⟩⟩
  front := ⟨[], r.out.waitingGoaways, rfl, by rw [hc, List.append_nil]⟩

/-- An item that is being sent and is not a GOAWAY does not count. -/
theorem goawayIds_committed_of_noCopy (hs : r.out.Sound) (hstate : r.out.state = .sendNoCopy) :
    goawayIds r.committed = goawayIds r.written := by
  rw [committed, goawayIds_append]
  unfold Outbound.sending
  split_ifs
  · simp [goawayIds]
  · cases haob : r.out.session.items.aob with
    | none => simp [goawayIds]
    | some i =>
      have hnone : (r.out.item i).goawayId = none := by
        rw [OutboundItem.goawayId, hs.active.noCopy hstate i haob]
      rw [Option.map_some, Option.toList_some, goawayIds_wire, hnone]
      simp

theorem goawayId_eq_none (h : ∀ n a b, it.frame ≠ .goaway n a b) : it.goawayId = none := by
  unfold OutboundItem.goawayId OutboundItem.kind
  cases hf : it.frame with
  | goaway n a b => exact absurd hf (h n a b)
  | _ => rfl

/-- A GOAWAY that waits at the front, if the item is one, becomes the active frame. -/
theorem extends_activate {o1 o2 : Outbound} {i : ItemPtr} {env : Env} (hs : r.out.Sound)
    (hb : Bounded r) (hp : Prepared r o1 o2 i) (hready : ReadyFor o1 o2 i (o1.item i).frame)
    (ho : r'.out = o2.activate i env) (hw : r'.written = r.written) : Extends r r' := by
  obtain ⟨hstate, hpop, hprep, -⟩ := hp
  obtain ⟨hf1, -, -⟩ := hpop.filed hs.filed
  have hitem := hpop.item
  have hlast1 : o1.localLastStreamId = r.out.localLastStreamId := by rw [hpop.eq]
  have hc := congrArg goawayIds (committed_of_popItem hs hstate)
  have hc' : goawayIds r'.committed = goawayIds r.written ++ (r.out.item i).goawayId.toList := by
    rw [committed, ho, sending_activate, goawayIds_append, goawayIds_wire, hprep.self.goawayId,
      hitem, hw]
  have hlast' : r'.out.localLastStreamId = o2.localLastStreamId := by rw [ho]; rfl
  obtain ⟨l, hwait, hnew⟩ := hprep.waitingGoaways hf1
  have hwait' : r'.out.waitingGoaways = o1.waitingGoaways ++ l := by rw [ho]; exact hwait
  have hfront := hpop.waitingGoaways hs.filed
  have halloc : r.out.allocated ≤ o1.allocated := by rw [hpop.eq]
  refine ⟨?_, ⟨l, ?_, fun n hn => ?_⟩, _, _, hfront, ?_⟩
  · rw [Bounded, hlast', hc']
    cases hf : (o1.item i).frame with
    | goaway n a b =>
      rw [hf] at hready
      have hid : (r.out.item i).goawayId = some n := by
        rw [← hitem, OutboundItem.goawayId_eq_some, OutboundItem.kind, hf]
      rw [hready.2.1, hid]
      simp
    | _ =>
      rw [hprep.localLastStreamId (by simp [hf]), hlast1, ← hitem,
        goawayId_eq_none (by simp [hf]), Option.toList_none, List.append_nil, ← hc]
      exact hb
  · rw [promised, promised, hc, hc', hwait', hfront]
    simp
  · refine ⟨by rw [ho]; exact (hnew n hn).left halloc, ?_⟩
    by_cases hf : ∃ n a b, (o1.item i).frame = .goaway n a b
    · obtain ⟨m, a, b, hf⟩ := hf
      rw [hf] at hready
      obtain ⟨j, hge, hlt, -⟩ := hnew n hn
      exact absurd (hready.2.2 ▸ hlt) (not_lt.2 hge)
    · simp only [not_exists] at hf
      rw [hlast', hprep.localLastStreamId hf, hlast1]
  · rw [hc, hc']

/-- **One event.** -/
theorem Turn.extends (h : Turn r e r') (hs : r.out.Sound) (hb : Bounded r) : Extends r r' := by
  cases h with
  | grows h hw =>
    obtain ⟨l, hwait, hnew⟩ := h.toKeeps.waitingGoaways hs.filed
    exact .of_grows hb (congrArg goawayIds (committed_of_keeps h.toKeeps hs hw))
      h.localLastStreamId hwait hnew
  | outside ev s he h ho hw =>
    refine .of_grows (l := []) hb (by rw [committed_of_outside h ho hw]) (by rw [ho]) ?_ nofun
    rw [ho, List.append_nil]
    rfl
  | activates o1 o2 i env he hnext hp hready ho hw => exact extends_activate hs hb hp hready ho hw
  | drops o1 o2 i hp hgoaway h hw =>
    obtain ⟨hstate, hpop, hprep, hf⟩ := hp
    obtain ⟨hf1, -, -⟩ := hpop.filed hs.filed
    have hlast : r'.out.localLastStreamId = o2.localLastStreamId := h.1.localLastStreamId
    have hlast1 : o1.localLastStreamId = r.out.localLastStreamId := by rw [hpop.eq]
    have halloc : r.out.allocated ≤ o1.allocated := by rw [hpop.eq]
    obtain ⟨l1, hwait1, hnew1⟩ := hprep.waitingGoaways hf1
    obtain ⟨l2, hwait2, hnew2⟩ := h.1.toKeeps.waitingGoaways { hf with }
    have hfront := hpop.waitingGoaways hs.filed
    rw [← hpop.item, goawayId_eq_none hgoaway] at hfront
    refine .of_grows (l := l1 ++ l2) hb ?_ ?_ ?_ fun n hn => ?_
    · rw [committed_of_popItem hs hstate, committed_of_cleared h.1 hprep.tabled hf, hw]
    · rw [hlast, hprep.localLastStreamId hgoaway, hlast1]
    · rw [hwait2, hfront, ← List.append_assoc]
      exact congrArg (· ++ l2) hwait1
    · rcases List.mem_append.1 hn with hn | hn
      · exact ((hnew1 n hn).left halloc).right h.1.allocated h.1.item
      · exact (hnew2 n hn).left (halloc.trans hprep.allocated)
  | sends o1 i hwrites =>
    have hc := congrArg goawayIds (hwrites.committed hs)
    have h := hwrites.sends
    obtain ⟨l1, hwait1, hnew1⟩ := h.toKeeps.waitingGoaways hs.filed
    rcases hwrites.out with ⟨-, ho⟩ | ⟨-, ho⟩
    · refine .of_grows (l := l1) hb hc ?_ ?_ ?_
      · rw [ho]
        exact h.localLastStreamId
      · rw [ho]
        exact hwait1
      · rw [ho]
        exact hnew1
    have h1 := h.toKeeps.sound hs
    obtain ⟨l2, hwait2, hnew2⟩ := ho.toKeeps.waitingGoaways { h1.filed with }
    have hlast : r'.out.localLastStreamId = o1.localLastStreamId := ho.localLastStreamId
    refine .of_grows (l := l1 ++ l2) hb hc (hlast.trans h.localLastStreamId) ?_ fun n hn => ?_
    · rw [hwait2, ← List.append_assoc]
      exact congrArg (· ++ l2) hwait1
    · rcases List.mem_append.1 hn with hn | hn
      · exact (hnew1 n hn).right ho.allocated ho.item
      · exact (hnew2 n hn).left h.allocated
  | clears h hsent hw =>
    obtain ⟨l, hwait, hnew⟩ := h.toKeeps.waitingGoaways { hs.filed with }
    refine .of_grows (l := l) hb ?_ h.localLastStreamId hwait hnew
    rw [committed_of_cleared h hs.tabled hs.filed, hw]
    rcases hsent with hsent | hstate
    · rw [committed, Outbound.sending, if_pos hsent, List.append_nil]
    · exact (goawayIds_committed_of_noCopy hs hstate).symm

/-! ## Runs -/

theorem getLastD_le {l : List ℕ} {a d : ℕ} (h : l.Pairwise (· ≥ ·)) (ha : a ∈ l) :
    l.getLastD d ≤ a := by
  induction l generalizing a with
  | nil => cases ha
  | cons b l ih =>
    obtain ⟨hb, hl⟩ := List.pairwise_cons.1 h
    cases l with
    | nil =>
      rw [List.mem_singleton.1 ha]
      exact le_rfl
    | cons c l =>
      have hlast : (b :: c :: l).getLastD d = (c :: l).getLastD d := by simp
      rw [hlast]
      rcases List.mem_cons.1 ha with rfl | ha
      · exact (ih hl List.mem_cons_self).trans (hb c List.mem_cons_self)
      · exact ih hl ha

/-- What waits after an event is the rest of what waited, and what has been queued. -/
theorem Extends.waiting (h : Extends r r') : ∃ taken rest l,
    r.out.waitingGoaways = taken ++ rest ∧ r'.out.waitingGoaways = rest ++ l ∧
      goawayIds r'.committed = goawayIds r.committed ++ taken ∧ ∀ n ∈ l, Queued r.out r'.out n ∧
        r'.out.localLastStreamId = r.out.localLastStreamId := by
  obtain ⟨l, hl, hnew⟩ := h.grows
  obtain ⟨taken, rest, hwait, hc⟩ := h.front
  refine ⟨taken, rest, l, hwait, ?_, hc, hnew⟩
  rw [promised, promised, hc, hwait] at hl
  simpa using hl

/-- **A condition on what waits before the event.**  All GOAWAYs that the event asks for, as a
submission, in callbacks, or because a header block cannot be packed, have the same last stream
id; as it is queued, it is not larger than those that wait. -/
def GoawaySafe (r : Recorded) (e : Outbound.Event) : Prop :=
  ∃ k, (∀ sub m, e.Calls sub → sub.goawayId = some m → m = k) ∧
    ∀ m ∈ r.out.waitingGoaways, min k r.out.localLastStreamId ≤ m

/-- **The GOAWAYs that an event queues** have been asked for, and `local_last_stream_id` bounds
their ids. -/
theorem calls_of_queued {n : ℕ} (hs : r.out.Sound) (hres : r.step e = .ok r')
    (hn : Queued r.out r'.out n ∧ r'.out.localLastStreamId = r.out.localLastStreamId) :
    n ≤ r'.out.localLastStreamId ∧
      ∃ sub m, e.Calls sub ∧ sub.goawayId = some m ∧ n = min m r.out.localLastStreamId := by
  obtain ⟨⟨i, hge, hlt, hk⟩, hlast⟩ := hn
  -- the library's own RST_STREAM is no GOAWAY
  obtain ⟨sub, m, hsub, hm, heq⟩ := (step_news (S := fun sub => e.Calls sub ∨ sub.goawayId = none)
    hs (fun _ => .inl) (fun _ _ _ => .inr rfl) (step_eq_ok hres).1 i hge hlt).goaway n hk
  exact ⟨heq ▸ min_le_right .., sub, m, hsub.resolve_right (by simp [hm]), hm, hlast ▸ heq⟩

/-- **The sequence stays non-increasing exactly if the part of it that waits does.** -/
theorem Extends.pairwise_iff (h : Extends r r') (hs : r.out.Sound) (hres : r.step e = .ok r')
    (hr : r.promised.Pairwise (· ≥ ·)) :
    r'.promised.Pairwise (· ≥ ·) ↔ r'.out.waitingGoaways.Pairwise (· ≥ ·) := by
  refine ⟨fun h' => (List.pairwise_append.1 h').2.1, fun hwait => ?_⟩
  obtain ⟨taken, rest, l, hold, hnew, hc, hl⟩ := h.waiting
  rw [promised, hold, ← List.append_assoc, ← hc] at hr
  obtain ⟨hfront, -, hcross⟩ := List.pairwise_append.1 hr
  refine List.pairwise_append.2 ⟨hfront, hwait, fun a ha n hn => ?_⟩
  rw [hnew] at hn
  rcases List.mem_append.1 hn with hn | hn
  · exact hcross a ha n hn
  · exact (h.bounded ▸ (calls_of_queued hs hres (hl n hn)).1).trans (getLastD_le hfront ha)

/-- **One event** that meets the condition. -/
theorem GoawaySafe.promised (he : GoawaySafe r e) (hs : r.out.Sound) (hext : Extends r r')
    (hres : r.step e = .ok r') (hr : r.promised.Pairwise (· ≥ ·)) :
    r'.promised.Pairwise (· ≥ ·) := by
  obtain ⟨k, hk, hle⟩ := he
  obtain ⟨taken, rest, l, hold, hnew, -, hl⟩ := hext.waiting
  have heq : ∀ n ∈ l, n = min k r.out.localLastStreamId := by
    intro n hn
    obtain ⟨-, sub, m, hsub, hm, heq⟩ := calls_of_queued hs hres (hl n hn)
    rw [heq, hk sub m hsub hm]
  have hwait := (List.pairwise_append.1 hr).2.1
  rw [hold] at hwait hle
  rw [hext.pairwise_iff hs hres hr, hnew]
  refine List.pairwise_append.2 ⟨(List.pairwise_append.1 hwait).2.1, ?_, fun a ha n hn => ?_⟩
  · refine List.pairwise_iff_forall_sublist.2 fun {a b} hab => ?_
    rw [heq a (hab.subset (by simp)), heq b (hab.subset (by simp))]
  · rw [heq n hn]
    exact hle a (List.mem_append_right _ ha)

theorem Reaches.promised (h : Reaches GoawaySafe r) :
    r.promised.Pairwise (· ≥ ·) ∧ Bounded r := by
  induction h with
  | new server n p m => exact ⟨List.Pairwise.nil, rfl⟩
  | step hr hsafe hres ih =>
    have hext := (turn_of_step hr.sound hres).extends hr.sound ih.2
    exact ⟨hsafe.promised hr.sound hext hres ih.1, hext.bounded⟩

/-- **The last stream ids of GOAWAYs.**  In a run whose events ask for no GOAWAY with a larger
last stream id than one that waits, those written so far are non-increasing, and so is the
sequence that the peer will see after the next event that meets this condition.  A submission
keeps it so only if it meets the condition, or queues no GOAWAY. -/
theorem goaway_order_iff (h : Reaches GoawaySafe r) (hres : r.step e = .ok r') :
    (goawayIds r.written).Pairwise (· ≥ ·) ∧ (GoawaySafe r e → r'.promised.Pairwise (· ≥ ·)) ∧
      ∀ sub, e = .submit sub → (r'.promised.Pairwise (· ≥ ·) ↔
        GoawaySafe r e ∨ r'.promised = r.promised) := by
  obtain ⟨hsorted, hb⟩ := h.promised
  have hs := h.sound
  have hext := (turn_of_step hs hres).extends hs hb
  refine ⟨?_, fun he => he.promised hs hext hres hsorted, ?_⟩
  · rw [promised, committed, goawayIds_append, List.append_assoc] at hsorted
    exact (List.pairwise_append.1 hsorted).1
  rintro sub rfl
  refine ⟨fun hpair => ?_, ?_⟩
  · obtain ⟨l, hl, hnew⟩ := hext.grows
    rw [hl] at hpair ⊢
    cases l with
    | nil => exact .inr (List.append_nil _)
    | cons n l =>
      left
      obtain ⟨-, sub', m, rfl, hm, heq⟩ := calls_of_queued hs hres (hnew n List.mem_cons_self)
      refine ⟨m, fun sub m' hsub hm' => ?_, fun w hw => ?_⟩
      · rw [hsub, hm] at hm'
        exact (Option.some.inj hm').symm
      · -- what waited is before the new GOAWAY in the sequence
        rw [← heq]
        exact (List.pairwise_append.1 hpair).2.2 w (List.mem_append_right _ hw) n List.mem_cons_self
  · rintro (he | heq)
    · exact he.promised hs hext hres hsorted
    · rw [heq]
      exact hsorted

/-- A check for the condition, if callbacks submit nothing. -/
def goawayFits (r : Recorded) : Outbound.Event → Bool
  | .submit sub => sub.goawayId.all fun k =>
      r.out.waitingGoaways.all fun m => min k r.out.localLastStreamId ≤ m
  | _ => true

theorem goawaySafe_of_goawayFits (h : (∃ sub, e = .submit sub) ∨ e ∈ quietTurn)
    (hfits : goawayFits r e = true) : GoawaySafe r e := by
  rcases h with ⟨sub, rfl⟩ | hmem
  · cases hid : sub.goawayId with
    | none =>
      refine ⟨0, fun sub' m hsub hm => ?_, fun m _ => by simp⟩
      rw [hsub, hid] at hm
      cases hm
    | some k =>
      refine ⟨k, fun sub' m hsub hm => ?_, fun m hm => ?_⟩
      · rw [hsub, hid] at hm
        exact (Option.some.inj hm).symm
      · simp only [goawayFits, hid, Option.all_some, List.all_eq_true, decide_eq_true_eq] at hfits
        exact hfits m hm
  · exact ⟨0, fun sub m hsub => absurd hsub (not_calls_of_quietTurn hmem), fun m _ => by simp⟩

/-- A server submits GOAWAYs with last stream ids 7 and 5, and 9 when they have been sent: this
one is clamped to 5. -/
theorem goaways_seven_five_nine : ∃ r r', (Recorded.new true 100 100 200).run
      ([.submit (.goaway 7), .submit (.goaway 5)] ++ quietTurn ++ quietTurn) = .ok r ∧
    r.step (.submit (.goaway 9)) = .ok r' ∧ goawayIds r.written = [7, 5] ∧
    r'.promised = [7, 5, 5] ∧ (goawayIds r.written).Pairwise (· ≥ ·) ∧
    r'.promised.Pairwise (· ≥ ·) := by
  refine exists_of_eval₂ (·.step (.submit (.goaway 9))) (fun r r' => goawayIds r.written = [7, 5] ∧
    r'.promised = [7, 5, 5] ∧ goawayFits r (.submit (.goaway 9)) = true)
    (reaches_of_guardedRun (C := GoawaySafe) (c := goawayFits) fun hmem hfits =>
      goawaySafe_of_goawayFits ?_ hfits) (by decide +kernel) ?_
  · simp only [List.mem_append, List.mem_cons, List.not_mem_nil, or_false] at hmem
    rcases hmem with ((rfl | rfl) | hmem) | hmem
    · exact .inl ⟨_, rfl⟩
    · exact .inl ⟨_, rfl⟩
    · exact .inr hmem
    · exact .inr hmem
  · rintro r r' hreach hstep ⟨hwritten, hpromised, hfits⟩
    have horder := goaway_order_iff hreach hstep
    exact ⟨hstep, hwritten, hpromised, horder.1,
      horder.2.1 (goawaySafe_of_goawayFits (.inl ⟨_, rfl⟩) hfits)⟩

/-- **No GOAWAY is lost, sent twice or overtaken.**  Whatever happens, what was written, is
being sent and waits stays in this order, and new GOAWAYs come at the end. -/
theorem goaways_kept {C : Recorded → Outbound.Event → Prop} (h : Reaches C r)
    (hres : r.step e = .ok r') : r.promised <+: r'.promised := by
  have hb : Bounded r := h.turns (fun _ _ _ _ => rfl)
    fun _ _ _ _ hs hb _ hturn => (hturn.extends hs hb).bounded
  obtain ⟨l, hl, -⟩ := ((turn_of_step h.sound hres).extends h.sound hb).grows
  exact ⟨l, hl.symm⟩

/-- Of two GOAWAYs, one has been written when a third one is submitted. -/
theorem third_goaway_kept : ∃ r r', (Recorded.new true 100 100 200).run
      [.submit (.goaway 7), .submit (.goaway 5), .popItem quietEnv, .frameSent1 quietEnv] = .ok r ∧
    r.step (.submit (.goaway 9)) = .ok r' ∧ goawayIds r.written = [7] ∧ r.promised = [7, 5] ∧
    r'.promised = [7, 5, 7] ∧ r.promised <+: r'.promised := by
  refine exists_of_eval₂ (·.step (.submit (.goaway 9))) (fun r r' => goawayIds r.written = [7] ∧
    r.promised = [7, 5] ∧ r'.promised = [7, 5, 7])
    (reaches_of_guardedRun (C := fun _ _ => True) (c := fun _ _ => true) fun _ _ => trivial)
    (by decide +kernel) ?_
  rintro r r' hreach hstep ⟨hwritten, hpromised, hpromised'⟩
  exact ⟨hstep, hwritten, hpromised, hpromised', goaways_kept hreach hstep⟩

/-- **The last stream id grows.**  Two GOAWAYs are submitted before anything is sent; the
second one has the larger last stream id and is not clamped, because the first one has not
been packed. -/
theorem goaway_grows : ∃ r, (Recorded.new true 100 100 200).run
      [.submit (.goaway 5), .submit (.goaway 7),
        .popItem Outbound.quietEnv, .frameSent1 Outbound.quietEnv, .frameSent2,
        .popItem Outbound.quietEnv, .frameSent1 Outbound.quietEnv] = .ok r ∧
    r.frames = [.goaway 5, .goaway 7] ∧ ¬ (goawayIds r.written).Pairwise (· ≥ ·) := by
  refine exists_of_eval (fun r => r.frames = [.goaway 5, .goaway 7] ∧ goawayIds r.written = [5, 7])
    (And.intro trivial) (by decide +kernel) fun r _ hr => ⟨hr.1, ?_⟩
  rw [hr.2]
  decide

end Recorded

end Nghttp2
