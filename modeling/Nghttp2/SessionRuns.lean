/-
# Runs of a session

What holds in every state that a session reaches, and what a call of
`nghttp2_session_open_stream` can do there.

* `Inv.openCall`: every caller of `nghttp2_session_open_stream` meets its
  preconditions;
* `Inv.step`, `Reachable.inv`: one event, and then every run, keeps the invariant of the
  stream table, as long as reused idle streams are the last of their hash chains
  (`ReuseSafe`);
* `tableKept_iff_of_reachable`: exactly then the table is kept;
* `linksLive_iff_of_reachable`: streams are linked while both are alive, unless the idle
  limit strikes one of the two (`LimitSpares`).
-/
import Nghttp2.DepRuns

namespace Nghttp2.Session

open ChainMap ParentForest

variable {s s' : Session} {kids kids' : Ptr → List Ptr} {chains chains' : ℕ → List Ptr}
  {d x y : Ptr} {id : ℕ} {pri : PrioritySpec} {e : Event} {c : OpenCall}

/-! ## The callers of `nghttp2_session_open_stream` -/

/-- The preconditions of a call: the stream id is in use from now on, unless the stream
is idle; an idle stream is new; a stream that exists is idle; and no stream is created
as the dependency of itself. -/
structure OpenCall.Allowed (c : OpenCall) : Prop where
  used : c.initialState ≠ .idle → c.session.Used c.id
  server : c.initialState = .idle → c.session.server = true
  fresh : c.initialState = .idle → c.session.getStreamRaw c.id = none
  reused : ∀ x, c.session.getStreamRaw c.id = some x → (c.session.info x).state = .idle
  self : c.session.detectIdleStream c.pri.streamId = true → c.pri.streamId ≠ c.id

theorem Inv.idle_of_not_used (h : Inv s kids chains []) (hid : ¬ s.Used id) :
    ∀ x, s.getStreamRaw id = some x → (s.info x).state = .idle := by
  intro x hraw
  obtain ⟨hheld, rfl⟩ := h.getStreamRaw_iff.1 hraw
  by_contra hne
  exact hid (h.used hheld hne)

variable {holes : List Ptr} {st : StreamState}

theorem Inv.recvCall (h : Inv s kids chains []) (hnew : s.isNewPeerStreamId id = true)
    (hself : pri.streamId ≠ id) (hst : st ≠ .idle) :
    Inv { s with lastRecvStreamId := id } kids chains [] ∧
      OpenCall.Allowed ⟨{ s with lastRecvStreamId := id }, id, pri, st⟩ := by
  obtain ⟨-, hmine, hlt⟩ := isNewPeerStreamId_iff.1 hnew
  refine ⟨h.raiseRecv hlt.le, fun _ => ?_, fun hi => absurd hi hst, fun hi => absurd hi hst,
    h.idle_of_not_used ?_, fun _ => hself⟩
  · exact (used_peer_iff (s := { s with lastRecvStreamId := id }) hmine).2 le_rfl
  · exact fun hused => hlt.not_ge ((used_peer_iff hmine).1 hused)

theorem Inv.sendCall (h : Inv s kids chains []) (hid : id ∈ s.unsent) (pri : PrioritySpec)
    (hst : st ≠ .idle) :
    Inv { s with unsent := s.unsent.erase id } kids chains [] ∧
      OpenCall.Allowed ⟨{ s with unsent := s.unsent.erase id }, id, pri, st⟩ := by
  obtain ⟨hmine, hlt⟩ := h.unsent hid
  refine ⟨h.withIds rfl h.ids.send, fun _ => ?_, fun hi => absurd hi hst,
    fun hi => absurd hi hst, h.idle_of_not_used ?_, fun hidle hself => ?_⟩
  · exact (used_own_iff (s := { s with unsent := s.unsent.erase id }) hmine).2
      ⟨hlt, h.unsent_nodup.not_mem_erase⟩
  · exact fun hused => ((used_own_iff hmine).1 hused).2 hid
  · replace hidle : s.detectIdleStream pri.streamId = true := hidle
    rw [show pri.streamId = id from hself, detectIdleStream, if_pos hmine,
      decide_eq_true_eq] at hidle
    omega

/-- **Every call** of `nghttp2_session_open_stream` meets the preconditions. -/
theorem Inv.openCall (h : Inv s kids chains []) (hc : s.openCall e = some c) :
    Inv c.session kids chains [] ∧ c.Allowed := by
  cases starts_of_openCall hc with
  | recvHeaders hnew hself => exact h.recvCall hnew hself (by simp)
  | recvPriority hid hself hserver hraw hidle =>
    refine ⟨h, fun hne => absurd rfl hne, fun _ => hserver, fun _ => hraw, fun x hx => ?_,
      fun _ => hself⟩
    rw [hraw] at hx
    cases hx
  | @recvPushPromise id promised hmine hnew =>
    refine h.recvCall hnew (fun hself => ?_) (by simp)
    have := (isNewPeerStreamId_iff.1 hnew).2.1
    rw [← show id = promised from hself, hmine] at this
    cases this
  | sendRequest hid => exact h.sendCall hid _ (by simp)
  | sendPushPromise hid => exact h.sendCall hid _ (by simp)
  | upgradeServer hserver hlast =>
    exact h.recvCall (isNewPeerStreamId_one hserver hlast) (by decide) (by simp)
  | upgradeClient hserver hnext =>
    have hmine : ∀ n, s.isMyStreamId n = decide (n % 2 = 1) := fun n => by
      simp only [isMyStreamId, hserver, Bool.false_eq_true, if_false, ne_eq]
      rcases eq_or_ne n 0 with rfl | hn
      · rfl
      · simp [hn]
    have hnot : 1 ∉ s.unsent := fun hmem => by
      have := (h.unsent hmem).2
      omega
    refine ⟨h.raiseNext (by omega) (by rw [hmine]; rfl), fun _ => ?_, fun hi => absurd hi (by simp),
      fun hi => absurd hi (by simp), h.idle_of_not_used ?_, fun _ => Nat.zero_ne_one⟩
    · exact (used_own_iff (s := { s with nextStreamId := 3 }) (hmine 1)).2 ⟨Nat.one_lt_succ_succ 1, hnot⟩
    · exact fun hused => ((used_own_iff (hmine 1)).1 hused).1.ne hnext.symm

/-! ## One call -/

/-- The idle stream that a call reuses is the last of its hash chain when it is
initialised again. -/
def OpenCall.ReusesLast (c : OpenCall) : Prop :=
  ∀ s₁ x d pri, c.session.prepareStream c.id c.pri c.initialState = .ok (s₁, some x, d, pri) →
    s₁.streams.next x = none

/-- Nothing is reused for an id that is not in the table. -/
theorem reusesLast_of_getStreamRaw (h : c.session.getStreamRaw c.id = none) : c.ReusesLast := by
  intro s1 y d pri hprep
  obtain ⟨⟨s0, r0⟩, hreuse, hprep⟩ := bind_eq_ok.1 hprep
  obtain ⟨⟨s2, d2, pri2⟩, -, hprep⟩ := bind_eq_ok.1 hprep
  cases hprep
  unfold Session.reuseStream at hreuse
  rw [h] at hreuse
  obtain ⟨s3, -, hreuse⟩ := bind_eq_ok.1 hreuse
  cases hreuse

/-- The dependency of a new idle stream is not evicted by the call. -/
def OpenCall.DepSpared (c : OpenCall) : Prop := c.initialState = .idle → c.session.DepStays c.pri

section Call

variable (h : Inv c.session kids chains []) (ha : c.Allowed)
include h ha

/-- If the call creates no dependency, the link in question is the one before the call. -/
theorem Inv.reusesLast_iff (hnot : ¬ c.session.createsAnchor c.pri) :
    c.ReusesLast ↔
      ∀ x, c.session.getStreamRaw c.id = some x → c.session.streams.next x = none := by
  cases hraw : c.session.getStreamRaw c.id with
  | none => exact iff_of_true (reusesLast_of_getStreamRaw hraw) (by simp)
  | some x =>
    obtain ⟨s0, k0, hreuse, hinv0, -, hs0, -⟩ :=
      h.reuseStream_some hraw (ha.reused x hraw) c.initialState
    have hnot0 : ¬ s0.createsAnchor c.pri := by
      rw [hs0]
      exact hnot
    obtain ⟨d, pri', hres, -⟩ := hinv0.resolveDep_of_not hnot0
    have hprep : c.session.prepareStream c.id c.pri c.initialState = .ok (s0, some x, d, pri') := by
      simp only [prepareStream, hreuse, ok_bind, hres]
      rfl
    have hnext : s0.streams.next x = c.session.streams.next x := by rw [hs0]; rfl
    constructor
    · intro hlast y hy
      obtain rfl := Option.some.inj hy
      exact hnext ▸ hlast s0 x d pri' hprep
    · intro hlast s1 y d1 pri1 hprep1
      cases hprep.symm.trans hprep1
      rw [hnext]
      exact hlast x rfl

/-- **The stream is entered** into the table, and other streams stay there. -/
theorem Inv.enterCall (hlast : c.ReusesLast) :
    ∃ s2 x d ex kids2 chains2,
      c.session.enterStream c.id c.pri c.initialState = .ok (s2, x, d, ex) ∧
      Inv s2 kids2 chains2 [x] ∧ s2.Ready x ∧
      Kept c.session s2 chains chains2 (c.session.anchorIds c.pri ++ [c.id]) ∧
      s2.streamId x = c.id ∧ (c.DepSpared → InTree s2.tree.dep d) ∧
      (¬ c.DepSpared → s2.freed d = true ∧ (s2.info x).shutWr = false) := by
  cases hraw : c.session.getStreamRaw c.id with
  | none =>
    obtain ⟨s2, x, d, ex, k2, c2, henter, hinv2, hready, hkept, -, hid, hd, hdead⟩ :=
      h.enterNew hraw ha.self ha.used ha.server
    refine ⟨s2, x, d, ex, k2, c2, henter, hinv2, hready, hkept, hid, hd, fun hnot => ?_⟩
    obtain ⟨hst, hstays⟩ := Classical.not_imp.1 hnot
    exact hdead hst hstays
  | some x =>
    have hst : c.initialState ≠ .idle := fun hi => by
      rw [ha.fresh hi] at hraw
      cases hraw
    obtain ⟨s1, k1, c1, d, pri', s2, hprep, henter, -, -, hid, -, -, -, hstreams, hlive⟩ :=
      h.enterReused hraw (ha.reused x hraw) hst (ha.used hst)
    have hnext := hlast s1 x d pri' hprep
    obtain ⟨hinv2, hready, hd, hkept⟩ := hlive hnext
    -- the entry keeps its key, and its link was clear
    have hsame : s2.streams = s1.streams := by
      rw [hstreams, ← hid]
      exact entryInit_of_next_eq_none hnext
    exact ⟨s2, x, d, pri'.exclusive, k1, c1, henter, hinv2, hready,
      hkept.mono (List.subset_append_left _ _), by rw [streamId, hsame]; exact hid, fun _ => hd,
      fun hnot => absurd (fun hi => absurd hi hst) hnot⟩

/-- **The stream is opened**, if its dependency was not evicted. -/
theorem Inv.openStream (hlast : c.ReusesLast) (hdep : c.DepSpared) :
    ∃ s' x kids' chains', c.session.openStream c.id c.pri c.initialState = .ok (s', x) ∧
      Inv s' kids' chains' [] ∧
      Kept c.session s' chains chains' (c.session.anchorIds c.pri ++ [c.id]) ∧
      s'.getStreamRaw c.id = some x := by
  obtain ⟨s2, x, d, ex, k2, c2, henter, hinv2, hready, hkept, hid, hd, -⟩ := h.enterCall ha hlast
  obtain ⟨s', kids', hlink, hinv, hs', -, hpending, -⟩ :=
    hinv2.linkStream List.not_mem_nil hready (hd hdep) ex
  have hkept' := hkept.trans (Kept.of_tree hs' hpending c2)
  rw [List.append_nil] at hkept'
  refine ⟨s', x, kids', c2, ?_, hinv, hkept', hinv.getStreamRaw_iff.2
    ⟨(hinv2.hole_out List.mem_cons_self).1, ?_⟩⟩
  · simp only [Session.openStream, henter, ok_bind, hlink]
    rfl
  · rw [hs']
    exact hid

/-- A dependency that was evicted is used after it was freed. -/
theorem Inv.openStream_fault (hlast : c.ReusesLast) (hdep : ¬ c.DepSpared) :
    c.session.openStream c.id c.pri c.initialState = .error .useAfterFree := by
  obtain ⟨s2, x, d, ex, k2, c2, henter, -, -, -, -, -, hdead⟩ := h.enterCall ha hlast
  obtain ⟨hfreed, hwr⟩ := hdead hdep
  simp only [Session.openStream, henter, ok_bind, linkStream_fault hwr hfreed, error_bind]

/-- **An idle stream that is not the last of its hash chain** takes the entries behind it
out of the table. -/
theorem Inv.openStream_loses (hlast : ¬ c.ReusesLast) :
    ∃ s' x, c.session.openStream c.id c.pri c.initialState = .ok (s', x) ∧
      s'.streams.entries.length < s'.streams.size := by
  simp only [OpenCall.ReusesLast, not_forall] at hlast
  obtain ⟨s0, x0, d0, pri0, hprep0, hnext⟩ := hlast
  cases hraw : c.session.getStreamRaw c.id with
  | none =>
    obtain ⟨s1, k1, c1, d, pri', hprep, -⟩ := h.prepareNew hraw ha.self c.initialState
    rw [hprep0, Except.ok.injEq, Prod.mk.injEq, Prod.mk.injEq] at hprep
    cases hprep.2.1
  | some x =>
    have hst : c.initialState ≠ .idle := fun hi => by
      rw [ha.fresh hi] at hraw
      cases hraw
    obtain ⟨s1, k1, c1, d, pri', s2, hprep, henter, hinv1, -, hid, -, hfreed, hd, hstreams, -⟩ :=
      h.enterReused hraw (ha.reused x hraw) hst (ha.used hst)
    rw [hprep0, Except.ok.injEq, Prod.mk.injEq, Prod.mk.injEq, Option.some.injEq] at hprep
    obtain ⟨rfl, rfl, -⟩ := hprep
    have hheld := (hinv1.hole_out List.mem_cons_self).1
    obtain ⟨t, hlink⟩ := linkStream_ok (x := x0) (by rw [hfreed]; exact (hinv1.held hheld).2.2) hd
      pri'.exclusive
    refine ⟨{ s2 with tree := t }, x0, ?_, ?_⟩
    · simp only [Session.openStream, henter, ok_bind, hlink]
      rfl
    · show s2.streams.entries.length < s2.streams.size
      rw [hstreams, ← hid]
      exact hinv1.linked.entries_length_lt mapHash_lt hinv1.size hheld hnext

end Call

/-- **The stream table is kept by a call.**  Streams that were found are still found,
unless they were evicted; no other stream appears, except an idle dependency that the
call creates; the new stream is found; and as many entries can be reached as the table
counts. -/
def OpenCall.TableKept (c : OpenCall) : Prop :=
  ∃ s' x, c.session.openStream c.id c.pri c.initialState = .ok (s', x) ∧
    (∀ j y, c.session.getStreamRaw j = some y → s'.getStreamRaw j = some y ∨ s'.freed y = true) ∧
    (∀ j, c.session.getStreamRaw j = none → j ≠ c.id →
      ¬ (j = c.pri.streamId ∧ c.session.server = true ∧ c.session.detectIdleStream j = true) →
      s'.getStreamRaw j = none) ∧
    s'.getStreamRaw c.id = some x ∧ s'.streams.entries.length = s'.streams.size

/-- The lookups and the number of entries after a call that has kept the table. -/
theorem Inv.tableKept (h : Inv c.session kids chains holes) (h' : Inv s' kids' chains' holes)
    (hkept : Kept c.session s' chains chains' (c.session.anchorIds c.pri ++ [c.id]))
    (hopen : c.session.openStream c.id c.pri c.initialState = .ok (s', x))
    (hraw : s'.getStreamRaw c.id = some x) : c.TableKept := by
  refine ⟨s', x, hopen, fun j y hj => hkept.getStreamRaw_some h h' hj, fun j hj hid hnot => ?_,
    hraw, ?_⟩
  · refine hkept.getStreamRaw_none h h' hj fun hmem => ?_
    rcases List.mem_append.1 hmem with hmem | hmem
    · rw [anchorIds] at hmem
      split_ifs at hmem with hcond
      · rw [Bool.and_eq_true] at hcond
        obtain rfl := List.mem_singleton.1 hmem
        exact hnot ⟨rfl, hcond⟩
      · cases hmem
    · exact hid (List.mem_singleton.1 hmem)
  · rw [entries_length mapHash_lt h'.linked h'.size.le, h'.size]

/-- A call keeps the table just in case its idle stream is the last of its chain and its
dependency is not evicted. -/
theorem Inv.tableKept_iff (h : Inv c.session kids chains []) (ha : c.Allowed) :
    c.TableKept ↔ c.ReusesLast ∧ c.DepSpared := by
  constructor
  · rintro ⟨s', x, hopen, -, -, -, hlen⟩
    have hlast : c.ReusesLast := by
      by_contra hlast
      obtain ⟨s'', x', hopen', hlt⟩ := h.openStream_loses ha hlast
      rw [hopen, Except.ok.injEq, Prod.mk.injEq] at hopen'
      obtain ⟨rfl, -⟩ := hopen'
      omega
    refine ⟨hlast, ?_⟩
    by_contra hdep
    rw [h.openStream_fault ha hlast hdep] at hopen
    cases hopen
  rintro ⟨hlast, hdep⟩
  obtain ⟨s', x, kids', chains', hopen, hinv, hkept, hraw⟩ := h.openStream ha hlast hdep
  exact h.tableKept hinv hkept hopen hraw

/-! ## One event -/

/-- Every idle stream that the event reuses is the last of its hash chain. -/
def ReuseSafe (s : Session) (e : Event) : Prop := ∀ c, s.openCall e = some c → c.ReusesLast

theorem Spares.depSpared (h : s.Spares e) (hc : s.openCall e = some c) : c.DepSpared := by
  intro hst
  -- only PRIORITY frames open idle streams
  cases starts_of_openCall hc with
  | recvPriority hid hself hserver hraw hidle => exact (h _ _ rfl hserver hid hself).2 hraw hidle
  | _ => cases hst

/-- A call that opens a stream is made after a change of stream ids only. -/
theorem openCall_carries (hc : s.openCall e = some c) (chains : ℕ → List Ptr) :
    Carries s c.session chains chains [] := by
  cases starts_of_openCall hc <;> exact .of_rest rfl chains

/-- **One event** succeeds and keeps the invariant. -/
theorem Inv.step (h : Inv s kids chains []) (hreuse : s.ReuseSafe e) (hspare : s.Spares e) :
    ∃ s' kids' chains', s.step e = .ok s' ∧ Inv s' kids' chains' [] ∧
      (e.quiet = true → Carries s s' chains chains' []) := by
  unfold Session.step
  cases hc : s.openCall e with
  | none => exact h.settle e hspare
  | some c =>
    obtain ⟨hinv, ha⟩ := h.openCall hc
    obtain ⟨s', x, kids', chains', hopen, hinv', hkept, hraw⟩ :=
      hinv.openStream ha (hreuse c hc) (hspare.depSpared hc)
    have hcar := (openCall_carries hc chains).trans hkept.toCarries
    simp only [hopen]
    refine ⟨_, kids', chains', rfl, ?_⟩
    dsimp only
    split_ifs
    · refine ⟨hinv'.of_sameTable (sameTable_modifyInfo Iff.rfl fun hclosed => hclosed),
        fun _ => hcar.trans (carries_modifyInfo (fun hst => hst) rfl chains')⟩
    · exact ⟨hinv', fun _ => hcar⟩

/-- **The idle limit strikes**: the event uses a stream after it was freed. -/
theorem Inv.step_fault (h : Inv s kids chains []) (hreuse : s.ReuseSafe e)
    (hspare : ¬ s.Spares e) : s.step e = .error .useAfterFree := by
  simp only [Spares, LimitSpares, not_forall] at hspare
  obtain ⟨id, pri, rfl, hserver, hid, hself, hstrike⟩ := hspare
  unfold Session.step
  by_cases hopen : s.getStreamRaw id = none ∧ s.detectIdleStream id = true
  · obtain ⟨hraw, hidle⟩ := hopen
    have hc : s.openCall (.recvPriority id pri) = some ⟨s, id, pri, .idle⟩ := by
      simp [Session.openCall, hid, hself, hserver, hraw, hidle]
    obtain ⟨hinv, ha⟩ := h.openCall hc
    have hdep : ¬ OpenCall.DepSpared ⟨s, id, pri, .idle⟩ := fun hdep =>
      hstrike ⟨fun x hx => by simp [hraw] at hx, fun _ _ => hdep rfl⟩
    have hfault := hinv.openStream_fault ha (hreuse _ hc) hdep
    simp only [hc, hfault]
    rfl
  have hexists : ∃ x, s.getStreamRaw id = some x ∧ s.createsAnchor pri ∧ x ∈ s.evictable 1 := by
    by_contra hnone
    refine hstrike ⟨fun x hx ha hev => hnone ⟨x, hx, ha, hev⟩, fun hraw hidle => ?_⟩
    exact absurd ⟨hraw, hidle⟩ hopen
  obtain ⟨x, hraw, hanchor, hev⟩ := hexists
  obtain ⟨hheld, hxid⟩ := h.getStreamRaw_iff.1 hraw
  have hc : s.openCall (.recvPriority id pri) = none := by
    simp [Session.openCall, hraw]
  have hfault := h.reprioritizeStream_fault hheld (by rwa [hxid]) hanchor hev
  simp only [hc, Session.settle, ne_eq, hid, not_false_eq_true, decide_true, hself, hserver,
    Bool.and_self, if_true, hraw, hfault]

theorem Inv.of_step (h : Inv s kids chains []) (hreuse : s.ReuseSafe e)
    (hstep : s.step e = .ok s') :
    ∃ kids' chains', Inv s' kids' chains' [] ∧
      (e.quiet = true → Carries s s' chains chains' []) := by
  have hspare : s.Spares e := by
    by_contra hspare
    rw [h.step_fault hreuse hspare] at hstep
    cases hstep
  obtain ⟨s'', kids', chains', hok, hinv⟩ := h.step hreuse hspare
  rw [hstep, Except.ok.injEq] at hok
  obtain rfl := hok
  exact ⟨kids', chains', hinv⟩

/-! ## Runs -/

/-- The sessions that are reached from a new one by events that meet the condition `P`
and succeed. -/
inductive Reachable (P : Session → Event → Prop) : Session → Prop
  | new (server : Bool) (n p r : ℕ) : Reachable P (Session.new server n p r)
  | step {s s' : Session} {e : Event} (hs : Reachable P s) (he : P s e)
    (hstep : s.step e = .ok s') :
      Reachable P s'

theorem new_inv (server : Bool) (n p r : ℕ) :
    Inv (Session.new server n p r) (fun _ => []) (fun _ => []) [] where
  tree := loneRoot_whole
  linked := ⟨fun _ => rfl, fun _ _ h => absurd h List.not_mem_nil, fun _ => List.nodup_nil,
    Nat.zero_lt_succ 255⟩
  size := by simp [total, Session.new]
  held := fun ⟨_, hx⟩ => absurd hx List.not_mem_nil
  inTree := fun {x} hx => by
    refine Or.inl ?_
    rcases above_iff.1 hx with hx | ⟨q, hq, -⟩
    · exact hx.symm
    · exact absurd ((loneRoot_depPrev x).symm.trans hq) (by simp)
  freed := fun {x} hx => absurd hx (by simp [Session.new])
  idle_mem := fun {x} _ => iff_of_false List.not_mem_nil fun ⟨⟨_, hx⟩, _⟩ =>
    absurd hx List.not_mem_nil
  idle_tree := fun _ hx => absurd hx List.not_mem_nil
  idle_nodup := List.nodup_nil
  idle_num := rfl
  closed_held := fun hx => absurd hx List.not_mem_nil
  closed_nodup := List.nodup_nil
  closed_num := rfl
  hole_out := fun hx => absurd hx List.not_mem_nil
  used := fun ⟨_, hx⟩ => absurd hx List.not_mem_nil
  unsent := fun hid => absurd hid List.not_mem_nil
  unsent_nodup := List.nodup_nil
  next_mine := by cases server <;> simp [isMyStreamId, Session.new]

/-- **Every run** keeps the invariant. -/
theorem Reachable.inv (h : Reachable ReuseSafe s) : ∃ kids chains, Inv s kids chains [] := by
  induction h with
  | new server n p r => exact ⟨_, _, new_inv server n p r⟩
  | step _ he hstep ih =>
    obtain ⟨kids, chains, hinv⟩ := ih
    obtain ⟨kids', chains', hinv', -⟩ := hinv.of_step he hstep
    exact ⟨kids', chains', hinv'⟩

/-! ## The stream table -/

/-- The call for a dependency that does not exist: an idle stream with default priority. -/
abbrev anchorCall (s : Session) (pri : PrioritySpec) : OpenCall :=
  ⟨s, pri.streamId, .default, .idle⟩

/-- **The calls of `nghttp2_session_open_stream`** that an event makes: the one for the stream
of the event, the one that this call makes for its dependency, and the one that
`nghttp2_session_reprioritize_stream` makes for the new dependency of a stream. -/
inductive Calls (s : Session) (e : Event) : OpenCall → Prop
  | stream {c : OpenCall} (hc : s.openCall e = some c) : Calls s e c
  | dependency {c : OpenCall} {s₁ : Session} {reused : Option Ptr} (hc : s.openCall e = some c)
      (hreuse : c.session.reuseStream c.id c.initialState = .ok (s₁, reused))
      (hanchor : s₁.createsAnchor c.pri) : Calls s e (s₁.anchorCall c.pri)
  | reprioritize {id : ℕ} {pri : PrioritySpec} {x : Ptr} (he : e = .recvPriority id pri)
      (hself : pri.streamId ≠ id) (hx : s.getStreamRaw id = some x)
      (hin : streamInDepTree s.tree.dep x = true) (hanchor : s.createsAnchor pri) :
      Calls s e (s.anchorCall pri)

/-- A missing dependency is opened, whatever stream is being moved meanwhile. -/
theorem Inv.anchorCall_tableKept (h : Inv s kids chains holes) (hanchor : s.createsAnchor pri)
    (hholes : ∀ y ∈ holes, y ∉ s.idleStreams) : (s.anchorCall pri).TableKept := by
  obtain ⟨-, hraw, hserver, -⟩ := hanchor
  obtain ⟨s', kids', chains', l, hopen, hinv, hop, -⟩ := h.openAnchor hserver hraw hholes
  refine h.tableKept (c := s.anchorCall pri) hinv (hop.kept.mono (List.subset_append_right _ _))
    ?_ (hinv.getStreamRaw_iff.2 ⟨hop.held, hop.streamId⟩)
  -- the default priority has no dependency to look for
  rw [← hopen]
  simp only [Session.openStream, enterStream, prepareStream, Session.openAnchor]
  cases s.reuseStream pri.streamId .idle with
  | error f => rfl
  | ok r =>
    have hdep : r.1.resolveDep .default = .ok (r.1, root, .default) := rfl
    have hweight : PrioritySpec.default.weight = defaultWeight := rfl
    simp only [ok_bind, hdep, pure_bind, hweight]
    cases r.1.listStream r.2 pri.streamId defaultWeight .idle <;> rfl

/-- **The stream table is kept** by a call of `nghttp2_session_open_stream` just in case
the idle stream it reuses is the last of its hash chain, and the dependency of a new idle
stream is not evicted for it. -/
theorem tableKept_iff_of_reachable (h : Reachable ReuseSafe s) (hc : s.Calls e c) :
    c.TableKept ↔ c.ReusesLast ∧ c.DepSpared := by
  obtain ⟨kids, chains, hinv⟩ := h.inv
  have hspared : ∀ {s : Session} {pri : PrioritySpec}, s.createsAnchor pri →
      (s.anchorCall pri).ReusesLast ∧ (s.anchorCall pri).DepSpared := fun hanchor =>
    ⟨reusesLast_of_getStreamRaw hanchor.2.1, fun _ hid => absurd rfl hid⟩
  cases hc with
  | stream hc =>
    obtain ⟨hinv', ha⟩ := hinv.openCall hc
    exact hinv'.tableKept_iff ha
  | @dependency c s₁ reused hc hreuse hanchor =>
    refine iff_of_true ?_ (hspared hanchor)
    obtain ⟨hinv', ha⟩ := hinv.openCall hc
    cases hraw : c.session.getStreamRaw c.id with
    | none =>
      obtain ⟨s0, k0, c0, l, hreuse0, hinv0, -⟩ := hinv'.reuseStream_none hraw c.initialState
      cases hreuse.symm.trans hreuse0
      exact hinv0.anchorCall_tableKept hanchor fun y hy => absurd hy List.not_mem_nil
    | some x =>
      -- the stream that is reused is in the table and not in the tree at this time
      obtain ⟨s0, k0, hreuse0, hinv0, hx, -⟩ :=
        hinv'.reuseStream_some hraw (ha.reused x hraw) c.initialState
      cases hreuse.symm.trans hreuse0
      exact hinv0.anchorCall_tableKept hanchor fun y hy => List.mem_singleton.1 hy ▸ hx
  | reprioritize _ _ _ _ hanchor =>
    exact iff_of_true (hinv.anchorCall_tableKept hanchor fun y hy => absurd hy List.not_mem_nil)
      (hspared hanchor)

/-- A check for `ReuseSafe`: a stream that is opened is not in the table. -/
def opensNew (s : Session) (e : Event) : Bool :=
  (s.openCall e).all fun c => (c.session.getStreamRaw c.id).isNone

theorem reuseSafe_of_opensNew (h : s.opensNew e = true) : s.ReuseSafe e := by
  intro c hc
  simp only [opensNew, hc, Option.all_some, Option.isNone_iff_eq_none] at h
  exact reusesLast_of_getStreamRaw h

/-- What a run reaches that opens streams with new ids. -/
theorem reachable_of_guardedRun {server : Bool} {n p r : ℕ} {es : List Event}
    (hrun : guardedRun step opensNew (Session.new server n p r) es = .ok s) :
    Reachable ReuseSafe s ∧ (Session.new server n p r).run es = .ok s :=
  guardedRun_rule (fun _ hs hcheck hstep => hs.step (reuseSafe_of_opensNew hcheck) hstep)
    (.new server n p r) hrun

/-- The ids 1 and 551 have the same hash.  Stream 551 is the older one, so that it is behind
stream 1 in their chain, and the request HEADERS of stream 551 reuse it. -/
theorem recvHeaders_keeps_table :
    ∃ s c, (Session.new true 100 100 200).run
        [.recvPriority 551 .default, .recvPriority 1 .default] = .ok s ∧
      s.openCall (.recvHeaders 551 .default) = some c ∧ c.session.getStreamRaw 551 = some 1 ∧
      c.session.getStreamRaw 1 = some 2 ∧ c.session.streams.next 2 = some 1 ∧ c.TableKept := by
  have heval : (guardedRun step opensNew (Session.new true 100 100 200)
        [.recvPriority 551 .default, .recvPriority 1 .default]).map (fun s =>
      (s.openCall (.recvHeaders 551 .default)).map fun c =>
        decide ((c.id = 551 ∧ c.pri.streamId = 0) ∧ c.session.getStreamRaw 551 = some 1 ∧
          c.session.getStreamRaw 1 = some 2 ∧ c.session.streams.next 2 = some 1 ∧
          c.session.streams.next 1 = none)) = .ok (some true) := by
    decide +kernel
  obtain ⟨s, hrun, hs⟩ := exists_of_map_eq_ok heval
  obtain ⟨c, hc, hobs⟩ := Option.map_eq_some_iff.1 hs
  rw [decide_eq_true_eq] at hobs
  obtain ⟨⟨hid, hpri⟩, hx, hone, hnext, hlast⟩ := hobs
  obtain ⟨hreach, hrun⟩ := reachable_of_guardedRun hrun
  obtain ⟨kids, chains, hinv⟩ := hreach.inv
  obtain ⟨hinv', ha⟩ := hinv.openCall hc
  refine ⟨s, c, hrun, hc, hx, hone, hnext, (tableKept_iff_of_reachable hreach (.stream hc)).2
    ⟨(hinv'.reusesLast_iff ha fun hanchor => hanchor.1 hpri).2 fun y hy => ?_,
      fun _ hne => absurd hpri hne⟩⟩
  obtain rfl : 1 = y := Option.some.inj (hx.symm.trans (hid ▸ hy))
  exact hlast

/-- **The stream table loses a stream.**  The ids 1 and 551 have the same hash.  After two
PRIORITY frames, stream 1 is behind stream 551 in their chain; when the request HEADERS
of stream 551 arrive, its object is initialised again, and stream 1 is gone although it
was not destroyed. -/
theorem recvHeaders_loses_stream :
    ∃ s c s' x, (Session.new true 100 100 200).run
        [.recvPriority 1 .default, .recvPriority 551 .default] = .ok s ∧
      s.openCall (.recvHeaders 551 .default) = some c ∧
      c.session.openStream c.id c.pri c.initialState = .ok (s', x) ∧
      c.session.getStreamRaw 1 = some 1 ∧ s'.getStreamRaw 1 = none ∧ s'.freed 1 = false ∧
      ¬ c.TableKept := by
  have heval : ((Session.new true 100 100 200).run
        [.recvPriority 1 .default, .recvPriority 551 .default]).map (fun s =>
      (s.openCall (.recvHeaders 551 .default)).map fun c =>
        (c.session.openStream c.id c.pri c.initialState).map fun r =>
          (c.session.getStreamRaw 1, r.1.getStreamRaw 1, r.1.freed 1)) =
        .ok (some (.ok (some 1, none, false))) := by
    decide +kernel
  obtain ⟨s, hrun, hs⟩ := exists_of_map_eq_ok heval
  obtain ⟨c, hc, hcall⟩ := Option.map_eq_some_iff.1 hs
  obtain ⟨⟨s', x⟩, hopen, hobs⟩ := exists_of_map_eq_ok hcall
  simp only [Prod.mk.injEq] at hobs
  obtain ⟨hone, hnone, hfreed⟩ := hobs
  refine ⟨s, c, s', x, hrun, hc, hopen, hone, hnone, hfreed, ?_⟩
  rintro ⟨s'', x', hopen', hkept, -⟩
  rw [hopen, Except.ok.injEq, Prod.mk.injEq] at hopen'
  obtain ⟨rfl, -⟩ := hopen'
  rcases hkept 1 1 hone with hfound | hdead
  · simp [hnone] at hfound
  · simp [hfreed] at hdead

/-! ## Links between live streams -/

/-- The moment at which an event links a stream to its dependency, if it does so: the
session, the stream and the dependency. -/
def linkSite (s : Session) (e : Event) : Except Fault (Option (Session × Ptr × Ptr)) :=
  match s.openCall e with
  | some c => do
    let (s, x, d, _) ← c.session.enterStream c.id c.pri c.initialState
    return some (s, x, d)
  | none =>
    match e with
    | .recvPriority id pri =>
      if id ≠ 0 && pri.streamId ≠ id && s.server then
        match s.getStreamRaw id with
        | some x =>
          if streamInDepTree s.tree.dep x then do
            let (s, d, _) ← s.resolveDep pri
            return some (s, x, d)
          else pure none
        | none => pure none
      else pure none
    | _ => pure none

/-- The stream is in the stream table and has not been freed. -/
def Present (s : Session) (x : Ptr) : Prop :=
  s.getStreamRaw (s.streamId x) = some x ∧ s.freed x = false

/-- **An event links live streams only**: when it links a stream to its dependency, both
are in the stream table (the root is in no table) and the dependency is in the dependency
tree, as is the stream if it has been there before; and the event succeeds. -/
def LinksLive (s : Session) (e : Event) : Prop :=
  (∃ s', s.step e = .ok s') ∧
    ∀ s₁ x d, s.linkSite e = .ok (some (s₁, x, d)) →
      s₁.Present x ∧ (d = root ∨ s₁.Present d) ∧ InTree s₁.tree.dep d ∧
        (s.openCall e = none → InTree s₁.tree.dep x)

theorem Inv.present (h : Inv s kids chains holes) (hx : Holds chains x) : s.Present x :=
  ⟨h.getStreamRaw_iff.2 ⟨hx, rfl⟩, (h.held hx).2.2⟩

theorem Inv.present_of_inTree (h : Inv s kids chains holes)
    (hx : InTree s.tree.dep x) : x = root ∨ s.Present x :=
  (h.inTree hx).imp_right h.present

/-- If the idle limit spares the streams of an event, it links live streams only. -/
theorem Inv.linksLive (h : Inv s kids chains []) (hreuse : s.ReuseSafe e) (hspare : s.Spares e) :
    s.LinksLive e := by
  obtain ⟨s', -, -, hstep, -⟩ := h.step hreuse hspare
  refine ⟨⟨s', hstep⟩, fun s1 x d hsite => ?_⟩
  unfold linkSite at hsite
  cases hc : s.openCall e with
  | some c =>
    obtain ⟨hinv, ha⟩ := h.openCall hc
    obtain ⟨s2, x2, d2, ex, k2, c2, henter, hinv2, -, -, -, hd, -⟩ :=
      hinv.enterCall ha (hreuse c hc)
    simp only [hc, henter, ok_bind] at hsite
    obtain ⟨rfl, rfl, rfl⟩ : s2 = s1 ∧ x2 = x ∧ d2 = d := by
      simpa [pure, Except.pure] using hsite
    have hin := hd (hspare.depSpared hc)
    exact ⟨hinv2.present (hinv2.hole_out List.mem_cons_self).1, hinv2.present_of_inTree hin, hin,
      fun hnone => by cases hnone⟩
  | none =>
    simp only [hc] at hsite
    split at hsite
    next id pri =>
      split_ifs at hsite with hcond
      · simp only [ne_eq, Bool.and_eq_true, decide_eq_true_eq] at hcond
        obtain ⟨⟨hid, hself⟩, hserver⟩ := hcond
        split at hsite
        next y hraw =>
          split_ifs at hsite with hin
          · obtain ⟨hheld, hyid⟩ := h.getStreamRaw_iff.1 hraw
            obtain ⟨s2, k2, c2, d2, pri', hres, hinv2, hheld2, -, hin2, hd, -⟩ :=
              h.resolveDepFor hheld (by rwa [hyid])
                ((h.tree.streamInDepTree_iff (h.held hheld).1).1 hin)
                ((hspare id pri rfl hserver hid hself).1 y hraw)
            simp only [hres, ok_bind] at hsite
            obtain ⟨rfl, rfl, rfl⟩ : s2 = s1 ∧ y = x ∧ d2 = d := by
              simpa [pure, Except.pure] using hsite
            exact ⟨hinv2.present hheld2, hinv2.present_of_inTree hd, hd, fun _ => hin2⟩
          · cases hsite
        next => cases hsite
      · cases hsite
    next => cases hsite

/-- **Streams are linked while both are alive** just in case the idle limit, enforced by
the same event, spares them. -/
theorem linksLive_iff_of_reachable (h : Reachable ReuseSafe s) (hreuse : s.ReuseSafe e) :
    s.LinksLive e ↔ s.Spares e := by
  obtain ⟨kids, chains, hinv⟩ := h.inv
  refine ⟨fun hlive => ?_, hinv.linksLive hreuse⟩
  by_contra hspare
  obtain ⟨⟨s', hstep⟩, -⟩ := hlive
  rw [hinv.step_fault hreuse hspare] at hstep
  cases hstep

/-- A server that keeps two idle streams has streams 1 and 3 as idle streams.  A PRIORITY
frame opens stream 5 below stream 3: stream 1 is evicted for it, and the dependency stays. -/
theorem recvPriority_linksLive :
    ∃ s, (Session.new true 2 2 200).run [.recvPriority 1 .default, .recvPriority 3 .default] =
        .ok s ∧ s.getStreamRaw 1 = some 1 ∧ s.getStreamRaw 3 = some 2 ∧ s.evictable 1 = [1] ∧
      s.LinksLive (.recvPriority 5 (.dependsOn 3)) := by
  refine exists_of_eval (fun s => s.getStreamRaw 1 = some 1 ∧ s.getStreamRaw 3 = some 2 ∧
    s.evictable 1 = [1] ∧ s.opensNew (.recvPriority 5 (.dependsOn 3)) = true ∧
    s.getStreamRaw 5 = none) reachable_of_guardedRun (by decide +kernel) fun s hreach hobs => ?_
  obtain ⟨hone, hthree, hevict, hnew, hfive⟩ := hobs
  refine ⟨hone, hthree, hevict,
    (linksLive_iff_of_reachable hreach (reuseSafe_of_opensNew hnew)).2 ?_⟩
  rintro id pri ⟨⟩ - - -
  refine ⟨fun x hx => by simp [hfive] at hx, fun _ _ _ d hd => ?_⟩
  obtain rfl : 2 = d := Option.some.inj (hthree.symm.trans hd)
  simp [hevict]

/-- **An evicted stream is used.**  A server that keeps two idle streams has streams 1 and
3 as idle streams.  A PRIORITY frame that opens stream 5 below stream 1 evicts stream 1
first; a PRIORITY frame that moves stream 1 below a stream 5, which it creates, evicts
stream 1 meanwhile. -/
theorem recvPriority_uses_evicted :
    ∃ s, (Session.new true 2 2 200).run [.recvPriority 1 .default, .recvPriority 3 .default] =
        .ok s ∧
      s.step (.recvPriority 5 (.dependsOn 1)) = .error .useAfterFree ∧
      s.step (.recvPriority 1 (.dependsOn 5)) = .error .useAfterFree ∧
      ¬ s.LinksLive (.recvPriority 5 (.dependsOn 1)) ∧
      ¬ s.LinksLive (.recvPriority 1 (.dependsOn 5)) := by
  have heval : ((Session.new true 2 2 200).run
        [.recvPriority 1 .default, .recvPriority 3 .default]).map (fun s =>
      ((s.step (.recvPriority 5 (.dependsOn 1))).map fun _ => (),
        (s.step (.recvPriority 1 (.dependsOn 5))).map fun _ => ())) =
      .ok (.error .useAfterFree, .error .useAfterFree) := by
    decide +kernel
  obtain ⟨s, hrun, hs⟩ := exists_of_map_eq_ok heval
  rw [Prod.mk.injEq] at hs
  have hfault : ∀ {e}, (s.step e).map (fun _ => ()) = .error .useAfterFree →
      s.step e = .error .useAfterFree := fun {e} he => by
    cases hstep : s.step e with
    | ok s' => simp [hstep, Except.map] at he
    | error f => simpa [hstep, Except.map] using he
  have hdead : ∀ {e}, s.step e = .error .useAfterFree → ¬ s.LinksLive e := by
    rintro e he ⟨⟨s', hs'⟩, -⟩
    rw [he] at hs'
    cases hs'
  exact ⟨s, hrun, hfault hs.1, hfault hs.2, hdead (hfault hs.1), hdead (hfault hs.2)⟩

/-- **A session points to live streams only.**  As long as reused idle streams are the last of
their hash chains, the dependency tree is in order, and the table finds its streams and those in
the two lists: nothing leads to a stream that has been freed. -/
theorem present_of_reachable (h : Reachable ReuseSafe s) :
    (∃ kids, IsDepTree s.tree.dep kids s.tree.allocated) ∧
    (∀ x, InTree s.tree.dep x → x = root ∨ s.Present x) ∧
    (∀ id x, s.getStreamRaw id = some x ↔ s.Present x ∧ s.streamId x = id) ∧
    (∀ x, x ∈ s.idleStreams ↔ s.Present x ∧ (s.info x).state = .idle) ∧
    ∀ x ∈ s.closedStreams, s.Present x ∧ (s.info x).closed = true := by
  obtain ⟨kids, chains, hinv⟩ := h.inv
  have hheld : ∀ x, s.Present x ↔ Holds chains x :=
    fun x => ⟨fun hx => (hinv.getStreamRaw_iff.1 hx.1).1, hinv.present⟩
  refine ⟨⟨kids, isDepTree_of_inv hinv.tree.toTreeInv⟩, fun x => hinv.present_of_inTree, ?_, ?_, ?_⟩
  · intro id x
    rw [hheld, hinv.getStreamRaw_iff]
  · intro x
    rw [hheld]
    exact hinv.idle_mem List.not_mem_nil
  · intro x hx
    obtain ⟨hmem, hclosed, -⟩ := hinv.closed_held hx
    exact ⟨hinv.present hmem, hclosed⟩

/-- A session with an idle stream, a closed one that is kept, and an open one below it. -/
theorem recvHeaders_present : ∃ s, (Session.new true 100 100 200).run
      [.recvPriority 7 .default, .recvHeaders 1 .default, .recvHeaders 3 (.dependsOn 1), .close 1] =
        .ok s ∧
    s.idleStreams = [1] ∧ s.closedStreams = [2] ∧ s.getStream 3 = some 3 ∧
    (∃ kids, IsDepTree s.tree.dep kids 4) ∧ (s.Present 1 ∧ (s.info 1).state = .idle) ∧
    (s.Present 2 ∧ (s.info 2).closed = true) ∧ s.Present 3 ∧ ∀ x, InTree s.tree.dep x →
      x = root ∨ s.Present x := by
  refine exists_of_eval (fun s => s.idleStreams = [1] ∧ s.closedStreams = [2] ∧
    s.getStream 3 = some 3 ∧ s.getStreamRaw 3 = some 3 ∧ s.tree.allocated = 4)
    reachable_of_guardedRun (by decide +kernel) fun s hreach hobs => ?_
  obtain ⟨hidle, hclosed, hget, hraw, halloc⟩ := hobs
  obtain ⟨htree, hin, htable, hidles, hcloseds⟩ := present_of_reachable hreach
  exact ⟨hidle, hclosed, hget, halloc ▸ htree, (hidles 1).1 (by simp [hidle]),
    hcloseds 2 (by simp [hclosed]), ((htable 3 3).1 hraw).1, hin⟩

end Nghttp2.Session
