/-
# Reprioritising, closing and the other changes

Every function of the session that changes the stream table, other than
`nghttp2_session_open_stream`, keeps the invariant:

* `Inv.reprioritizeStream`, with the one exception that the stream is evicted while an
  idle dependency is created for it (`Inv.reprioritizeStream_fault`);
* `Inv.closeStream`;
* `Inv.settle`: all events that open no stream.
-/
import Nghttp2.OpenStream

namespace Nghttp2.Session

open ChainMap ParentForest

variable {s s' : Session} {kids kids' : Ptr → List Ptr} {chains chains' : ℕ → List Ptr}
  {holes : List Ptr} {d x y : Ptr} {id : ℕ} {pri : PrioritySpec}

/-! ## Frame rules -/

/-- Stream ids are taken, and those that were used stay used. -/
structure TakesIds (s s' : Session) : Prop where
  used : ∀ ⦃id⦄, s.Used id → s'.Used id
  unsent : ∀ ⦃id⦄, id ∈ s'.unsent → s'.isMyStreamId id = true ∧ id < s'.nextStreamId
  nodup : s'.unsent.Nodup
  next_mine : s'.isMyStreamId s'.nextStreamId = true

/-- The peer takes an id. -/
theorem TakesIds.raiseRecv (h : TakesIds s s) (hid : s.lastRecvStreamId ≤ id) :
    TakesIds s { s with lastRecvStreamId := id } :=
  { h with used := fun _ => taken_mono rfl le_rfl hid fun _ => (·) }

/-- The frame that was to take an id is sent. -/
theorem TakesIds.send (h : TakesIds s s) : TakesIds s { s with unsent := s.unsent.erase id } :=
  ⟨fun _ => taken_mono rfl le_rfl le_rfl fun _ hnot hmem => hnot (List.mem_of_mem_erase hmem),
    fun _ hj => h.unsent (List.mem_of_mem_erase hj), h.nodup.erase id, h.next_mine⟩

/-- The next own id grows. -/
theorem TakesIds.raiseNext {n : ℕ} (h : TakesIds s s) (hn : s.nextStreamId ≤ n)
    (hmine : s.isMyStreamId n = true) : TakesIds s { s with nextStreamId := n } :=
  ⟨fun _ => taken_mono rfl hn le_rfl fun _ => (·),
    fun _ hj => ⟨(h.unsent hj).1, (h.unsent hj).2.trans_le hn⟩, h.nodup, hmine⟩

theorem isMyStreamId_add_two (h : s.isMyStreamId id = true) :
    s.isMyStreamId (id + 2) = true := by
  simp only [isMyStreamId, ne_eq, Bool.and_eq_true, decide_eq_true_eq] at h ⊢
  refine ⟨by omega, ?_⟩
  rw [Nat.add_mod_right]
  exact h.2

/-- An own id is handed out. -/
theorem TakesIds.submit (h : TakesIds s s) : TakesIds s
    { s with nextStreamId := s.nextStreamId + 2, unsent := s.unsent ++ [s.nextStreamId] } := by
  refine ⟨fun j => taken_mono rfl (Nat.le_add_right _ 2) le_rfl fun hlt hnot hmem => ?_,
    fun j hj => ?_, ?_, isMyStreamId_add_two h.next_mine⟩
  · rcases List.mem_append.1 hmem with hmem | hmem
    · exact hnot hmem
    · exact hlt.ne (List.mem_singleton.1 hmem)
  · show _ ∧ j < s.nextStreamId + 2
    rcases List.mem_append.1 hj with hj | hj
    · exact ⟨(h.unsent hj).1, by have := (h.unsent hj).2; omega⟩
    · obtain rfl := List.mem_singleton.1 hj
      exact ⟨h.next_mine, by omega⟩
  · refine List.nodup_append'.2 ⟨h.nodup, List.nodup_singleton _, ?_⟩
    rw [List.disjoint_singleton]
    exact fun hmem => lt_irrefl _ (h.unsent hmem).2

theorem Inv.ids (h : Inv s kids chains holes) : TakesIds s s :=
  ⟨fun _ hj => hj, fun _ => h.unsent, h.unsent_nodup, h.next_mine⟩

theorem Inv.withIds (h : Inv s kids chains holes)
    (hs : s' = { s with
      lastRecvStreamId := s'.lastRecvStreamId
      nextStreamId := s'.nextStreamId
      unsent := s'.unsent })
    (hids : TakesIds s s') : Inv s' kids chains holes := by
  rw [hs] at hids ⊢
  exact { h with
    used := fun hx hne => hids.used (h.used hx hne)
    unsent := fun hj => hids.unsent hj
    unsent_nodup := hids.nodup
    next_mine := hids.next_mine }

variable {f : StreamInfo → StreamInfo} {t : StreamTree}

/-- The dependency tree may change, as long as the streams in it stay the same. -/
theorem Inv.withTree (h : Inv s kids chains holes) (ht : WholeTree t kids')
    (hin : ∀ y, InTree t.dep y ↔ InTree s.tree.dep y) (halloc : t.allocated = s.tree.allocated) :
    Inv { s with tree := t } kids' chains holes :=
  { h with
    tree := ht
    held := fun {y} hy => by
      show _ ∧ y < t.allocated ∧ _
      rw [halloc]
      exact h.held hy
    inTree := fun {y} hy => h.inTree ((hin y).1 hy)
    freed := fun {y} hy => by
      show _ ∧ y < t.allocated
      rw [halloc]
      exact h.freed hy
    idle_tree := fun {y} hy hmem => (hin y).2 (h.idle_tree hy hmem)
    hole_out := fun {y} hy => ⟨(h.hole_out hy).1, fun hin' => (h.hole_out hy).2 ((hin y).1 hin')⟩ }

theorem Inv.withLinks (h : Inv s kids chains holes)
    (ht : SameLinks s.tree t kids) : Inv { s with tree := t } kids chains holes :=
  h.withTree ht.tree (fun y => by rw [ht.dep]) ht.allocated

/-! ## Reprioritising -/

section Reprioritize

variable (h : Inv s kids chains []) (hx : Holds chains x) (hself : pri.streamId ≠ s.streamId x)
include h hx hself

/-- When the dependency has been found or created, the stream is still there, and is not
its own dependency. -/
theorem Inv.resolveDepFor (hin : InTree s.tree.dep x)
    (hspare : s.createsAnchor pri → x ∉ s.evictable 1) :
    ∃ s1 kids1 chains1 d pri', s.resolveDep pri = .ok (s1, d, pri') ∧ Inv s1 kids1 chains1 [] ∧
      Holds chains1 x ∧ s1.streamId x = s.streamId x ∧ InTree s1.tree.dep x ∧
      InTree s1.tree.dep d ∧ x ≠ d ∧ (pri'.streamId = 0 → d = root) ∧
      Carries s s1 chains chains1 [] := by
  obtain ⟨s1, k1, c1, d, pri', l, hres, hinv1, hprep, hzero, hnot, hanchor, -⟩ :=
    h.resolveDep pri fun y hy => absurd hy List.not_mem_nil
  by_cases ha : s.createsAnchor pri
  · obtain ⟨rfl, -, -, hd⟩ := hanchor ha
    obtain ⟨hheld, hid⟩ := (hprep.kept.old hx).resolve_right fun hfreed =>
      ((hprep.freed x).1 hfreed).elim (by simp [(h.held hx).2.2]) (hspare ha)
    refine ⟨s1, k1, c1, d, pri', hres, hinv1, hheld, hid, hprep.inTree x hin (hspare ha),
      hprep.dep, fun hxd => hself ?_, hzero, hprep.kept.toCarries⟩
    rw [← hd, ← hxd, hid]
  · obtain ⟨rfl, hd⟩ := hnot ha
    obtain ⟨hheld, hid⟩ := (hprep.kept.old hx).resolve_right (by simp [(h.held hx).2.2])
    refine ⟨s1, k1, c1, d, pri', hres, hinv1, hheld, hid, hin, hprep.dep, fun hxd => ?_, hzero,
      hprep.kept.toCarries⟩
    rcases hd with ⟨-, hraw⟩ | ⟨hd, -⟩
    · exact hself (hxd ▸ (h.getStreamRaw_iff.1 hraw).2.symm)
    · exact (h.held hx).1 (hxd.trans hd)

/-- **Reprioritising a stream** that is not evicted meanwhile: the stream moves, and
at most the anchor enters the tree. -/
theorem Inv.reprioritizeStream (hspare : s.createsAnchor pri → x ∉ s.evictable 1) :
    ∃ s' kids' chains', s.reprioritizeStream x pri = .ok s' ∧ Inv s' kids' chains' [] ∧
      Carries s s' chains chains' [] := by
  obtain ⟨hroot, -, -⟩ := h.held hx
  unfold Session.reprioritizeStream
  rw [if_neg hself]
  by_cases hin : InTree s.tree.dep x
  · obtain ⟨s1, k1, c1, d, pri', hres, hinv1, hheld1, hid1, hin1, hd, hxd, hzero, hcar⟩ :=
      h.resolveDepFor hx hself hin hspare
    obtain ⟨t, kids', hmove, hch⟩ := hinv1.tree.move hroot hin1 hd hxd hzero
    have hmoved : Kept s1 { s1 with tree := t } c1 c1 [] := Kept.of_tree rfl hch.pending c1
    refine ⟨{ s1 with tree := t }, kids', c1, ?_, hinv1.withTree hch.tree hch.inTree hch.allocated,
      hcar.trans hmoved.toCarries⟩
    have hlive := (hinv1.held hheld1).2.2
    have hin' := (h.tree.streamInDepTree_iff hroot).2 hin
    simp only [hin', Bool.not_true, Bool.false_eq_true, if_false, hres, ok_bind, hlive, hmove]
    rfl
  · have hout : streamInDepTree s.tree.dep x = false := by
      rw [← Bool.not_eq_true, h.tree.streamInDepTree_iff hroot]
      exact hin
    refine ⟨s, kids, chains, ?_, h, (Kept.refl s chains).toCarries⟩
    rw [hout, Bool.not_false, if_pos rfl]
    rfl

/-- **A stream that is evicted while its anchor is created** is moved after it was
freed. -/
theorem Inv.reprioritizeStream_fault (hanchor : s.createsAnchor pri) (hev : x ∈ s.evictable 1) :
    s.reprioritizeStream x pri = .error .useAfterFree := by
  obtain ⟨hroot, -, -⟩ := h.held hx
  have hin := (h.tree.streamInDepTree_iff hroot).2
    (h.idle_tree List.not_mem_nil (List.mem_of_mem_take hev))
  obtain ⟨s1, k1, c1, l, hres, hinv1, hop, -⟩ := h.resolveDep_of_anchor hanchor fun y hy =>
    absurd hy List.not_mem_nil
  have hdead : s1.freed x = true := (hop.freed x).2 (Or.inr hev)
  unfold Session.reprioritizeStream
  rw [if_neg hself]
  simp only [hin, Bool.not_true, Bool.false_eq_true, if_false, hres, ok_bind, hdead, if_true]
  rfl

end Reprioritize

/-! ## Closing -/

/-- The item of a stream that is closed is detached. -/
theorem Inv.releaseItem (h : Inv s kids chains holes) (x : Ptr) :
    Inv (s.releaseItem x) kids chains holes ∧ (s.releaseItem x).info = s.info ∧
      (s.releaseItem x).idleStreams = s.idleStreams ∧
      (s.releaseItem x).closedStreams = s.closedStreams := by
  unfold Session.releaseItem
  cases s.tree.sched.item x with
  | none => exact ⟨h, rfl, rfl, rfl⟩
  | some i =>
    have hinv := h.withLinks (h.tree.detachItem x)
    dsimp only
    split
    · exact ⟨hinv.of_sameTable (sameTable_of_eq rfl), rfl, rfl, rfl⟩
    · exact ⟨hinv, rfl, rfl, rfl⟩

theorem uncountStream_sameTable (s : Session) (x : Ptr) (id : ℕ) :
    SameTable s (s.uncountStream x id) ∧ (s.uncountStream x id).info = s.info ∧
      (s.uncountStream x id).items = s.items := by
  unfold uncountStream
  split_ifs
  · exact ⟨sameTable_of_eq rfl, rfl, rfl⟩
  · exact ⟨sameTable_of_eq rfl, rfl, rfl⟩
  · exact ⟨sameTable_of_eq rfl, rfl, rfl⟩
  · exact ⟨sameTable_of_eq rfl, rfl, rfl⟩

/-- The stream is taken out of the counters and marked as closed. -/
theorem Inv.markClosed (h : Inv s kids chains holes) (x : Ptr) (id : ℕ)
    (hs' : s' = (s.uncountStream x id).modifyInfo x fun i => { i with closed := true }) :
    Inv s' kids chains holes ∧ s'.info x = { s.info x with closed := true } ∧
      s'.idleStreams = s.idleStreams ∧ s'.closedStreams = s.closedStreams ∧
      Carries s s' chains chains [x] := by
  obtain ⟨hcount, hinfo, hitems⟩ := uncountStream_sameTable s x id
  have hmark : SameTable (s.uncountStream x id) s' := by
    rw [hs']
    exact sameTable_modifyInfo Iff.rfl fun _ => rfl
  have hsame := hcount.trans hmark
  refine ⟨h.of_sameTable hsame, ?_, hsame.idle, hsame.closed, ?_⟩
  · rw [hs', modifyInfo_self, hinfo]
  · refine Carries.of_eq (by rw [hsame.streams]) (fun hi => ?_) (fun {y i} _ hy => ?_) ?_ chains
    · rwa [hsame.tree] at hi
    · refine live_of_info ?_
      rw [hs', modifyInfo_of_ne (by simpa using hy), hinfo]
    · rw [hs']
      exact hitems

/-- A closed stream is kept for the dependency tree, and older ones may be destroyed. -/
theorem Inv.keepClosedStream (h : Inv s kids chains []) (hx : Holds chains x)
    (hclosed : (s.info x).closed = true) (hstate : (s.info x).state ≠ .idle)
    (hnot : x ∉ s.closedStreams) :
    ∃ s' kids' chains', s.keepClosedStream x = .ok s' ∧ Inv s' kids' chains' [] ∧
      Carries s s' chains chains' [] := by
  set s1 : Session :=
    { s with
      closedStreams := s.closedStreams ++ [x]
      numClosedStreams := s.numClosedStreams + 1 } with hs1
  have hinv1 : Inv s1 kids chains [] := {
    h with
    closed_held := fun {y} hy => by
      rcases List.mem_append.1 hy with hy | hy
      · exact h.closed_held hy
      · obtain rfl := List.mem_singleton.1 hy
        exact ⟨hx, hclosed, hstate, List.not_mem_nil⟩
    closed_nodup := List.nodup_append'.2
      ⟨h.closed_nodup, List.nodup_singleton x, by simpa using hnot⟩
    closed_num := by
      show s.numClosedStreams + 1 = (s.closedStreams ++ [x]).length
      rw [h.closed_num, List.length_append, List.length_singleton] }
  obtain ⟨s', kids', chains', k, hres, hinv, hev, -⟩ :=
    hinv1.adjustClosedLoop 0 s1.numClosedStreams le_rfl
  have hcar : Carries s s1 chains chains [] :=
    ⟨fun hi => hi, fun hy _ => ⟨hy, rfl⟩, fun _ _ _ hlive => hlive, rfl⟩
  exact ⟨s', kids', chains', hres, hinv, hcar.trans hev.kept.toCarries⟩

/-- **A stream that has been open is closed**, and then kept or destroyed. -/
theorem Inv.finishClose (h : Inv s kids chains []) (hheld : Holds chains x) (hlive : s.Live x)
    (id : ℕ) :
    ∃ s' kids' chains', s.finishClose x id = .ok s' ∧ Inv s' kids' chains' [] ∧
      Carries s s' chains chains' [x] := by
  obtain ⟨hopen, hstate⟩ := hlive
  unfold Session.finishClose
  obtain ⟨hinv, hinfo, hidle, hclosed, hcar⟩ := h.markClosed x id rfl
  set s1 := (s.uncountStream x id).modifyInfo x fun i => { i with closed := true } with hs1
  have hnotc : x ∉ s1.closedStreams := by
    rw [hclosed]
    intro hx
    simp [(h.closed_held hx).2.1] at hopen
  have hnoti : x ∉ s1.idleStreams := by
    rw [hidle]
    exact fun hx => hstate ((h.idle_mem List.not_mem_nil).1 hx).2
  dsimp only
  split
  · obtain ⟨s', kids', chains', hres, hinv', hcar'⟩ :=
      hinv.keepClosedStream hheld (by rw [hinfo]) (by rw [hinfo]; exact hstate) hnotc
    exact ⟨s', kids', chains', hres, hinv', hcar.trans hcar'⟩
  · obtain ⟨s', kids', chains', hres, hs', hdrop⟩ := hinv.drop hheld List.not_mem_nil
    obtain ⟨hinv', hev⟩ := hdrop s' (by
      rw [List.erase_of_not_mem hnoti, List.erase_of_not_mem hnotc, ← hinv.idle_num,
        ← hinv.closed_num]
      rw [hs'])
    exact ⟨s', kids', chains', hres, hinv', hcar.trans hev.kept.toCarries⟩

/-- **Closing a stream** succeeds. -/
theorem Inv.closeStream (h : Inv s kids chains []) (id : ℕ) :
    ∃ s' kids' chains', s.closeStream id = .ok s' ∧ Inv s' kids' chains' [] := by
  unfold Session.closeStream
  cases hget : s.getStream id with
  | none => exact ⟨s, kids, chains, rfl, h⟩
  | some x =>
    obtain ⟨hheld, -, hlive⟩ := h.of_getStream hget
    obtain ⟨hinv, hinfo, -⟩ := h.releaseItem x
    obtain ⟨s', kids', chains', hres, hinv', -⟩ :=
      hinv.finishClose hheld (live_of_info (congrFun hinfo x) hlive) id
    exact ⟨s', kids', chains', hres, hinv'⟩

/-! ## Events that open no stream -/

theorem Inv.raiseRecv (h : Inv s kids chains holes) (hid : s.lastRecvStreamId ≤ id) :
    Inv { s with lastRecvStreamId := id } kids chains holes :=
  h.withIds rfl (h.ids.raiseRecv hid)

theorem isNewPeerStreamId_iff : s.isNewPeerStreamId id = true ↔
    id ≠ 0 ∧ s.isMyStreamId id = false ∧ s.lastRecvStreamId < id := by
  simp [isNewPeerStreamId, and_assoc]

/-- The next own stream id grows, and may be handed out. -/
theorem Inv.raiseNext {n : ℕ} (h : Inv s kids chains holes) (hn : s.nextStreamId ≤ n)
    (hmine : s.isMyStreamId n = true) : Inv { s with nextStreamId := n } kids chains holes :=
  h.withIds rfl (h.ids.raiseNext hn hmine)

/-- **A submission** takes the next stream id. -/
theorem Inv.submitStream (h : Inv s kids chains holes) :
    Inv { s with nextStreamId := s.nextStreamId + 2, unsent := s.unsent ++ [s.nextStreamId] }
      kids chains holes :=
  h.withIds rfl h.ids.submit

/-- **A stream changes its session fields** but does not become idle. -/
theorem Inv.modifyInfo (h : Inv s kids chains holes) (hx : (s.info x).state ≠ .idle)
    (hf : (f (s.info x)).state ≠ .idle) (hclosed : (f (s.info x)).closed = (s.info x).closed) :
    Inv (s.modifyInfo x f) kids chains holes :=
  h.of_sameTable (sameTable_modifyInfo (iff_of_false hf hx) fun hc => hclosed.trans hc)

/-- The idle limit of a server spares the stream that a PRIORITY frame refers to, and the
stream it is to depend on. -/
def LimitSpares (s : Session) (id : ℕ) (pri : PrioritySpec) : Prop :=
  s.server = true → id ≠ 0 → pri.streamId ≠ id →
    (∀ x, s.getStreamRaw id = some x → s.createsAnchor pri → x ∉ s.evictable 1) ∧
    (s.getStreamRaw id = none → s.detectIdleStream id = true → s.DepStays pri)

/-- The reprioritisation of the stream with this id, if there is one. -/
theorem Inv.reprioritizeId (h : Inv s kids chains []) (hself : pri.streamId ≠ id)
    (hspare : ∀ x, s.getStreamRaw id = some x → s.createsAnchor pri → x ∉ s.evictable 1) :
    ∃ s' kids' chains', (match s.getStreamRaw id with
      | some x => s.reprioritizeStream x pri
      | none => pure s) = .ok s' ∧ Inv s' kids' chains' [] ∧ Carries s s' chains chains' [] := by
  cases hraw : s.getStreamRaw id with
  | none => exact ⟨s, kids, chains, rfl, h, (Kept.refl s chains).toCarries⟩
  | some x =>
    obtain ⟨hheld, hid⟩ := h.getStreamRaw_iff.1 hraw
    exact h.reprioritizeStream hheld (by rwa [hid]) (hspare x hraw)

/-- The idle limit spares the streams that an event refers to. -/
def Spares (s : Session) (e : Event) : Prop :=
  ∀ id pri, e = .recvPriority id pri → s.LimitSpares id pri

/-- Changes of stream ids, limits and flags of the session carry all items. -/
theorem Carries.of_rest (hs : s' = { s with
      numOutgoingStreams := s'.numOutgoingStreams
      numIncomingStreams := s'.numIncomingStreams
      numIncomingReservedStreams := s'.numIncomingReservedStreams
      maxConcurrentStreams := s'.maxConcurrentStreams
      pendingMaxConcurrentStreams := s'.pendingMaxConcurrentStreams
      lastRecvStreamId := s'.lastRecvStreamId
      nextStreamId := s'.nextStreamId
      unsent := s'.unsent
      goawaySent := s'.goawaySent }) (chains : ℕ → List Ptr) : Carries s s' chains chains [] := by
  rw [hs]
  exact ⟨fun hi => hi, fun hy _ => ⟨hy, rfl⟩, fun _ _ _ hlive => hlive, rfl⟩

/-- A change of the session fields of a stream that does not become idle or closed carries
all items. -/
theorem carries_modifyInfo (hf : (s.info x).state ≠ .idle → (f (s.info x)).state ≠ .idle)
    (hclosed : (f (s.info x)).closed = (s.info x).closed) (chains : ℕ → List Ptr) :
    Carries s (s.modifyInfo x f) chains chains [] := by
  refine ⟨fun hi => hi, fun hy _ => ⟨hy, rfl⟩, fun {y i} _ _ _ hlive => ?_, rfl⟩
  rcases eq_or_ne y x with rfl | hyx
  · unfold Live
    rw [modifyInfo_self]
    exact ⟨hclosed.trans hlive.1, hf hlive.2⟩
  · exact live_of_info (modifyInfo_of_ne hyx) hlive

/-- An item operation that adds no item carries all others. -/
theorem carries_withTree (hitem : ∀ {y i}, t.sched.item y = some i → s.tree.sched.item y = some i)
    (chains : ℕ → List Ptr) : Carries s { s with tree := t } chains chains [] :=
  ⟨hitem, fun hy _ => ⟨hy, rfl⟩, fun _ _ _ hlive => hlive, rfl⟩

theorem carries_detachItem (s : Session) (x : Ptr) (chains : ℕ → List Ptr) :
    Carries s { s with tree := streamDetachItem s.tree x } chains chains [] := by
  refine carries_withTree (fun {y i} hi => ?_) chains
  rw [(streamDetachItem_item s.tree x).1] at hi
  rcases eq_or_ne y x with rfl | hyx
  · simp at hi
  · rwa [Function.update_of_ne hyx] at hi

/-- **Events that open no stream** keep the invariant. -/
theorem Inv.settle (h : Inv s kids chains []) (e : Event) (hspare : s.Spares e) :
    ∃ s' kids' chains', s.settle e = .ok s' ∧ Inv s' kids' chains' [] ∧
      (e.quiet = true → Carries s s' chains chains' []) := by
  have hsame : ∃ s' kids' chains', (pure s : Except Fault Session) = .ok s' ∧
      Inv s' kids' chains' [] ∧ (e.quiet = true → Carries s s' chains chains' []) :=
    ⟨s, kids, chains, rfl, h, fun _ => (Kept.refl s chains).toCarries⟩
  cases e with
  | recvHeaders id pri =>
    simp only [Session.settle]
    split_ifs with hcond
    · rw [Bool.and_eq_true, isNewPeerStreamId_iff] at hcond
      exact ⟨_, kids, chains, rfl, h.raiseRecv hcond.2.2.2.le,
        fun _ => .of_rest rfl chains⟩
    · exact hsame
  | recvPriority id pri =>
    simp only [Session.settle]
    split_ifs with hcond
    · simp only [ne_eq, Bool.and_eq_true, decide_eq_true_eq] at hcond
      obtain ⟨s', kids', chains', hres, hinv, hcar⟩ :=
        h.reprioritizeId hcond.1.2 (hspare id pri rfl hcond.2 hcond.1.1 hcond.1.2).1
      exact ⟨s', kids', chains', hres, hinv, fun _ => hcar⟩
    · exact hsame
  | recvPushPromise id promised =>
    simp only [Session.settle]
    split_ifs with hcond
    · rw [Bool.and_eq_true, isNewPeerStreamId_iff] at hcond
      exact ⟨_, kids, chains, rfl, h.raiseRecv hcond.2.2.2.le,
        fun _ => .of_rest rfl chains⟩
    · exact hsame
  | submitStream =>
    simp only [Session.settle]
    split_ifs
    · exact ⟨_, kids, chains, rfl, h.submitStream, fun _ => .of_rest rfl chains⟩
    · exact hsame
  | sendPriority id pri =>
    simp only [Session.settle]
    split_ifs with hcond
    · simp only [ne_eq, Bool.and_eq_true, Bool.not_eq_true', decide_eq_true_eq] at hcond
      obtain ⟨s', kids', chains', hres, hinv, hcar⟩ := h.reprioritizeId hcond.2 fun x _ ha => by
        have hserver : s.server = true := ha.2.2.1
        simp [hserver] at hcond
      exact ⟨s', kids', chains', hres, hinv, fun _ => hcar⟩
    · exact hsame
  | close id =>
    obtain ⟨s', kids', chains', hres, hinv⟩ := h.closeStream id
    exact ⟨s', kids', chains', hres, hinv, fun hq => by cases hq⟩
  | setState id state =>
    simp only [Session.settle]
    split
    next x hget =>
      split_ifs with hst
      · exact hsame
      · exact ⟨_, kids, chains, rfl, h.modifyInfo (h.of_getStream hget).2.2.2 hst rfl,
          fun _ => carries_modifyInfo (fun _ => hst) rfl chains⟩
    next => exact hsame
  | shutdown id rd wr =>
    simp only [Session.settle]
    split
    next x hget =>
      have hst := (h.of_getStream hget).2.2.2
      exact ⟨_, kids, chains, rfl, h.modifyInfo hst hst rfl, fun _ =>
        carries_modifyInfo (fun hst => hst) rfl chains⟩
    next => exact hsame
  | fulfillPush id =>
    simp only [Session.settle]
    split
    next x hget =>
      have hinv := h.modifyInfo (f := fun i => { i with state := .opened, push := false })
        (h.of_getStream hget).2.2.2 (by simp) rfl
      have hcar : Carries s (s.modifyInfo x fun i => { i with state := .opened, push := false })
          chains chains [] := carries_modifyInfo (fun _ => by simp) rfl chains
      split_ifs
      · exact ⟨_, kids, chains, rfl, hinv.of_sameTable (sameTable_of_eq rfl), fun _ =>
          hcar.trans (.of_rest rfl chains)⟩
      · exact ⟨_, kids, chains, rfl, hinv.of_sameTable (sameTable_of_eq rfl), fun _ =>
          hcar.trans (.of_rest rfl chains)⟩
      · exact hsame
    next => exact hsame
  | setLimits n p =>
    exact ⟨_, kids, chains, rfl, h.of_sameTable (sameTable_of_eq rfl), fun _ =>
      .of_rest rfl chains⟩
  | setNextStreamId id =>
    simp only [Session.settle]
    split_ifs with hcond
    · simp only [Bool.and_eq_true, decide_eq_true_eq] at hcond
      exact ⟨_, kids, chains, rfl, h.raiseNext hcond.1 hcond.2, fun _ =>
        .of_rest rfl chains⟩
    · exact hsame
  | sendGoaway =>
    exact ⟨_, kids, chains, rfl, h.of_sameTable (sameTable_of_eq rfl), fun _ =>
      .of_rest rfl chains⟩
  | attachItem id i =>
    simp only [Session.settle]
    split
    next x hget =>
      split_ifs with hitem
      · exact ⟨_, kids, chains, rfl, h.withLinks (h.tree.attachItem (by simpa using hitem) i),
          fun hq => by cases hq⟩
      · exact hsame
    next => exact hsame
  | detachItem id =>
    simp only [Session.settle]
    split
    next x hget =>
      exact ⟨_, kids, chains, rfl, h.withLinks (h.tree.detachItem x), fun _ =>
        carries_detachItem s x chains⟩
    next => exact hsame
  | deferItem id flags =>
    simp only [Session.settle]
    split
    next x hget =>
      split_ifs with hcond
      · rw [Bool.and_eq_true] at hcond
        refine ⟨_, kids, chains, rfl, h.withLinks (h.tree.deferItem hcond.1 hcond.2), fun _ =>
          carries_withTree (fun hi => ?_) chains⟩
        rwa [streamDeferItem_item] at hi
      · exact hsame
    next => exact hsame
  | resumeDeferredItem id flags =>
    simp only [Session.settle]
    split
    next x hget =>
      split_ifs with hitem
      · refine ⟨_, kids, chains, rfl, h.withLinks (h.tree.resumeDeferredItem flags hitem), fun _ =>
          carries_withTree (fun hi => ?_) chains⟩
        rwa [(streamResumeDeferredItem_item s.tree x flags).1] at hi
      · exact hsame
    next => exact hsame
  | reschedule id writelen =>
    simp only [Session.settle]
    split
    next x hget =>
      split_ifs with hq
      · refine ⟨_, kids, chains, rfl, h.withLinks (h.tree.reschedule hq writelen), fun _ =>
          carries_withTree (fun hi => ?_) chains⟩
        rwa [h.tree.reschedule_item hq] at hi
      · exact hsame
    next => exact hsame
  | sendRequest id pri => exact hsame
  | sendPushPromise id promised => exact hsame
  | upgrade => exact hsame

end Nghttp2.Session
