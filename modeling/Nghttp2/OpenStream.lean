/-
# Opening streams

`nghttp2_session_open_stream` keeps the invariant of the stream table, with two
exceptions that this module makes explicit:

* an idle stream object is reused while other entries follow it in its hash chain:
  `nghttp2_stream_init` clears its link, and the entries behind it are lost;
* an idle stream is opened below an idle stream that the idle limit evicts in the same
  call: the new stream is then linked to a freed object.

`Inv.openNew` and `Inv.openReused` are the two cases of the function.  `Kept` says that
lookups of other streams are unchanged.
-/
import Nghttp2.SessionInv

namespace Nghttp2

open ChainMap ParentForest
open Function (update update_of_ne update_self)

namespace Session

variable {s s' : Session} {kids kids' : Ptr → List Ptr} {chains chains' : ℕ → List Ptr}
  {holes : List Ptr} {d x y : Ptr} {id : ℕ} {st : StreamState} {w : ℤ}

/-! ## What stays -/

/-- The stream is neither idle nor closed: `nghttp2_session_get_stream` returns it. -/
def Live (s : Session) (x : Ptr) : Prop := (s.info x).closed = false ∧ (s.info x).state ≠ .idle

theorem live_of_info (h : s'.info y = s.info y) (hlive : s.Live y) : s'.Live y := by
  unfold Live
  rw [h]
  exact hlive

/-- No stream gets an item, and the streams that keep theirs stay open, except for those
in `shut`. -/
structure Carries (s s' : Session) (chains chains' : ℕ → List Ptr) (shut : List Ptr) : Prop where
  item : ∀ {y i}, s'.tree.sched.item y = some i → s.tree.sched.item y = some i
  held : ∀ {y i}, Holds chains' y → s'.tree.sched.item y = some i →
    Holds chains y ∧ s'.streamId y = s.streamId y
  live : ∀ {y i}, Holds chains' y → s'.tree.sched.item y = some i → y ∉ shut →
    s.Live y → s'.Live y
  items : s'.items = s.items

variable {l : List Ptr} {ids : List ℕ} {s1 s2 s3 : Session} {f : StreamInfo → StreamInfo} {j : ℕ}
  {c1 c2 c3 : ℕ → List Ptr}

theorem Carries.trans {l1 l2 : List Ptr}
    (h : Carries s1 s2 c1 c2 l1) (h' : Carries s2 s3 c2 c3 l2) :
    Carries s1 s3 c1 c3 (l1 ++ l2) where
  item hi := h.item (h'.item hi)
  held hy hi := by
    obtain ⟨hy2, hk'⟩ := h'.held hy hi
    obtain ⟨hy1, hk⟩ := h.held hy2 (h'.item hi)
    exact ⟨hy1, hk'.trans hk⟩
  live hy hi hl hlive := by
    rw [List.mem_append, not_or] at hl
    exact h'.live hy hi hl.2 (h.live (h'.held hy hi).1 (h'.item hi) hl.1 hlive)
  items := h'.items.trans h.items

theorem Carries.of_eq {shut : List Ptr} (hkey : s'.streams.key = s.streams.key)
    (hitem : ∀ {y i}, s'.tree.sched.item y = some i → s.tree.sched.item y = some i)
    (hlive : ∀ {y i}, s'.tree.sched.item y = some i → y ∉ shut → s.Live y → s'.Live y)
    (hitems : s'.items = s.items) (chains : ℕ → List Ptr) : Carries s s' chains chains shut where
  item := hitem
  held hy _ := ⟨hy, congrFun hkey _⟩
  live _ hi hy := hlive hi hy
  items := hitems

/-- The streams in the table of `s` are in the table of `s'` under the same id, unless
they were freed, and the others have ids in `ids`. -/
structure Kept (s s' : Session) (chains chains' : ℕ → List Ptr) (ids : List ℕ) : Prop
    extends Carries s s' chains chains' [] where
  old : ∀ {y}, Holds chains y →
    (Holds chains' y ∧ s'.streamId y = s.streamId y) ∨ s'.freed y = true
  new : ∀ {y}, Holds chains' y →
    (Holds chains y ∧ s'.streamId y = s.streamId y) ∨ s'.streamId y ∈ ids
  freed : ∀ {y}, s.freed y = true → s'.freed y = true

theorem Kept.of_eq (hkey : s'.streams.key = s.streams.key) (hfreed : s'.freed = s.freed)
    (hitem : ∀ {y i}, s'.tree.sched.item y = some i →
      s.tree.sched.item y = some i ∧ (s.Live y → s'.Live y))
    (hitems : s'.items = s.items) (chains : ℕ → List Ptr) : Kept s s' chains chains [] where
  toCarries := Carries.of_eq hkey (fun hi => (hitem hi).1) (fun hi _ => (hitem hi).2) hitems chains
  old hy := Or.inl ⟨hy, congrFun hkey _⟩
  new hy := Or.inl ⟨hy, congrFun hkey _⟩
  freed hy := by rw [hfreed]; exact hy

theorem Kept.refl (s : Session) (chains : ℕ → List Ptr) : Kept s s chains chains [] :=
  Kept.of_eq rfl rfl (fun hi => ⟨hi, fun h => h⟩) rfl chains

theorem Kept.of_tree (hs : s' = { s with tree := s'.tree })
    (hpending : s'.tree.pending = s.tree.pending) (chains : ℕ → List Ptr) :
    Kept s s' chains chains [] := by
  refine Kept.of_eq (by rw [hs]) (by rw [hs]) (fun {y i} hi => ⟨?_, fun h => ?_⟩)
    (by rw [hs]) chains
  · rwa [(StreamTree.item_eq_of_pending hpending).1] at hi
  · rw [hs]
    exact h

theorem Kept.trans {l1 l2 : List ℕ}
    (h : Kept s1 s2 c1 c2 l1) (h' : Kept s2 s3 c2 c3 l2) : Kept s1 s3 c1 c3 (l1 ++ l2) where
  toCarries := h.toCarries.trans h'.toCarries
  old hy := by
    rcases h.old hy with ⟨hy, hk⟩ | hy
    · rcases h'.old hy with ⟨hy, hk'⟩ | hy
      · exact Or.inl ⟨hy, hk'.trans hk⟩
      · exact Or.inr hy
    · exact Or.inr (h'.freed hy)
  new hy := by
    rcases h'.new hy with ⟨hy, hk'⟩ | hy
    · rcases h.new hy with ⟨hy, hk⟩ | hy
      · exact Or.inl ⟨hy, hk'.trans hk⟩
      · exact Or.inr (List.mem_append_left _ (hk' ▸ hy))
    · exact Or.inr (List.mem_append_right _ hy)
  freed hy := h'.freed (h.freed hy)

theorem Kept.mono {l l' : List ℕ} (h : Kept s s' chains chains' l) (hl : l ⊆ l') :
    Kept s s' chains chains' l' :=
  ⟨h.toCarries, h.old, fun hy => (h.new hy).imp_right fun hy => hl hy, h.freed⟩

theorem Evicts.kept (h : Evicts s s' chains chains' l) :
    Kept s s' chains chains' [] where
  old {y} hy := by
    by_cases hyl : y ∈ l
    · exact Or.inr ((h.freed y).2 (Or.inr hyl))
    · exact Or.inl ⟨(h.holds y).2 ⟨hy, hyl⟩, congrFun h.key y⟩
  new {y} hy := Or.inl ⟨((h.holds y).1 hy).1, congrFun h.key y⟩
  freed {y} hy := (h.freed y).2 (Or.inl hy)
  item {y i} hi := by rwa [(StreamTree.item_eq_of_pending h.pending).1] at hi
  held {y i} hy _ := ⟨((h.holds y).1 hy).1, congrFun h.key y⟩
  live {y i} hy hi _ := live_of_info (by rw [h.rest])
  items := by rw [h.rest]

/-- **Lookups** of streams that were there are unchanged, unless they were freed. -/
theorem Kept.getStreamRaw_some (hk : Kept s s' chains chains' ids)
    (h : Inv s kids chains holes) (h' : Inv s' kids' chains' holes)
    (hj : s.getStreamRaw j = some y) : s'.getStreamRaw j = some y ∨ s'.freed y = true := by
  obtain ⟨hheld, hid⟩ := h.getStreamRaw_iff.1 hj
  rcases hk.old hheld with ⟨hy, hkey⟩ | hy
  · exact Or.inl (h'.getStreamRaw_iff.2 ⟨hy, hkey.trans hid⟩)
  · exact Or.inr hy

theorem Kept.getStreamRaw_none (hk : Kept s s' chains chains' ids)
    (h : Inv s kids chains holes) (h' : Inv s' kids' chains' holes)
    (hj : s.getStreamRaw j = none) (hids : j ∉ ids) : s'.getStreamRaw j = none := by
  refine Option.eq_none_iff_forall_ne_some.2 fun y hy => ?_
  obtain ⟨hheld, hid⟩ := h'.getStreamRaw_iff.1 hy
  rcases hk.new hheld with ⟨hy, hkey⟩ | hy
  · exact h.getStreamRaw_eq_none.1 hj y hy (hkey ▸ hid)
  · exact hids (hid ▸ hy)

/-- The fields from which stream ids are judged are the same. -/
structure SameIds (s s' : Session) : Prop where
  server : s'.server = s.server
  lastRecv : s'.lastRecvStreamId = s.lastRecvStreamId
  nextStreamId : s'.nextStreamId = s.nextStreamId
  unsent : s'.unsent = s.unsent

theorem SameIds.refl (s : Session) : SameIds s s := ⟨rfl, rfl, rfl, rfl⟩

theorem SameIds.trans (h : SameIds s1 s2) (h' : SameIds s2 s3) : SameIds s1 s3 :=
  ⟨h'.server.trans h.server, h'.lastRecv.trans h.lastRecv,
    h'.nextStreamId.trans h.nextStreamId, h'.unsent.trans h.unsent⟩

theorem SameIds.isMyStreamId (h : SameIds s s') (id : ℕ) :
    s'.isMyStreamId id = s.isMyStreamId id := by
  simp only [Session.isMyStreamId, h.server]

theorem SameIds.used (h : SameIds s s') (id : ℕ) : s'.Used id ↔ s.Used id := by
  simp only [Used, h.isMyStreamId, h.lastRecv, h.nextStreamId, h.unsent]

theorem Evicts.sameIds (h : Evicts s s' chains chains' l) : SameIds s s' := by
  rw [h.rest]
  exact ⟨rfl, rfl, rfl, rfl⟩

/-! ## Initialising the object -/

/-- The session fields of a stream that has just been initialised. -/
def freshInfo (st : StreamState) : StreamInfo := ⟨st, st = .reserved, false, false, false⟩

theorem initStream_info_self (s : Session) (x : Ptr) (id : ℕ) (w : ℤ) (st : StreamState) :
    (s.initStream x id w st).info x = freshInfo st := update_self ..

theorem initStream_info_of_ne (id : ℕ) (w : ℤ) (st : StreamState) (hyx : y ≠ x) :
    (s.initStream x id w st).info y = s.info y := update_of_ne hyx _ _

/-- **Reusing an idle stream object** is harmless if nothing follows it in its hash
chain. -/
theorem Inv.initReused (h : Inv s kids chains (x :: holes)) (hid : s.streamId x = id)
    (hnext : s.streams.next x = none) (hused : st ≠ .idle → s.Used id) (hw : 1 ≤ w ∧ w ≤ 256) :
    Inv (s.initStream x id w st) kids chains (x :: holes) ∧
      (s.initStream x id w st).streams = s.streams ∧
      ∀ y, InTree (s.initStream x id w st).tree.dep y ↔ InTree s.tree.dep y := by
  obtain ⟨hheld, hout⟩ := h.hole_out List.mem_cons_self
  obtain ⟨hroot, hlt, -⟩ := h.held hheld
  obtain ⟨htree, hin⟩ := h.tree.init hroot hout hw
  have hstreams : (s.initStream x id w st).streams = s.streams := by
    rw [← hid]
    exact entryInit_of_next_eq_none hnext
  have hinfo : ∀ y, y ∉ x :: holes → (s.initStream x id w st).info y = s.info y := fun y hy =>
    initStream_info_of_ne id w st fun hyx => hy (by simp [hyx])
  refine ⟨{ h with
    tree := htree
    linked := by rw [hstreams]; exact h.linked
    size := by rw [hstreams]; exact h.size
    inTree := fun {y} hy => h.inTree ((hin y).1 hy)
    idle_mem := fun {y} hy => by rw [hinfo y hy]; exact h.idle_mem hy
    idle_tree := fun {y} hy hmem => (hin y).2 (h.idle_tree hy hmem)
    closed_held := fun {y} hy => by
      rw [hinfo y (h.closed_held hy).2.2.2]
      exact h.closed_held hy
    hole_out := fun {y} hy => ⟨(h.hole_out hy).1, fun hin' => (h.hole_out hy).2 ((hin y).1 hin')⟩
    used := fun {y} hy hne => ?_ }, hstreams, hin⟩
  rw [streamId, hstreams]
  rcases eq_or_ne y x with rfl | hyx
  · rw [show s.streams.key y = id from hid]
    rw [initStream_info_self] at hne
    exact hused hne
  · rw [initStream_info_of_ne id w st hyx] at hne
    exact h.used hy hne

/-- **A new stream object** is entered into the table. -/
theorem Inv.initNew (h : Inv s kids chains holes) (st : StreamState)
    (hnone : s.getStreamRaw id = none) (hused : st ≠ .idle → s.Used id)
    (hw : 1 ≤ w ∧ w ≤ 256) :
    ∃ s' chains', s.placeStream none id w st = .ok (s', s.tree.allocated) ∧
      Inv s' kids chains' (s.tree.allocated :: holes) ∧ Kept s s' chains chains' [id] ∧
      s' = { s with tree := streamAlloc s.tree w, streams := s'.streams,
                    info := update s.info s.tree.allocated (freshInfo st) } ∧
      s'.streamId s.tree.allocated = id ∧
      ∀ y, InTree s'.tree.dep y ↔ InTree s.tree.dep y := by
  set x := s.tree.allocated with hx
  have hnheld : ¬ Holds chains x := fun hh => lt_irrefl _ (h.held hh).2.1
  obtain ⟨htree, hin⟩ := h.tree.alloc hw
  have hlinked := h.linked.entryInit hnheld id
  have hkey : ∀ c, Holds chains c → (s.streams.entryInit x id).key c = s.streams.key c :=
    fun c hc => update_of_ne (fun hcx : c = x => hnheld (hcx ▸ hc)) _ _
  have hkeyx : (s.streams.entryInit x id).key x = id := update_self ..
  obtain ⟨hok, chains', hlinked', hholds, htotal, hkey'⟩ :=
    hlinked.insert mapHash_lt (a := x) h.size.le (fun c hc => by
      rw [hkey c hc, hkeyx]
      exact h.getStreamRaw_eq_none.1 hnone c hc)
    (update_self ..)
  refine ⟨{ s with
      tree := streamAlloc s.tree w
      streams := ((s.streams.entryInit x id).insert mapHash x).1
      info := update s.info x (freshInfo st) }, chains', ?_, ?_, ?_, rfl, ?_, hin⟩
  · simp only [placeStream, initStream, ← hx, hok, if_true]
    rfl
  · have hinfo : ∀ y, y ≠ x → update s.info x (freshInfo st) y = s.info y := fun y hy =>
      update_of_ne hy _ _
    refine { h with
      tree := htree
      linked := hlinked'
      size := balanced h.size htotal
      held := fun {y} hy => ?_
      inTree := fun {y} hy => (h.inTree ((hin y).1 hy)).imp_right fun hy => (hholds y).2 (Or.inl hy)
      freed := fun {y} hy => ⟨(h.freed hy).1, Nat.lt_succ_of_lt (h.freed hy).2⟩
      idle_mem := fun {y} hy => ?_
      idle_tree := fun {y} hy hmem =>
        (hin y).2 (h.idle_tree (fun hyh => hy (List.mem_cons_of_mem _ hyh)) hmem)
      closed_held := fun {y} hy => ?_
      hole_out := fun {y} hy => ?_
      used := fun {y} hy hne => ?_ }
    · rcases (hholds y).1 hy with hy | rfl
      · exact ⟨(h.held hy).1, Nat.lt_succ_of_lt (h.held hy).2.1, (h.held hy).2.2⟩
      · refine ⟨fun hroot => absurd h.tree.root_lt (by rw [← hroot]; exact lt_irrefl _),
          Nat.lt_succ_self _, ?_⟩
        by_contra hne
        exact lt_irrefl _ (h.freed (by simpa using hne)).2
    · rw [List.mem_cons, not_or] at hy
      show y ∈ s.idleStreams ↔ Holds chains' y ∧ (update s.info x (freshInfo st) y).state = _
      rw [hinfo y hy.1, h.idle_mem hy.2, hholds]
      simp [hy.1]
    · obtain ⟨hheld, hclosed, hstate, hyh⟩ := h.closed_held hy
      have hyx : y ≠ x := fun hyx => hnheld (hyx ▸ hheld)
      show Holds chains' y ∧ (update s.info x (freshInfo st) y).closed = true ∧
        (update s.info x (freshInfo st) y).state ≠ _ ∧ _
      rw [hinfo y hyx]
      exact ⟨(hholds y).2 (Or.inl hheld), hclosed, hstate, by simp [hyx, hyh]⟩
    · rcases List.mem_cons.1 hy with rfl | hy
      · refine ⟨(hholds _).2 (Or.inr rfl), fun hin' => ?_⟩
        exact lt_irrefl _ (h.tree.toTreeInv.lt_allocated ((hin _).1 hin'))
      · exact ⟨(hholds y).2 (Or.inl (h.hole_out hy).1), fun hin' =>
          (h.hole_out hy).2 ((hin y).1 hin')⟩
    show s.Used ((ChainMap.insert mapHash (s.streams.entryInit x id) x).1.key y)
    replace hne : (update s.info x (freshInfo st) y).state ≠ .idle := hne
    rw [hkey']
    rcases (hholds y).1 hy with hy | rfl
    · rw [hinfo y fun hyx => hnheld (hyx ▸ hy)] at hne
      rw [hkey y hy]
      exact h.used hy hne
    · rw [update_self] at hne
      rw [hkeyx]
      exact hused hne
  · -- the new object has no item
    have hitem : ∀ {y i}, update s.tree.sched.item x none y = some i →
        y ≠ x ∧ s.tree.sched.item y = some i := by
      intro y i hi
      rcases eq_or_ne y x with rfl | hyx
      · simp at hi
      · rw [update_of_ne hyx] at hi
        exact ⟨hyx, hi⟩
    refine ⟨⟨fun hi => (hitem hi).2, fun {y i} hy hi => ?_, fun {y i} hy hi _ => ?_, rfl⟩,
      fun {y} hy => Or.inl ⟨(hholds y).2 (Or.inl hy), ?_⟩, fun {y} hy => ?_, fun hy => hy⟩
    · have hy := ((hholds y).1 hy).resolve_right (hitem hi).1
      exact ⟨hy, (congrFun hkey' y).trans (hkey y hy)⟩
    · exact live_of_info (update_of_ne (hitem hi).1 _ _)
    · exact (congrFun hkey' y).trans (hkey y hy)
    · rcases (hholds y).1 hy with hy | rfl
      · exact Or.inl ⟨hy, (congrFun hkey' y).trans (hkey y hy)⟩
      · exact Or.inr (by rw [streamId, hkey', hkeyx]; simp)
  · rw [streamId, hkey', hkeyx]

/-! ## Listing and linking the stream -/

/-- The sessions `s` and `s'` have the same streams in the same lists: they differ in
counters, limits, items and the session fields of streams, where no stream becomes or
ceases to be idle and none ceases to be closed. -/
structure SameTable (s s' : Session) : Prop where
  tree : s'.tree = s.tree
  streams : s'.streams = s.streams
  freed : s'.freed = s.freed
  idle : s'.idleStreams = s.idleStreams
  numIdle : s'.numIdleStreams = s.numIdleStreams
  closed : s'.closedStreams = s.closedStreams
  numClosed : s'.numClosedStreams = s.numClosedStreams
  state : ∀ y, (s'.info y).state = .idle ↔ (s.info y).state = .idle
  flag : ∀ y, (s.info y).closed = true → (s'.info y).closed = true
  ids : SameIds s s'

theorem Inv.of_sameTable (h : Inv s kids chains holes) (hs : SameTable s s') :
    Inv s' kids chains holes where
  tree := hs.tree ▸ h.tree
  linked := hs.streams ▸ h.linked
  size := hs.streams ▸ h.size
  held := by rw [hs.tree, hs.freed]; exact h.held
  inTree := by rw [hs.tree]; exact h.inTree
  freed := by rw [hs.tree, hs.freed]; exact h.freed
  idle_mem := fun {y} hy => by rw [hs.idle, hs.state]; exact h.idle_mem hy
  idle_tree := by rw [hs.idle, hs.tree]; exact h.idle_tree
  idle_nodup := hs.idle ▸ h.idle_nodup
  idle_num := by rw [hs.idle, hs.numIdle]; exact h.idle_num
  closed_held := fun {y} hy => by
    rw [hs.closed] at hy
    obtain ⟨h1, h2, h3, h4⟩ := h.closed_held hy
    exact ⟨h1, hs.flag y h2, fun hst => h3 ((hs.state y).1 hst), h4⟩
  closed_nodup := hs.closed ▸ h.closed_nodup
  closed_num := by rw [hs.closed, hs.numClosed]; exact h.closed_num
  hole_out := by rw [hs.tree]; exact h.hole_out
  used := fun {x} hx hne => by
    rw [ne_eq, hs.state] at hne
    rw [hs.ids.used, streamId, hs.streams]
    exact h.used hx hne
  unsent := fun {id} hid => by
    rw [hs.ids.unsent] at hid
    rw [hs.ids.isMyStreamId, hs.ids.nextStreamId]
    exact h.unsent hid
  unsent_nodup := hs.ids.unsent ▸ h.unsent_nodup
  next_mine := by
    rw [hs.ids.isMyStreamId, hs.ids.nextStreamId]
    exact h.next_mine

theorem modifyInfo_self (s : Session) (x : Ptr) (f : StreamInfo → StreamInfo) :
    (s.modifyInfo x f).info x = f (s.info x) := update_self ..

theorem modifyInfo_of_ne (hyx : y ≠ x) :
    (s.modifyInfo x f).info y = s.info y := update_of_ne hyx _ _

theorem sameTable_modifyInfo (hstate : (f (s.info x)).state = .idle ↔ (s.info x).state = .idle)
    (hclosed : (s.info x).closed = true → (f (s.info x)).closed = true) :
    SameTable s (s.modifyInfo x f) := by
  refine ⟨rfl, rfl, rfl, rfl, rfl, rfl, rfl, fun y => ?_, fun y => ?_, rfl, rfl, rfl, rfl⟩
  · rcases eq_or_ne y x with rfl | hyx
    · rw [modifyInfo_self, hstate]
    · rw [modifyInfo_of_ne hyx]
  · rcases eq_or_ne y x with rfl | hyx
    · rw [modifyInfo_self]
      exact hclosed
    · rw [modifyInfo_of_ne hyx]
      exact id

theorem sameTable_of_eq (hs : s' = { s with
      items := s'.items
      numOutgoingStreams := s'.numOutgoingStreams
      numIncomingStreams := s'.numIncomingStreams
      numIncomingReservedStreams := s'.numIncomingReservedStreams
      maxConcurrentStreams := s'.maxConcurrentStreams
      pendingMaxConcurrentStreams := s'.pendingMaxConcurrentStreams
      goawaySent := s'.goawaySent }) : SameTable s s' := by
  rw [hs]
  exact ⟨rfl, rfl, rfl, rfl, rfl, rfl, rfl, fun _ => Iff.rfl, fun _ h => h, rfl, rfl, rfl, rfl⟩

theorem SameTable.trans (h : SameTable s1 s2) (h' : SameTable s2 s3) :
    SameTable s1 s3 where
  tree := h'.tree.trans h.tree
  streams := h'.streams.trans h.streams
  freed := h'.freed.trans h.freed
  idle := h'.idle.trans h.idle
  numIdle := h'.numIdle.trans h.numIdle
  closed := h'.closed.trans h.closed
  numClosed := h'.numClosed.trans h.numClosed
  state y := (h'.state y).trans (h.state y)
  flag y hy := h'.flag y (h.flag y hy)
  ids := h.ids.trans h'.ids

theorem SameTable.live (h : SameTable s s') (hclosed : (s'.info y).closed = (s.info y).closed) :
    s.Live y → s'.Live y := fun ⟨hc, hst⟩ =>
  ⟨hclosed.trans hc, fun hi => hst ((h.state y).1 hi)⟩

theorem countStream_ok (hst : st ≠ .idle) (s : Session) (x : Ptr) (id : ℕ) :
    ∃ s', s.countStream x id st = .ok s' ∧ SameTable s s' ∧
      (s'.info x).state = (s.info x).state ∧ s'.items = s.items ∧
      ∀ y, (s'.info y).closed = (s.info y).closed := by
  have hmod : ∀ {f : StreamInfo → StreamInfo}, (∀ i, (f i).closed = i.closed) →
      ∀ y, ((s.modifyInfo x f).info y).closed = (s.info y).closed := by
    intro f hf y
    rcases eq_or_ne y x with rfl | hyx
    · rw [modifyInfo_self, hf]
    · rw [modifyInfo_of_ne hyx]
  have hother : ∃ s', (if s.isMyStreamId id then
      pure { s with numOutgoingStreams := s.numOutgoingStreams + 1 }
      else pure { s with numIncomingStreams := s.numIncomingStreams + 1 } : Except Fault Session) =
        .ok s' ∧ SameTable s s' ∧ (s'.info x).state = (s.info x).state ∧ s'.items = s.items ∧
          ∀ y, (s'.info y).closed = (s.info y).closed := by
    split
    · exact ⟨_, rfl, sameTable_of_eq rfl, rfl, rfl, fun _ => rfl⟩
    · exact ⟨_, rfl, sameTable_of_eq rfl, rfl, rfl, fun _ => rfl⟩
  cases st with
  | idle => exact absurd rfl hst
  | reserved =>
    unfold Session.countStream
    dsimp only
    split
    · refine ⟨_, rfl, sameTable_modifyInfo Iff.rfl fun h => h, ?_, rfl, hmod fun _ => rfl⟩
      rw [modifyInfo_self]
    · refine ⟨_, rfl, (sameTable_modifyInfo Iff.rfl fun h => h).trans
        (sameTable_of_eq rfl), ?_, rfl, hmod (f := fun i => { i with shutWr := true }) fun _ => rfl⟩
      have hself := congrArg StreamInfo.state
        (modifyInfo_self s x fun i => { i with shutWr := true })
      exact hself
  | initial => exact hother
  | opening => exact hother
  | opened => exact hother
  | closing => exact hother

/-- **Keeping an idle stream**: the streams that are evicted for it are the oldest
ones, and not the stream itself. -/
theorem Inv.keepIdleStream (h : Inv s kids chains (x :: holes)) (hx : x ∉ s.idleStreams)
    (hholes : ∀ y ∈ holes, y ∉ s.idleStreams) :
    ∃ s' kids' chains' l, s.keepIdleStream x = .ok s' ∧ Inv s' kids' chains' (x :: holes) ∧
      Evicts s s' chains chains' (s.evictable 1) ∧ s'.idleStreams = l ++ [x] ∧
      l ⊆ s.idleStreams := by
  set s1 : Session :=
    { s with idleStreams := s.idleStreams ++ [x], numIdleStreams := s.numIdleStreams + 1 } with hs1
  have hinv1 : Inv s1 kids chains (x :: holes) := {
    h with
    idle_mem := fun {y} hy => by
      have hyx : y ≠ x := fun hyx => hy (by simp [hyx])
      show y ∈ s.idleStreams ++ [x] ↔ _
      rw [List.mem_append, List.mem_singleton, ← h.idle_mem hy]
      simp [hyx]
    idle_tree := fun {y} hy hmem => by
      have hyx : y ≠ x := fun hyx => hy (by simp [hyx])
      rcases List.mem_append.1 hmem with hmem | hmem
      · exact h.idle_tree hy hmem
      · exact absurd (List.mem_singleton.1 hmem) hyx
    idle_nodup := List.nodup_append'.2 ⟨h.idle_nodup, List.nodup_singleton x, by simpa using hx⟩
    idle_num := by
      show s.numIdleStreams + 1 = (s.idleStreams ++ [x]).length
      rw [h.idle_num, List.length_append, List.length_singleton] }
  have hmax : 2 ≤ s.idleMax := le_max_left _ _
  have hk : s.numIdleStreams + 1 - s.idleMax ≤ s.idleStreams.length := by
    rw [← h.idle_num]
    omega
  have hev : s1.evictable 0 = s.evictable 1 := by
    show (s.idleStreams ++ [x]).take (s.numIdleStreams + 1 + 0 - s.idleMax) = _
    rw [Nat.add_zero, List.take_append_of_le_length hk, evictable]
  have hsub : ∀ y ∈ s.evictable 1, y ∈ s.idleStreams := fun y hy => List.mem_of_mem_take hy
  obtain ⟨s', kids', chains', hres, hinv, hevict, hidle, hclosed⟩ :=
    hinv1.adjustIdleLoop (s.numIdleStreams + 1) (Nat.le_add_right _ _) fun y hy => by
      rw [hev] at hy
      have := hsub y hy
      rw [List.mem_cons, not_or]
      exact ⟨fun hyx => hx (hyx ▸ this), fun hyh => hholes y hyh this⟩
  have hidle' : s'.idleStreams = s.idleStreams.drop (s.numIdleStreams + 1 - s.idleMax) ++ [x] := by
    rw [hidle]
    exact List.drop_append_of_le_length hk
  refine ⟨s', kids', chains', _, hres, hinv, hev ▸ ⟨hevict.rest, hevict.holds, hevict.key,
    hevict.inTree, hevict.freed, hevict.allocated, hevict.pending⟩, hidle', List.drop_subset _ _⟩

/-- The stream `x` is ready to be linked: it is listed if it is idle, and has no item. -/
structure Ready (s : Session) (x : Ptr) : Prop where
  item : s.tree.sched.item x = none
  listed : x ∈ s.idleStreams ↔ (s.info x).state = .idle
  writable : (s.info x).state = .idle → (s.info x).shutWr = false

/-- **Linking the stream** completes the invariant. -/
theorem Inv.linkStream (h : Inv s kids chains (x :: holes)) (hxh : x ∉ holes)
    (hready : s.Ready x) (hd : InTree s.tree.dep d) (exclusive : Bool) :
    ∃ s' kids', s.linkStream x d exclusive = .ok s' ∧ Inv s' kids' chains holes ∧
      s' = { s with tree := s'.tree } ∧ s'.tree.allocated = s.tree.allocated ∧
      s'.tree.pending = s.tree.pending ∧
      (∀ y, InTree s.tree.dep y → InTree s'.tree.dep y) ∧
      ((s.info x).shutWr = false → InTree s'.tree.dep x) := by
  obtain ⟨hheld, hout⟩ := h.hole_out List.mem_cons_self
  obtain ⟨hroot, hlt, hlive⟩ := h.held hheld
  -- the hole closes once the stream is listed if idle, and in the tree if listed
  have hclose : ∀ {s' : Session} {kids'}, s' = { s with tree := s'.tree } →
      WholeTree s'.tree kids' → (∀ y, InTree s'.tree.dep y ↔ InTree s.tree.dep y ∨
        (y = x ∧ (s.info x).shutWr = false)) →
      s'.tree.allocated = s.tree.allocated → Inv s' kids' chains holes := by
    intro s' kids' hs' htree hin halloc
    have hmem : ∀ {y}, y ∉ holes → y ≠ x → y ∉ x :: holes := fun hy hyx => by simp [hy, hyx]
    rw [hs'] at htree hin halloc ⊢
    exact { h with
      tree := htree
      held := fun {y} hy => ⟨(h.held hy).1, by rw [halloc]; exact (h.held hy).2.1, (h.held hy).2.2⟩
      inTree := fun {y} hy => by
        rcases (hin y).1 hy with hy | ⟨rfl, -⟩
        · exact h.inTree hy
        · exact Or.inr hheld
      freed := fun {y} hy => by rw [halloc]; exact h.freed hy
      idle_mem := fun {y} hy => by
        rcases eq_or_ne y x with rfl | hyx
        · exact hready.listed.trans ⟨fun hst => ⟨hheld, hst⟩, And.right⟩
        · exact h.idle_mem (hmem hy hyx)
      idle_tree := fun {y} hy hy' => by
        rcases eq_or_ne y x with rfl | hyx
        · exact (hin y).2 (Or.inr ⟨rfl, hready.writable (hready.listed.1 hy')⟩)
        · exact (hin y).2 (Or.inl (h.idle_tree (hmem hy hyx) hy'))
      closed_held := fun {y} hy => by
        obtain ⟨h1, h2, h3, h4⟩ := h.closed_held hy
        exact ⟨h1, h2, h3, fun hyh => h4 (List.mem_cons_of_mem _ hyh)⟩
      hole_out := fun {y} hy => by
        obtain ⟨h1, h2⟩ := h.hole_out (List.mem_cons_of_mem x hy)
        refine ⟨h1, fun hin' => ?_⟩
        rcases (hin y).1 hin' with hin' | ⟨rfl, -⟩
        · exact h2 hin'
        · exact hxh hy }
  cases hshut : (s.info x).shutWr with
  | true =>
    refine ⟨s, kids, ?_, hclose rfl h.tree (fun y => by simp [hshut]) rfl, rfl, rfl, rfl,
      fun _ hy => hy, by simp⟩
    simp only [Session.linkStream, hlive, hshut, Bool.false_eq_true, if_false, if_true]
    rfl
  | false =>
    obtain ⟨kids', hch⟩ := h.tree.attach hd hlt hroot hout hready.item exclusive
    refine ⟨{ s with tree := attachStream exclusive s.tree d x }, kids', ?_,
      hclose rfl hch.tree (fun y => by simp [hshut, hch.inTree]) hch.allocated, rfl,
      hch.allocated, hch.pending, fun y hy => (hch.inTree y).2 (Or.inl hy),
      fun _ => (hch.inTree x).2 (Or.inr rfl)⟩
    simp only [Session.linkStream, hlive, hshut, h.not_freed_of_inTree hd, Bool.false_eq_true,
      if_false]
    rfl

/-! ## Opening an idle stream -/

theorem Inv.held_of_idle (h : Inv s kids chains holes) (hx : x ∈ s.idleStreams) :
    Holds chains x := by
  by_cases hxh : x ∈ holes
  · exact (h.hole_out hxh).1
  · exact ((h.idle_mem hxh).1 hx).1

theorem Inv.root_notMem_evictable (h : Inv s kids chains holes) (n : ℕ) : root ∉ s.evictable n :=
  fun hr => (h.held (h.held_of_idle (List.mem_of_mem_take hr))).1 rfl

/-- The session `s'` is `s` after the stream `x` with this id was opened and the
streams `l` were evicted. -/
structure Opened (s s' : Session) (chains chains' : ℕ → List Ptr) (x : Ptr) (id : ℕ)
    (l : List Ptr) : Prop where
  kept : Kept s s' chains chains' [id]
  ids : SameIds s s'
  streamId : s'.streamId x = id
  held : Holds chains' x
  freed : ∀ y, s'.freed y = true ↔ s.freed y = true ∨ y ∈ l
  inTree : ∀ y, InTree s.tree.dep y → y ∉ l → InTree s'.tree.dep y
  info : ∀ y, y ≠ x → s'.info y = s.info y

section PlaceIdle

variable (h : Inv s kids chains holes) (hserver : s.server = true)
  (hnone : s.getStreamRaw id = none) (hholes : ∀ y ∈ holes, y ∉ s.idleStreams)
include h hserver hnone hholes

/-- **A new idle stream** is entered into the table and listed, and the oldest idle
streams are evicted for it. -/
theorem Inv.listIdle (hw : 1 ≤ w ∧ w ≤ 256) :
    ∃ s2 kids' chains' l, s.listStream none id w .idle = .ok (s2, s.tree.allocated) ∧
      Inv s2 kids' chains' (s.tree.allocated :: holes) ∧ s2.Ready s.tree.allocated ∧
      Opened s s2 chains chains' s.tree.allocated id (s.evictable 1) ∧
      (∀ y, InTree s2.tree.dep y ↔ InTree s.tree.dep y ∧ y ∉ s.evictable 1) ∧
      s2.info s.tree.allocated = freshInfo .idle ∧
      s2.idleStreams = l ++ [s.tree.allocated] ∧ l ⊆ s.idleStreams := by
  obtain ⟨s1, c1, hplace, hinv1, hkept1, hs1, hid1, hin1⟩ :=
    h.initNew .idle hnone (fun hne => absurd rfl hne) hw
  set x := s.tree.allocated with hx
  have hidle1 : s1.idleStreams = s.idleStreams := by rw [hs1]
  have hfreed1 : s1.freed = s.freed := by rw [hs1]
  have hxidle : x ∉ s1.idleStreams := by
    rw [hidle1]
    exact fun hmem => lt_irrefl _ (h.held (h.held_of_idle hmem)).2.1
  obtain ⟨s2, k2, c2, l, hkeep, hinv2, hev, hidle2, hl⟩ := hinv1.keepIdleStream hxidle
    (by rw [hidle1]; exact hholes)
  have hevict : s1.evictable 1 = s.evictable 1 := by rw [hs1]; rfl
  rw [hevict] at hev
  have hinfo2 : s2.info = s1.info := by rw [hev.rest]
  have hinfo1 : s1.info = update s.info x (freshInfo .idle) := by rw [hs1]
  have hinfo : s2.info x = freshInfo .idle := by rw [hinfo2, hinfo1, update_self]
  have hxnot : x ∉ s.evictable 1 := fun hmem =>
    hxidle (by rw [hidle1]; exact List.mem_of_mem_take hmem)
  have hids1 : SameIds s s1 := by
    rw [hs1]
    exact ⟨rfl, rfl, rfl, rfl⟩
  have hcount : s1.countStream x id .idle = .ok s2 := by
    rw [Session.countStream, if_pos (by rw [hids1.server, hserver])]
    exact hkeep
  refine ⟨s2, k2, c2, l, ?_, hinv2, ⟨?_, ?_, ?_⟩, ?_, fun y => ?_, hinfo, hidle2, hidle1 ▸ hl⟩
  · simp only [listStream, hplace, ok_bind, hcount]
    rfl
  · obtain ⟨hitem, -⟩ := StreamTree.item_eq_of_pending hev.pending
    rw [hitem, hs1]
    exact update_self ..
  · rw [hinfo, hidle2]
    simp [freshInfo]
  · rw [hinfo]
    exact fun _ => rfl
  · exact {
      kept := hkept1.trans hev.kept
      ids := hids1.trans hev.sameIds
      streamId := (congrFun hev.key x).trans hid1
      held := (hev.holds x).2 ⟨(hinv1.hole_out List.mem_cons_self).1, hxnot⟩
      freed := fun y => by rw [hev.freed, hfreed1]
      inTree := fun y hy hyl => (hev.inTree y).2 ⟨(hin1 y).2 hy, hyl⟩
      info := fun y hyx => by rw [hinfo2, hinfo1, update_of_ne hyx] }
  · rw [hev.inTree, hin1]

/-- **The anchor** for a dependency that does not exist is opened below the root. -/
theorem Inv.openAnchor :
    ∃ s' kids' chains' l, s.openAnchor id = .ok (s', s.tree.allocated) ∧
      Inv s' kids' chains' holes ∧
      Opened s s' chains chains' s.tree.allocated id (s.evictable 1) ∧
      InTree s'.tree.dep s.tree.allocated ∧
      s'.idleStreams = l ++ [s.tree.allocated] ∧ l ⊆ s.idleStreams := by
  have hreuse : s.reuseStream id .idle = .ok (s, none) := by
    simp only [reuseStream, hnone, makeRoom, ne_eq, not_true_eq_false, decide_false, Bool.and_false,
      Bool.false_and, Bool.false_eq_true, if_false]
    rfl
  obtain ⟨s2, k2, c2, l, hlist, hinv2, hready, hop, hin, hinfo, hidle, hl⟩ :=
    h.listIdle hserver hnone hholes PrioritySpec.default.weight_mem
  have hxh : s.tree.allocated ∉ holes := fun hmem =>
    lt_irrefl _ (h.held (h.hole_out hmem).1).2.1
  obtain ⟨s', kids', hlink, hinv, hs', halloc, hpending, hkeep, hxin⟩ := hinv2.linkStream hxh
    hready (Above.refl root) false
  have hidle' : s'.idleStreams = s2.idleStreams := by rw [hs']
  refine ⟨s', kids', c2, l, ?_, hinv, ?_, hxin (by rw [hinfo]; rfl), hidle'.trans hidle, hl⟩
  · simp only [Session.openAnchor, hreuse, ok_bind]
    rw [show s.listStream none id defaultWeight .idle = .ok (s2, s.tree.allocated) from hlist]
    simp only [ok_bind, hlink]
    rfl
  have hkept : Kept s s' chains c2 [id] := hop.kept.trans (Kept.of_tree hs' hpending c2)
  exact {
    kept := hkept
    ids := hop.ids.trans (by rw [hs']; exact ⟨rfl, rfl, rfl, rfl⟩)
    streamId := by rw [hs']; exact hop.streamId
    held := hop.held
    freed := by rw [hs']; exact hop.freed
    inTree := fun y hy hyl => hkeep y (hop.inTree y hy hyl)
    info := by rw [hs']; exact hop.info }

end PlaceIdle

/-! ## Resolving the dependency -/

/-- The id of a stream that may be created as a dependency. -/
def anchorIds (s : Session) (pri : PrioritySpec) : List ℕ :=
  if s.server && s.detectIdleStream pri.streamId then [pri.streamId] else []

theorem SameIds.detectIdleStream (h : SameIds s s') (id : ℕ) :
    s'.detectIdleStream id = s.detectIdleStream id := by
  simp only [Session.detectIdleStream, isNewPeerStreamId, h.isMyStreamId, h.lastRecv,
    h.nextStreamId]

theorem SameIds.anchorIds (h : SameIds s s') (pri : PrioritySpec) :
    s'.anchorIds pri = s.anchorIds pri := by
  simp only [Session.anchorIds, h.server, h.detectIdleStream]

/-- The dependency `d` of a priority specification that creates no stream: the stream
with the given id if it is in the tree, and the root otherwise. -/
def DepOf (s : Session) (pri : PrioritySpec) (d : Ptr) : Prop :=
  (pri.streamId ≠ 0 ∧ s.getStreamRaw pri.streamId = some d) ∨
    (d = root ∧ (pri.streamId ≠ 0 → ∀ y, s.getStreamRaw pri.streamId = some y →
      ¬ InTree s.tree.dep y))

/-- Without an anchor the session is unchanged. -/
theorem Inv.resolveDep_of_not {pri : PrioritySpec} (h : Inv s kids chains holes)
    (hnot : ¬ s.createsAnchor pri) :
    ∃ d pri', s.resolveDep pri = .ok (s, d, pri') ∧ InTree s.tree.dep d ∧
      s.DepOf pri d ∧ (pri'.streamId = 0 → d = root) := by
  unfold resolveDep
  by_cases hid : pri.streamId = 0
  · exact ⟨root, pri, by rw [if_pos hid]; rfl, Above.refl root, Or.inr ⟨rfl, absurd hid⟩,
      fun _ => rfl⟩
  rw [if_neg hid]
  cases hraw : s.getStreamRaw pri.streamId with
  | none =>
    have hfalse : (s.server && s.detectIdleStream pri.streamId) = false := by
      rw [← Bool.not_eq_true, Bool.and_eq_true]
      exact fun hand => hnot ⟨hid, hraw, hand⟩
    refine ⟨root, .default, ?_, Above.refl root, Or.inr ⟨rfl, fun _ y hy => ?_⟩, fun _ => rfl⟩
    · simp only [hfalse, Bool.false_eq_true, if_false]
      rfl
    · simp [hraw] at hy
  | some d =>
    have hdroot := (h.held (h.getStreamRaw_iff.1 hraw).1).1
    by_cases hin : InTree s.tree.dep d
    · refine ⟨d, pri, ?_, hin, Or.inl ⟨hid, hraw⟩, fun h0 => absurd h0 hid⟩
      simp only [(h.tree.streamInDepTree_iff hdroot).2 hin, if_true]
      rfl
    have hfalse : streamInDepTree s.tree.dep d = false := by
      rw [← Bool.not_eq_true, h.tree.streamInDepTree_iff hdroot]
      exact hin
    refine ⟨root, .default, ?_, Above.refl root, Or.inr ⟨rfl, fun _ y hy => ?_⟩, fun _ => rfl⟩
    · simp only [hfalse, Bool.false_eq_true, if_false]
      rfl
    · rw [hraw, Option.some.injEq] at hy
      exact hy ▸ hin

/-- A missing idle dependency is opened as an anchor. -/
theorem Inv.resolveDep_of_anchor {pri : PrioritySpec} (h : Inv s kids chains holes)
    (hanchor : s.createsAnchor pri) (hholes : ∀ y ∈ holes, y ∉ s.idleStreams) :
    ∃ s' kids' chains' l, s.resolveDep pri = .ok (s', s.tree.allocated, pri) ∧
      Inv s' kids' chains' holes ∧
      Opened s s' chains chains' s.tree.allocated pri.streamId (s.evictable 1) ∧
      InTree s'.tree.dep s.tree.allocated ∧
      s'.idleStreams = l ++ [s.tree.allocated] ∧ l ⊆ s.idleStreams := by
  obtain ⟨hid, hraw, hserver, hidle⟩ := hanchor
  obtain ⟨s', kids', chains', l, hopen, hrest⟩ := h.openAnchor hserver hraw hholes
  refine ⟨s', kids', chains', l, ?_, hrest⟩
  simp only [resolveDep, if_neg hid, hraw, hserver, hidle, Bool.and_self, if_true, hopen, ok_bind]
  rfl

/-- The dependency that is used after an anchor was opened does not leave for the next
idle stream. -/
theorem last_notMem_evictable (hidle : s.idleStreams = l ++ [x])
    (hnum : s.numIdleStreams = s.idleStreams.length) (hnodup : s.idleStreams.Nodup) :
    x ∉ s.evictable 1 := by
  have htwo : 2 ≤ s.idleMax := le_max_left _ _
  have hlen : s.numIdleStreams = l.length + 1 := by rw [hnum, hidle]; simp
  rw [hidle] at hnodup
  have hxl : x ∉ l := fun hxl => List.disjoint_of_nodup_append hnodup hxl (by simp)
  rw [evictable, hidle, List.take_append_of_le_length (by omega)]
  exact fun hmem => hxl (List.mem_of_mem_take hmem)

/-! ## The two cases of `nghttp2_session_open_stream` -/

/-- Where the dependency comes from. -/
structure Prepared (s s₁ : Session) (chains chains₁ : ℕ → List Ptr) (pri : PrioritySpec) (d : Ptr)
    (l : List Ptr) : Prop where
  kept : Kept s s₁ chains chains₁ (s.anchorIds pri)
  ids : SameIds s s₁
  freed : ∀ y, s₁.freed y = true ↔ s.freed y = true ∨ y ∈ l
  inTree : ∀ y, InTree s.tree.dep y → y ∉ l → InTree s₁.tree.dep y
  dep : InTree s₁.tree.dep d
  info : ∀ y, Holds chains y → s₁.info y = s.info y

/-- The dependency is found or opened; the streams evicted are idle ones. -/
theorem Inv.resolveDep (h : Inv s kids chains holes) (pri : PrioritySpec)
    (hholes : ∀ y ∈ holes, y ∉ s.idleStreams) :
    ∃ s1 kids1 chains1 d pri' l, s.resolveDep pri = .ok (s1, d, pri') ∧
      Inv s1 kids1 chains1 holes ∧ Prepared s s1 chains chains1 pri d l ∧
      (pri'.streamId = 0 → d = root) ∧
      (¬ s.createsAnchor pri → s1 = s ∧ s.DepOf pri d) ∧
      (s.createsAnchor pri → l = s.evictable 1 ∧ d ∉ s1.evictable 1 ∧ d ∉ holes ∧
        s1.streamId d = pri.streamId) ∧
      (∀ y ∈ holes, y ∉ s1.idleStreams) := by
  by_cases hanchor : s.createsAnchor pri
  · obtain ⟨s1, k1, c1, l, hres, hinv, hop, hin, hidle, hl⟩ := h.resolveDep_of_anchor hanchor hholes
    have hx : ∀ y, Holds chains y → y ≠ s.tree.allocated := fun y hy hyx =>
      lt_irrefl _ (hyx ▸ (h.held hy).2.1)
    refine ⟨s1, k1, c1, s.tree.allocated, pri, s.evictable 1, hres, hinv,
      ⟨?_, hop.ids, hop.freed, hop.inTree, hin, fun y hy => hop.info y (hx y hy)⟩,
      fun hz => absurd hz hanchor.1, fun hnot => absurd hanchor hnot, fun _ => ⟨rfl,
        last_notMem_evictable hidle hinv.idle_num hinv.idle_nodup,
        fun hd => hx _ (h.hole_out hd).1 rfl, hop.streamId⟩, fun y hy hmem => ?_⟩
    · refine hop.kept.mono ?_
      simp [anchorIds, hanchor.2.2.1, hanchor.2.2.2]
    · rw [hidle, List.mem_append, List.mem_singleton] at hmem
      rcases hmem with hmem | hmem
      · exact hholes y hy (hl hmem)
      · exact hx y (h.hole_out hy).1 hmem
  · obtain ⟨d, pri', hres, hin, hd, hzero⟩ := h.resolveDep_of_not hanchor
    refine ⟨s, kids, chains, d, pri', [], hres, h, ⟨?_, SameIds.refl s, by simp,
      fun _ hy _ => hy, hin, fun _ _ => rfl⟩, hzero, fun _ => ⟨rfl, hd⟩,
      fun ha => absurd ha hanchor, hholes⟩
    exact (Kept.refl s chains).mono (List.nil_subset _)

/-- **A new stream that is not idle** is entered into the table and counted. -/
theorem Inv.listNew (h : Inv s kids chains []) (hnone : s.getStreamRaw id = none)
    (hst : st ≠ .idle) (hused : s.Used id) (hw : 1 ≤ w ∧ w ≤ 256) :
    ∃ s2 chains', s.listStream none id w st = .ok (s2, s.tree.allocated) ∧
      Inv s2 kids chains' [s.tree.allocated] ∧ s2.Ready s.tree.allocated ∧
      Kept s s2 chains chains' [id] ∧ SameIds s s2 ∧ s2.streamId s.tree.allocated = id ∧
      ∀ y, InTree s2.tree.dep y ↔ InTree s.tree.dep y := by
  obtain ⟨s1, c1, hplace, hinv1, hkept1, hs1, hid1, hin1⟩ := h.initNew st hnone (fun _ => hused) hw
  set x := s.tree.allocated with hx
  obtain ⟨s2, hcount, hsame, hstate2, hitems, hclosed⟩ := countStream_ok hst s1 x id
  have hstate : (s2.info x).state = st := by
    rw [hstate2, hs1]
    show (update s.info x (freshInfo st) x).state = st
    rw [update_self]
    rfl
  have hxidle : x ∉ s2.idleStreams := by
    rw [hsame.idle, hs1]
    exact fun hmem => lt_irrefl _ (h.held (h.held_of_idle hmem)).2.1
  have hkey : s2.streams.key = s1.streams.key := by rw [hsame.streams]
  refine ⟨s2, c1, ?_, hinv1.of_sameTable hsame, ⟨?_, ?_, ?_⟩, ?_, ?_, ?_, ?_⟩
  · simp only [listStream, hplace, ok_bind, hcount]
    rfl
  · rw [hsame.tree, hs1]
    exact update_self ..
  · exact iff_of_false hxidle fun hi => hst (hstate.symm.trans hi)
  · exact fun hi => absurd (hstate.symm.trans hi) hst
  · refine hkept1.trans (Kept.of_eq hkey hsame.freed (fun {y i} hi => ?_) hitems c1)
    rw [hsame.tree] at hi
    exact ⟨hi, hsame.live (hclosed y)⟩
  · exact SameIds.trans (by rw [hs1]; exact ⟨rfl, rfl, rfl, rfl⟩) hsame.ids
  · exact (congrFun hkey x).trans hid1
  · rw [hsame.tree]
    exact hin1

/-- **An idle stream object is reused.**  The result has the table of before with the
link of the entry cleared, and the invariant if it was clear. -/
theorem Inv.listReused (h : Inv s kids chains [x]) (hid : s.streamId x = id) (hst : st ≠ .idle)
    (hused : s.Used id) (hxidle : x ∉ s.idleStreams) (hw : 1 ≤ w ∧ w ≤ 256) :
    ∃ s2, s.listStream (some x) id w st = .ok (s2, x) ∧ SameIds s s2 ∧ s2.freed = s.freed ∧
      s2.streams = s.streams.entryInit x id ∧ s2.items = s.items ∧
      (∀ {y i}, s2.tree.sched.item y = some i →
        s.tree.sched.item y = some i ∧ (s.Live y → s2.Live y)) ∧
      (s.streams.next x = none → Inv s2 kids chains [x] ∧ s2.Ready x ∧
        ∀ y, InTree s2.tree.dep y ↔ InTree s.tree.dep y) := by
  set s1 := s.initStream x id w st with hs1
  obtain ⟨s2, hcount, hsame, hstate2, hitems, hclosed⟩ := countStream_ok hst s1 x id
  refine ⟨s2, ?_, ⟨hsame.ids.server, hsame.ids.lastRecv, hsame.ids.nextStreamId,
    hsame.ids.unsent⟩, hsame.freed, hsame.streams, hitems, fun {y i} hi => ?_, fun hnext => ?_⟩
  · have hplace : s.placeStream (some x) id w st = .ok (s1, x) := rfl
    simp only [listStream, hplace, ok_bind, hcount]
    rfl
  · rw [hsame.tree] at hi
    replace hi : update s.tree.sched.item x none y = some i := hi
    rcases eq_or_ne y x with rfl | hyx
    · rw [update_self] at hi
      cases hi
    · rw [update_of_ne hyx] at hi
      exact ⟨hi, fun hlive =>
        hsame.live (hclosed y) (live_of_info (initStream_info_of_ne id w st hyx) hlive)⟩
  obtain ⟨hinv1, -, hin1⟩ := h.initReused hid hnext (fun _ => hused) hw
  have hstate : (s2.info x).state = st := by
    rw [hstate2, hs1, initStream_info_self]
    rfl
  refine ⟨hinv1.of_sameTable hsame, ⟨?_, ?_, ?_⟩, ?_⟩
  · rw [hsame.tree]
    exact update_self ..
  · rw [hsame.idle]
    exact iff_of_false hxidle fun hi => hst (hstate.symm.trans hi)
  · exact fun hi => absurd (hstate.symm.trans hi) hst
  · rw [hsame.tree]
    exact hin1

/-- An idle stream that is reused becomes a hole. -/
theorem Inv.reuseStream_some (h : Inv s kids chains []) (hraw : s.getStreamRaw id = some x)
    (hidle : (s.info x).state = .idle) (st : StreamState) :
    ∃ s1 kids1, s.reuseStream id st = .ok (s1, some x) ∧ Inv s1 kids1 chains [x] ∧
      x ∉ s1.idleStreams ∧ s1 = { s.detachIdleStream x with tree := s1.tree } ∧
      s1.tree.pending = s.tree.pending := by
  obtain ⟨hheld, hid⟩ := h.getStreamRaw_iff.1 hraw
  have hmem : x ∈ s.idleStreams := (h.idle_mem List.not_mem_nil).2 ⟨hheld, hidle⟩
  obtain ⟨hroot, -, -⟩ := h.held hheld
  obtain ⟨t, kids1, hleave, hch⟩ := h.tree.leave hroot
  refine ⟨{ s.detachIdleStream x with tree := t }, kids1, ?_, ?_, ?_, rfl, hch.pending⟩
  · have hin := (h.tree.streamInDepTree_iff hroot).2 (h.idle_tree List.not_mem_nil hmem)
    simp only [reuseStream, hraw, hidle, hin, hleave, ok_bind, ne_eq, not_true_eq_false,
      decide_false, Bool.not_true, Bool.or_self, Bool.false_eq_true, if_false]
    rfl
  · have hne : ∀ {y}, y ∉ [x] → y ≠ x := fun hy hyx => hy (by simp [hyx])
    have hcne : ∀ {y}, y ∈ s.closedStreams → y ≠ x := fun hy hyx =>
      (h.closed_held hy).2.2.1 (hyx ▸ hidle)
    exact { h with
      tree := hch.tree
      held := fun {y} hy => by
        show _ ∧ y < t.allocated ∧ _
        rw [hch.allocated]
        exact h.held hy
      inTree := fun {y} hy => h.inTree ((hch.inTree y).1 hy).1
      freed := fun {y} hy => by
        show _ ∧ y < t.allocated
        rw [hch.allocated]
        exact h.freed hy
      idle_mem := fun {y} hy => by
        show y ∈ s.idleStreams.erase x ↔ _
        rw [h.idle_nodup.mem_erase_iff, h.idle_mem List.not_mem_nil]
        exact and_iff_right (hne hy)
      idle_tree := fun {y} hy hmem => (hch.inTree y).2
        ⟨h.idle_tree List.not_mem_nil (List.mem_of_mem_erase hmem), hne hy⟩
      idle_nodup := h.idle_nodup.erase x
      idle_num := by
        show s.numIdleStreams - 1 = (s.idleStreams.erase x).length
        rw [h.idle_num, List.length_erase_of_mem hmem]
      closed_held := fun {y} hy => by
        obtain ⟨h1, h2, h3, -⟩ := h.closed_held hy
        exact ⟨h1, h2, h3, by simpa using hcne hy⟩
      hole_out := fun {y} hy => by
        have hyx := List.mem_singleton.1 hy
        exact ⟨by rw [hyx]; exact hheld, fun hin => ((hch.inTree y).1 hin).2 hyx⟩ }
  · exact fun hx => (h.idle_nodup.mem_erase_iff.1 hx).1 rfl

/-- **An existing idle stream is prepared** for its reuse. -/
theorem Inv.prepareReused (h : Inv s kids chains []) (hraw : s.getStreamRaw id = some x)
    (hidle : (s.info x).state = .idle) (pri : PrioritySpec) (st : StreamState) :
    ∃ s1 kids1 chains1 d pri', s.prepareStream id pri st = .ok (s1, some x, d, pri') ∧
      Inv s1 kids1 chains1 [x] ∧ Kept s s1 chains chains1 (s.anchorIds pri) ∧ SameIds s s1 ∧
      s1.streamId x = id ∧ x ∉ s1.idleStreams ∧ InTree s1.tree.dep d := by
  obtain ⟨hheld, hid⟩ := h.getStreamRaw_iff.1 hraw
  obtain ⟨s0, k0, hreuse, hinv0, hx0, hs0, hpending⟩ := h.reuseStream_some hraw hidle st
  have hkept0 : Kept s s0 chains chains [] := by
    refine Kept.of_eq (by rw [hs0]; rfl) (by rw [hs0]; rfl) (fun {y i} hi => ⟨?_, fun hl => ?_⟩)
      (by rw [hs0]; rfl) _
    · rwa [(StreamTree.item_eq_of_pending hpending).1] at hi
    · rw [hs0]
      exact hl
  obtain ⟨s1, k1, c1, d, pri', l, hres, hinv1, hprep, -, -, -, hholes⟩ :=
    hinv0.resolveDep pri fun y hy => List.mem_singleton.1 hy ▸ hx0
  have hids0 : SameIds s s0 := by
    rw [hs0]
    exact ⟨rfl, rfl, rfl, rfl⟩
  have hkept : Kept s s1 chains c1 (s.anchorIds pri) := by
    rw [← hids0.anchorIds]
    exact hkept0.trans hprep.kept
  refine ⟨s1, k1, c1, d, pri', ?_, hinv1, hkept, hids0.trans hprep.ids, ?_,
    hholes x List.mem_cons_self, hprep.dep⟩
  · simp only [prepareStream, hreuse, ok_bind, hres]
    rfl
  · rcases hkept.old hheld with ⟨-, hkey⟩ | hfreed
    · exact hkey.trans hid
    · have := (hinv1.held (hinv1.hole_out List.mem_cons_self).1).2.2
      simp [hfreed] at this

/-- For a new stream of the peer the oldest closed streams are destroyed. -/
theorem Inv.reuseStream_none (h : Inv s kids chains []) (hraw : s.getStreamRaw id = none)
    (st : StreamState) :
    ∃ s1 kids1 chains1 l, s.reuseStream id st = .ok (s1, none) ∧ Inv s1 kids1 chains1 [] ∧
      Evicts s s1 chains chains1 l ∧ s1.idleStreams = s.idleStreams ∧ (st = .idle → s1 = s) := by
  have hstay : s.makeRoom id st = .ok s → ∃ s1 kids1 chains1 l,
      s.reuseStream id st = .ok (s1, none) ∧ Inv s1 kids1 chains1 [] ∧
      Evicts s s1 chains chains1 l ∧ s1.idleStreams = s.idleStreams ∧ (st = .idle → s1 = s) := by
    intro hroom
    refine ⟨s, kids, chains, [], ?_, h, Evicts.refl s chains, rfl, fun _ => rfl⟩
    simp only [reuseStream, hraw, hroom, ok_bind]
    rfl
  by_cases hcond : (s.server && st ≠ .idle && !s.isMyStreamId id) = true
  · obtain ⟨s1, k1, c1, k, hres, hinv, hev, hidle, -⟩ :=
      h.adjustClosedLoop 1 s.numClosedStreams le_rfl
    have hroom : s.makeRoom id st = .ok s1 := by
      rw [makeRoom, if_pos hcond]
      exact hres
    refine ⟨s1, k1, c1, _, ?_, hinv, hev, hidle, fun hst => ?_⟩
    · simp only [reuseStream, hraw, hroom, ok_bind]
      rfl
    · simp [hst] at hcond
  · refine hstay ?_
    rw [makeRoom, if_neg hcond]
    rfl

/-- The dependency of a new idle stream is not evicted for it. -/
def DepStays (s : Session) (pri : PrioritySpec) : Prop :=
  pri.streamId ≠ 0 → ∀ d, s.getStreamRaw pri.streamId = some d → d ∉ s.evictable 1

section OpenNew

variable {pri : PrioritySpec} (h : Inv s kids chains []) (hraw : s.getStreamRaw id = none)
  (hself : s.detectIdleStream pri.streamId = true → pri.streamId ≠ id)
include h hraw hself

/-- **A stream that does not exist is prepared**: its dependency is in the tree. -/
theorem Inv.prepareNew (st : StreamState) :
    ∃ s1 kids1 chains1 d pri', s.prepareStream id pri st = .ok (s1, none, d, pri') ∧
      Inv s1 kids1 chains1 [] ∧ Kept s s1 chains chains1 (s.anchorIds pri) ∧ SameIds s s1 ∧
      s1.getStreamRaw id = none ∧ InTree s1.tree.dep d ∧
      (st = .idle → (d ∈ s1.evictable 1 ↔ ¬ s.DepStays pri)) := by
  obtain ⟨s0, k0, c0, l0, hreuse, hinv0, hev, hidle, hsame⟩ := h.reuseStream_none hraw st
  have hraw0 := hev.kept.getStreamRaw_none h hinv0 hraw List.not_mem_nil
  obtain ⟨s1, k1, c1, d, pri', l, hres, hinv1, hprep, -, hnot, hanchor, -⟩ :=
    hinv0.resolveDep pri fun y hy => absurd hy List.not_mem_nil
  have hkept : Kept s s1 chains c1 (s.anchorIds pri) := by
    rw [← hev.sameIds.anchorIds]
    exact hev.kept.trans hprep.kept
  refine ⟨s1, k1, c1, d, pri', ?_, hinv1, hkept, hev.sameIds.trans hprep.ids, ?_, hprep.dep,
    fun hst => ?_⟩
  · simp only [prepareStream, hreuse, ok_bind, hres]
    rfl
  · by_cases ha : s0.createsAnchor pri
    · refine hprep.kept.getStreamRaw_none hinv0 hinv1 hraw0 fun hmem => ?_
      rw [anchorIds, ha.2.2.1, ha.2.2.2] at hmem
      refine hself ?_ (List.mem_singleton.1 hmem).symm
      rw [← hev.sameIds.detectIdleStream]
      exact ha.2.2.2
    · rw [(hnot ha).1]
      exact hraw0
  have hs0 := hsame hst
  rw [hs0] at hnot hanchor hinv0
  by_cases ha : s.createsAnchor pri
  · refine iff_of_false (hanchor ha).2.1 (not_not_intro fun _ d' hd' => ?_)
    simp [ha.2.1] at hd'
  · obtain ⟨hs1, hd⟩ := hnot ha
    rw [hs1]
    rcases hd with ⟨hid, hd⟩ | ⟨rfl, hout⟩
    · simp [DepStays, hid, hd]
    · refine iff_of_false (h.root_notMem_evictable 1) (not_not_intro fun hid d' hd' hmem => ?_)
      exact hout hid d' hd' (h.idle_tree List.not_mem_nil (List.mem_of_mem_take hmem))

/-- **A stream that does not exist is entered** into the table.  Its dependency is in
the tree, unless it was evicted for the stream. -/
theorem Inv.enterNew (hused : st ≠ .idle → s.Used id) (hserver : st = .idle → s.server = true) :
    ∃ s2 x d ex kids2 chains2, s.enterStream id pri st = .ok (s2, x, d, ex) ∧
      Inv s2 kids2 chains2 [x] ∧ s2.Ready x ∧ Kept s s2 chains chains2 (s.anchorIds pri ++ [id]) ∧
      SameIds s s2 ∧ s2.streamId x = id ∧
      ((st = .idle → s.DepStays pri) → InTree s2.tree.dep d) ∧
      (st = .idle → ¬ s.DepStays pri → s2.freed d = true ∧ (s2.info x).shutWr = false) := by
  obtain ⟨s1, k1, c1, d, pri', hprep, hinv1, hkept1, hids1, hraw1, hd, hevict⟩ :=
    h.prepareNew hraw hself st
  by_cases hst : st = .idle
  · subst hst
    obtain ⟨s2, k2, c2, l, hlist, hinv2, hready, hop, hin, hinfo, -⟩ := hinv1.listIdle
      (hids1.server.trans (hserver rfl)) hraw1 (fun y hy => absurd hy List.not_mem_nil)
      pri'.weight_mem
    refine ⟨s2, _, d, pri'.exclusive, k2, c2, ?_, hinv2, hready, hkept1.trans hop.kept,
      hids1.trans hop.ids, hop.streamId, fun hstays => ?_, fun _ hnot => ⟨?_, ?_⟩⟩
    · simp only [enterStream, hprep, ok_bind, hlist]
      rfl
    · exact (hin d).2 ⟨hd, fun hmem => (hevict rfl).1 hmem (hstays rfl)⟩
    · exact (hop.freed d).2 (Or.inr ((hevict rfl).2 hnot))
    · rw [hinfo]
      rfl
  · obtain ⟨s2, c2, hlist, hinv2, hready, hkept, hids, hid, hin⟩ := hinv1.listNew hraw1 hst
      ((hids1.used id).2 (hused hst)) pri'.weight_mem
    refine ⟨s2, _, d, pri'.exclusive, k1, c2, ?_, hinv2, hready, hkept1.trans hkept,
      hids1.trans hids, hid, fun _ => (hin d).2 hd, fun hi => absurd hi hst⟩
    simp only [enterStream, hprep, ok_bind, hlist]
    rfl

end OpenNew

/-- **An idle stream is entered again**: its object is reused, whatever follows it in its
hash chain. -/
theorem Inv.enterReused {pri : PrioritySpec} (h : Inv s kids chains [])
    (hraw : s.getStreamRaw id = some x) (hidle : (s.info x).state = .idle) (hst : st ≠ .idle)
    (hused : s.Used id) :
    ∃ s1 kids1 chains1 d pri' s2, s.prepareStream id pri st = .ok (s1, some x, d, pri') ∧
      s.enterStream id pri st = .ok (s2, x, d, pri'.exclusive) ∧ Inv s1 kids1 chains1 [x] ∧
      Kept s s1 chains chains1 (s.anchorIds pri) ∧ s1.streamId x = id ∧ SameIds s s2 ∧
      s2.freed = s1.freed ∧ s2.freed d = false ∧ s2.streams = s1.streams.entryInit x id ∧
      (s1.streams.next x = none → Inv s2 kids1 chains1 [x] ∧ s2.Ready x ∧ InTree s2.tree.dep d ∧
        Kept s s2 chains chains1 (s.anchorIds pri)) := by
  obtain ⟨s1, k1, c1, d, pri', hprep, hinv1, hkept1, hids1, hid1, hx1, hd⟩ :=
    h.prepareReused hraw hidle pri st
  obtain ⟨s2, hlist, hids, hfreed, hstreams, hitems, hitem, hinv⟩ := hinv1.listReused hid1 hst
    ((hids1.used id).2 hused) hx1 pri'.weight_mem
  refine ⟨s1, k1, c1, d, pri', s2, hprep, ?_, hinv1, hkept1, hid1, hids1.trans hids, hfreed, ?_,
    hstreams, fun hnext => ?_⟩
  · simp only [enterStream, hprep, ok_bind, hlist]
    rfl
  · rw [hfreed]
    exact hinv1.not_freed_of_inTree hd
  · obtain ⟨hinv2, hready, hin⟩ := hinv hnext
    have hkey : s2.streams.key = s1.streams.key := by
      rw [hstreams, ← hid1]
      exact congrArg ChainMap.key (entryInit_of_next_eq_none hnext)
    have hkept := hkept1.trans (Kept.of_eq hkey hfreed hitem hitems c1)
    rw [List.append_nil] at hkept
    exact ⟨hinv2, hready, (hin d).2 hd, hkept⟩

/-- A stream can be linked if neither it nor its dependency was freed. -/
theorem linkStream_ok (hx : s.freed x = false) (hd : s.freed d = false) (exclusive : Bool) :
    ∃ t, s.linkStream x d exclusive = .ok { s with tree := t } := by
  unfold Session.linkStream
  rw [hx, hd]
  simp only [Bool.false_eq_true, if_false]
  split
  · exact ⟨s.tree, rfl⟩
  · exact ⟨_, rfl⟩

/-- A stream is not linked to a freed object. -/
theorem linkStream_fault (hwr : (s.info x).shutWr = false) (hd : s.freed d = true)
    (exclusive : Bool) : s.linkStream x d exclusive = .error .useAfterFree := by
  unfold Session.linkStream
  rw [hwr, hd]
  split
  · rfl
  · simp only [Bool.false_eq_true, if_false, if_true]
    rfl

end Session

end Nghttp2
