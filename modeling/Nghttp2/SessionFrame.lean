/-
# Lookups after opening and closing streams

What the operations on the stream table do to `nghttp2_session_get_stream`, in every
state: also in those in which a cleared link has cut entries off the table, so that the
table counts more streams than its chains hold (`Tabled`).

* `Trims s s'`: no stream can be found in `s'` that was not found in `s`, and those that
  are found are as they were;
* `Opens s s' id st`: the same, but for the stream `id`, which may have been opened in the
  state `st`;
* `Session.SameFrame`: the fields that none of these operations touch.
-/
import Nghttp2.SessionTree

open ChainMap

namespace Nghttp2

open LinkedChain
open Function (update update_eq_self update_of_ne update_self)

variable {t t' : StreamTree}

theorem streamDepRemove_allocated {x : Ptr}
    (h : streamDepRemove t x = some t') : t'.allocated = t.allocated := by
  unfold streamDepRemove at h
  set loop := forChain (fun td : StreamTree × ℤ => td.1.dep.sibNext) (releaseChild x) t.turns
    (t, -t.dep.weight x) (t.dep.depNext x) with hloop
  have hbody : ∀ (td : StreamTree × ℤ) (si : Ptr),
      (releaseChild x td si).1.allocated = td.1.allocated := fun _ _ => rfl
  have hkeep : loop.1.allocated = t.allocated :=
    forChain_keeps (fun td : StreamTree × ℤ => td.1.allocated) hbody _ _ _
  dsimp only at h
  split at h
  · simp at h
  · rw [Option.some.injEq] at h
    rw [← h]
    exact hkeep

theorem streamDepRemoveSubtree_allocated {x : Ptr}
    (h : streamDepRemoveSubtree t x = some t') : t'.allocated = t.allocated := by
  unfold streamDepRemoveSubtree at h
  split at h
  · simp at h
  · rw [Option.some.injEq] at h
    rw [← h]

namespace Session

variable {s s' s1 s2 : Session} {id : ℕ} {x y : Ptr} {st : StreamState}

/-! ## The chains of the table -/

/-- The stream table consists of chains of allocated streams.  It may count more
entries than the chains hold. -/
def Tabled (s : Session) : Prop :=
  ∃ chains, Linked mapHash s.streams chains ∧ total s.streams.tablelen chains ≤ s.streams.size ∧
    root < s.tree.allocated ∧ ∀ x, Holds chains x → root < x ∧ x < s.tree.allocated

/-- The fields that opening, closing and destroying streams do not touch. -/
structure SameFrame (s s' : Session) : Prop where
  server : s'.server = s.server
  items : s'.items = s.items
  lastRecvStreamId : s'.lastRecvStreamId = s.lastRecvStreamId
  nextStreamId : s'.nextStreamId = s.nextStreamId
  unsent : s'.unsent = s.unsent
  goawaySent : s'.goawaySent = s.goawaySent
  /-- No stream gets an item. -/
  carried : ∀ x i, s'.tree.sched.item x = some i → s.tree.sched.item x = some i

theorem SameFrame.refl (s : Session) : SameFrame s s :=
  ⟨rfl, rfl, rfl, rfl, rfl, rfl, fun _ _ h => h⟩

theorem carried_of_pending (h : t'.pending = t.pending) :
    ∀ x i, t'.sched.item x = some i → t.sched.item x = some i := by
  intro x i hi
  rwa [(StreamTree.item_eq_of_pending h).1] at hi

theorem SameFrame.trans (h : SameFrame s s1) (h' : SameFrame s1 s2) : SameFrame s s2 :=
  ⟨h'.server.trans h.server, h'.items.trans h.items, h'.lastRecvStreamId.trans h.lastRecvStreamId,
    h'.nextStreamId.trans h.nextStreamId, h'.unsent.trans h.unsent,
    h'.goawaySent.trans h.goawaySent, fun x i hi => h.carried x i (h'.carried x i hi)⟩

/-- The session fields of the stream `x` stay, unless it is idle and stays idle. -/
def InfoStays (s s' : Session) (x : Ptr) : Prop :=
  s'.info x = s.info x ∨ ((s.info x).state = .idle ∧ (s'.info x).state = .idle)

theorem InfoStays.trans (h : InfoStays s s1 x) (h' : InfoStays s1 s2 x) : InfoStays s s2 x := by
  unfold InfoStays at *
  rcases h with h | h
  · rw [h] at h'
    exact h'
  · rcases h' with h' | h'
    · rw [h']
      exact .inr h
    · exact .inr ⟨h.1, h'.2⟩

/-- Streams are only lost: a stream that can be found was there before, as it is. -/
structure Trims (s s' : Session) : Prop extends SameFrame s s' where
  tabled : s'.Tabled
  allocated : s.tree.allocated ≤ s'.tree.allocated
  key : ∀ x < s.tree.allocated, s'.streams.key x = s.streams.key x
  info : ∀ x < s.tree.allocated, InfoStays s s' x
  entry : ∀ ⦃id x⦄, s'.getStream id = some x → s.getStream id = some x ∧ s'.info x = s.info x
  /-- The same for closed streams that are still in the table. -/
  raw : ∀ ⦃id x⦄, s'.getStreamRaw id = some x → (s'.info x).state ≠ .idle →
    s.getStreamRaw id = some x ∧ s'.info x = s.info x

theorem Trims.refl (h : s.Tabled) : Trims s s :=
  ⟨SameFrame.refl s, h, le_rfl, fun _ _ => rfl, fun _ _ => .inl rfl, fun _ _ hx => ⟨hx, rfl⟩,
    fun _ _ hx _ => ⟨hx, rfl⟩⟩

theorem Trims.trans (h : Trims s s1) (h' : Trims s1 s2) : Trims s s2 where
  toSameFrame := h.toSameFrame.trans h'.toSameFrame
  tabled := h'.tabled
  allocated := h.allocated.trans h'.allocated
  key x hx := (h'.key x (hx.trans_le h.allocated)).trans (h.key x hx)
  info x hx := (h.info x hx).trans (h'.info x (hx.trans_le h.allocated))
  entry id x hx := by
    obtain ⟨h1, hinfo1⟩ := h'.entry hx
    obtain ⟨h0, hinfo0⟩ := h.entry h1
    exact ⟨h0, hinfo1.trans hinfo0⟩
  raw id x hx hne := by
    obtain ⟨h1, hinfo1⟩ := h'.raw hx hne
    obtain ⟨h0, hinfo0⟩ := h.raw h1 (hinfo1 ▸ hne)
    exact ⟨h0, hinfo1.trans hinfo0⟩

variable {r : Option Ptr} {pri : PrioritySpec} {d : Ptr} {n : ℕ} {chains : ℕ → List Ptr} {w : ℤ}

theorem getStreamRaw_eq_some_iff (hl : Linked mapHash s.streams chains)
    (ht : total s.streams.tablelen chains ≤ s.streams.size) :
    s.getStreamRaw id = some x ↔ Holds chains x ∧ s.streams.key x = id :=
  find_eq_some_iff mapHash_lt hl ht

theorem getStream_eq_some_iff : s.getStream id = some x ↔
    s.getStreamRaw id = some x ∧ (s.info x).closed = false ∧ (s.info x).state ≠ .idle := by
  simp [getStream, Option.filter_eq_some_iff]

theorem Tabled.of_getStreamRaw (h : s.Tabled) (hx : s.getStreamRaw id = some x) :
    s.streams.key x = id ∧ x < s.tree.allocated := by
  obtain ⟨chains, hl, ht, -, halloc⟩ := h
  obtain ⟨hx, hid⟩ := (getStreamRaw_eq_some_iff hl ht).1 hx
  exact ⟨hid, (halloc x hx).2⟩

/-- The root is not in the table. -/
theorem Tabled.ne_root (h : s.Tabled) (hx : s.getStreamRaw id = some x) : root < x := by
  obtain ⟨chains, hl, ht, -, halloc⟩ := h
  exact (halloc x ((getStreamRaw_eq_some_iff hl ht).1 hx).1).1

/-- The table is as before. -/
theorem Tabled.of_streams (h : s.Tabled) (hstreams : s'.streams = s.streams)
    (halloc : s'.tree.allocated = s.tree.allocated) : s'.Tabled := by
  obtain ⟨chains, hl, ht, hlt⟩ := h
  exact ⟨chains, hstreams ▸ hl, hstreams ▸ ht, halloc ▸ hlt⟩

theorem getStream_congr (hinfo : s'.info = s.info) (hstreams : s'.streams = s.streams) (id : ℕ) :
    s'.getStream id = s.getStream id := by
  rw [getStream, getStream, getStreamRaw, getStreamRaw, hinfo, hstreams]

/-- The other fields of the session change, and the streams that can be found keep their
session fields. -/
theorem Trims.of_same (h : s.Tabled) (hframe : SameFrame s s') (hstreams : s'.streams = s.streams)
    (halloc : s'.tree.allocated = s.tree.allocated) (hinfo : s'.info = s.info) : Trims s s' := by
  have hraw : ∀ id, s'.getStreamRaw id = s.getStreamRaw id := fun id => by
    rw [getStreamRaw, getStreamRaw, hstreams]
  refine ⟨hframe, h.of_streams hstreams halloc, halloc.ge, fun x _ => by rw [hstreams],
    fun x _ => .inl (by rw [hinfo]), fun id x hx => ?_,
    fun id x hx _ => ⟨hraw id ▸ hx, by rw [hinfo]⟩⟩
  rw [getStream_congr hinfo hstreams] at hx
  exact ⟨hx, by rw [hinfo]⟩

/-- The table after an update of its chains that adds none. -/
theorem Trims.of_chains {chains' : ℕ → List Ptr} {streams : ChainMap Ptr ℕ}
    (hl : Linked mapHash s.streams chains) (ht : total s.streams.tablelen chains ≤ s.streams.size)
    (halloc : root < s.tree.allocated ∧ ∀ x, Holds chains x → root < x ∧ x < s.tree.allocated)
    (hstreams : s'.streams = streams) (hl' : Linked mapHash streams chains')
    (ht' : total streams.tablelen chains' ≤ streams.size) (hkey : streams.key = s.streams.key)
    (hsub : ∀ x, Holds chains' x → Holds chains x) (hframe : SameFrame s s')
    (halloc' : s'.tree.allocated = s.tree.allocated) (hinfo : s'.info = s.info) : Trims s s' := by
  subst hstreams
  have hraw : ∀ {id x}, s'.getStreamRaw id = some x → s.getStreamRaw id = some x := by
    intro id x hx
    rw [getStreamRaw_eq_some_iff hl' ht', hkey] at hx
    exact (getStreamRaw_eq_some_iff hl ht).2 ⟨hsub x hx.1, hx.2⟩
  refine ⟨hframe, ⟨chains', hl', ht', halloc' ▸ ⟨halloc.1, fun x hx => halloc.2 x (hsub x hx)⟩⟩,
    halloc'.ge,
    fun x _ => by rw [hkey], fun x _ => .inl (by rw [hinfo]), fun id x hx => ?_,
    fun id x hx _ => ⟨hraw hx, by rw [hinfo]⟩⟩
  rw [getStream_eq_some_iff, hinfo] at hx
  exact ⟨getStream_eq_some_iff.2 ⟨hraw hx.1, hx.2⟩, by rw [hinfo]⟩

/-! ## Destroying streams -/

theorem leaveTree_eq (h : leaveTree t x = .ok t') :
    t'.allocated = t.allocated ∧ t'.pending = t.pending := by
  unfold leaveTree at h
  split_ifs at h
  · cases hrem : streamDepRemove t x with
    | none =>
      rw [hrem] at h
      cases h
    | some t1 =>
      rw [hrem] at h
      cases h
      exact ⟨streamDepRemove_allocated hrem, streamDepRemove_pending hrem⟩
  · cases h
    exact ⟨rfl, rfl⟩

/-- **`nghttp2_session_destroy_stream`.** -/
theorem destroyStream_trims (h : s.Tabled) (hres : s.destroyStream x = .ok s') : Trims s s' := by
  obtain ⟨t, ht, hres⟩ := bind_eq_ok.1 hres
  cases hres
  obtain ⟨ht, hpend⟩ := leaveTree_eq ht
  obtain ⟨chains, hl, htot, halloc⟩ := h
  by_cases hfound : ∃ a, Holds chains a ∧ s.streams.key a = s.streamId x
  · obtain ⟨a, ha, hkey⟩ := hfound
    obtain ⟨-, chains', hl', hholds, htot', hk⟩ := hl.remove mapHash_lt htot ha
    rw [hkey] at hl' htot' hk
    have hle : total (s.streams.remove mapHash (s.streamId x)).1.tablelen chains' ≤
        (s.streams.remove mapHash (s.streamId x)).1.size := by omega
    exact Trims.of_chains hl htot halloc rfl hl' hle hk (fun y hy => ((hholds y).1 hy).1)
      ⟨rfl, rfl, rfl, rfl, rfl, rfl, carried_of_pending hpend⟩ ht rfl
  · have habs := hl.remove_of_absent (k := s.streamId x) fun c hc hck => hfound ⟨c, hc, hck⟩
    exact Trims.of_same ⟨chains, hl, htot, halloc⟩
      ⟨rfl, rfl, rfl, rfl, rfl, rfl, carried_of_pending hpend⟩ (congrArg Prod.fst habs) ht rfl

theorem adjustClosedLoop_trims {offset : ℕ} (h : s.Tabled)
    (hres : adjustClosedLoop offset n s = .ok s') : Trims s s' := by
  refine adjustClosedLoop_rule (P := Trims s) (Trims.refl h) (fun h _ hdes => ?_) hres
  have h1 := destroyStream_trims h.tabled hdes
  exact h.trans (h1.trans (Trims.of_same h1.tabled ⟨rfl, rfl, rfl, rfl, rfl, rfl, fun _ _ h => h⟩
    rfl rfl rfl))

theorem adjustIdleLoop_trims (h : s.Tabled) (hres : adjustIdleLoop n s = .ok s') : Trims s s' := by
  refine adjustIdleLoop_rule (P := Trims s) (Trims.refl h) (fun h _ hdes => ?_) hres
  have h1 := destroyStream_trims h.tabled hdes
  exact h.trans (h1.trans (Trims.of_same h1.tabled ⟨rfl, rfl, rfl, rfl, rfl, rfl, fun _ _ h => h⟩
    rfl rfl rfl))

/-- **`nghttp2_session_keep_closed_stream`.** -/
theorem keepClosedStream_trims (h : s.Tabled) (hres : s.keepClosedStream x = .ok s') :
    Trims s s' := by
  have h1 : Trims s { s with
      closedStreams := s.closedStreams ++ [x], numClosedStreams := s.numClosedStreams + 1 } :=
    Trims.of_same h ⟨rfl, rfl, rfl, rfl, rfl, rfl, fun _ _ h => h⟩ rfl rfl rfl
  exact h1.trans (adjustClosedLoop_trims h1.tabled hres)

/-- **`nghttp2_session_keep_idle_stream`.** -/
theorem keepIdleStream_trims (h : s.Tabled) (hres : s.keepIdleStream x = .ok s') : Trims s s' := by
  have h1 : Trims s { s with
      idleStreams := s.idleStreams ++ [x], numIdleStreams := s.numIdleStreams + 1 } :=
    Trims.of_same h ⟨rfl, rfl, rfl, rfl, rfl, rfl, fun _ _ h => h⟩ rfl rfl rfl
  exact h1.trans (adjustIdleLoop_trims h1.tabled hres)

/-! ## Opening streams -/

/-- The session fields of a stream that has just been opened; a reserved stream is shut
down in the direction in which nothing is sent. -/
def openedInfo (s : Session) (id : ℕ) (st : StreamState) : StreamInfo :=
  ⟨st, st = .reserved, false, st = .reserved && s.isMyStreamId id,
    st = .reserved && !s.isMyStreamId id⟩

/-- The stream `x` may have been opened with the id `id` in the state `st`; the other
streams are as they were, or lost. -/
structure Opens (s s' : Session) (id : ℕ) (st : StreamState) (x : Ptr) : Prop
    extends SameFrame s s' where
  tabled : s'.Tabled
  allocated : s.tree.allocated ≤ s'.tree.allocated
  key : ∀ x < s.tree.allocated, s'.streams.key x = s.streams.key x
  fresh : x < s.tree.allocated → (s.info x).state = .idle
  state : x < s'.tree.allocated ∧ (s'.info x).state = st
  info : ∀ y < s.tree.allocated, y ≠ x → InfoStays s s' y
  entry : ∀ ⦃id' y⦄, s'.getStream id' = some y →
    (s.getStream id' = some y ∧ s'.info y = s.info y ∧ y ≠ x) ∨
      (id' = id ∧ y = x ∧ s'.info y = openedInfo s id st)
  /-- The same for closed streams that are still in the table. -/
  raw : ∀ ⦃id' y⦄, s'.getStreamRaw id' = some y → (s'.info y).state ≠ .idle →
    (s.getStreamRaw id' = some y ∧ s'.info y = s.info y ∧ y ≠ x) ∨ (id' = id ∧ y = x)

theorem SameFrame.isMyStreamId (h : SameFrame s s') (id : ℕ) :
    s'.isMyStreamId id = s.isMyStreamId id := by
  unfold Session.isMyStreamId
  rw [h.server]

theorem SameFrame.openedInfo (h : SameFrame s s') (id : ℕ) (st : StreamState) :
    s'.openedInfo id st = s.openedInfo id st := by
  unfold Session.openedInfo
  rw [h.isMyStreamId]

theorem Trims.opens (h : Trims s s1) (h' : Opens s1 s2 id st x) : Opens s s2 id st x where
  toSameFrame := h.toSameFrame.trans h'.toSameFrame
  tabled := h'.tabled
  allocated := h.allocated.trans h'.allocated
  key x hx := (h'.key x (hx.trans_le h.allocated)).trans (h.key x hx)
  fresh hx := by
    have hidle := h'.fresh (hx.trans_le h.allocated)
    rcases h.info x hx with hinfo | hinfo
    · rw [← hinfo]
      exact hidle
    · exact hinfo.1
  state := h'.state
  info y hy hne := (h.info y hy).trans (h'.info y (hy.trans_le h.allocated) hne)
  entry id' y hy := by
    rcases h'.entry hy with ⟨hold, hinfo, hne⟩ | ⟨hid, rfl, hinfo⟩
    · obtain ⟨hold, hinfo0⟩ := h.entry hold
      exact .inl ⟨hold, hinfo.trans hinfo0, hne⟩
    · exact .inr ⟨hid, rfl, hinfo.trans (h.openedInfo id st)⟩
  raw id' y hy hne := by
    rcases h'.raw hy hne with ⟨hold, hinfo, hyx⟩ | hnew
    · obtain ⟨hold, hinfo0⟩ := h.raw hold (hinfo ▸ hne)
      exact .inl ⟨hold, hinfo.trans hinfo0, hyx⟩
    · exact .inr hnew

theorem Opens.trims_right (h : Opens s s1 id st x) (h' : Trims s1 s2) : Opens s s2 id st x where
  toSameFrame := h.toSameFrame.trans h'.toSameFrame
  tabled := h'.tabled
  allocated := h.allocated.trans h'.allocated
  key x hx := (h'.key x (hx.trans_le h.allocated)).trans (h.key x hx)
  fresh := h.fresh
  state := by
    refine ⟨h.state.1.trans_le h'.allocated, ?_⟩
    rcases h'.info x h.state.1 with hinfo | hinfo
    · rw [hinfo]
      exact h.state.2
    · rw [hinfo.2, ← h.state.2, hinfo.1]
  info y hy hne := (h.info y hy hne).trans (h'.info y (hy.trans_le h.allocated))
  entry id' y hy := by
    obtain ⟨hmid, hinfo'⟩ := h'.entry hy
    rcases h.entry hmid with ⟨hold, hinfo, hne⟩ | ⟨hid, rfl, hinfo⟩
    · exact .inl ⟨hold, hinfo'.trans hinfo, hne⟩
    · exact .inr ⟨hid, rfl, hinfo'.trans hinfo⟩
  raw id' y hy hne := by
    obtain ⟨hmid, hinfo'⟩ := h'.raw hy hne
    rcases h.raw hmid (hinfo' ▸ hne) with ⟨hold, hinfo, hyx⟩ | hnew
    · exact .inl ⟨hold, hinfo'.trans hinfo, hyx⟩
    · exact .inr hnew

/-- An idle stream that is opened cannot be found afterwards. -/
theorem Opens.trims (h : Opens s s' id .idle x) : Trims s s' where
  toSameFrame := h.toSameFrame
  tabled := h.tabled
  allocated := h.allocated
  key := h.key
  info y hy := by
    by_cases hyx : y = x
    · subst hyx
      exact .inr ⟨h.fresh hy, h.state.2⟩
    · exact h.info y hy hyx
  entry id' y hy := by
    rcases h.entry hy with ⟨hold, hinfo, -⟩ | ⟨-, -, hinfo⟩
    · exact ⟨hold, hinfo⟩
    · refine absurd ?_ (getStream_eq_some_iff.1 hy).2.2
      rw [hinfo]
      rfl
  raw id' y hy hne := by
    rcases h.raw hy hne with ⟨hold, hinfo, -⟩ | ⟨-, rfl⟩
    · exact ⟨hold, hinfo⟩
    · exact absurd h.state.2 hne

/-- A stream that could be found before keeps its session fields. -/
theorem Opens.info_of_getStream (h : Opens s s' id st x) (hs : s.Tabled) {id' : ℕ}
    (hy : s.getStream id' = some y) : s'.info y = s.info y := by
  obtain ⟨hraw, -, hidle⟩ := getStream_eq_some_iff.1 hy
  obtain ⟨-, hlt⟩ := hs.of_getStreamRaw hraw
  have hyx : y ≠ x := fun hyx => hidle (hyx ▸ h.fresh (hyx ▸ hlt))
  rcases h.info y hlt hyx with hinfo | hinfo
  · exact hinfo
  · exact absurd hinfo.1 hidle

/-- **The first part of `nghttp2_session_open_stream`.** -/
theorem reuseStream_trims (h : s.Tabled) (hres : s.reuseStream id st = .ok (s1, r)) :
    Trims s s1 ∧ ∀ x, r = some x → s.getStreamRaw id = some x ∧ (s.info x).state = .idle := by
  unfold reuseStream at hres
  cases hraw : s.getStreamRaw id with
  | some x =>
    rw [hraw] at hres
    dsimp only at hres
    split_ifs at hres with hidle
    obtain ⟨t, ht, hres⟩ := bind_eq_ok.1 hres
    cases hres
    simp only [Bool.or_eq_true, decide_eq_true_eq, not_or, not_not] at hidle
    obtain ⟨ht, hpend⟩ := leaveTree_eq ht
    refine ⟨Trims.of_same h ⟨rfl, rfl, rfl, rfl, rfl, rfl, carried_of_pending hpend⟩ rfl ht rfl, ?_⟩
    rintro y ⟨⟩
    exact ⟨rfl, hidle.1⟩
  | none =>
    rw [hraw] at hres
    obtain ⟨s2, hroom, hres⟩ := bind_eq_ok.1 hres
    cases hres
    refine ⟨?_, nofun⟩
    unfold makeRoom at hroom
    split_ifs at hroom
    · exact adjustClosedLoop_trims h hroom
    · cases hroom
      exact Trims.refl h

/-- `insert` succeeds only for a key that is not in the map. -/
theorem key_ne_of_insert {m : ChainMap Ptr ℕ}
    (hl : Linked mapHash m chains) (ht : total m.tablelen chains ≤ m.size)
    (hok : (m.insert mapHash x).2 = true) : ∀ c, Holds chains c → m.key c ≠ m.key x := by
  intro c hc hkey
  rw [hl.insert_of_holds mapHash_lt ht hc hkey] at hok
  cases hok

/-- The object of a new or reused stream is initialised and entered into the table. -/
theorem placeStream_opens (h : s.Tabled)
    (hr : ∀ x, r = some x → x < s.tree.allocated ∧ s.streams.key x = id ∧ (s.info x).state = .idle)
    (hres : s.placeStream r id w st = .ok (s', x)) :
    (x < s.tree.allocated → (s.info x).state = .idle) ∧ x < s'.tree.allocated ∧ SameFrame s s' ∧
      s'.Tabled ∧ s.tree.allocated ≤ s'.tree.allocated ∧
      (∀ x < s.tree.allocated, s'.streams.key x = s.streams.key x) ∧
      (∀ y, y ≠ x → s'.info y = s.info y) ∧
      s'.info x = ⟨st, st = .reserved, false, false, false⟩ ∧
      ∀ id' y, s'.getStreamRaw id' = some y →
        (s.getStreamRaw id' = some y ∧ y ≠ x) ∨ (id' = id ∧ y = x) := by
  obtain ⟨chains, hl, ht, halloc⟩ := h
  have hinfo : ∀ y, y ≠ x → update s.info x
      (⟨st, st = .reserved, false, false, false⟩ : StreamInfo) y = s.info y := fun y hy =>
    update_of_ne hy _ _
  have hcar : ∀ y i, update s.tree.sched.item x none y = some i →
      s.tree.sched.item y = some i := by
    intro y i hi
    by_cases hyx : y = x
    · rw [hyx, update_self] at hi
      cases hi
    · rwa [update_of_ne hyx] at hi
  cases r with
  | some x' =>
    cases hres
    obtain ⟨hlt, hkey, hnot⟩ := hr x rfl
    have hkeys : (s.streams.entryInit x id).key = s.streams.key := by
      rw [← hkey]
      exact update_eq_self x s.streams.key
    -- the entries behind a reused stream are cut off
    obtain ⟨chains', hl', ht', hsub⟩ :
      ∃ chains', Linked mapHash (s.streams.entryInit x id) chains' ∧
        total s.streams.tablelen chains' ≤ s.streams.size ∧
        ∀ y, Holds chains' y → Holds chains y := by
      by_cases hx : Holds chains x
      · obtain ⟨i, hi⟩ := hx
        obtain ⟨l1, l2, heq⟩ := List.append_of_mem hi
        refine ⟨_, hkey ▸ hl.cut heq, ?_, ?_⟩
        · have := total_update chains (l1 ++ [x]) (hl.lt_tablelen mapHash_lt hi)
          rw [heq] at this
          simp only [List.length_append, List.length_cons, List.length_nil] at this
          omega
        rintro y ⟨b, hb⟩
        by_cases hbi : b = i
        · subst hbi
          rw [update_self] at hb
          refine ⟨b, ?_⟩
          rw [heq]
          simp only [List.mem_append, List.mem_singleton] at hb
          rcases hb with hb | rfl
          · simp [hb]
          · simp
        · rw [update_of_ne hbi] at hb
          exact ⟨b, hb⟩
      · exact ⟨chains, hl.entryInit hx id, ht, fun _ hy => hy⟩
    refine ⟨fun _ => hnot, hlt, ⟨rfl, rfl, rfl, rfl, rfl, rfl, hcar⟩,
      ⟨chains', hl', ht', halloc.1, fun y hy => halloc.2 y (hsub y hy)⟩, le_rfl, fun y _ =>
        congrFun hkeys y,
      hinfo, update_self _ _ _, fun id' y hy => ?_⟩
    obtain ⟨hy, hid⟩ := (getStreamRaw_eq_some_iff (s := s.initStream x id w st) hl' ht').1 hy
    have hold : s.streams.key y = id' := (congrFun hkeys y).symm.trans hid
    by_cases hyx : y = x
    · subst hyx
      exact .inr ⟨hold.symm.trans hkey, rfl⟩
    · exact .inl ⟨(getStreamRaw_eq_some_iff hl ht).2 ⟨hsub y hy, hold⟩, hyx⟩
  | none =>
    unfold placeStream at hres
    dsimp only at hres
    split_ifs at hres with hok
    cases hres
    have hfresh : ¬ Holds chains s.tree.allocated := fun hx => lt_irrefl _ (halloc.2 _ hx).2
    have hl1 : Linked mapHash (s.streams.entryInit s.tree.allocated id) chains :=
      hl.entryInit hfresh id
    have hne := key_ne_of_insert hl1 ht hok
    obtain ⟨-, chains', hl', hholds, htot, hk⟩ := hl1.insert mapHash_lt ht hne
      (update_self _ _ _)
    have hkey : ∀ y, y ≠ s.tree.allocated →
        ((s.streams.entryInit s.tree.allocated id).insert mapHash s.tree.allocated).1.key y =
          s.streams.key y := fun y hy => by
      rw [hk]
      exact update_of_ne hy _ _
    have hkeyx : ((s.streams.entryInit s.tree.allocated id).insert mapHash s.tree.allocated).1.key
        s.tree.allocated = id := by
      rw [hk]
      exact update_self _ _ _
    have hle : total ((s.streams.entryInit s.tree.allocated id).insert mapHash
        s.tree.allocated).1.tablelen chains' ≤
        ((s.streams.entryInit s.tree.allocated id).insert mapHash s.tree.allocated).1.size := by
      have : total (s.streams.entryInit s.tree.allocated id).tablelen chains ≤
        (s.streams.entryInit s.tree.allocated id).size := ht
      omega
    refine ⟨fun hx => absurd hx (lt_irrefl _), Nat.lt_succ_self _,
      ⟨rfl, rfl, rfl, rfl, rfl, rfl, hcar⟩,
      ⟨chains', hl', hle, halloc.1.trans (Nat.lt_succ_self _), fun y hy => ?_⟩, Nat.le_succ _,
      fun y hy => hkey y hy.ne, hinfo, update_self _ _ _, fun id' y hy => ?_⟩
    · rcases (hholds y).1 hy with hy | rfl
      · exact ⟨(halloc.2 y hy).1, (halloc.2 y hy).2.trans (Nat.lt_succ_self _)⟩
      · exact ⟨halloc.1, Nat.lt_succ_self _⟩
    · obtain ⟨hy, hid⟩ := (find_eq_some_iff mapHash_lt hl' hle).1 hy
      rcases (hholds y).1 hy with hy | rfl
      · have hyx : y ≠ s.tree.allocated := fun hyx => hfresh (hyx ▸ hy)
        exact .inl ⟨(getStreamRaw_eq_some_iff hl ht).2 ⟨hy, (hkey y hyx).symm.trans hid⟩, hyx⟩
      · exact .inr ⟨hid.symm.trans hkeyx, rfl⟩

/-- **Counting or listing** a stream that has been entered. -/
theorem listStream_opens (h : s.Tabled)
    (hr : ∀ x, r = some x → x < s.tree.allocated ∧ s.streams.key x = id ∧ (s.info x).state = .idle)
    (hres : s.listStream r id w st = .ok (s', x)) : Opens s s' id st x := by
  obtain ⟨⟨s1, x1⟩, hplace, hres⟩ := bind_eq_ok.1 hres
  obtain ⟨s2, hcount, hres⟩ := bind_eq_ok.1 hres
  cases hres
  obtain ⟨hfresh, hlt, hframe, htab, halloc, hkey, hinfo, hinfox, hraw⟩ :=
    placeStream_opens h hr hplace
  -- a state that differs from `s1` in counters and in the fields of `x` only
  have hopen : ∀ s2 : Session, SameFrame s1 s2 → s2.streams = s1.streams → s2.tree = s1.tree →
      (∀ y, y ≠ x → s2.info y = s1.info y) → s2.info x = s.openedInfo id st →
      Opens s s2 id st x := by
    intro s2 hframe2 hstreams htree hinfo2 hinfox2
    refine ⟨hframe.trans hframe2, htab.of_streams hstreams (congrArg _ htree), htree ▸ halloc,
      fun y hy => hstreams ▸ hkey y hy, hfresh,
      ⟨htree ▸ hlt, by rw [hinfox2]; rfl⟩, fun y _ hyx => .inl ((hinfo2 y hyx).trans (hinfo y hyx)),
      fun id' y hy => ?_, fun id' y hy _ => ?_⟩
    · rw [getStream_eq_some_iff, getStreamRaw, hstreams] at hy
      rcases hraw id' y hy.1 with ⟨hold, hyx⟩ | ⟨hid, rfl⟩
      · have hsame : s2.info y = s.info y := (hinfo2 y hyx).trans (hinfo y hyx)
        rw [hsame] at hy
        exact .inl ⟨getStream_eq_some_iff.2 ⟨hold, hy.2⟩, hsame, hyx⟩
      · exact .inr ⟨hid, rfl, hinfox2⟩
    · rw [getStreamRaw, hstreams] at hy
      rcases hraw id' y hy with ⟨hold, hyx⟩ | ⟨hid, rfl⟩
      · exact .inl ⟨hold, (hinfo2 y hyx).trans (hinfo y hyx), hyx⟩
      · exact .inr ⟨hid, rfl⟩
  have hplain : ∀ s2 : Session, SameFrame s1 s2 → s2.streams = s1.streams → s2.tree = s1.tree →
      s2.info = s1.info → st ≠ .reserved → Opens s s2 id st x := by
    intro s2 hframe2 hstreams htree hinfo2 hst
    refine hopen s2 hframe2 hstreams htree (fun y _ => by rw [hinfo2]) ?_
    rw [hinfo2, hinfox]
    simp [Session.openedInfo, hst]
  have hmy := hframe.isMyStreamId id
  cases st with
  | reserved =>
    simp only [countStream] at hcount
    split_ifs at hcount with hmine
    all_goals
      cases hcount
      refine hopen _ ⟨rfl, rfl, rfl, rfl, rfl, rfl, fun _ _ h => h⟩ rfl rfl
        (fun y hy => update_of_ne hy _ _) ?_
      refine (update_self _ _ _).trans ?_
      rw [hinfox]
      simp [Session.openedInfo, ← hmy, hmine]
  | idle =>
    simp only [countStream] at hcount
    split_ifs at hcount
    have h1 := hplain s1 (SameFrame.refl s1) rfl rfl rfl (by simp)
    exact h1.trims_right (keepIdleStream_trims h1.tabled hcount)
  | initial | opening | opened | closing =>
    simp only [countStream] at hcount
    split_ifs at hcount
    all_goals
      cases hcount
      exact hplain _ ⟨rfl, rfl, rfl, rfl, rfl, rfl, fun _ _ h => h⟩ rfl rfl rfl (by simp)

theorem attachStream_eq (exclusive : Bool) (t : StreamTree) (d x : Ptr) :
    (attachStream exclusive t d x).allocated = t.allocated ∧
      (attachStream exclusive t d x).pending = t.pending := by
  unfold attachStream
  split_ifs
  · exact ⟨streamDepInsert_allocated t d x, streamDepInsert_pending t d x⟩
  · exact ⟨rfl, streamDepAdd_pending t d x⟩

theorem linkStream_trims {exclusive : Bool} (h : s.Tabled)
    (hres : s.linkStream x d exclusive = .ok s') : Trims s s' := by
  rcases linkStream_cases hres with rfl | rfl
  · exact Trims.refl h
  · obtain ⟨halloc, hpend⟩ := attachStream_eq exclusive s.tree d x
    exact Trims.of_same h ⟨rfl, rfl, rfl, rfl, rfl, rfl, carried_of_pending hpend⟩ rfl halloc rfl

/-- What is known about the object that `reuseStream` returns, also after more streams have
been lost. -/
theorem reused_facts (h : s.Tabled)
    (hr : ∀ x, r = some x → s.getStreamRaw id = some x ∧ (s.info x).state = .idle)
    (htrim : Trims s s1) : ∀ x, r = some x → x < s1.tree.allocated ∧ s1.streams.key x = id ∧
      (s1.info x).state = .idle := by
  intro x hx
  obtain ⟨hraw, hidle⟩ := hr x hx
  obtain ⟨hkey, hlt⟩ := h.of_getStreamRaw hraw
  refine ⟨hlt.trans_le htrim.allocated, (htrim.key x hlt).trans hkey, ?_⟩
  rcases htrim.info x hlt with hinfo | hinfo
  · rw [hinfo]
    exact hidle
  · exact hinfo.2

/-- **An idle stream is created** as a dependency. -/
theorem openAnchor_trims (h : s.Tabled) (hres : s.openAnchor id = .ok (s', x)) : Trims s s' := by
  obtain ⟨⟨s1, r⟩, hreuse, hres⟩ := bind_eq_ok.1 hres
  obtain ⟨⟨s2, x2⟩, hlist, hres⟩ := bind_eq_ok.1 hres
  obtain ⟨s3, hlink, hres⟩ := bind_eq_ok.1 hres
  cases hres
  obtain ⟨h1, hr⟩ := reuseStream_trims h hreuse
  have h2 := (listStream_opens h1.tabled (reused_facts h hr h1) hlist).trims
  exact (h1.trans h2).trans (linkStream_trims h2.tabled hlink)

/-- **The dependency of a stream** is found or created. -/
theorem resolveDep_trims {pri' : PrioritySpec} (h : s.Tabled)
    (hres : s.resolveDep pri = .ok (s', d, pri')) : Trims s s' := by
  rcases resolveDep_cases hres with ⟨-, hanchor, -⟩ | ⟨-, rfl, -⟩
  · exact openAnchor_trims h hanchor
  · exact Trims.refl h

/-- The parts of `nghttp2_session_open_stream`. -/
theorem openStream_eq_ok (hres : s.openStream id pri st = .ok (s', x)) :
    ∃ s1 s2 s3 r d pri', s.reuseStream id st = .ok (s1, r) ∧
      s1.resolveDep pri = .ok (s2, d, pri') ∧ s.prepareStream id pri st = .ok (s2, r, d, pri') ∧
      s2.listStream r id pri'.weight st = .ok (s3, x) ∧
      s3.linkStream x d pri'.exclusive = .ok s' := by
  obtain ⟨⟨s3, x3, d, exclusive⟩, henter, hres⟩ := bind_eq_ok.1 hres
  obtain ⟨s4, hlink, hres⟩ := bind_eq_ok.1 hres
  cases hres
  obtain ⟨⟨s2, r, d2, pri2⟩, hprep, hres⟩ := bind_eq_ok.1 henter
  obtain ⟨⟨s5, x5⟩, hlist, hres⟩ := bind_eq_ok.1 hres
  cases hres
  obtain ⟨⟨s1, r1⟩, hreuse, hres⟩ := bind_eq_ok.1 hprep
  obtain ⟨⟨s6, d6, pri6⟩, hdep, hres⟩ := bind_eq_ok.1 hres
  cases hres
  exact ⟨s1, s2, s3, r, d, pri2, hreuse, hdep, hprep, hlist, hlink⟩

/-- **`nghttp2_session_open_stream`.** -/
theorem openStream_opens (h : s.Tabled)
    (hres : s.openStream id pri st = .ok (s', x)) : Opens s s' id st x := by
  obtain ⟨s1, s2, s3, r, d, pri', hreuse, hdep, -, hlist, hlink⟩ := openStream_eq_ok hres
  obtain ⟨h1, hr⟩ := reuseStream_trims h hreuse
  have h2 : Trims s s2 := h1.trans (resolveDep_trims h1.tabled hdep)
  have h3 := listStream_opens h2.tabled (reused_facts h hr h2) hlist
  exact (h2.opens h3).trims_right (linkStream_trims h3.tabled hlink)

/-! ## Reprioritising and closing -/

theorem moveBelow_eq
    (h : moveBelow t x d pri = .ok t') : t'.allocated = t.allocated ∧ t'.pending = t.pending := by
  obtain ⟨t1, hbreak, h⟩ := bind_eq_ok.1 h
  have h1 : t1.allocated = t.allocated ∧ t1.pending = t.pending := by
    unfold breakCycle at hbreak
    split_ifs at hbreak
    · cases hrem : streamDepRemoveSubtree t d with
      | none =>
        rw [hrem] at hbreak
        cases hbreak
      | some t2 =>
        rw [hrem] at hbreak
        cases hbreak
        have h2 : t2.allocated = t.allocated := streamDepRemoveSubtree_allocated hrem
        exact ⟨h2, (streamDepAddSubtree_pending ..).trans (streamDepRemoveSubtree_pending hrem)⟩
    · cases hbreak
      exact ⟨rfl, rfl⟩
  cases hrem : streamDepRemoveSubtree t1 x with
  | none =>
    rw [hrem] at h
    cases h
  | some t2 =>
    rw [hrem] at h
    cases h
    have hattach : ∀ t, (attachSubtree pri.exclusive t d x).allocated = t.allocated ∧
        (attachSubtree pri.exclusive t d x).pending = t.pending := by
      intro t
      unfold attachSubtree
      split_ifs
      · exact ⟨streamDepInsertSubtree_allocated t d x, streamDepInsertSubtree_pending t d x⟩
      · exact ⟨rfl, streamDepAddSubtree_pending t d x⟩
    obtain ⟨halloc, hpend⟩ := hattach (t2.setWeight x pri.weight)
    exact ⟨halloc.trans ((streamDepRemoveSubtree_allocated hrem).trans h1.1),
      hpend.trans ((streamDepRemoveSubtree_pending hrem).trans h1.2)⟩

/-- **`nghttp2_session_reprioritize_stream`.** -/
theorem reprioritizeStream_trims (h : s.Tabled)
    (hres : s.reprioritizeStream x pri = .ok s') : Trims s s' := by
  rcases reprioritizeStream_cases hres with rfl | ⟨s1, d, pri', t, hdep, hmove, rfl⟩
  · exact Trims.refl h
  · have h1 := resolveDep_trims h hdep
    obtain ⟨halloc, hpend⟩ := moveBelow_eq hmove
    exact h1.trans (Trims.of_same h1.tabled
      ⟨rfl, rfl, rfl, rfl, rfl, rfl, carried_of_pending hpend⟩ rfl halloc rfl)

/-- The stream `x` cannot be found any more, and others are lost at most. -/
structure Closes (s s' : Session) (x : Ptr) : Prop extends SameFrame s s' where
  tabled : s'.Tabled
  entry : ∀ ⦃id y⦄, s'.getStream id = some y →
    s.getStream id = some y ∧ s'.info y = s.info y ∧ y ≠ x
  raw : ∀ ⦃id y⦄, s'.getStreamRaw id = some y → (s'.info y).state ≠ .idle →
    s.getStreamRaw id = some y ∧ (s'.info y).state = (s.info y).state

/-- **The end of `nghttp2_session_close_stream`.** -/
theorem finishClose_closes (h : s.Tabled) (hres : s.finishClose x id = .ok s') : Closes s s' x := by
  set s1 := (s.uncountStream x id).modifyInfo x fun i => { i with closed := true } with hs1
  have hcounted : (s.uncountStream x id).streams = s.streams ∧
      (s.uncountStream x id).tree = s.tree ∧ (s.uncountStream x id).info = s.info ∧
      SameFrame s (s.uncountStream x id) := by
    unfold uncountStream
    split_ifs
    all_goals exact ⟨rfl, rfl, rfl, ⟨rfl, rfl, rfl, rfl, rfl, rfl, fun _ _ h => h⟩⟩
  obtain ⟨hstreams, htree, hinfo, hframe⟩ := hcounted
  have hne : ∀ y, y ≠ x → s1.info y = s.info y := fun y hy => by
    rw [hs1, modifyInfo, hinfo]
    exact update_of_ne hy _ _
  have hclosed : (s1.info x).closed = true := by
    simp [hs1, modifyInfo]
  have hnot : ∀ id', s1.getStream id' ≠ some x := fun id' hx => by
    have := (getStream_eq_some_iff.1 hx).2.1
    simp [hclosed] at this
  have hraw : ∀ id', s1.getStreamRaw id' = s.getStreamRaw id' := fun id' => by
    rw [getStreamRaw, getStreamRaw, hs1, modifyInfo, hstreams]
  have htab : s1.Tabled := h.of_streams hstreams (congrArg _ htree)
  have h2 : Trims s1 s' := by
    unfold finishClose at hres
    dsimp only at hres
    split_ifs at hres
    · exact keepClosedStream_trims htab hres
    · exact destroyStream_trims htab hres
  have hframe1 : SameFrame s s1 := ⟨hframe.server, hframe.items, hframe.lastRecvStreamId,
    hframe.nextStreamId, hframe.unsent, hframe.goawaySent, hframe.carried⟩
  refine ⟨hframe1.trans h2.toSameFrame, h2.tabled, fun id' y hy => ?_, fun id' y hy hidle => ?_⟩
  · obtain ⟨hy, hinfo'⟩ := h2.entry hy
    have hyx : y ≠ x := fun hyx => hnot id' (hyx ▸ hy)
    rw [getStream_eq_some_iff, hraw, hne y hyx, ← getStream_eq_some_iff] at hy
    exact ⟨hy, hinfo'.trans (hne y hyx), hyx⟩
  · obtain ⟨hy, hinfo'⟩ := h2.raw hy hidle
    refine ⟨hraw id' ▸ hy, ?_⟩
    rw [hinfo']
    rcases eq_or_ne y x with rfl | hyx
    · simp [hs1, modifyInfo, hinfo]
    · rw [hne y hyx]

/-! ## Events -/

/-- An event that opens a stream, and is not the upgrade from HTTP/1.1. -/
theorem step_opens {e : Event} {c : OpenCall} (hc : s.openCall e = some c) (he : e ≠ .upgrade)
    (htab : c.session.Tabled) (hres : s.step e = .ok s') :
    ∃ x, Opens c.session s' c.id c.initialState x := by
  obtain ⟨r, hopen, hs'⟩ := openStream_of_step hc hres
  refine ⟨r.2, ?_⟩
  have hs' : s' = r.1 := by
    cases e with
    | upgrade => exact absurd rfl he
    | _ => exact hs'
  rw [hs']
  exact openStream_opens htab hopen

end Session

end Nghttp2
