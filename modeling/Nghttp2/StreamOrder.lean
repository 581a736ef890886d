/-
# The frames of one stream

Which HEADERS, DATA and PUSH_PROMISE frames are written on a stream, and in which order.

* `WellFormed` is what a sequence of frames should satisfy: DATA comes after HEADERS of its
  stream, and nothing comes after END_STREAM or RST_STREAM;
* `InOrder` is the invariant of the sending side that keeps it: what was written on a stream
  shows in the fields of the stream as long as it can be found, and a stream on which
  something was written is not opened again;
* RST_STREAM that is sent for an idle stream breaks the last point, and nothing else does.
-/
import Nghttp2.OutboundRuns
import Nghttp2.WireRuns

namespace Nghttp2

/-! ## Well-formed sequences of frames -/

namespace WireFrame

/-- The stream of a HEADERS, DATA or PUSH_PROMISE frame. -/
def carries : WireFrame → Option ℕ
  | .data id _ => some id
  | .headers id _ _ => some id
  | .pushPromise id _ => some id
  | _ => none

/-- The stream that END_STREAM ends. -/
def closes : WireFrame → Option ℕ
  | .data id endStream => if endStream then some id else none
  | .headers id _ endStream => if endStream then some id else none
  | _ => none

/-- The stream on which nothing may follow. -/
def ends : WireFrame → Option ℕ
  | .rstStream id => some id
  | f => f.closes

/-- END_STREAM ends the stream. -/
theorem ends_of_closes {f : WireFrame} {id : ℕ} (h : f.closes = some id) : f.ends = some id := by
  cases f with
  | rstStream => cases h
  | _ => exact h

/-- END_STREAM comes with a frame of the stream. -/
theorem carries_of_closes {f : WireFrame} {id : ℕ} (h : f.closes = some id) :
    f.carries = some id := by
  cases f with
  | data _ e | headers _ _ e =>
    cases e with
    | false => cases h
    | true => exact h
  | _ => cases h

/-- A frame on a stream ends no other stream. -/
theorem eq_of_carries {f : WireFrame} {id id' : ℕ} (h : f.carries = some id)
    (h' : f.carries = some id' ∨ f.ends = some id') : id' = id := by
  have hcar : f.carries = some id' := h'.elim (·) fun hend => by
    cases f with
    | rstStream => cases h
    | _ => exact carries_of_closes hend
  exact Option.some.inj (hcar.symm.trans h)

end WireFrame

open WireFrame (carries_of_closes ends_of_closes eq_of_carries)

/-- Some HEADERS of the stream are among the frames. -/
def HasHeaders (l : List WireFrame) (id : ℕ) : Prop :=
  ∃ request endStream, .headers id request endStream ∈ l

/-- More frames. -/
theorem HasHeaders.mono {l l' : List WireFrame} {id : ℕ} (h : HasHeaders l id) (hl : l ⊆ l') :
    HasHeaders l' id := by
  obtain ⟨request, endStream, hmem⟩ := h
  exact ⟨request, endStream, hl hmem⟩

/-- A place in a list that has grown by one entry is the last one, or was there before. -/
theorem split_concat {α : Type*} {l l1 l2 : List α} {f g : α} (h : l ++ [f] = l1 ++ g :: l2) :
    (l1 = l ∧ g = f) ∨ ∃ l3, l = l1 ++ g :: l3 := by
  rcases List.eq_nil_or_concat l2 with rfl | ⟨l3, y, rfl⟩
  · obtain ⟨hl, hf⟩ := List.append_inj' h rfl
    exact .inl ⟨hl.symm, (List.singleton_inj.1 hf).symm⟩
  · rw [List.concat_eq_append, ← List.cons_append, ← List.append_assoc] at h
    exact .inr ⟨l3, (List.append_inj' h rfl).1⟩

/-- **The frames of every stream are well formed.** -/
structure WellFormed (l : List WireFrame) : Prop where
  /-- DATA comes after HEADERS of its stream. -/
  data : ∀ l₁ id endStream l₂, l = l₁ ++ .data id endStream :: l₂ → HasHeaders l₁ id
  /-- Nothing comes after END_STREAM or RST_STREAM. -/
  ended : l.Pairwise fun f g => ∀ id, f.ends = some id → g.carries ≠ some id

namespace WellFormed

variable {l l' : List WireFrame} {f : WireFrame}

/-- No frames. -/
theorem nil : WellFormed [] := ⟨fun l1 _ _ _ h => by simp at h, List.Pairwise.nil⟩

/-- At most one frame of a stream has END_STREAM. -/
theorem closes_once (h : WellFormed l) : l.Pairwise fun f g => ∀ id, f.closes = some id →
    g.closes ≠ some id := by
  exact h.ended.imp fun hfg id hf hg => hfg id (ends_of_closes hf) (carries_of_closes hg)

/-- The frames up to some place. -/
theorem of_append (h : WellFormed (l ++ l')) : WellFormed l where
  data l1 id e l2 hl := h.data l1 id e (l2 ++ l') (by rw [hl]; simp)
  ended := (List.pairwise_append.1 h.ended).1

/-- One more frame. -/
theorem snoc (h : WellFormed l) (hdata : ∀ id e, f = .data id e → HasHeaders l id)
    (hend : ∀ g ∈ l, ∀ id, g.ends = some id → f.carries ≠ some id) : WellFormed (l ++ [f]) where
  data l1 id e l2 hl := by
    rcases split_concat hl with ⟨rfl, hf⟩ | ⟨l3, hl⟩
    · exact hdata id e hf.symm
    · exact h.data l1 id e l3 hl
  ended := List.pairwise_append.2 ⟨h.ended, List.pairwise_singleton _ _, fun g hg f' hf' => by
    rw [List.mem_singleton.1 hf']
    exact hend g hg⟩

/-- DATA comes with HEADERS. -/
theorem hasHeaders {id : ℕ} {e : Bool} (h : WellFormed l) (hmem : .data id e ∈ l) :
    HasHeaders l id := by
  obtain ⟨l1, l2, hl⟩ := List.append_of_mem hmem
  refine (h.data l1 id e l2 hl).mono ?_
  rw [hl]
  exact List.subset_append_left ..

end WellFormed

/-! ## Stream ids -/

namespace Outbound

variable {o o' o1 o2 : Outbound} {i : ItemPtr} {id : ℕ}

/-- The stream id has been used: an own id by a frame that was popped, one of the peer by a
frame that was received. -/
abbrev Used (o : Outbound) (id : ℕ) : Prop := o.session.Used id

/-- The stream is not idle and will not be opened any more: no request and no promise that
waits is going to open it. -/
def Spent (o : Outbound) (id : ℕ) : Prop :=
  if o.session.isMyStreamId id then id < o.session.nextStreamId ∧
    ∀ j ∈ o.obReg ++ o.obSyn, (o.item j).opens = some id → (o.item j).canceled = true
  else id ≤ o.session.lastRecvStreamId

variable {opened : Option (ℕ × StreamState)} {it : OutboundItem} {x : Ptr} {s : Session}
  {ev : Session.Event} {a b : StreamInfo} {n n' : ℕ}

/-- Whose id it is depends on the side only. -/
theorem isMyStreamId_congr {s' : Session} (h : s'.server = s.server) (id : ℕ) :
    s'.isMyStreamId id = s.isMyStreamId id := by
  rw [Session.isMyStreamId, Session.isMyStreamId, h]

/-- Nothing waits for an id that has been used. -/
theorem Used.spent (h : o.Used id) (hf : o.Filed) : o.Spent id := by
  exact Session.taken_mono rfl le_rfl le_rfl
    (fun _ hnot j hj hid => absurd (hf.asks j hj id hid) hnot) h

/-- Ids that are taken are new. -/
theorem Takes.notMem {l l' : List ℕ} (h : Takes n n' l l') (hid : id ∉ l) (hlt : id < n) :
    id ∉ l' := by
  obtain ⟨-, ⟨new, rfl, hnew⟩, -⟩ := h
  intro hmem
  rcases List.mem_append.1 hmem with hmem | hmem
  · exact hid hmem
  · exact absurd (hnew id hmem).1 (not_le.2 hlt)

/-- Used ids stay used. -/
theorem Keeps.used (h : Keeps o o') (hu : o.Used id) : o'.Used id := by
  exact Session.taken_mono h.server h.takes.1 h.lastRecvStreamId.ge
    (fun hlt hnot => h.takes.notMem hnot hlt) hu

/-- Where an item in a queue comes from. -/
theorem mem_of_appends {r r' s s' : List ItemPtr} {j : ItemPtr} (hr : Appends n n' r r')
    (hs : Appends n n' s s') (hj : j ∈ r' ++ s') : j ∈ r ++ s ∨ (n ≤ j ∧ j < n') := by
  obtain ⟨a, rfl, ha⟩ := hr
  obtain ⟨b, rfl, hb⟩ := hs
  simp only [List.mem_append] at hj ⊢
  rcases hj with (hj | hj) | (hj | hj)
  · exact .inl (.inl hj)
  · exact .inr (ha j hj)
  · exact .inl (.inr hj)
  · exact .inr (hb j hj)

/-- A stream stays spent if the items that wait for it are only cancelled. -/
theorem Lengthens.spent (h : Lengthens o o')
    (hnext : o.session.nextStreamId ≤ o'.session.nextStreamId)
    (hitem : ∀ j ∈ o.obReg ++ o.obSyn, (o'.item j).opens = some id →
      Cancels (o.item j) (o'.item j))
    (hs : o.Spent id) : o'.Spent id := by
  refine Session.taken_mono h.server hnext h.lastRecvStreamId.ge (fun hlt hc j hj hid => ?_) hs
  rcases mem_of_appends h.reg h.syn hj with hj | ⟨hge, hnew⟩
  · have hcancel := hitem j hj hid
    exact hcancel.canceled (hc j hj (hcancel.alike.opens ▸ hid))
  · exact absurd (h.numbered j hge hnew id hid) (not_le.2 hlt)

/-- Spent ids stay spent. -/
theorem Keeps.spent (h : Keeps o o') (hf : o.Filed) (hs : o.Spent id) : o'.Spent id :=
  h.toLengthens.spent h.takes.1 (fun j hj _ => h.item j (hf.lt hj)) hs

/-- An item leaves its queue. -/
theorem Popped.spent (h : Popped o o1 i) (hs : o.Spent id) : o1.Spent id := by
  obtain ⟨-, hreg, hsyn⟩ := h.sublist
  refine Session.taken_mono h.sameIds.server h.sameIds.nextStreamId.ge h.sameIds.lastRecv.ge
    (fun _ hc j hj => ?_) hs
  rw [h.item]
  exact hc j ((hreg.append hsyn).subset hj)

/-- The ids do not change. -/
theorem Popped.used (h : Popped o o1 i) : o1.Used id ↔ o.Used id := h.sameIds.used id

/-- Opening a stream adds no id. -/
theorem mem_unsent_of_unsentAfter (h : id ∈ unsentAfter o opened) : id ∈ o.session.unsent := by
  unfold unsentAfter at h
  split at h
  · exact h
  · exact List.mem_of_mem_erase h

/-- Used ids stay used. -/
theorem Prepares.used (h : Prepares o o' i opened) (hu : o.Used id) : o'.Used id := by
  exact Session.taken_mono h.server h.takes.1 h.lastRecvStreamId.ge
    (fun hlt hnot => h.takes.notMem (fun hmem => hnot (mem_unsent_of_unsentAfter hmem)) hlt) hu

/-- The id of the stream that is opened. -/
theorem Prepares.used_opened {st : StreamState} (h : Prepares o o' i (some (id, st)))
    (hf : o.Filed) : o'.Used id := by
  have hmem := h.mem id st rfl
  have hlt := hf.unsent_lt id hmem
  refine (Session.used_own_iff ?_).2
    ⟨hlt.trans_le h.takes.1, h.takes.notMem (hf.unsent_nodup.not_mem_erase) hlt⟩
  rw [isMyStreamId_congr h.server, hf.unsent_mine id hmem]

/-- `hother`: no other item opens the stream that the prepared item opens. -/
theorem Prepares.spent (h : Prepares o o' i opened)
    (hf : o.Filed) (hother : ∀ id, (o.item i).opens = some id →
      ∀ j ∈ o.obReg ++ o.obSyn, (o.item j).opens ≠ some id)
    (hs : o.Spent id) : o'.Spent id := by
  refine h.toLengthens.spent h.takes.1 (fun j hj hid => h.item j (hf.lt hj) ?_) hs
  rintro rfl
  rw [h.self.opens] at hid
  exact hother id hid j hj hid

/-- So they do when frames come in. -/
theorem outside_used (h : Session.Outside o.session s ev)
    (hu : o.Used id) : s.Used id :=
  Session.taken_mono h.server h.nextStreamId h.lastRecvStreamId (fun _ => h.unsent ▸ (·)) hu

/-- So they do when frames come in. -/
theorem outside_spent (h : Session.Outside o.session s ev)
    (hs : o.Spent id) : Spent { o with session := s } id :=
  Session.taken_mono h.server h.nextStreamId h.lastRecvStreamId (fun _ => (·)) hs

/-- The streams that can be found have used ids. -/
def FoundUsed (o : Outbound) : Prop := ∀ ⦃id x⦄, o.session.getStream id = some x → o.Used id

/-- No stream is new. -/
theorem Keeps.foundUsed (h : Keeps o o') (hu : o.FoundUsed)
    (hget : ∀ ⦃id x⦄, o'.session.getStream id = some x → o.session.getStream id = some x) :
    o'.FoundUsed := fun _ _ hx => h.used (hu (hget hx))

/-- No stream is new. -/
theorem Popped.foundUsed (h : Popped o o1 i) (hu : o.FoundUsed) : o1.FoundUsed :=
  fun id _ hx => h.used.2 (hu (h.getStream id ▸ hx))

/-- A stream may be opened. -/
theorem Prepares.foundUsed (h : Prepares o o' i opened)
    (hf : o.Filed) (hu : o.FoundUsed) : o'.FoundUsed := by
  intro id x hx
  rcases h.entry hx with ⟨hget, -⟩ | ⟨st, rfl, -⟩
  · exact h.used (hu hget)
  · exact h.used_opened hf

/-- The peer may open a stream. -/
theorem outside_foundUsed (h : Session.Outside o.session s ev) (hf : o.Filed) (hu : o.FoundUsed) :
    FoundUsed { o with session := s } := by
  intro id x hx
  rcases h.entry hx with ⟨hget, -⟩ | harr
  · exact outside_used h (hu hget)
  have hserver := isMyStreamId_congr h.server id
  rcases harr with ⟨hmine, -, hle, -⟩ | ⟨hmine, hge, hlt, -⟩
  · exact (Session.used_peer_iff (hserver.trans hmine)).2 hle
  · exact (Session.used_own_iff (hserver.trans hmine)).2
      ⟨hlt, fun hmem => absurd (hf.unsent_lt id (h.unsent ▸ hmem)) (not_lt.2 hge)⟩

/-! ## What the streams show of the frames -/

/-- DATA may be sent on the stream: `nghttp2_session_predicate_data_send`. -/
def Sendable (o : Outbound) (id : ℕ) (info : StreamInfo) : Prop :=
  info.shutWr = false ∧
    if o.session.isMyStreamId id then info.state ≠ .closing ∧ info.state ≠ .reserved
    else info.state = .opened

/-- The streams that can be found show what was written on them: `W` are the frames that have
been written, `L` those that have been committed to.  The stream `opening` is just being
opened. -/
structure Shows (o : Outbound) (W L : List WireFrame) (opening : Option ℕ) : Prop where
  used : o.FoundUsed
  spent : ∀ f ∈ L, ∀ id, f.carries = some id ∨ f.ends = some id → o.Spent id
  shut : ∀ f ∈ W, ∀ ⦃id x⦄, f.closes = some id → o.session.getStream id = some x →
    opening ≠ some id → (o.session.info x).shutWr = true
  reset : ∀ id, .rstStream id ∈ W → opening ≠ some id → o.session.getStream id = none
  headed : ∀ ⦃id x⦄, o.session.getStream id = some x → o.Sendable id (o.session.info x) →
    opening ≠ some id → HasHeaders L id
  push : ∀ ⦃id x⦄, o.session.getStream id = some x → o.session.isMyStreamId id = false →
    (o.session.info x).push = true → (o.session.info x).shutWr = true

variable {W L : List WireFrame} {opening : Option ℕ}

/-- A reset makes no stream sendable. -/
theorem MayClose.sendable (h : MayClose a b) (hserver : o'.session.server = o.session.server)
    (hb : o'.Sendable id b) : o.Sendable id a := by
  unfold Sendable at hb ⊢
  rw [isMyStreamId_congr hserver] at hb
  rcases h with rfl | rfl
  · exact hb
  · refine ⟨hb.1, ?_⟩
    obtain ⟨-, hb⟩ := hb
    split_ifs at hb ⊢
    exact absurd rfl hb.1

/-- A stream that was shut down still is, and one that is a promise was one. -/
def Shown (a b : StreamInfo) : Prop :=
  (a.shutWr = true → b.shutWr = true) ∧ (b.push = true → a.push = true)

/-- A reset keeps the flags. -/
theorem MayClose.shown (h : MayClose a b) : Shown a b := by
  rcases h with rfl | rfl
  · exact ⟨id, id⟩
  · exact ⟨id, id⟩

/-- What the streams show stays when each stream that can be found was there, is the one being
opened, or is new; a stream that may send DATA now could before, or has had HEADERS. -/
theorem Shows.of_entry {opening' : Option ℕ} (hs : Shows o W L opening) (hused : o'.FoundUsed)
    (hspent : ∀ {id}, o.Spent id → o'.Spent id) (hserver : o'.session.server = o.session.server)
    (hop : ∀ id, opening' ≠ some id → opening ≠ some id)
    (hentry : ∀ ⦃id x⦄, o'.session.getStream id = some x →
      (o.session.getStream id = some x ∧ Shown (o.session.info x) (o'.session.info x) ∧
        (o'.Sendable id (o'.session.info x) → o.Sendable id (o.session.info x) ∨ HasHeaders L id)) ∨
      (opening' = some id ∨
        (∀ f ∈ W, f.ends ≠ some id) ∧ ¬ o'.Sendable id (o'.session.info x)) ∧
      (o.session.isMyStreamId id = false → (o'.session.info x).push = true →
        (o'.session.info x).shutWr = true)) : Shows o' W L opening' where
  used := hused
  spent f hfL id hid := hspent (hs.spent f hfL id hid)
  shut f hfW id x hid hx hne := by
    rcases hentry hx with ⟨hold, hinfo, -⟩ | ⟨hnew | ⟨hnew, -⟩, -⟩
    · exact hinfo.1 (hs.shut f hfW hid hold (hop id hne))
    · exact absurd hnew hne
    · exact absurd (ends_of_closes hid) (hnew f hfW)
  reset id hid hne := by
    rw [Option.eq_none_iff_forall_ne_some]
    intro x hx
    rcases hentry hx with ⟨hold, -⟩ | ⟨hnew | ⟨hnew, -⟩, -⟩
    · cases (hs.reset id hid (hop id hne)).symm.trans hold
    · exact hne hnew
    · exact hnew _ hid rfl
  headed id x hx hsend hne := by
    rcases hentry hx with ⟨hold, -, hmay⟩ | ⟨hnew | ⟨-, hnot⟩, -⟩
    · exact (hmay hsend).elim (hs.headed hold · (hop id hne)) (·)
    · exact absurd hnew hne
    · exact absurd hsend hnot
  push id x hx hmine hpush := by
    rw [isMyStreamId_congr hserver] at hmine
    rcases hentry hx with ⟨hold, hinfo, -⟩ | ⟨-, hshut⟩
    · exact hinfo.1 (hs.push hold hmine (hinfo.2 hpush))
    · exact hshut hmine hpush

/-- Frames are submitted, or streams are closed. -/
theorem Grows.shows (h : Grows o o') (hf : o.Filed) (hs : Shows o W L opening) :
    Shows o' W L opening := by
  refine hs.of_entry (h.toKeeps.foundUsed hs.used fun _ _ hx => (h.entry hx).1)
    (h.toKeeps.spent hf) h.server (fun _ => id) fun id x hx => .inl ?_
  obtain ⟨hold, hinfo⟩ := h.entry hx
  exact ⟨hold, hinfo.shown, fun hsend => .inl (hinfo.sendable h.server hsend)⟩

/-- The active item is done with. -/
theorem Shows.cleared (hs : Shows o W L opening) : Shows o.cleared W L opening := { hs with }

/-- The stream that was being opened is gone. -/
theorem Shows.given_up (hs : Shows o W L opening)
    (hnone : ∀ id, opening = some id → o.session.getStream id = none) : Shows o W L none where
  used := hs.used
  spent := hs.spent
  shut f hf id x hid hx _ := hs.shut f hf hid hx fun hop => by
    cases (hnone id hop).symm.trans hx
  reset id hid _ := by
    by_cases hop : opening = some id
    · exact hnone id hop
    · exact hs.reset id hid hop
  headed id x hx hsend _ := hs.headed hx hsend fun hop => by
    cases (hnone id hop).symm.trans hx
  push := hs.push

/-- An item was popped and prepared. -/
theorem Prepares.shows (h : Prepares o o' i opened)
    (hf : o.Filed) (hother : ∀ id, (o.item i).opens = some id →
      ∀ j ∈ o.obReg ++ o.obSyn, (o.item j).opens ≠ some id)
    (hs : Shows o W L none) : Shows o' W L (opened.map Prod.fst) := by
  refine hs.of_entry (h.foundUsed hf hs.used) (h.spent hf hother) h.server (fun _ _ => nofun)
    fun id x hx => ?_
  rcases h.entry hx with ⟨hold, hinfo⟩ | ⟨st, rfl, -⟩
  · exact .inl ⟨hold, hinfo.shown, fun hsend => .inl (hinfo.sendable h.server hsend)⟩
  · exact .inr ⟨.inl rfl, by simp [hf.unsent_mine id (h.mem id st rfl)]⟩

/-- No stream changes when an item is popped. -/
theorem Popped.shows (h : Popped o o1 i) (hs : Shows o W L none) : Shows o1 W L none := by
  refine hs.of_entry (h.foundUsed hs.used) h.spent h.sameIds.server (fun _ => id) fun id x hx => ?_
  have hinfo : MayClose (o.session.info x) (o1.session.info x) := .inl (congrFun h.info x)
  exact .inl ⟨h.getStream id ▸ hx, hinfo.shown,
    fun hsend => .inl (hinfo.sendable h.sameIds.server hsend)⟩

/-- What the receiving functions do to the states of streams: the response to an own request
opens its stream, and the response on a stream that the peer has promised fulfils it. -/
def Lawful (o : Outbound) : Session.Event → Prop
  | .setState id st => o.session.isMyStreamId id = true ∧ st = .opened ∧
      ∀ x, o.session.getStream id = some x → (o.session.info x).state = .opening
  | .fulfillPush id => o.session.isMyStreamId id = false
  | _ => True

/-- A lawful event lets DATA be sent on no other stream. -/
theorem Touches.sendable (h : Session.Touches ev id a b) (hlaw : o.Lawful ev)
    (hx : o.session.getStream id = some x) (ha : o.session.info x = a)
    (hserver : s.server = o.session.server)
    (hpush : o.session.isMyStreamId id = false → a.push = true → a.shutWr = true)
    (hb : Sendable { o with session := s } id b) : o.Sendable id a := by
  unfold Sendable at hb ⊢
  dsimp only at hb
  rw [isMyStreamId_congr hserver] at hb
  rcases h with rfl | h
  · exact hb
  cases ev with
  | setState id' st =>
    obtain ⟨rfl, rfl⟩ := h
    obtain ⟨hmine, -, hstate⟩ := hlaw
    rw [hmine, if_pos rfl, ← ha, hstate x hx]
    exact ⟨ha.symm ▸ hb.1, nofun, nofun⟩
  | shutdown id' rd wr =>
    subst h
    obtain ⟨hshut, hstate⟩ := hb
    exact ⟨(Bool.or_eq_false_iff.1 hshut).1, hstate⟩
  | fulfillPush id' =>
    obtain ⟨rfl, hp, rfl⟩ := h
    cases hb.1.symm.trans (hpush hlaw hp)
  | _ => exact h.elim

/-- A stream that was shut down still is. -/
theorem Touches.shutWr (h : Session.Touches ev id a b)
    (ha : a.shutWr = true) : b.shutWr = true := by
  rcases h with rfl | h
  · exact ha
  · cases ev with
    | setState => rwa [h.2]
    | shutdown =>
      subst h
      simp [ha]
    | fulfillPush => rwa [h.2.2]
    | _ => exact h.elim

/-- No stream becomes a promise. -/
theorem Touches.push (h : Session.Touches ev id a b) (hb : b.push = true) : a.push = true := by
  rcases h with rfl | h
  · exact hb
  · cases ev with
    | setState => rwa [h.2] at hb
    | shutdown => rwa [h] at hb
    | fulfillPush =>
      rw [h.2.2] at hb
      cases hb
    | _ => exact h.elim

/-- The peer, or an upgrade, opens a stream only with an id that has not been used. -/
theorem not_spent_of_arrives {info : StreamInfo}
    (h : Session.Arrives ev o.session s id info) : ¬ o.Spent id := by
  unfold Spent
  rcases h with ⟨hmine, hlt, -⟩ | ⟨hmine, hle, -⟩
  · rw [hmine]
    exact not_le.2 hlt
  · rw [hmine, if_pos rfl]
    exact fun hs => absurd hs.1 (not_lt.2 hle)

/-- **Events of the stream table.** -/
theorem outside_shows (h : Session.Outside o.session s ev) (hlaw : o.Lawful ev) (hf : o.Filed)
    (hW : W ⊆ L) (hs : Shows o W L none) : Shows { o with session := s } W L none := by
  refine hs.of_entry (outside_foundUsed h hf hs.used) (outside_spent h) h.server (fun _ => (·))
    fun id x hx => ?_
  rcases h.entry hx with ⟨hget, htouch⟩ | harr
  · exact .inl ⟨hget, ⟨Touches.shutWr htouch, Touches.push htouch⟩, fun hsend => .inl
      (Touches.sendable htouch hlaw hget rfl h.server (hs.push hget) hsend)⟩
  refine .inr ⟨.inr ⟨fun f hfW hid =>
    not_spent_of_arrives harr (hs.spent f (hW hfW) _ (.inr hid)), fun hsend => ?_⟩, ?_⟩
  · unfold Sendable at hsend
    dsimp only at hsend
    rw [isMyStreamId_congr h.server] at hsend
    rcases harr with ⟨hmine, -, -, hstate, -⟩ | ⟨hmine, -, -, hshut, -⟩
    · rw [hmine] at hsend
      exact absurd hsend.2 hstate
    · cases hsend.1.symm.trans hshut
  · intro hmine hpush
    rcases harr with ⟨-, -, -, -, hp, -⟩ | ⟨hmine', -⟩
    · exact hp hpush
    · cases hmine.symm.trans hmine'

/-- The stream of the frame that was sent. -/
theorem Sends.shows {frame : Frame} (h : Sends o o' id frame) (hf : o.Filed)
    (hhead : HasHeaders L id) (hs : Shows o W L none) : Shows o' W L none := by
  refine hs.of_entry (h.toKeeps.foundUsed hs.used fun _ _ hx => (h.entry hx).1)
    (h.toKeeps.spent hf) h.server (fun _ _ => nofun) fun id' x hx => .inl ?_
  obtain ⟨hold, ⟨-, hinfo⟩ | ⟨rfl, hmarks⟩⟩ := h.entry hx
  · exact ⟨hold, hinfo.shown, fun hsend => .inl (hinfo.sendable h.server hsend)⟩
  · exact ⟨hold, ⟨fun hshut => hmarks.1 (.inl hshut), hmarks.push⟩, fun _ => .inr hhead⟩

/-- One more frame has been written, and its stream shows it. -/
theorem Shows.written {f : WireFrame} (hs : Shows o W L none)
    (hshut : ∀ id x, f.closes = some id → o.session.getStream id = some x →
      (o.session.info x).shutWr = true)
    (hreset : ∀ id, f = .rstStream id → o.session.getStream id = none) :
    Shows o (W ++ [f]) L none :=
  { hs with
    shut := fun g hg id x hid hx hne => by
      rcases List.mem_append.1 hg with hg | hg
      · exact hs.shut g hg hid hx hne
      · rw [List.mem_singleton.1 hg] at hid
        exact hshut id x hid hx
    reset := fun id hid hne => by
      rcases List.mem_append.1 hid with hid | hid
      · exact hs.reset id hid hne
      · exact hreset id (List.mem_singleton.1 hid).symm }

/-! ## The frame that is being sent -/

/-- END_STREAM, on the wire and in the item. -/
theorem wire_closes (it : OutboundItem) (h : it.wire.closes = some id) :
    id = it.streamId ∧ endsStream it.frame = true := by
  unfold OutboundItem.wire at h
  unfold endsStream
  cases hf : it.frame with
  | data f =>
    simp only [hf, WireFrame.closes] at h
    split_ifs at h with hend
    exact ⟨(Option.some.inj h).symm, hend⟩
  | headers f =>
    simp only [hf, WireFrame.closes] at h
    split_ifs at h with hend
    exact ⟨(Option.some.inj h).symm, hend⟩
  | _ =>
    simp only [hf, WireFrame.closes] at h
    cases h

/-- RST_STREAM, on the wire and in the item. -/
theorem wire_eq_rstStream (h : it.wire = .rstStream id) :
    it.frame = .rstStream ∧ it.streamId = id := by
  unfold OutboundItem.wire at h
  cases hf : it.frame with
  | rstStream =>
    rw [hf] at h
    cases h
    exact ⟨rfl, rfl⟩
  | _ =>
    rw [hf] at h
    cases h

/-- HEADERS of its stream come with every HEADERS and DATA frame. -/
theorem hasHeaders_of_wire (hwf : WellFormed L) (hmem : it.wire ∈ L)
    (hframe : (∃ f, it.frame = .data f) ∨ ∃ f, it.frame = .headers f) :
      HasHeaders L it.streamId := by
  rcases hframe with ⟨f, hf⟩ | ⟨f, hf⟩
  · have hw : it.wire = .data it.streamId f.endStream := by rw [OutboundItem.wire, hf]
    exact hwf.hasHeaders (hw ▸ hmem)
  · have hw : it.wire = .headers it.streamId (f.cat = .request) f.endStream := by
      rw [OutboundItem.wire, hf]
    exact ⟨_, _, hw ▸ hmem⟩

/-- **The active frame is written.** -/
theorem sends_shows {i : ItemPtr} (h : Sends o o' (o.item i).streamId (o.item i).frame)
    (hother : (∀ f, (o.item i).frame ≠ .data f) → (∀ f, (o.item i).frame ≠ .headers f) →
      Grows o o' ∧ ((o.item i).frame = .rstStream →
        o'.session.getStream (o.item i).streamId = none))
    (hf : o.Filed) (hwf : WellFormed L) (hmem : (o.item i).wire ∈ L) (hs : Shows o W L none) :
    Shows o' W L none ∧ Shows o' (W ++ [(o.item i).wire]) L none := by
  by_cases hframe : (∃ f, (o.item i).frame = .data f) ∨ ∃ f, (o.item i).frame = .headers f
  · have h1 := h.shows hf (hasHeaders_of_wire hwf hmem hframe) hs
    refine ⟨h1, h1.written (fun id x hid hx => ?_) fun id hid => ?_⟩
    · obtain ⟨rfl, hend⟩ := wire_closes _ hid
      obtain ⟨-, ⟨hne, -⟩ | ⟨-, hmarks⟩⟩ := h.entry hx
      · exact absurd rfl hne
      · exact hmarks.1 (.inr hend)
    · have hrst := (wire_eq_rstStream hid).1
      rcases hframe with ⟨f, hf⟩ | ⟨f, hf⟩
      · cases hf.symm.trans hrst
      · cases hf.symm.trans hrst
  simp only [not_or, not_exists] at hframe
  obtain ⟨hgrows, hrst⟩ := hother hframe.1 hframe.2
  have h1 := hgrows.shows hf hs
  refine ⟨h1, h1.written (fun id x hid hx => ?_) fun id hid => ?_⟩
  · obtain ⟨-, hend⟩ := wire_closes _ hid
    unfold endsStream at hend
    split at hend
    · next f hf => exact absurd hf (hframe.1 f)
    · next f hf => exact absurd hf (hframe.2 f)
    · cases hend
  · obtain ⟨hfr, rfl⟩ := wire_eq_rstStream hid
    exact hrst hfr

/-! ## The frame that becomes active -/

/-- One more frame is committed to. -/
theorem Shows.commits {f : WireFrame} (hs : Shows o W W opening)
    (hspent : ∀ id, f.carries = some id ∨ f.ends = some id → o.Spent id)
    (hopening : ∀ id, opening = some id → (∀ g ∈ W, g.ends ≠ some id) ∧
      ∀ x, o.session.getStream id = some x → o.Sendable id (o.session.info x) →
        HasHeaders (W ++ [f]) id) : Shows o W (W ++ [f]) none where
  used := hs.used
  spent g hg id hid := by
    rcases List.mem_append.1 hg with hg | hg
    · exact hs.spent g hg id hid
    · exact hspent id (List.mem_singleton.1 hg ▸ hid)
  shut g hg id x hid hx _ := hs.shut g hg hid hx fun hop =>
    (hopening id hop).1 g hg (ends_of_closes hid)
  reset id hid _ := hs.reset id hid fun hop => (hopening id hop).1 _ hid rfl
  headed id x hx hsend _ := by
    by_cases hop : opening = some id
    · exact (hopening id hop).2 x hx hsend
    · exact (hs.headed hx hsend hop).mono (List.subset_append_left ..)
  push := hs.push

/-- The frames that have been written end no stream on which something may be sent. -/
theorem Shows.not_ends (hs : Shows o W L none) (hx : o.session.getStream id = some x)
    (hshut : (o.session.info x).shutWr = false) : ∀ g ∈ W, g.ends ≠ some id := by
  intro g hg hid
  cases g with
  | rstStream id' =>
    cases hid
    cases (hs.reset id hg nofun).symm.trans hx
  | _ => cases hshut.symm.trans (hs.shut _ hg hid hx nofun)

/-- The stream of a request or a promise that has not been cancelled is still to be opened. -/
theorem not_spent_of_opens (hf : o.Filed) (hi : i ∈ o.obReg ++ o.obSyn)
    (hid : (o.item i).opens = some id) (hc : (o.item i).canceled = false) : ¬ o.Spent id := by
  unfold Spent
  rw [hf.unsent_mine id (hf.asks i hi id hid), if_pos rfl]
  exact fun hs => Bool.noConfusion (hc.symm.trans (hs.2 i hi hid))

/-- DATA that is ready may be sent. -/
theorem sendable_of_predicateDataSend (h : o.session.Tabled) (hx : o.session.getStream id = some x)
    (hp : o.predicateDataSend (some x) = none) : o.Sendable id (o.session.info x) := by
  obtain ⟨y, hy, hshut, hcheck⟩ := of_predicateThen hp
  cases hy
  have hkey : o.session.streamId x = id :=
    (h.of_getStreamRaw (Session.getStream_eq_some_iff.1 hx).1).1
  rw [hkey] at hcheck
  refine ⟨hshut, ?_⟩
  unfold streamState at hcheck
  split_ifs at hcheck ⊢
  · cases hst : (o.session.info x).state with
    | closing =>
      rw [hst] at hcheck
      cases hcheck
    | reserved =>
      rw [hst] at hcheck
      cases hcheck
    | _ => exact ⟨nofun, nofun⟩
  · cases hst : (o.session.info x).state with
    | opened => rfl
    | _ =>
      rw [hst] at hcheck
      cases hcheck

/-- The frame of the item that is popped and ready can follow the frames `W`. -/
structure Follows (o1 o2 : Outbound) (i : ItemPtr) (W : List WireFrame) : Prop where
  carries : ∀ id, (o2.item i).wire.carries = some id → ∀ g ∈ W, g.ends ≠ some id
  data : ∀ id e, (o2.item i).wire = .data id e → HasHeaders W id
  spent : ∀ id, (o2.item i).wire.carries = some id ∨ (o2.item i).wire.ends = some id → o2.Spent id
  opening : ∀ id st, opensStream o1 i = some (id, st) → (∀ g ∈ W, g.ends ≠ some id) ∧
    ∀ x, o2.session.getStream id = some x → o2.Sendable id (o2.session.info x) →
      HasHeaders (W ++ [(o2.item i).wire]) id

section Activate

variable (hf : o.Filed) (hpop : Popped o o1 i) (hprep : Prepares o1 o2 i (opensStream o1 i))
  (hf2 : o2.Filed) (hs : Shows o W W none)

include hf hpop hs in
/-- No frame has been written on a stream that is still to be opened. -/
theorem not_ends_of_opens (hid : (o.item i).opens = some id) (hc : (o.item i).canceled = false) :
    ∀ g ∈ W, g.ends ≠ some id := fun g hg hend =>
  not_spent_of_opens hf (hpop.waited hf hid).1 hid hc (hs.spent g hg id (.inr hend))

include hf hpop hprep hf2 hs in
/-- HEADERS of a request. -/
theorem follows_request {f : HeadersFrame} (hframe : (o1.item i).frame = .headers f)
    (hcat : f.cat = .request) (hready : ReadyFor o1 o2 i (.headers f)) : Follows o1 o2 i W := by
  have hitem := hpop.item
  simp only [ReadyFor, hcat, if_true] at hready
  obtain ⟨hsame, hcancel, hsize⟩ := hready
  set id := (o1.item i).streamId with hid
  have hopens : (o.item i).opens = some id := by
    rw [hid, ← hitem]
    simp [OutboundItem.opens, OutboundItem.kind, hframe, hcat]
  have hc : (o.item i).canceled = false := by
    rw [← hitem]
    simp [OutboundItem.canceled, hframe, hcancel]
  have hopened : opensStream o1 i = some (id, .initial) := by
    have hmem : id ∈ o1.session.unsent :=
      hpop.sameIds.unsent ▸ hf.asks i (hpop.waited hf hopens).1 id hopens
    unfold opensStream
    rw [hframe]
    simp [hcat, hsize, ← hid, hmem]
  have hwire : (o2.item i).wire = .headers id true f.endStream := by
    rw [hsame, OutboundItem.wire, hframe]
    simp [hcat, hid]
  have hnone := not_ends_of_opens hf hpop hs hopens hc
  have hused : o2.Used id := (hopened ▸ hprep).used_opened (hpop.filed hf).1
  rw [hopened] at hprep
  constructor
  case carries =>
    intro id' hid'
    rw [hwire] at hid'
    cases hid'
    exact hnone
  case data =>
    intro id' e h
    cases hwire.symm.trans h
  case spent =>
    intro id' hid'
    rw [eq_of_carries (by rw [hwire]; rfl) hid']
    exact hused.spent hf2
  case opening =>
    intro id' st h
    cases hopened.symm.trans h
    exact ⟨hnone, fun x _ _ => ⟨true, f.endStream, by simp [hwire]⟩⟩

include hpop hprep hs in
/-- A frame on a stream that can be found. -/
theorem follows_found (hf1 : o1.Filed) (hother : ∀ id, (o1.item i).opens = some id →
      ∀ j ∈ o1.obReg ++ o1.obSyn, (o1.item j).opens ≠ some id)
    (hx : o1.session.getStream (o1.item i).streamId = some x)
    (hshut : (o1.session.info x).shutWr = false)
    (hwire : (o2.item i).wire.carries = some (o1.item i).streamId)
    (hdata : ∀ id e, (o2.item i).wire = .data id e → HasHeaders W id)
    (hopening : ∀ id st, opensStream o1 i = some (id, st) → (∀ g ∈ W, g.ends ≠ some id) ∧
      ∀ x, o2.session.getStream id = some x → ¬ o2.Sendable id (o2.session.info x)) :
    Follows o1 o2 i W where
  carries id hid := by
    rw [eq_of_carries hwire (.inl hid)]
    exact (hpop.shows hs).not_ends hx hshut
  data := hdata
  spent id hid := by
    rw [eq_of_carries hwire hid]
    exact hprep.spent hf1 hother (((hpop.shows hs).used hx).spent hf1)
  opening id st h := ⟨(hopening id st h).1, fun x hx hsend =>
    absurd hsend ((hopening id st h).2 x hx)⟩

include hf hpop hprep hs in
/-- PUSH_PROMISE. -/
theorem follows_pushPromise {promised : ℕ} {nva : List (ℕ × ℕ)}
    (hframe : (o1.item i).frame = .pushPromise promised nva)
    (hready : ReadyFor o1 o2 i (.pushPromise promised nva)) : Follows o1 o2 i W := by
  obtain ⟨hf1, -, hother⟩ := hpop.filed hf
  have hitem := hpop.item
  obtain ⟨hsame, x, hx, hshut⟩ := hready
  have hwire : (o2.item i).wire = .pushPromise (o1.item i).streamId promised := by
    rw [hsame, OutboundItem.wire, hframe]
  refine follows_found hpop hprep hs hf1 hother hx hshut (by rw [hwire]; rfl) (fun id e h => ?_)
    fun id st h => ?_
  · cases hwire.symm.trans h
  have hid := opens_of_opensStream h
  rw [hitem] at hid
  have hc : (o.item i).canceled = false := by
    rw [← hitem]
    simp [OutboundItem.canceled, hframe]
  refine ⟨not_ends_of_opens hf hpop hs hid hc, fun y hy hsend => ?_⟩
  rw [h] at hprep
  have hmem := hprep.mem id st rfl
  have hst : st = .reserved := by
    unfold opensStream at h
    rw [hframe] at h
    dsimp only at h
    split_ifs at h
    cases h
    rfl
  -- the promised stream is new, and reserved
  rcases hprep.entry hy with ⟨hold, -⟩ | ⟨st', hst', hinfo⟩
  · have hused := (hpop.shows hs).used hold
    exact ((Session.used_own_iff (hf1.unsent_mine id hmem)).1 hused).2 hmem
  · cases hst'
    unfold Sendable at hsend
    rw [isMyStreamId_congr hprep.server, hf1.unsent_mine id hmem, if_pos rfl, hinfo, hst] at hsend
    exact hsend.2.2 rfl

include hf hpop hprep hs in
/-- HEADERS that are not a request. -/
theorem follows_headers {f : HeadersFrame} (hframe : (o1.item i).frame = .headers f)
    (hcat : f.cat ≠ .request) (hready : ReadyFor o1 o2 i (.headers f)) : Follows o1 o2 i W := by
  obtain ⟨hf1, -, hother⟩ := hpop.filed hf
  simp only [ReadyFor, hcat, if_false] at hready
  obtain ⟨⟨cat, hne, hsame, -⟩, x, hx, hshut⟩ := hready
  have hwire : (o2.item i).wire = .headers (o1.item i).streamId false f.endStream := by
    rw [hsame]
    simp [OutboundItem.wire, hne]
  have hnone : opensStream o1 i = none := by
    unfold opensStream
    rw [hframe]
    simp [hcat]
  refine follows_found hpop hprep hs hf1 hother hx hshut (by rw [hwire]; rfl) (fun id e h => ?_)
    fun id st h => by cases hnone.symm.trans h
  cases hwire.symm.trans h

include hf hpop hprep hs in
/-- DATA. -/
theorem follows_data {f : DataFrame} (htab : o.session.Tabled)
    (hframe : (o1.item i).frame = .data f) (hready : ReadyFor o1 o2 i (.data f)) :
    Follows o1 o2 i W := by
  obtain ⟨hf1, -, hother⟩ := hpop.filed hf
  obtain ⟨⟨g, hsame, -⟩, x, hx, hpred⟩ := hready
  have htab1 : o1.session.Tabled := by
    rw [hpop.eq]
    exact htab
  have hwire : (o2.item i).wire = .data (o1.item i).streamId g.endStream := by
    rw [hsame]
    rfl
  have hsend := sendable_of_predicateDataSend htab1 hx hpred
  refine follows_found hpop hprep hs hf1 hother hx hsend.1 (by rw [hwire]; rfl) (fun id e h => ?_)
    fun id st h => nomatch (opensStream_data hframe).symm.trans h
  cases hwire.symm.trans h
  exact (hpop.shows hs).headed hx hsend nofun

include hf hpop hprep hf2 hs in
/-- **Every frame that is ready can follow.** -/
theorem follows_of_ready (htab : o.session.Tabled) (hready : ReadyFor o1 o2 i (o1.item i).frame)
    (hreset : (o1.item i).frame = .rstStream → o1.Spent (o1.item i).streamId) :
    Follows o1 o2 i W := by
  obtain ⟨hf1, -, hother⟩ := hpop.filed hf
  -- a frame that carries nothing ends a stream only if it is RST_STREAM
  have hquiet : opensStream o1 i = none → (o2.item i).wire.carries = none →
      (∀ id, (o2.item i).wire.ends = some id → o2.Spent id) → Follows o1 o2 i W := by
    intro hnone hcar hends
    refine ⟨fun id hid => (nomatch hcar.symm.trans hid), fun id e h => ?_, fun id hid => ?_,
      fun id st h => (nomatch hnone.symm.trans h)⟩
    · rw [h] at hcar
      cases hcar
    · rcases hid with hid | hid
      · cases hcar.symm.trans hid
      · exact hends id hid
  cases hframe : (o1.item i).frame with
  | headers f =>
    rw [hframe] at hready
    by_cases hcat : f.cat = .request
    · exact follows_request hf hpop hprep hf2 hs hframe hcat hready
    · exact follows_headers hf hpop hprep hs hframe hcat hready
  | data f =>
    rw [hframe] at hready
    exact follows_data hf hpop hprep hs htab hframe hready
  | pushPromise promised nva =>
    rw [hframe] at hready
    exact follows_pushPromise hf hpop hprep hs hframe hready
  | rstStream =>
    rw [hframe] at hready
    have hsame : o2.item i = o1.item i := hready
    have hwire : (o2.item i).wire = .rstStream (o1.item i).streamId := by
      rw [hsame, OutboundItem.wire, hframe]
    refine hquiet (by unfold opensStream; rw [hframe]) (by rw [hwire]; rfl) fun id hid => ?_
    rw [hwire] at hid
    cases hid
    exact hprep.spent hf1 hother (hreset hframe)
  | goaway n a b =>
    rw [hframe] at hready
    have hwire : (o2.item i).wire = .goaway n := by
      rw [hready.1, OutboundItem.wire, hframe]
    exact hquiet (by unfold opensStream; rw [hframe]) (by rw [hwire]; rfl)
      fun id hid => by rw [hwire] at hid; cases hid
  | priority | settings | ping | windowUpdate =>
    rw [hframe] at hready
    have hsame : o2.item i = o1.item i := hready
    have hwire : (o2.item i).wire = .other := by rw [hsame, OutboundItem.wire, hframe]
    exact hquiet (by unfold opensStream; rw [hframe]) (by rw [hwire]; rfl)
      fun id hid => by rw [hwire] at hid; cases hid

end Activate

end Outbound

/-! ## Runs -/

namespace Recorded

open Outbound

variable {r r' : Recorded} {e : Outbound.Event}

/-- **Every turn** keeps the ids of streams used. -/
theorem Turn.foundUsed (ht : Turn r e r') (hs : r.out.Sound) (hu : r.out.FoundUsed) :
    r'.out.FoundUsed :=
  ht.rule hs hu (fun _ _ _ h => h)
    (fun _ hg hu => hg.toKeeps.foundUsed hu fun _ _ hx => (hg.entry hx).1)
    (fun _ _ _ ho => outside_foundUsed ho hs.filed hu)
    (fun _ _ _ h => h.prep.foundUsed (h.pop.filed hs.filed).1 (h.pop.foundUsed hu))
    (fun _ _ h => h.sends.toKeeps.foundUsed hu fun _ _ hx => (h.sends.entry hx).1)

/-- **Every turn** keeps used ids used. -/
theorem Turn.used {id : ℕ} (ht : Turn r e r') (hs : r.out.Sound) (hu : r.out.Used id) :
    r'.out.Used id :=
  ht.rule hs hu (fun _ _ _ h => h) (fun _ hg => hg.toKeeps.used) (fun _ _ _ ho =>
    outside_used ho hu)
    (fun _ _ _ h => h.prep.used (h.pop.used.2 hu)) (fun _ _ h => h.sends.toKeeps.used hu)

/-- The frames that have been written, and the one that is being sent. -/
def committedFrames (r : Recorded) : List WireFrame := r.committed.map Prod.snd

/-- The frame being sent is the last one. -/
theorem committedFrames_eq (r : Recorded) :
    r.committedFrames = r.frames ++ r.out.sending.map Prod.snd := List.map_append

/-- **The invariant**: the frames are well formed, and the streams show them. -/
structure InOrder (r : Recorded) : Prop where
  wf : WellFormed r.committedFrames
  shows : Shows r.out r.frames r.committedFrames none
  /-- The active item has been written, if it was sent. -/
  sent : ∀ i, r.out.session.items.aob = some i → r.out.sent = true →
    (i, (r.out.item i).wire) ∈ r.written

/-- What the events of a run have in common: streams change their states in the way the
receiving functions change them. -/
def LawfulEvent (r : Recorded) : Outbound.Event → Prop
  | .session ev => r.out.Lawful ev
  | _ => True

/-- RST_STREAM is not sent for an idle stream: when it is popped, its stream id has been used,
and no request or promise that waits is going to open the stream. -/
def ResetsUsed (r : Recorded) : Outbound.Event → Prop
  | .popItem env => ∀ o1 i, r.out.state = .popItem → r.out.popNextObItem env = (o1, some i) →
      (o1.item i).frame = .rstStream → o1.Spent (o1.item i).streamId
  | _ => True

/-- The frames that have been written. -/
theorem frames_subset (r : Recorded) : r.frames ⊆ r.committedFrames := by
  rw [committedFrames_eq]
  exact List.subset_append_left ..

/-- The active item is among the frames that have been committed to. -/
theorem InOrder.wire_mem {i : ItemPtr} (h : InOrder r) (haob : r.out.session.items.aob = some i) :
    (r.out.item i).wire ∈ r.committedFrames := by
  cases hsent : r.out.sent with
  | true => exact r.frames_subset (List.mem_map_of_mem (h.sent i haob hsent))
  | false =>
    rw [committedFrames_eq, Outbound.sending, hsent, haob]
    simp

/-- Frames are submitted, or streams are closed. -/
theorem InOrder.grows (h : InOrder r) (hs : r.out.Sound) (hg : Grows r.out r'.out)
    (hw : r'.written = r.written) : InOrder r' := by
  have hc : r'.committedFrames = r.committedFrames :=
    congrArg (List.map Prod.snd) (committed_of_keeps hg.toKeeps hs hw)
  have hfr : r'.frames = r.frames := by rw [frames, frames, hw]
  refine ⟨hc ▸ h.wf, ?_, fun i haob hsent => ?_⟩
  · rw [hfr, hc]
    exact hg.shows hs.filed h.shows
  · rw [hg.aob] at haob
    rw [hg.sent] at hsent
    rw [hw, (hg.item i (hs.active.lt i haob)).wire]
    exact h.sent i haob hsent

/-- Nothing is being sent when an item has been popped, and the streams show what was written. -/
theorem InOrder.prepared {o1 o2 : Outbound} {i : ItemPtr} (h : InOrder r) (hs : r.out.Sound)
    (hp : Prepared r o1 o2 i) : WellFormed r.frames ∧ Shows r.out r.frames r.frames none ∧
      Shows o2 r.frames r.frames ((opensStream o1 i).map Prod.fst) := by
  have hc : r.committedFrames = r.frames :=
    congrArg (List.map Prod.snd) (committed_of_popItem hs hp.state)
  have hshows := h.shows
  rw [hc] at hshows
  obtain ⟨hf1, -, hother⟩ := hp.pop.filed hs.filed
  exact ⟨hc ▸ h.wf, hshows, hp.prep.shows hf1 hother (hp.pop.shows hshows)⟩

/-- An item is popped, prepared and becomes the active item. -/
theorem InOrder.activates {o1 o2 : Outbound} {i : ItemPtr} {env : Env} (h : InOrder r)
    (hs : r.out.Sound) (hp : Prepared r o1 o2 i) (hready : ReadyFor o1 o2 i (o1.item i).frame)
    (hreset : (o1.item i).frame = .rstStream → o1.Spent (o1.item i).streamId)
    (ho : r'.out = o2.activate i env) (hw : r'.written = r.written) : InOrder r' := by
  have hfr : r'.frames = r.frames := by rw [frames, frames, hw]
  have hc' : r'.committedFrames = r.frames ++ [(o2.item i).wire] := by
    rw [committedFrames_eq, hfr, ho, sending_activate]
    rfl
  obtain ⟨hwf, hshows, hprepared⟩ := h.prepared hs hp
  have hfol := follows_of_ready hs.filed hp.pop hp.prep hp.filed hshows hs.tabled hready hreset
  refine ⟨?_, ?_, ?_⟩
  · rw [hc']
    exact hwf.snoc hfol.data fun g hg id hid hcar => hfol.carries id hcar g hg hid
  · rw [hc', hfr, ho]
    refine Shows.commits { hprepared with } hfol.spent ?_
    intro id hid
    obtain ⟨⟨id', st⟩, hopened, rfl⟩ := Option.map_eq_some_iff.1 hid
    exact hfol.opening id' st hopened
  · rw [ho]
    nofun

/-- An item is popped and given up. -/
theorem InOrder.drops {o1 o2 : Outbound} {i : ItemPtr} (h : InOrder r) (hs : r.out.Sound)
    (hp : Prepared r o1 o2 i) (hd : Drops o2 r'.out (opensStream o1 i))
    (hw : r'.written = r.written) : InOrder r' := by
  have hfr : r'.frames = r.frames := by rw [frames, frames, hw]
  have hc' : r'.committedFrames = r.frames := by
    rw [committedFrames, committed_of_cleared hd.1 hp.prep.tabled hp.filed, hw, frames]
  obtain ⟨hwf, -, hprepared⟩ := h.prepared hs hp
  have hgrown := hd.1.shows (cleared_sound hp.prep.tabled hp.filed).filed hprepared.cleared
  refine ⟨hc' ▸ hwf, ?_, fun j haob => ?_⟩
  · rw [hc', hfr]
    refine hgrown.given_up fun id hid => ?_
    obtain ⟨⟨id', st⟩, hopened, rfl⟩ := Option.map_eq_some_iff.1 hid
    exact hd.2 id' st hopened
  · rw [hd.1.aob] at haob
    cases haob

/-- The active frame is written. -/
theorem InOrder.sends {o1 : Outbound} {i : ItemPtr} (h : InOrder r) (hs : r.out.Sound)
    (hwrites : Writes r e r' o1 i) : InOrder r' := by
  have hc : r'.committedFrames = r.committedFrames :=
    congrArg (List.map Prod.snd) (hwrites.committed hs)
  obtain ⟨haob, hsends, hother, ho, hw, -⟩ := hwrites
  obtain ⟨hold, hnew⟩ := sends_shows hsends hother hs.filed h.wf (h.wire_mem haob) h.shows
  -- after the frame, whether it is new among the written ones or not
  have h1 : Shows o1 r'.frames r'.committedFrames none := by
    rw [hc, frames, hw]
    cases r.out.sent with
    | true => simpa [frames] using hold
    | false => simpa [frames] using hnew
  have hmem : (i, (r.out.item i).wire) ∈ r'.written := by
    rw [hw]
    cases hsent : r.out.sent with
    | true => exact List.mem_append_left _ (h.sent i haob hsent)
    | false => simp
  refine ⟨hc ▸ h.wf, ?_, fun j haob' hsent' => ?_⟩
  · rcases ho with ⟨-, ho⟩ | ⟨-, ho⟩
    · rw [ho]
      exact { h1 with }
    · have hs1 := hsends.toKeeps.sound hs
      exact ho.shows { hs1.filed with } h1.cleared
  rcases ho with ⟨-, ho⟩ | ⟨-, ho⟩
  · rw [ho] at haob' ⊢
    have hj : some i = some j := haob.symm.trans (hsends.aob.symm.trans haob')
    cases hj
    show (i, (o1.item i).wire) ∈ r'.written
    rw [(hsends.item i (hs.active.lt i haob)).wire]
    exact hmem
  · rw [ho.aob] at haob'
    cases haob'

/-- The active frame is done with. -/
theorem InOrder.clears (h : InOrder r) (hs : r.out.Sound) (hg : Grows r.out.cleared r'.out)
    (hsent : r.out.sent = true ∨ r.out.state = .sendNoCopy) (hw : r'.written = r.written) :
    InOrder r' := by
  have hfr : r'.frames = r.frames := by rw [frames, frames, hw]
  have hc' : r'.committedFrames = r.frames := by
    rw [committedFrames, committed_of_cleared hg hs.tabled hs.filed, hw, frames]
  have hwf := h.wf
  rw [committedFrames_eq] at hwf
  -- the frame that is given up is DATA, if it was not written
  have hdata : ∀ f ∈ r.out.sending.map Prod.snd, ∃ id e, f = .data id e := by
    intro f hf
    obtain ⟨p, hp, rfl⟩ := List.mem_map.1 hf
    unfold Outbound.sending at hp
    split_ifs at hp with hs'
    · cases hp
    · rcases hsent with hsent | hstate
      · exact absurd hsent hs'
      · obtain ⟨i, haob, rfl⟩ := Option.map_eq_some_iff.1 (Option.mem_toList.1 hp)
        obtain ⟨g, hg⟩ := frame_of_kind_data (hs.active.noCopy hstate i haob)
        exact ⟨(r.out.item i).streamId, g.endStream, by simp [OutboundItem.wire, hg]⟩
  have hhead : ∀ {id}, HasHeaders r.committedFrames id → HasHeaders r.frames id := by
    rintro id ⟨q, e, hmem⟩
    rw [committedFrames_eq] at hmem
    rcases List.mem_append.1 hmem with hmem | hmem
    · exact ⟨q, e, hmem⟩
    · obtain ⟨_, _, hf⟩ := hdata _ hmem
      cases hf
  have hshows : Shows r.out r.frames r.frames none :=
    { h.shows with
      spent := fun f hf => h.shows.spent f (r.frames_subset hf)
      headed := fun id x hx hsend hne => hhead (h.shows.headed hx hsend hne) }
  refine ⟨hc' ▸ hwf.of_append, ?_, fun j haob => ?_⟩
  · rw [hc', hfr]
    exact hg.shows { hs.filed with } hshows.cleared
  · rw [hg.aob] at haob
    cases haob

/-- **Every turn keeps the frames in order.** -/
theorem Turn.inOrder (ht : Turn r e r') (hs : r.out.Sound) (h : InOrder r)
    (hlaw : LawfulEvent r e) (hreset : ResetsUsed r e) : InOrder r' := by
  cases ht with
  | grows hg hw => exact h.grows hs hg hw
  | outside ev s he ho hout hw =>
    subst he
    have hfr : r'.frames = r.frames := by rw [frames, frames, hw]
    have hc : r'.committedFrames = r.committedFrames :=
      congrArg (List.map Prod.snd) (committed_of_outside ho hout hw)
    refine ⟨hc ▸ h.wf, ?_, ?_⟩
    · rw [hc, hfr, hout]
      exact outside_shows ho hlaw hs.filed r.frames_subset h.shows
    · rw [hout, hw]
      intro i haob
      exact h.sent i ((congrArg ItemStore.aob ho.items).symm.trans haob)
  | activates o1 o2 i env he hnext hp hready ho hw =>
    subst he
    exact h.activates hs hp hready (hreset o1 i hp.state hnext) ho hw
  | drops o1 o2 i hp hgoaway hd hw => exact h.drops hs hp hd hw
  | sends o1 i hwrites => exact h.sends hs hwrites
  | clears hg hsent hw => exact h.clears hs hg hsent hw

/-- A new session has no stream. -/
theorem new_getStream (server : Bool) (n p m id : ℕ) (x : Ptr) :
    (Recorded.new server n p m).out.session.getStream id ≠ some x := by
  intro hx
  have hraw := (Session.getStream_eq_some_iff.1 hx).1
  obtain ⟨⟨_, hmem⟩, -⟩ := (Session.new_inv server n p m).getStreamRaw_iff.1 hraw
  exact List.not_mem_nil hmem

/-- A new session. -/
theorem new_inOrder (server : Bool) (n p m : ℕ) : InOrder (Recorded.new server n p m) where
  wf := WellFormed.nil
  shows := by
    have hget := new_getStream server n p m
    exact ⟨fun id x hx => absurd hx (hget id x), nofun, nofun, nofun,
      fun id x hx => absurd hx (hget id x), fun id x hx => absurd hx (hget id x)⟩
  sent := nofun

/-- **The frames of every stream are well formed**, in every run that sends no RST_STREAM for
an idle stream. -/
theorem wellFormed_of_reaches (h : Reaches (fun r e => LawfulEvent r e ∧ ResetsUsed r e) r) :
    WellFormed r.frames ∧
      r.frames.Pairwise fun f g => ∀ id, f.closes = some id → g.closes ≠ some id := by
  have hin : InOrder r := h.turns new_inOrder fun r r' e _ hs hin hC ht =>
    ht.inOrder hs hin hC.1 hC.2
  have hwf : WellFormed r.frames := by
    have := hin.wf
    rw [committedFrames_eq] at this
    exact this.of_append
  exact ⟨hwf, hwf.closes_once⟩

/-- The callback of a data provider gives the last five bytes. -/
def eofEnv : Env := { quietEnv with read := .data 5 true false false }

instance (o : Outbound) (id : ℕ) : Decidable (o.Spent id) := by
  unfold Outbound.Spent
  infer_instance

/-- A check for the two conditions in runs without session events. -/
def resetsUsed (r : Recorded) : Outbound.Event → Bool
  | .session _ => false
  | .popItem env =>
    match r.out.popNextObItem env with
    | (o1, some i) => (o1.item i).kind ≠ .rstStream || o1.Spent (o1.item i).streamId
    | _ => true
  | _ => true

/-- The conditions, as they are tested. -/
theorem lawful_of_resetsUsed {e : Outbound.Event} (h : r.resetsUsed e = true) :
    LawfulEvent r e ∧ ResetsUsed r e := by
  cases e with
  | session ev => cases h
  | popItem env =>
    refine ⟨trivial, fun o1 i _ hpop hframe => ?_⟩
    simpa [resetsUsed, hpop, OutboundItem.kind, hframe] using h
  | _ => exact ⟨trivial, trivial⟩

/-- A client sends a request with a body, and resets the stream after END_STREAM. -/
theorem upload_wellFormed : ∃ r, (Recorded.new false 100 100 200).run
      (.submit (.request .default [] false true) :: quietTurn ++
        [.popItem eofEnv, .frameSent1 eofEnv, .frameSent2, .submit (.rstStream 1)] ++ quietTurn) =
        .ok r ∧
    r.frames = [.headers 1 true false, .data 1 true, .rstStream 1] ∧ WellFormed r.frames := by
  exact exists_of_eval (fun r => r.frames = [.headers 1 true false, .data 1 true, .rstStream 1])
    (reaches_of_guardedRun fun _ => lawful_of_resetsUsed) (by decide +kernel)
    fun r hreach hframes => ⟨hframes, (wellFormed_of_reaches hreach).1⟩

/-- **HEADERS follow RST_STREAM.**  A client submits RST_STREAM for a stream id that it has not
used, and then a request, which uses that id. -/
theorem headers_after_reset : ∃ r, (Recorded.new false 100 100 200).run
      [.submit (.rstStream 1), .popItem quietEnv, .frameSent1 quietEnv, .frameSent2,
        .submit (.request .default [] true false), .popItem quietEnv,
        .frameSent1 quietEnv] = .ok r ∧
    r.frames = [.rstStream 1, .headers 1 true true] ∧ ¬ WellFormed r.frames := by
  refine exists_of_eval (fun r => r.frames = [.rstStream 1, .headers 1 true true])
    (And.intro trivial) (by decide +kernel) fun r _ hr => ⟨hr, fun hwf => ?_⟩
  have hpair := hwf.ended
  rw [hr, List.pairwise_cons] at hpair
  exact hpair.1 _ List.mem_cons_self 1 rfl rfl

end Recorded

end Nghttp2
