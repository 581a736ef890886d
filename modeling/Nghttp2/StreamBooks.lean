/-
# Stream accounting

A session counts its streams: those it opened itself, those the peer opened, those the peer
has reserved for a push, and the closed and the idle ones that are kept in lists.

* `Book s chains extra holes` says that the counters and the lists are right for the streams in the
  table.  It asks nothing of the dependency tree, and so an operation keeps it whenever the
  operation returns;
* `Book.openStream`, `Book.closeStream` and so on: what changes the category of a stream
  updates the right counters, once;
* `Accounted` is what the books say of a session, in its own terms; it fails for a table that
  has lost streams and for a counter that is too large.
-/
import Nghttp2.WireRuns

namespace Nghttp2

open ChainMap
open Function (update update_of_ne update_self)

/-- The counters for open streams. -/
inductive Tally
  | outgoing
  | incoming
  | promised
deriving DecidableEq, Repr

namespace Session

/-- The counter a stream belongs to: one that is neither closed nor idle is outgoing or
incoming, unless it is a push that has not been fulfilled; such a push counts if the peer has
reserved it. -/
def tallyOf (mine : Bool) (info : StreamInfo) : Option Tally :=
  if info.closed then none
  else if info.push then if mine then none else some .promised
  else if info.state = .idle then none
  else if mine then some .outgoing
  else some .incoming

/-- The counter that the stream `x` belongs to. -/
def tally (s : Session) (x : Ptr) : Option Tally :=
  tallyOf (s.isMyStreamId (s.streamId x)) (s.info x)

/-- The counters. -/
def num (s : Session) : Tally → ℕ
  | .outgoing => s.numOutgoingStreams
  | .incoming => s.numIncomingStreams
  | .promised => s.numIncomingReservedStreams

variable {s s' s1 s2 : Session} {chains chains' : ℕ → List Ptr} {holes : List Ptr} {x y : Ptr}
  {extra : Tally → ℕ}  {id : ℕ} {st : StreamState}

/-! ## Counting -/

/-- The counter `n` is too large by `e` for the set. -/
def Counts (S : Set Ptr) (n e : ℕ) : Prop := ∃ m : ℕ, S.encard = m ∧ n = m + e

variable {e : Event} {c : OpenCall} {r : Option Ptr} {pri : PrioritySpec} {d : Ptr}
  {f : StreamInfo → StreamInfo} {n offset : ℕ} {w : ℤ}

open Classical in
/-- One element enters the set or leaves it. -/
theorem Counts.move {S S' : Set Ptr} {e : ℕ} (h : Counts S n e)
    (hother : ∀ y, y ≠ x → (y ∈ S' ↔ y ∈ S)) :
    Counts S' (n - (if x ∈ S then 1 else 0) + (if x ∈ S' then 1 else 0)) e := by
  obtain ⟨m, hm, rfl⟩ := h
  have hrest : S' \ {x} = S \ {x} := by
    ext y
    simp only [Set.mem_sdiff, Set.mem_singleton_iff, and_congr_left_iff]
    exact hother y
  have hfin : (S \ {x}).Finite := (Set.finite_of_encard_eq_coe hm).subset Set.sdiff_subset
  -- what is left without the element
  obtain ⟨m0, hm0, hadd⟩ : ∃ m0 : ℕ, (S \ {x}).encard = m0 ∧ m = m0 + if x ∈ S then 1 else 0 := by
    split_ifs with hx
    · refine ⟨_, hfin.encard_eq_coe, ?_⟩
      have hone := Set.encard_sdiff_singleton_add_one hx
      rw [hm, hfin.encard_eq_coe] at hone
      exact_mod_cast hone.symm
    · exact ⟨m, by rw [Set.sdiff_singleton_eq_self hx, hm], rfl⟩
  refine ⟨m0 + if x ∈ S' then 1 else 0, ?_, by omega⟩
  rw [← hrest] at hm0
  split_ifs with hx'
  · rw [← Set.encard_sdiff_singleton_add_one hx', hm0]
    norm_cast
  · rw [← Set.sdiff_singleton_eq_self hx', hm0, Nat.add_zero]

/-! ## The books -/

/-- **The books of a session.**  The streams in `holes` are being opened with the object of an
idle stream, and have been taken off the list of idle streams.  The counters are too large by
`extra`. -/
structure Book (s : Session) (chains : ℕ → List Ptr) (extra : Tally → ℕ) (holes : List Ptr) :
    Prop where
  linked : Linked mapHash s.streams chains
  size : total s.streams.tablelen chains = s.streams.size
  bound : root < s.tree.allocated ∧ ∀ x, Holds chains x → root < x ∧ x < s.tree.allocated
  hole : ∀ x ∈ holes, Holds chains x ∧ (s.info x).state = .idle
  idle_mem : ∀ x, x ∈ s.idleStreams ↔ Holds chains x ∧ (s.info x).state = .idle ∧ x ∉ holes
  idle_open : ∀ x, Holds chains x → (s.info x).state = .idle →
    (s.info x).closed = false ∧ (s.info x).push = false
  idle_nodup : s.idleStreams.Nodup
  idle_num : s.numIdleStreams = s.idleStreams.length
  closed_mem : ∀ x, x ∈ s.closedStreams ↔ Holds chains x ∧ (s.info x).closed = true
  closed_nodup : s.closedStreams.Nodup
  closed_num : s.numClosedStreams = s.closedStreams.length
  count : ∀ k, Counts {x | Holds chains x ∧ s.tally x = some k} (s.num k) (extra k)

/-- A counter is lowered only while it is positive. -/
theorem Book.num_pos (h : Book s chains extra holes) (hx : Holds chains x) {k : Tally}
    (hk : s.tally x = some k) : 0 < s.num k := by
  obtain ⟨m, hm, hn⟩ := h.count k
  have hne : (m : ℕ∞) ≠ 0 := hm ▸ Set.encard_ne_zero.2 ⟨x, hx, hk⟩
  have hpos : 0 < m := Nat.pos_of_ne_zero (by exact_mod_cast hne)
  omega

/-- The table is well formed. -/
theorem Book.tabled (h : Book s chains extra holes) : s.Tabled :=
  ⟨chains, h.linked, h.size.le, h.bound⟩

/-- What the table finds. -/
theorem Book.getStreamRaw_iff (h : Book s chains extra holes) :
    s.getStreamRaw id = some x ↔ Holds chains x ∧ s.streamId x = id :=
  getStreamRaw_eq_some_iff h.linked h.size.le

/-- What the session finds. -/
theorem Book.of_getStream (h : Book s chains extra holes) (hx : s.getStream id = some x) :
    Holds chains x ∧ s.streamId x = id ∧ (s.info x).closed = false ∧ (s.info x).state ≠ .idle := by
  obtain ⟨hraw, hclosed, hidle⟩ := getStream_eq_some_iff.1 hx
  obtain ⟨hheld, hid⟩ := h.getStreamRaw_iff.1 hraw
  exact ⟨hheld, hid, hclosed, hidle⟩

/-- A closed stream is not counted. -/
theorem tally_of_closed (h : (s.info x).closed = true) : s.tally x = none := by
  rw [tally, tallyOf, if_pos h]

/-- An idle stream is not counted. -/
theorem Book.tally_of_idle (h : Book s chains extra holes) (hx : Holds chains x)
    (hidle : (s.info x).state = .idle) : s.tally x = none := by
  obtain ⟨hclosed, hpush⟩ := h.idle_open x hx hidle
  simp [tally, tallyOf, hclosed, hpush, hidle]

/-- Two streams belong to the same counter and to the same list. -/
structure SameKind (a b : StreamInfo) : Prop where
  closed : b.closed = a.closed
  push : b.push = a.push
  idle : b.state = .idle ↔ a.state = .idle

/-- Nothing changes. -/
theorem SameKind.refl (a : StreamInfo) : SameKind a a := ⟨rfl, rfl, Iff.rfl⟩

/-- It is counted as before. -/
theorem SameKind.tallyOf {a b : StreamInfo} (h : SameKind a b) (mine : Bool) :
    tallyOf mine b = tallyOf mine a := by
  simp only [Session.tallyOf, h.closed, h.push, h.idle]

/-- The parts of a session that the books are about. -/
structure SameBooks (s s' : Session) : Prop where
  server : s'.server = s.server
  streams : s'.streams = s.streams
  allocated : s'.tree.allocated = s.tree.allocated
  info : ∀ y, SameKind (s.info y) (s'.info y)
  idle : s'.idleStreams = s.idleStreams
  numIdle : s'.numIdleStreams = s.numIdleStreams
  closed : s'.closedStreams = s.closedStreams
  numClosed : s'.numClosedStreams = s.numClosedStreams
  num : ∀ k, s'.num k = s.num k

/-- Every stream is counted as before. -/
theorem SameBooks.tally (h : SameBooks s s') (x : Ptr) : s'.tally x = s.tally x := by
  unfold Session.tally Session.streamId Session.isMyStreamId
  rw [h.server, h.streams, (h.info x).tallyOf]

/-- The books stay right. -/
theorem Book.of_same (h : Book s chains extra holes) (hs : SameBooks s s') :
    Book s' chains extra holes where
  linked := hs.streams ▸ h.linked
  size := hs.streams ▸ h.size
  bound := hs.allocated ▸ h.bound
  hole x hx := by rw [(hs.info x).idle]; exact h.hole x hx
  idle_mem x := by rw [hs.idle, (hs.info x).idle]; exact h.idle_mem x
  idle_open x hx hidle := by
    rw [(hs.info x).closed, (hs.info x).push]
    exact h.idle_open x hx ((hs.info x).idle.1 hidle)
  idle_nodup := hs.idle ▸ h.idle_nodup
  idle_num := by rw [hs.idle, hs.numIdle]; exact h.idle_num
  closed_mem x := by rw [hs.closed, (hs.info x).closed]; exact h.closed_mem x
  closed_nodup := hs.closed ▸ h.closed_nodup
  closed_num := by rw [hs.closed, hs.numClosed]; exact h.closed_num
  count k := by
    rw [hs.num k]
    simp only [hs.tally]
    exact h.count k

/-- Two changes, one after the other. -/
theorem SameBooks.trans (h : SameBooks s s1) (h' : SameBooks s1 s2) : SameBooks s s2 where
  server := h'.server.trans h.server
  streams := h'.streams.trans h.streams
  allocated := h'.allocated.trans h.allocated
  info y := ⟨(h'.info y).closed.trans (h.info y).closed, (h'.info y).push.trans (h.info y).push,
    (h'.info y).idle.trans (h.info y).idle⟩
  idle := h'.idle.trans h.idle
  numIdle := h'.numIdle.trans h.numIdle
  closed := h'.closed.trans h.closed
  numClosed := h'.numClosed.trans h.numClosed
  num k := (h'.num k).trans (h.num k)

/-- Fields that are not in the books. -/
theorem SameBooks.of_eq (hs : s' = { s with
      tree := s'.tree, freed := s'.freed, items := s'.items
      maxConcurrentStreams := s'.maxConcurrentStreams
      pendingMaxConcurrentStreams := s'.pendingMaxConcurrentStreams
      lastRecvStreamId := s'.lastRecvStreamId, nextStreamId := s'.nextStreamId
      unsent := s'.unsent, goawaySent := s'.goawaySent })
    (halloc : s'.tree.allocated = s.tree.allocated) : SameBooks s s' := by
  refine ⟨?_, ?_, halloc, fun y => ?_, ?_, ?_, ?_, ?_, fun k => ?_⟩
  case refine_3 =>
    rw [hs]
    exact SameKind.refl _
  case refine_8 =>
    rw [hs]
    cases k <;> rfl
  all_goals rw [hs]

/-- A stream is changed, not its kind. -/
theorem SameBooks.modifyInfo (s : Session) (x : Ptr)
    (hf : SameKind (s.info x) (f (s.info x))) : SameBooks s (s.modifyInfo x f) := by
  refine ⟨rfl, rfl, rfl, fun y => ?_, rfl, rfl, rfl, rfl, fun k => by cases k <;> rfl⟩
  by_cases hyx : y = x
  · rw [hyx, modifyInfo_self]
    exact hf
  · rw [modifyInfo_of_ne hyx]
    exact SameKind.refl _

/-- The tree is not in the books. -/
theorem SameBooks.of_tree {t : StreamTree} (h : t.allocated = s.tree.allocated) :
    SameBooks s { s with tree := t } :=
  .of_eq rfl h

/-! ## Destroying streams -/

/-- **A stream that is destroyed** leaves the table and its list; it must not be counted. -/
theorem Book.drop (h : Book s chains extra holes) (hx : Holds chains x) (hhole : x ∉ holes)
    (htally : s.tally x = none) (hres : s.destroyStream x = .ok s1)
    (hs' : s' = { s1 with
      idleStreams := s.idleStreams.erase x
      numIdleStreams := (s.idleStreams.erase x).length
      closedStreams := s.closedStreams.erase x
      numClosedStreams := (s.closedStreams.erase x).length }) :
    ∃ chains', Book s' chains' extra holes := by
  obtain ⟨t, ht, hres⟩ := bind_eq_ok.1 hres
  cases hres
  subst hs'
  obtain ⟨-, chains', hlinked, hholds, htotal, hkey⟩ := h.linked.remove mapHash_lt h.size.le hx
  have halloc : t.allocated = s.tree.allocated := (leaveTree_eq ht).1
  refine ⟨chains', ?_⟩
  constructor
  case linked => exact hlinked
  case size => exact balanced h.size htotal
  case bound => exact halloc ▸ ⟨h.bound.1, fun y hy => h.bound.2 y ((hholds y).1 hy).1⟩
  case hole =>
    intro y hy
    obtain ⟨hheld, hidle⟩ := h.hole y hy
    exact ⟨(hholds y).2 ⟨hheld, fun hyx => hhole (hyx ▸ hy)⟩, hidle⟩
  case idle_mem =>
    intro y
    rw [h.idle_nodup.mem_erase_iff, h.idle_mem, hholds]
    tauto
  case idle_open => exact fun y hy => h.idle_open y ((hholds y).1 hy).1
  case idle_nodup => exact h.idle_nodup.erase x
  case idle_num => rfl
  case closed_mem =>
    intro y
    rw [h.closed_nodup.mem_erase_iff, h.closed_mem, hholds]
    tauto
  case closed_nodup => exact h.closed_nodup.erase x
  case closed_num => rfl
  case count =>
    intro k
    refine (congrArg (Counts · (s.num k) (extra k)) ?_).mpr (h.count k)
    ext y
    have htally' : tallyOf (s.isMyStreamId
        ((s.streams.remove mapHash (s.streams.key x)).1.key y)) (s.info y) = s.tally y := by
      rw [hkey]
      rfl
    refine ⟨fun hy => ⟨((hholds y).1 hy.1).1, htally'.symm.trans hy.2⟩,
      fun hy => ⟨(hholds y).2 ⟨hy.1, ?_⟩, htally'.trans hy.2⟩⟩
    rintro rfl
    cases htally.symm.trans hy.2

/-- Idle streams are evicted. -/
theorem Book.adjustIdleLoop (h : Book s chains extra holes)
    (hres : adjustIdleLoop n s = .ok s') : ∃ chains', Book s' chains' extra holes := by
  refine adjustIdleLoop_rule (P := fun s => ∃ chains, Book s chains extra holes) ⟨chains, h⟩
    (fun {s s1 head next} hs hidle hdes => ?_) hres
  obtain ⟨chains, h⟩ := hs
  obtain ⟨hheld, hst, hhole⟩ := (h.idle_mem head).1 (by simp [hidle])
  have hnum := h.idle_num
  have hclosed : head ∉ s.closedStreams := fun hmem => by
    cases ((h.idle_open head hheld hst).1.symm.trans ((h.closed_mem head).1 hmem).2)
  obtain ⟨t, -, hs1⟩ := bind_eq_ok.1 hdes
  obtain ⟨chains1, h1⟩ := h.drop hheld hhole (h.tally_of_idle hheld hst) hdes rfl
  refine ⟨chains1, ?_⟩
  cases hs1
  rw [hidle, List.length_cons] at hnum
  simpa [hidle, List.erase_of_not_mem hclosed, ← h.closed_num, hnum] using h1

/-- Closed streams are evicted. -/
theorem Book.adjustClosedLoop (h : Book s chains extra holes)
    (hres : adjustClosedLoop offset n s = .ok s') : ∃ chains', Book s' chains' extra holes := by
  refine adjustClosedLoop_rule (P := fun s => ∃ chains, Book s chains extra holes) ⟨chains, h⟩
    (fun {s s1 head next} hs hclosed hdes => ?_) hres
  obtain ⟨chains, h⟩ := hs
  obtain ⟨hheld, hflag⟩ := (h.closed_mem head).1 (by simp [hclosed])
  have hnum := h.closed_num
  have hst : (s.info head).state ≠ .idle := fun hidle => by
    cases (h.idle_open head hheld hidle).1.symm.trans hflag
  have hidle : head ∉ s.idleStreams := fun hmem => hst ((h.idle_mem head).1 hmem).2.1
  obtain ⟨t, -, hs1⟩ := bind_eq_ok.1 hdes
  obtain ⟨chains1, h1⟩ := h.drop hheld (fun hhole => hst (h.hole head hhole).2)
    (tally_of_closed hflag) hdes rfl
  refine ⟨chains1, ?_⟩
  cases hs1
  rw [hclosed, List.length_cons] at hnum
  simpa [hclosed, List.erase_of_not_mem hidle, ← h.idle_num, hnum] using h1

/-! ## Opening streams -/

/-- What a stream that has just been entered in the books looks like: it is in the table with
new session fields, and it is counted or, if it is idle, listed. -/
structure Enters (s s' : Session) (chains chains' : ℕ → List Ptr) (x : Ptr) : Prop where
  linked : Linked mapHash s'.streams chains'
  size : total s'.streams.tablelen chains' = s'.streams.size
  bound : root < s'.tree.allocated ∧ ∀ y, Holds chains' y → root < y ∧ y < s'.tree.allocated
  holds : ∀ y, Holds chains' y ↔ Holds chains y ∨ y = x
  key : ∀ y, y ≠ x → s'.streams.key y = s.streams.key y
  server : s'.server = s.server
  info : ∀ y, y ≠ x → s'.info y = s.info y
  open_ : (s'.info x).closed = false ∧ ((s'.info x).state = .idle → (s'.info x).push = false)
  idle : s'.idleStreams = s.idleStreams ++ if (s'.info x).state = .idle then [x] else []
  numIdle : s'.numIdleStreams = s'.idleStreams.length
  closed : s'.closedStreams = s.closedStreams
  numClosed : s'.numClosedStreams = s.numClosedStreams
  num : ∀ k, s'.num k = s.num k + if s'.tally x = some k then 1 else 0

section

variable (h : Book s chains extra (r.toList ++ holes))
include h

/-- **A stream is entered**, which was not in the table or was a hole. -/
theorem Book.enter (hx : ∀ y ∈ r, y = x) (hnew : r = none → ¬ Holds chains x) (hhole : x ∉ holes)
    (he : Enters s s' chains chains' x) : Book s' chains' extra holes := by
  -- the object is not listed, and it is not counted
  have hreused : Holds chains x → x ∈ r.toList ∧ (s.info x).state = .idle := by
    intro hheld
    cases r with
    | none => exact absurd hheld (hnew rfl)
    | some y =>
      obtain rfl := hx y rfl
      exact ⟨by simp, (h.hole y (by simp)).2⟩
  have hnotidle : x ∉ s.idleStreams := fun hmem => by
    obtain ⟨hheld, -, hout⟩ := (h.idle_mem x).1 hmem
    exact hout (List.mem_append_left _ (hreused hheld).1)
  have hnotclosed : x ∉ s.closedStreams := fun hmem => by
    obtain ⟨hheld, hflag⟩ := (h.closed_mem x).1 hmem
    cases (h.idle_open x hheld (hreused hheld).2).1.symm.trans hflag
  have hout : ∀ y, y ≠ x → (y ∉ r.toList ++ holes ↔ y ∉ holes) := by
    intro y hyx
    have hr : y ∉ r.toList := fun hy => hyx (hx y (by simpa using hy))
    simp [hr]
  have hheld : ∀ y, y ≠ x → (Holds chains' y ↔ Holds chains y) := by
    intro y hyx
    rw [he.holds]
    exact or_iff_left hyx
  have htally : ∀ y, y ≠ x → s'.tally y = s.tally y := by
    intro y hyx
    unfold Session.tally Session.streamId Session.isMyStreamId
    rw [he.server, he.key y hyx, he.info y hyx]
  constructor
  case linked => exact he.linked
  case size => exact he.size
  case bound => exact he.bound
  case hole =>
    intro y hy
    have hyx : y ≠ x := fun hyx => hhole (hyx ▸ hy)
    rw [hheld y hyx, he.info y hyx]
    exact h.hole y (List.mem_append_right _ hy)
  case idle_mem =>
    intro y
    rw [he.idle, List.mem_append]
    by_cases hyx : y = x
    · subst hyx
      simp [hnotidle, he.holds, hhole]
    · have hlast : y ∉ (if (s'.info x).state = .idle then [x] else []) := by
        split_ifs
        · simpa using hyx
        · simp
      rw [or_iff_left hlast, h.idle_mem, hheld y hyx, he.info y hyx, hout y hyx]
  case idle_open =>
    intro y hy hidle
    by_cases hyx : y = x
    · subst hyx
      exact ⟨he.open_.1, he.open_.2 hidle⟩
    · rw [he.info y hyx] at hidle ⊢
      exact h.idle_open y ((hheld y hyx).1 hy) hidle
  case idle_nodup =>
    rw [he.idle]
    split_ifs
    · refine h.idle_nodup.append (List.nodup_singleton x) ?_
      simpa using hnotidle
    · rw [List.append_nil]
      exact h.idle_nodup
  case idle_num => exact he.numIdle
  case closed_mem =>
    intro y
    rw [he.closed]
    by_cases hyx : y = x
    · subst hyx
      simp [hnotclosed, he.open_.1]
    · rw [h.closed_mem, hheld y hyx, he.info y hyx]
  case closed_nodup => exact he.closed ▸ h.closed_nodup
  case closed_num =>
    rw [he.closed, he.numClosed]
    exact h.closed_num
  case count =>
    intro k
    have hother : ∀ y, y ≠ x → (y ∈ {y | Holds chains' y ∧ s'.tally y = some k} ↔
        y ∈ {y | Holds chains y ∧ s.tally y = some k}) := by
      intro y hyx
      rw [Set.mem_ofPred_eq, Set.mem_ofPred_eq, hheld y hyx, htally y hyx]
    have hold : x ∉ {y | Holds chains y ∧ s.tally y = some k} := by
      rintro ⟨hheld, hk⟩
      cases (h.tally_of_idle hheld (hreused hheld).2).symm.trans hk
    have hmove := (h.count k).move hother
    rw [if_neg hold, Nat.sub_zero] at hmove
    rw [he.num k]
    simpa [he.holds] using hmove

/-- The object of a new stream, or of an idle one that is the last of its chain, is in the
table. -/
theorem Book.placeStream (hr : ∀ y ∈ r, s.streams.key y = id ∧ s.streams.next y = none)
    (hres : s.placeStream r id w st = .ok (s1, x)) :
    (∀ y ∈ r, y = x) ∧ (r = none → ¬ Holds chains x) ∧
      s1 = { s with tree := s1.tree, streams := s1.streams, info := s1.info } ∧
      s1.info = update s.info x (freshInfo st) ∧ s1.streams.key x = id ∧
      ∃ chains', Linked mapHash s1.streams chains' ∧
        total s1.streams.tablelen chains' = s1.streams.size ∧
        (root < s1.tree.allocated ∧ ∀ y, Holds chains' y → root < y ∧ y < s1.tree.allocated) ∧
        (∀ y, Holds chains' y ↔ Holds chains y ∨ y = x) ∧
        ∀ y, y ≠ x → s1.streams.key y = s.streams.key y := by
  cases r with
  | some y =>
    cases hres
    obtain ⟨hkey, hnext⟩ := hr x rfl
    have hsame : s.streams.entryInit x id = s.streams := by
      rw [← hkey]
      exact entryInit_of_next_eq_none hnext
    have hheld := (h.hole x (by simp)).1
    refine ⟨fun y hy => by simpa using hy.symm, nofun, rfl, rfl,
      (congrFun (congrArg ChainMap.key hsame) x).trans hkey, chains, ?_⟩
    have hstreams : (s.initStream x id w st).streams = s.streams := hsame
    rw [hstreams]
    exact ⟨h.linked, h.size, h.bound, fun y => ⟨.inl, fun hy => hy.elim (·) fun hyx => hyx ▸ hheld⟩,
      fun _ _ => rfl⟩
  | none =>
    unfold Session.placeStream at hres
    dsimp only at hres
    split_ifs at hres with hok
    cases hres
    have hfresh : ¬ Holds chains s.tree.allocated := fun hx => lt_irrefl _ (h.bound.2 _ hx).2
    have hl1 : Linked mapHash (s.streams.entryInit s.tree.allocated id) chains :=
      h.linked.entryInit hfresh id
    have hne := key_ne_of_insert hl1 h.size.le hok
    obtain ⟨-, chains', hl', hholds, htot, hk⟩ := hl1.insert mapHash_lt h.size.le hne
      (update_self _ _ _)
    refine ⟨nofun, fun _ => hfresh, rfl, rfl, ?_, chains', hl', balanced h.size htot,
      ⟨h.bound.1.trans (Nat.lt_succ_self _), fun y hy => ?_⟩, hholds, fun y hyx => ?_⟩
    · exact (congrFun hk _).trans (update_self _ _ _)
    · rcases (hholds y).1 hy with hy | rfl
      · exact ⟨(h.bound.2 y hy).1, (h.bound.2 y hy).2.trans (Nat.lt_succ_self _)⟩
      · exact ⟨h.bound.1, Nat.lt_succ_self _⟩
    · exact (congrFun hk y).trans (update_of_ne hyx _ _)

/-- **Counting or listing** a stream that has been entered. -/
theorem Book.listStream (hr : ∀ y ∈ r, s.streams.key y = id ∧ s.streams.next y = none ∧ y ∉ holes)
    (hres : s.listStream r id w st = .ok (s', x)) : ∃ chains', Book s' chains' extra holes := by
  obtain ⟨⟨s1, x1⟩, hplace, hres⟩ := bind_eq_ok.1 hres
  obtain ⟨s2, hcount, hres⟩ := bind_eq_ok.1 hres
  cases hres
  obtain ⟨hx, hnew, hs1, hinfo, hkeyx, chains', hl, ht, hb, hholds, hkey⟩ :=
    h.placeStream (fun y hy => ⟨(hr y hy).1, (hr y hy).2.1⟩) hplace
  have hhole : x ∉ holes := by
    cases r with
    | none => exact fun hmem => hnew rfl (h.hole x (List.mem_append_right _ hmem)).1
    | some y =>
      obtain rfl := hx y rfl
      exact (hr y rfl).2.2
  have hself : s1.info x = freshInfo st := by rw [hinfo, update_self]
  have hrest : ∀ y, y ≠ x → s1.info y = s.info y := fun y hy => by
    rw [hinfo, update_of_ne hy]
  have hmine : s1.isMyStreamId id = s.isMyStreamId id := by rw [hs1]; rfl
  -- what `countStream` leaves is `s1` with other fields of `x`, other counters and another list
  have hbook : ∀ s2 : Session, s2 = { s1 with
        info := s2.info, numOutgoingStreams := s2.numOutgoingStreams
        numIncomingStreams := s2.numIncomingStreams
        numIncomingReservedStreams := s2.numIncomingReservedStreams
        idleStreams := s2.idleStreams, numIdleStreams := s2.numIdleStreams } →
      (∀ y, y ≠ x → s2.info y = s1.info y) → (s2.info x).closed = false →
      ((s2.info x).state = .idle → (s2.info x).push = false) →
      (s2.idleStreams = s1.idleStreams ++ if (s2.info x).state = .idle then [x] else []) →
      s2.numIdleStreams = s2.idleStreams.length →
      (∀ k, s2.num k = s1.num k +
        if tallyOf (s.isMyStreamId id) (s2.info x) = some k then 1 else 0) →
      Book s2 chains' extra holes := by
    intro s2 hs2 hinfo2 hclosed hpush hidle hnum hcounts
    have hstreams : s2.streams = s1.streams := by rw [hs2]
    have htree : s2.tree = s1.tree := by rw [hs2]
    have hserver : s2.server = s.server := by rw [hs2, hs1]
    have htally : s2.tally x = tallyOf (s.isMyStreamId id) (s2.info x) := by
      unfold Session.tally Session.streamId Session.isMyStreamId
      rw [hstreams, hkeyx, hserver]
    refine h.enter hx hnew hhole ⟨hstreams ▸ hl, hstreams ▸ ht, htree ▸ hb, hholds,
      fun y hy => hstreams ▸ hkey y hy, hserver, fun y hy => (hinfo2 y hy).trans (hrest y hy),
      ⟨hclosed, hpush⟩, ?_, hnum, by rw [hs2, hs1], by rw [hs2, hs1], fun k => ?_⟩
    · rw [hidle, hs1]
    · rw [hcounts k, htally, hs1]
      rfl
  have hidle1 : s1.numIdleStreams = s1.idleStreams.length := by
    rw [hs1]
    exact h.idle_num
  cases st with
  | reserved =>
    simp only [countStream] at hcount
    split_ifs at hcount with hm
    all_goals
      cases hcount
      refine ⟨chains', hbook _ rfl (fun y hy => update_of_ne hy _ _) ?_ ?_ ?_ hidle1 ?_⟩
      · simp [modifyInfo, hself, freshInfo]
      · simp [modifyInfo, hself, freshInfo]
      · simp [modifyInfo, hself, freshInfo]
      · intro k
        cases k <;> simp [num, modifyInfo, hself, freshInfo, tallyOf, ← hmine, hm]
  | idle =>
    simp only [countStream] at hcount
    split_ifs at hcount
    have h1 : Book { s1 with
        idleStreams := s1.idleStreams ++ [x], numIdleStreams := s1.numIdleStreams + 1 }
        chains' extra holes := by
      refine hbook _ rfl (fun _ _ => rfl) ?_ ?_ ?_ ?_ ?_
      · simp [hself, freshInfo]
      · simp [hself, freshInfo]
      · simp [hself, freshInfo]
      · simp [hidle1]
      · intro k
        cases k <;> simp [num, hself, freshInfo, tallyOf]
    exact h1.adjustIdleLoop hcount
  | initial | opening | opened | closing =>
    simp only [countStream] at hcount
    split_ifs at hcount with hm
    all_goals
      cases hcount
      refine ⟨chains', hbook _ rfl (fun _ _ => rfl) ?_ ?_ ?_ hidle1 ?_⟩
      · simp [hself, freshInfo]
      · simp [hself, freshInfo]
      · simp [hself, freshInfo]
      · intro k
        cases k <;> simp [num, hself, freshInfo, tallyOf, ← hmine, hm]

end

/-- A stream enters the tree. -/
theorem Book.linkStream {exclusive : Bool} (h : Book s chains extra holes)
    (hres : s.linkStream x d exclusive = .ok s') : Book s' chains extra holes := by
  rcases linkStream_cases hres with rfl | rfl
  · exact h
  · exact h.of_same (.of_tree (attachStream_eq exclusive s.tree d x).1)

/-- The first part of `nghttp2_session_open_stream` leaves a hole for the idle stream that it
reuses. -/
theorem Book.reuseStream (h : Book s chains extra []) (hres : s.reuseStream id st = .ok (s1, r)) :
    (∃ chains', Book s1 chains' extra r.toList) ∧ ∀ y ∈ r, s1.streams.key y = id := by
  unfold Session.reuseStream at hres
  cases hraw : s.getStreamRaw id with
  | some x =>
    rw [hraw] at hres
    dsimp only at hres
    split_ifs at hres with hcond
    obtain ⟨t, ht, hres⟩ := bind_eq_ok.1 hres
    cases hres
    obtain ⟨hheld, hid⟩ := h.getStreamRaw_iff.1 hraw
    have hst : (s.info x).state = .idle := by
      simp only [Bool.or_eq_true, decide_eq_true_eq, not_or, not_not] at hcond
      exact hcond.1
    have hmem : x ∈ s.idleStreams := (h.idle_mem x).2 ⟨hheld, hst, List.not_mem_nil⟩
    refine ⟨⟨chains, ?_⟩, fun y hy => ?_⟩
    · refine { h with
        bound := (leaveTree_eq ht).1 ▸ h.bound
        hole := fun y hy => ?_
        idle_mem := fun y => ?_
        idle_nodup := h.idle_nodup.erase x
        idle_num := ?_ }
      · obtain rfl : y = x := by simpa using hy
        exact ⟨hheld, hst⟩
      · show y ∈ s.idleStreams.erase x ↔ _
        rw [h.idle_nodup.mem_erase_iff, h.idle_mem]
        simp only [Option.toList_some, List.mem_singleton, List.not_mem_nil, not_false_eq_true,
          and_true]
        tauto
      · show s.numIdleStreams - 1 = (s.idleStreams.erase x).length
        rw [List.length_erase_of_mem hmem, h.idle_num]
    · obtain rfl : x = y := by simpa using hy
      exact hid
  | none =>
    rw [hraw] at hres
    obtain ⟨s2, hroom, hres⟩ := bind_eq_ok.1 hres
    cases hres
    refine ⟨?_, nofun⟩
    unfold makeRoom at hroom
    split_ifs at hroom
    · exact h.adjustClosedLoop hroom
    · cases hroom
      exact ⟨chains, h⟩

/-- **An idle stream is created** as a dependency. -/
theorem Book.openAnchor (h : Book s chains extra holes) (hraw : s.getStreamRaw id = none)
    (hres : s.openAnchor id = .ok (s', x)) : ∃ chains', Book s' chains' extra holes := by
  obtain ⟨⟨s1, r⟩, hreuse, hres⟩ := bind_eq_ok.1 hres
  obtain ⟨⟨s2, x2⟩, hlist, hres⟩ := bind_eq_ok.1 hres
  obtain ⟨s3, hlink, hres⟩ := bind_eq_ok.1 hres
  cases hres
  have hnone : s.reuseStream id .idle = .ok (s, none) := by
    simp [Session.reuseStream, hraw, makeRoom, pure, Except.pure]
  cases hnone.symm.trans hreuse
  obtain ⟨chains', h2⟩ := Book.listStream (r := none) h (by simp) hlist
  exact ⟨chains', h2.linkStream hlink⟩

/-- **The dependency of a stream** is found or created. -/
theorem Book.resolveDep {pri' : PrioritySpec} (h : Book s chains extra holes)
    (hres : s.resolveDep pri = .ok (s', d, pri')) : ∃ chains', Book s' chains' extra holes := by
  rcases resolveDep_cases hres with ⟨hcreates, hanchor, -⟩ | ⟨-, rfl, -⟩
  · exact h.openAnchor hcreates.2.1 hanchor
  · exact ⟨chains, h⟩

/-- **`nghttp2_session_open_stream`**, if the idle stream it reuses is the last of its chain. -/
theorem Book.openStream (h : Book c.session chains extra []) (hlast : c.ReusesLast)
    (hres : c.session.openStream c.id c.pri c.initialState = .ok (s', x)) :
    ∃ chains', Book s' chains' extra [] := by
  obtain ⟨s0, s1, s2, r, d, pri, hreuse, hresolve, hprep, hlist, hlink⟩ := openStream_eq_ok hres
  obtain ⟨⟨c0, h0⟩, hkey⟩ := h.reuseStream hreuse
  obtain ⟨c1, h1⟩ := h0.resolveDep hresolve
  have htrim := resolveDep_trims h0.tabled hresolve
  have hr : ∀ y ∈ r, s1.streams.key y = c.id ∧ s1.streams.next y = none ∧ y ∉ [] := by
    rintro y rfl
    have hlt := (h0.bound.2 y (h0.hole y (by simp)).1).2
    exact ⟨(htrim.key y hlt).trans (hkey y rfl), hlast _ _ _ _ hprep, List.not_mem_nil⟩
  rw [← List.append_nil r.toList] at h1
  obtain ⟨c2, h2⟩ := h1.listStream hr hlist
  exact ⟨c2, h2.linkStream hlink⟩

/-! ## Closing streams -/

/-- An item is not in the books. -/
theorem releaseItem_same (s : Session) (x : Ptr) :
    SameBooks s (s.releaseItem x) ∧ (s.releaseItem x).info = s.info := by
  have htree : (streamDetachItem s.tree x).allocated = s.tree.allocated :=
    Outbound.streamDetachItem_allocated s.tree x
  unfold Session.releaseItem
  split
  · exact ⟨.of_eq rfl rfl, rfl⟩
  · dsimp only
    split_ifs
    · exact ⟨.of_eq rfl htree, rfl⟩
    · exact ⟨.of_eq rfl htree, rfl⟩

/-- One stream less, of its kind. -/
theorem num_uncountStream (hid : s.streamId x = id) (hclosed : (s.info x).closed = false)
    (hidle : (s.info x).state ≠ .idle) (k : Tally) :
    (s.uncountStream x id).num k = s.num k - if s.tally x = some k then 1 else 0 := by
  unfold Session.uncountStream Session.tally
  rw [hid]
  cases hpush : (s.info x).push <;> cases hmine : s.isMyStreamId id <;> cases k <;>
    simp [num, tallyOf, hclosed, hidle, hpush]

/-- The stream is marked as closed, taken off its counter, and listed. -/
def listClosed (s : Session) (x : Ptr) (id : ℕ) : Session :=
  let s' := (s.uncountStream x id).modifyInfo x fun i => { i with closed := true }
  { s' with closedStreams := s'.closedStreams ++ [x], numClosedStreams := s'.numClosedStreams + 1 }

/-- Only the counters change. -/
theorem uncountStream_eq (s : Session) (x : Ptr) (id : ℕ) : s.uncountStream x id = { s with
    numOutgoingStreams := (s.uncountStream x id).numOutgoingStreams
    numIncomingStreams := (s.uncountStream x id).numIncomingStreams
    numIncomingReservedStreams := (s.uncountStream x id).numIncomingReservedStreams } := by
  unfold Session.uncountStream
  split_ifs
  all_goals rfl

section

variable (h : Book s chains extra [])
include h

/-- The fields of an open stream change, and the counters with them; if it is closed now, it
is listed. -/
theorem Book.modify
    (hx : s.getStream id = some x)
    (hs' : s' = { s.modifyInfo x f with
      numOutgoingStreams := s'.numOutgoingStreams, numIncomingStreams := s'.numIncomingStreams
      numIncomingReservedStreams := s'.numIncomingReservedStreams
      closedStreams := s'.closedStreams, numClosedStreams := s'.numClosedStreams })
    (hcloseds : s'.closedStreams = s.closedStreams ++ if (f (s.info x)).closed then [x] else [])
    (hnumClosed : s'.numClosedStreams = s'.closedStreams.length)
    (hidle : (f (s.info x)).state ≠ .idle)
    (hnum : ∀ k, s'.num k = s.num k - (if s.tally x = some k then 1 else 0) +
      if tallyOf (s.isMyStreamId id) (f (s.info x)) = some k then 1 else 0) :
    Book s' chains extra [] := by
  obtain ⟨hheld, hid, hclosed0, hidle0⟩ := h.of_getStream hx
  have hself : s'.info x = f (s.info x) := by
    rw [hs']
    exact update_self _ _ _
  have hinfo : ∀ y, y ≠ x → s'.info y = s.info y := by
    intro y hyx
    rw [hs']
    exact update_of_ne hyx _ _
  have hidles : s'.idleStreams = s.idleStreams := by rw [hs']; rfl
  have hstreams : s'.streams = s.streams := by rw [hs']; rfl
  have hmine : ∀ id, s'.isMyStreamId id = s.isMyStreamId id := by
    intro id
    rw [hs']
    rfl
  have hnotclosed : x ∉ s.closedStreams := fun hmem => by
    cases hclosed0.symm.trans ((h.closed_mem x).1 hmem).2
  constructor
  case linked => exact hstreams ▸ h.linked
  case size => exact hstreams ▸ h.size
  case bound =>
    rw [hs']
    exact h.bound
  case hole => nofun
  case idle_mem =>
    intro y
    rw [hidles, h.idle_mem]
    by_cases hyx : y = x
    · subst hyx
      simp [hself, hidle, hidle0]
    · rw [hinfo y hyx]
  case idle_open =>
    intro y hy hst
    have hyx : y ≠ x := fun hyx => hidle (by rw [← hself, ← hyx]; exact hst)
    rw [hinfo y hyx] at hst ⊢
    exact h.idle_open y hy hst
  case idle_nodup => exact hidles ▸ h.idle_nodup
  case idle_num =>
    rw [hs']
    exact h.idle_num
  case closed_mem =>
    intro y
    rw [hcloseds, List.mem_append, h.closed_mem]
    by_cases hyx : y = x
    · subst hyx
      cases hflag : (f (s.info y)).closed <;> simp [hself, hheld, hclosed0, hflag]
    · rw [hinfo y hyx]
      cases (f (s.info x)).closed <;> simp [hyx]
  case closed_nodup =>
    rw [hcloseds]
    refine h.closed_nodup.append ?_ ?_
    · split_ifs <;> simp
    · split_ifs <;> simp [hnotclosed]
  case closed_num => exact hnumClosed
  case count =>
    intro k
    have hother : ∀ y, y ≠ x → (y ∈ {y | Holds chains y ∧ s'.tally y = some k} ↔
        y ∈ {y | Holds chains y ∧ s.tally y = some k}) := by
      intro y hyx
      unfold Session.tally Session.streamId
      rw [Set.mem_ofPred_eq, Set.mem_ofPred_eq, hinfo y hyx, hstreams, hmine]
    have htally : s'.tally x = tallyOf (s.isMyStreamId id) (f (s.info x)) := by
      unfold Session.tally Session.streamId
      rw [hself, hmine, hstreams]
      rw [show s.streams.key x = id from hid]
    have hmove := (h.count k).move hother
    rw [hnum k]
    simpa [htally, hheld] using hmove

/-- **A stream is closed and kept.** -/
theorem Book.listClosed (hx : s.getStream id = some x) :
    Book (s.listClosed x id) chains extra [] := by
  obtain ⟨-, hid, hclosed, hidle⟩ := h.of_getStream hx
  refine h.modify (f := fun i => { i with closed := true }) hx ?_ ?_ ?_ hidle fun k => ?_
  · unfold Session.listClosed
    rw [uncountStream_eq]
    rfl
  · unfold Session.listClosed
    rw [uncountStream_eq]
    rfl
  · unfold Session.listClosed
    rw [uncountStream_eq, List.length_append]
    exact congrArg (· + 1) h.closed_num
  · have hnone : tallyOf (s.isMyStreamId id) { s.info x with closed := true } = none := if_pos rfl
    rw [← num_uncountStream hid hclosed hidle k, hnone]
    cases k
    all_goals
      unfold Session.listClosed
      rw [uncountStream_eq]
      rfl

/-- **A stream is closed.** -/
theorem Book.finishClose (hx : s.getStream id = some x)
    (hres : s.finishClose x id = .ok s') : ∃ chains', Book s' chains' extra [] := by
  have h1 := h.listClosed hx
  unfold Session.finishClose at hres
  dsimp only at hres
  split_ifs at hres
  · exact h1.adjustClosedLoop hres
  -- a stream that is not kept is destroyed just like one that has been listed
  obtain ⟨hheld, hflag⟩ := (h1.closed_mem x).1 (by simp [Session.listClosed])
  obtain ⟨-, -, hclosed, hidle⟩ := h.of_getStream hx
  obtain ⟨t, ht, hres⟩ := bind_eq_ok.1 hres
  cases hres
  have hdes : (s.listClosed x id).destroyStream x = .ok { s.listClosed x id with
      tree := t
      streams := ((s.listClosed x id).streams.remove mapHash
        ((s.listClosed x id).streamId x)).1
      freed := update (s.listClosed x id).freed x true } := by
    unfold destroyStream
    rw [show (s.listClosed x id).tree =
      ((s.uncountStream x id).modifyInfo x fun i => { i with closed := true }).tree from rfl, ht]
    rfl
  obtain ⟨chains', h2⟩ := h1.drop hheld List.not_mem_nil (tally_of_closed hflag) hdes rfl
  have hsame : (s.uncountStream x id).idleStreams = s.idleStreams ∧
      (s.uncountStream x id).closedStreams = s.closedStreams ∧
      (s.uncountStream x id).numIdleStreams = s.numIdleStreams ∧
      (s.uncountStream x id).numClosedStreams = s.numClosedStreams := by
    rw [uncountStream_eq]
    exact ⟨rfl, rfl, rfl, rfl⟩
  obtain ⟨hidles, hcloseds, hnumIdle, hnumClosed⟩ := hsame
  have hidle' : (s.uncountStream x id).idleStreams.erase x =
      (s.uncountStream x id).idleStreams := by
    rw [hidles]
    exact List.erase_of_not_mem fun hmem => hidle ((h.idle_mem x).1 hmem).2.1
  have hclosed' : ((s.uncountStream x id).closedStreams ++ [x]).erase x =
      (s.uncountStream x id).closedStreams := by
    rw [hcloseds, List.erase_append_right _ fun hmem => by
      cases hclosed.symm.trans ((h.closed_mem x).1 hmem).2]
    simp
  refine ⟨chains', h2.of_same ⟨rfl, rfl, rfl, fun _ => SameKind.refl _, hidle'.symm, ?_,
    hclosed'.symm, ?_, fun k => by cases k <;> rfl⟩⟩
  · refine Eq.trans ?_ (congrArg List.length hidle').symm
    rw [hidles, ← h.idle_num]
    exact hnumIdle
  · refine Eq.trans ?_ (congrArg List.length hclosed').symm
    rw [hcloseds, ← h.closed_num]
    exact hnumClosed

/-- **`nghttp2_session_close_stream`.** -/
theorem Book.closeStream (hres : s.closeStream id = .ok s') :
    ∃ chains', Book s' chains' extra [] := by
  unfold Session.closeStream at hres
  cases hx : s.getStream id with
  | none =>
    rw [hx] at hres
    cases hres
    exact ⟨chains, h⟩
  | some x =>
    rw [hx] at hres
    obtain ⟨hsame, hinfo⟩ := releaseItem_same s x
    refine (h.of_same hsame).finishClose ?_ hres
    rw [getStream_eq_some_iff, getStreamRaw, hsame.streams, hinfo]
    exact getStream_eq_some_iff.1 hx

/-! ## Events of the stream table -/

/-- **A stream is moved.** -/
theorem Book.reprioritizeStream
    (hres : s.reprioritizeStream x pri = .ok s') : ∃ chains', Book s' chains' extra [] := by
  rcases reprioritizeStream_cases hres with rfl | ⟨s1, d, pri', t, hdep, hmove, rfl⟩
  · exact ⟨chains, h⟩
  · obtain ⟨chains', h1⟩ := h.resolveDep hdep
    exact ⟨chains', h1.of_same (.of_tree (moveBelow_eq hmove).1)⟩

/-- **A push is fulfilled**: the stream becomes an outgoing or an incoming one. -/
theorem Book.fulfill (hx : s.getStream id = some x)
    (hpush : (s.info x).push = true)
    (hs' : s' = { s.modifyInfo x fun i => { i with state := .opened, push := false } with
      numOutgoingStreams := s'.numOutgoingStreams, numIncomingStreams := s'.numIncomingStreams
      numIncomingReservedStreams := s'.numIncomingReservedStreams })
    (hout : s'.numOutgoingStreams = s.numOutgoingStreams + if s.isMyStreamId id then 1 else 0)
    (hinc : s'.numIncomingStreams = s.numIncomingStreams + if s.isMyStreamId id then 0 else 1)
    (hprom : s'.numIncomingReservedStreams =
      s.numIncomingReservedStreams - if s.isMyStreamId id then 0 else 1) :
    Book s' chains extra [] := by
  obtain ⟨-, hid, hclosed, -⟩ := h.of_getStream hx
  have hcloseds : s'.closedStreams = s.closedStreams := by rw [hs']; rfl
  have hnumClosed : s'.numClosedStreams = s.numClosedStreams := by rw [hs']; rfl
  refine h.modify (f := fun i => { i with state := .opened, push := false }) hx ?_ ?_ ?_ nofun
    fun k => ?_
  · rw [hcloseds, hnumClosed]
    exact hs'
  · rw [hcloseds]
    simp [hclosed]
  · rw [hcloseds, hnumClosed, h.closed_num]
  unfold Session.tally
  rw [hid]
  cases hmine : s.isMyStreamId id
  · cases k
    all_goals simp [num, tallyOf, hclosed, hpush, hout, hinc, hprom, hmine]
  · cases k
    all_goals simp [num, tallyOf, hclosed, hpush, hout, hinc, hprom, hmine]

/-- **Events that open no stream.** -/
theorem Book.settle (hres : s.settle e = .ok s') : ∃ chains', Book s' chains' extra [] := by
  -- nothing is opened or closed
  have hsame : ∀ {s'}, SameBooks s s' → ∃ chains', Book s' chains' extra [] :=
    fun hs => ⟨chains, h.of_same hs⟩
  cases settles_of_settle hres with
  | same => exact ⟨chains, h⟩
  | reprioritize hres => exact h.reprioritizeStream hres
  | close hres => exact h.closeStream hres
  | setState hx hst =>
    exact hsame (.modifyInfo s _ ⟨rfl, rfl, iff_of_false hst (h.of_getStream hx).2.2.2⟩)
  | shutdown => exact hsame (.modifyInfo s _ ⟨rfl, rfl, Iff.rfl⟩)
  | fulfillMine hx hpush hmine =>
    exact ⟨chains, h.fulfill hx hpush rfl (by simp [hmine]) (by simp [hmine, modifyInfo])
      (by simp [hmine, modifyInfo])⟩
  | fulfillPeer hx hpush hmine =>
    exact ⟨chains, h.fulfill hx hpush rfl (by simp [hmine, modifyInfo]) (by simp [hmine])
      (by simp [hmine])⟩
  | offered | submitStream | setNextStreamId | setLimits | sendGoaway =>
    exact hsame (.of_eq rfl rfl)
  | tree halloc => exact hsame (.of_tree halloc)

end

/-- A call of `nghttp2_session_open_stream` is made before the books change. -/
theorem openCall_same (hc : s.openCall e = some c) : SameBooks s c.session := by
  cases starts_of_openCall hc <;> exact .of_eq rfl rfl

/-- **One event** keeps the books, if it reuses no idle stream but the last of its chain. -/
theorem Book.step (h : Book s chains extra []) (hreuse : s.ReuseSafe e)
    (hres : s.step e = .ok s') : ∃ chains', Book s' chains' extra [] := by
  cases hc : s.openCall e with
  | none => exact h.settle (settle_of_step hc hres)
  | some c =>
    obtain ⟨r, hopen, rfl⟩ := openStream_of_step hc hres
    obtain ⟨chains', h'⟩ := (h.of_same (openCall_same hc)).openStream (hreuse c hc) hopen
    split_ifs
    · exact ⟨chains', h'.of_same (.modifyInfo r.1 r.2 ⟨rfl, rfl, Iff.rfl⟩)⟩
    · exact ⟨chains', h'⟩

/-! ## A table that has lost streams -/

/-- The table counts more streams than can be found in it. -/
def Short (s : Session) : Prop :=
  ∃ chains, Linked mapHash s.streams chains ∧ total s.streams.tablelen chains < s.streams.size

/-- It depends on the table only. -/
theorem Short.of_streams (h : s.Short) (hs : s'.streams = s.streams) : s'.Short := by
  unfold Short
  rw [hs]
  exact h

/-- Destroying a stream does not help. -/
theorem Short.destroyStream (h : s.Short) (hres : s.destroyStream x = .ok s') : s'.Short := by
  obtain ⟨t, -, hres⟩ := bind_eq_ok.1 hres
  cases hres
  obtain ⟨chains, hl, hlt⟩ := h
  by_cases hfound : ∃ a, Holds chains a ∧ s.streams.key a = s.streamId x
  · obtain ⟨a, ha, hkey⟩ := hfound
    obtain ⟨-, chains', hl', -, htot, -⟩ := hl.remove mapHash_lt hlt.le ha
    rw [hkey] at hl' htot
    refine ⟨chains', hl', ?_⟩
    show total (s.streams.remove mapHash (s.streamId x)).1.tablelen chains' <
      (s.streams.remove mapHash (s.streamId x)).1.size
    omega
  · have habs := hl.remove_of_absent (k := s.streamId x) fun c hc hck => hfound ⟨c, hc, hck⟩
    exact Short.of_streams ⟨chains, hl, hlt⟩ (congrArg Prod.fst habs)

/-- Evicting streams does not help. -/
theorem Short.adjustClosedLoop (h : s.Short)
    (hres : adjustClosedLoop offset n s = .ok s') : s'.Short := by
  refine adjustClosedLoop_rule h (fun h _ hdes => ?_) hres
  exact (h.destroyStream hdes).of_streams rfl

/-- Closing a stream does not bring a lost one back. -/
theorem Short.finishClose (h : s.Short) (hres : s.finishClose x id = .ok s') : s'.Short := by
  have h1 : Short ((s.uncountStream x id).modifyInfo x fun i => { i with closed := true }) := by
    refine h.of_streams ?_
    rw [uncountStream_eq]
    rfl
  unfold Session.finishClose at hres
  dsimp only at hres
  split_ifs at hres
  · refine Short.adjustClosedLoop ?_ hres
    exact h1.of_streams rfl
  · exact h1.destroyStream hres

/-- **`nghttp2_session_open_stream`** loses streams, if the idle stream it reuses is not the
last of its chain. -/
theorem Book.openStream_short (h : Book c.session chains extra []) (hlast : ¬ c.ReusesLast)
    (hst : c.initialState ≠ .idle)
    (hres : c.session.openStream c.id c.pri c.initialState = .ok (s', x)) : s'.Short := by
  obtain ⟨s0, s1, s2, r, d, pri, hreuse, hresolve, hprep, hlist, hlink⟩ := openStream_eq_ok hres
  -- the stream that is reused has a successor when it is initialised
  unfold OpenCall.ReusesLast at hlast
  simp only [hprep, Except.ok.injEq, Prod.mk.injEq] at hlast
  push Not at hlast
  obtain ⟨_, y, _, _, ⟨rfl, rfl, -, -⟩, hnext⟩ := hlast
  obtain ⟨⟨c0, h0⟩, hkey⟩ := h.reuseStream hreuse
  obtain ⟨c1, h1⟩ := h0.resolveDep hresolve
  have hlt := (h0.bound.2 y (h0.hole y (by simp)).1).2
  have hkey1 : s1.streams.key y = c.id :=
    ((resolveDep_trims h0.tabled hresolve).key y hlt).trans (hkey y rfl)
  obtain ⟨chains', hcut, hshort⟩ :=
    h1.linked.cut_short mapHash_lt h1.size (h1.hole y (by simp)).1 hnext
  rw [hkey1] at hcut
  -- nothing that follows touches the table
  obtain ⟨⟨s4, x4⟩, hplace, hlist⟩ := bind_eq_ok.1 hlist
  obtain ⟨s5, hcount, hlist⟩ := bind_eq_ok.1 hlist
  obtain ⟨rfl, rfl⟩ := Prod.mk.inj (Except.ok.inj hlist)
  obtain ⟨rfl, rfl⟩ := Prod.mk.inj (Except.ok.inj hplace)
  have h4 : Short (s1.initStream y c.id pri.weight c.initialState) := ⟨chains', hcut, hshort⟩
  have h5 : s5.Short := by
    cases hinit : c.initialState with
    | idle => exact absurd hinit hst
    | _ =>
      rw [hinit] at hcount
      unfold countStream at hcount
      dsimp only at hcount
      split_ifs at hcount
      all_goals
        cases hcount
        exact hinit ▸ h4.of_streams rfl
  rcases linkStream_cases hlink with rfl | rfl
  · exact h5
  · exact h5.of_streams rfl

/-- **One event** that reuses a stream that is not the last of its chain. -/
theorem Book.step_short (h : Book s chains extra []) (hreuse : ¬ s.ReuseSafe e)
    (hres : s.step e = .ok s') : s'.Short := by
  unfold ReuseSafe at hreuse
  push Not at hreuse
  obtain ⟨c, hc, hlast⟩ := hreuse
  -- an idle stream is opened with an id that is not in the table
  have hst : c.initialState ≠ .idle := fun hst => by
    cases starts_of_openCall hc with
    | recvPriority _ _ _ hraw => exact hlast (reusesLast_of_getStreamRaw hraw)
    | _ => cases hst
  obtain ⟨r, hopen, rfl⟩ := openStream_of_step hc hres
  have h1 := (h.of_same (openCall_same hc)).openStream_short hlast hst hopen
  split_ifs
  all_goals exact h1.of_streams rfl

/-! ## The counters of a session -/

/-- The stream `x` is in the table. -/
def InTable (s : Session) (x : Ptr) : Prop := s.getStreamRaw (s.streamId x) = some x

/-- **Stream accounting**: the counters are the numbers of streams that they stand for, and the
lists hold the closed and the idle streams. -/
structure Accounted (s : Session) : Prop where
  count : ∀ k, {x | s.InTable x ∧ s.tally x = some k}.encard = s.num k
  closed : ∀ x, x ∈ s.closedStreams ↔ s.InTable x ∧ (s.info x).closed = true
  idle : ∀ x, x ∈ s.idleStreams ↔ s.InTable x ∧ (s.info x).state = .idle
  nodup : (s.closedStreams ++ s.idleStreams).Nodup
  numClosed : s.numClosedStreams = s.closedStreams.length
  numIdle : s.numIdleStreams = s.idleStreams.length
  le_size : s.numClosedStreams + s.numIdleStreams ≤ s.streams.size
  active : {x | s.getStream (s.streamId x) = some x}.encard = s.numActiveStreams

/-- The table as it is walked. -/
theorem inTable_iff (hl : Linked mapHash s.streams chains)
    (htotal : total s.streams.tablelen chains ≤ s.streams.size) : s.InTable x ↔ Holds chains x := by
  rw [InTable, getStreamRaw_eq_some_iff hl htotal]
  exact and_iff_left rfl

/-- The closed, the idle and the other streams make up the table. -/
theorem encard_parts (hclosed : ∀ x, x ∈ s.closedStreams ↔ s.InTable x ∧ (s.info x).closed = true)
    (hidle : ∀ x, x ∈ s.idleStreams ↔ s.InTable x ∧ (s.info x).state = .idle)
    (hnodup : (s.closedStreams ++ s.idleStreams).Nodup) :
    {x | s.InTable x}.encard = {x | s.getStream (s.streamId x) = some x}.encard +
      (s.closedStreams.length + s.idleStreams.length : ℕ) := by
  have hset : {x | s.InTable x} = {x | s.getStream (s.streamId x) = some x} ∪
      {x | x ∈ s.closedStreams ++ s.idleStreams} := by
    ext x
    simp only [Set.mem_union, Set.mem_ofPred_eq, getStream_eq_some_iff, List.mem_append, hclosed,
      hidle, InTable]
    cases (s.info x).closed <;> tauto
  have hdisj : Disjoint {x | s.getStream (s.streamId x) = some x}
      {x | x ∈ s.closedStreams ++ s.idleStreams} := by
    rw [Set.disjoint_left]
    intro x hx hmem
    simp only [Set.mem_ofPred_eq, getStream_eq_some_iff, List.mem_append, hclosed, hidle] at hx hmem
    obtain ⟨-, hnot, hne⟩ := hx
    rcases hmem with ⟨-, hflag⟩ | ⟨-, hst⟩
    · cases hnot.symm.trans hflag
    · exact hne hst
  rw [hset, Set.encard_union_eq hdisj, encard_mem_of_nodup hnodup, List.length_append]

/-- **Right books, as they can be checked.** -/
theorem Book.accounted (h : Book s chains 0 []) : s.Accounted := by
  have htable : ∀ x, s.InTable x ↔ Holds chains x := fun x => inTable_iff h.linked h.size.le
  have hclosed : ∀ x, x ∈ s.closedStreams ↔ s.InTable x ∧ (s.info x).closed = true := fun x => by
    rw [htable, h.closed_mem]
  have hidle : ∀ x, x ∈ s.idleStreams ↔ s.InTable x ∧ (s.info x).state = .idle := fun x => by
    rw [htable, h.idle_mem]
    simp
  have hnodup : (s.closedStreams ++ s.idleStreams).Nodup := by
    refine List.nodup_append'.2 ⟨h.closed_nodup, h.idle_nodup, fun x hx hx' => ?_⟩
    obtain ⟨hheld, hflag⟩ := (h.closed_mem x).1 hx
    cases (h.idle_open x hheld ((h.idle_mem x).1 hx').2.1).1.symm.trans hflag
  have hparts := encard_parts hclosed hidle hnodup
  simp only [htable] at hparts
  rw [h.linked.encard_holds mapHash_lt, h.size, ← h.closed_num, ← h.idle_num] at hparts
  have hle : s.numClosedStreams + s.numIdleStreams ≤ s.streams.size := by
    have : ((s.numClosedStreams + s.numIdleStreams : ℕ) : ℕ∞) ≤ s.streams.size := by
      rw [hparts]
      exact le_add_self
    exact_mod_cast this
  refine ⟨fun k => ?_, hclosed, hidle, hnodup, h.closed_num, h.idle_num, hle, ?_⟩
  · obtain ⟨n, hn, hnum⟩ := h.count k
    simp only [htable, hn, hnum]
    rfl
  · rw [numActiveStreams, Nat.sub_sub]
    have hsplit : (s.streams.size : ℕ∞) =
        (s.streams.size - (s.numClosedStreams + s.numIdleStreams) : ℕ) +
          (s.numClosedStreams + s.numIdleStreams : ℕ) := by
      norm_cast
      omega
    rw [hsplit] at hparts
    exact (WithTop.add_right_cancel (ENat.natCast_ne_top _) hparts).symm

/-- A table that is accounted for has lost no stream. -/
theorem Accounted.total_eq (h : s.Accounted) (hl : Linked mapHash s.streams chains)
    (hle : total s.streams.tablelen chains ≤ s.streams.size) :
    total s.streams.tablelen chains = s.streams.size := by
  have hparts := encard_parts h.closed h.idle h.nodup
  have htable : ∀ x, s.InTable x ↔ Holds chains x := fun x => inTable_iff hl hle
  simp only [htable] at hparts
  rw [hl.encard_holds mapHash_lt, h.active, numActiveStreams, ← h.numClosed, ← h.numIdle] at hparts
  have hsize := h.le_size
  norm_cast at hparts
  omega

/-- The size is the number of entries. -/
theorem Accounted.entries_length (h : s.Accounted) (ht : s.Tabled) :
    s.streams.entries.length = s.streams.size := by
  obtain ⟨chains, hl, hle, -⟩ := ht
  rw [ChainMap.entries_length mapHash_lt hl hle]
  exact h.total_eq hl hle

/-- A short table is found out. -/
theorem Short.not_accounted (h : s.Short) : ¬ s.Accounted := by
  intro ha
  obtain ⟨chains, hl, hlt⟩ := h
  exact hlt.ne (ha.total_eq hl hlt.le)

/-- A counter that is too large. -/
theorem Book.not_accounted (h : Book s chains extra []) {k : Tally} (hk : extra k ≠ 0) :
    ¬ s.Accounted := by
  intro ha
  have hcount := ha.count k
  obtain ⟨n, hn, hnum⟩ := h.count k
  have htable : ∀ x, s.InTable x ↔ Holds chains x := fun x => inTable_iff h.linked h.size.le
  simp only [htable, hn, hnum] at hcount
  norm_cast at hcount
  omega

end Session

end Nghttp2
