/-
# The invariant of the stream table

`Inv s kids chains holes` ties the parts of a session together: the hash table with
the chains `chains`, the dependency tree with the children lists `kids`, the lists of
idle and of closed streams, and the stream ids in use.  While a stream is being
opened, its object is in the table but not yet in the tree and not yet listed; it is
then one of the `holes`.

* `Inv.drop`: destroying a stream succeeds and keeps the invariant;
* `Inv.adjustIdleStream`, `Inv.adjustClosedStream`: so do the loops that enforce the
  limits, and they destroy just the oldest streams of their list (`Evicts`).
-/
import Nghttp2.SessionTree

namespace Nghttp2.Session

open ChainMap ParentForest

/-- The stream id has been used: a stream with this id was opened, or its request was
sent. -/
def Used (s : Session) (id : ℕ) : Prop :=
  if s.isMyStreamId id then id < s.nextStreamId ∧ id ∉ s.unsent else id ≤ s.lastRecvStreamId

/-- **The invariant of a session.** -/
structure Inv (s : Session) (kids : Ptr → List Ptr) (chains : ℕ → List Ptr) (holes : List Ptr) :
    Prop where
  tree : WholeTree s.tree kids
  linked : Linked mapHash s.streams chains
  size : total s.streams.tablelen chains = s.streams.size
  held : ∀ {x}, Holds chains x → x ≠ root ∧ x < s.tree.allocated ∧ s.freed x = false
  inTree : ∀ {x}, InTree s.tree.dep x → x = root ∨ Holds chains x
  freed : ∀ {x}, s.freed x = true → x ≠ root ∧ x < s.tree.allocated
  idle_mem : ∀ {x}, x ∉ holes →
    (x ∈ s.idleStreams ↔ Holds chains x ∧ (s.info x).state = .idle)
  idle_tree : ∀ {x}, x ∉ holes → x ∈ s.idleStreams → InTree s.tree.dep x
  idle_nodup : s.idleStreams.Nodup
  idle_num : s.numIdleStreams = s.idleStreams.length
  closed_held : ∀ {x}, x ∈ s.closedStreams →
    Holds chains x ∧ (s.info x).closed = true ∧ (s.info x).state ≠ .idle ∧ x ∉ holes
  closed_nodup : s.closedStreams.Nodup
  closed_num : s.numClosedStreams = s.closedStreams.length
  hole_out : ∀ {x}, x ∈ holes → Holds chains x ∧ ¬ InTree s.tree.dep x
  used : ∀ {x}, Holds chains x → (s.info x).state ≠ .idle → s.Used (s.streamId x)
  unsent : ∀ {id}, id ∈ s.unsent → s.isMyStreamId id = true ∧ id < s.nextStreamId
  unsent_nodup : s.unsent.Nodup
  next_mine : s.isMyStreamId s.nextStreamId = true

variable {s s' : Session} {kids kids' : Ptr → List Ptr} {chains chains' : ℕ → List Ptr}
  {holes : List Ptr} {x y : Ptr} {id : ℕ}

/-- An id of the peer is used up to the last one received. -/
theorem used_peer_iff (hid : s.isMyStreamId id = false) : s.Used id ↔ id ≤ s.lastRecvStreamId := by
  unfold Used
  rw [if_neg (by simp [hid])]

/-- An own id is used when it was handed out and sent. -/
theorem used_own_iff (hid : s.isMyStreamId id = true) :
    s.Used id ↔ id < s.nextStreamId ∧ id ∉ s.unsent := by
  unfold Used
  rw [if_pos hid]

/-- Ids that have been taken stay taken when the bounds grow. -/
theorem taken_mono {P P' : Prop} (hserver : s'.server = s.server)
    (hnext : s.nextStreamId ≤ s'.nextStreamId) (hlast : s.lastRecvStreamId ≤ s'.lastRecvStreamId)
    (hP : id < s.nextStreamId → P → P')
    (h : if s.isMyStreamId id then id < s.nextStreamId ∧ P else id ≤ s.lastRecvStreamId) :
    if s'.isMyStreamId id then id < s'.nextStreamId ∧ P' else id ≤ s'.lastRecvStreamId := by
  have hmine : s'.isMyStreamId id = s.isMyStreamId id := by
    rw [isMyStreamId, isMyStreamId, hserver]
  rw [hmine]
  split_ifs at h ⊢
  · exact ⟨h.1.trans_le hnext, hP h.1 h.2⟩
  · exact h.trans hlast

section

variable (h : Inv s kids chains holes)
include h

theorem Inv.getStreamRaw_iff : s.getStreamRaw id = some x ↔ Holds chains x ∧ s.streamId x = id :=
  find_eq_some_iff mapHash_lt h.linked h.size.le

theorem Inv.getStreamRaw_eq_none :
    s.getStreamRaw id = none ↔ ∀ x, Holds chains x → s.streamId x ≠ id :=
  find_eq_none_iff mapHash_lt h.linked h.size.le

theorem Inv.not_freed_of_inTree (hx : InTree s.tree.dep x) : s.freed x = false := by
  rcases h.inTree hx with rfl | hx
  · by_contra hne
    exact (h.freed (by simpa using hne)).1 rfl
  · exact (h.held hx).2.2

theorem Inv.of_getStream (hx : s.getStream id = some x) :
    Holds chains x ∧ s.streamId x = id ∧ (s.info x).closed = false ∧ (s.info x).state ≠ .idle := by
  rw [getStream, Option.filter_eq_some_iff] at hx
  obtain ⟨hraw, hflags⟩ := hx
  obtain ⟨hheld, hid⟩ := h.getStreamRaw_iff.1 hraw
  simpa [hheld, hid] using hflags

end

/-! ## Destroying streams -/

/-- The session `s'` is `s` after the streams `l` were destroyed. -/
structure Evicts (s s' : Session) (chains chains' : ℕ → List Ptr) (l : List Ptr) : Prop where
  rest : s' = { s with
    tree := s'.tree, streams := s'.streams, freed := s'.freed, idleStreams := s'.idleStreams,
    numIdleStreams := s'.numIdleStreams, closedStreams := s'.closedStreams,
    numClosedStreams := s'.numClosedStreams }
  holds : ∀ y, Holds chains' y ↔ Holds chains y ∧ y ∉ l
  key : s'.streams.key = s.streams.key
  inTree : ∀ y, InTree s'.tree.dep y ↔ InTree s.tree.dep y ∧ y ∉ l
  freed : ∀ y, s'.freed y = true ↔ s.freed y = true ∨ y ∈ l
  allocated : s'.tree.allocated = s.tree.allocated
  pending : s'.tree.pending = s.tree.pending

theorem Evicts.refl (s : Session) (chains : ℕ → List Ptr) : Evicts s s chains chains [] :=
  ⟨rfl, by simp, rfl, by simp, by simp, rfl, rfl⟩

theorem Evicts.trans {s1 s2 s3 : Session} {c1 c2 c3 : ℕ → List Ptr} {l1 l2 : List Ptr}
    (h : Evicts s1 s2 c1 c2 l1) (h' : Evicts s2 s3 c2 c3 l2) : Evicts s1 s3 c1 c3 (l1 ++ l2) where
  rest := by
    rw [h'.rest, h.rest]
  holds y := by rw [h'.holds, h.holds, List.mem_append, not_or, and_assoc]
  key := h'.key.trans h.key
  inTree y := by rw [h'.inTree, h.inTree, List.mem_append, not_or, and_assoc]
  freed y := by rw [h'.freed, h.freed, List.mem_append, or_assoc]
  allocated := h'.allocated.trans h.allocated
  pending := h'.pending.trans h.pending

/-- **Destroying a stream** succeeds.  The stream leaves the table and the tree; once
it is taken off its list too, the invariant holds again. -/
theorem Inv.drop (h : Inv s kids chains holes) (hx : Holds chains x) (hhole : x ∉ holes) :
    ∃ s1 kids' chains', s.destroyStream x = .ok s1 ∧
      s1 = { s with tree := s1.tree, streams := s1.streams, freed := s1.freed } ∧
      ∀ s', s' = { s1 with
          idleStreams := s.idleStreams.erase x
          numIdleStreams := (s.idleStreams.erase x).length
          closedStreams := s.closedStreams.erase x
          numClosedStreams := (s.closedStreams.erase x).length } →
        Inv s' kids' chains' holes ∧ Evicts s s' chains chains' [x] := by
  obtain ⟨hroot, hlt, -⟩ := h.held hx
  obtain ⟨t', kids', hleave, hch⟩ := h.tree.leave hroot
  obtain ⟨-, chains', hlinked, hholds, htotal, hkey⟩ := h.linked.remove mapHash_lt h.size.le hx
  refine ⟨{ s with
      tree := t'
      streams := (s.streams.remove mapHash (s.streamId x)).1
      freed := Function.update s.freed x true }, kids', chains', ?_, rfl, ?_⟩
  · simp only [destroyStream, hleave, ok_bind]
    rfl
  rintro s' rfl
  refine ⟨{
    tree := hch.tree
    linked := hlinked
    size := balanced h.size htotal
    held := fun {y} hy => ?_
    inTree := fun {y} hy => ?_
    freed := fun {y} hy => ?_
    idle_mem := fun {y} hy => ?_
    idle_tree := fun {y} hy hmem => ?_
    idle_nodup := h.idle_nodup.erase x
    idle_num := rfl
    closed_held := fun {y} hy => ?_
    closed_nodup := h.closed_nodup.erase x
    closed_num := rfl
    hole_out := fun {y} hy => ?_
    used := fun {y} hy hne => ?_
    unsent := h.unsent
    unsent_nodup := h.unsent_nodup
    next_mine := h.next_mine }, {
    rest := rfl
    holds := fun y => by rw [hholds, List.mem_singleton]
    key := hkey
    inTree := fun y => by rw [hch.inTree, List.mem_singleton]
    freed := fun y => ?_
    allocated := hch.allocated
    pending := hch.pending }⟩
  · obtain ⟨hy, hyx⟩ := (hholds y).1 hy
    obtain ⟨h1, h2, h3⟩ := h.held hy
    exact ⟨h1, hch.allocated ▸ h2, (Function.update_of_ne hyx _ _).trans h3⟩
  · obtain ⟨hy, hyx⟩ := (hch.inTree y).1 hy
    exact (h.inTree hy).imp_right fun hy => (hholds y).2 ⟨hy, hyx⟩
  · show y ≠ root ∧ y < t'.allocated
    rw [hch.allocated]
    rcases eq_or_ne y x with rfl | hyx
    · exact ⟨hroot, hlt⟩
    · exact h.freed ((Function.update_of_ne hyx _ _).symm.trans hy)
  · rw [h.idle_nodup.mem_erase_iff, h.idle_mem hy, hholds]
    tauto
  · obtain ⟨hyx, hmem⟩ := h.idle_nodup.mem_erase_iff.1 hmem
    exact (hch.inTree y).2 ⟨h.idle_tree hy hmem, hyx⟩
  · obtain ⟨hyx, hmem⟩ := h.closed_nodup.mem_erase_iff.1 hy
    obtain ⟨hheld, hrest⟩ := h.closed_held hmem
    exact ⟨(hholds y).2 ⟨hheld, hyx⟩, hrest⟩
  · obtain ⟨hheld, hout⟩ := h.hole_out hy
    have hyx : y ≠ x := fun hyx => hhole (hyx ▸ hy)
    exact ⟨(hholds y).2 ⟨hheld, hyx⟩, fun hin => hout ((hch.inTree y).1 hin).1⟩
  · have := h.used ((hholds y).1 hy).1 hne
    rwa [streamId, ← hkey] at this
  · rcases eq_or_ne y x with rfl | hyx
    · simp
    · simp [hyx]

/-- The streams that the idle limit evicts when `n` more idle streams are kept. -/
def evictable (s : Session) (n : ℕ) : List Ptr :=
  s.idleStreams.take (s.numIdleStreams + n - s.idleMax)

theorem Inv.notMem_closed (h : Inv s kids chains holes) (hhole : x ∉ holes)
    (hx : x ∈ s.idleStreams) : x ∉ s.closedStreams := fun hc =>
  (h.closed_held hc).2.2.1 ((h.idle_mem hhole).1 hx).2

/-- **The idle limit**: the loop destroys the oldest idle streams and no others, as
long as the stream being opened is not among them. -/
theorem Inv.adjustIdleLoop (n : ℕ) (h : Inv s kids chains holes)
    (hn : s.numIdleStreams ≤ n + s.idleMax) (hhole : ∀ x ∈ s.evictable 0, x ∉ holes) :
    ∃ s' kids' chains', adjustIdleLoop n s = .ok s' ∧ Inv s' kids' chains' holes ∧
      Evicts s s' chains chains' (s.evictable 0) ∧
      s'.idleStreams = s.idleStreams.drop (s.numIdleStreams - s.idleMax) ∧
      s'.closedStreams = s.closedStreams := by
  induction n generalizing s kids chains with
  | zero =>
    have hk : s.numIdleStreams - s.idleMax = 0 := by omega
    refine ⟨s, kids, chains, rfl, h, ?_, by simp [hk], rfl⟩
    have hnil : s.evictable 0 = [] := by simp [evictable, hk]
    exact hnil ▸ Evicts.refl s chains
  | succ n ih =>
    by_cases hgt : s.numIdleStreams > s.idleMax
    · cases hidle : s.idleStreams with
      | nil =>
        have := h.idle_num
        rw [hidle, List.length_nil] at this
        omega
      | cons head next =>
        have hk : s.numIdleStreams - s.idleMax = s.numIdleStreams - 1 - s.idleMax + 1 := by omega
        have hev : s.evictable 0 = head :: next.take (s.numIdleStreams - 1 - s.idleMax) := by
          rw [evictable, hidle, Nat.add_zero, hk, List.take_succ_cons]
        have hhead : head ∉ holes := hhole head (by rw [hev]; simp)
        have hmem : head ∈ s.idleStreams := by rw [hidle]; simp
        obtain ⟨s1, k1, c1, hres, hs1, hdrop⟩ := h.drop ((h.idle_mem hhead).1 hmem).1 hhead
        set s2 : Session :=
          { s1 with idleStreams := next, numIdleStreams := s1.numIdleStreams - 1 } with hs2
        have hnum : s.numIdleStreams = next.length + 1 := by
          rw [h.idle_num, hidle, List.length_cons]
        obtain ⟨hinv, hevict⟩ := hdrop s2 (by
          rw [hs2, hs1, hidle, List.erase_cons_head, List.erase_of_not_mem
            (h.notMem_closed hhead hmem), ← h.closed_num]
          simp only [hnum, Nat.add_sub_cancel])
        have hmax : s2.idleMax = s.idleMax := by rw [hs2, hs1]; rfl
        have hnum2 : s2.numIdleStreams = s.numIdleStreams - 1 := by rw [hs2, hs1]
        have hev2 : s2.evictable 0 = next.take (s.numIdleStreams - 1 - s.idleMax) := by
          rw [evictable, Nat.add_zero, hmax, hnum2]
        obtain ⟨s', kids', chains', hres', hinv', hevict', hidle', hclosed'⟩ := ih hinv
          (by omega) fun x hx => hhole x (by rw [hev]; rw [hev2] at hx; simp [hx])
        refine ⟨s', kids', chains', ?_, hinv', ?_, ?_, ?_⟩
        · rw [Session.adjustIdleLoop, if_pos hgt, hidle]
          simp only [hres, ok_bind]
          exact hres'
        · have := hevict.trans hevict'
          rwa [hev2, List.singleton_append, ← hev] at this
        · rw [hidle', hk, List.drop_succ_cons, hmax, hnum2]
        · rw [hclosed', hs2, hs1]
    · have hk : s.numIdleStreams - s.idleMax = 0 := by omega
      refine ⟨s, kids, chains, ?_, h, ?_, by simp [hk], rfl⟩
      · rw [Session.adjustIdleLoop, if_neg hgt]
        rfl
      · have hnil : s.evictable 0 = [] := by simp [evictable, hk]
        exact hnil ▸ Evicts.refl s chains

/-- **The limit on closed streams**: the loop destroys some of the oldest closed
streams. -/
theorem Inv.adjustClosedLoop (offset n : ℕ) (h : Inv s kids chains holes)
    (hn : s.numClosedStreams ≤ n) :
    ∃ s' kids' chains' k, adjustClosedLoop offset n s = .ok s' ∧ Inv s' kids' chains' holes ∧
      Evicts s s' chains chains' (s.closedStreams.take k) ∧
      s'.idleStreams = s.idleStreams ∧ s'.closedStreams = s.closedStreams.drop k := by
  induction n generalizing s kids chains with
  | zero => exact ⟨s, kids, chains, 0, rfl, h, Evicts.refl s chains, rfl, rfl⟩
  | succ n ih =>
    rw [Session.adjustClosedLoop]
    split
    next hgt =>
      simp only [Bool.and_eq_true, decide_eq_true_eq] at hgt
      cases hclosed : s.closedStreams with
      | nil =>
        have := h.closed_num
        rw [hclosed, List.length_nil] at this
        omega
      | cons head next =>
        have hmem : head ∈ s.closedStreams := by rw [hclosed]; simp
        obtain ⟨hheld, -, hstate, hhead⟩ := h.closed_held hmem
        have hidle : head ∉ s.idleStreams := fun hi => hstate ((h.idle_mem hhead).1 hi).2
        obtain ⟨s1, k1, c1, hres, hs1, hdrop⟩ := h.drop hheld hhead
        set s2 : Session :=
          { s1 with closedStreams := next, numClosedStreams := s1.numClosedStreams - 1 } with hs2
        have hnum : s.numClosedStreams = next.length + 1 := by
          rw [h.closed_num, hclosed, List.length_cons]
        obtain ⟨hinv, hevict⟩ := hdrop s2 (by
          rw [hs2, hs1, hclosed, List.erase_cons_head, List.erase_of_not_mem hidle, ← h.idle_num]
          simp only [hnum, Nat.add_sub_cancel])
        have hnum2 : s2.numClosedStreams = s.numClosedStreams - 1 := by rw [hs2, hs1]
        obtain ⟨s', kids', chains', k, hres', hinv', hevict', hidle', hclosed'⟩ := ih hinv
          (by omega)
        have hc2 : s2.closedStreams = next := rfl
        refine ⟨s', kids', chains', k + 1, ?_, hinv', ?_, ?_, ?_⟩
        · simp only [hres, ok_bind]
          exact hres'
        · have := hevict.trans hevict'
          rwa [List.take_succ_cons]
        · rw [hidle', hs2, hs1]
        · rw [hclosed', hc2, List.drop_succ_cons]
    next => exact ⟨s, kids, chains, 0, rfl, h, Evicts.refl s chains, rfl, rfl⟩

end Nghttp2.Session
