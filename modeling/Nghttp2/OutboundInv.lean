/-
# Who owns an outbound item

An item that has been allocated and not freed is in one place: in one of the three
queues, in the `item` field of one stream of the table, in `aob`, or in the hands of the
function that runs.

* `Owned` is the invariant, `Loose` the state of an item in the hands of a function;
* `Passes` says what an operation may do to the items it is not about;
* `Owned.submit`, `Owned.closeStream`, `Owned.carry` and the lemmas on single actions keep
  the invariant.
-/
import Nghttp2.Outbound

namespace Nghttp2

open ChainMap ParentForest
open Function (update update_of_ne update_self)

namespace Outbound

variable {o o' : Outbound} {kids kids' : Ptr → List Ptr} {chains chains' : ℕ → List Ptr}
  {x y : Ptr} {i j : ItemPtr} {id : ℕ}

/-! ## The invariant -/

/-- The item field of a stream. -/
abbrev itemOf (o : Outbound) (x : Ptr) : Option ItemPtr := o.session.tree.sched.item x

/-- How often an item has been freed. -/
abbrev freed (o : Outbound) (i : ItemPtr) : ℕ := o.session.items.freed i

/-- `aob.item`. -/
abbrev aob (o : Outbound) : Option ItemPtr := o.session.items.aob

/-- The stream `x` of the table carries the item `i`. -/
def Attached (o : Outbound) (chains : ℕ → List Ptr) (x : Ptr) (i : ItemPtr) : Prop :=
  Holds chains x ∧ o.itemOf x = some i

/-- DATA that is not the last of its stream. -/
def Frame.dataToBeContinued : Frame → Prop
  | .data f => f.eof = false
  | _ => False

/-- **The invariant of the sending side.** -/
structure Owned (o : Outbound) (kids : Ptr → List Ptr) (chains : ℕ → List Ptr) : Prop where
  inv : Session.Inv o.session kids chains []
  rootItem : o.itemOf root = none
  nodup : o.queues.Nodup
  flag : ∀ i, o.session.items.queued i = true ↔ i ∈ o.queues
  queued : ∀ {i}, i ∈ o.queues → i < o.allocated ∧ o.freed i = 0 ∧ o.aob ≠ some i ∧
    ∀ f, (o.item i).frame ≠ .data f
  attached : ∀ {x i}, o.Attached chains x i → i < o.allocated ∧ o.freed i = 0 ∧ i ∉ o.queues ∧
    o.session.streamId x = (o.item i).streamId ∧ Frame.attachable (o.item i).frame
  active : ∀ {i}, o.aob = some i → i < o.allocated ∧ o.freed i = 0
  live : ∀ {x i}, o.aob = some i → o.Attached chains x i → o.session.Live x
  sent : ∀ {x i}, o.sent = true → o.aob = some i → o.Attached chains x i →
    Frame.dataToBeContinued (o.item i).frame
  once : ∀ i, o.freed i ≤ 1
  fresh : ∀ {i}, o.allocated ≤ i → o.freed i = 0
  state : o.state = .popItem ↔ o.aob = none

/-- The item is held by the function that runs, and perhaps by a stream. -/
structure InHand (o : Outbound) (i : ItemPtr) : Prop where
  allocated : i < o.allocated
  freed : o.freed i = 0
  queue : i ∉ o.queues
  aob : o.aob ≠ some i

/-- The item is held by the function that runs, and by nothing else. -/
structure Loose (o : Outbound) (chains : ℕ → List Ptr) (i : ItemPtr) : Prop extends InHand o i where
  stream : ∀ x, ¬ o.Attached chains x i

/-- A stream that carries an item is found under the stream id of the item. -/
theorem Owned.getStreamRaw (h : Owned o kids chains) (hx : o.Attached chains x i) :
    o.session.getStreamRaw (o.item i).streamId = some x :=
  h.inv.getStreamRaw_iff.2 ⟨hx.1, (h.attached hx).2.2.2.1⟩

/-- **One stream carries an item.** -/
theorem Owned.unique (h : Owned o kids chains) (hx : o.Attached chains x i)
    (hy : o.Attached chains y i) : x = y := by
  have hx' := h.getStreamRaw hx
  rw [h.getStreamRaw hy, Option.some.injEq] at hx'
  exact hx'.symm

variable {o1 o2 o3 : Outbound} {s : Session} {f : StreamInfo → StreamInfo}

/-- If the stream is open, it is found by `nghttp2_session_get_stream`. -/
theorem getStream_eq_of_live (hraw : s.getStreamRaw id = some x) (hlive : s.Live x) :
    s.getStream id = some x := by
  rw [Session.getStream, hraw, Option.filter_some, if_pos]
  simp [hlive.1, hlive.2]

theorem getStreamRaw_of_getStream (hget : s.getStream id = some x) :
    s.getStreamRaw id = some x := by
  rw [Session.getStream, Option.filter_eq_some_iff] at hget
  exact hget.1

theorem live_of_getStream (hget : s.getStream id = some x) : s.Live x := by
  rw [Session.getStream, Option.filter_eq_some_iff] at hget
  simpa [Session.Live] using hget.2

/-- The stream that carries an active item is found by `nghttp2_session_get_stream`. -/
theorem Owned.getStream_of_active (h : Owned o kids chains) (haob : o.aob = some i)
    (hx : o.Attached chains x i) : o.session.getStream (o.item i).streamId = some x :=
  getStream_eq_of_live (h.getStreamRaw hx) (h.live haob hx)

/-! ## What happens to the other items -/

/-- The operation leaves the items alone that it is not about. -/
structure Passes (o o' : Outbound) (chains chains' : ℕ → List Ptr) : Prop where
  allocated : o.allocated ≤ o'.allocated
  attached : ∀ {x i}, i < o.allocated → o'.Attached chains' x i → o.Attached chains x i
  freed : ∀ {i}, i < o.allocated → ((∀ x, ¬ o.Attached chains x i) ∨ o.aob = some i) →
    o'.freed i = o.freed i
  queue : ∀ {i}, i < o.allocated → (i ∈ o'.queues ↔ i ∈ o.queues)
  item : ∀ {i}, i < o.allocated → i ∉ o.queues → o'.item i = o.item i
  aob : o'.aob = o.aob
  state : o'.state = o.state
  sent : o'.sent = o.sent

theorem Passes.refl (o : Outbound) (chains : ℕ → List Ptr) : Passes o o chains chains :=
  ⟨le_rfl, fun _ h => h, fun _ _ => rfl, fun _ => Iff.rfl, fun _ _ => rfl, rfl, rfl, rfl⟩

theorem Passes.trans {c1 c2 c3 : ℕ → List Ptr} (h : Passes o1 o2 c1 c2)
    (h' : Passes o2 o3 c2 c3) : Passes o1 o3 c1 c3 where
  allocated := h.allocated.trans h'.allocated
  attached hi hx := h.attached hi (h'.attached (hi.trans_le h.allocated) hx)
  freed {i} hi hloose := by
    rw [h'.freed (hi.trans_le h.allocated), h.freed hi hloose]
    rcases hloose with hloose | haob
    · exact Or.inl fun x hx => hloose x (h.attached hi hx)
    · exact Or.inr (h.aob.trans haob)
  queue hi := (h'.queue (hi.trans_le h.allocated)).trans (h.queue hi)
  item hi hq := (h'.item (hi.trans_le h.allocated) fun hq' => hq ((h.queue hi).1 hq')).trans
    (h.item hi hq)
  aob := h'.aob.trans h.aob
  state := h'.state.trans h.state
  sent := h'.sent.trans h.sent

theorem Passes.loose (h : Passes o o' chains chains') (hi : Loose o chains i) :
    Loose o' chains' i where
  allocated := hi.allocated.trans_le h.allocated
  freed := (h.freed hi.allocated (Or.inl hi.stream)).trans hi.freed
  queue hq := hi.queue ((h.queue hi.allocated).1 hq)
  aob := by rw [h.aob]; exact hi.aob
  stream x hx := hi.stream x (h.attached hi.allocated hx)

section

variable (h : Owned o kids chains)
include h

/-- The operation changes the session only as far as no item is concerned. -/
theorem Owned.carry {shut : List Ptr} (hinv : Session.Inv s kids' chains' [])
    (hcar : Session.Carries o.session s chains chains' shut)
    (hshut : ∀ x ∈ shut, ∀ i, o.aob = some i → o.itemOf x ≠ some i) :
    Owned { o with session := s } kids' chains' ∧
      Passes o { o with session := s } chains chains' := by
  have hback : ∀ {x i}, Attached { o with session := s } chains' x i → o.Attached chains x i :=
    fun hx => ⟨(hcar.held hx.1 hx.2).1, hcar.item hx.2⟩
  have hitems : s.items = o.session.items := hcar.items
  refine ⟨{
    inv := hinv
    rootItem := ?_
    nodup := h.nodup
    flag := fun i => by
      show s.items.queued i = true ↔ _
      rw [hitems]
      exact h.flag i
    queued := fun {i} hi => by
      show _ ∧ s.items.freed i = 0 ∧ s.items.aob ≠ some i ∧ _
      rw [hitems]
      exact h.queued hi
    attached := fun {x i} hx => ?_
    active := fun {i} hi => ?_
    live := fun {x i} haob hx => ?_
    sent := fun {x i} hsent haob hx => ?_
    once := fun i => by
      show s.items.freed i ≤ 1
      rw [hitems]
      exact h.once i
    fresh := fun {i} hi => by
      show s.items.freed i = 0
      rw [hitems]
      exact h.fresh hi
    state := by
      show _ ↔ s.items.aob = none
      rw [hitems]
      exact h.state }, {
    allocated := le_rfl
    attached := fun _ hx => hback hx
    freed := fun _ _ => by
      show s.items.freed _ = _
      rw [hitems]
    queue := fun _ => Iff.rfl
    item := fun _ _ => rfl
    aob := congrArg ItemStore.aob hitems
    state := rfl
    sent := rfl }⟩
  · refine Option.eq_none_iff_forall_ne_some.2 fun i hi => ?_
    have hroot := h.rootItem
    rw [show o.itemOf root = some i from hcar.item hi] at hroot
    cases hroot
  · obtain ⟨h1, h2, h3, h4, h5⟩ := h.attached (hback hx)
    refine ⟨h1, ?_, h3, (hcar.held hx.1 hx.2).2.trans h4, h5⟩
    show s.items.freed i = 0
    rw [hitems]
    exact h2
  · have haob : o.aob = some i := (congrArg ItemStore.aob hitems).symm.trans hi
    show _ ∧ s.items.freed i = 0
    rw [hitems]
    exact h.active haob
  · have haob' : o.aob = some i := (congrArg ItemStore.aob hitems).symm.trans haob
    exact hcar.live hx.1 hx.2 (fun hmem => hshut x hmem i haob' (hback hx).2)
      (h.live haob' (hback hx))
  · exact h.sent hsent ((congrArg ItemStore.aob hitems).symm.trans haob) (hback hx)

/-- **A stream gives up its item.** -/
theorem Owned.detachItem (x : Ptr) :
    Owned (o.detachItem x) kids chains ∧ Passes o (o.detachItem x) chains chains :=
  h.carry (h.inv.withLinks (h.inv.tree.detachItem x)) (Session.carries_detachItem _ x chains)
    fun _ hx => absurd hx List.not_mem_nil

theorem not_attached_detachItem (hx : o.Attached chains x i) (y : Ptr) :
    ¬ (o.detachItem x).Attached chains y i := by
  intro hy
  have hy' : o.Attached chains y i := (h.detachItem x).2.attached (h.attached hx).1 hy
  obtain rfl := h.unique hx hy'
  have hnone : (o.detachItem x).itemOf x = none := by
    rw [itemOf, Outbound.detachItem, (streamDetachItem_item _ x).1, update_self]
  rw [hy.2] at hnone
  cases hnone

/-- **An item in the hands of the function is freed.** -/
theorem Owned.freeItem (hi : Loose o chains i) : Owned (o.freeItem i) kids chains := by
  have hne : ∀ {j}, j ≠ i → (o.freeItem i).freed j = o.freed j := fun hj =>
    update_of_ne hj _ _
  have hself : (o.freeItem i).freed i = 1 := by
    have : (o.freeItem i).freed i = o.freed i + 1 := update_self ..
    rw [this, hi.freed]
  have hinv : Session.Inv (o.freeItem i).session kids chains [] :=
    h.inv.of_sameTable (Session.sameTable_of_eq rfl)
  refine { h with
    inv := hinv
    queued := fun {j} hj => ?_
    attached := fun {x j} hx => ?_
    active := fun {j} hj => ?_
    once := fun j => ?_
    fresh := fun {j} hj => ?_ }
  · rw [hne fun hji => hi.queue (hji ▸ hj)]
    exact h.queued hj
  · rw [hne fun hji => hi.stream x (hji ▸ hx)]
    exact h.attached hx
  · rw [hne fun hji => hi.aob (hji ▸ hj)]
    exact h.active hj
  · rcases eq_or_ne j i with rfl | hji
    · exact hself.le
    · rw [hne hji]
      exact h.once j
  · rw [hne fun hji => absurd hi.allocated (hji ▸ not_lt.2 hj)]
    exact h.fresh hj

/-- **The active item is given back** to the stream that carries it. -/
theorem Owned.clearAob :
    Owned { o.setAob none with state := .popItem, sent := false } kids chains := by
  have hinv : Session.Inv (o.setAob none).session kids chains [] :=
    h.inv.of_sameTable (Session.sameTable_of_eq rfl)
  exact {
    h with
    inv := hinv
    queued := fun {j} hj => ⟨(h.queued hj).1, (h.queued hj).2.1, nofun, (h.queued hj).2.2.2⟩
    attached := h.attached
    active := nofun
    live := nofun
    sent := nofun
    state := iff_of_true rfl rfl }

/-- **The active item is freed** if no stream carries it. -/
theorem Owned.reset (hloose : ∀ i, o.aob = some i → ∀ x, ¬ o.Attached chains x i) :
    Owned o.activeOutboundItemReset kids chains := by
  unfold activeOutboundItemReset
  cases haob : o.session.items.aob with
  | none => exact h.clearAob
  | some i =>
    -- freeing commutes with clearing `aob`
    obtain ⟨hlt, hfreed⟩ := h.active haob
    have hi : Loose { o.setAob none with state := .popItem, sent := false } chains i :=
      ⟨⟨hlt, hfreed, fun hq => (h.queued hq).2.2.1 haob, nofun⟩, hloose i haob⟩
    exact h.clearAob.freeItem hi

end

/-! ## Submitting -/

/-- The item `i` finds its place, or is freed; the others stay. -/
structure Adds (o o' : Outbound) (chains : ℕ → List Ptr) (i : ItemPtr) : Prop where
  allocated : o'.allocated = o.allocated
  item : o'.item = o.item
  freed : ∀ {j}, j ≠ i → o'.freed j = o.freed j
  queue : ∀ {j}, j ≠ i → (j ∈ o'.queues ↔ j ∈ o.queues)
  attached : ∀ {x j}, j ≠ i → (o'.Attached chains x j ↔ o.Attached chains x j)
  live : ∀ {x}, o.session.Live x → o'.session.Live x
  aob : o'.aob = o.aob
  state : o'.state = o.state
  sent : o'.sent = o.sent

theorem freeItem_adds (o : Outbound) (chains : ℕ → List Ptr) (i : ItemPtr) :
    Adds o (o.freeItem i) chains i :=
  ⟨rfl, rfl, fun hj => update_of_ne hj _ _, fun _ => Iff.rfl, fun _ => Iff.rfl,
    fun h => h, rfl, rfl, rfl⟩

theorem push_queues (o : Outbound) (q : Queue) (i : ItemPtr) :
    (o.push q i).queues.Perm (i :: o.queues) := by
  cases q with
  | urgent =>
    show (o.obUrgent ++ [i] ++ o.obReg ++ o.obSyn).Perm (i :: (o.obUrgent ++ o.obReg ++ o.obSyn))
    simp only [List.append_assoc, List.singleton_append]
    exact List.perm_middle
  | reg =>
    show (o.obUrgent ++ (o.obReg ++ [i]) ++ o.obSyn).Perm (i :: (o.obUrgent ++ o.obReg ++ o.obSyn))
    simp only [List.append_assoc, List.singleton_append]
    rw [← List.append_assoc, ← List.append_assoc]
    exact List.perm_middle
  | syn =>
    show (o.obUrgent ++ o.obReg ++ (o.obSyn ++ [i])).Perm (i :: (o.obUrgent ++ o.obReg ++ o.obSyn))
    rw [← List.append_assoc]
    exact List.perm_append_singleton i _

theorem push_eq (o : Outbound) (q : Queue) (i : ItemPtr) :
    ∃ u r s, o.push q i = { o.setQueued i true with obUrgent := u, obReg := r, obSyn := s } := by
  cases q with
  | urgent => exact ⟨_, _, _, rfl⟩
  | reg => exact ⟨_, _, _, rfl⟩
  | syn => exact ⟨_, _, _, rfl⟩

/-- **A loose item is queued.** -/
theorem Owned.push (h : Owned o kids chains) (hi : Loose o chains i)
    (hdata : ∀ f, (o.item i).frame ≠ .data f) (q : Queue) :
    Owned (o.push q i) kids chains ∧ Adds o (o.push q i) chains i := by
  have hperm := push_queues o q i
  have hmem : ∀ j, j ∈ (o.push q i).queues ↔ j = i ∨ j ∈ o.queues := fun j => by
    rw [hperm.mem_iff, List.mem_cons]
  obtain ⟨u, r, s, heq⟩ := push_eq o q i
  rw [heq] at hperm hmem ⊢
  have hinv : Session.Inv (o.setQueued i true).session kids chains [] :=
    h.inv.of_sameTable (Session.sameTable_of_eq rfl)
  refine ⟨{ h with
    inv := hinv
    nodup := hperm.nodup_iff.2 (List.nodup_cons.2 ⟨hi.queue, h.nodup⟩)
    flag := fun j => ?_
    queued := fun {j} hj => ?_
    attached := fun {x j} hx => ?_ }, ⟨rfl, rfl, fun _ => rfl, fun {j} hj => ?_, fun _ =>
      Iff.rfl, fun h => h, rfl,
      rfl, rfl⟩⟩
  · rw [hmem]
    show update o.session.items.queued i true j = true ↔ _
    rcases eq_or_ne j i with rfl | hji
    · simp
    · rw [update_of_ne hji, h.flag]
      simp [hji]
  · rcases (hmem j).1 hj with rfl | hj
    · exact ⟨hi.allocated, hi.freed, hi.aob, hdata⟩
    · exact h.queued hj
  · obtain ⟨h1, h2, h3, h4⟩ := h.attached hx
    refine ⟨h1, h2, fun hj => ?_, h4⟩
    rcases (hmem j).1 hj with rfl | hj
    · exact hi.stream x hx
    · exact h3 hj
  · rw [hmem]
    simp [hj]

/-- **A loose item is attached** to an open stream without an item. -/
theorem Owned.attach (h : Owned o kids chains) (hi : Loose o chains i)
    (hget : o.session.getStream (o.item i).streamId = some x)
    (hframe : Frame.attachable (o.item i).frame) (hok : o.attach x i = .ok o') :
    Owned o' kids chains ∧ Adds o o' chains i := by
  unfold Outbound.attach at hok
  split_ifs at hok with hitem
  obtain rfl := Except.ok.inj hok
  have hnone : o.itemOf x = none := by simpa using hitem
  obtain ⟨hheld, hid, hlive⟩ := h.inv.of_getStream hget
  have hitem' : (streamAttachItem o.session.tree x i).sched.item =
      update o.session.tree.sched.item x (some i) := (streamAttachItem_item _ x i).1
  set o' : Outbound :=
    { o with session := { o.session with tree := streamAttachItem o.session.tree x i } } with ho'
  have hself : o'.itemOf x = some i := by rw [ho', itemOf, hitem', update_self]
  have hne : ∀ {y}, y ≠ x → o'.itemOf y = o.itemOf y := fun hy => by
    rw [ho', itemOf, hitem', update_of_ne hy]
  have hatt : ∀ {y j}, o'.Attached chains y j → (y = x ∧ j = i) ∨
      (y ≠ x ∧ o.Attached chains y j) := by
    rintro y j ⟨hy, hj⟩
    rcases eq_or_ne y x with rfl | hyx
    · rw [hself, Option.some.injEq] at hj
      exact Or.inl ⟨rfl, hj.symm⟩
    · rw [hne hyx] at hj
      exact Or.inr ⟨hyx, hy, hj⟩
  refine ⟨{ h with
    inv := h.inv.withLinks (h.inv.tree.attachItem hnone i)
    rootItem := ?_
    attached := fun {y j} hy => ?_
    live := fun {y j} haob hy => ?_
    sent := fun {y j} hsent haob hy => ?_ }, ⟨rfl, rfl, fun _ => rfl, fun _ => Iff.rfl,
      fun {y j} hj => ?_, fun h => h,
      rfl, rfl, rfl⟩⟩
  · rw [hne fun hroot => (h.inv.held hheld).1 hroot.symm]
    exact h.rootItem
  · rcases hatt hy with ⟨rfl, rfl⟩ | ⟨-, hy⟩
    · exact ⟨hi.allocated, hi.freed, hi.queue, hid, hframe⟩
    · exact h.attached hy
  · rcases hatt hy with ⟨rfl, rfl⟩ | ⟨-, hy⟩
    · exact hlive
    · exact h.live haob hy
  · rcases hatt hy with ⟨rfl, rfl⟩ | ⟨-, hy⟩
    · exact absurd haob hi.aob
    · exact h.sent hsent haob hy
  refine ⟨fun hy => ?_, fun hy => ⟨hy.1, ?_⟩⟩
  · rcases hatt hy with ⟨-, rfl⟩ | ⟨-, hy⟩
    · exact absurd rfl hj
    · exact hy
  · rw [hne fun hyx => ?_]
    · exact hy.2
    · rw [hyx] at hy
      rw [hy.2] at hnone
      cases hnone

theorem Owned.modifyInfo (h : Owned o kids chains) (hlive : o.session.Live x)
    (hf : (f (o.session.info x)).state ≠ .idle)
    (hclosed : (f (o.session.info x)).closed = (o.session.info x).closed) :
    Owned (o.modifyInfo x f) kids chains ∧ Passes o (o.modifyInfo x f) chains chains :=
  h.carry (h.inv.modifyInfo hlive.2 hf hclosed)
    (Session.carries_modifyInfo (fun _ => hf) hclosed chains) fun _ hx => absurd hx List.not_mem_nil

theorem live_modifyInfo (hf : (f (o.session.info x)).state ≠ .idle)
    (hclosed : (f (o.session.info x)).closed = (o.session.info x).closed)
    (hlive : o.session.Live y) : (o.modifyInfo x f).session.Live y := by
  rcases eq_or_ne y x with rfl | hyx
  · unfold Session.Live
    rw [show (o.modifyInfo y f).session.info y = _ from Session.modifyInfo_self o.session y f]
    exact ⟨hclosed.trans hlive.1, hf⟩
  · exact Session.live_of_info (Session.modifyInfo_of_ne hyx) hlive

/-- **`nghttp2_session_add_item`** finds a place for a loose item, unless it fails. -/
theorem Owned.addItem (h : Owned o kids chains) (hi : Loose o chains i)
    (hok : o.addItem i = .ok o') : Owned o' kids chains ∧ Adds o o' chains i := by
  cases placed_of_addItem hok with
  | queue hfit => exact h.push hi hfit.ne_data _
  | stream hget hframe hok => exact h.attach hi hget hframe hok
  | closing hget hkind =>
    have hlive := live_of_getStream hget
    obtain ⟨h1, hpass⟩ := h.modifyInfo (f := fun info => { info with state := .closing }) hlive
      (by simp) rfl
    have hfit : Fits o i .reg := by simp [Fits, hkind]
    obtain ⟨h2, hadd⟩ := h1.push (hpass.loose hi) hfit.ne_data .reg
    exact ⟨h2, { hadd with live := fun hl => hadd.live (live_modifyInfo (by simp) rfl hl) }⟩

theorem Owned.alloc (h : Owned o kids chains) (it : OutboundItem)
    (ho' : o' = { o with
      item := update o.item o.allocated it, allocated := o.allocated + 1 }) :
    Owned o' kids chains ∧ Loose o' chains o.allocated ∧
      ∀ {j}, j < o.allocated → o'.item j = o.item j := by
  subst ho'
  have hitem : ∀ {j}, j < o.allocated → update o.item o.allocated it j = o.item j :=
    fun hj => update_of_ne hj.ne _ _
  refine ⟨{ h with
    queued := fun {j} hj => ?_
    attached := fun {x j} hx => ?_
    active := fun {j} hj => ⟨Nat.lt_succ_of_lt (h.active hj).1, (h.active hj).2⟩
    sent := fun {x j} hsent haob hx => ?_
    fresh := fun {j} hj => h.fresh (Nat.le_of_succ_le hj) },
      ⟨⟨Nat.lt_succ_self _, h.fresh le_rfl, fun hq => ?_, fun haob => ?_⟩, fun x hx => ?_⟩, hitem⟩
  · obtain ⟨h1, h2, h3, h4⟩ := h.queued hj
    refine ⟨Nat.lt_succ_of_lt h1, h2, h3, ?_⟩
    show ∀ f, (update o.item o.allocated it j).frame ≠ .data f
    rwa [hitem h1]
  · obtain ⟨h1, h2, h3, h4⟩ := h.attached hx
    refine ⟨Nat.lt_succ_of_lt h1, h2, h3, ?_⟩
    show _ = (update o.item o.allocated it j).streamId ∧
      Frame.attachable (update o.item o.allocated it j).frame
    rwa [hitem h1]
  · show Frame.dataToBeContinued (update o.item o.allocated it j).frame
    rw [hitem (h.active haob).1]
    exact h.sent hsent haob hx
  · exact lt_irrefl _ (h.queued hq).1
  · exact lt_irrefl _ (h.active haob).1
  · exact lt_irrefl _ (h.attached hx).1

/-- What a submission does: items find places, and those that have one keep it. -/
structure Submits (o o' : Outbound) (chains : ℕ → List Ptr) : Prop
    extends Passes o o' chains chains where
  keeps : ∀ {x i}, i < o.allocated → o.Attached chains x i → o'.Attached chains x i
  stays : ∀ {i}, i < o.allocated → o'.freed i = o.freed i
  live : ∀ {x}, o.session.Live x → o'.session.Live x

theorem Submits.refl (o : Outbound) (chains : ℕ → List Ptr) : Submits o o chains :=
  ⟨Passes.refl o chains, fun _ h => h, fun _ => rfl, fun h => h⟩

theorem Submits.trans (h : Submits o1 o2 chains)
    (h' : Submits o2 o3 chains) : Submits o1 o3 chains where
  toPasses := h.toPasses.trans h'.toPasses
  keeps hi hx := h'.keeps (hi.trans_le h.allocated) (h.keeps hi hx)
  stays hi := (h'.stays (hi.trans_le h.allocated)).trans (h.stays hi)
  live hx := h'.live (h.live hx)

section

variable (h : Owned o kids chains)
include h

/-- **A frame is submitted.** -/
theorem Owned.submitItem (streamId : ℕ) (frame : Frame) :
    Owned (o.submitItem streamId frame) kids chains ∧
      Submits o (o.submitItem streamId frame) chains := by
  obtain ⟨h1, hloose, hitem⟩ := h.alloc ⟨streamId, frame⟩ rfl
  unfold Outbound.submitItem
  dsimp only
  set o1 : Outbound :=
    { o with item := update o.item o.allocated ⟨streamId, frame⟩,
             allocated := o.allocated + 1 } with ho1
  have hsub : ∀ {o' : Outbound}, Adds o1 o' chains o.allocated → Submits o o' chains := by
    intro o' ha
    have hne : ∀ {j}, j < o.allocated → j ≠ o.allocated := fun hj => hj.ne
    exact { ha with
      allocated := by rw [ha.allocated]; exact Nat.le_succ _
      attached := fun hj hx => (ha.attached (hne hj)).1 hx
      freed := fun hj _ => ha.freed (hne hj)
      queue := fun hj => ha.queue (hne hj)
      item := fun hj _ => by rw [ha.item]; exact hitem hj
      keeps := fun hj hx => (ha.attached (hne hj)).2 hx
      stays := fun hj => ha.freed (hne hj)
      live := fun hx => ha.live hx }
  cases hadd : o1.addItem o.allocated with
  | ok o' =>
    obtain ⟨h', ha⟩ := h1.addItem hloose hadd
    exact ⟨h', hsub ha⟩
  | error e => exact ⟨h1.freeItem hloose, hsub (freeItem_adds o1 chains o.allocated)⟩

/-- The contents of an item that is not the active one change. -/
theorem Owned.modifyFrame {f : Frame} (haob : o.aob ≠ some i)
    (hqueue : i ∈ o.queues → ∀ g, f ≠ .data g)
    (hattach : i ∉ o.queues → Frame.attachable (o.item i).frame → Frame.attachable f) :
    Owned (o.modifyFrame i f) kids chains := by
  have hself : (o.modifyFrame i f).item i = ⟨(o.item i).streamId, f⟩ := update_self ..
  have hitem : ∀ {j}, j ≠ i → (o.modifyFrame i f).item j = o.item j := fun hj =>
    update_of_ne hj _ _
  refine { h with
    queued := fun {j} hj => ?_
    attached := fun {x j} hx => ?_
    sent := fun {x j} hsent hj hx => ?_ }
  · obtain ⟨h1, h2, h3, h4⟩ := h.queued hj
    refine ⟨h1, h2, h3, ?_⟩
    rcases eq_or_ne j i with rfl | hji
    · rw [hself]
      exact hqueue hj
    · rwa [hitem hji]
  · obtain ⟨h1, h2, h3, h4, h5⟩ := h.attached hx
    rcases eq_or_ne j i with rfl | hji
    · rw [hself]
      exact ⟨h1, h2, h3, h4, hattach h3 h5⟩
    · rw [hitem hji]
      exact ⟨h1, h2, h3, h4, h5⟩
  · rw [hitem fun hji => haob (hji ▸ hj)]
    exact h.sent hsent hj hx

theorem Owned.modifyQueued (hi : i ∈ o.queues) {f : Frame} (hf : ∀ g, f ≠ .data g) :
    Owned (o.modifyFrame i f) kids chains ∧ Submits o (o.modifyFrame i f) chains :=
  ⟨h.modifyFrame (h.queued hi).2.2.1 (fun _ => hf) fun hq => absurd hi hq,
    ⟨⟨le_rfl, fun _ hx => hx, fun _ _ => rfl, fun _ => Iff.rfl,
      fun {j} _ hq => update_of_ne (fun hji : j = i => hq (hji ▸ hi)) _ _, rfl, rfl, rfl⟩,
      fun _ hx => hx, fun _ => rfl, fun hx => hx⟩⟩

theorem Owned.takeStreamId (frame : ℕ → ℕ × Frame) :
    Owned (o.takeStreamId frame) kids chains ∧ Submits o (o.takeStreamId frame) chains := by
  unfold Outbound.takeStreamId
  dsimp only
  split_ifs
  · obtain ⟨h1, hpass⟩ := h.carry h.inv.submitStream (Session.Carries.of_rest rfl chains)
      fun _ hx => absurd hx List.not_mem_nil
    obtain ⟨h2, hsub⟩ := h1.submitItem (frame o.session.nextStreamId).1
      (frame o.session.nextStreamId).2
    exact ⟨h2, Submits.trans ⟨hpass, fun _ hx => hx, fun _ => rfl, fun hx => hx⟩ hsub⟩
  · exact ⟨h, Submits.refl o chains⟩

/-- **A submission** keeps the invariant. -/
theorem Owned.submitted {sub : Submission} (hsub : Submitted o sub o') :
    Owned o' kids chains ∧ Submits o o' chains := by
  cases hsub with
  | same => exact ⟨h, Submits.refl o chains⟩
  | item => exact h.submitItem _ _
  | cancel hc => exact h.modifyQueued (List.mem_append_right _ (frame_of_cancelable hc).1) nofun
  | take => exact h.takeStreamId _
  | terminate =>
    obtain ⟨h1, hsub⟩ := h.submitItem 0 (.goaway _ false true)
    exact ⟨{ h1 with }, { hsub with }⟩

theorem Owned.submit (sub : Submission) :
    Owned (o.submit sub) kids chains ∧ Submits o (o.submit sub) chains :=
  h.submitted (submit_submitted o sub)

theorem Owned.submitAll (l : List Submission) :
    Owned (o.submitAll l) kids chains ∧ Submits o (o.submitAll l) chains := by
  induction l generalizing o with
  | nil => exact ⟨h, Submits.refl o chains⟩
  | cons sub l ih =>
    obtain ⟨h1, hsub⟩ := h.submit sub
    obtain ⟨h2, hsub'⟩ := ih h1
    exact ⟨h2, hsub.trans hsub'⟩

/-! ## Closing streams -/

/-- **The item of a closed stream** is freed, unless it is being sent. -/
theorem Owned.releaseItem (hx : Holds chains x)
    (ho' : o' = { o with session := o.session.releaseItem x }) :
    Owned o' kids chains ∧ Passes o o' chains chains ∧ o'.itemOf x = none ∧
      o'.session.info = o.session.info := by
  subst ho'
  cases hitem : o.itemOf x with
  | none =>
    have hsame : o.session.releaseItem x = o.session := by
      unfold Session.releaseItem
      rw [show o.session.tree.sched.item x = none from hitem]
    rw [hsame]
    exact ⟨h, Passes.refl o chains, hitem, rfl⟩
  | some i =>
    have hatt : o.Attached chains x i := ⟨hx, hitem⟩
    obtain ⟨hlt, hfreed, hq, -⟩ := h.attached hatt
    obtain ⟨h1, hpass⟩ := h.detachItem x
    have hnone : (o.detachItem x).itemOf x = none := by
      rw [itemOf, Outbound.detachItem, (streamDetachItem_item _ x).1, update_self]
    have hqueued : o.session.items.queued i = false := by
      rw [← Bool.not_eq_true, h.flag]
      exact hq
    by_cases haob : o.aob = some i
    · have hrel : ({ o with session := o.session.releaseItem x } : Outbound) = o.detachItem x := by
        unfold Session.releaseItem
        rw [show o.session.tree.sched.item x = some i from hitem]
        simp [show o.session.items.aob = some i from haob, Outbound.detachItem]
      rw [hrel]
      exact ⟨h1, hpass, hnone, rfl⟩
    have hrel : ({ o with session := o.session.releaseItem x } : Outbound) =
        (o.detachItem x).freeItem i := by
      unfold Session.releaseItem
      rw [show o.session.tree.sched.item x = some i from hitem]
      simp [show o.session.items.aob ≠ some i from haob, hqueued, Outbound.detachItem,
        Outbound.freeItem]
    rw [hrel]
    have hloose : Loose (o.detachItem x) chains i :=
      ⟨⟨hlt, hfreed, hq, haob⟩, not_attached_detachItem h hatt⟩
    refine ⟨h1.freeItem hloose, { hpass with freed := fun {j} hj hor => ?_ }, hnone, rfl⟩
    have hji : j ≠ i := by
      rintro rfl
      rcases hor with hor | hor
      · exact hor x hatt
      · exact haob hor
    exact update_of_ne hji _ _

/-- **`nghttp2_session_close_stream`**, with anything that is submitted in its callback. -/
theorem Owned.closeStream (env : Env) (id : ℕ) :
    ∃ o' kids' chains', o.closeStream env id = .ok o' ∧ Owned o' kids' chains' ∧
      Passes o o' chains chains' := by
  unfold Outbound.closeStream
  cases hget : o.session.getStream id with
  | none => exact ⟨o, kids, chains, rfl, h, Passes.refl o chains⟩
  | some x =>
    obtain ⟨hheld, -, hlive⟩ := h.inv.of_getStream hget
    obtain ⟨h1, hpass1, hnone, hinfo⟩ := h.releaseItem hheld rfl
    set o1 : Outbound := { o with session := o.session.releaseItem x }
    obtain ⟨h2, hsub⟩ := h1.submitAll (env.onStreamClose id)
    have hlive2 := hsub.live (Session.live_of_info (congrFun hinfo x) hlive)
    obtain ⟨s, kids', chains', hres, hinv, hcar⟩ := h2.inv.finishClose hheld hlive2 id
    have hshut : ∀ y ∈ [x], ∀ i, (o1.submitAll (env.onStreamClose id)).aob = some i →
        (o1.submitAll (env.onStreamClose id)).itemOf y ≠ some i := by
      intro y hy i haob hitem
      obtain rfl := List.mem_singleton.1 hy
      have hlt := (h1.active (hsub.aob.symm.trans haob)).1
      have hatt := hsub.attached hlt ⟨hheld, hitem⟩
      rw [hatt.2] at hnone
      cases hnone
    obtain ⟨h3, hpass3⟩ := h2.carry hinv hcar hshut
    refine ⟨_, kids', chains', ?_, h3, (hpass1.trans hsub.toPasses).trans hpass3⟩
    show (Session.finishClose (o1.submitAll (env.onStreamClose id)).session x id >>= _) = _
    rw [hres]
    rfl

theorem Owned.closeStreamIfShutRdwr (env : Env) (x : Ptr) :
    ∃ o' kids' chains', o.closeStreamIfShutRdwr env x = .ok o' ∧ Owned o' kids' chains' ∧
      Passes o o' chains chains' := by
  unfold Outbound.closeStreamIfShutRdwr
  split_ifs
  · exact h.closeStream env _
  · exact ⟨o, kids, chains, rfl, h, Passes.refl o chains⟩

/-- **`session_close_stream_on_goaway`.** -/
theorem Owned.closeStreamOnGoaway (env : Env) (lastStreamId : ℕ) (incoming : Bool) :
    ∃ o' kids' chains', o.closeStreamOnGoaway env lastStreamId incoming = .ok o' ∧
      Owned o' kids' chains' ∧ Passes o o' chains chains' := by
  unfold Outbound.closeStreamOnGoaway
  generalize goawayTargets o.session lastStreamId incoming = ids
  induction ids generalizing o kids chains with
  | nil => exact ⟨o, kids, chains, rfl, h, Passes.refl o chains⟩
  | cons id ids ih =>
    obtain ⟨o1, k1, c1, hres1, h1, hpass1⟩ := h.closeStream env id
    obtain ⟨o2, k2, c2, hres2, h2, hpass2⟩ := ih h1
    refine ⟨o2, k2, c2, ?_, h2, hpass1.trans hpass2⟩
    rw [List.foldlM_cons, hres1, ok_bind, hres2]

end

end Outbound

end Nghttp2
