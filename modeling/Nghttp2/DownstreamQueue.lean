/-
# Requests per backend host

`DownstreamQueue` limits how many requests to one host are active.  A request over the limit
is blocked in a list of its host until a request to that host leaves.  The operations are
those of `Http2Upstream`, which starts a request that has been added, and starts the blocked
request that a removal returns.

* `Sound`: counters, lists and links are right for the requests in the queue;
* `Sound.step`: every operation succeeds and keeps it;
* `limited_of_reachable`: so it is in every run.
-/
import Mathlib.Tactic

namespace Nghttp2.Downstream

open Function (update update_eq_self update_idem update_of_ne update_self)

/-- `dispatch_state_` of a request. -/
inductive DispatchState
  | pending
  | blocked
  | active
  | failure
deriving DecidableEq, Repr

/-- `DownstreamQueue::HostEntry`, where a blocked link stands for its request. -/
structure HostEntry where
  blocked : List ℕ
  numActive : ℕ
deriving DecidableEq, Repr

/-- An entry without requests is erased by `remove_host_entry_if_empty`. -/
def HostEntry.store (ent : HostEntry) : Option HostEntry :=
  if ent.blocked = [] ∧ ent.numActive = 0 then none else some ent

/-- `DownstreamQueue`, with the fields of the requests that it uses.  The requests in the
queue that have been started are in `arrivals`, in this order; the program does not look at
it. -/
structure Queue where
  connMaxPerHost : ℕ
  unifiedHost : Bool
  authority : ℕ → String
  downstreams : List ℕ
  state : ℕ → DispatchState
  link : ℕ → Bool
  hostEntries : String → Option HostEntry
  arrivals : List ℕ

namespace Queue

/-- The constructor; no limit is the largest `size_t`. -/
def new (connMaxPerHost : ℕ) (unifiedHost : Bool) (authority : ℕ → String) : Queue where
  connMaxPerHost := if connMaxPerHost = 0 then 2 ^ 64 - 1 else connMaxPerHost
  unifiedHost := unifiedHost
  authority := authority
  downstreams := []
  state := fun _ => .pending
  link := fun _ => false
  hostEntries := fun _ => none
  arrivals := []

/-- `make_host_key`. -/
def makeHostKey (q : Queue) (d : ℕ) : String := if q.unifiedHost then "" else q.authority d

/-- `find_host_entry`; a new entry is entered when the result is stored. -/
def findHostEntry (q : Queue) (host : String) : HostEntry := (q.hostEntries host).getD ⟨[], 0⟩

/-- `add_pending`. -/
def addPending (q : Queue) (d : ℕ) : Queue :=
  { q with state := update q.state d .pending, downstreams := q.downstreams ++ [d] }

/-- `mark_failure`. -/
def markFailure (q : Queue) (d : ℕ) : Queue := { q with state := update q.state d .failure }

/-- `mark_active`. -/
def markActive (q : Queue) (d : ℕ) : Queue :=
  let ent := q.findHostEntry (q.makeHostKey d)
  { q with
    hostEntries := update q.hostEntries (q.makeHostKey d)
      (some { ent with numActive := ent.numActive + 1 })
    state := update q.state d .active }

/-- `mark_blocked`; `none` if a link is attached already, which `attach_blocked_link`
asserts against. -/
def markBlocked (q : Queue) (d : ℕ) : Option Queue :=
  let ent := q.findHostEntry (q.makeHostKey d)
  if q.link d then none
  else some { q with
    hostEntries := update q.hostEntries (q.makeHostKey d)
      (some { ent with blocked := ent.blocked ++ [d] })
    state := update q.state d .blocked
    link := update q.link d true }

/-- `can_activate`. -/
def canActivate (q : Queue) (d : ℕ) : Bool :=
  match q.hostEntries (q.makeHostKey d) with
  | none => true
  | some ent => ent.numActive < q.connMaxPerHost

/-- The entry of a host is changed, or erased. -/
def putHostEntry (q : Queue) (host : String) (ent : HostEntry) : Queue :=
  { q with hostEntries := update q.hostEntries host ent.store }

/-- The first half of `remove_and_get_blocked`: the request leaves the queue and its entry. -/
def takeOut (q : Queue) (d : ℕ) : Queue × HostEntry :=
  let ent := q.findHostEntry (q.makeHostKey d)
  let q := { q with downstreams := q.downstreams.erase d, arrivals := q.arrivals.erase d }
  if q.state d = .active then (q, { ent with numActive := ent.numActive - 1 })
  else ({ q with link := update q.link d false },
    if q.link d then { ent with blocked := ent.blocked.erase d } else ent)

/-- `remove_and_get_blocked`; `none` if an assertion fails. -/
def removeAndGetBlocked (q : Queue) (d : ℕ) : Option (Queue × Option ℕ) :=
  let host := q.makeHostKey d
  let (q, ent) := q.takeOut d
  if ent.blocked = [] ∧ ent.numActive = 0 ∨ q.connMaxPerHost ≤ ent.numActive then
    some (q.putHostEntry host ent, none)
  else
    match ent.blocked with
    | [] => some (q.putHostEntry host ent, none)
    | next :: rest =>
      if q.link next then
        let q := { q with link := update q.link next false }
        some (q.putHostEntry host { ent with blocked := rest }, some next)
      else none

/-- `Http2Upstream::initiate_downstream`, which succeeds or fails. -/
def initiate (q : Queue) (d : ℕ) (ok : Bool) : Queue :=
  if ok then q.markActive d else q.markFailure d

/-- `Http2Upstream::start_downstream`. -/
def start (q : Queue) (d : ℕ) (ok : Bool) : Option Queue :=
  let q := { q with arrivals := q.arrivals ++ [d] }
  if q.canActivate d then some (q.initiate d ok) else q.markBlocked d

/-- `Http2Upstream::remove_downstream`. -/
def remove (q : Queue) (d : ℕ) (ok : Bool) : Option Queue := do
  let (q, next) ← q.removeAndGetBlocked d
  match next with
  | none => return q
  | some next => return q.initiate next ok

/-- What `Http2Upstream` does with the queue. -/
inductive Op
  | add (d : ℕ)
  | start (d : ℕ) (ok : Bool)
  | remove (d : ℕ) (ok : Bool)

def step (q : Queue) : Op → Option Queue
  | .add d => some (q.addPending d)
  | .start d ok => q.start d ok
  | .remove d ok => q.remove d ok

/-- A request is added once, started once, and may leave at any time. -/
def Allowed (q : Queue) : Op → Prop
  | .add d => d ∉ q.downstreams
  | .start d _ => d ∈ q.downstreams ∧ q.state d = .pending
  | .remove d _ => d ∈ q.downstreams

/-- The queues that `Http2Upstream` can have. -/
inductive Reachable (q0 : Queue) : Queue → Prop
  | init : Reachable q0 q0
  | step {q q' : Queue} (op : Op) : Reachable q0 q → q.Allowed op → q.step op = some q' →
      Reachable q0 q'

/-- The requests of a list that are in a state for a host. -/
def pick (l : List ℕ) (state : ℕ → DispatchState) (key : ℕ → String) (st : DispatchState)
    (host : String) : List ℕ :=
  l.filter fun d => state d = st ∧ key d = host

/-- The requests that are in a state for a host, in the order in which they were started. -/
def inState (q : Queue) (st : DispatchState) (host : String) : List ℕ :=
  pick q.arrivals q.state q.makeHostKey st host

/-- The entry that a host should have. -/
def entryOf (q : Queue) (host : String) : HostEntry :=
  ⟨q.inState .blocked host, (q.inState .active host).length⟩

/-- The request that a removal should return. -/
def oldest (q : Queue) (host : String) : Option ℕ :=
  if (q.inState .active host).length < q.connMaxPerHost then (q.inState .blocked host).head?
  else none

/-- Counters, lists and links are right for the requests in the queue. -/
structure Sound (m : ℕ) (q : Queue) : Prop where
  max : q.connMaxPerHost = m
  pos : 0 < m
  nodup : q.downstreams.Nodup
  arrivals_nodup : q.arrivals.Nodup
  mem_arrivals : ∀ d, d ∈ q.arrivals ↔ d ∈ q.downstreams ∧ q.state d ≠ .pending
  entries : ∀ host, q.hostEntries host = (q.entryOf host).store
  limit : ∀ host, (q.entryOf host).numActive ≤ m
  link : ∀ d, q.link d = true ↔ d ∈ q.downstreams ∧ q.state d = .blocked

variable {m : ℕ} {q : Queue} {d : ℕ} {host : String} {st : DispatchState}

theorem getD_store (ent : HostEntry) : ent.store.getD ⟨[], 0⟩ = ent := by
  unfold HostEntry.store
  split
  · rename_i h
    rw [Option.getD_none, ← h.1, ← h.2]
  · rfl

theorem Sound.findHostEntry (h : Sound m q) (host : String) :
    q.findHostEntry host = q.entryOf host := by
  rw [Queue.findHostEntry, h.entries, getD_store]

/-! ## The requests in a state -/

section Pick

variable {l l' : List ℕ} {f f' : ℕ → DispatchState} {key : ℕ → String}

theorem mem_pick : d ∈ pick l f key st host ↔ d ∈ l ∧ f d = st ∧ key d = host := by
  simp [pick]

/-- If nothing else changes, a request that is not there afterwards has been taken out. -/
theorem pick_eq_erase (hn : l.Nodup) (hl : l'.filter (· ≠ d) = l.filter (· ≠ d))
    (hf : ∀ y ≠ d, f' y = f y) (hd : d ∉ pick l' f' key st host) :
    pick l' f' key st host = (pick l f key st host).erase d := by
  have hpick : pick l' f' key st host = pick (l'.filter (· ≠ d)) f' key st host := by
    rw [pick, pick, List.filter_filter]
    refine List.filter_congr fun y hy => ?_
    by_cases hyd : y = d
    · simpa [hyd] using fun h => fun hk => hd (mem_pick.2 ⟨hyd ▸ hy, h, hk⟩)
    · simp [hyd]
  rw [hpick, hl, pick, pick, (hn.filter _).erase_eq_filter, List.filter_filter, List.filter_filter]
  refine List.filter_congr fun y _ => ?_
  by_cases hyd : y = d
  · simp [hyd]
  · simp [hyd, hf y hyd]

/-- A request that is there afterwards and was not before. -/
theorem length_pick (hn : l'.Nodup) (hl : l'.filter (· ≠ d) = l.filter (· ≠ d))
    (hf : ∀ y ≠ d, f' y = f y) (hd : d ∉ pick l f key st host) (hd' : d ∈ pick l' f' key st host) :
    (pick l' f' key st host).length = (pick l f key st host).length + 1 := by
  have hpos := List.length_pos_of_mem hd'
  rw [pick_eq_erase hn hl.symm (fun y hy => (hf y hy).symm) hd, List.length_erase_of_mem hd']
  omega

/-- A request that is started stands behind the others. -/
theorem pick_append (hd : d ∉ l) :
    pick (l ++ [d]) (update f d st) key st (key d) = pick l f key st (key d) ++ [d] := by
  rw [pick, List.filter_append]
  congr 1
  · exact List.filter_congr fun y hy => by rw [update_of_ne (ne_of_mem_of_not_mem hy hd)]
  · simp

end Pick

/-! ## The operations -/

/-- A request gets the state `st`, and its host the entry `ent`. -/
def touch (q : Queue) (d : ℕ) (downstreams arrivals : List ℕ) (st : DispatchState)
    (link : Bool) (ent : HostEntry) : Queue :=
  { q with
    downstreams, arrivals
    state := update q.state d st
    link := update q.link d link
    hostEntries := update q.hostEntries (q.makeHostKey d) ent.store }

section Touch

variable {l ds : List ℕ} {b : Bool} {ent : HostEntry} {st' : DispatchState}

theorem inState_touch (h : Sound m q) (hl : l.filter (· ≠ d) = q.arrivals.filter (· ≠ d))
    (hd : d ∉ l ∨ st' ≠ st ∨ q.makeHostKey d ≠ host) :
    (q.touch d ds l st' b ent).inState st host = (q.inState st host).erase d := by
  refine pick_eq_erase h.arrivals_nodup hl (fun y hy => update_of_ne hy ..) fun hmem => ?_
  obtain ⟨hmem, hst, hkey⟩ := mem_pick.1 hmem
  exact hd.elim (· hmem) fun hd => hd.elim (· ((update_self ..).symm.trans hst)) (· hkey)

/-- The entry of a host in which the request is neither active nor blocked. -/
theorem entryOf_touch (h : Sound m q) (hl : l.filter (· ≠ d) = q.arrivals.filter (· ≠ d))
    (hd : d ∉ l ∨ (st ≠ .blocked ∧ st ≠ .active) ∨ q.makeHostKey d ≠ host) :
    (q.touch d ds l st b ent).entryOf host =
      ⟨(q.inState .blocked host).erase d, ((q.inState .active host).erase d).length⟩ := by
  rw [entryOf, inState_touch h hl (by tauto), inState_touch h hl (by tauto)]

theorem erase_inState (hd : d ∉ q.arrivals ∨ q.state d ≠ st ∨ q.makeHostKey d ≠ host) :
    (q.inState st host).erase d = q.inState st host := by
  refine List.erase_of_not_mem fun hmem => ?_
  obtain ⟨hmem, hst, hkey⟩ := mem_pick.1 hmem
  tauto

/-- **What an operation has to show**: the other requests and hosts stay as they are. -/
theorem Sound.touch (h : Sound m q) (hds : ds.Nodup) (hl : l.Nodup)
    (hother : ∀ y ≠ d, (y ∈ ds ↔ y ∈ q.downstreams))
    (hfilter : l.filter (· ≠ d) = q.arrivals.filter (· ≠ d))
    (hmem : d ∈ l ↔ d ∈ ds ∧ st ≠ .pending) (hlink : b = true ↔ d ∈ ds ∧ st = .blocked)
    (hent : (q.touch d ds l st b ent).entryOf (q.makeHostKey d) = ent) (hle : ent.numActive ≤ m) :
    Sound m (q.touch d ds l st b ent) := by
  have hhost (host : String) (hne : host ≠ q.makeHostKey d) :
      (q.touch d ds l st b ent).entryOf host = q.entryOf host := by
    rw [entryOf_touch h hfilter (.inr (.inr hne.symm)), erase_inState (.inr (.inr hne.symm)),
      erase_inState (.inr (.inr hne.symm)), entryOf]
  refine ⟨h.max, h.pos, hds, hl, fun y => ?_, fun host => ?_, fun host => ?_, fun y => ?_⟩
  · by_cases hy : y = d
    · simp [Queue.touch, hy, hmem]
    · have hyl : y ∈ l ↔ y ∈ q.arrivals := by
        have := congrArg (y ∈ ·) hfilter
        simpa [hy] using this
      simp [Queue.touch, hy, hyl, h.mem_arrivals, hother]
  · by_cases hne : host = q.makeHostKey d
    · rw [hne, hent]
      exact update_self ..
    · rw [hhost host hne, ← h.entries]
      exact update_of_ne hne ..
  · by_cases hne : host = q.makeHostKey d
    · rwa [hne, hent]
    · rw [hhost host hne]
      exact h.limit host
  · by_cases hy : y = d
    · simp [Queue.touch, hy, hlink]
    · simp [Queue.touch, hy, h.link, hother]

end Touch

theorem store_eq_some {ent : HostEntry} (h : ent.blocked ≠ [] ∨ ent.numActive ≠ 0) :
    ent.store = some ent := if_neg (by tauto)

/-- A request that has been started is found in its state. -/
theorem Sound.mem_inState (h : Sound m q) (hst : st ≠ .pending) :
    d ∈ q.inState st host ↔ d ∈ q.downstreams ∧ q.state d = st ∧ q.makeHostKey d = host := by
  refine mem_pick.trans ⟨fun hd => ⟨((h.mem_arrivals d).1 hd.1).1, hd.2⟩, fun hd => ⟨?_, hd.2⟩⟩
  exact (h.mem_arrivals d).2 ⟨hd.1, hd.2.1.symm ▸ hst⟩

theorem Sound.link_eq_false (h : Sound m q) (hd : d ∈ q.downstreams → q.state d ≠ .blocked) :
    q.link d = false := by
  rw [← Bool.not_eq_true, h.link]
  exact fun hb => hd hb.1 hb.2

theorem Sound.addPending (h : Sound m q) (hd : d ∉ q.downstreams) : Sound m (q.addPending d) := by
  have hnot : d ∉ q.arrivals := fun hmem => hd ((h.mem_arrivals d).1 hmem).1
  have hlink : q.link d = false := h.link_eq_false (absurd · hd)
  have heq : q.addPending d = q.touch d (q.downstreams ++ [d]) q.arrivals .pending false
      (q.entryOf (q.makeHostKey d)) := by
    simp [Queue.addPending, Queue.touch, ← h.entries, ← hlink]
  rw [heq]
  refine h.touch (h.nodup.append (List.nodup_singleton d) (by simpa using hd)) h.arrivals_nodup
    (by simp +contextual) rfl (by simp [hnot]) (by simp) ?_ (h.limit _)
  rw [entryOf_touch h rfl (.inl hnot), erase_inState (.inl hnot), erase_inState (.inl hnot)]
  rfl

theorem Sound.canActivate_iff (h : Sound m q) :
    q.canActivate d ↔ (q.entryOf (q.makeHostKey d)).numActive < m := by
  rw [canActivate, h.entries, HostEntry.store]
  split_ifs with hempty
  · simp [hempty.2, h.pos]
  · simp [h.max]

theorem initiate_eq {ent : HostEntry} (hent : q.hostEntries (q.makeHostKey d) = ent.store)
    (ok : Bool) : q.initiate d ok = { q with
      state := update q.state d (if ok then .active else .failure)
      hostEntries := update q.hostEntries (q.makeHostKey d)
        (HostEntry.store ⟨ent.blocked, ent.numActive + if ok then 1 else 0⟩) } := by
  cases ok with
  | true =>
    rw [initiate, if_pos rfl, markActive, findHostEntry, hent, getD_store, store_eq_some (by simp)]
    rfl
  | false =>
    have hkeep := update_eq_self (q.makeHostKey d) q.hostEntries
    rw [hent] at hkeep
    exact congrArg (fun entries => { q.markFailure d with hostEntries := entries }) hkeep.symm

/-- A request that is started, or that was blocked, is activated or fails. -/
theorem Sound.initiated {l : List ℕ} (h : Sound m q) (hd : d ∈ q.downstreams) (hn : l.Nodup)
    (hfilter : l.filter (· ≠ d) = q.arrivals.filter (· ≠ d)) (hl : d ∈ l)
    (hnew : d ∉ q.arrivals ∨ q.state d ≠ .active)
    (hlt : (q.entryOf (q.makeHostKey d)).numActive < m) (ok : Bool) :
    Sound m (q.touch d q.downstreams l (if ok then .active else .failure) false
      ⟨(q.inState .blocked (q.makeHostKey d)).erase d,
        (q.entryOf (q.makeHostKey d)).numActive + if ok then 1 else 0⟩) := by
  cases ok with
  | true =>
    refine h.touch h.nodup hn (fun _ _ => .rfl) hfilter (by simp [hl, hd]) (by simp) ?_ hlt
    refine congrArg₂ HostEntry.mk (inState_touch h hfilter (.inr (.inl (by decide))))
      (length_pick hn hfilter (fun y hy => update_of_ne hy ..) (fun hmem => ?_) ?_)
    · obtain ⟨hmem, hst, -⟩ := mem_pick.1 hmem
      tauto
    · exact mem_pick.2 ⟨hl, update_self .., rfl⟩
  | false =>
    refine h.touch h.nodup hn (fun _ _ => .rfl) hfilter (by simp [hl, hd]) (by simp) ?_ hlt.le
    rw [entryOf_touch h hfilter (.inr (.inl ⟨by decide, by decide⟩)),
      erase_inState (hnew.imp_right .inl)]
    rfl

theorem Sound.start (h : Sound m q) (hd : d ∈ q.downstreams) (hp : q.state d = .pending)
    (ok : Bool) : ∃ q', q.start d ok = some q' ∧ Sound m q' := by
  have hnot : d ∉ q.arrivals := fun hmem => ((h.mem_arrivals d).1 hmem).2 hp
  have hlink : q.link d = false := h.link_eq_false (by simp [hp])
  have hfilter : (q.arrivals ++ [d]).filter (· ≠ d) = q.arrivals.filter (· ≠ d) := by simp
  have hn : (q.arrivals ++ [d]).Nodup :=
    h.arrivals_nodup.append (List.nodup_singleton d) (by simpa using hnot)
  have herase (st : DispatchState) :
      (q.inState st (q.makeHostKey d)).erase d = q.inState st (q.makeHostKey d) :=
    erase_inState (.inl hnot)
  unfold Queue.start
  dsimp only
  split_ifs with hact
  · have hinit := initiate_eq (q := { q with arrivals := q.arrivals ++ [d] }) (d := d)
      (h.entries _) ok
    have hs := h.initiated hd hn hfilter (by simp) (.inl hnot) (h.canActivate_iff.1 hact) ok
    refine ⟨_, congrArg some hinit, ?_⟩
    rw [herase, Queue.touch, ← hlink, update_eq_self] at hs
    exact hs
  refine ⟨_, if_neg (by simpa using hlink), ?_⟩
  have hs : Sound m (q.touch d q.downstreams (q.arrivals ++ [d]) .blocked true
      { q.entryOf (q.makeHostKey d) with
        blocked := (q.entryOf (q.makeHostKey d)).blocked ++ [d] }) := by
    refine h.touch h.nodup hn (fun _ _ => .rfl) hfilter (by simp [hd]) (by simp [hd]) ?_
      (h.limit _)
    refine congrArg₂ HostEntry.mk (pick_append hnot) (congrArg List.length ?_)
    exact (inState_touch h hfilter (.inr (.inl (by decide)))).trans (herase .active)
  rw [Queue.touch, store_eq_some (by simp), ← h.findHostEntry] at hs
  exact hs

/-- A request leaves the queue and the entry of its host. -/
theorem Sound.takeOut (h : Sound m q) (hd : d ∈ q.downstreams) :
    ∃ q1 ent, q.takeOut d = (q1, ent) ∧ q1.downstreams = q.downstreams.erase d ∧
      q1.state = q.state ∧ Sound m (q1.putHostEntry (q.makeHostKey d) ent) := by
  have hnot : d ∉ q.arrivals.erase d := h.arrivals_nodup.not_mem_erase
  have hfilter : (q.arrivals.erase d).filter (· ≠ d) = q.arrivals.filter (· ≠ d) := by
    rw [h.arrivals_nodup.erase_eq_filter, List.filter_filter]
    exact List.filter_congr fun y _ => by by_cases hy : y = d <;> simp [hy]
  refine ⟨{ q with
    downstreams := q.downstreams.erase d, arrivals := q.arrivals.erase d
    link := update q.link d false }, ⟨(q.inState .blocked (q.makeHostKey d)).erase d,
    ((q.inState .active (q.makeHostKey d)).erase d).length⟩, ?_, rfl, rfl, ?_⟩
  · rw [Queue.takeOut, h.findHostEntry]
    by_cases hact : q.state d = .active
    · have hmem : d ∈ q.inState .active (q.makeHostKey d) :=
        (h.mem_inState (by decide)).2 ⟨hd, hact, rfl⟩
      have hlink : q.link d = false := h.link_eq_false (by simp [hact])
      simp [hact, erase_inState, List.length_erase_of_mem hmem, entryOf, ← hlink]
    · by_cases hb : q.state d = .blocked
      · simp [hb, erase_inState, (h.link d).2 ⟨hd, hb⟩, entryOf]
      · have hlink : q.link d = false := h.link_eq_false fun _ => hb
        simp [hact, hb, erase_inState, hlink, entryOf]
  · have hs := h.touch (h.nodup.erase d) (h.arrivals_nodup.erase d)
      (fun y hy => List.mem_erase_of_ne hy) hfilter (by simp [hnot, h.nodup.not_mem_erase])
      (by simp [h.nodup.not_mem_erase] : false = true ↔ _ ∧ q.state d = _)
      (entryOf_touch h hfilter (.inl hnot)) ((List.erase_sublist ..).length_le.trans (h.limit _))
    rw [Queue.touch, update_eq_self] at hs
    exact hs

/-- The blocked request that is taken off its list is activated or fails. -/
theorem Sound.restarted {next : ℕ} {rest : List ℕ} (h : Sound m q)
    (hnext : q.inState .blocked host = next :: rest) (hlt : (q.inState .active host).length < m)
    (ok : Bool) : Sound m (({ q with link := update q.link next false }.putHostEntry host
      ⟨rest, (q.entryOf host).numActive⟩).initiate next ok) := by
  have hhead : next ∈ q.inState .blocked host := by simp [hnext]
  obtain ⟨hmem, hst, rfl⟩ := mem_pick.1 hhead
  have hres := h.initiated ((h.mem_arrivals next).1 hmem).1 h.arrivals_nodup rfl hmem
    (.inr (by simp [hst])) hlt ok
  rw [hnext, List.erase_cons_head, Queue.touch, ← update_idem (β := fun _ => Option HostEntry)
    (HostEntry.store ⟨rest, (q.entryOf (q.makeHostKey next)).numActive⟩)] at hres
  rw [initiate_eq (update_self ..)]
  exact hres

/-- `remove_and_get_blocked` returns the oldest blocked request of the host if the host is below
its limit, and the queue is sound when that request has been started. -/
theorem Sound.remove (h : Sound m q) (hd : d ∈ q.downstreams) (ok : Bool) :
    ∃ q' next q'', q.removeAndGetBlocked d = some (q', next) ∧ next = q'.oldest (q.makeHostKey d) ∧
      q'.downstreams = q.downstreams.erase d ∧ q'.state = q.state ∧
      q.remove d ok = some q'' ∧ Sound m q'' := by
  obtain ⟨q1, ent, htake, hdown, hstate, hs⟩ := h.takeOut hd
  unfold Queue.remove removeAndGetBlocked
  rw [htake]
  generalize q.makeHostKey d = host at hs
  have hent : q1.entryOf host = ent := by
    refine (hs.findHostEntry host).symm.trans ?_
    simp only [Queue.findHostEntry, putHostEntry, update_self, getD_store]
  have hblocked : q1.inState .blocked host = ent.blocked := congrArg HostEntry.blocked hent
  have hactive : (q1.inState .active host).length = ent.numActive :=
    congrArg HostEntry.numActive hent
  have hmax : q1.connMaxPerHost = m := hs.max
  have hold : q1.oldest host = if ent.numActive < m then ent.blocked.head? else none := by
    rw [oldest, hactive, hblocked, hmax]
  dsimp only
  split_ifs with hcond
  · refine ⟨_, none, _, rfl, ?_, hdown, hstate, rfl, hs⟩
    refine Eq.trans ?_ hold.symm
    rcases hcond with hempty | hle
    · simp [hempty.1]
    · rw [if_neg (not_lt.2 (hmax ▸ hle))]
  rw [not_or, not_le, hmax] at hcond
  rw [if_pos hcond.2] at hold
  cases hb : ent.blocked with
  | nil => exact ⟨_, none, _, rfl, (hold.trans (by rw [hb]; rfl)).symm, hdown, hstate, rfl, hs⟩
  | cons next rest =>
    have hhead : next ∈ q1.inState .blocked host := by simp [hblocked, hb]
    obtain ⟨hmem, hst, -⟩ := (hs.mem_inState (by decide)).1 hhead
    have hlink : q1.link next = true := (hs.link next).2 ⟨hmem, hst⟩
    have hres := hs.restarted (hblocked.trans hb) (hactive.trans_lt hcond.2) ok
    dsimp only
    rw [if_pos hlink]
    refine ⟨_, some next, _, rfl, (hold.trans (by rw [hb]; rfl)).symm, hdown, hstate, rfl, ?_⟩
    rw [show (q1.putHostEntry host ent).entryOf host = ent from hent] at hres
    simp only [putHostEntry, update_idem] at hres
    exact hres

theorem sound_new (n : ℕ) (unifiedHost : Bool) (authority : ℕ → String) :
    Sound (if n = 0 then 2 ^ 64 - 1 else n) (new n unifiedHost authority) := by
  refine ⟨rfl, ?_, List.nodup_nil, List.nodup_nil, by simp [new], fun _ => rfl,
    fun _ => Nat.zero_le _, by simp [new]⟩
  split_ifs
  · decide
  · omega

theorem Sound.step {op : Op} (h : Sound m q) (hop : q.Allowed op) :
    ∃ q', q.step op = some q' ∧ Sound m q' := by
  cases op with
  | add d => exact ⟨_, rfl, h.addPending hop⟩
  | start d ok => exact h.start hop.1 hop.2 ok
  | remove d ok =>
    obtain ⟨-, -, q'', -, -, -, -, hres, hs⟩ := h.remove hop ok
    exact ⟨q'', hres, hs⟩

theorem Reachable.sound {n : ℕ} {unifiedHost : Bool} {authority : ℕ → String}
    (h : Reachable (new n unifiedHost authority) q) :
    Sound (if n = 0 then 2 ^ 64 - 1 else n) q := by
  induction h with
  | init => exact sound_new n unifiedHost authority
  | step op _ hop hstep ih =>
    obtain ⟨q', hres, hs⟩ := ih.step hop
    cases hres.symm.trans hstep
    exact hs

/-- The requests in the queue that are active have been started. -/
theorem Sound.countP_active (h : Sound m q) (host : String) :
    (q.inState .active host).length =
      q.downstreams.countP fun d => q.state d = .active ∧ q.makeHostKey d = host := by
  rw [List.countP_eq_length_filter]
  refine List.Perm.length_eq ((List.perm_ext_iff_of_nodup (h.arrivals_nodup.filter _)
    (h.nodup.filter _)).2 fun d => ?_)
  exact (h.mem_inState (by decide)).trans mem_pick.symm

/-- **The limit per host.**  In every run the entry of a host has the number of its active
requests, which is within the limit, and its blocked requests in the order in which they were
started; it is there only if one of the two is not empty.  No assertion fails, and a removal
returns the oldest blocked request whenever there is one and the host is below the limit. -/
theorem limited_of_reachable {n : ℕ} {unifiedHost : Bool} {authority : ℕ → String}
    (h : Reachable (new n unifiedHost authority) q) :
    (∀ host, (q.findHostEntry host).numActive =
        q.downstreams.countP (fun d => q.state d = .active ∧ q.makeHostKey d = host) ∧
      (q.findHostEntry host).numActive ≤ (if n = 0 then 2 ^ 64 - 1 else n) ∧
      (q.findHostEntry host).blocked = q.inState .blocked host ∧
      (∀ d, d ∈ (q.findHostEntry host).blocked ↔
        d ∈ q.downstreams ∧ q.state d = .blocked ∧ q.makeHostKey d = host) ∧
      (q.hostEntries host ≠ none →
        (q.findHostEntry host).numActive ≠ 0 ∨ (q.findHostEntry host).blocked ≠ [])) ∧
    (∀ op, q.Allowed op → (q.step op).isSome) ∧
    ∀ d ∈ q.downstreams, ∃ q', q'.downstreams = q.downstreams.erase d ∧ q'.state = q.state ∧
      q.removeAndGetBlocked d = some (q', q'.oldest (q.makeHostKey d)) := by
  have hs := h.sound
  refine ⟨fun host => ?_, fun op hop => ?_, fun d hd => ?_⟩
  · rw [hs.findHostEntry]
    refine ⟨hs.countP_active host, hs.limit host, rfl, fun d => hs.mem_inState (by decide),
      fun hne => ?_⟩
    rw [hs.entries, HostEntry.store] at hne
    split_ifs at hne with hempty
    · exact absurd rfl hne
    · tauto
  · obtain ⟨q', hres, -⟩ := hs.step hop
    rw [hres]
    rfl
  · obtain ⟨q', next, -, hres, rfl, hdown, hstate, -⟩ := hs.remove hd true
    exact ⟨q', hdown, hstate, hres⟩

/-- With a limit of one, the second request is blocked. -/
theorem limited_second : ∃ q, Reachable (new 1 true fun _ => "") q ∧
    (q.findHostEntry "").numActive ≤ 1 ∧ (q.findHostEntry "").blocked = [1] := by
  have h0 : Reachable (new 1 true fun _ => "") _ := .init
  have h1 := h0.step (.add 0) (by simp [Allowed, new]) rfl
  have h2 := h1.step (.start 0 true) (by simp [Allowed, addPending]) rfl
  have h3 := h2.step (.add 1) (by unfold Allowed; decide) rfl
  have h4 := h3.step (.start 1 true) ⟨by decide, by decide⟩ rfl
  exact ⟨_, h4, ((limited_of_reachable h4).1 "").2.1, rfl⟩

end Queue

end Nghttp2.Downstream
