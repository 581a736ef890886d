/-
# What waits for the connection window

Flow control is for DATA.  `nghttp2_session_pop_next_ob_item` takes the items of the three
queues whatever the windows are; but it looks at the dependency tree only if
`remote_window_size` is positive, and responses wait in that tree together with DATA.

* `Unblocked` says that a frame waits which is neither DATA nor held back by the peer's
  SETTINGS_MAX_CONCURRENT_STREAMS;
* `Moves` says that such a frame makes the session pop an item and want to write;
* `moves_iff_of_reachable` says when that is so.
-/
import Nghttp2.WantWrite

namespace Nghttp2.Outbound

open ParentForest

variable {o : Outbound} {env : Env} {window : ℤ} {limit : ℕ}
  {kids : Ptr → List Ptr} {chains : ℕ → List Ptr}

/-- An item of the queues may be sent now: `ob_syn` waits until fewer than `limit` outgoing
streams are open. -/
def QueueReady (o : Outbound) (limit : ℕ) : Prop :=
  o.obUrgent ≠ [] ∨ o.obReg ≠ [] ∨ (o.obSyn ≠ [] ∧ o.session.numOutgoingStreams < limit)

/-- HEADERS that are no request are attached to a stream. -/
def HeadersAttached (o : Outbound) : Prop :=
  ∃ id x i, o.session.getStreamRaw id = some x ∧ o.itemOf x = some i ∧
    (o.item i).kind = .headers false

/-- A frame waits that is not DATA, and that the peer's limit does not hold back. -/
def Unblocked (o : Outbound) (limit : ℕ) : Prop := o.QueueReady limit ∨ o.HeadersAttached

/-- If such a frame waits, an item is popped; and the session wants to write, unless it is
shutting down by GOAWAY.  `window` is `remote_window_size`. -/
def Moves (o : Outbound) (window : ℤ) (limit : ℕ) : Prop :=
  o.Unblocked limit →
    (∀ env : Env, env.windowOpen = decide (0 < window) → env.remoteMaxConcurrentStreams = limit →
      (o.popNextObItem env).2.isSome = true) ∧
    (o.termSent = false → o.session.goawaySent = false → o.goawayRecv = false →
      o.wantWrite window limit = true)

/-- A stream of the dependency tree has an item that is not deferred. -/
def TreeReady (o : Outbound) : Prop :=
  ∃ y, InTree o.session.tree.dep y ∧ streamActive o.session.tree.sched y = true

/-- **What `nghttp2_session_pop_next_ob_item` waits for.** -/
theorem Owned.popNextObItem_isSome_iff (h : Owned o kids chains)
    (hwindow : env.windowOpen = decide (0 < window))
    (hlimit : env.remoteMaxConcurrentStreams = limit) :
    (o.popNextObItem env).2.isSome = true ↔
      o.QueueReady limit ∨ (0 < window ∧ o.TreeReady) := by
  unfold Outbound.popNextObItem QueueReady
  cases hu : o.obUrgent with
  | cons i l => simp
  | nil =>
    cases hr : o.obReg with
    | cons i l => simp
    | nil =>
      rw [hlimit, hwindow]
      have htree := h.inv.tree.toTreeInv.nextOutboundItem_isSome_iff
      have hsyn : (if limit ≤ o.session.numOutgoingStreams then [] else o.obSyn) ≠ [] ↔
          o.obSyn ≠ [] ∧ o.session.numOutgoingStreams < limit := by
        split_ifs with hmax <;> simp [hmax, not_le.1]
      cases hs : if limit ≤ o.session.numOutgoingStreams then [] else o.obSyn with
      | cons i l => simp [hsyn.1 (hs ▸ List.cons_ne_nil i l)]
      | nil =>
        rw [hs, ne_self_iff_false, false_iff] at hsyn
        by_cases hopen : 0 < window
        · simpa [hopen, hsyn, TreeReady] using htree
        · simp [hopen, hsyn]

/-- The environment in which `nghttp2_session_mem_send` runs with the window and the limit. -/
def gateEnv (window : ℤ) (limit : ℕ) : Env :=
  { quietEnv with windowOpen := decide (0 < window), remoteMaxConcurrentStreams := limit }

/-- A session that pops an item wants to write, unless it is shutting down by GOAWAY. -/
theorem wantWrite_of_pop (hroot : o.session.tree.sched.item root = none)
    (hpop : (o.popNextObItem (gateEnv window limit)).2.isSome = true) (hterm : o.termSent = false)
    (hsent : o.session.goawaySent = false) (hrecv : o.goawayRecv = false) :
    o.wantWrite window limit = true := by
  obtain ⟨i, hi⟩ := Option.isSome_iff_exists.1 hpop
  have hpending : o.nothingPending window limit = false :=
    not_nothingPending_of_pop hroot (Prod.ext rfl hi) rfl rfl
  unfold wantWrite
  simp [hterm, hsent, hrecv, hpending]

/-- **Response HEADERS wait for the connection window.**  In every reachable state, and with
every window and limit: a frame that is not DATA and is not held back makes the session move
exactly if no HEADERS are attached to a stream, or an item of the queues may be sent, or
`remote_window_size` is positive and a stream of the dependency tree has an item that is not
deferred. -/
theorem moves_iff_of_reachable (h : Reachable (fun o e => o.ReuseSafe e ∧ o.HeadersSafe e) o)
    (window : ℤ) (limit : ℕ) : o.Moves window limit ↔
      (o.HeadersAttached → o.QueueReady limit ∨ (0 < window ∧ o.TreeReady)) := by
  obtain ⟨kids, chains, howned⟩ := h.owned
  constructor
  · intro hmoves hattached
    have hpop := (hmoves (.inr hattached)).1 (gateEnv window limit) rfl rfl
    exact (howned.popNextObItem_isSome_iff rfl rfl).1 hpop
  · intro hgate hunblocked
    have hready : o.QueueReady limit ∨ (0 < window ∧ o.TreeReady) :=
      hunblocked.elim .inl hgate
    refine ⟨fun env hwindow hlimit => (howned.popNextObItem_isSome_iff hwindow hlimit).2 hready, ?_⟩
    exact wantWrite_of_pop howned.rootItem ((howned.popNextObItem_isSome_iff rfl rfl).2 hready)

/-- A response waits in the dependency tree, and one byte of the window lets it go. -/
theorem response_moves : ∃ o, (Outbound.new true 100 100 200).run
      [.session (.recvHeaders 1 .default), .submit (.response 1 [(7, 3)] false)] = .ok o ∧
    o.HeadersAttached ∧ ¬ o.QueueReady 100 ∧ o.Moves 1 100 := by
  refine exists_of_eval (fun o => (o.session.getStreamRaw 1 = some 1 ∧ o.itemOf 1 = some 0 ∧
      (o.item 0).kind = .headers false) ∧ (o.obUrgent = [] ∧ o.obReg = [] ∧ o.obSyn = []) ∧
    o.session.tree.dep.depPrev 1 = some root ∧ streamActive o.session.tree.sched 1 = true)
    reachable_of_guardedRun (by decide +kernel) fun o hreach hobs => ?_
  obtain ⟨⟨hraw, hitem, hkind⟩, ⟨hurgent, hreg, hsyn⟩, hparent, hactive⟩ := hobs
  refine ⟨⟨1, 1, 0, hraw, hitem, hkind⟩, by simp [QueueReady, hurgent, hreg, hsyn],
    (moves_iff_of_reachable hreach 1 100).2 fun _ => .inr ⟨one_pos, 1, ?_, hactive⟩⟩
  exact above_iff.2 (.inr ⟨root, hparent, Above.refl root⟩)

/-- **A response is stuck.**  A server has received a request and submits the response while
`remote_window_size` is 0: nothing is popped, and the session does not want to write.  With
a negative window it wants to write, and still nothing is popped. -/
theorem response_stuck : ∃ o, (Outbound.new true 100 100 200).run
      [.session (.recvHeaders 1 .default), .submit (.response 1 [(7, 3)] false)] = .ok o ∧
    o.HeadersAttached ∧ o.termSent = false ∧ o.session.goawaySent = false ∧
    o.goawayRecv = false ∧ (o.popNextObItem (gateEnv 0 100)).2 = none ∧
    o.wantWrite 0 100 = false ∧ (o.popNextObItem (gateEnv (-1) 100)).2 = none ∧
    o.wantWrite (-1) 100 = true ∧ ¬ o.Moves 0 100 := by
  refine exists_of_eval (fun o => (o.session.getStreamRaw 1 = some 1 ∧ o.itemOf 1 = some 0 ∧
      (o.item 0).kind = .headers false) ∧
    (o.termSent = false ∧ o.session.goawaySent = false ∧ o.goawayRecv = false) ∧
    (o.popNextObItem (gateEnv 0 100)).2 = none ∧ o.wantWrite 0 100 = false ∧
    (o.popNextObItem (gateEnv (-1) 100)).2 = none ∧ o.wantWrite (-1) 100 = true)
    (And.intro trivial) (by decide +kernel) fun o _ hobs => ?_
  obtain ⟨⟨hraw, hitem, hkind⟩, ⟨hterm, hsent, hrecv⟩, hpop, hwant, hneg⟩ := hobs
  have hattached : o.HeadersAttached := ⟨1, 1, 0, hraw, hitem, hkind⟩
  refine ⟨hattached, hterm, hsent, hrecv, hpop, hwant, hneg.1, hneg.2, fun hmoves => ?_⟩
  have hsome := (hmoves (.inr hattached)).1 (gateEnv 0 100) rfl rfl
  rw [hpop] at hsome
  cases hsome

end Nghttp2.Outbound
