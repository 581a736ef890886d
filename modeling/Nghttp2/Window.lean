/-
# The local flow control window

A session and each of its streams keep four numbers for the DATA they receive:
`local_window_size`, what the peer may have sent at most; `recv_window_size`, what it has
sent and not got back; `recv_reduction`, how much of the local window was taken away
without telling the peer; and `consumed_size`, what the application has used up.  All are
`int32_t`, and the library takes care that no computation on them overflows.

* `adjustLocalWindowSize`: `nghttp2_adjust_local_window_size`, with every intermediate
  result checked;
* `adjustLocalWindowSize_spec`: it fails and changes nothing, or it moves
  `local - recv` by exactly what is left to announce;
* `Ledger`: the window beside what the peer knows, over a run of the calls that change it.
-/
import Mathlib.Tactic

namespace Nghttp2

/-- `NGHTTP2_MAX_WINDOW_SIZE`. -/
def maxWindowSize : ℤ := 2147483647

/-- The values of an `int32_t`. -/
def IsInt32 (v : ℤ) : Prop := -2147483648 ≤ v ∧ v ≤ 2147483647

instance (v : ℤ) : Decidable (IsInt32 v) := by
  unfold IsInt32
  infer_instance

/-- The result of a computation on `int32_t`; none if it overflows. -/
def i32 (v : ℤ) : Option ℤ := if IsInt32 v then some v else none

variable {v : ℤ}

theorem i32_bind {α : Type} (h : IsInt32 v) (f : ℤ → Option α) : (i32 v >>= f) = f v := by
  unfold i32
  rw [if_pos h]
  rfl

theorem i32_bind_eq_some {α : Type} {f : ℤ → Option α} {a : α}
    (h : (i32 v >>= f) = some a) : f v = some a := by
  by_cases hv : IsInt32 v
  · rwa [i32_bind hv] at h
  · unfold i32 at h
    rw [if_neg hv] at h
    cases h

/-- `(size_t)v`. -/
def sizeT (v : ℤ) : ℤ := v % 18446744073709551616

/-- The conversion of a `size_t` to `int32_t`. -/
def toInt32 (v : ℤ) : ℤ := (v + 2147483648) % 4294967296 - 2147483648

theorem toInt32_of_isInt32 (h : IsInt32 v) : toInt32 v = v := by
  unfold IsInt32 at h
  unfold toInt32
  omega

theorem sizeT_of_nonneg (h : 0 ≤ v) (hv : IsInt32 v) : sizeT v = v := by
  unfold IsInt32 at hv
  unfold sizeT
  omega

/-- The counters for received DATA, of a session or of a stream. -/
structure Window where
  localSize : ℤ
  recvSize : ℤ
  recvReduction : ℤ
  consumedSize : ℤ
deriving DecidableEq, Repr

namespace Window

variable {w : Window} {delta : ℤ}

/-- The ranges of the counters of any window, also of one that SETTINGS made negative. -/
structure Ranged (w : Window) : Prop where
  size : IsInt32 w.localSize
  recv : IsInt32 w.recvSize
  reduction_nonneg : 0 ≤ w.recvReduction
  reduction_le : w.recvReduction ≤ maxWindowSize

/-- The bounds under which the library works on a window. -/
structure Ok (w : Window) : Prop where
  local_nonneg : 0 ≤ w.localSize
  local_le : w.localSize ≤ maxWindowSize
  recv : IsInt32 w.recvSize
  reduction_nonneg : 0 ≤ w.recvReduction
  reduction_le : w.recvReduction ≤ maxWindowSize

theorem Ok.ranged (h : w.Ok) : w.Ranged :=
  ⟨⟨by linarith [h.local_nonneg], h.local_le⟩, h.recv, h.reduction_nonneg, h.reduction_le⟩

theorem Ranged.ok (h : w.Ranged) (h0 : 0 ≤ w.localSize) : w.Ok :=
  ⟨h0, h.size.2, h.recv, h.reduction_nonneg, h.reduction_le⟩

/-- What is left of the window: what the peer may still send. -/
def left (w : Window) : ℤ := w.localSize - w.recvSize

/-! ## Adjusting the local window -/

/-- What `nghttp2_adjust_local_window_size` returns, and the four values that it was given
pointers to (the consumed size is not among them). -/
structure Adjusted where
  rv : ℤ
  window : Window
  delta : ℤ
deriving DecidableEq, Repr

/-- `NGHTTP2_ERR_FLOW_CONTROL`. -/
def errFlowControl : ℤ := -524

/-- The first part of `nghttp2_adjust_local_window_size`, with `delta` positive. -/
def enlarge (w : Window) (delta : ℤ) : Option Adjusted := do
  let newRecv ← i32 (max 0 w.recvSize - delta)
  if newRecv ≥ 0 then
    return ⟨0, { w with recvSize := newRecv }, delta⟩
  let d ← i32 (-newRecv)
  -- `delta` is strictly more than the received bytes: `local_window_size` grows by `d`
  let room ← i32 (maxWindowSize - d)
  if w.localSize > room then
    return ⟨errFlowControl, w, delta⟩
  let localSize ← i32 (w.localSize + d)
  let reductionDelta := min w.recvReduction d
  let recvReduction ← i32 (w.recvReduction - reductionDelta)
  let recvSize ←
    if w.recvSize < 0 then i32 (w.recvSize + reductionDelta) else some reductionDelta
  let delta ← i32 (delta - reductionDelta)
  return ⟨0, { w with localSize, recvSize, recvReduction }, delta⟩

/-- The rest of `nghttp2_adjust_local_window_size`: the local window shrinks, and the peer
is not told. -/
def shrink (w : Window) (delta : ℤ) : Option Adjusted := do
  let localSize ← i32 (w.localSize + delta)
  if localSize < 0 then
    return ⟨errFlowControl, w, delta⟩
  let least ← i32 (-2147483648 - delta)
  if w.recvSize < least then
    return ⟨errFlowControl, w, delta⟩
  let most ← i32 (2147483647 + delta)
  if w.recvReduction > most then
    return ⟨errFlowControl, w, delta⟩
  let recvSize ← i32 (w.recvSize + delta)
  let recvReduction ← i32 (w.recvReduction - delta)
  return ⟨0, { w with localSize, recvSize, recvReduction }, 0⟩

/-- `nghttp2_adjust_local_window_size`; none if a computation overflows. -/
def adjustLocalWindowSize (w : Window) (delta : ℤ) : Option Adjusted :=
  if delta > 0 then enlarge w delta else shrink w delta

/-- The call failed, and all four values are as they were. -/
def Adjusted.Refused (a : Adjusted) (w : Window) (delta : ℤ) : Prop :=
  a.rv = errFlowControl ∧ a.window = w ∧ a.delta = delta

/-- The call succeeded on a window that may be negative: what is left of it has grown by
what is to be announced, and the local window has grown or is not negative. -/
structure Adjusted.Shifted (a : Adjusted) (w : Window) (delta : ℤ) : Prop where
  rv : a.rv = 0
  ranged : a.window.Ranged
  size : w.localSize ≤ a.window.localSize ∨ 0 ≤ a.window.localSize
  nonneg : 0 ≤ a.delta
  le : a.delta ≤ max 0 delta
  left : a.window.left = w.left + a.delta
  consumed : a.window.consumedSize = w.consumedSize

/-- The call succeeded: the new window is within its bounds, and what is left of it has
grown by what is to be announced, which is no more than was asked for. -/
structure Adjusted.Moved (a : Adjusted) (w : Window) (delta : ℤ) : Prop where
  rv : a.rv = 0
  ok : a.window.Ok
  nonneg : 0 ≤ a.delta
  le : a.delta ≤ max 0 delta
  left : a.window.left = w.left + a.delta
  consumed : a.window.consumedSize = w.consumedSize

/-- A larger window, or a refusal. -/
theorem enlarge_spec (hw : w.Ranged) (hpos : 0 < delta) (hd : IsInt32 delta) :
    ∃ a, enlarge w delta = some a ∧ (a.Refused w delta ∨ a.Shifted w delta) := by
  obtain ⟨⟨hl0, hl1⟩, hrecv, hred0, hred1⟩ := hw
  unfold IsInt32 at hrecv hd
  unfold maxWindowSize at hred1
  have hnew : IsInt32 (max 0 w.recvSize - delta) := by unfold IsInt32; omega
  unfold enlarge
  rw [i32_bind hnew]
  by_cases hge : max 0 w.recvSize - delta ≥ 0
  · -- the received bytes cover `delta`, so that `recv_window_size` was positive
    rw [if_pos hge]
    refine ⟨_, rfl, .inr ⟨rfl, ⟨⟨hl0, hl1⟩, hnew, hred0, hred1⟩, .inl le_rfl, hpos.le,
      le_max_right _ _, ?_, rfl⟩⟩
    simp only [left]
    omega
  rw [if_neg hge]
  generalize hddef : -(max 0 w.recvSize - delta) = d
  have hdpos : 0 < d ∧ d ≤ delta := by omega
  have hd32 : IsInt32 d := by unfold IsInt32; omega
  have hroom : IsInt32 (maxWindowSize - d) := by unfold IsInt32 maxWindowSize; omega
  rw [i32_bind hd32, i32_bind hroom]
  by_cases hfit : w.localSize > maxWindowSize - d
  · rw [if_pos hfit]
    exact ⟨_, rfl, .inl ⟨rfl, rfl, rfl⟩⟩
  rw [if_neg hfit]
  unfold maxWindowSize at hfit
  -- what is taken off `recv_reduction` is paid from `delta`
  generalize hcut : min w.recvReduction d = cut
  have hlocal : IsInt32 (w.localSize + d) := by unfold IsInt32; omega
  have hreduction : IsInt32 (w.recvReduction - cut) := by unfold IsInt32; omega
  have hleft : IsInt32 (delta - cut) := by unfold IsInt32; omega
  rw [i32_bind hlocal, i32_bind hreduction]
  by_cases hneg : w.recvSize < 0
  · have hsum : IsInt32 (w.recvSize + cut) := by unfold IsInt32; omega
    rw [if_pos hneg, i32_bind hsum]
    change ∃ a, (i32 (delta - cut) >>= _) = some a ∧ _
    rw [i32_bind hleft]
    refine ⟨_, rfl, .inr ⟨rfl, ⟨hlocal, hsum, ?_, ?_⟩, .inl ?_, ?_, ?_, ?_, rfl⟩⟩ <;>
      simp only [left, maxWindowSize] <;> omega
  · have hcut32 : IsInt32 cut := by unfold IsInt32; omega
    rw [if_neg hneg]
    change ∃ a, (i32 (delta - cut) >>= _) = some a ∧ _
    rw [i32_bind hleft]
    refine ⟨_, rfl, .inr ⟨rfl, ⟨hlocal, hcut32, ?_, ?_⟩, .inl ?_, ?_, ?_, ?_, rfl⟩⟩ <;>
      simp only [left, maxWindowSize] <;> omega

/-- A smaller window, or a refusal. -/
theorem shrink_spec (hw : w.Ranged) (hneg : delta ≤ 0) (hd : IsInt32 delta)
    (hlow : -2147483648 ≤ w.localSize + delta) :
    ∃ a, shrink w delta = some a ∧ (a.Refused w delta ∨ a.Shifted w delta) := by
  obtain ⟨⟨hl0, hl1⟩, hrecv, hred0, hred1⟩ := hw
  unfold IsInt32 at hrecv hd
  unfold maxWindowSize at hred1
  have hlocal : IsInt32 (w.localSize + delta) := by unfold IsInt32; omega
  have hleast : IsInt32 (-2147483648 - delta) := by unfold IsInt32; omega
  have hmost : IsInt32 (2147483647 + delta) := by unfold IsInt32; omega
  unfold shrink
  rw [i32_bind hlocal]
  by_cases h1 : w.localSize + delta < 0
  · rw [if_pos h1]
    exact ⟨_, rfl, .inl ⟨rfl, rfl, rfl⟩⟩
  rw [if_neg h1, i32_bind hleast]
  by_cases h2 : w.recvSize < -2147483648 - delta
  · rw [if_pos h2]
    exact ⟨_, rfl, .inl ⟨rfl, rfl, rfl⟩⟩
  rw [if_neg h2, i32_bind hmost]
  by_cases h3 : w.recvReduction > 2147483647 + delta
  · rw [if_pos h3]
    exact ⟨_, rfl, .inl ⟨rfl, rfl, rfl⟩⟩
  have hrecv' : IsInt32 (w.recvSize + delta) := by unfold IsInt32; omega
  have hreduction : IsInt32 (w.recvReduction - delta) := by unfold IsInt32; omega
  rw [if_neg h3, i32_bind hrecv', i32_bind hreduction]
  refine ⟨_, rfl, .inr ⟨rfl, ⟨hlocal, hrecv', ?_, ?_⟩, .inr (not_lt.1 h1), le_rfl,
    le_max_left _ _, ?_, rfl⟩⟩ <;>
    simp only [left, maxWindowSize] <;> omega

/-- A call on any window: it fails and changes nothing, or what is left of the window grows
by what is to be announced.  The only computation that can overflow is
`local_window_size + delta`. -/
theorem adjustLocalWindowSize_ranged (hw : w.Ranged) (hd : IsInt32 delta)
    (hlow : delta < 0 → -2147483648 ≤ w.localSize + delta) :
    ∃ a, adjustLocalWindowSize w delta = some a ∧ (a.Refused w delta ∨ a.Shifted w delta) := by
  unfold adjustLocalWindowSize
  by_cases hpos : delta > 0
  · rw [if_pos hpos]
    exact enlarge_spec hw hpos hd
  · rw [if_neg hpos]
    refine shrink_spec hw (not_lt.1 hpos) hd ?_
    rcases (not_lt.1 hpos).lt_or_eq with hneg | rfl
    · exact hlow hneg
    · simpa using hw.size.1

/-- **Adjusting a window conserves what the peer may send**: the call fails and changes
nothing, or what is left of the window grows by what is to be announced.  No computation
overflows. -/
theorem adjustLocalWindowSize_spec (hw : w.Ok) (hd : IsInt32 delta) :
    ∃ a, adjustLocalWindowSize w delta = some a ∧ (a.Refused w delta ∨ a.Moved w delta) := by
  have h0 := hw.local_nonneg
  obtain ⟨a, ha, h | h⟩ := adjustLocalWindowSize_ranged hw.ranged hd
    (fun _ => by linarith [hd.1])
  · exact ⟨a, ha, .inl h⟩
  · have hnonneg : 0 ≤ a.window.localSize := h.size.elim h0.trans id
    exact ⟨a, ha, .inr ⟨h.rv, h.ranged.ok hnonneg, h.nonneg, h.le, h.left, h.consumed⟩⟩

/-! ## The calls that change a window -/

/-- What a call leaves: its return code, the window, the increments of the WINDOW_UPDATE
frames that it queued, and whether it raised FLOW_CONTROL_ERROR for the stream or the
session. -/
structure Outcome where
  rv : ℤ
  window : Window
  queued : List ℤ
  error : Bool
deriving DecidableEq, Repr

/-- `nghttp2_submit_window_update`, for the session or for a stream it knows. -/
def submitWindowUpdate (w : Window) (increment : ℤ) : Option Outcome :=
  if increment = 0 then some ⟨0, w, [], false⟩
  else do
    let a ← adjustLocalWindowSize w increment
    if a.rv ≠ 0 then
      return ⟨a.rv, a.window, [], false⟩
    if a.delta > 0 then
      let rest ← i32 (a.window.consumedSize - a.delta)
      return ⟨0, { a.window with consumedSize := max 0 rest }, [a.delta], false⟩
    return ⟨0, a.window, [], false⟩

/-- `nghttp2_should_send_window_update`. -/
def shouldSendWindowUpdate (localSize recvSize : ℤ) : Bool := recvSize ≥ localSize.tdiv 2

/-- `adjust_recv_window_size`: the return code and `recv_window_size`. -/
def adjustRecvWindowSize (recvSize delta localSize : ℤ) : Option (ℤ × ℤ) := do
  let room ← i32 (localSize - toInt32 delta)
  if recvSize > room then
    return (-1, recvSize)
  let room ← i32 (maxWindowSize - toInt32 delta)
  if recvSize > room then
    return (-1, recvSize)
  return (0, toInt32 (recvSize + delta))

/-- The common part of `session_update_recv_stream_window_size` and
`session_update_recv_connection_window_size`.  `send` says whether a WINDOW_UPDATE may be
sent. -/
def updateRecvWindowSize (w : Window) (deltaSize : ℤ) (send : Bool) : Option Outcome := do
  let (rv, recvSize) ← adjustRecvWindowSize w.recvSize deltaSize w.localSize
  if rv ≠ 0 then
    return ⟨0, w, [], true⟩
  if send && shouldSendWindowUpdate w.localSize recvSize then
    return ⟨0, { w with recvSize := 0 }, [recvSize], false⟩
  return ⟨0, { w with recvSize }, [], false⟩

/-- `session_update_recv_stream_window_size`; `auto` is the absence of
`NGHTTP2_OPT_NO_AUTO_WINDOW_UPDATE`. -/
def updateRecvStreamWindowSize (auto : Bool) (w : Window) (deltaSize : ℤ)
    (sendWindowUpdate : Bool) : Option Outcome :=
  updateRecvWindowSize w deltaSize (sendWindowUpdate && auto)

/-- `session_update_recv_connection_window_size`. -/
def updateRecvConnectionWindowSize (auto : Bool) (w : Window) (deltaSize : ℤ) :
    Option Outcome :=
  updateRecvWindowSize w deltaSize auto

/-- `session_update_consumed_size`. -/
def updateConsumedSize (w : Window) (deltaSize : ℤ) : Option Outcome :=
  if sizeT w.consumedSize > sizeT (maxWindowSize - deltaSize) then some ⟨0, w, [], true⟩
  else
    let consumedSize := toInt32 (w.consumedSize + deltaSize)
    -- `recv_window_size` may be the smaller one, after the window was shrunk
    let recvSize := min consumedSize w.recvSize
    if shouldSendWindowUpdate w.localSize recvSize then do
      let recvLeft ← i32 (w.recvSize - recvSize)
      let consumedLeft ← i32 (consumedSize - recvSize)
      return ⟨0, { w with recvSize := recvLeft, consumedSize := consumedLeft }, [recvSize], false⟩
    else
      some ⟨0, { w with consumedSize }, [], false⟩

/-- `nghttp2_session_consume_stream` and `nghttp2_session_consume_connection`, which refuse
to work with automatic WINDOW_UPDATE. -/
def consume (auto : Bool) (w : Window) (size : ℤ) : Option Outcome :=
  if auto then some ⟨-519, w, [], false⟩ else updateConsumedSize w size

/-- The window of a new session or stream. -/
def fresh (initial : ℤ) : Window := ⟨initial, 0, 0, 0⟩

/-- The ranges of the counters of any window in a run. -/
structure Bounded (w : Window) : Prop extends w.Ranged where
  consumed_nonneg : 0 ≤ w.consumedSize
  consumed_le : w.consumedSize ≤ maxWindowSize

/-- The bounds of a window in a run. -/
structure Sound (w : Window) : Prop extends w.Ok where
  consumed_nonneg : 0 ≤ w.consumedSize
  consumed_le : w.consumedSize ≤ maxWindowSize

theorem Sound.bounded (h : w.Sound) : w.Bounded :=
  ⟨h.toOk.ranged, h.consumed_nonneg, h.consumed_le⟩

theorem Bounded.sound (h : w.Bounded) (h0 : 0 ≤ w.localSize) : w.Sound :=
  ⟨h.toRanged.ok h0, h.consumed_nonneg, h.consumed_le⟩

/-- What a call makes of a window that may be negative.  `bytes` were received. -/
structure Outcome.Keeps (o : Outcome) (w : Window) (bytes : ℤ) : Prop where
  bounded : o.window.Bounded
  size : w.localSize ≤ o.window.localSize ∨ 0 ≤ o.window.localSize
  left : o.error = false → o.window.left = w.left + o.queued.sum - bytes

/-- The call keeps the bounds, and what is left of the window changes by what is announced
and by the `bytes` that were received. -/
structure Outcome.Conserves (o : Outcome) (w : Window) (bytes : ℤ) : Prop where
  sound : o.window.Sound
  left : o.error = false → o.window.left = w.left + o.queued.sum - bytes

variable {l : Ledger} {o : Outcome} {n : ℕ} {initial : ℤ}

theorem sound_fresh (h0 : 0 ≤ initial) (h1 : initial ≤ maxWindowSize) : (fresh initial).Sound :=
  have hmax : (0 : ℤ) ≤ maxWindowSize := by decide
  have hzero : IsInt32 0 := by decide
  ⟨⟨h0, h1, hzero, le_rfl, hmax⟩, le_rfl, hmax⟩

theorem Outcome.Keeps.conserves {bytes : ℤ} (h : o.Keeps w bytes)
    (h0 : 0 ≤ w.localSize) : o.Conserves w bytes :=
  ⟨h.bounded.sound (h.size.elim h0.trans id), h.left⟩

/-- **WINDOW_UPDATE is submitted.** -/
theorem submitWindowUpdate_keeps (hw : w.Bounded) (hd : IsInt32 delta)
    (hlow : delta < 0 → -2147483648 ≤ w.localSize + delta) :
    ∃ o, submitWindowUpdate w delta = some o ∧ o.Keeps w 0 ∧ o.error = false ∧
      ∀ u ∈ o.queued, 1 ≤ u ∧ u ≤ maxWindowSize := by
  unfold submitWindowUpdate
  by_cases hzero : delta = 0
  · rw [if_pos hzero]
    exact ⟨_, rfl, ⟨hw, .inl le_rfl, by simp⟩, rfl, nofun⟩
  rw [if_neg hzero]
  obtain ⟨a, ha, h⟩ := adjustLocalWindowSize_ranged hw.toRanged hd hlow
  rw [ha]
  change ∃ o, (if a.rv ≠ 0 then _ else _) = some o ∧ _
  rcases h with ⟨hrv, hwin, -⟩ | h
  · rw [if_pos (by rw [hrv]; decide), hwin]
    exact ⟨_, rfl, ⟨hw, .inl le_rfl, by simp⟩, rfl, nofun⟩
  rw [if_neg (not_not.2 h.rv)]
  have hbounded : a.window.Bounded :=
    ⟨h.ranged, h.consumed ▸ hw.consumed_nonneg, h.consumed ▸ hw.consumed_le⟩
  have hleft := h.left
  have hle := h.le
  by_cases hpos : a.delta > 0
  · have h0 := hbounded.consumed_nonneg
    have h1 := hbounded.consumed_le
    unfold maxWindowSize at h1
    unfold IsInt32 at hd
    have hrest : IsInt32 (a.window.consumedSize - a.delta) := by unfold IsInt32; omega
    rw [if_pos hpos, i32_bind hrest]
    refine ⟨_, rfl, ⟨⟨⟨h.ranged.1, h.ranged.2, h.ranged.3, h.ranged.4⟩, le_max_left _ _, ?_⟩,
      h.size, fun _ => ?_⟩, rfl, ?_⟩
    · simp only [maxWindowSize]
      omega
    · simp only [left, List.sum_cons, List.sum_nil] at hleft ⊢
      omega
    · intro u hu
      obtain rfl := List.mem_singleton.1 hu
      unfold maxWindowSize
      omega
  · rw [if_neg hpos]
    refine ⟨_, rfl, ⟨hbounded, h.size, fun _ => ?_⟩, rfl, nofun⟩
    have hnonneg := h.nonneg
    simp only [List.sum_nil]
    omega

theorem submitWindowUpdate_spec (hw : w.Sound) (hd : IsInt32 delta) :
    ∃ o, submitWindowUpdate w delta = some o ∧ o.Conserves w 0 := by
  have h0 := hw.local_nonneg
  obtain ⟨o, ho, hkeeps, -⟩ := submitWindowUpdate_keeps hw.bounded hd
    (fun _ => by linarith [hd.1])
  exact ⟨o, ho, hkeeps.conserves h0⟩

/-- DATA of `n` bytes is counted, unless it is more than what is left of the window. -/
theorem adjustRecvWindowSize_ranged (hw : w.Ranged) (hn : n < 2 ^ 24)
    (hlow : -2147483648 ≤ w.localSize - n) :
    adjustRecvWindowSize w.recvSize n w.localSize =
      some (if w.left < n then (-1, w.recvSize) else (0, w.recvSize + n)) := by
  obtain ⟨⟨hl0, hl1⟩, hrecv, -, -⟩ := hw
  unfold IsInt32 at hrecv
  have hn32 : toInt32 n = n := toInt32_of_isInt32 (by unfold IsInt32; omega)
  have hroom : IsInt32 (w.localSize - n) := by unfold IsInt32; omega
  have hmax : IsInt32 (maxWindowSize - n) := by unfold IsInt32 maxWindowSize; omega
  unfold adjustRecvWindowSize
  rw [hn32, i32_bind hroom]
  by_cases hover : w.recvSize > w.localSize - n
  · rw [if_pos hover, if_pos (by simp only [left]; omega)]
    rfl
  · have hsum : toInt32 (w.recvSize + n) = w.recvSize + n :=
      toInt32_of_isInt32 (by unfold IsInt32; omega)
    rw [if_neg hover, i32_bind hmax, if_neg (by simp only [maxWindowSize]; omega), hsum,
      if_neg (by simp only [left]; omega)]
    rfl

/-- What is made of `n` received bytes: an error, a WINDOW_UPDATE with all that was
received, or nothing. -/
theorem updateRecvWindowSize_eq (hw : w.Ranged) (hn : n < 2 ^ 24)
    (hlow : -2147483648 ≤ w.localSize - n) (send : Bool) :
    updateRecvWindowSize w n send = some (
      if w.left < n then ⟨0, w, [], true⟩
      else if send && shouldSendWindowUpdate w.localSize (w.recvSize + n) then
        ⟨0, { w with recvSize := 0 }, [w.recvSize + n], false⟩
      else ⟨0, { w with recvSize := w.recvSize + n }, [], false⟩) := by
  unfold updateRecvWindowSize
  rw [adjustRecvWindowSize_ranged hw hn hlow]
  by_cases hover : w.left < n
  · rw [if_pos hover, if_pos hover]
    rfl
  rw [if_neg hover, if_neg hover]
  change (if (send && shouldSendWindowUpdate w.localSize (w.recvSize + n)) = true
    then _ else _) = _
  split_ifs <;> rfl

/-- **DATA is received.** -/
theorem updateRecvWindowSize_keeps (hw : w.Bounded) (hn : n < 2 ^ 24)
    (hlow : -2147483648 ≤ w.localSize - n) (send : Bool) :
    ∃ o, updateRecvWindowSize w n send = some o ∧ o.Keeps w n := by
  have hrecv := hw.recv
  have h1 := hw.size.2
  unfold IsInt32 at hrecv
  rw [updateRecvWindowSize_eq hw.toRanged hn hlow]
  refine ⟨_, rfl, ?_⟩
  by_cases hover : w.left < n
  · rw [if_pos hover]
    exact ⟨hw, .inl le_rfl, nofun⟩
  rw [if_neg hover]
  simp only [left] at hover
  split_ifs with hsend
  · refine ⟨⟨⟨hw.size, ?_, hw.reduction_nonneg, hw.reduction_le⟩,
      hw.consumed_nonneg, hw.consumed_le⟩, .inl le_rfl, fun _ => ?_⟩
    · exact (by decide : IsInt32 0)
    · simp only [left, List.sum_cons, List.sum_nil]
      omega
  · refine ⟨⟨⟨hw.size, ?_, hw.reduction_nonneg, hw.reduction_le⟩,
      hw.consumed_nonneg, hw.consumed_le⟩, .inl le_rfl, fun _ => ?_⟩
    · simp only [IsInt32]
      omega
    · simp only [left, List.sum_nil]
      omega

theorem updateRecvWindowSize_spec (hw : w.Sound) (hn : n < 2 ^ 24) (send : Bool) :
    ∃ o, updateRecvWindowSize w n send = some o ∧ o.Conserves w n := by
  have h0 := hw.local_nonneg
  obtain ⟨o, ho, hkeeps⟩ := updateRecvWindowSize_keeps hw.bounded hn (by omega) send
  exact ⟨o, ho, hkeeps.conserves h0⟩

/-- `size` bytes can be consumed: they fit into an `int32_t`, and no negative
`recv_window_size` is returned to the peer. -/
def Consumable (w : Window) (size : ℤ) : Prop :=
  size ≤ maxWindowSize ∧
    (w.consumedSize + size ≤ maxWindowSize → w.localSize.tdiv 2 ≤ w.recvSize →
      0 ≤ w.recvSize)

instance (w : Window) (size : ℤ) : Decidable (w.Consumable size) := by
  unfold Consumable
  infer_instance

theorem consumable_of_nonneg (h0 : 0 ≤ w.localSize) {n : ℤ} (hn : n ≤ maxWindowSize) :
    w.Consumable n :=
  ⟨hn, fun _ h => (Int.tdiv_nonneg h0 (by norm_num)).trans h⟩

/-- What is made of `n` consumed bytes: an error, a WINDOW_UPDATE with what was received
and consumed, or nothing. -/
theorem updateConsumedSize_eq (hw : w.Bounded) (hn : w.Consumable n) :
    updateConsumedSize w n = some (
      if maxWindowSize < w.consumedSize + n then ⟨0, w, [], true⟩
      else
        let size := min (w.consumedSize + n) w.recvSize
        if shouldSendWindowUpdate w.localSize size then
          ⟨0, { w with recvSize := w.recvSize - size, consumedSize := w.consumedSize + n - size },
            [size], false⟩
        else ⟨0, { w with consumedSize := w.consumedSize + n }, [], false⟩) := by
  have h0 := hw.consumed_nonneg
  have h1 := hw.consumed_le
  have hrecv := hw.recv
  obtain ⟨hn, hpos⟩ := hn
  unfold maxWindowSize at h1 hn hpos
  unfold IsInt32 at hrecv
  have hc : sizeT w.consumedSize = w.consumedSize :=
    sizeT_of_nonneg h0 (by unfold IsInt32; omega)
  have hroom : sizeT (maxWindowSize - n) = maxWindowSize - n :=
    sizeT_of_nonneg (by unfold maxWindowSize; omega) (by unfold IsInt32 maxWindowSize; omega)
  have hguard : (w.consumedSize > maxWindowSize - n) = (maxWindowSize < w.consumedSize + n) :=
    propext ⟨fun h => by omega, fun h => by omega⟩
  unfold updateConsumedSize
  rw [hc, hroom]
  simp only [hguard]
  by_cases hover : maxWindowSize < w.consumedSize + n
  · rw [if_pos hover, if_pos hover]
  rw [if_neg hover, if_neg hover]
  unfold maxWindowSize at hover
  have hsum : toInt32 (w.consumedSize + n) = w.consumedSize + n :=
    toInt32_of_isInt32 (by unfold IsInt32; omega)
  simp only [hsum]
  generalize hsize : min (w.consumedSize + n) w.recvSize = size
  split_ifs with hsend
  · -- what is returned is not negative, neither when it was received nor when consumed
    simp only [shouldSendWindowUpdate, decide_eq_true_eq] at hsend
    have hrecv0 : 0 ≤ w.recvSize := hpos (by omega) (by omega)
    have hleft : IsInt32 (w.recvSize - size) := by unfold IsInt32; omega
    have hcons : IsInt32 (w.consumedSize + n - size) := by unfold IsInt32; omega
    rw [i32_bind hleft, i32_bind hcons]
    rfl
  · rfl

/-- The call keeps the ranges, returns nothing that was not received, and records exactly
the sum. -/
theorem updateConsumedSize_keeps (hw : w.Bounded) (hn : w.Consumable n) :
    ∃ o, updateConsumedSize w n = some o ∧ o.Keeps w 0 ∧
      o.window.recvSize ≤ w.recvSize ∧
      (o.error = false → o.window.consumedSize + o.queued.sum = w.consumedSize + n) := by
  have h0 := hw.consumed_nonneg
  have h1 := hw.consumed_le
  have hrecv := hw.recv
  have hpos := hn.2
  rw [updateConsumedSize_eq hw hn]
  refine ⟨_, rfl, ?_⟩
  by_cases hover : maxWindowSize < w.consumedSize + n
  · rw [if_pos hover]
    exact ⟨⟨hw, .inl le_rfl, nofun⟩, le_rfl, nofun⟩
  rw [if_neg hover]
  simp only
  unfold maxWindowSize at h1 hover hpos
  unfold IsInt32 at hrecv
  generalize hsize : min (w.consumedSize + n) w.recvSize = size
  split_ifs with hsend
  · simp only [shouldSendWindowUpdate, decide_eq_true_eq] at hsend
    have hrecv0 : 0 ≤ w.recvSize := hpos (by omega) (by omega)
    refine ⟨⟨⟨⟨hw.size, ⟨?_, ?_⟩, hw.reduction_nonneg, hw.reduction_le⟩, ?_, ?_⟩, .inl le_rfl,
      fun _ => ?_⟩, ?_, fun _ => ?_⟩ <;>
      simp only [left, List.sum_cons, List.sum_nil, maxWindowSize] <;> omega
  · refine ⟨⟨⟨⟨hw.size, hw.recv, hw.reduction_nonneg, hw.reduction_le⟩, ?_, ?_⟩, .inl le_rfl,
      fun _ => ?_⟩, le_rfl, fun _ => ?_⟩ <;>
      simp only [left, List.sum_nil, maxWindowSize] <;> omega

/-- A size beyond `NGHTTP2_MAX_WINDOW_SIZE` passes the guard, and the sum is not the one
that is recorded. -/
theorem updateConsumedSize_large (hw : w.Bounded) (hn : maxWindowSize < n) (h64 : n < 2 ^ 64)
    (ho : updateConsumedSize w n = some o) :
    o.error = false ∧ o.window.consumedSize + o.queued.sum ≠ w.consumedSize + n := by
  have h0 := hw.consumed_nonneg
  have h1 := hw.consumed_le
  unfold maxWindowSize at hn h1
  have hguard : ¬ sizeT w.consumedSize > sizeT (maxWindowSize - n) := by
    unfold sizeT maxWindowSize
    omega
  have hsum : toInt32 (w.consumedSize + n) < w.consumedSize + n := by
    unfold toInt32
    omega
  unfold updateConsumedSize at ho
  simp only [if_neg hguard] at ho
  generalize min (toInt32 (w.consumedSize + n)) w.recvSize = size at ho
  split_ifs at ho
  · have ho := i32_bind_eq_some (i32_bind_eq_some ho)
    obtain rfl := Option.some.inj ho
    refine ⟨rfl, ?_⟩
    simp only [List.sum_cons, List.sum_nil]
    omega
  · obtain rfl := Option.some.inj ho
    refine ⟨rfl, ?_⟩
    simp only [List.sum_nil]
    omega

/-- A negative `recv_window_size` that is at least half of the local window is returned to
the peer, so that it grows. -/
theorem updateConsumedSize_grows (hw : w.Bounded) (hn : w.consumedSize + n ≤ maxWindowSize)
    (hneg : w.recvSize < 0) (hhalf : w.localSize.tdiv 2 ≤ w.recvSize)
    (ho : updateConsumedSize w n = some o) : w.recvSize < o.window.recvSize := by
  have h0 := hw.consumed_nonneg
  unfold maxWindowSize at hn
  have hguard : ¬ sizeT w.consumedSize > sizeT (maxWindowSize - n) := by
    unfold sizeT maxWindowSize
    omega
  have hsum : toInt32 (w.consumedSize + n) = w.consumedSize + n :=
    toInt32_of_isInt32 (by unfold IsInt32; omega)
  have hsize : min (w.consumedSize + n) w.recvSize = w.recvSize := min_eq_right (by omega)
  have hsend : shouldSendWindowUpdate w.localSize w.recvSize = true := by
    simpa [shouldSendWindowUpdate] using hhalf
  unfold updateConsumedSize at ho
  simp only [if_neg hguard, hsum, hsize, hsend, if_true] at ho
  have ho := i32_bind_eq_some (i32_bind_eq_some ho)
  obtain rfl := Option.some.inj ho
  simpa using hneg

theorem updateConsumedSize_spec (hw : w.Sound) (hn : n < 2 ^ 31) :
    ∃ o, updateConsumedSize w n = some o ∧ o.Conserves w 0 := by
  have h0 := hw.local_nonneg
  obtain ⟨o, ho, hkeeps, -⟩ := updateConsumedSize_keeps hw.bounded
    (consumable_of_nonneg h0 (n := n) (by unfold maxWindowSize; omega))
  exact ⟨o, ho, hkeeps.conserves h0⟩

/-! ## Runs -/

/-- What happens to a window: the application submits a WINDOW_UPDATE; a piece of a DATA
frame is received, after which a WINDOW_UPDATE may be sent or not; the application consumes
received bytes. -/
inductive Event where
  | submit (increment : Int32)
  | receive (n : Fin (2 ^ 24)) (send : Bool)
  | consume (n : Fin (2 ^ 31))
deriving DecidableEq

/-- The bytes of DATA that come with an event. -/
def Event.bytes : Event → ℕ
  | .receive n _ => n
  | _ => 0

/-- The call that an event is handled by. -/
def call (auto : Bool) (w : Window) : Event → Option Outcome
  | .submit increment => submitWindowUpdate w increment.toInt
  | .receive n send => updateRecvStreamWindowSize auto w n send
  | .consume n => consume auto w n

/-- **Every call** conserves bytes. -/
theorem call_spec (auto : Bool) (hw : w.Sound) (e : Event) :
    ∃ o, w.call auto e = some o ∧ o.Conserves w e.bytes := by
  cases e with
  | submit increment =>
    refine submitWindowUpdate_spec hw ⟨?_, ?_⟩
    · exact increment.le_toInt
    · have := increment.toInt_lt
      omega
  | receive n send => exact updateRecvWindowSize_spec hw n.isLt _
  | consume n =>
    unfold call consume
    cases auto with
    | true => exact ⟨_, rfl, hw, by simp [Event.bytes]⟩
    | false => exact updateConsumedSize_spec hw n.isLt

/-- A window beside what the peer knows: the increments that were announced to it and the
bytes that it has sent.  `error` is set once flow control was violated. -/
structure Ledger where
  window : Window
  announced : List ℤ
  received : ℕ
  error : Bool
deriving DecidableEq

/-- The ledger of a new session or stream. -/
def Ledger.start (initial : ℤ) : Ledger := ⟨fresh initial, [], 0, false⟩

/-- One event. -/
def Ledger.step (auto : Bool) (l : Ledger) (e : Event) : Option Ledger := do
  let o ← l.window.call auto e
  return ⟨o.window, l.announced ++ o.queued, l.received + e.bytes, l.error || o.error⟩

/-- A run; none if a computation overflows. -/
def Ledger.run (auto : Bool) (l : Ledger) (events : List Event) : Option Ledger :=
  events.foldlM (Ledger.step auto) l

/-- The window that the peer believes to have is the one that the library has. -/
structure Ledger.Agrees (initial : ℤ) (l : Ledger) : Prop where
  sound : l.window.Sound
  left : l.error = false → l.window.left = initial + l.announced.sum - l.received

/-- One event. -/
theorem Ledger.Agrees.step (hl : l.Agrees initial) (auto : Bool)
    (e : Event) : ∃ l', l.step auto e = some l' ∧ l'.Agrees initial := by
  obtain ⟨o, ho, hcons⟩ := call_spec auto hl.sound e
  unfold Ledger.step
  rw [ho]
  refine ⟨_, rfl, hcons.sound, fun herr => ?_⟩
  obtain ⟨hl', ho'⟩ := Bool.or_eq_false_iff.1 herr
  have h1 := hl.left hl'
  have h2 := hcons.left ho'
  simp only [List.sum_append, Nat.cast_add]
  omega

/-- **Every run** agrees with its ledger. -/
theorem Ledger.Agrees.run (hl : l.Agrees initial) (auto : Bool)
    (events : List Event) : ∃ l', l.run auto events = some l' ∧ l'.Agrees initial := by
  induction events generalizing l with
  | nil => exact ⟨l, rfl, hl⟩
  | cons e events ih =>
    obtain ⟨l1, h1, hl1⟩ := hl.step auto e
    obtain ⟨l2, h2, hl2⟩ := ih hl1
    refine ⟨l2, ?_, hl2⟩
    unfold Ledger.run at h2 ⊢
    rw [List.foldlM_cons, h1]
    exact h2

theorem agrees_start (h0 : 0 ≤ initial) (h1 : initial ≤ maxWindowSize) :
    (Ledger.start initial).Agrees initial :=
  ⟨sound_fresh h0 h1, fun _ => by simp [Ledger.start, fresh, left]⟩

/-- **The window and the peer agree.**  Each adjustment conserves what the peer may send,
and so does each run of the calls that change a window: until flow control is violated,
what is left of the window is the initial window, with what was announced and without what
was received. -/
theorem window_conserved :
    (∀ w delta, w.Ok → IsInt32 delta →
      ∃ a, adjustLocalWindowSize w delta = some a ∧
        (a.rv ≠ 0 ∧ a.window = w ∧ a.delta = delta ∨
          a.rv = 0 ∧ 0 ≤ a.window.localSize ∧ a.window.localSize ≤ maxWindowSize ∧
          0 ≤ a.window.recvReduction ∧ 0 ≤ a.delta ∧ a.delta ≤ max 0 delta ∧
          a.window.localSize - a.window.recvSize = w.localSize - w.recvSize + a.delta)) ∧
    (∀ initial auto events, 0 ≤ initial → initial ≤ maxWindowSize →
      ∃ l, (Ledger.start initial).run auto events = some l ∧
        (l.error = false →
          l.window.localSize - l.window.recvSize =
            initial + l.announced.sum - l.received)) := by
  refine ⟨fun w delta hw hd => ?_, fun initial auto events h0 h1 => ?_⟩
  · obtain ⟨a, ha, ⟨hrv, hwin, hdelta⟩ | h⟩ := adjustLocalWindowSize_spec hw hd
    · exact ⟨a, ha, .inl ⟨by rw [hrv]; decide, hwin, hdelta⟩⟩
    · exact ⟨a, ha, .inr ⟨h.rv, h.ok.local_nonneg, h.ok.local_le, h.ok.reduction_nonneg,
        h.nonneg, h.le, h.left⟩⟩
  · obtain ⟨l, hl, hagrees⟩ := (agrees_start h0 h1).run auto events
    exact ⟨l, hl, hagrees.left⟩

/-- A window is shrunk by 100 bytes, 40 are received, and it is enlarged by 150: the peer is
told of 50 bytes. -/
theorem shrunk_window_conserved :
    (∃ a, adjustLocalWindowSize ⟨65435, -60, 100, 0⟩ 150 = some a ∧
      a = ⟨0, ⟨65585, 40, 0, 0⟩, 50⟩ ∧
      a.window.localSize - a.window.recvSize = 65435 - -60 + a.delta) ∧
    ∃ l, (Ledger.start 65535).run false
        [.submit (-100), .receive 40 true, .submit 150] = some l ∧
      l = ⟨⟨65585, 40, 0, 0⟩, [50], 40, false⟩ ∧
      l.window.localSize - l.window.recvSize = 65535 + l.announced.sum - l.received := by
  constructor
  · obtain ⟨a, ha, h⟩ := window_conserved.1 ⟨65435, -60, 100, 0⟩ 150
      ⟨by decide, by decide, by decide, by decide, by decide⟩ (by decide)
    have hcall : adjustLocalWindowSize ⟨65435, -60, 100, 0⟩ 150 =
        some ⟨0, ⟨65585, 40, 0, 0⟩, 50⟩ := by decide +kernel
    obtain rfl : (⟨0, ⟨65585, 40, 0, 0⟩, 50⟩ : Adjusted) = a :=
      Option.some.inj (hcall.symm.trans ha)
    rcases h with ⟨hrv, -⟩ | ⟨-, -, -, -, -, -, hleft⟩
    · exact absurd rfl hrv
    · exact ⟨_, ha, rfl, hleft⟩
  obtain ⟨l, hl, hleft⟩ := window_conserved.2 65535 false
    [.submit (-100), .receive 40 true, .submit 150] (by decide) (by decide)
  have hrun : (Ledger.start 65535).run false
      [.submit (-100), .receive 40 true, .submit 150] =
        some ⟨⟨65585, 40, 0, 0⟩, [50], 40, false⟩ := by decide +kernel
  obtain rfl : (⟨⟨65585, 40, 0, 0⟩, [50], 40, false⟩ : Ledger) = l :=
    Option.some.inj (hrun.symm.trans hl)
  exact ⟨_, hl, rfl, hleft rfl⟩

end Window

end Nghttp2
