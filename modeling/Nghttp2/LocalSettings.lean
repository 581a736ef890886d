/-
# Local SETTINGS and their acknowledgement

The SETTINGS that a session sends hold for its own side once the peer has acknowledged
them.  Until then they wait in the list `inflight_settings`, and each SETTINGS ACK takes
the first of them: the header table of the inflater is resized, the windows of all streams
move with the initial window size, and the values become `local_settings`.

* `updateLocalSettings`: `nghttp2_session_update_local_settings`;
* `table_size_applied_iff`: what it makes of SETTINGS_HEADER_TABLE_SIZE;
* `AckSession`: submitting, writing and acknowledging SETTINGS frames;
* `ack_applies_written`: which frame an ACK is for.
-/
import Nghttp2.InflateSafe
import Nghttp2.FrameFormat
import Nghttp2.RecvWindows

namespace Nghttp2.Settings

open Format Hd

/-- `nghttp2_settings_storage`. -/
structure Values where
  headerTableSize : ℕ
  enablePush : ℕ
  maxConcurrentStreams : ℕ
  initialWindowSize : ℕ
  maxFrameSize : ℕ
  maxHeaderListSize : ℕ
deriving DecidableEq, Repr

/-- `init_settings`. -/
def Values.init : Values := ⟨4096, 1, 2147483647, 65535, 16384, 4294967295⟩

/-- A value becomes valid; an unknown identifier is ignored. -/
def Values.set (v : Values) (e : SettingsEntry) : Values :=
  match e.settingsId with
  | 1 => { v with headerTableSize := e.value }
  | 2 => { v with enablePush := e.value }
  | 3 => { v with maxConcurrentStreams := e.value }
  | 4 => { v with initialWindowSize := e.value }
  | 5 => { v with maxFrameSize := e.value }
  | 6 => { v with maxHeaderListSize := e.value }
  | _ => v

/-- The value last seen for an identifier. -/
def lastValue (id : ℕ) (iv : List SettingsEntry) : Option ℕ :=
  iv.foldl (fun last e => if e.settingsId = id then some e.value else last) none

/-- `nghttp2_iv_check`. -/
def ivCheck (iv : List SettingsEntry) : Bool :=
  iv.all fun e => match e.settingsId with
    | 2 => e.value = 0 || e.value = 1
    | 4 => e.value ≤ 2147483647
    | 5 => 16384 ≤ e.value && e.value ≤ 16777215
    | _ => true

/-- What local settings are applied to.  `windows.initial` is
`local_settings.initial_window_size`. -/
structure LocalSide where
  inflater : Inflater
  windows : RecvWindows
  values : Values
deriving DecidableEq

/-- A new session. -/
def LocalSide.init (auto : Bool) : LocalSide := ⟨.init, .start auto, .init⟩

/-- What a call leaves: its return code, the session, and the WINDOW_UPDATE frames that it
queued. -/
structure Applied where
  rv : ℤ
  side : LocalSide
  updates : List (ℕ × ℤ)
  terminated : Bool
deriving DecidableEq

/-- The inflater with the header table size that was last seen.  The value goes through an
`int32_t` into a `size_t`. -/
def changeTableSize (i : Inflater) (iv : List SettingsEntry) : Option Inflater :=
  match lastValue 1 iv with
  | none => some i
  | some v => i.changeTableSize (sizeT (toInt32 v)).toNat

/-- `nghttp2_session_update_local_settings`. -/
def updateLocalSettings (x : LocalSide) (iv : List SettingsEntry) : Applied :=
  -- `new_initial_window_size` is -1 if there is none
  let newInitial := ((lastValue 4 iv).map fun v => toInt32 v).getD (-1)
  match changeTableSize x.inflater iv with
  | none => ⟨-519, x, [], false⟩
  | some inflater =>
    let r := if newInitial ≠ -1 then x.windows.applyInitialWindowSize newInitial
      else x.windows.unchanged 0
    let values := iv.foldl Values.set x.values
    ⟨0, ⟨inflater, { r.windows with initial := toInt32 values.initialWindowSize }, values⟩,
      r.updates, r.terminated⟩

/-! ## The header table size -/

variable {x : LocalSide} {iv : List SettingsEntry}

theorem lastValue_concat (id : ℕ) (e : SettingsEntry) :
    lastValue id (iv ++ [e]) = if e.settingsId = id then some e.value else lastValue id iv := by
  simp [lastValue]

/-- Each of the values is the one last seen. -/
theorem foldl_set (v : Values) (iv : List SettingsEntry) :
    iv.foldl Values.set v =
      ⟨(lastValue 1 iv).getD v.headerTableSize, (lastValue 2 iv).getD v.enablePush,
        (lastValue 3 iv).getD v.maxConcurrentStreams, (lastValue 4 iv).getD v.initialWindowSize,
        (lastValue 5 iv).getD v.maxFrameSize, (lastValue 6 iv).getD v.maxHeaderListSize⟩ := by
  induction iv using List.reverseRecOn with
  | nil => rfl
  | append_singleton iv e ih =>
    rw [List.foldl_append, ih]
    simp only [List.foldl_cons, List.foldl_nil, lastValue_concat]
    unfold Values.set
    split <;> simp_all

/-- What the acknowledged header table size should make of the session: the inflater has
the value last submitted as its limit, its table is no larger, and the entries fit. -/
structure TableSizeApplied (iv : List SettingsEntry) (x : LocalSide) : Prop where
  last : ∀ v ∈ lastValue 1 iv, x.values.headerTableSize = v
  settings : x.inflater.settingsHdTableBufsizeMax = x.values.headerTableSize
  max : x.inflater.ctx.hdTableBufsizeMax ≤ x.values.headerTableSize
  table : x.inflater.ctx.Sound

/-- A value beyond 31 bits becomes a limit that no table reaches. -/
theorem header_table_size_misread :
    (updateLocalSettings (.init true) [⟨1, 2147483648⟩]).rv = 0 ∧
      (updateLocalSettings (.init true) [⟨1, 2147483648⟩]).side.values.headerTableSize =
        2147483648 ∧
      (updateLocalSettings (.init true)
        [⟨1, 2147483648⟩]).side.inflater.settingsHdTableBufsizeMax = 18446744071562067968 := by
  decide +kernel

variable {i : Inflater} {n v : ℕ}

theorem changeTableSize_eq_some {i' : Inflater} (h : i.changeTableSize n = some i') :
    i'.settingsHdTableBufsizeMax = n ∧ i.AtBlockStart := by
  unfold Inflater.changeTableSize at h
  split at h
  next hstate =>
    cases h
    exact ⟨rfl, .inr hstate⟩
  next hstate =>
    cases h
    exact ⟨rfl, .inl hstate⟩
  · cases h

theorem changeTableSize_isSome_iff : (∃ i', i.changeTableSize n = some i') ↔ i.AtBlockStart := by
  refine ⟨fun ⟨i', h⟩ => (changeTableSize_eq_some h).2, fun h => ?_⟩
  unfold Inflater.changeTableSize
  rcases h with h | h <;> rw [h] <;> exact ⟨_, rfl⟩

/-- The two conversions keep exactly the values of 31 bits. -/
theorem sizeT_toInt32_eq_iff (hv : v < 2 ^ 32) : (sizeT (toInt32 v)).toNat = v ↔ v < 2 ^ 31 := by
  unfold sizeT toInt32
  omega

theorem lastValue_lt (hv : ∀ e ∈ iv, e.value < 2 ^ 32) {id : ℕ}
    (h : lastValue id iv = some v) : v < 2 ^ 32 := by
  induction iv using List.reverseRecOn with
  | nil => cases h
  | append_singleton iv e ih =>
    rw [lastValue_concat] at h
    split_ifs at h
    · cases h
      exact hv e (by simp)
    · exact ih (fun e he => hv e (List.mem_append_left _ he)) h

/-- The session after an acknowledgement that was applied. -/
theorem updateLocalSettings_of_some (h : changeTableSize x.inflater iv = some i) :
    (updateLocalSettings x iv).rv = 0 ∧ (updateLocalSettings x iv).side.inflater = i ∧
      (updateLocalSettings x iv).side.values = iv.foldl Values.set x.values := by
  rw [updateLocalSettings, h]
  exact ⟨rfl, rfl, rfl⟩

theorem updateLocalSettings_of_none (h : changeTableSize x.inflater iv = none) :
    (updateLocalSettings x iv).rv = -519 := by
  rw [updateLocalSettings, h]

/-- **The acknowledged header table size.**  For every inflater, the acknowledgement is
applied unless it comes in the middle of a header block, and then the inflater has the last
submitted size as its limit, with a table that was evicted to fit, exactly if this size is
below `2^31`. -/
theorem table_size_applied_iff (calls : List Inflater.Call) (x : LocalSide)
    (hx : x.inflater = calls.foldl Inflater.call Inflater.init) (iv : List SettingsEntry)
    (hv : ∀ e ∈ iv, e.value < 2 ^ 32)
    (hbefore : lastValue 1 iv = none →
      x.inflater.settingsHdTableBufsizeMax = x.values.headerTableSize) :
    ((updateLocalSettings x iv).rv = 0 ↔
      lastValue 1 iv = none ∨ x.inflater.AtBlockStart) ∧
    ((updateLocalSettings x iv).rv = 0 →
      (TableSizeApplied iv (updateLocalSettings x iv).side ↔
        ∀ v ∈ lastValue 1 iv, v < 2 ^ 31)) := by
  have hgood : x.inflater.Good := hx ▸ Inflater.good_of_calls calls Inflater.init_good
  have hsize : (iv.foldl Values.set x.values).headerTableSize =
      (lastValue 1 iv).getD x.values.headerTableSize := by rw [foldl_set]
  cases hlast : lastValue 1 iv with
  | none =>
    have hchange : changeTableSize x.inflater iv = some x.inflater := by
      unfold changeTableSize
      rw [hlast]
    obtain ⟨hrv, hinflater, hvalues⟩ := updateLocalSettings_of_some hchange
    rw [hlast, Option.getD_none] at hsize
    have hle := hgood.max_le
    rw [hbefore hlast] at hle
    refine ⟨by simp [hrv], fun _ => iff_of_true ⟨?_, ?_, ?_, ?_⟩ nofun⟩
    · simp [hlast]
    · rw [hinflater, hvalues, hsize, hbefore hlast]
    · rwa [hinflater, hvalues, hsize]
    · rw [hinflater]
      exact hgood.sound
  | some v =>
    have hlt := lastValue_lt hv hlast
    have hchange : changeTableSize x.inflater iv =
        x.inflater.changeTableSize (sizeT (toInt32 v)).toNat := by
      unfold changeTableSize
      rw [hlast]
    rw [hlast, Option.getD_some] at hsize
    cases hi : x.inflater.changeTableSize (sizeT (toInt32 v)).toNat with
    | none =>
      -- in the middle of a block the call is refused
      have hrv := updateLocalSettings_of_none (hchange.trans hi)
      have hstart : ¬ x.inflater.AtBlockStart := fun hstart => by
        obtain ⟨i', hi'⟩ := changeTableSize_isSome_iff.2 hstart
        cases hi.symm.trans hi'
      simp [hrv, hstart]
    | some i =>
      obtain ⟨hrv, hinflater, hvalues⟩ := updateLocalSettings_of_some (hchange.trans hi)
      obtain ⟨hlimit, hstart⟩ := changeTableSize_eq_some hi
      have hgood' := Inflater.changeTableSize_good hgood.sound hi
      have hle := hgood'.max_le
      refine ⟨by simp [hrv, hstart], fun _ => ?_⟩
      simp only [Option.mem_def, Option.some.injEq, forall_eq']
      rw [← sizeT_toInt32_eq_iff hlt, ← hlimit]
      constructor
      · intro h
        rw [← h.last v hlast, ← h.settings, hinflater]
      intro h
      refine ⟨?_, ?_, ?_, ?_⟩
      · simp [hvalues, hsize, hlast]
      · rw [hinflater, hvalues, hsize, h]
      · rw [hinflater, hvalues, hsize]
        omega
      · rw [hinflater]
        exact hgood'.sound

/-- The table of a new session is made smaller. -/
theorem table_size_applied_100 :
    TableSizeApplied [⟨1, 5000⟩, ⟨1, 100⟩]
      (updateLocalSettings (.init true) [⟨1, 5000⟩, ⟨1, 100⟩]).side :=
  ((table_size_applied_iff [] (.init true) rfl [⟨1, 5000⟩, ⟨1, 100⟩] (by decide)
    (by decide +kernel)).2 (by decide +kernel)).2 (by decide +kernel)

/-! ## Which SETTINGS an ACK is for -/

/-- A session that sends SETTINGS: the entries that wait for an ACK
(`inflight_settings_head`), the SETTINGS frames in `ob_urgent`, the payloads that were
written to the peer, and the number of ACKs received. -/
structure AckSession where
  side : LocalSide
  inflight : List (List SettingsEntry)
  queue : List (List SettingsEntry)
  written : List Bytes
  acks : ℕ

namespace AckSession

/-- A new session. -/
def init (auto : Bool) : AckSession := ⟨.init auto, [], [], [], 0⟩

/-- What happens: the application submits SETTINGS; the next SETTINGS frame of the queue is
sent, with `room` bytes in the frame buffer; an ACK is received; anything else changes the
session. -/
inductive Event
  | submit (iv : List SettingsEntry)
  | send (room : ℕ)
  | ack
  | other (side : LocalSide)

/-- One event.  `submit` is `nghttp2_session_add_settings`, `send` is what
`session_prep_frame` does with a SETTINGS frame, and `ack` is the first half of
`nghttp2_session_on_settings_received`. -/
def step (s : AckSession) : Event → AckSession
  | .submit iv =>
    if ivCheck iv then { s with inflight := s.inflight ++ [iv], queue := s.queue ++ [iv] } else s
  | .send room => match s.queue with
    | [] => s
    | iv :: rest =>
      match packSettings room (settingsInit 0 iv) iv with
      | none => { s with queue := rest }
      | some _ => { s with queue := rest, written := s.written ++ [packSettingsPayload iv] }
  | .ack => match s.inflight with
    | [] => s
    | iv :: rest =>
      { s with
        side := (updateLocalSettings s.side iv).side
        inflight := rest
        acks := s.acks + 1 }
  | .other side => { s with side }

/-- The frame that is submitted can be written, and an ACK is for a frame that was
written. -/
def Fits (s : AckSession) : Event → Prop
  | .submit iv => ∀ e ∈ iv, e.settingsId < 2 ^ 16 ∧ e.value < 2 ^ 32
  | .send room => ∀ iv ∈ s.queue.head?, 6 * iv.length ≤ room
  | .ack => s.acks < s.written.length
  | .other _ => True

/-- All events of a run fit. -/
def Fitting (s : AckSession) : List Event → Prop
  | [] => True
  | e :: events => s.Fits e ∧ (s.step e).Fitting events

/-- The state after a run. -/
def run (s : AckSession) (events : List Event) : AckSession := events.foldl step s

variable {s : AckSession}

/-- The entries that wait for an ACK are those of the frames that were written and not
acknowledged, and those of the frames to be written. -/
def Paired (s : AckSession) : Prop :=
  ∃ sent : List (List SettingsEntry), s.written = sent.map packSettingsPayload ∧
    s.inflight = sent.drop s.acks ++ s.queue ∧ s.acks ≤ sent.length ∧
    ∀ iv ∈ sent ++ s.queue, ∀ e ∈ iv, e.settingsId < 2 ^ 16 ∧ e.value < 2 ^ 32

theorem Paired.step (hs : s.Paired) {e : Event} (he : s.Fits e) : (s.step e).Paired := by
  obtain ⟨sent, hwritten, hinflight, hacks, hfit⟩ := hs
  cases e with
  | submit iv =>
    simp only [AckSession.step]
    split_ifs
    · refine ⟨sent, hwritten, ?_, hacks, fun iv' hiv' => ?_⟩
      · show s.inflight ++ [iv] = _
        rw [hinflight, List.append_assoc]
      · rw [← List.append_assoc] at hiv'
        rcases List.mem_append.1 hiv' with h | h
        · exact hfit iv' h
        · exact List.mem_singleton.1 h ▸ he
    · exact ⟨sent, hwritten, hinflight, hacks, hfit⟩
  | send room =>
    unfold AckSession.step
    cases hqueue : s.queue with
    | nil => exact ⟨sent, hwritten, hinflight, hacks, hfit⟩
    | cons iv rest =>
      have hroom : ¬ room < (settingsInit 0 iv).length := (he iv (by simp [hqueue])).not_gt
      simp only [packSettings, if_neg hroom]
      refine ⟨sent ++ [iv], by simp [hwritten], ?_, by simp; omega, fun iv' hiv' => ?_⟩
      · show s.inflight = _
        rw [hinflight, hqueue, List.drop_append_of_le_length hacks, List.append_assoc]
        rfl
      · rw [List.append_assoc, List.singleton_append, ← hqueue] at hiv'
        exact hfit iv' hiv'
  | ack =>
    have hlt : s.acks < sent.length := by
      have : s.acks < s.written.length := he
      rwa [hwritten, List.length_map] at this
    rw [List.drop_eq_getElem_cons hlt, List.cons_append] at hinflight
    unfold AckSession.step
    rw [hinflight]
    exact ⟨sent, hwritten, rfl, hlt, hfit⟩
  | other side => exact ⟨sent, hwritten, hinflight, hacks, hfit⟩

theorem Paired.run (hs : s.Paired) {events : List Event} (hf : s.Fitting events) :
    (s.run events).Paired := by
  induction events generalizing s with
  | nil => exact hs
  | cons e events ih => exact ih (hs.step hf.1) hf.2

/-- **ACKs are paired with the frames that were written.**  In every run whose SETTINGS
frames can be written, the next ACK applies the entries that the peer reads in the first
frame that is not acknowledged. -/
theorem ack_applies_written (auto : Bool) (events : List Event)
    (hf : (init auto).Fitting events) (payload : Bytes)
    (hnext : ((init auto).run events).written[((init auto).run events).acks]? = some payload) :
    (((init auto).run events).step .ack).acks = ((init auto).run events).acks + 1 ∧
      (((init auto).run events).step .ack).side =
        (updateLocalSettings ((init auto).run events).side
          (unpackSettingsPayload2 payload)).side := by
  have hpaired : (init auto).Paired := ⟨[], rfl, rfl, le_rfl, nofun⟩
  obtain ⟨sent, hwritten, hinflight, -, hfit⟩ := hpaired.run hf
  generalize (init auto).run events = s at *
  rw [hwritten, List.getElem?_map] at hnext
  obtain ⟨iv, hiv, rfl⟩ := Option.map_eq_some_iff.1 hnext
  obtain ⟨hlt, rfl⟩ := List.getElem?_eq_some_iff.1 hiv
  rw [List.drop_eq_getElem_cons hlt, List.cons_append] at hinflight
  have hread := unpackSettingsPayload2_packSettingsPayload
    (hfit _ (List.mem_append_left _ (List.getElem_mem hlt)))
  unfold AckSession.step
  rw [hinflight, hread]
  exact ⟨rfl, rfl⟩

/-- A frame of 2731 entries does not fit into the frame buffer and is dropped, but its
entries wait for an ACK: the ACK of the next frame, which has a header table size of 100,
applies them.  And an identifier of more than 16 bits is written as another one than is
applied. -/
theorem ack_applies_unwritten :
    (((init true).run [.submit (.replicate 2731 ⟨3, 1⟩), .submit [⟨1, 100⟩], .send 16384,
        .send 16384]).written.map unpackSettingsPayload2 = [[⟨1, 100⟩]] ∧
      ((init true).run [.submit (.replicate 2731 ⟨3, 1⟩), .submit [⟨1, 100⟩], .send 16384,
        .send 16384, .ack]).side.values = ⟨4096, 1, 1, 65535, 16384, 4294967295⟩) ∧
    (((init true).run [.submit [⟨65537, 100⟩], .send 16384]).written.map
        unpackSettingsPayload2 = [[⟨1, 100⟩]] ∧
      ((init true).run [.submit [⟨65537, 100⟩], .send 16384, .ack]).side.values =
        ⟨4096, 1, 2147483647, 65535, 16384, 4294967295⟩) := by
  decide +kernel

/-- Two frames are written, and the first ACK applies the first of them. -/
theorem ack_applies_first_of_two :
    (((init true).run [.submit [⟨1, 100⟩], .submit [⟨3, 7⟩], .send 16384, .send 16384]).step
      .ack).side = (updateLocalSettings (.init true) [⟨1, 100⟩]).side := by
  have h := ack_applies_written true
    [.submit [⟨1, 100⟩], .submit [⟨3, 7⟩], .send 16384, .send 16384]
    ⟨by simp [Fits], by simp [Fits], by simp [init, step, ivCheck, Fits],
      by simp [init, step, ivCheck, Fits, packSettings, settingsInit], trivial⟩
    (packSettingsPayload [⟨1, 100⟩]) (by decide +kernel)
  have hread : unpackSettingsPayload2 (packSettingsPayload [⟨1, 100⟩]) = [⟨1, 100⟩] := by
    decide +kernel
  rw [hread] at h
  exact h.2

end AckSession

end Nghttp2.Settings
