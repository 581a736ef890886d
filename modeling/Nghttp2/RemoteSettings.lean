/-
# The SETTINGS of the peer

A SETTINGS frame may name a setting several times, and its entries are to be processed in
order.  `nghttp2_session_mem_recv` does not keep them all: for each known identifier it
keeps the value last seen, and for SETTINGS_HEADER_TABLE_SIZE the least value as well, since
the deflater has to announce the least size its table ever had.

* `RemoteSide.receive`: `nghttp2_session_on_settings_received` for a list of entries;
* `collapse`: what is kept of the entries of a frame;
* `receive_collapse`: nothing is lost by that.
-/
import Nghttp2.Deflate
import Nghttp2.InboundRuns
import Nghttp2.LocalSettings

namespace Nghttp2

namespace Hd.Deflater

open SizedFifo

variable {d : Deflater}

/-- A deflater whose table size was changed: `least` was the least of the sizes, and `last`
the last one. -/
def resized (d : Deflater) (least last : ℕ) : Deflater :=
  { d with
    ctx :=
      { d.ctx with
        hdTable := keep Entry.room (min least d.deflateHdTableBufsizeMax) d.ctx.hdTable
        hdTableBufsize :=
          weight Entry.room (keep Entry.room (min least d.deflateHdTableBufsizeMax) d.ctx.hdTable)
        hdTableBufsizeMax := min last d.deflateHdTableBufsizeMax }
    minHdTableBufsizeMax := min d.minHdTableBufsizeMax (min least d.deflateHdTableBufsizeMax)
    notifyTableSizeChange := true }

theorem changeTableSize_eq (h : d.ctx.Sound) (n : ℕ) : d.changeTableSize n = d.resized n n := by
  have hctx := Context.shrinkTableSize_eq
    (c := { d.ctx with hdTableBufsizeMax := min n d.deflateHdTableBufsizeMax }) h.bufsize
  show ({ d with
    ctx := Context.shrinkTableSize
      { d.ctx with hdTableBufsizeMax := min n d.deflateHdTableBufsizeMax }
    minHdTableBufsizeMax := _, notifyTableSizeChange := true } : Deflater) = _
  rw [hctx]
  rfl

theorem changeTableSize_resized (least last n : ℕ) :
    (d.resized least last).changeTableSize n = d.resized (min least n) n := by
  have hmin : min (min n d.deflateHdTableBufsizeMax) (min least d.deflateHdTableBufsizeMax) =
      min (min least n) d.deflateHdTableBufsizeMax := by omega
  have hleast : min (min d.minHdTableBufsizeMax (min least d.deflateHdTableBufsizeMax))
      (min n d.deflateHdTableBufsizeMax) =
      min d.minHdTableBufsizeMax (min (min least n) d.deflateHdTableBufsizeMax) := by omega
  have hsound : (d.resized least last).ctx.hdTableBufsize =
      weight Entry.room (d.resized least last).ctx.hdTable := rfl
  have hctx := Context.shrinkTableSize_eq (c := { (d.resized least last).ctx with
    hdTableBufsizeMax := min n d.deflateHdTableBufsizeMax }) hsound
  show ({ d.resized least last with
    ctx := Context.shrinkTableSize { (d.resized least last).ctx with
      hdTableBufsizeMax := min n d.deflateHdTableBufsizeMax }
    minHdTableBufsizeMax := _, notifyTableSizeChange := true } : Deflater) = _
  rw [hctx]
  simp only [resized, keep_keep, hmin, hleast]

/-- Any number of changes in a row: only the least size and the last one matter. -/
theorem foldl_changeTableSize (h : d.ctx.Sound) (n : ℕ) (sizes : List ℕ) :
    (n :: sizes).foldl changeTableSize d = d.resized (sizes.foldl min n) (sizes.getLastD n) := by
  induction sizes using List.reverseRecOn with
  | nil => exact changeTableSize_eq h n
  | append_singleton sizes m ih =>
    rw [← List.cons_append, List.foldl_append, ih, List.foldl_append]
    simp only [List.foldl_cons, List.foldl_nil, changeTableSize_resized, List.getLastD_concat]

end Hd.Deflater

namespace Settings

open Format Hd

/-! ## Processing a list of entries -/

/-- The arguments of `session_handle_invalid_connection`. -/
structure SettingsError where
  libErrorCode : ℤ
  reason : String
deriving DecidableEq, Repr

/-- What the settings of the peer are applied to: `remote_settings`, the
`remote_window_size` of each stream, and the deflater.  `terminated` says that the session
was terminated with FLOW_CONTROL_ERROR. -/
structure RemoteSide where
  server : Bool
  values : Values
  windows : List ℤ
  deflater : Deflater
  terminated : Bool
deriving DecidableEq

/-- The entries with one identifier. -/
def entriesOf (id : ℕ) (iv : List SettingsEntry) : List SettingsEntry :=
  iv.filter (·.settingsId = id)

theorem lastValue_eq_entriesOf (id : ℕ) (iv : List SettingsEntry) :
    lastValue id iv = ((entriesOf id iv).map SettingsEntry.value).getLast? := by
  induction iv using List.reverseRecOn with
  | nil => rfl
  | append_singleton iv e ih =>
    rw [lastValue_concat, entriesOf, List.filter_append]
    by_cases hid : e.settingsId = id
    · simp [hid]
    · rw [if_neg hid, ih]
      simp [entriesOf, hid]

namespace RemoteSide

variable {x y : RemoteSide} {e : SettingsEntry} {iv : List SettingsEntry}

/-- `session_update_remote_initial_window_size`. -/
def updateInitialWindowSize (x : RemoteSide) (newSize : ℕ) : RemoteSide :=
  let update := fun w => Window.updateInitialWindowSize w newSize x.values.initialWindowSize
  { x with
    windows := x.windows.map fun w => (update w).2
    terminated := x.terminated || x.windows.any fun w => decide ((update w).1 ≠ 0) }

/-- One turn of the loop of `nghttp2_session_on_settings_received` over the entries. -/
def entry (x : RemoteSide) (e : SettingsEntry) : Except SettingsError RemoteSide :=
  match e.settingsId with
  | 1 => .ok { x with
      deflater := x.deflater.changeTableSize e.value
      values := { x.values with headerTableSize := e.value } }
  | 2 =>
    if e.value ≠ 0 ∧ e.value ≠ 1 then .error ⟨-505, "SETTINGS: invalid SETTINGS_ENBLE_PUSH"⟩
    else if x.server = false ∧ e.value ≠ 0 then
      .error ⟨-505, "SETTINGS: server attempted to enable push"⟩
    else .ok { x with values := { x.values with enablePush := e.value } }
  | 3 => .ok { x with values := { x.values with maxConcurrentStreams := e.value } }
  | 4 =>
    if e.value > 2147483647 then
      .error ⟨-524, "SETTINGS: too large SETTINGS_INITIAL_WINDOW_SIZE"⟩
    else .ok { x.updateInitialWindowSize e.value with
      values := { x.values with initialWindowSize := e.value } }
  | 5 =>
    if e.value < 16384 ∨ e.value > 16777215 then
      .error ⟨-505, "SETTINGS: invalid SETTINGS_MAX_FRAME_SIZE"⟩
    else .ok { x with values := { x.values with maxFrameSize := e.value } }
  | 6 => .ok { x with values := { x.values with maxHeaderListSize := e.value } }
  | _ => .ok x

/-- The whole loop. -/
def receive (x : RemoteSide) (iv : List SettingsEntry) : Except SettingsError RemoteSide :=
  iv.foldlM entry x

/-- The entry is not refused. -/
def Accepts (server : Bool) (e : SettingsEntry) : Prop :=
  (e.settingsId = 2 → (e.value = 0 ∨ e.value = 1) ∧ (server = false → e.value = 0)) ∧
    (e.settingsId = 4 → e.value ≤ 2147483647) ∧
    (e.settingsId = 5 → 16384 ≤ e.value ∧ e.value ≤ 16777215)

/-- What an entry does that is not refused. -/
def apply (x : RemoteSide) (e : SettingsEntry) : RemoteSide :=
  { x with
    values := x.values.set e
    windows := if e.settingsId = 4 then (x.updateInitialWindowSize e.value).windows
      else x.windows
    terminated := if e.settingsId = 4 then (x.updateInitialWindowSize e.value).terminated
      else x.terminated
    deflater := if e.settingsId = 1 then x.deflater.changeTableSize e.value else x.deflater }

theorem entry_of_accepts (h : Accepts x.server e) : x.entry e = .ok (x.apply e) := by
  obtain ⟨hpush, hinitial, hframe⟩ := h
  unfold entry apply
  split
  next hid => simp [hid, Values.set]
  next hid =>
    obtain ⟨hvalue, hserver⟩ := hpush hid
    rw [if_neg (by omega), if_neg (fun h => h.2 (hserver h.1))]
    simp [hid, Values.set]
  next hid => simp [hid, Values.set]
  next hid =>
    have := hinitial hid
    rw [if_neg (by omega)]
    simp [hid, updateInitialWindowSize, Values.set]
  next hid =>
    have := hframe hid
    rw [if_neg (by omega)]
    simp [hid, Values.set]
  next hid => simp [hid, Values.set]
  next h1 _ _ h4 _ _ =>
    have hset : x.values.set e = x.values := by
      unfold Values.set
      split <;> first | contradiction | rfl
    rw [if_neg h4, if_neg h4, if_neg h1, hset]

theorem accepts_of_entry (h : x.entry e = .ok y) : Accepts x.server e := by
  unfold entry at h
  refine ⟨fun hid => ?_, fun hid => ?_, fun hid => ?_⟩
  · simp only [hid] at h
    split_ifs at h with h1 h2
    refine ⟨by omega, fun hserver => ?_⟩
    by_contra hvalue
    exact h2 ⟨hserver, hvalue⟩
  · simp only [hid] at h
    split_ifs at h with h1
    omega
  · simp only [hid] at h
    split_ifs at h with h1
    omega

@[simp] theorem apply_server : (x.apply e).server = x.server := rfl

/-- Either an entry is refused, or all of them are applied. -/
theorem receive_eq_ok_iff :
    x.receive iv = .ok y ↔ (∀ e ∈ iv, Accepts x.server e) ∧ iv.foldl apply x = y := by
  induction iv generalizing x with
  | nil =>
    show Except.ok x = Except.ok y ↔ _
    simp
  | cons e iv ih =>
    have hstep : x.receive (e :: iv) = x.entry e >>= fun x' => x'.receive iv := rfl
    rw [hstep, List.forall_mem_cons, List.foldl_cons]
    by_cases haccepts : Accepts x.server e
    · rw [entry_of_accepts haccepts]
      show (x.apply e).receive iv = .ok y ↔ _
      rw [ih]
      simp [haccepts]
    · cases hentry : x.entry e with
      | error err =>
        simp only [haccepts, false_and, iff_false]
        exact nofun
      | ok x' => exact absurd (accepts_of_entry hentry) haccepts

/-! ### What the loop does to each part -/

theorem foldl_apply_values : (iv.foldl apply x).values = iv.foldl Values.set x.values := by
  induction iv generalizing x with
  | nil => rfl
  | cons e iv ih => exact ih

theorem foldl_apply_deflater : (iv.foldl apply x).deflater =
    ((entriesOf 1 iv).map SettingsEntry.value).foldl Deflater.changeTableSize x.deflater := by
  induction iv generalizing x with
  | nil => rfl
  | cons e iv ih =>
    rw [List.foldl_cons, ih]
    by_cases hid : e.settingsId = 1
    · simp [entriesOf, hid, apply]
    · simp [entriesOf, hid, apply]

theorem foldl_apply_windows (iv : List SettingsEntry) (hy : y.windows = x.windows)
    (hinitial : y.values.initialWindowSize = x.values.initialWindowSize)
    (hterm : y.terminated = x.terminated) :
    (iv.foldl apply x).windows = ((entriesOf 4 iv).foldl apply y).windows ∧
      (iv.foldl apply x).terminated = ((entriesOf 4 iv).foldl apply y).terminated := by
  induction iv generalizing x y with
  | nil => exact ⟨hy.symm, hterm.symm⟩
  | cons e iv ih =>
    by_cases hid : e.settingsId = 4
    · have hentries : entriesOf 4 (e :: iv) = e :: entriesOf 4 iv := by simp [entriesOf, hid]
      rw [List.foldl_cons, hentries, List.foldl_cons]
      apply ih
      · simp [apply, hid, updateInitialWindowSize, hy, hinitial]
      · simp [apply, hid, Values.set]
      · simp [apply, hid, updateInitialWindowSize, hy, hinitial, hterm]
    have hentries : entriesOf 4 (e :: iv) = entriesOf 4 iv := by simp [entriesOf, hid]
    rw [List.foldl_cons, hentries]
    apply ih
    · simp [apply, hid, hy]
    · rw [hinitial]
      unfold apply Values.set
      split <;> first | rfl | contradiction
    · simp [apply, hid, hterm]

/-- All windows have moved by the difference of the initial windows, and are in range. -/
def Moved (x y : RemoteSide) : Prop :=
  (∀ w ∈ y.windows, IsInt32 w) ∧
    y.windows = x.windows.map (· + (y.values.initialWindowSize : ℤ) - x.values.initialWindowSize)

theorem apply_terminated_iff (hid : e.settingsId = 4) :
    (x.apply e).terminated = false ↔ x.terminated = false ∧
      ∀ w ∈ x.windows, IsInt32 (w + (e.value : ℤ) - x.values.initialWindowSize) := by
  simp only [apply, hid, if_true, updateInitialWindowSize, Bool.or_eq_false_iff,
    List.any_eq_false, decide_eq_true_eq, not_not]
  refine and_congr_right fun _ => forall₂_congr fun w _ => ?_
  unfold Window.updateInitialWindowSize IsInt32 maxWindowSize
  dsimp only
  split_ifs with h <;> simp <;> omega

theorem moved_apply (hid : e.settingsId = 4) (h : (x.apply e).terminated = false) :
    x.Moved (x.apply e) := by
  have hrange := ((apply_terminated_iff hid).1 h).2
  have hvalue : (x.apply e).values.initialWindowSize = e.value := by simp [apply, hid, Values.set]
  have hwindows : (x.apply e).windows =
      x.windows.map (· + (e.value : ℤ) - x.values.initialWindowSize) := by
    simp only [apply, hid, if_true, updateInitialWindowSize]
    refine List.map_congr_left fun w hw => ?_
    have := hrange w hw
    unfold IsInt32 at this
    unfold Window.updateInitialWindowSize maxWindowSize
    rw [if_neg (by omega)]
  refine ⟨fun w hw => ?_, by rw [hwindows, hvalue]⟩
  rw [hwindows] at hw
  obtain ⟨w0, hw0, rfl⟩ := List.mem_map.1 hw
  exact hrange w0 hw0

theorem Moved.trans {z : RemoteSide} (h1 : x.Moved y) (h2 : y.Moved z) : x.Moved z := by
  refine ⟨h2.1, ?_⟩
  rw [h2.2, h1.2, List.map_map]
  refine List.map_congr_left fun w _ => ?_
  simp only [Function.comp_apply]
  omega

/-- Several changes of the initial window, none of which leads out of range. -/
theorem moved_foldl (hids : ∀ e ∈ iv, e.settingsId = 4) (hne : iv ≠ [])
    (h : (iv.foldl apply x).terminated = false) :
    x.terminated = false ∧ x.Moved (iv.foldl apply x) := by
  induction iv using List.reverseRecOn with
  | nil => exact absurd rfl hne
  | append_singleton iv e ih =>
    have hid := hids e (by simp)
    rw [List.foldl_append] at h ⊢
    simp only [List.foldl_cons, List.foldl_nil] at h ⊢
    have hlast := moved_apply hid h
    have hterm := ((apply_terminated_iff hid).1 h).1
    cases iv with
    | nil => exact ⟨hterm, hlast⟩
    | cons e' iv =>
      obtain ⟨hx, hmoved⟩ := ih (fun e he => hids e (List.mem_append_left _ he))
        (List.cons_ne_nil _ _) hterm
      exact ⟨hx, hmoved.trans hlast⟩

end RemoteSide

/-! ## What is kept of a frame -/

open Inbound (setEntry)

section Read

open Inbound BigEndian

variable {σ : Type} {H : Handler σ} {r : Receiver σ}

/-- One entry is read: it is kept, and after the last one the session gets what was kept. -/
theorem step_settings (hstate : r.state = .readSettings) (hmark : r.mark = 6)
    (hsbuf : r.sbuf = []) {e : SettingsEntry} (he : e.settingsId < 2 ^ 16 ∧ e.value < 2 ^ 32)
    {n : ℕ} (hleft : r.payloadleft = 6 + n) (rest : Bytes) :
    step H r (putBe 2 e.settingsId ++ putBe 4 e.value ++ rest) =
      if 0 < n then
        .next { r with
          iv := (setEntry (r.iv, r.least) e).1
          least := (setEntry (r.iv, r.least) e).2
          payloadleft := n } rest false
      else
        .next (processSettings H { r with
          sbuf := putBe 2 e.settingsId ++ putBe 4 e.value
          iv := (setEntry (r.iv, r.least) e).1
          least := (setEntry (r.iv, r.least) e).2
          payloadleft := n }).reset rest false := by
  generalize hb : putBe 2 e.settingsId ++ putBe 4 e.value = b
  have hlen : b.length = 6 := by simp [← hb, length_putBe]
  have hread : unpackSettingsEntry b = e := by
    rw [← hb, ← List.append_nil (putBe 2 _ ++ _)]
    exact unpackSettingsEntry_append he []
  have havail : r.markAvail = 6 := by simp [Receiver.markAvail, hmark, hsbuf]
  have hmin : min (b ++ rest).length 6 = 6 := by simp [hlen]
  have hbuf : r.bufRead (b ++ rest) = ({ r with sbuf := b }, rest) := by
    simp [Receiver.bufRead, havail, hsbuf, ← hlen]
  have hstep : step H r (b ++ rest) = readSettings H r (b ++ rest) := by rw [step, hstate]
  rw [hstep, readSettings, hbuf, havail, hmin]
  have hzero : ¬ 0 < (({ r with sbuf := b } : Receiver σ).advance 6).markAvail := by
    simp [Receiver.markAvail, Receiver.advance, hmark, hlen]
  have hn : r.payloadleft - 6 = n := by omega
  dsimp only
  rw [if_neg hzero, if_pos (show 0 < 6 by norm_num), setSettingsEntry]
  simp only [Receiver.advance, hread, hn]
  split_ifs
  · -- the buffer is made ready for the next entry
    obtain ⟨⟩ := r
    cases hmark
    cases hsbuf
    rfl
  · rfl

theorem wf_settings (hstate : r.state = .readSettings) (hmark : r.mark = 6)
    (hsbuf : r.sbuf = []) {n : ℕ} (hleft : r.payloadleft = 6 * (n + 1))
    (hlt : r.payloadleft < 2 ^ 24) : r.WF :=
  wf_of_settings hstate hlt ⟨hmark, by simp [hsbuf], by simp [hsbuf, hleft], by omega⟩

/-- The whole payload of a SETTINGS frame is read: the session gets what was kept. -/
theorem log_memRecv_settings (hstate : r.state = .readSettings) (hmark : r.mark = 6)
    (hsbuf : r.sbuf = []) (hlt : r.payloadleft < 2 ^ 24) {iv : List SettingsEntry}
    (hne : iv ≠ []) (hleft : r.payloadleft = 6 * iv.length)
    (hiv : ∀ e ∈ iv, e.settingsId < 2 ^ 16 ∧ e.value < 2 ^ 32) :
    (memRecv H r (packSettingsPayload iv)).r.log = r.log ++
      [.settings r.hd (iv.foldl setEntry (r.iv, r.least)).1
        (iv.foldl setEntry (r.iv, r.least)).2] := by
  induction iv generalizing r with
  | nil => exact absurd rfl hne
  | cons e iv ih =>
    have hwf := wf_settings hstate hmark hsbuf hleft hlt
    have hstep := step_settings (H := H) hstate hmark hsbuf (hiv e List.mem_cons_self)
      (n := 6 * iv.length) (by rw [hleft, List.length_cons]; omega) (packSettingsPayload iv)
    have hpayload : packSettingsPayload (e :: iv) =
        putBe 2 e.settingsId ++ putBe 4 e.value ++ packSettingsPayload iv := rfl
    rw [hpayload, List.foldl_cons]
    cases iv with
    | nil =>
      rw [if_neg (by simp)] at hstep
      rw [memRecv_of_next hwf hstep, if_pos ⟨rfl, rfl⟩]
      exact log_processSettings H _
    | cons e' iv =>
      rw [if_pos (by simp)] at hstep
      have hrest : packSettingsPayload (e' :: iv) ≠ [] := fun h => by
        have := congrArg List.length h
        rw [length_packSettingsPayload] at this
        simp at this
      rw [memRecv_of_next hwf hstep, if_neg (fun h => hrest h.1)]
      exact ih (r := { r with
          iv := (setEntry (r.iv, r.least) e).1
          least := (setEntry (r.iv, r.least) e).2
          payloadleft := 6 * (e' :: iv).length }) hstate hmark hsbuf
        (by simp only [List.length_cons] at hleft ⊢; omega) (List.cons_ne_nil _ _) rfl
        fun x hx => hiv x (List.mem_cons_of_mem _ hx)

end Read

/-- The first half of `session_process_settings_frame`: the least header table size goes
before the last one. -/
def insertLeast (iv : List SettingsEntry) (least : SettingsEntry) : List SettingsEntry :=
  if least.value < 4294967295 then
    match iv.find? (·.settingsId = 1) with
    | none => iv
    | some e =>
      if least.value ≠ e.value then
        (iv.map fun x => if x.settingsId = 1 then least else x) ++ [e]
      else iv
  else iv

/-- What is kept of all entries of a frame. -/
def kept (iv : List SettingsEntry) : List SettingsEntry × SettingsEntry :=
  iv.foldl setEntry ([], ⟨1, 4294967295⟩)

/-- The entries that are processed for a frame. -/
def collapse (iv : List SettingsEntry) : List SettingsEntry :=
  insertLeast (kept iv).1 (kept iv).2

variable {iv : List SettingsEntry}

theorem kept_concat (e : SettingsEntry) : kept (iv ++ [e]) = setEntry (kept iv) e := by
  simp [kept]

theorem entriesOf_append (id : ℕ) (l l' : List SettingsEntry) :
    entriesOf id (l ++ l') = entriesOf id l ++ entriesOf id l' := List.filter_append ..

/-- An entry takes the place of those with its identifier. -/
theorem entriesOf_replace (id : ℕ) (e : SettingsEntry) (l : List SettingsEntry) :
    entriesOf id (l.map fun x => if x.settingsId = e.settingsId then e else x) =
      if e.settingsId = id then (entriesOf id l).map fun _ => e else entriesOf id l := by
  induction l with
  | nil => simp [entriesOf]
  | cons x l ih =>
    unfold entriesOf at ih ⊢
    rw [List.map_cons, List.filter_cons, ih, List.filter_cons]
    by_cases hx : x.settingsId = e.settingsId
    · by_cases hid : e.settingsId = id <;> simp [hx, hid]
    · by_cases hid : e.settingsId = id
      · have hxid : x.settingsId ≠ id := fun h => hx (h.trans hid.symm)
        simp [hid, hxid]
      · simp only [if_neg hx, if_neg hid]

/-- Of each known identifier, the entry last seen is kept. -/
theorem entriesOf_kept {id : ℕ} (hid : id ∈ [1, 2, 3, 4, 5, 6]) (iv : List SettingsEntry) :
    entriesOf id (kept iv).1 = (entriesOf id iv).getLast?.toList := by
  induction iv using List.reverseRecOn with
  | nil => rfl
  | append_singleton iv e ih =>
    rw [kept_concat, entriesOf_append]
    unfold setEntry
    by_cases he : e.settingsId = id
    · have hone : entriesOf id [e] = [e] := by simp [entriesOf, he]
      rw [if_pos (he ▸ hid), hone, List.getLast?_concat]
      dsimp only
      split_ifs with hany
      · -- there is exactly one entry with this identifier, and `e` takes its place
        rw [entriesOf_replace, if_pos he, ih]
        cases hlast : (entriesOf id iv).getLast? with
        | some x => rfl
        | none =>
          obtain ⟨x, hx, hxid⟩ := List.any_eq_true.1 hany
          have hmem : x ∈ entriesOf id (kept iv).1 := by
            simp only [entriesOf, List.mem_filter, hx, true_and]
            simpa [he] using hxid
          simp [ih, hlast] at hmem
      · have hnone : entriesOf id (kept iv).1 = [] := by
          refine List.filter_eq_nil_iff.2 fun x hx => ?_
          have := List.any_eq_false.1 (Bool.eq_false_iff.2 hany) x hx
          simpa [he] using this
        rw [entriesOf_append, hnone, hone]
        rfl
    have hnil : entriesOf id [e] = [] := by simp [entriesOf, he]
    rw [hnil, List.append_nil, ← ih]
    by_cases hknown : e.settingsId ∈ [1, 2, 3, 4, 5, 6]
    · rw [if_pos hknown]
      dsimp only
      split_ifs
      · rw [entriesOf_replace, if_neg he]
      · rw [entriesOf_append, hnil, List.append_nil]
    · rw [if_neg hknown]

theorem mem_of_mem_kept {e : SettingsEntry} (h : e ∈ (kept iv).1) : e ∈ iv := by
  induction iv using List.reverseRecOn with
  | nil => cases h
  | append_singleton iv e' ih =>
    rw [kept_concat] at h
    unfold setEntry at h
    by_cases hknown : e'.settingsId ∈ [1, 2, 3, 4, 5, 6]
    · rw [if_pos hknown] at h
      dsimp only at h
      split_ifs at h
      · obtain ⟨x, hx, hxe⟩ := List.mem_map.1 h
        split_ifs at hxe
        · simp [hxe]
        · exact List.mem_append_left _ (ih (hxe ▸ hx))
      · rcases List.mem_append.1 h with h | h
        · exact List.mem_append_left _ (ih h)
        · exact List.mem_append_right _ h
    · rw [if_neg hknown] at h
      exact List.mem_append_left _ (ih h)

/-- The least header table size is the least of all. -/
theorem kept_least (iv : List SettingsEntry) :
    (kept iv).2.settingsId = 1 ∧ (kept iv).2.value =
      ((entriesOf 1 iv).map SettingsEntry.value).foldl min 4294967295 := by
  induction iv using List.reverseRecOn with
  | nil => exact ⟨rfl, rfl⟩
  | append_singleton iv e ih =>
    obtain ⟨hid, hvalue⟩ := ih
    rw [kept_concat, entriesOf_append, List.map_append, List.foldl_append, ← hvalue]
    unfold setEntry
    by_cases he : e.settingsId = 1
    · have hone : entriesOf 1 [e] = [e] := by simp [entriesOf, he]
      rw [if_pos (by simp [he]), hone]
      simp only [he, true_and, List.map_cons, List.map_nil, List.foldl_cons, List.foldl_nil]
      split_ifs with hlt
      · exact ⟨he, by omega⟩
      · exact ⟨hid, by omega⟩
    · have hnil : entriesOf 1 [e] = [] := by simp [entriesOf, he]
      rw [hnil]
      simp only [he, false_and, if_false, List.map_nil, List.foldl_nil]
      split_ifs <;> exact ⟨hid, rfl⟩

open Inbound in
/-- **A SETTINGS frame is read.**  When its payload comes in one piece, the session gets what was
kept of the entries: of each known identifier the entry last seen, and the least header table
size. -/
theorem memRecv_settings {σ : Type} {H : Handler σ} {r : Receiver σ}
    (hstate : r.state = .readSettings) (hmark : r.mark = 6) (hsbuf : r.sbuf = [])
    (hlt : r.payloadleft < 2 ^ 24) (hne : iv ≠ []) (hleft : r.payloadleft = 6 * iv.length)
    (hiv : ∀ e ∈ iv, e.settingsId < 2 ^ 16 ∧ e.value < 2 ^ 32) :
    (memRecv H r (packSettingsPayload iv)).r.log = r.log ++
      [.settings r.hd (iv.foldl setEntry (r.iv, r.least)).1
        (iv.foldl setEntry (r.iv, r.least)).2] ∧
    ((r.iv, r.least) = ([], ⟨1, 4294967295⟩) →
      (∀ id ∈ [1, 2, 3, 4, 5, 6], entriesOf id (iv.foldl setEntry (r.iv, r.least)).1 =
        (entriesOf id iv).getLast?.toList) ∧
      (iv.foldl setEntry (r.iv, r.least)).2.value =
        ((entriesOf 1 iv).map SettingsEntry.value).foldl min 4294967295) := by
  refine ⟨log_memRecv_settings hstate hmark hsbuf hlt hne hleft hiv, fun hnew => ?_⟩
  rw [hnew]
  exact ⟨fun id hid => entriesOf_kept hid iv, (kept_least iv).2⟩

open Inbound in
/-- Two header table sizes, an initial window and an unknown identifier. -/
theorem memRecv_settings_four :
    let H : Handler Unit := ⟨fun _ => 0, false, fun _ _ => true, fun _ => none,
      fun _ _ => (.ok, ()), fun _ => false⟩
    let r := { Receiver.start () with state := .readSettings, mark := 6, payloadleft := 24 }
    (memRecv H r (packSettingsPayload [⟨1, 100⟩, ⟨4, 7⟩, ⟨9, 1⟩, ⟨1, 4096⟩])).r.log =
      [.settings r.hd [⟨1, 4096⟩, ⟨4, 7⟩] ⟨1, 100⟩] :=
  (memRecv_settings rfl rfl rfl (by decide) (by decide) rfl (by decide)).1

theorem find_kept (iv : List SettingsEntry) :
    (kept iv).1.find? (·.settingsId = 1) = (entriesOf 1 iv).getLast? := by
  rw [← List.head?_filter]
  change (entriesOf 1 (kept iv).1).head? = _
  rw [entriesOf_kept (by simp)]
  cases (entriesOf 1 iv).getLast? <;> rfl

/-- What is processed of the other identifiers is the entry last seen. -/
theorem entriesOf_collapse {id : ℕ} (hid : id ∈ [2, 3, 4, 5, 6]) (iv : List SettingsEntry) :
    entriesOf id (collapse iv) = (entriesOf id iv).getLast?.toList := by
  have hne : id ≠ 1 := by rintro rfl; simp at hid
  have hleast := (kept_least iv).1
  rw [← entriesOf_kept (List.mem_cons_of_mem _ hid)]
  unfold collapse insertLeast
  split_ifs
  · rw [find_kept]
    cases hlast : (entriesOf 1 iv).getLast? with
    | none => rfl
    | some e =>
      have he : e.settingsId = 1 := by
        simpa [entriesOf] using (List.mem_filter.1 (List.mem_of_getLast? hlast)).2
      dsimp only
      split_ifs
      · have hreplace := entriesOf_replace id (kept iv).2 (kept iv).1
        rw [hleast, if_neg hne.symm] at hreplace
        have hnil : entriesOf id [e] = [] := by simp [entriesOf, he, hne.symm]
        rw [entriesOf_append, hreplace, hnil, List.append_nil]
      · rfl
  · rfl

/-- Of the header table sizes, the last one is processed, and the least one before it. -/
theorem tableSizes_collapse {sizes : List ℕ} {last : ℕ}
    (h : (entriesOf 1 iv).map SettingsEntry.value = sizes ++ [last]) :
    (entriesOf 1 (collapse iv)).map SettingsEntry.value =
      if (sizes ++ [last]).foldl min 4294967295 < 4294967295 ∧
          (sizes ++ [last]).foldl min 4294967295 ≠ last
        then [(sizes ++ [last]).foldl min 4294967295, last] else [last] := by
  obtain ⟨entries, e', hentries, -, he'⟩ := List.map_eq_append_iff.1 h
  obtain ⟨e, rfl, rfl⟩ := List.map_eq_singleton_iff.1 he'
  have hlast : (entriesOf 1 iv).getLast? = some e := by simp [hentries]
  have he : e.settingsId = 1 := by
    simpa [entriesOf] using (List.mem_filter.1 (List.mem_of_getLast? hlast)).2
  have hkept : entriesOf 1 (kept iv).1 = [e] := by
    rw [entriesOf_kept (by simp), hlast]
    rfl
  obtain ⟨hid, hvalue⟩ := kept_least iv
  rw [h] at hvalue
  rw [← hvalue]
  unfold collapse insertLeast
  rw [find_kept, hlast]
  by_cases hlt : (kept iv).2.value < 4294967295
  · rw [if_pos hlt]
    dsimp only
    by_cases hne : (kept iv).2.value ≠ e.value
    · have hreplace := entriesOf_replace 1 (kept iv).2 (kept iv).1
      rw [hid, if_pos rfl, hkept] at hreplace
      have hone : entriesOf 1 [e] = [e] := by simp [entriesOf, he]
      rw [if_pos hne, if_pos ⟨hlt, hne⟩, entriesOf_append, hreplace, hone]
      rfl
    · rw [if_neg hne, if_neg (fun h => hne h.2), hkept]
      rfl
  · rw [if_neg hlt, if_neg (fun h => hlt h.1), hkept]
    rfl

theorem mem_collapse {e : SettingsEntry} (h : e ∈ collapse iv) : e ∈ iv ∨ e.settingsId = 1 := by
  unfold collapse insertLeast at h
  split_ifs at h
  · rw [find_kept] at h
    cases hlast : (entriesOf 1 iv).getLast? with
    | none =>
      rw [hlast] at h
      exact .inl (mem_of_mem_kept h)
    | some e' =>
      rw [hlast] at h
      dsimp only at h
      split_ifs at h
      · rcases List.mem_append.1 h with h | h
        · obtain ⟨x, hx, rfl⟩ := List.mem_map.1 h
          split_ifs
          · exact .inr (kept_least iv).1
          · exact .inl (mem_of_mem_kept hx)
        · rw [List.mem_singleton.1 h]
          exact .inl (List.mem_filter.1 (List.mem_of_getLast? hlast)).1
      · exact .inl (mem_of_mem_kept h)
  · exact .inl (mem_of_mem_kept h)

theorem entriesOf_collapse_eq_nil (h : entriesOf 1 iv = []) : entriesOf 1 (collapse iv) = [] := by
  have hkept : entriesOf 1 (kept iv).1 = [] := by
    rw [entriesOf_kept (by simp), h]
    rfl
  unfold collapse insertLeast
  rw [find_kept, h, List.getLast?_nil]
  split_ifs <;> exact hkept

theorem foldl_min_le (l : List ℕ) (a : ℕ) : l.foldl min a ≤ a ∧ ∀ v ∈ l, l.foldl min a ≤ v := by
  induction l generalizing a with
  | nil => exact ⟨le_rfl, nofun⟩
  | cons b l ih =>
    obtain ⟨hle, hmem⟩ := ih (min a b)
    rw [List.foldl_cons]
    refine ⟨hle.trans (min_le_left _ _), fun v hv => ?_⟩
    rcases List.mem_cons.1 hv with rfl | hv
    · exact hle.trans (min_le_right _ _)
    · exact hmem v hv

/-- **The deflater cannot tell the difference**: the least and the last size stand for all. -/
theorem deflater_collapse {d : Deflater} (hd : d.ctx.Sound) (hiv : ∀ e ∈ iv, e.value < 2 ^ 32) :
    ((entriesOf 1 (collapse iv)).map SettingsEntry.value).foldl Deflater.changeTableSize d =
      ((entriesOf 1 iv).map SettingsEntry.value).foldl Deflater.changeTableSize d := by
  have hlt : ∀ v ∈ (entriesOf 1 iv).map SettingsEntry.value, v ≤ 4294967295 := by
    intro v hv
    obtain ⟨e, he, rfl⟩ := List.mem_map.1 hv
    have := hiv e (List.mem_filter.1 he).1
    omega
  cases hsizes : (entriesOf 1 iv).map SettingsEntry.value with
  | nil => rw [entriesOf_collapse_eq_nil (List.map_eq_nil_iff.1 hsizes), List.map_nil]
  | cons n rest =>
    obtain ⟨sizes, last, hlast⟩ : ∃ sizes last, n :: rest = sizes ++ [last] :=
      ⟨_, _, (List.dropLast_append_getLast (List.cons_ne_nil n rest)).symm⟩
    have hgetLast : rest.getLastD n = last := by
      have := congrArg List.getLast? hlast
      rw [List.getLast?_concat, List.getLast?_cons, ← List.getLastD_eq_getLast?] at this
      exact Option.some.inj this
    have hn : n ≤ 4294967295 := hlt n (by simp [hsizes])
    have hmin : (sizes ++ [last]).foldl min 4294967295 = rest.foldl min n := by
      rw [← hlast, List.foldl_cons, min_eq_right hn]
    have hle : rest.foldl min n ≤ last := by
      rw [← hmin]
      exact (foldl_min_le _ _).2 last (by simp)
    have hlast_le : last ≤ 4294967295 := hlt last (by rw [hsizes, hlast]; simp)
    rw [tableSizes_collapse (hsizes.trans hlast), hmin, Deflater.foldl_changeTableSize hd, hgetLast]
    split_ifs with hinsert
    · rw [Deflater.foldl_changeTableSize hd]
      simp only [List.foldl_cons, List.foldl_nil, List.getLastD_cons, List.getLastD_nil,
        min_eq_left hle]
    · -- the least size is the last one
      have heq : rest.foldl min n = last := by omega
      rw [Deflater.foldl_changeTableSize hd, heq]
      rfl

theorem lastValue_collapse {id : ℕ} (hid : id ∈ [1, 2, 3, 4, 5, 6]) :
    lastValue id (collapse iv) = lastValue id iv := by
  rw [lastValue_eq_entriesOf, lastValue_eq_entriesOf]
  rcases List.mem_cons.1 hid with rfl | hid
  · rcases List.eq_nil_or_concat ((entriesOf 1 iv).map SettingsEntry.value) with
      hnil | ⟨sizes, last, hsizes⟩
    · rw [entriesOf_collapse_eq_nil (List.map_eq_nil_iff.1 hnil), hnil, List.map_nil]
    · rw [List.concat_eq_append] at hsizes
      rw [tableSizes_collapse hsizes, hsizes, List.getLast?_concat]
      split_ifs <;> rfl
  · rw [entriesOf_collapse hid, List.getLast?_map, List.getLast?_map]
    cases (entriesOf id iv).getLast? <;> rfl

namespace RemoteSide

variable {x y : RemoteSide}

theorem foldl_apply_server (iv : List SettingsEntry) : (iv.foldl apply x).server = x.server := by
  induction iv generalizing x with
  | nil => rfl
  | cons e iv ih => exact ih

/-- **Nor can the windows**, as long as none of them leaves its range. -/
theorem windows_collapse (h : (iv.foldl apply x).terminated = false) :
    ((collapse iv).foldl apply x).windows = (iv.foldl apply x).windows ∧
      ((collapse iv).foldl apply x).terminated = false := by
  obtain ⟨hwin, hterm⟩ := foldl_apply_windows (x := x) iv rfl rfl rfl
  obtain ⟨hwin', hterm'⟩ := foldl_apply_windows (x := x) (collapse iv) rfl rfl rfl
  rw [entriesOf_collapse (by simp)] at hwin' hterm'
  rw [hwin, hwin', hterm']
  rw [hterm] at h
  have hids : ∀ e ∈ entriesOf 4 iv, e.settingsId = 4 := fun e he => by
    simpa [entriesOf] using (List.mem_filter.1 he).2
  rcases List.eq_nil_or_concat (entriesOf 4 iv) with hnil | ⟨entries, e, hentries⟩
  · rw [hnil] at h ⊢
    exact ⟨rfl, h⟩
  have hid := hids e (by simp [hentries])
  obtain ⟨hx, hrange, hmoved⟩ := moved_foldl hids (by simp [hentries]) h
  have hvalue : ((entriesOf 4 iv).foldl apply x).values.initialWindowSize = e.value := by
    rw [hentries, List.concat_eq_append, List.foldl_append]
    simp [apply, hid, Values.set]
  rw [hvalue] at hmoved
  have happly : (x.apply e).terminated = false := by
    refine (apply_terminated_iff hid).2 ⟨hx, fun w hw => hrange _ ?_⟩
    rw [hmoved]
    exact List.mem_map_of_mem hw
  have hlast : (entriesOf 4 iv).getLast?.toList = [e] := by simp [hentries]
  have hone : (x.apply e).values.initialWindowSize = e.value := by simp [apply, hid, Values.set]
  rw [hlast]
  refine ⟨?_, happly⟩
  rw [hmoved]
  exact (moved_apply hid happly).2.trans (by rw [hone])

/-- **Collapsing SETTINGS entries loses nothing.**  If the entries of a frame, one by one,
raise no error, then the ones that are kept leave the same settings, windows and deflater,
and raise none either. -/
theorem receive_collapse (x : RemoteSide) (hx : x.deflater.ctx.Sound) (iv : List SettingsEntry)
    (hiv : ∀ e ∈ iv, e.value < 2 ^ 32) (y : RemoteSide) (hy : x.receive iv = .ok y)
    (hterm : y.terminated = false) : x.receive (collapse iv) = .ok y := by
  obtain ⟨haccepts, rfl⟩ := receive_eq_ok_iff.1 hy
  obtain ⟨hwindows, hterm'⟩ := windows_collapse hterm
  refine receive_eq_ok_iff.2 ⟨fun e he => ?_, ?_⟩
  · rcases mem_collapse he with he | hid
    · exact haccepts e he
    · simp [Accepts, hid]
  have hvalues : ((collapse iv).foldl apply x).values = (iv.foldl apply x).values := by
    rw [foldl_apply_values, foldl_apply_values, foldl_set, foldl_set]
    simp only [lastValue_collapse, List.mem_cons, true_or, or_true]
  have hdeflater : ((collapse iv).foldl apply x).deflater = (iv.foldl apply x).deflater := by
    rw [foldl_apply_deflater, foldl_apply_deflater, deflater_collapse hx hiv]
  have hserver : ((collapse iv).foldl apply x).server = (iv.foldl apply x).server := by
    rw [foldl_apply_server, foldl_apply_server]
  generalize (collapse iv).foldl apply x = a at *
  generalize iv.foldl apply x = b at *
  cases a
  cases b
  simp_all

/-- A frame that names two settings twice and an unknown one. -/
theorem receive_collapse_five :
    receive ⟨true, .init, [65535, 10], Deflater.init2 4096, false⟩
        (collapse [⟨1, 100⟩, ⟨4, 0⟩, ⟨1, 5000⟩, ⟨9, 3⟩, ⟨4, 70000⟩]) =
      .ok ⟨true, ⟨5000, 1, 2147483647, 70000, 16384, 4294967295⟩, [70000, 4475],
        (Deflater.init2 4096).resized 100 5000, false⟩ := by
  refine receive_collapse _ ⟨rfl, by decide⟩ [⟨1, 100⟩, ⟨4, 0⟩, ⟨1, 5000⟩, ⟨9, 3⟩, ⟨4, 70000⟩]
    (by decide) _ ?_ rfl
  refine receive_eq_ok_iff.2 ⟨?_, ?_⟩
  · simp [Accepts]
  · decide +kernel

/-- **Streams keep their distance from the initial window.**  However often a frame repeats its
entries, every window moves by the difference of the last initial window size and the one before
the frame, as long as none leaves its range. -/
theorem receive_moves (hy : x.receive iv = .ok y) (hterm : y.terminated = false) :
    y.values.initialWindowSize = (lastValue 4 iv).getD x.values.initialWindowSize ∧
      y.windows =
        x.windows.map (· + (y.values.initialWindowSize : ℤ) - x.values.initialWindowSize) := by
  obtain ⟨-, rfl⟩ := receive_eq_ok_iff.1 hy
  have hinitial : ∀ l : List SettingsEntry, (l.foldl apply x).values.initialWindowSize =
      (lastValue 4 l).getD x.values.initialWindowSize := fun l => by
    rw [foldl_apply_values, foldl_set]
  obtain ⟨hwindows, hterm'⟩ := foldl_apply_windows (x := x) iv rfl rfl rfl
  refine ⟨hinitial iv, ?_⟩
  have hlast : lastValue 4 (entriesOf 4 iv) = lastValue 4 iv := by
    simp [lastValue_eq_entriesOf, entriesOf]
  rw [hwindows, hinitial, ← hlast, ← hinitial]
  by_cases hnil : entriesOf 4 iv = []
  · simp [hnil]
  · refine (moved_foldl (fun e he => ?_) hnil (hterm'.symm.trans hterm)).2.2
    simpa using (List.mem_filter.1 he).2

/-- The initial window is given twice. -/
theorem receive_moves_twice :
    let x : RemoteSide := ⟨true, .init, [65535, 10], .init2 4096, false⟩
    let y := { x with values.initialWindowSize := 70000, windows := [70000, 4475] }
    x.receive [⟨4, 0⟩, ⟨4, 70000⟩] = .ok y ∧ y.windows = x.windows.map (· + 70000 - 65535) := by
  intro x y
  have h : x.receive [⟨4, 0⟩, ⟨4, 70000⟩] = .ok y := rfl
  exact ⟨h, (receive_moves h rfl).2⟩

end RemoteSide

end Settings

end Nghttp2
