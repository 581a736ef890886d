/-
# A deflater and the inflater at the other end

The tables of the two ends are never sent.  They stay the same because each end makes the same
changes at the same places of the stream of blocks.  Between the blocks they differ: a new limit
reaches the deflater as a setting, and its table is evicted at once, while the inflater hears of
the lowest and of the last limit at the start of the next block.

* `Linked`: what holds between two blocks;
* `Linked.change`, `Linked.block`: it is kept by a change of the limit and by a block;
* `Peers.run`: any number of changes and blocks;
* `Peers.roundTrip`: every block is read back, and then the tables are the same;
* `Peers.finishes_iff`: which blocks can be finished.
-/
import Nghttp2.RoundTrip

namespace Nghttp2.Hd

open Resumable SizedFifo

/-! ## Changes of the table size -/

variable {c : Context} {max n : ℕ}

/-- **A change of the table size is read back.** -/
theorem Inflater.run_tableSize {i : Inflater} {t : Bytes} (h : i.AtBlockStart) (hn : n < 2 ^ 32)
    (hle : n ≤ i.settingsHdTableBufsizeMax) :
    ∃ i', i'.ctx = { i.ctx with hdTableBufsizeMax := n }.shrinkTableSize ∧
      i'.settingsHdTableBufsizeMax = i.settingsHdTableBufsizeMax ∧ i'.nvbufs = i.nvbufs ∧
      i'.state = .inflateStart ∧
      ∀ {out r}, Run inflateStep i' t false out r →
        Run inflateStep i (encodeLength 0x20 n 5 ++ t) false out r := by
  let j : Inflater := { i with opcode := .indexed, state := .readTableSize, left := 0, shift := 0 }
  have hne : encodeLength 0x20 n 5 ++ t ≠ [] :=
    List.append_ne_nil_of_left_ne_nil (encodeLength_ne_nil _ _ _) t
  obtain ⟨shift, hlen⟩ := readLen_encodeLength (i := j) (t := t) i.settingsHdTableBufsizeMax
    (fun i t => .next { i with
      ctx := { i.ctx with hdTableBufsizeMax := i.left }.shrinkTableSize
      state := .inflateStart } t false)
    (show 1 ≤ 5 ∧ 5 ≤ 8 by decide) hn 0x20 rfl rfl
  rw [if_neg (not_lt.2 hle)] at hlen
  have hread : j.inflateStep (encodeLength 0x20 n 5 ++ t) = _ := hlen
  refine ⟨_, ?_, ?_, ?_, ?_, fun hr =>
    .next (Or.inl hne) h.tableSize (.next (Or.inl hne) hread hr)⟩
  exacts [rfl, rfl, rfl, rfl]

/-! ## Two ends -/

/-- Between two blocks, the table of the deflater is the part of the other one that the lowest
limit since the last block leaves. -/
structure Follows (d : Deflater) (i : Inflater) : Prop where
  healthy : d.ctx.Healthy
  min_lt : d.minHdTableBufsizeMax < 2 ^ 32
  start : i.AtBlockStart
  nvbufs : i.nvbufs = []
  sound : i.ctx.Sound
  bad : i.ctx.bad = false
  table : d.ctx.hdTable = keep Entry.room d.minHdTableBufsizeMax i.ctx.hdTable

/-- The inflater expects the limits that the deflater will announce, if any. -/
structure Linked (d : Deflater) (i : Inflater) : Prop extends Follows d i where
  limit : d.notifyTableSizeChange = true → d.ctx.hdTableBufsizeMax ≤ i.settingsHdTableBufsizeMax
  same : d.notifyTableSizeChange = false → d.ctx.hdTableBufsizeMax = i.ctx.hdTableBufsizeMax ∧
    d.minHdTableBufsizeMax = 2 ^ 32 - 1 ∧ i.state = .inflateStart

theorem Context.init_healthy (h : max < 2 ^ 32) :
    Context.Healthy { Context.init with hdTableBufsizeMax := max } :=
  ⟨fun ent hent => absurd hent (by simp [Context.init]), ⟨rfl, Nat.zero_le _⟩, h, rfl⟩

theorem Linked.init (h : max < 2 ^ 32) : Linked (Deflater.init2 max) Inflater.init := by
  have hfollows : ∀ {m notify}, m < 2 ^ 32 →
      Follows ⟨{ Context.init with hdTableBufsizeMax := m }, max, 2 ^ 32 - 1, notify⟩
        Inflater.init := fun hm =>
    ⟨Context.init_healthy hm, by norm_num, Or.inl rfl, rfl, ⟨rfl, Nat.zero_le _⟩, rfl, rfl⟩
  unfold Deflater.init2
  by_cases hsmall : max < defaultMaxBufferSize
  · rw [if_pos hsmall, decide_eq_true hsmall]
    exact ⟨hfollows h, fun _ => hsmall.le, nofun⟩
  · rw [if_neg hsmall, decide_eq_false hsmall]
    exact ⟨hfollows (show defaultMaxBufferSize < 2 ^ 32 by decide), nofun, fun _ => ⟨rfl, rfl, rfl⟩⟩

theorem Context.Sound.resize (h : c.Sound) (n : ℕ) :
    { c with hdTableBufsizeMax := n }.shrinkTableSize = { c with
      hdTable := keep Entry.room n c.hdTable
      hdTableBufsize := weight Entry.room (keep Entry.room n c.hdTable)
      hdTableBufsizeMax := n } :=
  Context.shrinkTableSize_eq h.bufsize

theorem Context.Healthy.resize (h : c.Healthy) (hn : n < 2 ^ 32) :
    ({ c with hdTableBufsizeMax := n }.shrinkTableSize).Healthy := by
  refine ⟨Context.Tokens.evict (c := { c with hdTableBufsizeMax := n }) h.tokens 0,
    Context.shrinkTableSize_sound h.sound.bufsize, ?_, ?_⟩
  · rw [h.sound.resize]
    exact hn
  · rw [h.sound.resize]
    exact h.bad

/-- The inflater after a new limit. -/
def Inflater.resized (i : Inflater) (n : ℕ) : Inflater :=
  { i with
    state := .expectTableSize
    settingsHdTableBufsizeMax := n
    ctx := { i.ctx with hdTableBufsizeMax := n }.shrinkTableSize }

theorem Inflater.AtBlockStart.changeTableSize {i : Inflater} (h : i.AtBlockStart) (n : ℕ) :
    i.changeTableSize n = some (i.resized n) := by
  rcases h with hstate | hstate
  · simp only [Inflater.changeTableSize, hstate, resized]
  · simp only [Inflater.changeTableSize, hstate, resized]

section Change

variable {d : Deflater} {i : Inflater}

/-- A new limit reaches the deflater. -/
theorem Follows.deflater (h : Follows d i) (hn : n < 2 ^ 32) : Follows (d.changeTableSize n) i := by
  have hmin : min n d.deflateHdTableBufsizeMax < 2 ^ 32 := by omega
  have hlow := h.min_lt
  refine ⟨h.healthy.resize hmin, ?_, h.start, h.nvbufs, h.sound, h.bad, ?_⟩
  · show min d.minHdTableBufsizeMax (min n d.deflateHdTableBufsizeMax) < 2 ^ 32
    omega
  · show ({ d.ctx with
        hdTableBufsizeMax := min n d.deflateHdTableBufsizeMax }.shrinkTableSize).hdTable
      = keep Entry.room (min d.minHdTableBufsizeMax (min n d.deflateHdTableBufsizeMax)) _
    rw [h.healthy.sound.resize, h.table, keep_keep, min_comm d.minHdTableBufsizeMax]

/-- A new limit reaches the inflater, which is not below those that the deflater knows. -/
theorem Follows.inflater (h : Follows d i) {m : ℕ} (hm : d.minHdTableBufsizeMax ≤ m) :
    Follows d (i.resized m) := by
  refine ⟨h.healthy, h.min_lt, Or.inr rfl, h.nvbufs, Context.shrinkTableSize_sound h.sound.bufsize,
    ?_, ?_⟩
  · rw [Inflater.resized, h.sound.resize]
    exact h.bad
  · rw [Inflater.resized, h.sound.resize, h.table]
    dsimp only
    rw [keep_keep, min_eq_left hm]

/-- **A new limit** on both sides.  The deflater may take less than it is offered. -/
theorem Linked.change (h : Linked d i) (hn : n < 2 ^ 32) :
    Linked (d.changeTableSize n) (i.resized n) := by
  have hle : min n d.deflateHdTableBufsizeMax ≤ n := Nat.min_le_left _ _
  have hlow : (d.changeTableSize n).minHdTableBufsizeMax ≤ n := (Nat.min_le_right _ _).trans hle
  refine ⟨(h.toFollows.deflater hn).inflater hlow, fun _ => ?_, nofun⟩
  show ({ d.ctx with hdTableBufsizeMax := min n d.deflateHdTableBufsizeMax }.shrinkTableSize
    ).hdTableBufsizeMax ≤ n
  rw [Context.shrinkTableSize_max]
  exact hle

end Change

/-! ## Blocks -/

section Block

variable {d d' d1 : Deflater} {i : Inflater} {nva : List Nv} {b : Block} {u t : Bytes}

/-- Two tables in order are the same if they have the same entries and limits. -/
theorem Context.Sound.ext {c' : Context} (h : c.Sound) (h' : c'.Sound)
    (htable : c.hdTable = c'.hdTable) (hmax : c.hdTableBufsizeMax = c'.hdTableBufsizeMax)
    (hbad : c.bad = c'.bad) : c = c' := by
  have hsize : c.hdTableBufsize = c'.hdTableBufsize := by rw [h.bufsize, h'.bufsize, htable]
  obtain ⟨⟩ := c
  obtain ⟨⟩ := c'
  dsimp only at htable hmax hbad hsize
  subst htable hmax hbad hsize
  rfl

theorem Deflater.sizeUpdates_of_notify (h : d.notifyTableSizeChange = true)
    (hu : d.sizeUpdates = (d1, .ok u)) :
    d1 = { d with notifyTableSizeChange := false, minHdTableBufsizeMax := 2 ^ 32 - 1 } ∧
      u = (if d.minHdTableBufsizeMax < d.ctx.hdTableBufsizeMax then
        encodeLength 0x20 d.minHdTableBufsizeMax 5 else []) ++
          encodeLength 0x20 d.ctx.hdTableBufsizeMax 5 := by
  unfold Deflater.sizeUpdates at hu
  rw [if_pos h] at hu
  obtain ⟨rfl, hres⟩ := Prod.mk.inj hu
  refine ⟨rfl, ?_⟩
  dsimp only at hres
  split_ifs at hres with hlow
  · obtain ⟨low, hemit, hrest⟩ := bind_eq_ok.1 hres
    obtain ⟨last, hlast, hu⟩ := bind_eq_ok.1 hrest
    cases hu
    rw [if_pos hlow, emitLength_eq_ok hemit, emitLength_eq_ok hlast]
  · obtain ⟨low, hemit, hrest⟩ := bind_eq_ok.1 hres
    obtain ⟨last, hlast, hu⟩ := bind_eq_ok.1 hrest
    cases hemit
    cases hu
    rw [if_neg hlow, emitLength_eq_ok hlast]

/-- The two tables after the limits have been announced. -/
theorem Follows.resize_eq (h : Follows d i) (low : ℕ)
    (hlow : low = d.minHdTableBufsizeMax ∨ d.ctx.hdTableBufsizeMax ≤ d.minHdTableBufsizeMax ∧
      low = d.ctx.hdTableBufsizeMax) :
    keep Entry.room low i.ctx.hdTable = d.ctx.hdTable := by
  rcases hlow with rfl | ⟨hle, rfl⟩
  · exact h.table.symm
  -- the last limit is the lowest one, and the table of the deflater is within it
  have hfit : weight Entry.room d.ctx.hdTable ≤ d.ctx.hdTableBufsizeMax :=
    h.healthy.sound.bufsize ▸ h.healthy.sound.le_max
  calc keep Entry.room d.ctx.hdTableBufsizeMax i.ctx.hdTable
      = keep Entry.room d.ctx.hdTableBufsizeMax
          (keep Entry.room d.minHdTableBufsizeMax i.ctx.hdTable) := by
        rw [keep_keep, min_eq_left hle]
    _ = d.ctx.hdTable := by rw [← h.table, keep_of_le hfit]

/-- **The changes of the table size are read back**, and then the tables are the same. -/
theorem Linked.run_sizeUpdates (h : Linked d i) (hu : d.sizeUpdates = (d1, .ok u)) :
    (d1.ctx = d.ctx ∧ d1.notifyTableSizeChange = false ∧ d1.minHdTableBufsizeMax = 2 ^ 32 - 1) ∧
    ∃ i1, (i1.ctx = d.ctx ∧ i1.settingsHdTableBufsizeMax = i.settingsHdTableBufsizeMax ∧
        i1.nvbufs = [] ∧ i1.state = .inflateStart) ∧
      ∀ {out r}, Run Inflater.inflateStep i1 t false out r →
        Run Inflater.inflateStep i (u ++ t) false out r := by
  have hsound := h.healthy.sound
  have hfit : weight Entry.room d.ctx.hdTable ≤ d.ctx.hdTableBufsizeMax :=
    hsound.bufsize ▸ hsound.le_max
  cases hnotify : d.notifyTableSizeChange with
  | false =>
    obtain ⟨hmax, hmin, hstate⟩ := h.same hnotify
    unfold Deflater.sizeUpdates at hu
    rw [hnotify, if_neg nofun] at hu
    obtain ⟨rfl, hu⟩ := Prod.mk.inj hu
    cases hu
    have hweight : weight Entry.room i.ctx.hdTable ≤ 2 ^ 32 - 1 := by
      have hle := h.sound.le_max
      have hlt := h.healthy.max_lt
      rw [h.sound.bufsize] at hle
      omega
    have htable : i.ctx.hdTable = d.ctx.hdTable := by
      rw [h.table, hmin, keep_of_le hweight]
    have hctx : i.ctx = d.ctx :=
      h.sound.ext hsound htable hmax.symm (h.bad.trans h.healthy.bad.symm)
    exact ⟨⟨rfl, hnotify, hmin⟩, i, ⟨hctx, rfl, h.nvbufs, hstate⟩, fun hr => hr⟩
  | true =>
    obtain ⟨rfl, rfl⟩ := Deflater.sizeUpdates_of_notify hnotify hu
    have hlimit := h.limit hnotify
    refine ⟨⟨rfl, rfl, rfl⟩, ?_⟩
    -- the last change, for an inflater whose table is as small as the lowest limit makes it
    have hlast : ∀ {j : Inflater}, j.AtBlockStart → j.ctx.Sound → j.ctx.bad = false →
        j.nvbufs = [] → j.settingsHdTableBufsizeMax = i.settingsHdTableBufsizeMax →
        keep Entry.room d.ctx.hdTableBufsizeMax j.ctx.hdTable = d.ctx.hdTable →
        ∃ i1, (i1.ctx = d.ctx ∧ i1.settingsHdTableBufsizeMax = i.settingsHdTableBufsizeMax ∧
            i1.nvbufs = [] ∧ i1.state = .inflateStart) ∧
          ∀ {out r}, Run Inflater.inflateStep i1 t false out r →
            Run Inflater.inflateStep j (encodeLength 0x20 d.ctx.hdTableBufsizeMax 5 ++ t) false
              out r := by
      intro j hstart hjsound hbad hnv hsettings htable
      obtain ⟨i1, hctx, hs, hnv1, hstate, hrun⟩ := Inflater.run_tableSize (t := t) hstart
        h.healthy.max_lt (hsettings ▸ hlimit)
      refine ⟨i1, ⟨?_, hs.trans hsettings, hnv1.trans hnv, hstate⟩, hrun⟩
      rw [hctx, hjsound.resize]
      refine Context.Sound.ext ⟨rfl, weight_keep_le⟩ hsound htable rfl ?_
      exact hbad.trans h.healthy.bad.symm
    by_cases hlow : d.minHdTableBufsizeMax < d.ctx.hdTableBufsizeMax
    · rw [if_pos hlow, List.append_assoc]
      obtain ⟨j, hctx, hs, hnv, hstate, hrun⟩ := Inflater.run_tableSize
        (t := encodeLength 0x20 d.ctx.hdTableBufsizeMax 5 ++ t) h.start h.min_lt
        (hlow.le.trans hlimit)
      rw [h.sound.resize, h.toFollows.resize_eq _ (Or.inl rfl)] at hctx
      obtain ⟨i1, hi1, hrun1⟩ := hlast (j := j) (Or.inl hstate)
        (hctx ▸ ⟨rfl, h.table ▸ weight_keep_le⟩) (hctx ▸ h.bad) (hnv.trans h.nvbufs) hs
        (by rw [hctx, keep_of_le hfit])
      exact ⟨i1, hi1, fun hr => hrun (hrun1 hr)⟩
    · rw [if_neg hlow, List.nil_append]
      exact hlast h.start h.sound h.bad h.nvbufs rfl
        (h.toFollows.resize_eq _ (Or.inr ⟨not_lt.1 hlow, rfl⟩))

theorem deflateHdBufs_ok (h : d.deflateHdBufs nva = (d', .ok b)) :
    d.ctx.bad = false ∧ ∃ d1, d.sizeUpdates = (d1, .ok b.sizeUpdates) ∧
      d1.deflateNvs nva = (d', .ok b.fields) := by
  unfold Deflater.deflateHdBufs at h
  split_ifs at h with hbad
  · cases h
  refine ⟨by simpa using hbad, ?_⟩
  rcases hu : d.sizeUpdates with ⟨d1, r⟩
  rw [hu] at h
  cases r with
  | error e => cases h
  | ok u =>
    dsimp only at h
    rcases hf : d1.deflateNvs nva with ⟨d2, r⟩
    rw [hf] at h
    cases r with
    | error e => cases h
    | ok f =>
      cases h
      exact ⟨d1, rfl, hf⟩

/-- What the loop over the fields leaves as it is. -/
theorem deflateNvs_frame : ∀ {l : List Nv} {d d' : Deflater} {f : List Bytes},
    d.deflateNvs l = (d', .ok f) → d'.notifyTableSizeChange = d.notifyTableSizeChange ∧
      d'.minHdTableBufsizeMax = d.minHdTableBufsizeMax
  | [], _, _, _, h => by
    cases h
    exact ⟨rfl, rfl⟩
  | nv :: l, d, d', f, h => by
    obtain ⟨d1, b, f', hb, hf, -⟩ := Deflater.deflateNvs_cons_ok h
    have hrest := deflateNvs_frame hf
    have hone : d1.notifyTableSizeChange = d.notifyTableSizeChange ∧
        d1.minHdTableBufsizeMax = d.minHdTableBufsizeMax := by
      rw [show d1 = (d.deflateNv nv).1 by rw [hb]]
      unfold Deflater.deflateNv
      dsimp only
      split
      · exact ⟨rfl, rfl⟩
      · unfold Deflater.addNv
        split <;> exact ⟨rfl, rfl⟩
      · unfold Deflater.addNv
        split <;> exact ⟨rfl, rfl⟩
    exact ⟨hrest.1.trans hone.1, hrest.2.trans hone.2⟩

theorem healthy_deflateNvs : ∀ {l : List Nv} {d : Deflater}, d.ctx.Healthy →
    (d.deflateNvs l).1.ctx.Healthy
  | [], _, h => h
  | nv :: l, d, h => by
    have hnext := Deflater.healthy_deflateNv h nv
    rw [Deflater.deflateNvs]
    rcases hres : d.deflateNv nv with ⟨d1, r⟩
    rw [hres] at hnext
    cases r with
    | error e => exact hnext
    | ok b => exact healthy_deflateNvs hnext

/-- **A block is read back.**  Then the tables are the same; if the block had a field, the
inflater has also noticed its end. -/
theorem Linked.block (h : Linked d i) (hb : d.deflateHdBufs nva = (d', .ok b))
    (hdecodes : d.sizeUpdates.1.DecodesAll nva) :
    ∃ i', Run Inflater.inflateStep i b.bytes false (nva.map Nv.emitted) (.pending i') ∧
      i'.ctx = d'.ctx ∧ (i'.state = .opcode ↔ nva ≠ []) ∧ Linked d' i'.endHeaders := by
  obtain ⟨-, d1, hu, hf⟩ := deflateHdBufs_ok hb
  rw [hu] at hdecodes
  obtain ⟨⟨hctx1, hnotify1, hmin1⟩, i1, ⟨hi1, -, hnv1, hstate1⟩, hrun1⟩ := h.run_sizeUpdates
    (t := b.fields.flatten) hu
  have hhealthy1 : d1.ctx.Healthy := hctx1 ▸ h.healthy
  obtain ⟨i', hctx, -, hnv, hstate, hrun⟩ := Deflater.run_deflateNvs (t := []) (Or.inl hstate1)
    hnv1 (hi1.trans hctx1.symm) hhealthy1 hdecodes hf
  have hhealthy : d'.ctx.Healthy := by
    have hall := healthy_deflateNvs (l := nva) hhealthy1
    rwa [hf] at hall
  obtain ⟨hnotify, hmin⟩ := deflateNvs_frame hf
  refine ⟨i', ?_, hctx, ?_, ?_⟩
  · have hfields := hrun .stop
    rw [List.append_nil, List.append_nil] at hfields
    exact hrun1 hfields
  · rw [hstate]
    by_cases hnil : nva = []
    · rw [if_pos hnil, hstate1]
      exact iff_of_false nofun (not_not.2 hnil)
    · rw [if_neg hnil]
      exact iff_of_true rfl hnil
  have hweight : weight Entry.room d'.ctx.hdTable ≤ 2 ^ 32 - 1 := by
    have hle := hhealthy.sound.le_max
    have hlt := hhealthy.max_lt
    rw [hhealthy.sound.bufsize] at hle
    omega
  refine ⟨⟨hhealthy, ?_, Or.inl rfl, hnv, ?_, ?_, ?_⟩, ?_, ?_⟩
  · rw [hmin, hmin1]
    norm_num
  · exact hctx ▸ hhealthy.sound
  · exact hctx ▸ hhealthy.bad
  · show d'.ctx.hdTable = keep Entry.room d'.minHdTableBufsizeMax i'.ctx.hdTable
    rw [hctx, hmin, hmin1, keep_of_le hweight]
  · rw [hnotify, hnotify1]
    exact nofun
  · exact fun _ => ⟨congrArg Context.hdTableBufsizeMax hctx.symm, hmin.trans hmin1, rfl⟩

end Block

/-! ## Whole connections -/

/-- The input in pieces: the lengths of all but the last one are given. -/
def pieces : List ℕ → Bytes → List Bytes
  | [], b => [b]
  | n :: cut, b => b.take n :: pieces cut (b.drop n)

theorem pieces_ne_nil (cut : List ℕ) (b : Bytes) : pieces cut b ≠ [] := by
  cases cut <;> exact List.cons_ne_nil _ _

theorem flatten_pieces : ∀ (cut : List ℕ) (b : Bytes), (pieces cut b).flatten = b
  | [], b => by rw [pieces, List.flatten_cons, List.flatten_nil, List.append_nil]
  | n :: cut, b => by
    rw [pieces, List.flatten_cons, flatten_pieces cut, List.take_append_drop]

/-- The calls for the pieces of a block are the run over the block. -/
theorem Inflater.inflateChunks_of_run {i : Inflater} {chunks : List Bytes} {out : List Emitted}
    {r : Outcome Inflater HdError} (hlive : i.Live) (hne : chunks ≠ [])
    (hrun : Run inflateStep i chunks.flatten false out r) :
    ∃ r', i.inflateChunks chunks = (out, endChunk true r') ∧ Outcome.Same observe r' r := by
  obtain ⟨out', r', hruns, hres⟩ := inflateChunks_of_live hlive hne
  obtain ⟨r'', hrun', hsame⟩ := inflateStep_law.flatten hruns hlive
  obtain ⟨rfl, rfl⟩ := hrun.unique hrun'
  exact ⟨r', hres, hsame⟩

/-- A deflater and the inflater at the other end. -/
structure Peers where
  deflater : Deflater
  inflater : Inflater

namespace Peers

variable {p p' : Peers}

/-- What is done between two blocks, and a block with the pieces in which it arrives. -/
inductive Step
  | changeTableSize (n : ℕ)
  | block (nva : List Nv) (cut : List ℕ)

/-- `nghttp2_hd_deflate_init2` and `nghttp2_hd_inflate_init`. -/
def init (deflateHdTableBufsizeMax : ℕ) : Peers := ⟨.init2 deflateHdTableBufsizeMax, .init⟩

/-- The transfer of a block: it is deflated, inflated until `NGHTTP2_HD_INFLATE_FINAL`, and
`nghttp2_hd_inflate_end_headers` is called. -/
def block (p : Peers) (nva : List Nv) (cut : List ℕ) : Option (Peers × Block × List Emitted) :=
  match p.deflater.deflateHdBufs nva with
  | (_, .error _) => none
  | (d, .ok b) =>
    match p.inflater.inflateChunks (pieces cut b.bytes) with
    | (out, .final i) => some (⟨d, i.endHeaders⟩, b, out)
    | _ => none

/-- A step; `none` is an error of one of the calls. -/
def step (p : Peers) : Step → Option Peers
  | .changeTableSize n => (p.inflater.changeTableSize n).map fun i =>
      ⟨p.deflater.changeTableSize n, i⟩
  | .block nva cut => (p.block nva cut).map Prod.fst

/-- Any number of steps. -/
def run (p : Peers) (steps : List Step) : Option Peers := steps.foldlM step p

/-- The limits and the lengths of the strings are of 32 bits. -/
def Step.Sized : Step → Prop
  | .changeTableSize n => n < 2 ^ 32
  | .block nva _ => ∀ nv ∈ nva, nv.name.length < 2 ^ 32 ∧ nv.value.length < 2 ^ 32

/-- The blocks have fields, and none of them is longer than the inflater allows. -/
def Step.Legal : Step → Prop
  | .changeTableSize n => n < 2 ^ 32
  | .block nva _ => nva ≠ [] ∧ ∀ nv ∈ nva, nv.name.length + nv.value.length ≤ 65534

/-- The two ends are linked. -/
def Linked (p : Peers) : Prop := Hd.Linked p.deflater p.inflater

theorem Linked.live (h : p.Linked) : p.inflater.Live := ⟨h.bad, h.start.fresh⟩

/-- A block whose fields can be read is transferred, unless it has none. -/
theorem Linked.block_eq (h : p.Linked) {nva : List Nv} (cut : List ℕ) {d : Deflater} {b : Block}
    (hb : p.deflater.deflateHdBufs nva = (d, .ok b))
    (hdecodes : p.deflater.sizeUpdates.1.DecodesAll nva) :
    ∃ i : Inflater, i.ctx = d.ctx ∧ Hd.Linked d i.endHeaders ∧ p.block nva cut =
      if nva = [] then none else some (⟨d, i.endHeaders⟩, b, nva.map Nv.emitted) := by
  obtain ⟨i, hrun, hctx, hstate, hlinked⟩ := h.block hb hdecodes
  refine ⟨i, hctx, hlinked, ?_⟩
  rw [← flatten_pieces cut b.bytes] at hrun
  obtain ⟨r, hres, rfl | ⟨_, _, _, _, hfailed, _⟩⟩ :=
    Inflater.inflateChunks_of_run h.live (pieces_ne_nil cut b.bytes) hrun
  case inr => cases hfailed
  rw [block, hb]
  dsimp only
  rw [hres]
  by_cases hnil : nva = []
  · rw [if_pos hnil, Inflater.endChunk, if_pos rfl, if_pos fun hs => hstate.1 hs hnil]
  · rw [if_neg hnil, Inflater.endChunk, if_pos rfl, if_neg (not_not.2 (hstate.2 hnil))]

theorem Linked.deflates (h : p.Linked) (nva : List Nv) (hnva : ∀ nv ∈ nva, nv.Fits) :
    ∃ d b, p.deflater.deflateHdBufs nva = (d, .ok b) := by
  have hfits : p.deflater.Fits := ⟨h.healthy.sound, h.healthy.max_lt.trans (by norm_num),
    h.min_lt.trans (by norm_num)⟩
  obtain ⟨hfits1, u, hu⟩ := hfits.sizeUpdates
  obtain ⟨f, hf⟩ := hfits1.deflateNvs hnva
  unfold Deflater.deflateHdBufs
  rw [h.healthy.bad, if_neg nofun]
  rcases hsize : p.deflater.sizeUpdates with ⟨d1, r⟩
  rw [hsize] at hu hf
  obtain rfl : r = .ok u := hu
  dsimp only at hf ⊢
  rcases hfields : d1.deflateNvs nva with ⟨d2, r⟩
  rw [hfields] at hf
  obtain rfl : r = .ok f := hf
  exact ⟨d2, ⟨u, f⟩, rfl⟩

/-- Which blocks are transferred. -/
theorem Linked.block_isSome_iff (h : p.Linked) {nva : List Nv} (cut : List ℕ)
    (hsized : ∀ nv ∈ nva, nv.name.length < 2 ^ 32 ∧ nv.value.length < 2 ^ 32) :
    (p.block nva cut).isSome ↔ nva ≠ [] ∧ p.deflater.sizeUpdates.1.DecodesAll nva := by
  obtain ⟨d, b, hb⟩ := h.deflates nva fun nv hnv =>
    ⟨(hsized nv hnv).1.trans (by norm_num), (hsized nv hnv).2.trans (by norm_num)⟩
  by_cases hdecodes : p.deflater.sizeUpdates.1.DecodesAll nva
  · obtain ⟨i, -, -, hres⟩ := h.block_eq cut hb hdecodes
    rw [hres]
    by_cases hnil : nva = []
    · simp [hnil]
    · simp [hnil, hdecodes]
  -- the inflater fails at the first field that is too long
  obtain ⟨-, d1, hu, hf⟩ := deflateHdBufs_ok hb
  rw [hu] at hdecodes
  obtain ⟨⟨hctx1, -⟩, i1, ⟨hi1, -, hnv1, hstate1⟩, hrun1⟩ := h.run_sizeUpdates
    (t := b.fields.flatten) hu
  obtain ⟨out, x, e, hrun⟩ := Deflater.fails_deflateNvs (t := []) (Or.inl hstate1) hnv1
    (hi1.trans hctx1.symm) (hctx1 ▸ h.healthy) hsized hdecodes hf
  rw [List.append_nil] at hrun
  have hall := hrun1 hrun
  rw [show b.sizeUpdates ++ b.fields.flatten = (pieces cut b.bytes).flatten from
    (flatten_pieces cut b.bytes).symm] at hall
  obtain ⟨r, hres, hsame⟩ :=
    Inflater.inflateChunks_of_run h.live (pieces_ne_nil cut b.bytes) hall
  have herror : ∃ x e, Inflater.endChunk true r = .error x e := by
    rcases hsame with rfl | ⟨y, _, e', rfl, -⟩
    · exact ⟨x, e, rfl⟩
    · exact ⟨y, e', rfl⟩
  obtain ⟨y, e', hy⟩ := herror
  have hnone : p.block nva cut = none := by
    rw [block, hb]
    dsimp only
    rw [hres, hy]
  rw [hnone, hu]
  exact iff_of_false nofun fun hand => hdecodes hand.2

theorem linked_init (h : max < 2 ^ 32) : (init max).Linked := Hd.Linked.init h

theorem Linked.change (h : p.Linked) (hn : n < 2 ^ 32) :
    ∃ p', p.step (.changeTableSize n) = some p' ∧ p'.Linked :=
  ⟨⟨p.deflater.changeTableSize n, p.inflater.resized n⟩, by
    rw [step, h.start.changeTableSize, Option.map_some], Hd.Linked.change h hn⟩

variable {cut : List ℕ} {s : Step}

theorem Linked.block_linked (h : p.Linked) {nva : List Nv}
    (hsized : ∀ nv ∈ nva, nv.name.length < 2 ^ 32 ∧ nv.value.length < 2 ^ 32)
    {res : Peers × Block × List Emitted} (hres : p.block nva cut = some res) : res.1.Linked := by
  have hsome : (p.block nva cut).isSome := by rw [hres]; rfl
  obtain ⟨hne, hdecodes⟩ := (h.block_isSome_iff cut hsized).1 hsome
  obtain ⟨d, b, hb⟩ := h.deflates nva fun nv hnv =>
    ⟨(hsized nv hnv).1.trans (by norm_num), (hsized nv hnv).2.trans (by norm_num)⟩
  obtain ⟨i, -, hlinked, hblock⟩ := h.block_eq cut hb hdecodes
  rw [hblock, if_neg hne] at hres
  cases hres
  exact hlinked

theorem Linked.step (h : p.Linked) (hs : s.Sized) (hstep : p.step s = some p') : p'.Linked := by
  cases s with
  | changeTableSize n =>
    obtain ⟨q, hq, hlinked⟩ := h.change (n := n) hs
    cases hq.symm.trans hstep
    exact hlinked
  | block nva cut =>
    obtain ⟨res, hres, rfl⟩ := Option.map_eq_some_iff.1 hstep
    exact h.block_linked hs hres

theorem Linked.run : ∀ {steps : List Step} {p : Peers}, p.Linked → (∀ s ∈ steps, s.Sized) →
    p.run steps = some p' → p'.Linked
  | [], p, h, _, hrun => by
    cases hrun
    exact h
  | s :: steps, p, h, hsized, hrun => by
    rw [Peers.run, List.foldlM_cons] at hrun
    obtain ⟨q, hq, hrest⟩ := Option.bind_eq_some_iff.1 hrun
    exact (h.step (hsized s List.mem_cons_self) hq).run
      (fun s hs => hsized s (List.mem_cons_of_mem _ hs)) hrest

/-! ### Every block is read back -/

/-- The representation is a literal that is never indexed. -/
def IsNeverIndexed (r : Bytes) : Prop := ∃ x l, r = x :: l ∧ x &&& 0xf0 = 0x10

theorem isNeverIndexed_cons (x : UInt8) (l : Bytes) :
    IsNeverIndexed (x :: l) ↔ x &&& 0xf0 = 0x10 := by
  constructor
  · rintro ⟨y, l', heq, hy⟩
    cases heq
    exact hy
  · exact fun h => ⟨x, l, rfl, h⟩

/-- A field is encoded as never indexed if and only if it has to be. -/
theorem isNeverIndexed_deflateNv {d d' : Deflater} {nv : Nv} {r : Bytes}
    (h : d.deflateNv nv = (d', .ok r)) : IsNeverIndexed r ↔ nv.NeverIndexed := by
  rw [← Deflater.indexingMode_eq_never (d := d)]
  unfold Deflater.deflateNv at h
  dsimp only at h
  split at h
  · next k hres =>
    obtain rfl := emitLength_eq_ok (Prod.mk.inj h).2
    obtain ⟨x, l, henc, hhigh, -⟩ := encodeLength_spec (show 1 ≤ 7 ∧ 7 ≤ 8 by decide) 0x80 (k + 1)
    have hbyte : x &&& 0xf0 ≠ 0x10 := by
      clear henc
      revert x
      exact Inflater.forall_byte (by decide +kernel)
    rw [henc, isNeverIndexed_cons]
    refine iff_of_false hbyte fun hmode => ?_
    rw [hmode] at hres
    exact (searchHdTable_never d.ctx (rfl : nv.name = nv.name) _).2 k hres
  · next k hres =>
    obtain ⟨block, value, hblock, -, rfl⟩ := emitIndnameBlock_eq_ok.1 (Prod.mk.inj h).2
    obtain rfl := emitLength_eq_ok hblock
    obtain ⟨x, l, henc, -, -, -, -, hnever⟩ := Inflater.indname_first
      (d.indexingMode nv (lookupToken nv.name)) (Nat.succ_pos k)
    rw [henc, List.cons_append, isNeverIndexed_cons, ← beq_iff_eq, hnever, decide_eq_true_iff]
  · obtain ⟨name, value, -, -, rfl⟩ := emitNewnameBlock_eq_ok.1 (Prod.mk.inj h).2
    rw [isNeverIndexed_cons]
    cases d.indexingMode nv (lookupToken nv.name) <;> decide

theorem isNeverIndexed_deflateNvs :
    ∀ {l : List Nv} {d d' : Deflater} {f : List Bytes}, d.deflateNvs l = (d', .ok f) →
      List.Forall₂ (fun em r => em.nv.noIndex = true ↔ IsNeverIndexed r) (l.map Nv.emitted) f
  | [], _, _, _, h => by
    cases h
    exact .nil
  | nv :: l, d, d', f, h => by
    obtain ⟨d1, b, f', hb, hf, rfl⟩ := Deflater.deflateNvs_cons_ok h
    refine .cons ?_ (isNeverIndexed_deflateNvs hf)
    rw [isNeverIndexed_deflateNv hb]
    exact decide_eq_true_iff

theorem Step.Legal.sized (h : s.Legal) : s.Sized := by
  cases s with
  | changeTableSize n => exact h
  | block nva cut =>
    intro nv hnv
    have hle := h.2 nv hnv
    constructor
    · omega
    · omega

theorem Linked.step_isSome (h : p.Linked) (hs : s.Legal) : ∃ p', p.step s = some p' := by
  cases s with
  | changeTableSize n =>
    obtain ⟨q, hq, -⟩ := h.change (n := n) hs
    exact ⟨q, hq⟩
  | block nva cut =>
    have hsome := (h.block_isSome_iff cut hs.sized).2 ⟨hs.1, Deflater.decodesAll_of_short hs.2⟩
    obtain ⟨res, hres⟩ := Option.isSome_iff_exists.1 hsome
    exact ⟨res.1, by rw [Peers.step, hres, Option.map_some]⟩

theorem Linked.run_isSome : ∀ {steps : List Step} {p : Peers}, p.Linked → (∀ s ∈ steps, s.Legal) →
    ∃ p', p.run steps = some p' ∧ p'.Linked
  | [], p, h, _ => ⟨p, rfl, h⟩
  | s :: steps, p, h, hlegal => by
    have hs := hlegal s List.mem_cons_self
    obtain ⟨q, hq⟩ := h.step_isSome hs
    obtain ⟨p', hrun, hlinked⟩ := (h.step hs.sized hq).run_isSome
      fun s hs => hlegal s (List.mem_cons_of_mem _ hs)
    exact ⟨p', by rw [Peers.run, List.foldlM_cons, hq]; exact hrun, hlinked⟩

/-- **Every block is read back.**  After any number of new limits and blocks, a block of fields
that the inflater has room for arrives as it was deflated, in whatever pieces; the fields that
were encoded as never indexed are marked so; and then the two tables are the same. -/
theorem roundTrip {max : ℕ} (hmax : max < 2 ^ 32) (steps : List Step)
    (hsteps : ∀ s ∈ steps, s.Legal) (nva : List Nv) (cut : List ℕ)
    (hblock : (Step.block nva cut).Legal) :
    ∃ p p' b out, (init max).run steps = some p ∧ p.block nva cut = some (p', b, out) ∧
      out.map (fun em => (em.nv.name, em.nv.value)) = nva.map (fun nv => (nv.name, nv.value)) ∧
      List.Forall₂ (fun em r => em.nv.noIndex = true ↔ IsNeverIndexed r) out b.fields ∧
      p'.deflater.ctx.hdTable = p'.inflater.ctx.hdTable ∧
      p'.deflater.ctx.hdTableBufsize = p'.inflater.ctx.hdTableBufsize ∧
      p'.deflater.ctx.hdTableBufsizeMax = p'.inflater.ctx.hdTableBufsizeMax := by
  obtain ⟨p, hrun, h⟩ := (linked_init hmax).run_isSome hsteps
  obtain ⟨d, b, hb⟩ := h.deflates nva fun nv hnv =>
    ⟨(hblock.sized nv hnv).1.trans (by norm_num), (hblock.sized nv hnv).2.trans (by norm_num)⟩
  obtain ⟨i, hctx, -, hres⟩ := h.block_eq cut hb (Deflater.decodesAll_of_short hblock.2)
  obtain ⟨-, d1, -, hf⟩ := deflateHdBufs_ok hb
  rw [if_neg hblock.1] at hres
  refine ⟨p, _, b, _, hrun, hres, ?_, isNeverIndexed_deflateNvs hf, ?_⟩
  · rw [List.map_map]
    rfl
  · have hsame : i.endHeaders.ctx = d.ctx := hctx
    rw [hsame]
    exact ⟨rfl, rfl, rfl⟩

/-- A block and a lower limit. -/
def blockThenLimit : List Step := [.block [⟨ascii "a", ascii "b", false⟩] [1], .changeTableSize 100]

theorem blockThenLimit_legal : ∀ s ∈ blockThenLimit, s.Legal := by
  rintro s (_ | ⟨_, _ | ⟨_, ⟨⟩⟩⟩)
  · exact ⟨List.cons_ne_nil _ _, by decide⟩
  · exact (by norm_num : 100 < 2 ^ 32)

/-- Then a block in three pieces: a field of the table, one that is never indexed, and a new
one. -/
theorem roundTrip_second_block :
    let nva : List Nv := [⟨ascii "a", ascii "b", false⟩, ⟨ascii "authorization", ascii "x", false⟩,
      ⟨ascii "c", [], false⟩]
    ∃ p p' b out, (init 4096).run blockThenLimit = some p ∧ p.block nva [2, 3] = some (p', b, out) ∧
      out.map (fun em => (em.nv.name, em.nv.value)) = nva.map (fun nv => (nv.name, nv.value)) ∧
      List.Forall₂ (fun em r => em.nv.noIndex = true ↔ IsNeverIndexed r) out b.fields ∧
      p'.deflater.ctx.hdTable = p'.inflater.ctx.hdTable ∧
      p'.deflater.ctx.hdTableBufsize = p'.inflater.ctx.hdTableBufsize ∧
      p'.deflater.ctx.hdTableBufsizeMax = p'.inflater.ctx.hdTableBufsizeMax := by
  intro nva
  exact roundTrip (by norm_num) _ blockThenLimit_legal nva [2, 3]
    ⟨List.cons_ne_nil _ _, by decide⟩

/-! ### Which blocks can be finished -/

/-- The block that the deflater makes of the fields ends with `NGHTTP2_HD_INFLATE_FINAL`. -/
def Finishes (p : Peers) (nva : List Nv) (cut : List ℕ) : Prop :=
  ∀ d b, p.deflater.deflateHdBufs nva = (d, .ok b) →
    ∃ out i, p.inflater.inflateChunks (pieces cut b.bytes) = (out, .final i)

theorem block_isSome_iff {nva : List Nv} {d : Deflater} {b : Block}
    (hb : p.deflater.deflateHdBufs nva = (d, .ok b)) :
    (p.block nva cut).isSome ↔ p.Finishes nva cut := by
  have hfinishes : p.Finishes nva cut ↔
      ∃ out i, p.inflater.inflateChunks (pieces cut b.bytes) = (out, .final i) := by
    constructor
    · exact fun h => h d b hb
    · rintro ⟨out, i, hres⟩ d' b' hb'
      cases hb.symm.trans hb'
      exact ⟨out, i, hres⟩
  rw [hfinishes, block, hb]
  dsimp only
  rcases p.inflater.inflateChunks (pieces cut b.bytes) with ⟨out, i | i | ⟨i, e⟩⟩
  · simp
  · simp
  · simp

/-- **Which blocks can be finished**: those that have a field, and whose fields all fit into the
buffer of the inflater. -/
theorem finishes_iff {max : ℕ} (hmax : max < 2 ^ 32) (steps : List Step)
    (hsteps : ∀ s ∈ steps, s.Sized) (hrun : (init max).run steps = some p) (nva : List Nv)
    (cut : List ℕ) :
    (nva ≠ [] → p.deflater.sizeUpdates.1.DecodesAll nva → p.Finishes nva cut) ∧
    ((∀ nv ∈ nva, nv.name.length < 2 ^ 32 ∧ nv.value.length < 2 ^ 32) → p.Finishes nva cut →
      nva ≠ [] ∧ p.deflater.sizeUpdates.1.DecodesAll nva) := by
  have h := (linked_init hmax).run hsteps hrun
  constructor
  · intro hne hdecodes d b hb
    obtain ⟨i, -, -, hres⟩ := h.block_eq cut hb hdecodes
    rw [if_neg hne] at hres
    have hsome : (p.block nva cut).isSome := by rw [hres]; rfl
    exact (block_isSome_iff hb).1 hsome d b hb
  · intro hsized hfinishes
    obtain ⟨d, b, hb⟩ := h.deflates nva fun nv hnv =>
      ⟨(hsized nv hnv).1.trans (by norm_num), (hsized nv hnv).2.trans (by norm_num)⟩
    exact (h.block_isSome_iff cut hsized).1 ((block_isSome_iff hb).2 hfinishes)

/-- Two fields in three pieces, after a block and a lower limit. -/
theorem two_fields_finish : ∃ p, (init 4096).run blockThenLimit = some p ∧
    p.Finishes [⟨ascii "a", ascii "b", false⟩, ⟨ascii "c", [], false⟩] [1, 2] := by
  obtain ⟨p, hp, -⟩ := (linked_init (by norm_num : 4096 < 2 ^ 32)).run_isSome blockThenLimit_legal
  exact ⟨p, hp, (finishes_iff (by norm_num) _ (fun s hs => (blockThenLimit_legal s hs).sized) hp
    _ _).1 (List.cons_ne_nil _ _) (Deflater.decodesAll_of_short (by decide))⟩

/-- A block without fields is not finished, be it empty or a change of the table size. -/
theorem empty_block_unfinished : ¬(init 4096).Finishes [] [] ∧ ¬(init 100).Finishes [] [] := by
  have hempty : ((init 4096).block [] []).isSome = false := by decide +kernel
  have hupdate : ((init 100).block [] []).isSome = false := by decide +kernel
  constructor
  · intro h
    exact absurd ((block_isSome_iff rfl).2 h) (by rw [hempty]; exact nofun)
  · intro h
    exact absurd ((block_isSome_iff rfl).2 h) (by rw [hupdate]; exact nofun)

end Peers

end Nghttp2.Hd
