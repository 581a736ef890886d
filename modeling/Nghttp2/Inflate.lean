/-
# The inflater

The model of the decompressing side of `nghttp2_hd.c`.  `nghttp2_hd_inflate_hd2` is a resumable
parser: it keeps what it has read of an integer or a string, and goes on with the next chunk.

* `Inflater.inflateStep`: one turn of its loop, as a step of a `Resumable` parser;
* `Inflater.inflateHd2`: one call;
* `Inflater.inflateChunks`: the calls for the chunks of a header block;
* `inflateStep_law`: the input may be cut anywhere;
* `inflateChunks_flatten`: the chunks do not matter.
-/
import Nghttp2.Hpack
import Nghttp2.Resumable

namespace Nghttp2.Hd

open Resumable

/-! ## The model -/

/-- `nghttp2_hd_inflate_state`. -/
inductive InflateState
  | expectTableSize
  | inflateStart
  | opcode
  | readTableSize
  | readIndex
  | newnameCheckNamelen
  | newnameReadNamelen
  | newnameReadNamehuff
  | newnameReadName
  | checkValuelen
  | readValuelen
  | readValuehuff
  | readValue
deriving DecidableEq, Repr

/-- `nghttp2_hd_opcode`. -/
inductive Opcode
  | none
  | indexed
  | newname
  | indname
deriving DecidableEq, Repr

/-- `nghttp2_hd_inflater`, without the memory that is kept for the caller. -/
structure Inflater where
  ctx : Context
  settingsHdTableBufsizeMax : ℕ
  state : InflateState
  opcode : Opcode
  nvbufs : Bytes
  huffDecodeCtx : HuffContext
  huffmanEncoded : Bool
  index : ℕ
  left : ℕ
  shift : ℕ
  newnamelen : ℕ
  indexRequired : Bool
  noIndex : Bool
deriving DecidableEq, Repr

/-- A header field that is emitted, with its token. -/
structure Emitted where
  nv : Nv
  token : Option ℕ
deriving DecidableEq, Repr

/-- The result of one turn of the loop. -/
abbrev InflateStage := Stage Inflater UInt8 Emitted HdError

namespace Inflater

/-- `nghttp2_hd_inflate_init`. -/
def init : Inflater where
  ctx := Context.init
  settingsHdTableBufsizeMax := defaultMaxBufferSize
  state := .inflateStart
  opcode := .none
  nvbufs := []
  huffDecodeCtx := HuffContext.init
  huffmanEncoded := false
  index := 0
  left := 0
  shift := 0
  newnamelen := 0
  indexRequired := false
  noIndex := false

/-- `nghttp2_hd_inflate_change_table_size`; `none` is `NGHTTP2_ERR_INVALID_STATE`. -/
def changeTableSize (i : Inflater) (settingsHdTableBufsizeMax : ℕ) : Option Inflater :=
  match i.state with
  | .expectTableSize | .inflateStart =>
    some { i with
      state := .expectTableSize
      settingsHdTableBufsizeMax := settingsHdTableBufsizeMax
      ctx := { i.ctx with hdTableBufsizeMax := settingsHdTableBufsizeMax }.shrinkTableSize }
  | _ => none

/-- The label `fail`. -/
def markBad (i : Inflater) : Inflater := { i with ctx := { i.ctx with bad := true } }

/-! ### Fields -/

/-- `hd_inflate_commit_indexed`. -/
def commitIndexed (i : Inflater) : Except HdError Emitted :=
  match i.ctx.tableGet i.index with
  | some ent => .ok ⟨⟨ent.name, ent.value, false⟩, ent.token⟩
  | none => .error .assertFailed

/-- The end of `hd_inflate_commit_newname` and `hd_inflate_commit_indname`: the field goes into
the table if that is required, and is emitted.  The flags of an entry are always
`NGHTTP2_NV_FLAG_NONE`. -/
def commitLiteral (i : Inflater) (name value : Bytes) (token : Option ℕ) : Inflater × Emitted :=
  if i.indexRequired then
    ({ i with ctx := i.ctx.addHdTableIncremental ⟨name, value, token⟩, nvbufs := [] },
      ⟨⟨name, value, false⟩, token⟩)
  else ({ i with nvbufs := [] }, ⟨⟨name, value, i.noIndex⟩, lookupToken name⟩)

/-- `hd_inflate_commit_newname`: the buffer holds the name and the value, each with a zero byte
at its end. -/
def commitNewname (i : Inflater) : Except HdError (Inflater × Emitted) :=
  let name := i.nvbufs.take i.newnamelen
  let value := (i.nvbufs.drop (i.newnamelen + 1)).dropLast
  .ok (i.commitLiteral name value (lookupToken name))

/-- `hd_inflate_commit_indname`: the buffer holds the value. -/
def commitIndname (i : Inflater) : Except HdError (Inflater × Emitted) :=
  match i.ctx.tableGet i.index with
  | some ent => .ok (i.commitLiteral ent.name i.nvbufs.dropLast ent.token)
  | none => .error .assertFailed

/-- How a literal field is committed. -/
def commitValue (i : Inflater) : Except HdError (Inflater × Emitted) :=
  if i.opcode = .newname then i.commitNewname else i.commitIndname

/-! ### Turns -/

/-- The states `INFLATE_START` and `OPCODE`. -/
def readOpcode (i : Inflater) : Bytes → InflateStage
  | [] => .wait i []
  | b :: l =>
    if b &&& 0xe0 = 0x20 then
      if i.state = .opcode then .fail i.markBad .headerComp
      else .next { i with opcode := .indexed, state := .readTableSize, left := 0, shift := 0 }
        (b :: l) false
    else if b &&& 0x80 ≠ 0 then
      .next { i with opcode := .indexed, state := .readIndex, left := 0, shift := 0 } (b :: l) false
    else if b = 0x40 ∨ b = 0 ∨ b = 0x10 then
      .next { i with
        opcode := .newname
        state := .newnameCheckNamelen
        indexRequired := b &&& 0x40 != 0
        noIndex := b &&& 0xf0 == 0x10
        left := 0
        shift := 0 } l false
    else
      .next { i with
        opcode := .indname
        state := .readIndex
        indexRequired := b &&& 0x40 != 0
        noIndex := b &&& 0xf0 == 0x10
        left := 0
        shift := 0 } (b :: l) false

/-- The state `EXPECT_TABLE_SIZE`. -/
def expectTableSize (i : Inflater) : Bytes → InflateStage
  | [] => .wait i []
  | b :: l =>
    if b &&& 0xe0 ≠ 0x20 then .fail i.markBad .headerComp else i.readOpcode (b :: l)

/-- `hd_inflate_read_len`, and what follows it when the integer has been read. -/
def readLen (i : Inflater) (inp : Bytes) (width maxlen : ℕ)
    (done : Inflater → Bytes → InflateStage) : InflateStage :=
  match decodeLength (UInt32.ofNat i.left) i.shift inp width with
  | none => .fail i.markBad .headerComp
  | some d =>
    if d.res.toNat > maxlen then .fail i.markBad .headerComp
    else
      let i := { i with left := d.res.toNat, shift := d.shift }
      if d.final then done i d.rest else .wait i d.rest

/-- The state `READ_TABLE_SIZE`. -/
def readTableSize (i : Inflater) (inp : Bytes) : InflateStage :=
  i.readLen inp 5 i.settingsHdTableBufsizeMax fun i rest =>
    .next { i with
      ctx := { i.ctx with hdTableBufsizeMax := i.left }.shrinkTableSize
      state := .inflateStart } rest false

/-- The number of bits of the index in the first byte. -/
def indexWidth (i : Inflater) : ℕ :=
  if i.opcode = .indexed then 7 else if i.indexRequired then 6 else 4

/-- The state `READ_INDEX`. -/
def readIndex (i : Inflater) (inp : Bytes) : InflateStage :=
  i.readLen inp i.indexWidth (i.ctx.getMaxIndex + 1) fun i rest =>
    if i.left = 0 then .fail i.markBad .headerComp
    else
      let i := { i with index := i.left - 1 }
      if i.opcode = .indexed then
        match i.commitIndexed with
        | .error e => .fail i.markBad e
        | .ok em => .emit { i with state := .opcode } rest em
      else .next { i with state := .checkValuelen } rest false

/-- The state `NEWNAME_READ_NAMELEN`. -/
def readNamelen (i : Inflater) (inp : Bytes) : InflateStage :=
  i.readLen inp 7 maxNv fun i rest =>
    if i.huffmanEncoded then
      .next { i with huffDecodeCtx := HuffContext.init, state := .newnameReadNamehuff } rest false
    else .next { i with state := .newnameReadName } rest false

/-- The state `READ_VALUELEN`. -/
def readValuelen (i : Inflater) (inp : Bytes) : InflateStage :=
  i.readLen inp 7 maxNv fun i rest =>
    if i.huffmanEncoded then
      .next { i with huffDecodeCtx := HuffContext.init, state := .readValuehuff } rest true
    else .next { i with state := .readValue } rest true

/-- The states `NEWNAME_CHECK_NAMELEN` and `CHECK_VALUELEN`, before they fall through to `next`:
the first byte of the length tells whether the string is Huffman coded. -/
def checkLen (i : Inflater) (state : InflateState) : Bytes → (Inflater → Bytes → InflateStage) →
    InflateStage
  | [], _ => .wait i []
  | b :: l, next =>
    next { i with
      huffmanEncoded := b &&& 0x80 != 0, state := state, left := 0, shift := 0 } (b :: l)

/-- `hd_inflate_read_huff` and `hd_inflate_read`. -/
def readBytes (i : Inflater) (huff : Bool) (inp : Bytes) : Except HdError Inflater :=
  let src := inp.take i.left
  if huff then do
    let (ctx, buf) ←
      huffDecodeAll maxNv i.huffDecodeCtx i.nvbufs src (decide (i.left ≤ inp.length))
    return { i with huffDecodeCtx := ctx, nvbufs := buf, left := i.left - src.length }
  else do
    let buf ← addBytes maxNv i.nvbufs src
    return { i with nvbufs := buf, left := i.left - src.length }

/-- The states that read a string, and what follows when it has been read. -/
def readString (i : Inflater) (huff : Bool) (inp : Bytes) (done : Inflater → Bytes → InflateStage) :
    InflateStage :=
  match i.readBytes huff inp with
  | .error e => .fail i.markBad e
  | .ok i' => if i'.left ≠ 0 then .wait i' (inp.drop i.left) else done i' (inp.drop i.left)

/-- The end of the states `NEWNAME_READ_NAMEHUFF` and `NEWNAME_READ_NAME`. -/
def finishName (i : Inflater) (rest : Bytes) : InflateStage :=
  match addb maxNv i.nvbufs 0 with
  | .error e => .fail i.markBad e
  | .ok buf =>
    .next { i with newnamelen := i.nvbufs.length, nvbufs := buf, state := .checkValuelen } rest
      false

/-- The end of the states `READ_VALUEHUFF` and `READ_VALUE`. -/
def finishValue (i : Inflater) (rest : Bytes) : InflateStage :=
  match addb maxNv i.nvbufs 0 with
  | .error e => .fail i.markBad e
  | .ok buf =>
    let i := { i with nvbufs := buf }
    match i.commitValue with
    | .error e => .fail i.markBad e
    | .ok (i, em) => .emit { i with state := .opcode } rest em

/-- One turn of the loop of `nghttp2_hd_inflate_hd2`. -/
def inflateStep (i : Inflater) (inp : Bytes) : InflateStage :=
  match i.state with
  | .expectTableSize => i.expectTableSize inp
  | .inflateStart | .opcode => i.readOpcode inp
  | .readTableSize => i.readTableSize inp
  | .readIndex => i.readIndex inp
  | .newnameCheckNamelen => i.checkLen .newnameReadNamelen inp readNamelen
  | .newnameReadNamelen => i.readNamelen inp
  | .newnameReadNamehuff => i.readString true inp finishName
  | .newnameReadName => i.readString false inp finishName
  | .checkValuelen => i.checkLen .readValuelen inp readValuelen
  | .readValuelen => i.readValuelen inp
  | .readValuehuff => i.readString true inp finishValue
  | .readValue => i.readString false inp finishValue

/-! ### Calls -/

/-- What a call returns: a field has been emitted (`NGHTTP2_HD_INFLATE_EMIT`), the block is
finished (`NGHTTP2_HD_INFLATE_FINAL`), the input has been read, or an error. -/
inductive CallResult
  | emit (i : Inflater) (rest : Bytes) (em : Emitted)
  | final (i : Inflater) (rest : Bytes)
  | more (i : Inflater) (rest : Bytes)
  | error (i : Inflater) (e : HdError)
deriving DecidableEq, Repr

/-- The loop of `nghttp2_hd_inflate_hd2`; the fuel never runs out (`inflateLoop_of_run`). -/
def inflateLoop (inFinal : Bool) : ℕ → Inflater → Bytes → Bool → CallResult
  | 0, i, _, _ => .error i .assertFailed
  | fuel + 1, i, inp, busy =>
    if inp = [] ∧ busy = false then
      if inFinal then
        if i.state ≠ .opcode then .error i.markBad .headerComp else .final i inp
      else .more i inp
    else
      match i.inflateStep inp with
      | .next i rest busy => inflateLoop inFinal fuel i rest busy
      | .emit i rest em => .emit i rest em
      | .wait i rest =>
        if inFinal ∧ i.state ≠ .opcode then .error i.markBad .headerComp else .more i rest
      | .fail i e => .error i e

/-- `nghttp2_hd_inflate_hd2`. -/
def inflateHd2 (i : Inflater) (inp : Bytes) (inFinal : Bool) : CallResult :=
  if i.ctx.bad then .error i .headerComp
  else inflateLoop inFinal (3 * inp.length + 3) i inp false

/-- `nghttp2_hd_inflate_end_headers`. -/
def endHeaders (i : Inflater) : Inflater := { i with state := .inflateStart }

/-- What has become of the inflater after the calls for a chunk. -/
inductive ChunkResult
  | pending (i : Inflater)
  | final (i : Inflater)
  | error (i : Inflater) (e : HdError)
deriving DecidableEq, Repr

/-- The calls for one chunk.  As in `inflate_header_block`, there is another call for the rest if a
field has been emitted, or if there is a rest. -/
def inflateCalls (inFinal : Bool) : ℕ → Inflater → Bytes → List Emitted × ChunkResult
  | 0, i, _ => ([], .error i .assertFailed)
  | fuel + 1, i, inp =>
    match i.inflateHd2 inp inFinal with
    | .emit i rest em =>
      let (out, r) := inflateCalls inFinal fuel i rest
      (em :: out, r)
    | .final i _ => ([], .final i)
    | .more i rest => if rest = [] then ([], .pending i) else inflateCalls inFinal fuel i rest
    | .error i e => ([], .error i e)

/-- The calls for one chunk; the fuel never runs out (`inflateCalls_of_run`). -/
def inflateChunk (i : Inflater) (inp : Bytes) (inFinal : Bool) : List Emitted × ChunkResult :=
  inflateCalls inFinal (3 * inp.length + 3) i inp

/-- The calls for the chunks of a header block.  `in_final` is set for the last one. -/
def inflateChunks (i : Inflater) : List Bytes → List Emitted × ChunkResult
  | [] => ([], .pending i)
  | [inp] => i.inflateChunk inp true
  | inp :: inp' :: chunks =>
    match i.inflateChunk inp false with
    | (out, .pending i) =>
      let (out', r) := inflateChunks i (inp' :: chunks)
      (out ++ out', r)
    | (out, .final i) => (out, .final i)
    | (out, .error i e) => (out, .error i e)

/-! ## The input may be cut anywhere -/

/-- The states that read an integer. -/
def ReadsLen (i : Inflater) : Prop :=
  i.state = .readTableSize ∨ i.state = .readIndex ∨ i.state = .newnameReadNamelen ∨
    i.state = .readValuelen

/-- An integer of which nothing has been read yet starts with the shift 0. -/
def Fresh (i : Inflater) : Prop := i.ReadsLen → UInt32.ofNat i.left = 0 → i.shift = 0

/-- What is left of an inflater that has failed: its table and the limits. -/
def observe (i : Inflater) : Context × ℕ := (i.ctx, i.settingsHdTableBufsizeMax)

variable {i i' : Inflater} {inp rest more : Bytes} {width maxlen : ℕ} {huff busy : Bool}
  {done : Inflater → Bytes → InflateStage} {em : Emitted} {e : HdError}

/-- More input after the first byte. -/
theorem readOpcode_extends (i : Inflater) (inp : Bytes) (hstate : i.inflateStep = i.readOpcode) :
    Stage.Extends observe inflateStep more (i.readOpcode (inp ++ more)) (i.readOpcode inp) := by
  cases inp with
  | nil => exact ⟨rfl, Or.inl (congrFun hstate.symm more)⟩
  | cons b l =>
    simp only [readOpcode, List.cons_append]
    repeat' split
    all_goals rfl

/-- More input after a size update is expected. -/
theorem expectTableSize_extends (i : Inflater) (inp : Bytes) (hstate : i.state = .expectTableSize) :
    Stage.Extends observe inflateStep more (i.expectTableSize (inp ++ more))
      (i.expectTableSize inp) := by
  cases inp with
  | nil =>
    refine ⟨rfl, Or.inl ?_⟩
    simp only [inflateStep, hstate, List.nil_append]
  | cons b l =>
    simp only [expectTableSize, readOpcode, List.cons_append]
    repeat' split
    all_goals rfl

/-- More input after a part of a length. -/
theorem readLen_extends (inp : Bytes) (hmore : more ≠ [])
    (hzero : UInt32.ofNat i.left = 0 → i.shift = 0) (hk : UInt32.ofNat (2 ^ width - 1) ≠ 0)
    (hstep : ∀ left shift, inflateStep { i with left := left, shift := shift } more =
      readLen { i with left := left, shift := shift } more width maxlen done)
    (hdone : ∀ i rest, Stage.Extends observe inflateStep more
      (done i (rest ++ more)) (done i rest)) :
    Stage.Extends observe inflateStep more (i.readLen (inp ++ more) width maxlen done)
      (i.readLen inp width maxlen done) := by
  have hext := decodeLength_extends inp hmore hzero hk
  unfold readLen
  cases hd : decodeLength (UInt32.ofNat i.left) i.shift inp width with
  | none =>
    rw [hd] at hext
    rw [show decodeLength _ i.shift (inp ++ more) width = none from hext]
    rfl
  | some d =>
    rw [hd] at hext
    dsimp only
    by_cases hfinal : d.final = true
    · rw [DecodedLength.Extends, if_pos hfinal] at hext
      rw [hext]
      dsimp only
      by_cases hmax : d.res.toNat > maxlen
      · rw [if_pos hmax, if_pos hmax]
        rfl
      · rw [if_neg hmax, if_neg hmax, if_pos hfinal, if_pos hfinal]
        exact hdone _ _
    rw [DecodedLength.Extends, if_neg hfinal] at hext
    rw [hext]
    by_cases hmax : d.res.toNat > maxlen
    · -- the whole integer is at least as large as the part
      rw [if_pos hmax]
      cases hd' : decodeLength d.res d.shift more width with
      | none => rfl
      | some d' =>
        have hle := le_of_decodeLength hd'
        dsimp only
        rw [if_pos (by omega)]
        rfl
    rw [if_neg hmax, if_neg hfinal]
    refine ⟨rest_of_decodeLength hd hfinal, ?_⟩
    refine Eq.mpr (congrArg (Stage.Same observe _) (hstep _ _)) ?_
    unfold readLen
    dsimp only
    rw [UInt32.ofNat_toNat]
    cases decodeLength d.res d.shift more width with
    | none => exact Or.inr ⟨_, _, _, rfl, rfl, rfl⟩
    | some d' =>
      dsimp only
      split
      · exact Or.inr ⟨_, _, _, rfl, rfl, rfl⟩
      · exact Or.inl rfl

/-! ### Strings -/

/-- Reading bytes of a string changes only the buffer and what is left. -/
theorem readBytes_eq_ok (h : i.readBytes huff inp = .ok i') :
    ∃ ctx buf, i' = { i with
      huffDecodeCtx := ctx, nvbufs := buf, left := i.left - inp.length } := by
  have hlen : i.left - (inp.take i.left).length = i.left - inp.length := by
    rw [List.length_take]
    omega
  unfold readBytes at h
  dsimp only at h
  split at h
  · obtain ⟨⟨ctx, buf⟩, -, hi⟩ := bind_eq_ok.1 h
    cases hi
    exact ⟨ctx, buf, by rw [hlen]⟩
  · obtain ⟨buf, -, hi⟩ := bind_eq_ok.1 h
    cases hi
    exact ⟨i.huffDecodeCtx, buf, by rw [hlen]⟩

/-- Bytes behind a string are not read. -/
theorem readBytes_append_of_le (h : i.left ≤ inp.length) :
    i.readBytes huff (inp ++ more) = i.readBytes huff inp := by
  have hlen : i.left ≤ (inp ++ more).length := by
    rw [List.length_append]
    omega
  unfold readBytes
  rw [List.take_append_of_le_length h, decide_eq_true h, decide_eq_true hlen]

/-- A string that is read in two parts. -/
theorem readBytes_append_of_lt (h : inp.length < i.left) :
    i.readBytes huff (inp ++ more) =
      (i.readBytes huff inp >>= fun i' => i'.readBytes huff more) := by
  have htake : (inp ++ more).take i.left = inp ++ more.take (i.left - inp.length) := by
    rw [List.take_append, List.take_of_length_le (by omega)]
  have hinp : inp.take i.left = inp := List.take_of_length_le (by omega)
  have hfinal : decide (i.left ≤ (inp ++ more).length) =
      decide (i.left - inp.length ≤ more.length) := by
    rw [List.length_append, decide_eq_decide]
    omega
  have hleft : i.left - (inp ++ more.take (i.left - inp.length)).length =
      i.left - inp.length - (more.take (i.left - inp.length)).length := by
    rw [List.length_append]
    omega
  unfold readBytes
  dsimp only
  rw [htake, hinp, hfinal, hleft]
  cases huff with
  | true =>
    simp only [if_true, huffDecodeAll, huffDecodeLoop_append, decide_eq_false (not_le.2 h)]
    cases huffDecodeLoop maxNv i.huffDecodeCtx i.nvbufs inp with
    | error e => rfl
    | ok r => rfl
  | false =>
    simp only [Bool.false_eq_true, if_false, addBytes_append]
    cases addBytes maxNv i.nvbufs inp with
    | error e => rfl
    | ok buf => rfl

/-- More input after a part of a string. -/
theorem readString_extends (inp : Bytes)
    (hstep : ∀ ctx buf left,
      inflateStep { i with huffDecodeCtx := ctx, nvbufs := buf, left := left } more =
        readString { i with huffDecodeCtx := ctx, nvbufs := buf, left := left } huff more done)
    (hdone : ∀ i rest, Stage.Extends observe inflateStep more
      (done i (rest ++ more)) (done i rest)) :
    Stage.Extends observe inflateStep more (i.readString huff (inp ++ more) done)
      (i.readString huff inp done) := by
  unfold readString
  rcases le_or_gt i.left inp.length with hle | hlt
  · rw [readBytes_append_of_le hle]
    cases hread : i.readBytes huff inp with
    | error e => rfl
    | ok i' =>
      obtain ⟨ctx, buf, rfl⟩ := readBytes_eq_ok hread
      have hleft : ¬i.left - inp.length ≠ 0 := by omega
      dsimp only
      rw [if_neg hleft, if_neg hleft, List.drop_append_of_le_length hle]
      exact hdone _ _
  rw [readBytes_append_of_lt hlt]
  cases hread : i.readBytes huff inp with
  | error e => rfl
  | ok i' =>
    obtain ⟨ctx, buf, rfl⟩ := readBytes_eq_ok hread
    have hleft : i.left - inp.length ≠ 0 := by omega
    dsimp only
    rw [if_pos hleft]
    refine ⟨List.drop_of_length_le hlt.le, ?_⟩
    refine Eq.mpr (congrArg (Stage.Same observe _) (hstep _ _ _)) ?_
    have hdrop : (inp ++ more).drop i.left = more.drop (i.left - inp.length) := by
      rw [List.drop_append, List.drop_of_length_le (by omega), List.nil_append]
    unfold readString
    dsimp only
    rw [hdrop]
    change Stage.Same observe (match readBytes _ huff more with
      | .error e => _
      | .ok i' => _) _
    cases readBytes { i with huffDecodeCtx := ctx, nvbufs := buf, left := i.left - inp.length }
        huff more with
    | error e => exact Or.inr ⟨_, _, _, rfl, rfl, rfl⟩
    | ok i'' => exact Or.inl rfl

/-! ### Every state -/

/-- More input after a name. -/
theorem finishName_extends (i : Inflater) (rest : Bytes) :
    Stage.Extends observe inflateStep more (i.finishName (rest ++ more)) (i.finishName rest) := by
  unfold finishName
  split
  · rfl
  · rfl

/-- More input after a value. -/
theorem finishValue_extends (i : Inflater) (rest : Bytes) :
    Stage.Extends observe inflateStep more (i.finishValue (rest ++ more)) (i.finishValue rest) := by
  unfold finishValue
  split
  · rfl
  · dsimp only
    split
    · rfl
    · rfl

/-- More input after a part of a table size. -/
theorem readTableSize_extends (hmore : more ≠ []) (inp : Bytes) (hstate : i.state = .readTableSize)
    (hfresh : i.Fresh) :
    Stage.Extends observe inflateStep more (i.readTableSize (inp ++ more))
      (i.readTableSize inp) := by
  apply readLen_extends inp hmore (hfresh (Or.inl hstate)) (by decide)
  · intro left shift
    simp only [inflateStep, hstate, readTableSize]
  · exact fun _ _ => rfl

/-- The prefix of an index has bits. -/
theorem indexWidth_ne (i : Inflater) : UInt32.ofNat (2 ^ i.indexWidth - 1) ≠ 0 := by
  unfold indexWidth
  repeat' split
  all_goals decide

/-- More input after a part of an index. -/
theorem readIndex_extends (hmore : more ≠ []) (inp : Bytes) (hstate : i.state = .readIndex)
    (hfresh : i.Fresh) :
    Stage.Extends observe inflateStep more (i.readIndex (inp ++ more)) (i.readIndex inp) := by
  apply readLen_extends inp hmore (hfresh (Or.inr (Or.inl hstate))) i.indexWidth_ne
  · intro left shift
    simp only [inflateStep, hstate, readIndex]
    rfl
  · intro i rest
    dsimp only
    repeat' split
    all_goals rfl

/-- More input after a part of a name's length. -/
theorem readNamelen_extends (hmore : more ≠ []) (inp : Bytes)
    (hstate : i.state = .newnameReadNamelen) (hfresh : i.Fresh) :
    Stage.Extends observe inflateStep more (i.readNamelen (inp ++ more)) (i.readNamelen inp) := by
  apply readLen_extends inp hmore (hfresh (Or.inr (Or.inr (Or.inl hstate)))) (by decide)
  · intro left shift
    simp only [inflateStep, hstate, readNamelen]
  · intro i rest
    split
    · rfl
    · rfl

/-- More input after a part of a value's length. -/
theorem readValuelen_extends (hmore : more ≠ []) (inp : Bytes) (hstate : i.state = .readValuelen)
    (hfresh : i.Fresh) :
    Stage.Extends observe inflateStep more (i.readValuelen (inp ++ more)) (i.readValuelen inp) := by
  apply readLen_extends inp hmore (hfresh (Or.inr (Or.inr (Or.inr hstate)))) (by decide)
  · intro left shift
    simp only [inflateStep, hstate, readValuelen]
  · intro i rest
    split
    · rfl
    · rfl

/-- More input before a length. -/
theorem checkLen_extends {state : InflateState}
    {next : Inflater → Bytes → InflateStage} (inp : Bytes)
    (hstep : i.inflateStep more = i.checkLen state more next)
    (hnext : ∀ (i : Inflater) inp, i.state = state → i.shift = 0 →
      Stage.Extends observe inflateStep more (next i (inp ++ more)) (next i inp)) :
    Stage.Extends observe inflateStep more (i.checkLen state (inp ++ more) next)
      (i.checkLen state inp next) := by
  cases inp with
  | nil => exact ⟨rfl, Or.inl hstep.symm⟩
  | cons b l => exact hnext _ (b :: l) rfl rfl

/-- **More input changes nothing that was read.** -/
theorem inflateStep_extends (i : Inflater) (inp : Bytes) (hmore : more ≠ []) (hfresh : i.Fresh) :
    Stage.Extends observe inflateStep more (i.inflateStep (inp ++ more)) (i.inflateStep inp) := by
  cases hstate : i.state with
  | expectTableSize =>
    simp only [inflateStep, hstate]
    exact i.expectTableSize_extends inp hstate
  | inflateStart =>
    have hstep : i.inflateStep = i.readOpcode := by
      funext inp
      simp only [inflateStep, hstate]
    rw [hstep]
    exact i.readOpcode_extends inp hstep
  | opcode =>
    have hstep : i.inflateStep = i.readOpcode := by
      funext inp
      simp only [inflateStep, hstate]
    rw [hstep]
    exact i.readOpcode_extends inp hstep
  | readTableSize =>
    simp only [inflateStep, hstate]
    exact readTableSize_extends hmore inp hstate hfresh
  | readIndex =>
    simp only [inflateStep, hstate]
    exact readIndex_extends hmore inp hstate hfresh
  | newnameCheckNamelen =>
    simp only [inflateStep, hstate]
    apply checkLen_extends inp
    · simp only [inflateStep, hstate]
    · exact fun i inp h hshift => readNamelen_extends hmore inp h fun _ _ => hshift
  | newnameReadNamelen =>
    simp only [inflateStep, hstate]
    exact readNamelen_extends hmore inp hstate hfresh
  | newnameReadNamehuff =>
    simp only [inflateStep, hstate]
    apply readString_extends inp _ finishName_extends
    intros
    simp only [inflateStep, hstate]
  | newnameReadName =>
    simp only [inflateStep, hstate]
    apply readString_extends inp _ finishName_extends
    intros
    simp only [inflateStep, hstate]
  | checkValuelen =>
    simp only [inflateStep, hstate]
    apply checkLen_extends inp
    · simp only [inflateStep, hstate]
    · exact fun i inp h hshift => readValuelen_extends hmore inp h fun _ _ => hshift
  | readValuelen =>
    simp only [inflateStep, hstate]
    exact readValuelen_extends hmore inp hstate hfresh
  | readValuehuff =>
    simp only [inflateStep, hstate]
    apply readString_extends inp _ finishValue_extends
    intros
    simp only [inflateStep, hstate]
  | readValue =>
    simp only [inflateStep, hstate]
    apply readString_extends inp _ finishValue_extends
    intros
    simp only [inflateStep, hstate]

/-! ## What a turn can do -/

/-- The states that read a value. -/
def ReadsValue (i : Inflater) : Prop := i.state = .readValuehuff ∨ i.state = .readValue

/-- The states that read a name. -/
def ReadsName (i : Inflater) : Prop := i.state = .newnameReadNamehuff ∨ i.state = .newnameReadName

/-- The states between two fields. -/
def ReadsOpcode (i : Inflater) : Prop :=
  i.state = .expectTableSize ∨ i.state = .inflateStart ∨ i.state = .opcode

/-- The state `read`, which is entered directly or from the state `check`. -/
def Enters (i i₁ : Inflater) (check read : InflateState) : Prop :=
  i₁.state = read ∧ (i₁ = i ∨ i.state = check ∧
    ∃ huff, i₁ = { i with huffmanEncoded := huff, state := read, left := 0, shift := 0 })

section Turn

variable {Q : InflateStage → Prop}

/-- **The turns of the loop.** -/
theorem inflateStep_ind (i : Inflater) (inp : Bytes)
    (hidle : inp = [] → ¬i.ReadsLen → ¬i.ReadsValue → Q (.wait i []))
    (hfail : Q (.fail i.markBad .headerComp))
    (hopcode : i.ReadsOpcode → inp ≠ [] → Q (i.readOpcode inp))
    (htable : i.state = .readTableSize → Q (i.readTableSize inp))
    (hindex : i.state = .readIndex → Q (i.readIndex inp))
    (hnamelen : ∀ i1, i.Enters i1 .newnameCheckNamelen .newnameReadNamelen → Q (i1.readNamelen inp))
    (hvaluelen : ∀ i1, i.Enters i1 .checkValuelen .readValuelen → Q (i1.readValuelen inp))
    (hname : i.ReadsName → ∀ huff, Q (i.readString huff inp finishName))
    (hvalue : i.ReadsValue → ∀ huff, Q (i.readString huff inp finishValue)) :
    Q (i.inflateStep inp) := by
  cases hstate : i.state <;> simp only [inflateStep, hstate]
  case expectTableSize =>
    cases inp with
    | nil => exact hidle rfl (by simp [ReadsLen, hstate]) (by simp [ReadsValue, hstate])
    | cons b l =>
      simp only [expectTableSize]
      split
      · exact hfail
      · exact hopcode (Or.inl hstate) (List.cons_ne_nil _ _)
  case inflateStart =>
    cases inp with
    | nil => exact hidle rfl (by simp [ReadsLen, hstate]) (by simp [ReadsValue, hstate])
    | cons b l => exact hopcode (Or.inr (Or.inl hstate)) (List.cons_ne_nil _ _)
  case opcode =>
    cases inp with
    | nil => exact hidle rfl (by simp [ReadsLen, hstate]) (by simp [ReadsValue, hstate])
    | cons b l => exact hopcode (Or.inr (Or.inr hstate)) (List.cons_ne_nil _ _)
  case readTableSize => exact htable hstate
  case readIndex => exact hindex hstate
  case newnameCheckNamelen =>
    cases inp with
    | nil => exact hidle rfl (by simp [ReadsLen, hstate]) (by simp [ReadsValue, hstate])
    | cons b l => exact hnamelen _ ⟨rfl, Or.inr ⟨hstate, _, rfl⟩⟩
  case newnameReadNamelen => exact hnamelen i ⟨hstate, Or.inl rfl⟩
  case newnameReadNamehuff => exact hname (Or.inl hstate) true
  case newnameReadName => exact hname (Or.inr hstate) false
  case checkValuelen =>
    cases inp with
    | nil => exact hidle rfl (by simp [ReadsLen, hstate]) (by simp [ReadsValue, hstate])
    | cons b l => exact hvaluelen _ ⟨rfl, Or.inr ⟨hstate, _, rfl⟩⟩
  case readValuelen => exact hvaluelen i ⟨hstate, Or.inl rfl⟩
  case readValuehuff => exact hvalue (Or.inl hstate) true
  case readValue => exact hvalue (Or.inr hstate) false

/-- What the first byte leads to. -/
theorem readOpcode_ind (hinp : inp ≠ []) (hfail : Q (.fail i.markBad .headerComp))
    (hstay : ∀ op state req noIndex,
      op = .indexed ∧ (state = .readTableSize ∨ state = .readIndex) ∨
        op = .indname ∧ state = .readIndex →
      Q (.next { i with
        opcode := op
        state := state
        indexRequired := req
        noIndex := noIndex
        left := 0
        shift := 0 } inp false))
    (hnewname : ∀ b l req noIndex, inp = b :: l →
      Q (.next { i with
        opcode := .newname
        state := .newnameCheckNamelen
        indexRequired := req
        noIndex := noIndex
        left := 0
        shift := 0 } l false)) :
    Q (i.readOpcode inp) := by
  cases inp with
  | nil => exact absurd rfl hinp
  | cons b l =>
    simp only [readOpcode]
    repeat' split
    · exact hfail
    · exact hstay _ _ i.indexRequired i.noIndex (Or.inl ⟨rfl, Or.inl rfl⟩)
    · exact hstay _ _ i.indexRequired i.noIndex (Or.inl ⟨rfl, Or.inr rfl⟩)
    · exact hnewname b l _ _ rfl
    · exact hstay _ _ _ _ (Or.inr ⟨rfl, rfl⟩)

/-- What reading a length leads to. -/
theorem readLen_ind (hfail : Q (.fail i.markBad .headerComp))
    (hwait : ∀ d, decodeLength (UInt32.ofNat i.left) i.shift inp width = some d → d.final = false →
      d.res.toNat ≤ maxlen → Q (.wait { i with left := d.res.toNat, shift := d.shift } []))
    (hdone : ∀ n shift used rest, used ≠ [] → inp = used ++ rest → n ≤ maxlen →
      Q (done { i with left := n, shift := shift } rest)) :
    Q (i.readLen inp width maxlen done) := by
  unfold readLen
  split
  · exact hfail
  · next d hd =>
    split
    · exact hfail
    · next hmax =>
      dsimp only
      split
      · next hfinal =>
        obtain ⟨used, hused, hinp⟩ := suffix_of_decodeLength hd hfinal
        exact hdone _ _ used d.rest hused hinp (not_lt.1 hmax)
      · next hfinal =>
        rw [rest_of_decodeLength hd hfinal]
        exact hwait d hd (Bool.not_eq_true _ ▸ hfinal) (not_lt.1 hmax)

/-- What reading a string leads to. -/
theorem readString_ind
    (hfail : ∀ e, i.readBytes huff inp = .error e → Q (.fail i.markBad e))
    (hwait : ∀ ctx buf left, inp.length < i.left → left ≠ 0 →
      Q (.wait { i with huffDecodeCtx := ctx, nvbufs := buf, left := left } []))
    (hdone : ∀ ctx buf, i.left ≤ inp.length →
      Q (done { i with huffDecodeCtx := ctx, nvbufs := buf, left := 0 } (inp.drop i.left))) :
    Q (i.readString huff inp done) := by
  unfold readString
  split
  · next e hread => exact hfail e hread
  · next i' hread =>
    obtain ⟨ctx, buf, rfl⟩ := readBytes_eq_ok hread
    dsimp only
    split
    · next hleft =>
      rw [List.drop_of_length_le (by omega)]
      exact hwait ctx buf _ (by omega) hleft
    · next hleft =>
      have hzero : i.left - inp.length = 0 := by omega
      rw [hzero]
      exact hdone ctx buf (by omega)

/-- What the end of a name leads to. -/
theorem finishName_ind (hfail : ∀ e, addb maxNv i.nvbufs 0 = .error e → Q (.fail i.markBad e))
    (hnext : ∀ buf,
      Q (.next { i with newnamelen := i.nvbufs.length, nvbufs := buf, state := .checkValuelen }
        rest false)) : Q (i.finishName rest) := by
  unfold finishName
  split
  · next e he => exact hfail e he
  · exact hnext _

/-- What the end of a value leads to. -/
theorem finishValue_ind (hfail : ∀ e, addb maxNv i.nvbufs 0 = .error e → Q (.fail i.markBad e))
    (hcommit : ∀ buf e, { i with nvbufs := buf }.commitValue = .error e →
      Q (.fail { i with nvbufs := buf }.markBad e))
    (hemit : ∀ buf i' em, { i with nvbufs := buf }.commitValue = .ok (i', em) →
      Q (.emit { i' with state := .opcode } rest em)) : Q (i.finishValue rest) := by
  unfold finishValue
  split
  · next e he => exact hfail e he
  · dsimp only
    split
    · next e he => exact hcommit _ e he
    · next i' em hem => exact hemit _ i' em hem

end Turn

/-! ### The inflater stays in order -/

/-- The inflater has not failed, and is in order. -/
structure Live (i : Inflater) : Prop where
  bad : i.ctx.bad = false
  fresh : i.Fresh

/-- No length has been begun. -/
theorem fresh_of_shift (h : i.shift = 0) : i.Fresh := fun _ _ => h

/-- No length is read. -/
theorem fresh_of_state (h : ¬i.ReadsLen) : i.Fresh := fun hreads => absurd hreads h

/-- A length is read. -/
theorem readLen_live (h : i.Live) (hreads : i.ReadsLen) (hk : UInt32.ofNat (2 ^ width - 1) ≠ 0)
    (hdone : ∀ n shift rest, (done { i with left := n, shift := shift } rest).All Live) :
    (i.readLen inp width maxlen done).All Live := by
  apply readLen_ind trivial
  · intro d hd hfinal _
    refine ⟨h.bad, fun _ hres => ?_⟩
    dsimp only at hres
    rw [UInt32.ofNat_toNat] at hres
    exact shift_of_decodeLength hd hfinal (h.fresh hreads) hk hres
  · exact fun _ _ _ _ _ _ _ => hdone _ _ _

/-- A length begins. -/
theorem Enters.live {i1 : Inflater} {check read : InflateState} (hi : i.Enters i1 check read)
    (h : i.Live) : i1.Live := by
  rcases hi.2 with rfl | ⟨-, huff, rfl⟩
  · exact h
  · exact ⟨h.bad, fresh_of_shift rfl⟩

/-- A literal does not make the context bad. -/
theorem commitLiteral_bad (i : Inflater) (name value : Bytes) (token : Option ℕ) :
    (i.commitLiteral name value token).1.ctx.bad = i.ctx.bad := by
  unfold commitLiteral
  split
  · exact i.ctx.addHdTableIncremental_bad _
  · rfl

/-- The commit of a literal field. -/
theorem commitValue_eq_ok (h : i.commitValue = .ok (i', em)) :
    ∃ name value token, (i', em) = i.commitLiteral name value token := by
  unfold commitValue at h
  split at h
  · exact ⟨_, _, _, (Except.ok.inj h).symm⟩
  · unfold commitIndname at h
    split at h
    · exact ⟨_, _, _, (Except.ok.inj h).symm⟩
    · cases h

/-- **A live inflater stays so.** -/
theorem inflateStep_live (i : Inflater) (inp : Bytes) (h : i.Live) :
    (i.inflateStep inp).All Live := by
  apply inflateStep_ind i inp
  case hidle => exact fun _ _ _ => h
  case hfail => trivial
  case hopcode =>
    intro _ hinp
    apply readOpcode_ind hinp trivial
    · exact fun _ _ _ _ _ => ⟨h.bad, fresh_of_shift rfl⟩
    · exact fun _ _ _ _ _ => ⟨h.bad, fresh_of_shift rfl⟩
  case htable =>
    intro hstate
    apply readLen_live h (Or.inl hstate) (by decide)
    exact fun _ _ _ =>
      ⟨(Context.shrinkTableSize_bad _).trans h.bad, fresh_of_state (by simp [ReadsLen])⟩
  case hindex =>
    intro hstate
    apply readLen_live h (Or.inr (Or.inl hstate)) i.indexWidth_ne
    intro n shift rest
    dsimp only
    repeat' split
    · trivial
    · trivial
    all_goals exact ⟨h.bad, fresh_of_state (by simp [ReadsLen])⟩
  case hnamelen =>
    intro i1 hi
    have h1 := hi.live h
    apply readLen_live h1 (Or.inr (Or.inr (Or.inl hi.1))) (by decide)
    intro n shift rest
    split
    · exact ⟨h1.bad, fresh_of_state (by simp [ReadsLen])⟩
    · exact ⟨h1.bad, fresh_of_state (by simp [ReadsLen])⟩
  case hvaluelen =>
    intro i1 hi
    have h1 := hi.live h
    apply readLen_live h1 (Or.inr (Or.inr (Or.inr hi.1))) (by decide)
    intro n shift rest
    split
    · exact ⟨h1.bad, fresh_of_state (by simp [ReadsLen])⟩
    · exact ⟨h1.bad, fresh_of_state (by simp [ReadsLen])⟩
  case hname =>
    intro hname huff
    apply readString_ind (fun _ _ => trivial)
    · intro ctx buf left _ _
      refine ⟨h.bad, fresh_of_state ?_⟩
      rcases hname with hstate | hstate <;> simp [ReadsLen, hstate]
    · intro ctx buf _
      apply finishName_ind (fun _ _ => trivial)
      exact fun _ => ⟨h.bad, fresh_of_state (by simp [ReadsLen])⟩
  case hvalue =>
    intro hvalue huff
    apply readString_ind (fun _ _ => trivial)
    · intro ctx buf left _ _
      refine ⟨h.bad, fresh_of_state ?_⟩
      rcases hvalue with hstate | hstate <;> simp [ReadsLen, hstate]
    intro ctx buf _
    apply finishValue_ind (fun _ _ => trivial) (fun _ _ _ => trivial)
    intro buf' i' em hcommit
    obtain ⟨name, value, token, heq⟩ := commitValue_eq_ok hcommit
    refine ⟨?_, fresh_of_state (by simp [ReadsLen])⟩
    show i'.ctx.bad = false
    rw [show i' = _ from congrArg Prod.fst heq, commitLiteral_bad]
    exact h.bad

/-- **The input of the inflater may be cut anywhere.** -/
theorem inflateStep_law : Law inflateStep Live observe where
  extend i inp _ h hmore := inflateStep_extends i inp hmore h.fresh
  keep := inflateStep_live

/-! ### Every turn makes progress -/

/-- The turns that read no byte lead to a state of a lower rank. -/
def rank (i : Inflater) : ℕ :=
  match i.state with
  | .readValuehuff | .readValue => 2
  | .expectTableSize | .inflateStart | .opcode | .newnameReadNamehuff | .newnameReadName => 1
  | _ => 0

/-- What every turn makes smaller. -/
def size (i : Inflater) (inp : Bytes) : ℕ := 3 * inp.length + i.rank

/-- Reading a length takes input. -/
theorem readLen_shrinks {n : ℕ} (hn : 3 * inp.length ≤ n)
    (hdone : ∀ i rest, (done i rest).Shrinks size (3 * rest.length + 3)) :
    (i.readLen inp width maxlen done).Shrinks size n := by
  apply readLen_ind trivial (fun _ _ _ _ => trivial)
  rintro k shift used rest hused rfl _
  have hlen := List.length_pos_iff.2 hused
  rw [List.length_append] at hn
  exact (hdone _ rest).mono (by omega)

/-- The input is part of the size. -/
theorem le_size (i : Inflater) (inp : Bytes) : 3 * inp.length ≤ i.size inp := Nat.le_add_right _ _

/-- **Every turn takes input or comes nearer to it.** -/
theorem inflateStep_shrinks (i : Inflater) (inp : Bytes) :
    (i.inflateStep inp).Shrinks size (i.size inp) := by
  apply inflateStep_ind i inp
  case hidle => exact fun _ _ _ => trivial
  case hfail => trivial
  case hopcode =>
    intro hopcode hinp
    have hrank : i.rank = 1 := by
      rcases hopcode with h | h | h <;> simp [rank, h]
    apply readOpcode_ind hinp trivial
    · rintro op state req noIndex hcase
      have hzero : state = .readTableSize ∨ state = .readIndex := by tauto
      rcases hzero with rfl | rfl <;> simp [Stage.Shrinks, size, hrank] <;> simp [rank]
    · rintro b l req noIndex rfl
      simp [Stage.Shrinks, size, hrank]
      simp [rank]
  case htable =>
    intro _
    apply readLen_shrinks (i.le_size inp)
    intro i rest
    simp [Stage.Shrinks, size, rank]
  case hindex =>
    intro _
    apply readLen_shrinks (i.le_size inp)
    intro i rest
    dsimp only
    repeat' split
    · trivial
    · trivial
    all_goals simp [Stage.Shrinks, size, rank]
  case hnamelen =>
    intro i1 _
    apply readLen_shrinks (i.le_size inp)
    intro i rest
    split <;> simp [Stage.Shrinks, size, rank]
  case hvaluelen =>
    intro i1 _
    apply readLen_shrinks (i.le_size inp)
    intro i rest
    split <;> simp [Stage.Shrinks, size, rank]
  case hname =>
    intro hname huff
    have hrank : i.rank = 1 := by
      rcases hname with h | h <;> simp [rank, h]
    apply readString_ind (fun _ _ => trivial) (fun _ _ _ _ _ => trivial)
    intro ctx buf _
    apply finishName_ind (fun _ _ => trivial)
    intro buf'
    show 3 * (inp.drop i.left).length + 0 < 3 * inp.length + i.rank
    rw [hrank, List.length_drop]
    omega
  case hvalue =>
    intro hvalue huff
    have hrank : i.rank = 2 := by
      rcases hvalue with h | h <;> simp [rank, h]
    apply readString_ind (fun _ _ => trivial) (fun _ _ _ _ _ => trivial)
    intro ctx buf _
    apply finishValue_ind (fun _ _ => trivial) (fun _ _ _ => trivial)
    intro buf' i' em _
    show 3 * (inp.drop i.left).length + 1 < 3 * inp.length + i.rank
    rw [hrank, List.length_drop]
    omega

/-- Only the states that read a value follow a `busy` turn, and an inflater that waits is in the
middle of a field. -/
def Tidy (i : Inflater) (inp : Bytes) : InflateStage → Prop
  | .next i' _ busy => busy = true → i'.ReadsValue
  | .wait i' _ => i'.state = .opcode → inp = [] ∧ i.state = .opcode
  | _ => True

/-- **Every turn stays tidy.** -/
theorem inflateStep_tidy (i : Inflater) (inp : Bytes) : i.Tidy inp (i.inflateStep inp) := by
  apply inflateStep_ind i inp
  case hidle => exact fun hinp _ _ h => ⟨hinp, h⟩
  case hfail => trivial
  case hopcode =>
    intro _ hinp
    apply readOpcode_ind hinp trivial
    · exact fun _ _ _ _ _ => nofun
    · exact fun _ _ _ _ _ => nofun
  case htable =>
    intro hstate
    apply readLen_ind trivial
    · exact fun _ _ _ _ h => nomatch hstate.symm.trans h
    · exact fun _ _ _ _ _ _ _ => nofun
  case hindex =>
    intro hstate
    apply readLen_ind trivial
    · exact fun _ _ _ _ h => nomatch hstate.symm.trans h
    · intro n shift used rest _ _ _
      dsimp only
      repeat' split
      · trivial
      · trivial
      · trivial
      · exact nofun
  case hnamelen =>
    intro i1 hi
    apply readLen_ind trivial
    · exact fun _ _ _ _ h => nomatch hi.1.symm.trans h
    · intro n shift used rest _ _ _
      split
      · exact nofun
      · exact nofun
  case hvaluelen =>
    intro i1 hi
    apply readLen_ind trivial
    · exact fun _ _ _ _ h => nomatch hi.1.symm.trans h
    · intro n shift used rest _ _ _
      split
      · exact fun _ => Or.inl rfl
      · exact fun _ => Or.inr rfl
  case hname =>
    intro hname huff
    apply readString_ind (fun _ _ => trivial)
    · intro ctx buf left _ _ h
      rcases hname with hstate | hstate <;> exact nomatch hstate.symm.trans h
    · exact fun _ _ _ => finishName_ind (fun _ _ => trivial) fun _ => nofun
  case hvalue =>
    intro hvalue huff
    apply readString_ind (fun _ _ => trivial)
    · intro ctx buf left _ _ h
      rcases hvalue with hstate | hstate <;> exact nomatch hstate.symm.trans h
    · exact fun _ _ _ => finishValue_ind (fun _ _ => trivial) (fun _ _ _ => trivial)
        fun _ _ _ _ => trivial

/-! ### One call -/

/-- What a call returns at the end of a run. -/
def endCall (inFinal : Bool) : Outcome Inflater HdError → CallResult
  | .pending i =>
    if inFinal then if i.state ≠ .opcode then .error i.markBad .headerComp else .final i []
    else .more i []
  | .failed i e => .error i e

/-- A call makes the run until the first field. -/
def CallOf (inFinal : Bool) (i : Inflater) (inp : Bytes) (c : CallResult)
    (r : Outcome Inflater HdError) : List Emitted → Prop
  | [] => c = endCall inFinal r
  | em :: out => ∃ i' rest, c = .emit i' rest em ∧ Run inflateStep i' rest false out r ∧
    i'.size rest < i.size inp ∧ (i.Live → i'.Live)

/-- The loop goes on. -/
theorem not_and_of_active (h : inp ≠ [] ∨ busy = true) : ¬(inp = [] ∧ busy = false) := by
  rintro ⟨rfl, rfl⟩
  simp at h

variable {out : List Emitted} {r : Outcome Inflater HdError}

/-- **A call is the run up to the first field.** -/
theorem inflateLoop_of_run (inFinal : Bool) (h : Run inflateStep i inp busy out r) :
    ∀ {fuel : ℕ}, (busy = true → i.ReadsValue) → i.size inp < fuel →
      CallOf inFinal i inp (inflateLoop inFinal fuel i inp busy) r out := by
  induction h with
  | @stop i =>
    intro fuel _ hfuel
    obtain ⟨fuel, rfl⟩ := Nat.exists_eq_succ_of_ne_zero (by omega : fuel ≠ 0)
    rw [inflateLoop, if_pos ⟨rfl, rfl⟩]
    rfl
  | @next i i' inp rest busy busy' out r hactive hstep hrun ih =>
    intro fuel _ hfuel
    obtain ⟨fuel, rfl⟩ := Nat.exists_eq_succ_of_ne_zero (by omega : fuel ≠ 0)
    have htidy := i.inflateStep_tidy inp
    have hshrink := i.inflateStep_shrinks inp
    rw [hstep] at htidy hshrink
    have hlt : i'.size rest < i.size inp := hshrink
    have hcall := @ih fuel htidy (by omega)
    have hloop : inflateLoop inFinal (fuel + 1) i inp busy =
        inflateLoop inFinal fuel i' rest busy' := by
      rw [inflateLoop, if_neg (not_and_of_active hactive), hstep]
    rw [hloop]
    cases out with
    | nil => exact hcall
    | cons em out =>
      obtain ⟨i'', rest', hc, hrun', hsize, hlive⟩ := hcall
      exact ⟨i'', rest', hc, hrun', hsize.trans hlt, fun hl =>
        hlive (inflateStep_law.next hl hstep)⟩
  | @emit i i' inp rest busy em out r hactive hstep hrun ih =>
    intro fuel _ hfuel
    obtain ⟨fuel, rfl⟩ := Nat.exists_eq_succ_of_ne_zero (by omega : fuel ≠ 0)
    have hshrink := i.inflateStep_shrinks inp
    rw [hstep] at hshrink
    rw [inflateLoop, if_neg (not_and_of_active hactive), hstep]
    exact ⟨i', rest, rfl, hrun, hshrink, fun hl => inflateStep_law.emit hl hstep⟩
  | @wait i i' inp busy hactive hstep =>
    intro fuel hbusy hfuel
    obtain ⟨fuel, rfl⟩ := Nat.exists_eq_succ_of_ne_zero (by omega : fuel ≠ 0)
    have htidy := i.inflateStep_tidy inp
    rw [hstep] at htidy
    -- an inflater that waits is not between two fields
    have hstate : i'.state ≠ .opcode := by
      intro h
      obtain ⟨rfl, hopcode⟩ := htidy h
      rcases hactive with hne | hb
      · exact hne rfl
      · rcases hbusy hb with hval | hval
        · exact nomatch hopcode.symm.trans hval
        · exact nomatch hopcode.symm.trans hval
    rw [inflateLoop, if_neg (not_and_of_active hactive), hstep]
    cases inFinal with
    | true => simp [CallOf, endCall, hstate]
    | false => simp [CallOf, endCall]
  | @fail i i' inp busy e hactive hstep =>
    intro fuel _ hfuel
    obtain ⟨fuel, rfl⟩ := Nat.exists_eq_succ_of_ne_zero (by omega : fuel ≠ 0)
    rw [inflateLoop, if_neg (not_and_of_active hactive), hstep]
    rfl

/-! ### The calls for the chunks of a block -/

/-- What has become of the inflater at the end of a run. -/
def endChunk (inFinal : Bool) : Outcome Inflater HdError → ChunkResult
  | .pending i =>
    if inFinal then if i.state ≠ .opcode then .error i.markBad .headerComp else .final i
    else .pending i
  | .failed i e => .error i e

/-- The fuel suffices. -/
theorem size_lt (i : Inflater) (inp : Bytes) : i.size inp < 3 * inp.length + 3 := by
  unfold size rank
  split <;> omega

/-- One call. -/
theorem inflateHd2_of_run (inFinal : Bool) (h : Run inflateStep i inp false out r)
    (hbad : i.ctx.bad = false) : CallOf inFinal i inp (i.inflateHd2 inp inFinal) r out := by
  rw [inflateHd2, if_neg (by simp [hbad])]
  exact inflateLoop_of_run inFinal h nofun (i.size_lt inp)

/-- The calls for one chunk. -/
theorem inflateCalls_of_run (inFinal : Bool) :
    ∀ {out : List Emitted} {fuel : ℕ} {i : Inflater} {inp : Bytes},
      Run inflateStep i inp false out r → i.Live → i.size inp < fuel →
        inflateCalls inFinal fuel i inp = (out, endChunk inFinal r)
  | _, 0, _, _, _, _, hfuel => absurd hfuel (Nat.not_lt_zero _)
  | [], fuel + 1, i, inp, h, hlive, _ => by
    have hcall : i.inflateHd2 inp inFinal = endCall inFinal r :=
      inflateHd2_of_run inFinal h hlive.bad
    rw [inflateCalls, hcall]
    cases r with
    | failed i' e => rfl
    | pending i' =>
      cases inFinal with
      | false => rfl
      | true =>
        by_cases hstate : i'.state = .opcode
        · simp [endCall, endChunk, hstate]
        · simp [endCall, endChunk, hstate]
  | em :: out, fuel + 1, i, inp, h, hlive, hfuel => by
    obtain ⟨i', rest, hcall, hrun, hsize, hlive'⟩ := inflateHd2_of_run inFinal h hlive.bad
    have hrest : inflateCalls inFinal fuel i' rest = (out, endChunk inFinal r) :=
      inflateCalls_of_run inFinal hrun (hlive' hlive) (by omega)
    rw [inflateCalls, hcall]
    dsimp only
    rw [hrest]

/-- One chunk. -/
theorem inflateChunk_of_run (inFinal : Bool) (h : Run inflateStep i inp false out r)
    (hlive : i.Live) : i.inflateChunk inp inFinal = (out, endChunk inFinal r) :=
  inflateCalls_of_run inFinal h hlive (i.size_lt inp)

/-- There is a run. -/
theorem exists_run (hlive : i.Live) (inp : Bytes) :
    ∃ out r, Run inflateStep i inp false out r :=
  ⟨_, _, inflateStep_law.loop_run inflateStep_shrinks (Nat.lt_succ_self _) hlive⟩

/-- **All chunks.** -/
theorem inflateChunks_of_live :
    ∀ {chunks : List Bytes} {i : Inflater}, i.Live → chunks ≠ [] →
      ∃ out r, Runs inflateStep i chunks out r ∧ i.inflateChunks chunks = (out, endChunk true r)
  | [], _, _, hne => absurd rfl hne
  | [inp], i, hlive, _ => by
    obtain ⟨out, r, hrun⟩ := exists_run hlive inp
    refine ⟨out, r, ?_, inflateChunk_of_run true hrun hlive⟩
    cases r with
    | pending i' =>
      rw [← List.append_nil out]
      exact .cons hrun .nil
    | failed i' e => exact .failed hrun
  | inp :: inp' :: chunks, i, hlive, _ => by
    obtain ⟨out, r, hrun⟩ := exists_run hlive inp
    have hchunk := inflateChunk_of_run false hrun hlive
    rw [inflateChunks, hchunk]
    cases r with
    | pending i' =>
      have hlive' : i'.Live := inflateStep_law.inv_of_run hrun rfl hlive
      obtain ⟨out', r', hruns, hres⟩ := inflateChunks_of_live hlive' (List.cons_ne_nil inp' chunks)
      refine ⟨out ++ out', r', .cons hrun hruns, ?_⟩
      show (let (out'', r'') := i'.inflateChunks (inp' :: chunks); (out ++ out'', r'')) = _
      rw [hres]
    | failed i' e => exact ⟨out, _, .failed hrun, rfl⟩

/-- The inflater is at the start of a header block. -/
def AtBlockStart (i : Inflater) : Prop := i.state = .inflateStart ∨ i.state = .expectTableSize

/-- The same fields, the same outcome, the same table and limits. -/
def SameChunks (r r' : List Emitted × ChunkResult) : Prop :=
  r.1 = r'.1 ∧ (r.2 = r'.2 ∨ ∃ i i' e, r.2 = .error i e ∧ r'.2 = .error i' e ∧
    i.observe = i'.observe)

/-- No length has been begun. -/
theorem AtBlockStart.fresh (h : i.AtBlockStart) : i.Fresh := by
  apply fresh_of_state
  rcases h with h | h
  · simp [ReadsLen, h]
  · simp [ReadsLen, h]

/-- An inflater that has failed fails again. -/
theorem inflateChunks_of_bad (hbad : i.ctx.bad = true) :
    ∀ {chunks : List Bytes}, chunks ≠ [] → i.inflateChunks chunks = ([], .error i .headerComp)
  | [], hne => absurd rfl hne
  | [inp], _ => by
    simp [inflateChunks, inflateChunk, inflateCalls, inflateHd2, hbad]
  | inp :: inp' :: chunks, _ => by
    simp [inflateChunks, inflateChunk, inflateCalls, inflateHd2, hbad]

/-- **The chunks of a header block do not matter.** -/
theorem inflateChunks_flatten {chunks : List Bytes} (hstart : i.AtBlockStart) (hne : chunks ≠ []) :
    SameChunks (i.inflateChunks chunks) (i.inflateChunks [chunks.flatten]) := by
  cases hbad : i.ctx.bad with
  | true =>
    rw [inflateChunks_of_bad hbad hne, inflateChunks_of_bad hbad (List.cons_ne_nil _ _)]
    exact ⟨rfl, Or.inl rfl⟩
  | false =>
    have hlive : i.Live := ⟨hbad, hstart.fresh⟩
    obtain ⟨out, r, hruns, hres⟩ := inflateChunks_of_live hlive hne
    obtain ⟨r', hrun, hsame⟩ := inflateStep_law.flatten hruns hlive
    rw [hres, inflateChunks, inflateChunk_of_run true hrun hlive]
    rcases hsame with rfl | ⟨s, s', e, rfl, rfl, hobs⟩
    · exact ⟨rfl, Or.inl rfl⟩
    · exact ⟨rfl, Or.inr ⟨s, s', e, rfl, rfl, hobs⟩⟩

/-- A block with a Huffman coded name, cut within the name. -/
theorem inflateChunks_cut :
    SameChunks (init.inflateChunks [[0x40, 0x84, 0x9c, 0xb4], [0x50, 0x7f, 0x01, 0x61]])
      (init.inflateChunks [[0x40, 0x84, 0x9c, 0xb4, 0x50, 0x7f, 0x01, 0x61]]) :=
  inflateChunks_flatten (Or.inl rfl) (List.cons_ne_nil _ _)

end Inflater

end Nghttp2.Hd
