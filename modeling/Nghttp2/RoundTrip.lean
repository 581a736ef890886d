/-
# What the inflater makes of what the deflater wrote

The representations of `nghttp2_hd_deflate_hd_bufs` are read back one after the other.  The
lemmas follow the turns of the inflater: the length of a string, the string, the first byte of
a representation, the field, the block.  All of them leave the rest of the input open, so that
they can be put together.

* `StringStates.fits`, `StringStates.large`: a string is read if there is room for it;
* `reads_deflateNv`: the inflater emits a field that was deflated, and adds the same entry;
* `run_deflateNvs`, `fails_deflateNvs`: the fields of a block.
-/
import Nghttp2.IntCodec
import Nghttp2.Huffman
import Nghttp2.TableSearch
import Nghttp2.Inflate

namespace Nghttp2.Hd

open Resumable SizedFifo

namespace Inflater

variable {i : Inflater} {t b s : Bytes} {n width maxlen : ℕ}
  {done : Inflater → Bytes → InflateStage} {out : List Emitted} {r : Outcome Inflater HdError}

/-! ## Lengths -/

/-- **A length is read back.** -/
theorem readLen_encodeLength (maxlen : ℕ) (done : Inflater → Bytes → InflateStage)
    (hwidth : 1 ≤ width ∧ width ≤ 8) (hn : n < 2 ^ 32) (first : UInt8)
    (hleft : i.left = 0) (hshift : i.shift = 0) :
    ∃ shift, i.readLen (encodeLength first n width ++ t) width maxlen done =
      if maxlen < n then .fail i.markBad .headerComp
      else done { i with left := n, shift := shift } t := by
  obtain ⟨shift, hd⟩ := decodeLength_encodeLength hwidth hn first t
  have hzero : UInt32.ofNat i.left = 0 := by rw [hleft]; rfl
  have hval : (UInt32.ofNat n).toNat = n := by
    rw [UInt32.toNat_ofNat', Nat.mod_eq_of_lt hn]
  refine ⟨shift, ?_⟩
  rw [readLen, hzero, hshift, hd]
  simp only [hval, gt_iff_lt, if_true]

/-! ## Strings -/

/-- How a string is written: the bytes, or their Huffman code if that is shorter. -/
theorem emitString_eq_ok (h : emitString s = .ok b) :
    (s.length ≤ huffEncodeCount s ∧ b = encodeLength 0 s.length 7 ++ s) ∨
      (huffEncodeCount s < s.length ∧
        b = encodeLength 0x80 (huffEncodeCount s) 7 ++ huffEncode s) := by
  unfold emitString at h
  dsimp only at h
  split_ifs at h with hshort
  · obtain ⟨l, hl, rfl⟩ := map_eq_ok.1 h
    exact Or.inr ⟨hshort, by rw [emitLength_eq_ok hl]⟩
  · obtain ⟨l, hl, rfl⟩ := map_eq_ok.1 h
    exact Or.inl ⟨by omega, by rw [emitLength_eq_ok hl]⟩

/-- The bytes of a string are appended to the buffer if there is room for them. -/
theorem readString_raw (hleft : i.left = s.length) :
    i.readString false (s ++ t) done =
      if i.nvbufs.length + s.length ≤ maxNv then
        done { i with nvbufs := i.nvbufs ++ s, left := 0 } t
      else .fail i.markBad .bufferError := by
  have htake : (s ++ t).take i.left = s := by rw [hleft, List.take_left]
  have hdrop : (s ++ t).drop i.left = t := by rw [hleft, List.drop_left]
  unfold readString readBytes
  simp only [htake, hdrop, Bool.false_eq_true, if_false, addBytes]
  split_ifs
  · simp [hleft]
  · rfl

/-- A Huffman coded string is decoded into the buffer if there is room for it. -/
theorem readString_huff (done : Inflater → Bytes → InflateStage)
    (hleft : i.left = (huffEncode s).length)
    (hctx : i.huffDecodeCtx = .init) (hbuf : i.nvbufs.length ≤ maxNv) :
    ∃ ctx, i.readString true (huffEncode s ++ t) done =
      if i.nvbufs.length + s.length ≤ maxNv then
        done { i with huffDecodeCtx := ctx, nvbufs := i.nvbufs ++ s, left := 0 } t
      else .fail i.markBad .bufferError := by
  have htake : (huffEncode s ++ t).take i.left = huffEncode s := by rw [hleft, List.take_left]
  have hdrop : (huffEncode s ++ t).drop i.left = t := by rw [hleft, List.drop_left]
  have hall : i.left ≤ (huffEncode s ++ t).length := by
    rw [List.length_append]
    omega
  unfold readString readBytes
  simp only [htake, hdrop, if_true, hctx, huffDecodeAll, hall, decide_true]
  obtain ⟨hfits, ctx, hacc, hloop⟩ | ⟨hlarge, hloop⟩ := huffDecodeLoop_huffEncode i.nvbufs s hbuf
  · refine ⟨ctx, ?_⟩
    rw [hloop, if_pos hfits]
    simp [bind, Except.bind, hacc, hleft, pure, Except.pure]
  · refine ⟨.init, ?_⟩
    rw [hloop, if_neg (by omega)]
    rfl

/-- The first byte of a length says whether the string is Huffman coded. -/
theorem encodeLength_huff (huff : Bool) (n : ℕ) :
    ∃ x l, encodeLength (if huff then 0x80 else 0) n 7 = x :: l ∧ (x &&& 0x80 != 0) = huff := by
  obtain ⟨x, l, henc, hhigh, -⟩ := encodeLength_spec (show 1 ≤ 7 ∧ 7 ≤ 8 by decide)
    (if huff then 0x80 else 0) n
  refine ⟨x, l, henc, ?_⟩
  have hmask : ~~~UInt8.ofNat (2 ^ 7 - 1) = 0x80 := rfl
  rw [hmask] at hhigh
  rw [hhigh]
  cases huff <;> rfl

/-- The states of the inflater for a string: `next` reads its length, and `finish` follows
when it has been read. -/
structure StringStates (check len huff raw : InflateState) (busy : Bool)
    (next finish : Inflater → Bytes → InflateStage) : Prop where
  check : ∀ (j : Inflater) inp, j.state = check → j.inflateStep inp = j.checkLen len inp next
  next : ∀ (j : Inflater) inp, next j inp = j.readLen inp 7 maxNv fun j t =>
    if j.huffmanEncoded then
      .next { j with huffDecodeCtx := HuffContext.init, state := huff } t busy
    else .next { j with state := raw } t busy
  huff : ∀ (j : Inflater) inp, j.state = huff → j.inflateStep inp = j.readString true inp finish
  raw : ∀ (j : Inflater) inp, j.state = raw → j.inflateStep inp = j.readString false inp finish

/-- The states for a name. -/
theorem nameStates : StringStates .newnameCheckNamelen .newnameReadNamelen .newnameReadNamehuff
    .newnameReadName false readNamelen finishName where
  check j inp h := by rw [inflateStep, h]
  next _ _ := rfl
  huff j inp h := by rw [inflateStep, h]
  raw j inp h := by rw [inflateStep, h]

/-- The states for a value. -/
theorem valueStates : StringStates .checkValuelen .readValuelen .readValuehuff .readValue true
    readValuelen finishValue where
  check j inp h := by rw [inflateStep, h]
  next _ _ := rfl
  huff j inp h := by rw [inflateStep, h]
  raw j inp h := by rw [inflateStep, h]

section StringStates

variable {check len huff raw : InflateState} {busy : Bool}
  {next finish : Inflater → Bytes → InflateStage}

section

variable (h : StringStates check len huff raw busy next finish)
include h

/-- The length in front of a string is read. -/
theorem StringStates.length (hstate : i.state = check) (coded : Bool) (hn : n < 2 ^ 32) :
    ∃ shift, i.inflateStep (encodeLength (if coded then 0x80 else 0) n 7 ++ t) =
      if maxNv < n then
        .fail (markBad { i with huffmanEncoded := coded, state := len, left := 0, shift := 0 })
          .headerComp
      else .next { i with
        huffmanEncoded := coded
        left := n
        shift := shift
        huffDecodeCtx := if coded then HuffContext.init else i.huffDecodeCtx
        state := if coded then huff else raw } t busy := by
  obtain ⟨x, l, henc, hcoded⟩ := encodeLength_huff coded n
  let j := { i with huffmanEncoded := coded, state := len, left := 0, shift := 0 }
  obtain ⟨shift, hlen⟩ := readLen_encodeLength (i := j) (t := t) maxNv
    (fun j t => if j.huffmanEncoded then
      .next { j with huffDecodeCtx := HuffContext.init, state := huff } t busy
      else .next { j with state := raw } t busy)
    (show 1 ≤ 7 ∧ 7 ≤ 8 by decide) hn (if coded then 0x80 else 0) rfl rfl
  refine ⟨shift, ?_⟩
  rw [h.check i _ hstate]
  rw [henc] at hlen ⊢
  rw [List.cons_append] at hlen ⊢
  rw [checkLen, hcoded, h.next, hlen]
  cases coded <;> rfl

/-- **A string is read** in two turns, if there is room for it. -/
theorem StringStates.fits (hstate : i.state = check) (hstr : emitString s = .ok b)
    (hfits : i.nvbufs.length + s.length ≤ maxNv) :
    ∃ x body, i.inflateStep (b ++ t) = .next x (body ++ t) busy ∧
      x.settingsHdTableBufsizeMax = i.settingsHdTableBufsizeMax ∧
      ∃ coded ctx shift, x.inflateStep (body ++ t) = finish { i with
        huffmanEncoded := coded
        huffDecodeCtx := ctx
        shift := shift
        left := 0
        state := if coded then huff else raw
        nvbufs := i.nvbufs ++ s } t := by
  have hmax : maxNv = 65536 := rfl
  rcases emitString_eq_ok hstr with ⟨-, rfl⟩ | ⟨hshort, rfl⟩
  · obtain ⟨shift, hlen⟩ := h.length (t := s ++ t) hstate false
      (show s.length < 2 ^ 32 by omega)
    rw [if_neg (show ¬maxNv < s.length by omega), ← List.append_assoc] at hlen
    refine ⟨_, s, hlen, rfl, false, i.huffDecodeCtx, shift, ?_⟩
    rw [h.raw _ _ rfl, readString_raw rfl, if_pos hfits]
    rfl
  obtain ⟨shift, hlen⟩ := h.length (t := huffEncode s ++ t) hstate true
    (show huffEncodeCount s < 2 ^ 32 by omega)
  rw [if_neg (show ¬maxNv < huffEncodeCount s by omega), ← List.append_assoc] at hlen
  refine ⟨_, huffEncode s, hlen, rfl, true, ?_⟩
  obtain ⟨ctx, hread⟩ := readString_huff (s := s) (t := t) finish (i := { i with
      huffmanEncoded := true
      huffDecodeCtx := HuffContext.init
      shift := shift
      left := huffEncodeCount s
      state := huff }) (length_huffEncode s).symm rfl (show i.nvbufs.length ≤ maxNv by omega)
  refine ⟨ctx, shift, ?_⟩
  rw [h.huff _ _ rfl]
  rw [if_pos hfits] at hread
  exact hread

/-- A string that is too large fails. -/
theorem StringStates.large (hstate : i.state = check) (hstr : emitString s = .ok b)
    (hlt : s.length < 2 ^ 32) (hbuf : i.nvbufs.length ≤ maxNv)
    (hlarge : maxNv < i.nvbufs.length + s.length) :
    ∃ x e, Run inflateStep i (b ++ t) false [] (.failed x e) := by
  have hpos : s ≠ [] := by
    rintro rfl
    rw [List.length_nil] at hlarge
    omega
  -- the length is too large, or the bytes that follow do not fit
  have hfail : ∀ (coded : Bool) {m : ℕ} {body : Bytes}, m < 2 ^ 32 → body ≠ [] →
      (∀ shift, ∃ x e, inflateStep { i with
        huffmanEncoded := coded
        left := m
        shift := shift
        huffDecodeCtx := if coded then HuffContext.init else i.huffDecodeCtx
        state := if coded then huff else raw } (body ++ t) = .fail x e) →
      ∃ x e, Run inflateStep i (encodeLength (if coded then 0x80 else 0) m 7 ++ (body ++ t))
        false [] (.failed x e) := by
    intro coded m body hm hbody hread
    obtain ⟨shift, hlen⟩ := h.length (t := body ++ t) hstate coded hm
    have hne : encodeLength (if coded then 0x80 else 0) m 7 ++ (body ++ t) ≠ [] := by
      simp [hbody]
    by_cases hover : maxNv < m
    · rw [if_pos hover] at hlen
      exact ⟨_, _, .fail (Or.inl hne) hlen⟩
    · rw [if_neg hover] at hlen
      obtain ⟨x, e, hx⟩ := hread shift
      exact ⟨x, e, .next (Or.inl hne) hlen (.fail (Or.inl (by simp [hbody])) hx)⟩
  rcases emitString_eq_ok hstr with ⟨-, rfl⟩ | ⟨hshort, rfl⟩
  · rw [List.append_assoc]
    refine hfail false hlt hpos fun shift => ?_
    rw [h.raw _ _ rfl, readString_raw rfl,
      if_neg (show ¬i.nvbufs.length + s.length ≤ maxNv by omega)]
    exact ⟨_, _, rfl⟩
  rw [List.append_assoc]
  obtain ⟨hfits, -⟩ | ⟨-, hloop⟩ := huffDecodeLoop_huffEncode i.nvbufs s hbuf
  · omega
  have hcode : huffEncode s ≠ [] := by
    intro hnil
    rw [hnil, huffDecodeLoop] at hloop
    cases hloop
  refine hfail true (by omega) hcode fun shift => ?_
  obtain ⟨ctx, hread⟩ := readString_huff (s := s) (t := t) finish (i := { i with
      huffmanEncoded := true
      huffDecodeCtx := HuffContext.init
      shift := shift
      left := huffEncodeCount s
      state := huff }) (length_huffEncode s).symm rfl hbuf
  rw [if_neg (show ¬i.nvbufs.length + s.length ≤ maxNv by omega)] at hread
  exact ⟨_, _, (h.huff _ _ rfl).trans hread⟩

end

end StringStates

/-! ## The first byte of a representation -/

/-- A representation starts here. -/
def AtField (i : Inflater) : Prop := i.state = .inflateStart ∨ i.state = .opcode

/-- A field begins with its first byte. -/
theorem AtField.step (h : i.AtField) (inp : Bytes) : i.inflateStep inp = i.readOpcode inp := by
  rcases h with h | h
  · rw [inflateStep, h]
  · rw [inflateStep, h]

/-- The first byte of an integer: its pattern, and bits of the integer that are not all zero. -/
theorem encodeLength_first (first mask : UInt8) (hw : 1 ≤ width ∧ width ≤ 7)
    (hmask : ~~~UInt8.ofNat (2 ^ width - 1) = mask) (hn : 0 < n) :
    ∃ x l, encodeLength first n width = x :: l ∧ x &&& mask = first &&& mask ∧
      x.toNat % 2 ^ width ≠ 0 := by
  obtain ⟨x, l, henc, hhigh, -, hint, -⟩ := encodeLength_spec ⟨hw.1, by omega⟩ first n
  have hpow : 2 ^ 1 ≤ 2 ^ width := Nat.pow_le_pow_right (by decide) hw.1
  refine ⟨x, l, henc, hmask ▸ hhigh, ?_⟩
  rw [hpackInt] at hint
  split_ifs at hint with hfull
  · have hsum := congrArg Groups.sum hint
    dsimp only at hsum
    omega
  · omega

/-- A fact about bytes can be checked. -/
theorem forall_byte {P : UInt8 → Prop} (h : ∀ k : Fin 256, P (UInt8.ofNat k)) (x : UInt8) :
    P x := by
  have hx := h ⟨x.toNat, x.toNat_lt⟩
  rwa [UInt8.ofNat_toNat] at hx

/-- What the first byte of a literal says. -/
def literalOf (i : Inflater) (op : Opcode) (mode : IndexingMode) : Inflater :=
  { i with
    opcode := op
    indexRequired := decide (mode = .withIndexing)
    noIndex := decide (mode = .neverIndexing) }

/-- The first byte of a literal with a new name. -/
theorem AtField.newname (h : i.AtField) (mode : IndexingMode) :
    i.inflateStep (packFirstByte mode :: t) = .next { i.literalOf .newname mode with
      state := .newnameCheckNamelen, left := 0, shift := 0 } t false := by
  rw [h.step]
  cases mode <;> rfl

/-- The first byte of a literal with an indexed name: it is not that of a new name, since the
index is not 0. -/
theorem indname_first (mode : IndexingMode) (hn : 0 < n) :
    ∃ x l, encodeLength (packFirstByte mode) n (if mode = .withIndexing then 6 else 4) = x :: l ∧
      x &&& 0xe0 ≠ 0x20 ∧ x &&& 0x80 = 0 ∧ ¬(x = 0x40 ∨ x = 0 ∨ x = 0x10) ∧
      (x &&& 0x40 != 0) = decide (mode = .withIndexing) ∧
      (x &&& 0xf0 == 0x10) = decide (mode = .neverIndexing) := by
  cases mode with
  | withIndexing =>
    obtain ⟨x, l, henc, hhigh, hlow⟩ := encodeLength_first 0x40 0xc0
      (show 1 ≤ 6 ∧ 6 ≤ 7 by decide) rfl hn
    refine ⟨x, l, henc, ?_⟩
    clear henc
    revert x
    exact forall_byte (by decide +kernel)
  | withoutIndexing =>
    obtain ⟨x, l, henc, hhigh, hlow⟩ := encodeLength_first 0 0xf0
      (show 1 ≤ 4 ∧ 4 ≤ 7 by decide) rfl hn
    refine ⟨x, l, henc, ?_⟩
    clear henc
    revert x
    exact forall_byte (by decide +kernel)
  | neverIndexing =>
    obtain ⟨x, l, henc, hhigh, hlow⟩ := encodeLength_first 0x10 0xf0
      (show 1 ≤ 4 ∧ 4 ≤ 7 by decide) rfl hn
    refine ⟨x, l, henc, ?_⟩
    clear henc
    revert x
    exact forall_byte (by decide +kernel)

/-- The first byte of a literal with an indexed name. -/
theorem AtField.indname (h : i.AtField) (mode : IndexingMode) (hn : 0 < n) :
    i.inflateStep (encodeLength (packFirstByte mode) n (if mode = .withIndexing then 6 else 4) ++
      t) = .next { i.literalOf .indname mode with state := .readIndex, left := 0, shift := 0 }
      (encodeLength (packFirstByte mode) n (if mode = .withIndexing then 6 else 4) ++ t)
      false := by
  obtain ⟨x, l, henc, hsize, hindexed, hnew, hrequired, hnever⟩ := indname_first mode hn
  rw [h.step, henc, List.cons_append, readOpcode, if_neg hsize, if_neg (not_not.2 hindexed),
    if_neg hnew, hrequired, hnever]
  rfl

/-- The first byte of an indexed field. -/
theorem AtField.indexed (h : i.AtField) :
    i.inflateStep (encodeLength 0x80 n 7 ++ t) = .next { i with
      opcode := .indexed, state := .readIndex, left := 0, shift := 0 }
      (encodeLength 0x80 n 7 ++ t) false := by
  obtain ⟨x, l, henc, hhigh, -⟩ := encodeLength_spec (show 1 ≤ 7 ∧ 7 ≤ 8 by decide) 0x80 n
  have hbyte : x &&& 0xe0 ≠ 0x20 ∧ x &&& 0x80 ≠ 0 := by
    clear henc
    revert x
    exact forall_byte (by decide +kernel)
  rw [h.step, henc, List.cons_append, readOpcode, if_neg hbyte.1, if_pos hbyte.2]

/-- The first byte of a change of the table size, which may only stand at the start of a
block. -/
theorem AtBlockStart.tableSize (h : i.AtBlockStart) :
    i.inflateStep (encodeLength 0x20 n 5 ++ t) = .next { i with
      opcode := .indexed, state := .readTableSize, left := 0, shift := 0 }
      (encodeLength 0x20 n 5 ++ t) false := by
  obtain ⟨x, l, henc, hhigh, -⟩ := encodeLength_spec (show 1 ≤ 5 ∧ 5 ≤ 8 by decide) 0x20 n
  have hbyte : x &&& 0xe0 = 0x20 := by
    clear henc
    revert x
    exact forall_byte (by decide +kernel)
  have hstate : i.state ≠ .opcode := by
    rcases h with h | h
    · rw [h]
      decide
    · rw [h]
      decide
  have hopcode : i.inflateStep (x :: (l ++ t)) = i.readOpcode (x :: (l ++ t)) := by
    rcases h with h | h
    · rw [inflateStep, h]
    · rw [inflateStep, h]
      dsimp only
      rw [expectTableSize, if_neg (not_not.2 hbyte)]
  rw [henc, List.cons_append, hopcode, readOpcode, if_pos hbyte, if_neg hstate]

/-! ## Fields -/

/-- With `b` and then `t` before it, the inflater emits `em` for `b`, has the table `c`
afterwards, and goes on with `t`. -/
def Reads (i : Inflater) (b t : Bytes) (em : Emitted) (c : Context) : Prop :=
  ∃ i', (i'.ctx = c ∧ i'.settingsHdTableBufsizeMax = i.settingsHdTableBufsizeMax ∧
      i'.state = .opcode ∧ i'.nvbufs = []) ∧
    ∀ {out r}, Run inflateStep i' t false out r → Run inflateStep i (b ++ t) false (em :: out) r

/-- The inflater fails at `b`. -/
def Fails (i : Inflater) (b t : Bytes) : Prop :=
  ∃ x e, Run inflateStep i (b ++ t) false [] (.failed x e)

variable {b' name : Bytes} {j : Inflater}

/-- One turn before. -/
theorem Reads.next {em : Emitted} {c : Context}
    (hstep : i.inflateStep (b ++ t) = .next j (b' ++ t) false) (hb : b ≠ [])
    (hlimit : j.settingsHdTableBufsizeMax = i.settingsHdTableBufsizeMax)
    (h : j.Reads b' t em c) : i.Reads b t em c := by
  obtain ⟨i', ⟨hctx, hlimit', hstate, hnv⟩, hrun⟩ := h
  exact ⟨i', ⟨hctx, hlimit'.trans hlimit, hstate, hnv⟩, fun hr =>
    .next (Or.inl (by simp [hb])) hstep (hrun hr)⟩

/-- The same for a failure. -/
theorem Fails.next (hstep : i.inflateStep (b ++ t) = .next j (b' ++ t) false) (hb : b ≠ [])
    (h : j.Fails b' t) : i.Fails b t := by
  obtain ⟨x, e, hrun⟩ := h
  exact ⟨x, e, .next (Or.inl (by simp [hb])) hstep hrun⟩

/-- A length takes at least a byte. -/
theorem encodeLength_ne_nil (first : UInt8) (n width : ℕ) : encodeLength first n width ≠ [] := by
  unfold encodeLength
  dsimp only
  split <;> exact List.cons_ne_nil _ _

/-- A string takes at least a byte. -/
theorem emitString_ne_nil (h : emitString s = .ok b) : b ≠ [] := by
  rcases emitString_eq_ok h with ⟨-, rfl⟩ | ⟨-, rfl⟩
  · simp [encodeLength_ne_nil]
  · simp [encodeLength_ne_nil]

/-- The field of a literal. -/
def literal (i : Inflater) (name value : Bytes) (token : Option ℕ) : Emitted :=
  if i.indexRequired then ⟨⟨name, value, false⟩, token⟩
  else ⟨⟨name, value, i.noIndex⟩, lookupToken name⟩

/-- The table after a literal. -/
def literalTable (i : Inflater) (name value : Bytes) (token : Option ℕ) : Context :=
  if i.indexRequired then i.ctx.addHdTableIncremental ⟨name, value, token⟩ else i.ctx

/-- What a literal emits and adds. -/
theorem commitLiteral_eq (i : Inflater) (name value : Bytes) (token : Option ℕ) :
    ∃ z, i.commitLiteral name value token = (z, i.literal name value token) ∧
      z.ctx = i.literalTable name value token ∧
      z.settingsHdTableBufsizeMax = i.settingsHdTableBufsizeMax ∧ z.nvbufs = [] := by
  unfold commitLiteral literal literalTable
  split
  · exact ⟨_, rfl, rfl, rfl, rfl⟩
  · exact ⟨_, rfl, rfl, rfl, rfl⟩

/-- **The value of a literal** is read, and the field is emitted. -/
theorem reads_value {token : Option ℕ} (hstate : i.state = .checkValuelen)
    (hstr : emitString s = .ok b) (hfits : i.nvbufs.length + s.length < maxNv)
    (hcommit : ∀ y : Inflater, y.opcode = i.opcode → y.newnamelen = i.newnamelen →
      y.index = i.index → y.ctx = i.ctx → y.nvbufs = i.nvbufs ++ s ++ [0] →
        y.commitValue = .ok (y.commitLiteral name s token)) :
    i.Reads b t (i.literal name s token) (i.literalTable name s token) := by
  obtain ⟨x, body, hlen, -, coded, ctx, shift, hread⟩ := valueStates.fits (t := t) hstate hstr
    hfits.le
  rw [finishValue, addb, if_pos (by rw [List.length_append]; exact hfits)] at hread
  let y : Inflater := { i with
    state := if coded then .readValuehuff else .readValue
    huffmanEncoded := coded
    huffDecodeCtx := ctx
    shift := shift
    left := 0
    nvbufs := i.nvbufs ++ s ++ [0] }
  obtain ⟨z, hz, hctx, hlimit, hnv⟩ := y.commitLiteral_eq name s token
  have hliteral := (hcommit y rfl rfl rfl rfl rfl).trans (congrArg Except.ok hz)
  dsimp only at hread
  rw [hliteral] at hread
  exact ⟨{ z with state := .opcode }, ⟨hctx, hlimit, rfl, hnv⟩, fun hr =>
    .next (Or.inl (by simp [emitString_ne_nil hstr])) hlen (.emit (Or.inr rfl) hread hr)⟩

/-- **A value that is too large fails.** -/
theorem fails_value (hstate : i.state = .checkValuelen) (hstr : emitString s = .ok b)
    (hlt : s.length < 2 ^ 32) (hbuf : i.nvbufs.length ≤ maxNv)
    (hlarge : maxNv ≤ i.nvbufs.length + s.length) : i.Fails b t := by
  rcases hlarge.lt_or_eq with hlarge | heq
  · exact valueStates.large hstate hstr hlt hbuf hlarge
  · -- the string fits, but not the zero byte behind it
    obtain ⟨x, body, hlen, -, coded, ctx, shift, hread⟩ := valueStates.fits (t := t) hstate hstr
      heq.ge
    rw [finishValue, addb, if_neg (by rw [List.length_append]; exact heq.le.not_gt)] at hread
    exact ⟨_, _, .next (Or.inl (by simp [emitString_ne_nil hstr])) hlen (.fail (Or.inr rfl) hread)⟩

section Representation

variable {nv : Nv} {mode : IndexingMode} {ent : Entry} {k : ℕ}

/-- An index is read back. -/
theorem readIndex_encodeLength (first : UInt8) (hwidth : i.indexWidth = width)
    (hleft : i.left = 0) (hshift : i.shift = 0) (hget : i.ctx.tableGet k = some ent)
    (hk : k + 1 < 2 ^ 32) :
    ∃ shift, i.readIndex (encodeLength first (k + 1) width ++ t) =
      if i.opcode = .indexed then
        .emit { i with left := k + 1, shift := shift, index := k, state := .opcode } t
          ⟨⟨ent.name, ent.value, false⟩, ent.token⟩
      else .next { i with left := k + 1, shift := shift, index := k, state := .checkValuelen } t
        false := by
  have hw : 1 ≤ width ∧ width ≤ 8 := by
    rw [← hwidth, indexWidth]
    split_ifs <;> decide
  have hmax := lt_of_tableGet hget
  have hle : ¬i.ctx.getMaxIndex + 1 < k + 1 := by
    rw [Context.getMaxIndex]
    omega
  unfold readIndex
  rw [hwidth]
  obtain ⟨shift, hlen⟩ := readLen_encodeLength (i := i) (t := t)
    (i.ctx.getMaxIndex + 1) _ hw hk first hleft hshift
  refine ⟨shift, hlen.trans ?_⟩
  rw [if_neg hle, if_neg (Nat.succ_ne_zero k)]
  simp only [Nat.add_sub_cancel, commitIndexed, hget]

/-- **An indexed field is read back.** -/
theorem AtField.reads_indexed (h : i.AtField) (hnv : i.nvbufs = [])
    (hget : i.ctx.tableGet k = some ent) (hk : k + 1 < 2 ^ 32)
    (hrep : emitIndexedBlock k = .ok b) :
    i.Reads b t ⟨⟨ent.name, ent.value, false⟩, ent.token⟩ i.ctx := by
  obtain rfl := emitLength_eq_ok hrep
  have hne := encodeLength_ne_nil 0x80 (k + 1) 7
  obtain ⟨shift, hread⟩ := readIndex_encodeLength (t := t) (i := { i with
    opcode := .indexed, state := .readIndex, left := 0, shift := 0 }) 0x80 rfl rfl rfl hget hk
  rw [if_pos rfl] at hread
  refine ⟨_, ⟨?_, ?_, ?_, ?_⟩, fun hr => .next (Or.inl (by simp [hne])) h.indexed
    (.emit (Or.inl (by simp [hne])) hread hr)⟩
  exacts [rfl, rfl, rfl, hnv]

/-- The inflater in front of the value of a literal whose name is an entry. -/
theorem AtField.indname_index (h : i.AtField) (hget : i.ctx.tableGet k = some ent)
    (hk : k + 1 < 2 ^ 32) {block : Bytes} (value : Bytes)
    (hblock : emitLength (packFirstByte mode) (k + 1) (if mode = .withIndexing then 6 else 4) =
      .ok block) :
    ∃ j : Inflater, (∃ shift, j = { i.literalOf .indname mode with
        state := .checkValuelen, left := k + 1, shift := shift, index := k }) ∧
      (∀ {em c}, j.Reads value t em c → i.Reads (block ++ value) t em c) ∧
      (j.Fails value t → i.Fails (block ++ value) t) := by
  obtain rfl := emitLength_eq_ok hblock
  have hne := encodeLength_ne_nil (packFirstByte mode) (k + 1)
    (if mode = .withIndexing then 6 else 4)
  let j : Inflater := { i.literalOf .indname mode with state := .readIndex, left := 0, shift := 0 }
  have hwidth : j.indexWidth = if mode = .withIndexing then 6 else 4 := by
    cases mode <;> rfl
  have hfirst := h.indname (t := value ++ t) mode (Nat.succ_pos k)
  obtain ⟨shift, hread⟩ := readIndex_encodeLength (i := j) (t := value ++ t)
    (packFirstByte mode) hwidth rfl rfl hget hk
  rw [if_neg (show ¬j.opcode = .indexed from nofun)] at hread
  rw [← List.append_assoc] at hfirst hread
  refine ⟨_, ⟨shift, rfl⟩, fun hr => ?_, fun hf => ?_⟩
  · exact Reads.next hfirst (by simp [hne]) rfl (Reads.next hread (by simp [hne]) rfl hr)
  · exact Fails.next hfirst (by simp [hne]) (Fails.next hread (by simp [hne]) hf)

/-- The field that a literal stands for. -/
def emittedOf (mode : IndexingMode) (name value : Bytes) (token : Option ℕ) : Emitted :=
  if mode = .withIndexing then ⟨⟨name, value, false⟩, token⟩
  else ⟨⟨name, value, decide (mode = .neverIndexing)⟩, lookupToken name⟩

/-- The table after a literal of this mode. -/
def tableOf (c : Context) (mode : IndexingMode) (ent : Entry) : Context :=
  if mode = .withIndexing then c.addHdTableIncremental ent else c

/-- What a literal emits. -/
theorem literal_literalOf (op : Opcode) (name value : Bytes) (token : Option ℕ) :
    (i.literalOf op mode).literal name value token = emittedOf mode name value token := by
  simp [literal, literalOf, emittedOf]

/-- What a literal adds to the table. -/
theorem literalTable_literalOf (op : Opcode) (name value : Bytes) (token : Option ℕ) :
    (i.literalOf op mode).literalTable name value token =
      tableOf i.ctx mode ⟨name, value, token⟩ := by
  simp [literalTable, literalOf, tableOf]

/-- **A literal with an indexed name is read back.** -/
theorem AtField.reads_indname (h : i.AtField) (hnv : i.nvbufs = [])
    (hget : i.ctx.tableGet k = some ent) (hk : k + 1 < 2 ^ 32)
    (hfits : nv.value.length < maxNv) (hrep : emitIndnameBlock k nv mode = .ok b) :
    i.Reads b t (emittedOf mode ent.name nv.value ent.token)
      (tableOf i.ctx mode ⟨ent.name, nv.value, ent.token⟩) := by
  obtain ⟨block, value, hblock, hvalue, rfl⟩ := emitIndnameBlock_eq_ok.1 hrep
  obtain ⟨j, ⟨shift, rfl⟩, hreads, -⟩ := h.indname_index (t := t) hget hk value hblock
  rw [← literal_literalOf (i := i) .indname, ← literalTable_literalOf .indname]
  apply hreads
  apply reads_value rfl hvalue
  · show i.nvbufs.length + nv.value.length < maxNv
    rwa [hnv, List.length_nil, Nat.zero_add]
  · intro y (hop : y.opcode = .indname) _ (hidx : y.index = k) (hctx : y.ctx = i.ctx)
      (hbuf : y.nvbufs = i.nvbufs ++ nv.value ++ [0])
    rw [commitValue, hop, if_neg nofun, commitIndname, hctx, hidx, hget, hbuf, hnv]
    simp

/-- Its value may be too large. -/
theorem AtField.fails_indname (h : i.AtField) (hnv : i.nvbufs = [])
    (hget : i.ctx.tableGet k = some ent) (hk : k + 1 < 2 ^ 32) (hlt : nv.value.length < 2 ^ 32)
    (hlarge : maxNv ≤ nv.value.length) (hrep : emitIndnameBlock k nv mode = .ok b) :
    i.Fails b t := by
  obtain ⟨block, value, hblock, hvalue, rfl⟩ := emitIndnameBlock_eq_ok.1 hrep
  obtain ⟨j, ⟨shift, rfl⟩, -, hfails⟩ := h.indname_index (t := t) hget hk value hblock
  have hbuf : i.nvbufs.length = 0 := by rw [hnv, List.length_nil]
  apply hfails
  apply fails_value rfl hvalue hlt
  · show i.nvbufs.length ≤ maxNv
    omega
  · show maxNv ≤ i.nvbufs.length + nv.value.length
    omega

/-- The inflater in front of the value of a literal with a new name. -/
theorem AtField.newname_name (h : i.AtField) (mode : IndexingMode) (hnv : i.nvbufs = [])
    {value : Bytes} (hname : emitString nv.name = .ok name) (hvalue : value ≠ [])
    (hfits : nv.name.length < maxNv) :
    ∃ j : Inflater, (∃ coded ctx shift, j = { i.literalOf .newname mode with
        huffmanEncoded := coded
        huffDecodeCtx := ctx
        shift := shift
        left := 0
        state := .checkValuelen
        newnamelen := nv.name.length
        nvbufs := nv.name ++ [0] }) ∧
      (∀ {em c}, j.Reads value t em c →
        i.Reads (packFirstByte mode :: (name ++ value)) t em c) ∧
      (j.Fails value t → i.Fails (packFirstByte mode :: (name ++ value)) t) := by
  let x : Inflater := { i.literalOf .newname mode with
    state := .newnameCheckNamelen, left := 0, shift := 0 }
  have hfirst := h.newname (t := name ++ value ++ t) mode
  have hlimit : i.nvbufs.length + nv.name.length ≤ maxNv := by
    rw [hnv, List.length_nil]
    omega
  have hbuf : i.nvbufs ++ nv.name = nv.name := by rw [hnv, List.nil_append]
  obtain ⟨y, body, hlen, hy, coded, ctx, shift, hread⟩ := nameStates.fits (i := x)
    (t := value ++ t) rfl hname hlimit
  rw [show x.nvbufs ++ nv.name = nv.name from hbuf, finishName, addb, if_pos hfits] at hread
  rw [← List.append_assoc, ← List.append_assoc] at hlen
  rw [← List.append_assoc] at hread
  have hne : name ++ value ≠ [] := List.append_ne_nil_of_right_ne_nil _ hvalue
  have hne' : body ++ value ≠ [] := List.append_ne_nil_of_right_ne_nil _ hvalue
  refine ⟨_, ⟨coded, ctx, shift, rfl⟩, fun hr => ?_, fun hf => ?_⟩
  · exact Reads.next hfirst (List.cons_ne_nil _ _) rfl
      (Reads.next hlen hne hy (Reads.next hread hne' hy.symm hr))
  · exact Fails.next hfirst (List.cons_ne_nil _ _) (Fails.next hlen hne (Fails.next hread hne' hf))

/-- **A literal with a new name is read back.** -/
theorem AtField.reads_newname (h : i.AtField) (hnv : i.nvbufs = [])
    (hfits : nv.name.length + nv.value.length + 1 < maxNv)
    (hrep : emitNewnameBlock nv mode = .ok b) :
    i.Reads b t (emittedOf mode nv.name nv.value (lookupToken nv.name))
      (tableOf i.ctx mode ⟨nv.name, nv.value, lookupToken nv.name⟩) := by
  obtain ⟨name, value, hname, hvalue, rfl⟩ := emitNewnameBlock_eq_ok.1 hrep
  obtain ⟨j, ⟨coded, ctx, shift, rfl⟩, hreads, -⟩ := h.newname_name (t := t) mode
    hnv hname (emitString_ne_nil hvalue) (by omega)
  rw [← literal_literalOf (i := i) .newname, ← literalTable_literalOf .newname]
  apply hreads
  apply reads_value rfl hvalue
  · show (nv.name ++ [0]).length + nv.value.length < maxNv
    rw [List.length_append, List.length_singleton]
    omega
  intro y (hop : y.opcode = .newname) (hlen : y.newnamelen = nv.name.length) _ _
    (hbuf : y.nvbufs = nv.name ++ [0] ++ nv.value ++ [0])
  have htake : y.nvbufs.take y.newnamelen = nv.name := by
    rw [hbuf, hlen, List.append_assoc, List.append_assoc, List.take_left]
  have hdrop : (y.nvbufs.drop (y.newnamelen + 1)).dropLast = nv.value := by
    rw [hbuf, hlen, List.append_assoc,
      List.drop_left' (by rw [List.length_append, List.length_singleton]), List.dropLast_concat]
  rw [commitValue, hop, if_pos rfl, commitNewname, htake, hdrop]

/-- It may be too large. -/
theorem AtField.fails_newname (h : i.AtField) (hnv : i.nvbufs = [])
    (hname : nv.name.length < 2 ^ 32) (hvalue : nv.value.length < 2 ^ 32)
    (hlarge : maxNv ≤ nv.name.length + nv.value.length + 1)
    (hrep : emitNewnameBlock nv mode = .ok b) : i.Fails b t := by
  obtain ⟨name, value, hn, hv, rfl⟩ := emitNewnameBlock_eq_ok.1 hrep
  by_cases hfits : nv.name.length < maxNv
  · obtain ⟨j, ⟨coded, ctx, shift, rfl⟩, -, hfails⟩ := h.newname_name (t := t) mode
      hnv hn (emitString_ne_nil hv) hfits
    apply hfails
    apply fails_value rfl hv hvalue
    · show (nv.name ++ [0]).length ≤ maxNv
      rw [List.length_append, List.length_singleton]
      omega
    · show maxNv ≤ (nv.name ++ [0]).length + nv.value.length
      rw [List.length_append, List.length_singleton]
      omega
  -- there is no room for the name, or none for the zero byte behind it
  have hfirst := h.newname (t := name ++ value ++ t) mode
  have hne : name ++ value ≠ [] := List.append_ne_nil_of_right_ne_nil _ (emitString_ne_nil hv)
  refine Fails.next hfirst (List.cons_ne_nil _ _) ?_
  let x : Inflater := { i.literalOf .newname mode with
    state := .newnameCheckNamelen, left := 0, shift := 0 }
  have hlen : x.nvbufs.length = 0 := by
    show i.nvbufs.length = 0
    rw [hnv, List.length_nil]
  have hbuf : x.nvbufs ++ nv.name = nv.name := by
    rw [List.eq_nil_of_length_eq_zero hlen, List.nil_append]
  rcases (not_lt.1 hfits).lt_or_eq with hlt | heq
  · obtain ⟨y, e, hrun⟩ := nameStates.large (i := x) (t := value ++ t) rfl hn hname
      (by omega) (by omega)
    rw [← List.append_assoc] at hrun
    exact ⟨y, e, hrun⟩
  · obtain ⟨y, body, hstep, -, coded, ctx, shift, hread⟩ := nameStates.fits (i := x)
      (t := value ++ t) rfl hn (by omega)
    rw [hbuf, finishName, addb, if_neg hfits] at hread
    rw [← List.append_assoc] at hstep
    exact ⟨_, _, .next (Or.inl (List.append_ne_nil_of_left_ne_nil hne t)) hstep
      (.fail (Or.inl (by simp [emitString_ne_nil hv])) hread)⟩

end Representation

end Inflater

/-! ## What was deflated -/

/-- A table that is in order, with a limit of 32 bits. -/
structure Context.Healthy (c : Context) : Prop where
  tokens : c.Tokens
  sound : c.Sound
  max_lt : c.hdTableBufsizeMax < 2 ^ 32
  bad : c.bad = false

/-- An index fits into 32 bits. -/
theorem Context.Healthy.index_lt {c : Context} (h : c.Healthy) {k : ℕ} {ent : Entry}
    (hk : c.tableGet k = some ent) : k + 1 < 2 ^ 32 := by
  have hlt := lt_of_tableGet hk
  have hle := h.sound.length_le
  have hmax := h.max_lt
  have hstatic : staticTableLength = 61 := rfl
  omega

/-- What the inflater emits for a field. -/
def Nv.emitted (nv : Nv) : Emitted :=
  ⟨⟨nv.name, nv.value, decide nv.NeverIndexed⟩, lookupToken nv.name⟩

namespace Deflater

variable {d d' : Deflater} {i : Inflater} {nv : Nv} {l : List Nv} {b t : Bytes}

/-- There is room for the field in the buffer of the inflater, with a zero byte behind each
string.  An indexed field or name does not go through it. -/
def Decodes (d : Deflater) (nv : Nv) : Prop :=
  match searchHdTable d.ctx nv (lookupToken nv.name) (d.indexingMode nv (lookupToken nv.name)) with
  | .nameValueMatch _ => True
  | .nameMatch _ => nv.value.length < maxNv
  | .notFound => nv.name.length + nv.value.length + 1 < maxNv

/-- The table stays healthy. -/
theorem healthy_addNv (h : d.ctx.Healthy) {idx : Option ℕ} {mode : IndexingMode}
    (hname : d.entryName nv idx = nv.name) :
    (d.addNv nv (lookupToken nv.name) idx mode).ctx.Healthy := by
  have htokens : (d.addNv nv (lookupToken nv.name) idx mode).ctx.Tokens :=
    tokens_addNv h.tokens hname
  unfold addNv at htokens ⊢
  by_cases hmode : mode = .withIndexing
  · rw [if_pos hmode] at htokens ⊢
    exact ⟨htokens, h.sound.addHdTableIncremental _,
      (h.sound.addHdTableIncremental_max _).trans_lt h.max_lt, by simpa using h.bad⟩
  · rw [if_neg hmode]
    exact h

/-- **Deflating a field keeps the table healthy.** -/
theorem healthy_deflateNv (h : d.ctx.Healthy) (nv : Nv) : (d.deflateNv nv).1.ctx.Healthy := by
  unfold deflateNv
  dsimp only
  split
  · exact h
  · next hres => exact healthy_addNv h (entryName_eq h.tokens hres)
  · exact healthy_addNv h rfl

/-- The field that went in comes out. -/
theorem emittedOf_eq (d : Deflater) (nv : Nv) :
    Inflater.emittedOf (d.indexingMode nv (lookupToken nv.name)) nv.name nv.value
      (lookupToken nv.name) = nv.emitted := by
  have hnever : d.indexingMode nv (lookupToken nv.name) = .neverIndexing ↔ nv.NeverIndexed :=
    indexingMode_eq_never
  unfold Inflater.emittedOf Nv.emitted
  simp only [hnever]
  split
  · next hmode =>
    rw [hmode] at hnever
    rw [decide_eq_false (fun hn => nomatch hnever.2 hn)]
  · rfl

/-- **A field that was deflated is read back**, and the inflater adds the entry that the
deflater has added. -/
theorem reads_deflateNv (hfield : i.AtField) (hnv : i.nvbufs = []) (hctx : i.ctx = d.ctx)
    (h : d.ctx.Healthy) (hdecodes : d.Decodes nv) (hrep : d.deflateNv nv = (d', .ok b)) :
    i.Reads b t nv.emitted d'.ctx := by
  have hmode := d.emittedOf_eq nv
  unfold Decodes at hdecodes
  unfold deflateNv at hrep
  dsimp only at hrep
  rcases hres : searchHdTable d.ctx nv (lookupToken nv.name)
    (d.indexingMode nv (lookupToken nv.name)) with _ | k | k
  · rw [hres] at hrep hdecodes
    obtain ⟨rfl, hb⟩ := Prod.mk.inj hrep
    have hread := hfield.reads_newname (t := t) hnv hdecodes hb
    rw [hmode, hctx] at hread
    convert hread using 1
    unfold addNv Inflater.tableOf
    split <;> rfl
  · rw [hres] at hrep hdecodes
    obtain ⟨rfl, hb⟩ := Prod.mk.inj hrep
    obtain ⟨ent, hget, hmatch⟩ := searchHdTable_nameMatch hres
    have htoken := tokens_of_tableGet h.tokens hget
    have hname := (matches_iff htoken).1 hmatch
    have hread := hfield.reads_indname (t := t) hnv (hctx ▸ hget) (h.index_lt hget) hdecodes hb
    rw [htoken, hname, hmode, hctx] at hread
    convert hread using 1
    unfold addNv Inflater.tableOf
    rw [entryName_eq h.tokens hres]
    split <;> rfl
  rw [hres] at hrep
  obtain ⟨rfl, hb⟩ := Prod.mk.inj hrep
  obtain ⟨ent, hget, hmatch, hvalue⟩ := searchHdTable_nameValueMatch hres
  have htoken := tokens_of_tableGet h.tokens hget
  have hname := (matches_iff htoken).1 hmatch
  have hread := hfield.reads_indexed (t := t) hnv (hctx ▸ hget) (h.index_lt hget) hb
  have hnever : ¬nv.NeverIndexed := fun hn => by
    rw [indexingMode_eq_never.2 hn] at hres
    exact (searchHdTable_never d.ctx (rfl : nv.name = nv.name) _).2 k hres
  rw [htoken, hname, hvalue, hctx] at hread
  rwa [Nv.emitted, decide_eq_false hnever]

/-- **A field that is too large fails.** -/
theorem fails_deflateNv (hfield : i.AtField) (hnv : i.nvbufs = []) (hctx : i.ctx = d.ctx)
    (h : d.ctx.Healthy) (hname : nv.name.length < 2 ^ 32) (hvalue : nv.value.length < 2 ^ 32)
    (hdecodes : ¬d.Decodes nv) (hrep : d.deflateNv nv = (d', .ok b)) : i.Fails b t := by
  unfold Decodes at hdecodes
  unfold deflateNv at hrep
  dsimp only at hrep
  rcases hres : searchHdTable d.ctx nv (lookupToken nv.name)
    (d.indexingMode nv (lookupToken nv.name)) with _ | k | k
  · rw [hres] at hrep hdecodes
    exact hfield.fails_newname hnv hname hvalue (not_lt.1 hdecodes) (Prod.mk.inj hrep).2
  · rw [hres] at hrep hdecodes
    obtain ⟨ent, hget, -⟩ := searchHdTable_nameMatch hres
    exact hfield.fails_indname hnv (hctx ▸ hget) (h.index_lt hget) hvalue (not_lt.1 hdecodes)
      (Prod.mk.inj hrep).2
  · rw [hres] at hdecodes
    exact absurd trivial hdecodes

/-- There is room for each of the fields. -/
def DecodesAll : Deflater → List Nv → Prop
  | _, [] => True
  | d, nv :: l => d.Decodes nv ∧ (d.deflateNv nv).1.DecodesAll l

/-- Fields that have at most 65534 bytes can always be read. -/
theorem decodesAll_of_short : ∀ {l : List Nv} {d : Deflater},
    (∀ nv ∈ l, nv.name.length + nv.value.length ≤ 65534) → d.DecodesAll l
  | [], _, _ => trivial
  | nv :: l, d, h => by
    have hshort := h nv List.mem_cons_self
    have hmax : maxNv = 65536 := rfl
    refine ⟨?_, decodesAll_of_short fun nv hnv => h nv (List.mem_cons_of_mem _ hnv)⟩
    unfold Decodes
    split
    · trivial
    · omega
    · omega

/-- The first field and the others. -/
theorem deflateNvs_cons_ok {f : List Bytes} (h : d.deflateNvs (nv :: l) = (d', .ok f)) :
    ∃ d1 b f', d.deflateNv nv = (d1, .ok b) ∧ d1.deflateNvs l = (d', .ok f') ∧ f = b :: f' := by
  rw [deflateNvs] at h
  rcases hres : d.deflateNv nv with ⟨d1, r⟩
  rw [hres] at h
  cases r with
  | error e => cases h
  | ok b =>
    dsimp only at h
    rcases hrest : d1.deflateNvs l with ⟨d2, r⟩
    rw [hrest] at h
    obtain ⟨rfl, hmap⟩ := Prod.mk.inj h
    obtain ⟨f', rfl, rfl⟩ := map_eq_ok.1 hmap
    exact ⟨d1, b, f', rfl, hrest, rfl⟩

/-- **The fields of a block are read back**, one after the other. -/
theorem run_deflateNvs :
    ∀ {l : List Nv} {d d' : Deflater} {i : Inflater} {f : List Bytes}, i.AtField → i.nvbufs = [] →
      i.ctx = d.ctx → d.ctx.Healthy → d.DecodesAll l → d.deflateNvs l = (d', .ok f) →
      ∃ i', i'.ctx = d'.ctx ∧ i'.settingsHdTableBufsizeMax = i.settingsHdTableBufsizeMax ∧
        i'.nvbufs = [] ∧ (i'.state = if l = [] then i.state else .opcode) ∧
        ∀ {out r}, Run Inflater.inflateStep i' t false out r →
          Run Inflater.inflateStep i (f.flatten ++ t) false (l.map Nv.emitted ++ out) r
  | [], d, d', i, f, _, hnv, hctx, _, _, hrep => by
    obtain ⟨rfl, hf⟩ := Prod.mk.inj hrep
    cases hf
    exact ⟨i, hctx, rfl, hnv, rfl, fun hr => hr⟩
  | nv :: l, d, d', i, f, hfield, hnv, hctx, h, hdecodes, hrep => by
    obtain ⟨d1, b, f', hb, hf, rfl⟩ := deflateNvs_cons_ok hrep
    obtain ⟨hfirst, hrest⟩ := hdecodes
    have hhealthy := healthy_deflateNv h nv
    rw [hb] at hrest hhealthy
    obtain ⟨j, ⟨hjctx, hjlimit, hjstate, hjnv⟩, hread⟩ := reads_deflateNv (t := f'.flatten ++ t)
      hfield hnv hctx h hfirst hb
    obtain ⟨i', hictx, hilimit, hinv, histate, hrun⟩ := run_deflateNvs (Or.inr hjstate) hjnv
      hjctx hhealthy hrest hf
    refine ⟨i', hictx, hilimit.trans hjlimit, hinv, ?_, fun hr => ?_⟩
    · rw [if_neg (List.cons_ne_nil nv l), histate]
      split
      · exact hjstate
      · rfl
    · rw [List.flatten_cons, List.append_assoc]
      exact hread (hrun hr)

/-- A field for which there is no room ends the reading. -/
theorem fails_deflateNvs :
    ∀ {l : List Nv} {d d' : Deflater} {i : Inflater} {f : List Bytes}, i.AtField → i.nvbufs = [] →
      i.ctx = d.ctx → d.ctx.Healthy →
      (∀ nv ∈ l, nv.name.length < 2 ^ 32 ∧ nv.value.length < 2 ^ 32) → ¬d.DecodesAll l →
      d.deflateNvs l = (d', .ok f) →
      ∃ out x e, Run Inflater.inflateStep i (f.flatten ++ t) false out (.failed x e)
  | [], _, _, _, _, _, _, _, _, _, hdecodes, _ => absurd trivial hdecodes
  | nv :: l, d, d', i, f, hfield, hnv, hctx, h, hlt, hdecodes, hrep => by
    obtain ⟨d1, b, f', hb, hf, rfl⟩ := deflateNvs_cons_ok hrep
    have hhealthy := healthy_deflateNv h nv
    rw [hb] at hhealthy
    rw [List.flatten_cons, List.append_assoc]
    by_cases hfirst : d.Decodes nv
    · have hrest : ¬d1.DecodesAll l := fun hall => hdecodes ⟨hfirst, by rw [hb]; exact hall⟩
      obtain ⟨j, ⟨hjctx, -, hjstate, hjnv⟩, hread⟩ := reads_deflateNv (t := f'.flatten ++ t)
        hfield hnv hctx h hfirst hb
      obtain ⟨out, x, e, hrun⟩ := fails_deflateNvs (Or.inr hjstate) hjnv hjctx hhealthy
        (fun nv hmem => hlt nv (List.mem_cons_of_mem _ hmem)) hrest hf
      exact ⟨_, x, e, hread hrun⟩
    · obtain ⟨hname, hvalue⟩ := hlt nv List.mem_cons_self
      obtain ⟨x, e, hrun⟩ := fails_deflateNv (t := f'.flatten ++ t) hfield hnv hctx h hname
        hvalue hfirst hb
      exact ⟨[], x, e, hrun⟩

end Deflater

end Nghttp2.Hd
