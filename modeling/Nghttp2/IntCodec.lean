/-
# Integers of HPACK

An integer is written as a prefix of the first byte and, if it does not fit there, in
groups of seven bits, the least significant first.  `decode_length` reads it in parts: it
keeps the value so far and the shift of the next group.

* `groups`, `hpackInt`: the value of a byte string, whatever its size;
* `decodeLoop_exact`: as long as no shift reaches 32, `decode_length` computes that value;
* `exact_iff_of_reading`: a shift reaches 32 for integers with more than five groups, and
  only for them;
* `decode_encodeLength`: what `encode_length` writes is read, in any parts.
-/
import Nghttp2.Hpack

namespace Nghttp2.Hd

/-! ## The value of a byte string -/

/-- An integer that has been read: its value, whether it is complete, and the rest of the
input. -/
structure Groups where
  sum : ℕ
  complete : Bool
  rest : Bytes
deriving DecidableEq, Repr

/-- Groups of seven bits, up to a byte with a clear first bit. -/
def groups : Bytes → Groups
  | [] => ⟨0, false, []⟩
  | b :: l =>
    if b.toNat < 128 then ⟨b.toNat, true, l⟩
    else ⟨b.toNat % 128 + 128 * (groups l).sum, (groups l).complete, (groups l).rest⟩

/-- The integer that a byte string starts with. -/
def hpackInt (width : ℕ) : Bytes → Groups
  | [] => ⟨0, false, []⟩
  | b :: l =>
    if b.toNat % 2 ^ width ≠ 2 ^ width - 1 then ⟨b.toNat % 2 ^ width, true, l⟩
    else ⟨2 ^ width - 1 + (groups l).sum, (groups l).complete, (groups l).rest⟩

/-! ## One group -/

theorem toNat_and_low (b : UInt8) : (b.toUInt32 &&& 0x7f).toNat = b.toNat % 128 := by
  rw [UInt32.toNat_and, UInt8.toNat_toUInt32]
  exact Nat.and_two_pow_sub_one_eq_mod b.toNat 7

theorem and_top_eq_zero (b : UInt8) : b &&& 0x80 = 0 ↔ b.toNat < 128 := by
  have htable : ∀ i : Fin 256, UInt8.ofNat i &&& 0x80 = 0 ↔ i.val < 128 := by
    decide +kernel
  simpa using htable ⟨b.toNat, b.toNat_lt⟩

variable {n shift : ℕ}

/-- The test before the shift. -/
theorem shiftRight_lt_iff (hshift : shift < 32) (add : UInt32) :
    0xffffffff >>> UInt32.ofNat shift < add ↔ 2 ^ 32 ≤ add.toNat * 2 ^ shift := by
  have hmod : (UInt32.ofNat shift).toNat % 32 = shift := by
    rw [UInt32.toNat_ofNat']
    omega
  have hpos : 0 < 2 ^ shift := Nat.two_pow_pos shift
  rw [UInt32.lt_iff_toNat_lt, UInt32.toNat_shiftRight, hmod, Nat.shiftRight_eq_div_pow]
  show (2 ^ 32 - 1) / 2 ^ shift < add.toNat ↔ _
  rw [Nat.div_lt_iff_lt_mul hpos]
  omega

theorem toNat_shiftLeft_of_lt (hshift : shift < 32) {add : UInt32}
    (h : add.toNat * 2 ^ shift < 2 ^ 32) :
    (add <<< UInt32.ofNat shift).toNat = add.toNat * 2 ^ shift := by
  have hmod : (UInt32.ofNat shift).toNat % 32 = shift := by
    rw [UInt32.toNat_ofNat']
    omega
  rw [UInt32.toNat_shiftLeft, hmod, Nat.shiftLeft_eq, Nat.mod_eq_of_lt h]

/-- The test before the addition. -/
theorem sub_lt_iff (add n : UInt32) : 0xffffffff - add < n ↔ 2 ^ 32 ≤ n.toNat + add.toNat := by
  have hadd := add.toNat_lt
  rw [UInt32.lt_iff_toNat_lt, UInt32.toNat_sub]
  simp
  omega

/-- The value after one group, with the two tests of `decode_length`. -/
def addGroup (n : UInt32) (shift : ℕ) (b : UInt8) : Option UInt32 :=
  let add := b.toUInt32 &&& 0x7f
  if 0xffffffff >>> UInt32.ofNat shift < add then none
  else
    let add := add <<< UInt32.ofNat shift
    if 0xffffffff - add < n then none else some (n + add)

/-- **One group**, in numbers: the value grows by the group times the weight of its place,
unless it gets too large. -/
theorem addGroup_eq (hshift : shift < 32) (n : UInt32) (b : UInt8) :
    addGroup n shift b = if 2 ^ 32 ≤ n.toNat + b.toNat % 128 * 2 ^ shift then none
      else some (UInt32.ofNat (n.toNat + b.toNat % 128 * 2 ^ shift)) := by
  unfold addGroup
  dsimp only
  rw [← toNat_and_low]
  set add := b.toUInt32 &&& 0x7f
  by_cases hover : 2 ^ 32 ≤ add.toNat * 2 ^ shift
  · rw [if_pos ((shiftRight_lt_iff hshift add).2 hover), if_pos (by omega)]
  rw [if_neg (mt (shiftRight_lt_iff hshift add).1 hover)]
  have hval := toNat_shiftLeft_of_lt hshift (not_le.1 hover)
  by_cases hsum : 2 ^ 32 ≤ n.toNat + add.toNat * 2 ^ shift
  · rw [if_pos ((sub_lt_iff _ n).2 (hval ▸ hsum)), if_pos hsum]
  · have hnot : ¬ 0xffffffff - add <<< UInt32.ofNat shift < n :=
      mt (sub_lt_iff _ n).1 (hval ▸ hsum)
    rw [if_neg hnot, if_neg hsum]
    congr 1
    apply UInt32.toNat_inj.1
    rw [toNat_add_of_le hnot, hval, UInt32.toNat_ofNat', Nat.mod_eq_of_lt (not_le.1 hsum)]

theorem decodeLoop_cons (n : UInt32) (shift : ℕ) (b : UInt8) (l : Bytes) :
    decodeLoop n shift (b :: l) = (addGroup n shift b).bind fun n' =>
      if b.toNat < 128 then some ⟨n', shift, true, l⟩ else decodeLoop n' (shift + 7) l := by
  rw [decodeLoop, addGroup]
  dsimp only
  simp only [and_top_eq_zero]
  split
  · rfl
  · split
    · rfl
    · rfl

/-! ## The shifts that are evaluated -/

/-- The shifts that the loop of `decode_length` evaluates. -/
def loopShifts (n : UInt32) (shift : ℕ) : Bytes → List ℕ
  | [] => []
  | b :: l =>
    shift :: match addGroup n shift b with
      | none => []
      | some n' => if b &&& 0x80 = 0 then [] else loopShifts n' (shift + 7) l

/-- The shifts that `decode_length` evaluates. -/
def decodeShifts (initial : UInt32) (shift : ℕ) (inp : Bytes) (width : ℕ) : List ℕ :=
  let k := UInt32.ofNat (2 ^ width - 1)
  if initial = 0 then
    match inp with
    | [] => []
    | b :: l => if b.toUInt32 &&& k ≠ k then [] else loopShifts k shift l
  else loopShifts initial shift inp

/-- **The loop computes the value**, as long as no shift reaches 32. -/
theorem decodeLoop_exact : ∀ (l : Bytes) (n : UInt32) (shift : ℕ),
    (∀ s ∈ loopShifts n shift l, s < 32) →
    (decodeLoop n shift l = none ↔ 2 ^ 32 ≤ n.toNat + (groups l).sum * 2 ^ shift) ∧
      ∀ d, decodeLoop n shift l = some d → d.res.toNat = n.toNat + (groups l).sum * 2 ^ shift ∧
        d.final = (groups l).complete ∧ d.rest = (groups l).rest
  | [], n, shift, _ => by
    have hn := n.toNat_lt
    refine ⟨iff_of_false nofun (by simp only [groups]; omega), fun d hd => ?_⟩
    cases hd
    simp [groups]
  | b :: l, n, shift, h => by
    rw [loopShifts] at h
    have hshift : shift < 32 := h shift List.mem_cons_self
    have hrest := fun s hs => h s (List.mem_cons_of_mem _ hs)
    rw [decodeLoop_cons, addGroup_eq hshift, groups]
    rw [addGroup_eq hshift] at hrest
    -- the groups that follow only add to the value
    by_cases hover : 2 ^ 32 ≤ n.toNat + b.toNat % 128 * 2 ^ shift
    · rw [if_pos hover]
      refine ⟨iff_of_true rfl (hover.trans ?_), nofun⟩
      gcongr
      split_ifs with hlt
      · exact Nat.mod_le _ _
      · exact Nat.le_add_right _ _
    rw [if_neg hover] at hrest ⊢
    have hval : (UInt32.ofNat (n.toNat + b.toNat % 128 * 2 ^ shift)).toNat =
        n.toNat + b.toNat % 128 * 2 ^ shift := by
      rw [UInt32.toNat_ofNat', Nat.mod_eq_of_lt (not_le.1 hover)]
    rw [Option.bind_some]
    by_cases hlt : b.toNat < 128
    · rw [if_pos hlt, if_pos hlt]
      rw [Nat.mod_eq_of_lt hlt] at hover hval ⊢
      refine ⟨iff_of_false nofun hover, fun d hd => ?_⟩
      cases hd
      exact ⟨hval, rfl, rfl⟩
    rw [if_neg hlt, if_neg hlt]
    dsimp only at hrest
    rw [if_neg (mt (and_top_eq_zero b).1 hlt)] at hrest
    have ih := decodeLoop_exact l _ (shift + 7) hrest
    have hsum : n.toNat + b.toNat % 128 * 2 ^ shift + (groups l).sum * 2 ^ (shift + 7) =
        n.toNat + (b.toNat % 128 + 128 * (groups l).sum) * 2 ^ shift := by
      rw [pow_add]
      ring
    rw [hval, hsum] at ih
    exact ih

theorem shift_of_decodeLoop : ∀ {l : Bytes} {n : UInt32} {shift : ℕ} {d : DecodedLength},
    decodeLoop n shift l = some d → d.final = false → d.shift = shift + 7 * l.length
  | [], _, _, _, h, _ => by
    cases h
    rfl
  | b :: l, n, shift, d, h, hfinal => by
    rw [decodeLoop_cons] at h
    obtain ⟨n', -, h⟩ := Option.bind_eq_some_iff.1 h
    split_ifs at h
    · cases h
      cases hfinal
    · rw [shift_of_decodeLoop h hfinal, List.length_cons]
      ring

theorem lt_of_mem_loopShifts : ∀ {l : Bytes} {n : UInt32} {shift s : ℕ},
    s ∈ loopShifts n shift l → s < shift + 7 * l.length
  | [], _, _, _, h => nomatch h
  | b :: l, n, shift, s, h => by
    rw [loopShifts] at h
    rw [List.length_cons]
    rcases List.mem_cons.1 h with rfl | h
    · omega
    · split at h
      · cases h
      · split_ifs at h
        · cases h
        · have := lt_of_mem_loopShifts h
          omega

/-- The loop may be left and entered again with what it has read. -/
theorem loopShifts_append (more : Bytes) :
    ∀ {l : Bytes} {n : UInt32} {shift : ℕ} {d : DecodedLength},
    decodeLoop n shift l = some d → d.final = false →
    loopShifts n shift (l ++ more) = loopShifts n shift l ++ loopShifts d.res d.shift more
  | [], n, shift, d, h, _ => by
    cases h
    rfl
  | b :: l, n, shift, d, h, hfinal => by
    rw [decodeLoop_cons] at h
    obtain ⟨n', hn', h⟩ := Option.bind_eq_some_iff.1 h
    split_ifs at h with hlt
    · cases h
      cases hfinal
    · have hnot : ¬ b &&& 0x80 = 0 := mt (and_top_eq_zero b).1 hlt
      rw [List.cons_append, loopShifts, loopShifts, hn']
      dsimp only
      rw [if_neg hnot, if_neg hnot, loopShifts_append more h hfinal, List.cons_append]

/-- **A shift reaches 32** when all the groups before it continue and their value fits. -/
theorem exists_loopShifts_iff : ∀ (m : ℕ) (l : Bytes) (n : UInt32) (shift : ℕ),
    32 ≤ shift + 7 * m → (∀ j, m = j + 1 → shift + 7 * j < 32) →
    ((∃ s ∈ loopShifts n shift l, 32 ≤ s) ↔ m < l.length ∧ (∀ b ∈ l.take m, 128 ≤ b.toNat) ∧
      n.toNat + (groups (l.take m)).sum * 2 ^ shift < 2 ^ 32)
  | m, [], n, shift, _, _ => by simp [loopShifts]
  | 0, b :: l, n, shift, hm, _ => by
    refine iff_of_true ⟨shift, by rw [loopShifts]; exact List.mem_cons_self, by omega⟩ ?_
    have hn := n.toNat_lt
    simpa [groups] using hn
  | m + 1, b :: l, n, shift, hm, hj => by
    have hshift : shift < 32 := by
      have := hj m rfl
      omega
    have hrest : (∃ s ∈ loopShifts n shift (b :: l), 32 ≤ s) ↔ ∃ n', addGroup n shift b = some n' ∧
        128 ≤ b.toNat ∧ ∃ s ∈ loopShifts n' (shift + 7) l, 32 ≤ s := by
      rw [loopShifts]
      cases hadd : addGroup n shift b with
      | none =>
        dsimp only
        simp
        omega
      | some n' =>
        dsimp only
        by_cases hlt : b.toNat < 128
        · rw [if_pos ((and_top_eq_zero b).2 hlt)]
          simp
          omega
        rw [if_neg (mt (and_top_eq_zero b).1 hlt)]
        constructor
        · rintro ⟨s, hs, hge⟩
          rcases List.mem_cons.1 hs with rfl | hs
          · omega
          · exact ⟨n', rfl, by omega, s, hs, hge⟩
        · rintro ⟨_, hn', -, s, hs, hge⟩
          cases hn'
          exact ⟨s, List.mem_cons_of_mem _ hs, hge⟩
    rw [hrest, addGroup_eq hshift, List.take_succ_cons, List.length_cons]
    by_cases hlt : b.toNat < 128
    · refine iff_of_false (fun ⟨_, _, hge, _⟩ => by omega) fun ⟨_, hall, _⟩ => ?_
      have := hall b List.mem_cons_self
      omega
    have hsum : (groups (b :: l.take m)).sum = b.toNat % 128 + 128 * (groups (l.take m)).sum := by
      rw [groups, if_neg hlt]
    have hpow : n.toNat + b.toNat % 128 * 2 ^ shift + (groups (l.take m)).sum * 2 ^ (shift + 7) =
        n.toNat + (b.toNat % 128 + 128 * (groups (l.take m)).sum) * 2 ^ shift := by
      rw [pow_add]
      ring
    by_cases hover : 2 ^ 32 ≤ n.toNat + b.toNat % 128 * 2 ^ shift
    · rw [if_pos hover, hsum, ← hpow]
      refine iff_of_false (fun ⟨_, h, _⟩ => nomatch h) fun ⟨_, _, hlt'⟩ => ?_
      omega
    rw [if_neg hover, hsum, ← hpow]
    have ih := exists_loopShifts_iff m l
      (UInt32.ofNat (n.toNat + b.toNat % 128 * 2 ^ shift)) (shift + 7) (by omega)
      (fun j hjm => by have := hj m rfl; omega)
    rw [UInt32.toNat_ofNat', Nat.mod_eq_of_lt (not_le.1 hover)] at ih
    constructor
    · rintro ⟨n', hn', -, hs⟩
      cases hn'
      obtain ⟨hlen, hall, hfit⟩ := ih.1 hs
      refine ⟨by omega, fun x hx => ?_, hfit⟩
      rcases List.mem_cons.1 hx with rfl | hx
      · omega
      · exact hall x hx
    · rintro ⟨hlen, hall, hfit⟩
      exact ⟨_, rfl, by omega,
        ih.2 ⟨by omega, fun x hx => hall x (List.mem_cons_of_mem _ hx), hfit⟩⟩

theorem ne_zero_of_decodeLoop {l : Bytes} {n : UInt32} {d : DecodedLength}
    (h : decodeLoop n shift l = some d) (hn : n ≠ 0) : d.res ≠ 0 := by
  intro h0
  have hle := le_of_decodeLoop h
  rw [h0] at hle
  exact hn (UInt32.toNat_inj.1 (Nat.le_zero.1 hle))

/-! ## Reading in parts -/

/-- The bytes `pre` of an integer have been read, in parts of any size, and
`hd_inflate_read_len` has kept the value `left` and the shift. -/
inductive Reading (width maxlen : ℕ) : Bytes → UInt32 → ℕ → Prop
  | start : Reading width maxlen [] 0 0
  | part {pre chunk : Bytes} {left : UInt32} {shift : ℕ} {d : DecodedLength} :
      Reading width maxlen pre left shift → chunk ≠ [] →
      decodeLength left shift chunk width = some d → d.final = false → d.res.toNat ≤ maxlen →
      Reading width maxlen (pre ++ chunk) d.res d.shift

/-- `decode_length` on the next part is exact: no shift reaches 32, it fails if and only if
the integer is too large, and otherwise it gives the value and says whether that is all. -/
structure Exact (width : ℕ) (left : UInt32) (shift : ℕ) (chunk whole : Bytes) : Prop where
  shifts : ∀ s ∈ decodeShifts left shift chunk width, s < 32
  fails : decodeLength left shift chunk width = none ↔ 2 ^ 32 ≤ (hpackInt width whole).sum
  value : ∀ d, decodeLength left shift chunk width = some d →
    d.res.toNat = (hpackInt width whole).sum ∧ d.final = (hpackInt width whole).complete ∧
      d.rest = (hpackInt width whole).rest

/-- **The integer is too long**: five groups continue, their value fits 32 bits, and there
is a sixth one. -/
def Overlong (width : ℕ) : Bytes → Prop
  | [] => False
  | b :: l => b.toNat % 2 ^ width = 2 ^ width - 1 ∧ 5 < l.length ∧
    (∀ x ∈ l.take 5, 128 ≤ x.toNat) ∧ 2 ^ width - 1 + (groups (l.take 5)).sum < 2 ^ 32

section Width

variable {width : ℕ} (hwidth : 1 ≤ width ∧ width ≤ 8)
include hwidth

theorem toNat_prefix : (UInt32.ofNat (2 ^ width - 1)).toNat = 2 ^ width - 1 := by
  have hpow : 2 ^ width ≤ 2 ^ 8 := Nat.pow_le_pow_right (by decide) hwidth.2
  rw [UInt32.toNat_ofNat', Nat.mod_eq_of_lt (by omega)]

theorem prefix_ne_zero : UInt32.ofNat (2 ^ width - 1) ≠ 0 := by
  intro h
  have hpow : 2 ^ 1 ≤ 2 ^ width := Nat.pow_le_pow_right (by decide) hwidth.1
  have hval := toNat_prefix hwidth
  rw [h] at hval
  simp at hval
  omega

theorem toNat_and_mask (b : UInt8) :
    (b.toUInt32 &&& UInt32.ofNat (2 ^ width - 1)).toNat = b.toNat % 2 ^ width := by
  rw [UInt32.toNat_and, toNat_prefix hwidth, UInt8.toNat_toUInt32, Nat.and_two_pow_sub_one_eq_mod]

theorem and_prefix_eq_iff (b : UInt8) :
    b.toUInt32 &&& UInt32.ofNat (2 ^ width - 1) = UInt32.ofNat (2 ^ width - 1) ↔
      b.toNat % 2 ^ width = 2 ^ width - 1 := by
  rw [← UInt32.toNat_inj, toNat_and_mask hwidth, toNat_prefix hwidth]

variable {pre : Bytes} {left : UInt32} {maxlen : ℕ}

/-- **What has been kept**: nothing yet, or the state of the loop behind a full prefix. -/
theorem Reading.cases_pre (h : Reading width maxlen pre left shift) :
    (pre = [] ∧ left = 0 ∧ shift = 0) ∨ ∃ b l, pre = b :: l ∧
      b.toNat % 2 ^ width = 2 ^ width - 1 ∧ left ≠ 0 ∧ ∃ rest,
      decodeLoop (UInt32.ofNat (2 ^ width - 1)) 0 l = some ⟨left, shift, false, rest⟩ := by
  induction h with
  | start => exact .inl ⟨rfl, rfl, rfl⟩
  | @part pre chunk left shift d _ hchunk hd hfinal _ ih =>
    obtain ⟨res, shift', final, rest⟩ := d
    cases hfinal
    right
    obtain ⟨rfl, rfl, rfl⟩ | ⟨b, l, rfl, hfull, hne, rest', hl⟩ := ih
    · obtain ⟨b, l, rfl⟩ := List.exists_cons_of_ne_nil hchunk
      rw [decodeLength_zero_cons] at hd
      split_ifs at hd with hpre hnil
      · cases hd
      · subst hnil
        cases hd
        exact ⟨b, [], rfl, (and_prefix_eq_iff hwidth b).1 (not_not.1 hpre),
          prefix_ne_zero hwidth, [], rfl⟩
      · exact ⟨b, l, rfl, (and_prefix_eq_iff hwidth b).1 (not_not.1 hpre),
          ne_zero_of_decodeLoop hd (prefix_ne_zero hwidth), rest, hd⟩
    · rw [decodeLength_of_ne hne] at hd
      have hext := decodeLoop_extends chunk l (UInt32.ofNat (2 ^ width - 1)) 0
      rw [hl] at hext
      exact ⟨b, l ++ chunk, rfl, hfull, ne_zero_of_decodeLoop hd hne, rest, hext.trans hd⟩

/-- The whole integer, read from its first byte on. -/
theorem exact_start_iff (b : UInt8) (l : Bytes) :
    Exact width 0 0 (b :: l) (b :: l) ↔ ¬ Overlong width (b :: l) := by
  have hk := toNat_prefix hwidth
  have hpow : 2 ^ width ≤ 2 ^ 8 := Nat.pow_le_pow_right (by decide) hwidth.2
  by_cases hpre : b.toNat % 2 ^ width = 2 ^ width - 1
  · have hfull := (and_prefix_eq_iff hwidth b).2 hpre
    have hshifts : decodeShifts 0 0 (b :: l) width =
        loopShifts (UInt32.ofNat (2 ^ width - 1)) 0 l := by
      simp [decodeShifts, hfull]
    have hdecode : decodeLength 0 0 (b :: l) width =
        decodeLoop (UInt32.ofNat (2 ^ width - 1)) 0 l := by
      rw [decodeLength_zero_cons, if_neg (not_not.2 hfull)]
      split_ifs with hnil
      · rw [hnil]
        rfl
      · rfl
    have hint : hpackInt width (b :: l) =
        ⟨2 ^ width - 1 + (groups l).sum, (groups l).complete, (groups l).rest⟩ := by
      rw [hpackInt, if_neg (not_not.2 hpre)]
    have hlong := exists_loopShifts_iff 5 l (UInt32.ofNat (2 ^ width - 1)) 0 (by decide)
      (fun j hj => by omega)
    rw [hk, pow_zero, mul_one] at hlong
    constructor
    · rintro hexact ⟨-, hover⟩
      obtain ⟨s, hs, hge⟩ := hlong.2 hover
      have hlt := hexact.shifts s (hshifts ▸ hs)
      omega
    intro hnot
    have hlt : ∀ s ∈ loopShifts (UInt32.ofNat (2 ^ width - 1)) 0 l, s < 32 := by
      intro s hs
      by_contra hge
      exact hnot ⟨hpre, hlong.1 ⟨s, hs, not_lt.1 hge⟩⟩
    obtain ⟨hfails, hvalue⟩ := decodeLoop_exact l _ 0 hlt
    rw [hk, pow_zero, mul_one] at hfails hvalue
    refine ⟨hshifts ▸ hlt, ?_, ?_⟩
    · rw [hdecode, hint]
      exact hfails
    · rw [hdecode, hint]
      exact hvalue
  have hfull := mt (and_prefix_eq_iff hwidth b).1 hpre
  have hint : hpackInt width (b :: l) = ⟨b.toNat % 2 ^ width, true, l⟩ := by
    rw [hpackInt, if_pos hpre]
  have hdecode : decodeLength 0 0 (b :: l) width =
      some ⟨b.toUInt32 &&& UInt32.ofNat (2 ^ width - 1), 0, true, l⟩ := by
    rw [decodeLength_zero_cons, if_pos hfull]
  have hlt : b.toNat % 2 ^ width < 2 ^ width := Nat.mod_lt _ (Nat.two_pow_pos _)
  refine iff_of_true ⟨?_, ?_, ?_⟩ fun hover => hpre hover.1
  · simp [decodeShifts, hfull]
  · rw [hdecode, hint]
    exact iff_of_false nofun (by dsimp only; omega)
  · rw [hdecode, hint]
    intro d hd
    cases hd
    exact ⟨toNat_and_mask hwidth b, rfl, rfl⟩

theorem Reading.exact_iff {chunk : Bytes} (h : Reading width maxlen pre left shift)
    (hchunk : chunk ≠ []) :
    Exact width left shift chunk (pre ++ chunk) ↔ ¬ Overlong width (pre ++ chunk) := by
  obtain ⟨rfl, rfl, rfl⟩ | ⟨b, l, rfl, hfull, hne, rest, hl⟩ := h.cases_pre hwidth
  · obtain ⟨b, l, rfl⟩ := List.exists_cons_of_ne_nil hchunk
    exact exact_start_iff hwidth b l
  -- reading the next part is reading the integer again from its first byte on
  rw [List.cons_append, ← exact_start_iff hwidth]
  have hpre := (and_prefix_eq_iff hwidth b).2 hfull
  have hmore : l ++ chunk ≠ [] := fun hnil => hchunk (List.append_eq_nil_iff.1 hnil).2
  have hdecode : decodeLength 0 0 (b :: (l ++ chunk)) width =
      decodeLength left shift chunk width := by
    have hext := decodeLoop_extends chunk l (UInt32.ofNat (2 ^ width - 1)) 0
    rw [hl] at hext
    rw [decodeLength_zero_cons, if_neg (not_not.2 hpre), if_neg hmore, decodeLength_of_ne hne]
    exact hext
  have hall : (∀ s ∈ decodeShifts 0 0 (b :: (l ++ chunk)) width, s < 32) ↔
      ∀ s ∈ decodeShifts left shift chunk width, s < 32 := by
    have hwhole : decodeShifts 0 0 (b :: (l ++ chunk)) width =
        loopShifts (UInt32.ofNat (2 ^ width - 1)) 0 l ++ loopShifts left shift chunk := by
      simp only [decodeShifts, if_true, hpre, ne_eq, not_true, if_false]
      exact loopShifts_append chunk hl rfl
    have hpart : decodeShifts left shift chunk width = loopShifts left shift chunk := by
      simp only [decodeShifts, if_neg hne]
    rw [hwhole, hpart]
    refine ⟨fun hs s hmem => hs s (List.mem_append_right _ hmem), fun hs s hmem => ?_⟩
    rcases List.mem_append.1 hmem with hbefore | hafter
    · -- the shifts before are smaller than the next one, which is evaluated
      obtain ⟨x, chunk, rfl⟩ := List.exists_cons_of_ne_nil hchunk
      have hnext := hs shift (by rw [loopShifts]; exact List.mem_cons_self)
      have hlt := lt_of_mem_loopShifts hbefore
      have hshift : shift = 0 + 7 * l.length := shift_of_decodeLoop hl rfl
      omega
    · exact hs s hafter
  constructor
  · rintro ⟨h1, h2, h3⟩
    exact ⟨hall.2 h1, hdecode ▸ h2, hdecode ▸ h3⟩
  · rintro ⟨h1, h2, h3⟩
    exact ⟨hall.1 h1, hdecode ▸ h2, hdecode ▸ h3⟩

/-- **`decode_length` is exact in every part** of an integer, in whatever parts it is read,
if and only if the integer is not too long so far. -/
theorem exact_iff_of_reading {maxlen : ℕ} {pre chunk : Bytes} {left : UInt32} {shift : ℕ}
    (h : Reading width maxlen pre left shift) (hchunk : chunk ≠ []) :
    Exact width left shift chunk (pre ++ chunk) ↔ ¬ Overlong width (pre ++ chunk) :=
  h.exact_iff hwidth hchunk

end Width

/-- The integer 1337 of the HPACK specification, its last byte in a part of its own. -/
theorem exact_1337 : Reading 5 4096 [0x1f, 0x9a] 57 7 ∧ Exact 5 57 7 [0x0a] [0x1f, 0x9a, 0x0a] := by
  have hreading : Reading 5 4096 [0x1f, 0x9a] 57 7 :=
    Reading.part (d := ⟨57, 7, false, []⟩) .start (List.cons_ne_nil _ _) (by decide +kernel) rfl
      (by decide)
  refine ⟨hreading, (exact_iff_of_reading (by decide) hreading (List.cons_ne_nil _ _)).2 ?_⟩
  exact fun hlong => absurd hlong.2.1 (by decide)

/-- **Six groups**: a shift of 35 is evaluated, and the integer is taken for a small one,
although its value does not fit 32 bits. -/
theorem overlong_not_exact :
    35 ∈ decodeShifts 0 0 [0x7f, 0x80, 0x80, 0x80, 0x80, 0x80, 0x01] 7 ∧
    2 ^ 32 ≤ (hpackInt 7 [0x7f, 0x80, 0x80, 0x80, 0x80, 0x80, 0x01]).sum ∧
    decodeLength 0 0 [0x7f, 0x80, 0x80, 0x80, 0x80, 0x80, 0x01] 7 = some ⟨135, 35, true, []⟩ := by
  decide +kernel

/-! ## Writing integers -/

/-- **The groups of a number** are read back, whatever follows them. -/
theorem groups_encodeLoop (rest : Bytes) : ∀ {fuel n : ℕ}, n ≤ fuel →
    groups (encodeLoop fuel n ++ rest) = ⟨n, true, rest⟩
  | 0, n, h => by
    obtain rfl := Nat.le_zero.1 h
    rfl
  | fuel + 1, n, h => by
    rw [encodeLoop]
    split_ifs with hbig
    · have hlow : n &&& 127 = n % 128 := Nat.and_two_pow_sub_one_eq_mod n 7
      have hor : 128 ||| n % 128 = 128 + n % 128 :=
        (Nat.two_pow_add_eq_or_of_lt (i := 7) (Nat.mod_lt n (by decide)) 1).symm
      have hbyte : (UInt8.ofNat (128 ||| (n &&& 127))).toNat = 128 + n % 128 := by
        rw [hlow, hor, UInt8.toNat_ofNat']
        omega
      have hnext : n >>> 7 = n / 128 := Nat.shiftRight_eq_div_pow n 7
      rw [List.cons_append, groups, hbyte, if_neg (by omega), hnext,
        groups_encodeLoop rest (by omega)]
      simp only [Groups.mk.injEq, and_true]
      omega
    · have hbyte : (UInt8.ofNat n).toNat = n := by
        rw [UInt8.toNat_ofNat']
        omega
      rw [List.singleton_append, groups, hbyte, if_pos (by omega)]

/-- All bytes but the last one say that there are more. -/
theorem encodeLoop_split : ∀ {fuel n : ℕ} {l more : Bytes}, n ≤ fuel →
    encodeLoop fuel n = l ++ more → more ≠ [] → ∀ b ∈ l, 128 ≤ b.toNat
  | 0, n, l, more, h, heq, hmore => by
    have hl : l = [] := by
      cases l with
      | nil => rfl
      | cons x l =>
        have hlen : 1 = (x :: l).length + more.length := by
          rw [← List.length_append, ← heq]
          rfl
        have := List.length_pos_of_ne_nil hmore
        rw [List.length_cons] at hlen
        omega
    rw [hl]
    nofun
  | fuel + 1, n, l, more, h, heq, hmore => by
    cases l with
    | nil => nofun
    | cons x l =>
      rw [encodeLoop] at heq
      split_ifs at heq with hbig
      · obtain ⟨rfl, hloop⟩ := List.cons.inj heq
        intro b hb
        rcases List.mem_cons.1 hb with rfl | hb
        · have hle : 128 ≤ 128 ||| (n &&& 127) := Nat.left_le_or
          have hlt : 128 ||| (n &&& 127) < 2 ^ 8 :=
            Nat.or_lt_two_pow (by decide) (Nat.and_lt_two_pow _ (by decide))
          rw [UInt8.toNat_ofNat', Nat.mod_eq_of_lt hlt]
          exact hle
        · have hnext : n >>> 7 = n / 128 := Nat.shiftRight_eq_div_pow n 7
          exact encodeLoop_split (by omega) hloop hmore b hb
      · have hnil := (List.append_eq_nil_iff.1 (List.cons.inj heq).2.symm).2
        exact absurd hnil hmore

/-- An integer that says that there are more groups is not complete. -/
theorem groups_incomplete : ∀ {l : Bytes}, (∀ b ∈ l, 128 ≤ b.toNat) → (groups l).complete = false
  | [], _ => rfl
  | b :: l, h => by
    rw [groups, if_neg (by have := h b List.mem_cons_self; omega)]
    exact groups_incomplete fun x hx => h x (List.mem_cons_of_mem _ hx)

theorem groups_sum_le (more : Bytes) : ∀ (l : Bytes), (groups l).sum ≤ (groups (l ++ more)).sum
  | [] => Nat.zero_le _
  | b :: l => by
    have ih := groups_sum_le more l
    rw [List.cons_append, groups, groups]
    split_ifs
    · exact le_rfl
    · dsimp only
      omega

theorem countLoop_eq :
    ∀ (fuel n len : ℕ), countLoop fuel n len + 1 = len + (encodeLoop fuel n).length
  | 0, _, _ => rfl
  | fuel + 1, n, len => by
    rw [countLoop, encodeLoop]
    split_ifs
    · rw [countLoop_eq fuel, List.length_cons]
      ring
    · rfl

/-- A number below 128 to the power `m` has `m` groups. -/
theorem length_encodeLoop_le : ∀ (m fuel : ℕ) {n : ℕ}, n < 128 ^ (m + 1) →
    (encodeLoop fuel n).length ≤ m + 1
  | _, 0, _, _ => by simp [encodeLoop]
  | 0, fuel + 1, n, h => by
    rw [encodeLoop, if_neg (by omega)]
    rfl
  | m + 1, fuel + 1, n, h => by
    rw [encodeLoop]
    split_ifs
    · have hnext : n >>> 7 < 128 ^ (m + 1) := by
        rw [Nat.shiftRight_eq_div_pow]
        exact Nat.div_lt_of_lt_mul (by rw [pow_succ] at h; omega)
      have := length_encodeLoop_le m fuel hnext
      rw [List.length_cons]
      omega
    · simp

theorem or_and_low (first m a : UInt8) : ((first &&& ~~~m) ||| (a &&& m)) &&& m = a &&& m := by
  apply UInt8.toBitVec_inj.1
  ext i hi
  simp
  grind

theorem or_and_high (first m a : UInt8) :
    ((first &&& ~~~m) ||| (a &&& m)) &&& ~~~m = first &&& ~~~m := by
  apply UInt8.toBitVec_inj.1
  ext i hi
  simp
  grind

section EncodeWidth

variable {width : ℕ} (hwidth : 1 ≤ width ∧ width ≤ 8)
include hwidth

theorem toNat_low_prefix (h : n < 2 ^ width) : (UInt8.ofNat n).toNat = n := by
  have hpow : 2 ^ width ≤ 2 ^ 8 := Nat.pow_le_pow_right (by decide) hwidth.2
  rw [UInt8.toNat_ofNat']
  omega

/-- The prefix is written below the bits that the first byte held before. -/
theorem first_byte (first : UInt8) (h : n < 2 ^ width) :
    ((first &&& ~~~UInt8.ofNat (2 ^ width - 1)) ||| UInt8.ofNat n).toNat % 2 ^ width = n ∧
      ((first &&& ~~~UInt8.ofNat (2 ^ width - 1)) ||| UInt8.ofNat n) &&&
        ~~~UInt8.ofNat (2 ^ width - 1) =
        first &&& ~~~UInt8.ofNat (2 ^ width - 1) := by
  have hpos : 0 < 2 ^ width := Nat.two_pow_pos width
  have hm := toNat_low_prefix hwidth (Nat.sub_one_lt hpos.ne')
  have hn := toNat_low_prefix hwidth h
  have hlow : UInt8.ofNat n &&& UInt8.ofNat (2 ^ width - 1) = UInt8.ofNat n := by
    apply UInt8.toNat_inj.1
    rw [UInt8.toNat_and, hm, hn, Nat.and_two_pow_sub_one_eq_mod, Nat.mod_eq_of_lt h]
  rw [← Nat.and_two_pow_sub_one_eq_mod]
  generalize UInt8.ofNat (2 ^ width - 1) = m at hm hlow ⊢
  constructor
  · rw [← hm, ← UInt8.toNat_and, ← hlow, or_and_low, hlow, hn]
  · rw [← hlow]
    exact or_and_high ..

/-- **What `encode_length` writes**: the bits above the prefix stay, as many bytes are
written as `count_encoded_length` says, their value is the number, and the integer is not
complete before the last byte. -/
theorem encodeLength_spec (first : UInt8) (n : ℕ) :
    ∃ b l, encodeLength first n width = b :: l ∧
      b &&& ~~~UInt8.ofNat (2 ^ width - 1) = first &&& ~~~UInt8.ofNat (2 ^ width - 1) ∧
      (b :: l).length = countEncodedLength n width ∧
      hpackInt width (b :: l) = ⟨n, true, []⟩ ∧
      (n < 2 ^ 32 → l.length ≤ 5) ∧
      ∀ l1 l2, l = l1 ++ l2 → l2 ≠ [] → (hpackInt width (b :: l1)).complete = false := by
  have hpos : 0 < 2 ^ width := Nat.two_pow_pos width
  unfold encodeLength countEncodedLength
  dsimp only
  by_cases hsmall : n < 2 ^ width - 1
  · obtain ⟨hmod, hhigh⟩ := first_byte hwidth first (show n < 2 ^ width by omega)
    rw [if_pos hsmall, if_pos hsmall]
    refine ⟨_, [], rfl, hhigh, rfl, ?_, fun _ => Nat.zero_le _, fun l1 l2 heq hne => ?_⟩
    · rw [hpackInt, hmod, if_pos (by omega)]
    · exact absurd (List.append_eq_nil_iff.1 heq.symm).2 hne
  obtain ⟨hmod, hhigh⟩ := first_byte hwidth first (Nat.sub_one_lt hpos.ne')
  rw [if_neg hsmall, if_neg hsmall]
  have hloop := groups_encodeLoop [] (show n - (2 ^ width - 1) ≤ n by omega)
  rw [List.append_nil] at hloop
  refine ⟨_, _, rfl, hhigh, ?_, ?_, fun hlt => ?_, fun l1 l2 heq hne => ?_⟩
  · rw [countLoop_eq, List.length_cons]
    ring
  · rw [hpackInt, hmod, if_neg (not_not.2 rfl), hloop]
    simp only [Groups.mk.injEq, and_true]
    omega
  · exact length_encodeLoop_le 4 n (by omega)
  · rw [hpackInt, hmod, if_neg (not_not.2 rfl)]
    exact groups_incomplete (encodeLoop_split (by omega) heq hne)

end EncodeWidth

theorem hpackInt_sum_le (width : ℕ) (l more : Bytes) :
    (hpackInt width l).sum ≤ (hpackInt width (l ++ more)).sum := by
  cases l with
  | nil => exact Nat.zero_le _
  | cons b l =>
    rw [List.cons_append, hpackInt, hpackInt]
    split_ifs
    · exact le_rfl
    · exact Nat.add_le_add_left (groups_sum_le more l) _

/-- An integer that was written is read, with whatever follows it. -/
theorem decodeLength_encodeLength {width : ℕ} (hw : 1 ≤ width ∧ width ≤ 8) (hn : n < 2 ^ 32)
    (first : UInt8) (rest : Bytes) :
    ∃ shift, decodeLength 0 0 (encodeLength first n width ++ rest) width =
      some ⟨UInt32.ofNat n, shift, true, rest⟩ := by
  obtain ⟨b, l, henc, -, -, hint, hlen, -⟩ := encodeLength_spec hw first n
  have hlong : ¬ Overlong width (b :: l) := fun h => by
    have hfive := h.2.1
    have hle := hlen hn
    omega
  have hexact := (exact_start_iff hw b l).2 hlong
  have hwhole : ∃ shift, decodeLength 0 0 (b :: l) width =
      some ⟨UInt32.ofNat n, shift, true, []⟩ := by
    cases hd : decodeLength 0 0 (b :: l) width with
    | none =>
      have hover := hexact.fails.1 hd
      rw [hint] at hover
      exact absurd hover (not_le.2 hn)
    | some d =>
      obtain ⟨hres, hfinal, hrest⟩ := hexact.value d hd
      rw [hint] at hres hfinal hrest
      obtain ⟨res, shift, final, rest⟩ := d
      dsimp only at hres hfinal hrest
      subst hfinal hrest
      have hval : res = UInt32.ofNat n := by
        apply UInt32.toNat_inj.1
        rw [hres, UInt32.toNat_ofNat', Nat.mod_eq_of_lt hn]
      exact ⟨shift, by rw [hval]⟩
  obtain ⟨shift, hd⟩ := hwhole
  rw [henc]
  by_cases hrest : rest = []
  · rw [hrest, List.append_nil]
    exact ⟨shift, hd⟩
  · have hext : DecodedLength.Extends rest (decodeLength 0 0 (b :: l ++ rest) width) _
        (decodeLength 0 0 (b :: l) width) :=
      decodeLength_extends (b :: l) hrest (fun _ => rfl) (prefix_ne_zero hw)
    rw [hd, DecodedLength.Extends, if_pos rfl] at hext
    exact ⟨shift, hext⟩

/-- Feed an integer to `decode_length` in parts, all of which leave it incomplete: the value
and the shift that are kept. -/
def feed (width : ℕ) (left : UInt32) (shift : ℕ) : List Bytes → Option (UInt32 × ℕ)
  | [] => some (left, shift)
  | part :: parts =>
    match decodeLength left shift part width with
    | some d => if d.final then none else feed width d.res d.shift parts
    | none => none

/-- Parts of an integer that is neither too large nor complete are read. -/
theorem exists_feed {width : ℕ} (hwidth : 1 ≤ width ∧ width ≤ 8) {whole last : Bytes}
    (hsum : (hpackInt width whole).sum < 2 ^ 32) (hlast : last ≠ [])
    (hlong : ∀ l1 l2, whole = l1 ++ l2 → ¬ Overlong width l1)
    (hmore : ∀ l1 l2, whole = l1 ++ l2 → l2 ≠ [] → (hpackInt width l1).complete = false) :
    ∀ {parts : List Bytes} {pre : Bytes} {left : UInt32} {shift : ℕ},
      Reading width (2 ^ 32) pre left shift → (∀ part ∈ parts, part ≠ []) →
      pre ++ (parts.flatten ++ last) = whole →
      ∃ left' shift', feed width left shift parts = some (left', shift') ∧
        Reading width (2 ^ 32) (pre ++ parts.flatten) left' shift'
  | [], pre, left, shift, h, _, _ => ⟨left, shift, rfl, by simpa using h⟩
  | part :: parts, pre, left, shift, h, hne, hwhole => by
    have hpart := hne part List.mem_cons_self
    have hsplit : whole = (pre ++ part) ++ (parts.flatten ++ last) := by
      rw [← hwhole, List.flatten_cons]
      simp
    have hexact := (h.exact_iff hwidth hpart).2 (hlong _ _ hsplit)
    have hle := hpackInt_sum_le width (pre ++ part) (parts.flatten ++ last)
    rw [← hsplit] at hle
    -- the part leaves the integer incomplete, since the last one is still to come
    cases hd : decodeLength left shift part width with
    | none =>
      have hover := hexact.fails.1 hd
      omega
    | some d =>
      obtain ⟨hres, hfinal, -⟩ := hexact.value d hd
      rw [hmore _ _ hsplit (fun hnil => hlast (List.append_eq_nil_iff.1 hnil).2)] at hfinal
      have hnext := h.part hpart hd hfinal (by omega)
      obtain ⟨left', shift', hfeed, hread⟩ := exists_feed hwidth hsum hlast hlong hmore hnext
        (fun p hp => hne p (List.mem_cons_of_mem _ hp)) hsplit.symm
      refine ⟨left', shift', ?_, ?_⟩
      · rw [feed, hd]
        dsimp only
        rw [if_neg (by simp [hfinal])]
        exact hfeed
      · rw [List.flatten_cons, ← List.append_assoc]
        exact hread

/-- **Integers are read as they were written.**  For every number that fits 32 bits and every
prefix, `encode_length` writes as many bytes as `count_encoded_length` says and keeps the
bits above the prefix; and in whatever parts the bytes are fed to `decode_length`, with the
value and the shift kept between the calls, the number is complete with the last byte and
not before. -/
theorem decode_encodeLength {width n : ℕ} (hwidth : 4 ≤ width ∧ width ≤ 7) (hn : n < 2 ^ 32)
    (first : UInt8) :
    (encodeLength first n width).length = countEncodedLength n width ∧
    (∃ b l, encodeLength first n width = b :: l ∧
      b &&& ~~~UInt8.ofNat (2 ^ width - 1) = first &&& ~~~UInt8.ofNat (2 ^ width - 1)) ∧
    ∀ parts last, (∀ part ∈ parts, part ≠ []) → last ≠ [] →
      parts.flatten ++ last = encodeLength first n width →
      ∃ left shift, feed width 0 0 parts = some (left, shift) ∧
        (∃ shift', decodeLength left shift last width = some ⟨UInt32.ofNat n, shift', true, []⟩) ∧
        ∀ l₁ l₂, last = l₁ ++ l₂ → l₁ ≠ [] → l₂ ≠ [] →
          ∃ d, decodeLength left shift l₁ width = some d ∧ d.final = false := by
  have hw : 1 ≤ width ∧ width ≤ 8 := by omega
  obtain ⟨b, l, henc, hhigh, hcount, hint, hlen, hmore⟩ := encodeLength_spec hw first n
  have hlong : ∀ l₁ l₂, b :: l = l₁ ++ l₂ → ¬ Overlong width l₁ := by
    rintro l₁ l₂ heq hlong
    have hle := congrArg List.length heq
    cases l₁ with
    | nil => exact hlong
    | cons x l₁ =>
      have hfive := hlong.2.1
      have := hlen hn
      simp only [List.length_cons, List.cons_append, List.length_append] at hle
      omega
  have hmore' : ∀ l₁ l₂, b :: l = l₁ ++ l₂ → l₂ ≠ [] → (hpackInt width l₁).complete = false := by
    intro l₁ l₂ heq hne
    cases l₁ with
    | nil => rfl
    | cons x l₁ =>
      obtain ⟨rfl, htail⟩ := List.cons.inj heq
      exact hmore l₁ l₂ htail hne
  have hsum : (hpackInt width (b :: l)).sum < 2 ^ 32 := by rwa [hint]
  rw [henc]
  refine ⟨hcount, ⟨b, l, rfl, hhigh⟩, fun parts last hparts hlast hwhole => ?_⟩
  obtain ⟨left, shift, hfeed, hread⟩ := exists_feed hw hsum hlast hlong hmore' .start hparts hwhole
  rw [List.nil_append] at hread
  refine ⟨left, shift, hfeed, ?_, fun l₁ l₂ heq h₁ h₂ => ?_⟩
  · have hexact := (hread.exact_iff hw hlast).2 (hlong _ [] (by rw [hwhole, List.append_nil]))
    rw [hwhole] at hexact
    cases hd : decodeLength left shift last width with
    | none =>
      have hover := hexact.fails.1 hd
      omega
    | some d =>
      obtain ⟨hres, hfinal, hrest⟩ := hexact.value d hd
      rw [hint] at hres hfinal hrest
      obtain ⟨res, shift', final, rest⟩ := d
      dsimp only at hres hfinal hrest
      subst hfinal hrest
      refine ⟨shift', ?_⟩
      have hres' : res = UInt32.ofNat n := by
        apply UInt32.toNat_inj.1
        rw [hres, UInt32.toNat_ofNat', Nat.mod_eq_of_lt hn]
      rw [hres']
  have hsplit : b :: l = (parts.flatten ++ l₁) ++ l₂ := by
    rw [← hwhole, heq, List.append_assoc]
  have hexact := (hread.exact_iff hw h₁).2 (hlong _ _ hsplit)
  have hle := hpackInt_sum_le width (parts.flatten ++ l₁) l₂
  rw [← hsplit] at hle
  cases hd : decodeLength left shift l₁ width with
  | none =>
    have hover := hexact.fails.1 hd
    omega
  | some d =>
    obtain ⟨-, hfinal, -⟩ := hexact.value d hd
    exact ⟨d, rfl, hfinal.trans (hmore' _ _ hsplit h₂)⟩

/-- 1337 behind a prefix of five bits, in three parts. -/
theorem decode_1337 : encodeLength 0xe0 1337 5 = [0xff, 0x9a, 0x0a] ∧
    ∃ left shift, feed 5 0 0 [[0xff], [0x9a]] = some (left, shift) ∧
      ∃ shift', decodeLength left shift [0x0a] 5 = some ⟨UInt32.ofNat 1337, shift', true, []⟩ := by
  have henc : encodeLength 0xe0 1337 5 = [0xff, 0x9a, 0x0a] := by decide +kernel
  obtain ⟨-, -, hparts⟩ := decode_encodeLength (show 4 ≤ 5 ∧ 5 ≤ 7 by decide)
    (show 1337 < 2 ^ 32 by decide) 0xe0
  obtain ⟨left, shift, hfeed, hlast, -⟩ := hparts [[0xff], [0x9a]] [0x0a] (by decide)
    (List.cons_ne_nil _ _) henc.symm
  exact ⟨henc, left, shift, hfeed, hlast⟩

end Nghttp2.Hd
