/-
# The Huffman code

The encoder of `nghttp2_hd_huffman.c` works on bits and the decoder is an automaton that reads
four bits at a time.  Both are compared with the code as such: the string of a list of symbols
is the concatenation of their codes, filled up with ones.

* `huffCode_prefixFree`: no code is the beginning of another one;
* `ofBytes_huffEncode`: what the encoder writes;
* `huffDecode_step`: the automaton remembers the bits since the last symbol;
* `huffDecodeAll_iff`: the decoder accepts exactly the strings of the encoder.
-/
import Mathlib
import Nghttp2.BitString
import Nghttp2.Hpack
import Nghttp2.PrefixCode

namespace Nghttp2.Hd

open BitString PrefixCode

/-! ## The codes -/

/-- The code of a symbol; 256 is the end of the string. -/
def huffCode (a : Fin 257) : List Bool := bits (huffSym a).1 (huffSym a).2

/-- The symbol of a byte. -/
def byteSym (b : UInt8) : Fin 257 := ⟨b.toNat, b.toNat_lt.trans (by norm_num)⟩

/-- The concatenated codes of a byte string. -/
def codeBits (s : Bytes) : List Bool := encode huffCode (s.map byteSym)

/-- The symbols in the order of their codes. -/
def codeOrder : List ℕ := [
  48, 49, 50, 97, 99, 101, 105, 111, 115, 116, 32, 37, 45, 46, 47, 51, 52, 53, 54, 55, 56, 57, 61,
  65, 95, 98, 100, 102, 103, 104, 108, 109, 110, 112, 114, 117, 58, 66, 67, 68, 69, 70, 71, 72, 73,
  74, 75, 76, 77, 78, 79, 80, 81, 82, 83, 84, 85, 86, 87, 89, 106, 107, 113, 118, 119, 120, 121,
  122, 38, 42, 44, 59, 88, 90, 33, 34, 40, 41, 63, 39, 43, 124, 35, 62, 0, 36, 64, 91, 93, 126, 94,
  125, 60, 96, 123, 92, 195, 208, 128, 130, 131, 162, 184, 194, 224, 226, 153, 161, 167, 172, 176,
  177, 179, 209, 216, 217, 227, 229, 230, 129, 132, 133, 134, 136, 146, 154, 156, 160, 163, 164,
  169, 170, 173, 178, 181, 185, 186, 187, 189, 190, 196, 198, 228, 232, 233, 1, 135, 137, 138, 139,
  140, 141, 143, 147, 149, 150, 151, 152, 155, 157, 158, 165, 166, 168, 174, 175, 180, 182, 183,
  188, 191, 197, 231, 239, 9, 142, 144, 145, 148, 159, 171, 206, 215, 225, 236, 237, 199, 207, 234,
  235, 192, 193, 200, 201, 202, 205, 210, 213, 218, 219, 238, 240, 242, 243, 255, 203, 204, 211,
  212, 214, 221, 222, 223, 241, 244, 245, 246, 247, 248, 250, 251, 252, 253, 254, 2, 3, 4, 5, 6, 7,
  8, 11, 12, 14, 15, 16, 17, 18, 19, 20, 21, 23, 24, 25, 26, 27, 28, 29, 30, 31, 127, 220, 249, 10,
  13, 22, 256]

/-- Codes have 5 to 30 bits. -/
theorem huffSymTable_bounds : ∀ e ∈ huffSymTable, 5 ≤ e.1 ∧ e.1 ≤ 30 ∧ e.2 < 2 ^ e.1 := by
  decide +kernel

/-- There are 256 bytes and EOS. -/
theorem length_huffSymTable : huffSymTable.length = 257 := by
  decide +kernel

/-- The code of a symbol has 5 to 30 bits. -/
theorem huffSym_bounds (a : Fin 257) :
    5 ≤ (huffSym a).1 ∧ (huffSym a).1 ≤ 30 ∧ (huffSym a).2 < 2 ^ (huffSym a).1 := by
  have ha : (a : ℕ) < huffSymTable.length := by
    rw [length_huffSymTable]
    exact a.isLt
  rw [huffSym, List.getD_eq_getElem?_getD, List.getElem?_eq_getElem ha, Option.getD_some]
  exact huffSymTable_bounds _ (List.getElem_mem ha)

/-! ### The codes are prefix free

The codes are compared as numbers: in the order of `codeOrder` they lie one after the other.  For
the sake of these evaluations the tables are packed. -/

/-- The codes in one number. -/
def packedSyms : ℕ := packPairs 8 32 huffSymTable

/-- The number of bits of a code, and the code. -/
def packedSym (a : ℕ) : ℕ × ℕ := unpackPair 8 32 packedSyms a

/-- The packed table is the table. -/
theorem packedSym_eq (a : ℕ) : packedSym a = huffSym a := by
  refine unpackPair_packPairs (fun e he => ?_) a
  obtain ⟨-, hn, hc⟩ := huffSymTable_bounds e he
  have hpow : 2 ^ e.1 ≤ 2 ^ 30 := Nat.pow_le_pow_right two_pos hn
  omega

/-- The first number of thirty bits that starts with a code. -/
def codeStart (e : ℕ × ℕ) : ℕ := e.2 * 2 ^ (30 - e.1)

/-- The first number of thirty bits after those that start with a code. -/
def codeEnd (e : ℕ × ℕ) : ℕ := (e.2 + 1) * 2 ^ (30 - e.1)

/-- The range of a code is not empty. -/
theorem codeStart_lt_codeEnd (e : ℕ × ℕ) : codeStart e < codeEnd e := by
  unfold codeStart codeEnd
  exact Nat.mul_lt_mul_of_pos_right (Nat.lt_succ_self _) (Nat.two_pow_pos _)

/-- The ranges are in order. -/
theorem codeOrder_chain :
    codeOrder.IsChain fun a b => codeEnd (packedSym a) ≤ codeStart (packedSym b) := by
  decide +kernel

/-- The order lists 257 symbols. -/
theorem codeOrder_lt : codeOrder.length = 257 ∧ ∀ a ∈ codeOrder, a < 257 := by
  decide +kernel

/-- No two ranges meet. -/
theorem codeOrder_pairwise :
    codeOrder.Pairwise fun a b => codeEnd (packedSym a) ≤ codeStart (packedSym b) := by
  have htrans : IsTrans ℕ fun a b => codeEnd (packedSym a) ≤ codeStart (packedSym b) :=
    ⟨fun _ b _ hab hbc => hab.trans ((codeStart_lt_codeEnd (packedSym b)).le.trans hbc)⟩
  exact List.isChain_iff_pairwise.1 codeOrder_chain

/-- Every symbol is listed. -/
theorem mem_codeOrder (a : Fin 257) : (a : ℕ) ∈ codeOrder := by
  have hnodup : codeOrder.Nodup := by
    refine codeOrder_pairwise.imp fun {b c} hle heq => ?_
    subst heq
    exact absurd hle (not_le.2 (codeStart_lt_codeEnd _))
  have hsub : codeOrder.toFinset ⊆ Finset.range 257 := by
    intro b hb
    exact Finset.mem_range.2 (codeOrder_lt.2 b (List.mem_toFinset.1 hb))
  have hcard : (Finset.range 257).card ≤ codeOrder.toFinset.card := by
    rw [List.toFinset_card_of_nodup hnodup, codeOrder_lt.1, Finset.card_range]
  have heq := Finset.eq_of_subset_of_card_le hsub hcard
  exact List.mem_toFinset.1 (heq ▸ Finset.mem_range.2 a.isLt)

variable {buf : Bytes} {o : HuffOut} {a c cap code m n nibble r state : ℕ}

/-- Two codes lie apart. -/
theorem codeOrder_apart {b : ℕ} (ha : a ∈ codeOrder) (hb : b ∈ codeOrder) (hne : a ≠ b) :
    codeEnd (packedSym a) ≤ codeStart (packedSym b) ∨
      codeEnd (packedSym b) ≤ codeStart (packedSym a) := by
  let R (a b : ℕ) : Prop := codeEnd (packedSym a) ≤ codeStart (packedSym b) ∨
    codeEnd (packedSym b) ≤ codeStart (packedSym a)
  have hsymm : Std.Symm R := ⟨fun _ _ h => h.symm⟩
  have hpair : codeOrder.Pairwise R := codeOrder_pairwise.imp Or.inl
  exact hpair.forall ha hb hne

/-- **No code is the beginning of another one.** -/
theorem huffCode_prefixFree : PrefixFree huffCode := by
  intro a b hpre
  by_contra hne
  obtain ⟨-, hna, hca⟩ := huffSym_bounds a
  obtain ⟨-, hnb, hcb⟩ := huffSym_bounds b
  obtain ⟨hle, hdiv⟩ := prefix_bits hca hcb hpre
  -- the numbers that start with the longer code are among those that start with the shorter one
  have hsplit : 2 ^ (30 - (huffSym a).1) =
      2 ^ ((huffSym b).1 - (huffSym a).1) * 2 ^ (30 - (huffSym b).1) := by
    rw [← Nat.pow_add]
    congr 1
    omega
  have hlow : codeStart (huffSym a) ≤ codeStart (huffSym b) := by
    unfold codeStart
    rw [hsplit, ← Nat.mul_assoc]
    apply Nat.mul_le_mul_right
    rw [← hdiv]
    exact Nat.div_mul_le_self _ _
  have hhigh : codeEnd (huffSym b) ≤ codeEnd (huffSym a) := by
    unfold codeEnd
    rw [hsplit, ← Nat.mul_assoc]
    apply Nat.mul_le_mul_right
    rw [← hdiv]
    exact Nat.lt_div_mul_add (Nat.two_pow_pos _) |>.trans_eq (by ring)
  have hpair := codeOrder_apart (mem_codeOrder a) (mem_codeOrder b) fun h => hne (Fin.ext h)
  have ha := codeStart_lt_codeEnd (huffSym a)
  have hb := codeStart_lt_codeEnd (huffSym b)
  rw [packedSym_eq, packedSym_eq] at hpair
  omega

/-! ## The encoder -/

/-- The bits of the byte that is being filled, with a code of `r` bits in the place that is
left. -/
theorem bits_or {x : ℕ} (hx : ∀ i < r, x.testBit i = false) (hc : c < 2 ^ r) :
    bits (n + r) (x ||| c) = bits n (x / 2 ^ r) ++ bits r c := by
  rw [bits_add]
  congr 1
  · apply bits_congr
    intro i _
    have hbit : c.testBit (i + r) = false :=
      Nat.testBit_lt_two_pow (hc.trans_le (Nat.pow_le_pow_right two_pos (Nat.le_add_left r i)))
    rw [Nat.testBit_div_two_pow, Nat.testBit_div_two_pow, Nat.testBit_or, hbit, Bool.or_false]
  · apply bits_congr
    intro i hi
    rw [Nat.testBit_or, hx i hi, Bool.false_or]

/-- The output is in order: there is room in the byte that is being filled, and it is empty. -/
structure HuffOut.Ok (o : HuffOut) : Prop where
  pos : 0 < o.rembits
  le : o.rembits ≤ 8
  low : ∀ i < o.rembits, o.cur.testBit i = false

/-- What has been written. -/
def HuffOut.written (o : HuffOut) : List Bool :=
  ofBytes o.bytes ++ bits (8 - o.rembits) (o.cur / 2 ^ o.rembits)

/-- The end of `huff_encode_sym` writes full bytes of the code from the left. -/
theorem huffEncodeRest_byte (bytes : Bytes) {q : ℕ} (code : ℕ) (hq : q < 3) (hlo : 8 * q < m)
    (hhi : m ≤ 8 * (q + 1)) :
    huffEncodeRest bytes (8 + m) code =
      huffEncodeRest (bytes ++ [UInt8.ofNat (code >>> (8 * (q + 1)))]) m code := by
  have hsub : 8 + m - 8 = m := by omega
  have hlow : ¬8 + m < 8 := by omega
  obtain rfl | rfl | rfl : q = 0 ∨ q = 1 ∨ q = 2 := by omega
  · have h8 : 8 + m > 8 := by omega
    have h16 : ¬8 + m > 16 := by omega
    have h24 : ¬8 + m > 24 := by omega
    rcases Nat.lt_or_ge m 8 with hm | hm
    · simp only [huffEncodeRest, hlow, h8, h16, h24, hsub, hm, hm.ne, if_true, if_false]
    · obtain rfl : m = 8 := by omega
      rfl
  · have h16 : 8 + m > 16 := by omega
    have h24 : ¬8 + m > 24 := by omega
    simp only [huffEncodeRest, hlow, h16, h24, hsub, show ¬m < 8 by omega, show m > 8 by omega,
      show ¬m > 16 by omega, show ¬m > 24 by omega, if_true, if_false]
  · have h24 : 8 + m > 24 := by omega
    simp only [huffEncodeRest, hlow, h24, hsub, show ¬m < 8 by omega, show m > 16 by omega,
      show ¬m > 24 by omega, if_true, if_false]

/-- The last byte of `huff_encode_sym`, which is full or is filled up later. -/
theorem huffEncodeRest_last (bytes : Bytes) (hm : 0 < m) (hma : m + a = 8)
    (hlow : ∀ i < a, code.testBit i = false) :
    (huffEncodeRest bytes m code).Ok ∧
      (huffEncodeRest bytes m code).written = ofBytes bytes ++ bits m (code / 2 ^ a) := by
  rcases Nat.lt_or_ge m 8 with hm8 | hm8
  · have hrem : 8 - m = a := by omega
    have hm' : 8 - a = m := by omega
    rw [huffEncodeRest, if_pos hm8, hrem]
    refine ⟨⟨by show 0 < a; omega, by show a ≤ 8; omega, fun i hi => ?_⟩, ?_⟩
    · show (code % 2 ^ 8).testBit i = false
      rw [Nat.testBit_mod_two_pow, hlow i hi, Bool.and_false]
    · show ofBytes bytes ++ bits (8 - a) (code % 2 ^ 8 / 2 ^ a) = _
      rw [hm']
      congr 1
      apply bits_congr
      intro i hi
      rw [Nat.testBit_div_two_pow, Nat.testBit_div_two_pow, Nat.testBit_mod_two_pow,
        decide_eq_true (by omega), Bool.true_and]
  · obtain rfl : a = 0 := by omega
    obtain rfl : m = 8 := by omega
    have hrest : huffEncodeRest bytes 8 code = ⟨bytes ++ [UInt8.ofNat code], 0, 8⟩ := rfl
    rw [hrest]
    refine ⟨⟨by norm_num, le_rfl, fun i _ => Nat.zero_testBit i⟩, ?_⟩
    simp only [HuffOut.written, ofBytes_append, ofBytes_cons, ofBytes_nil, bits_ofNat,
      List.append_nil, Nat.sub_self, bits_zero, pow_zero, Nat.div_one]

/-- The end of `huff_encode_sym`, where `a` zero bits fill the last byte of the code. -/
theorem huffEncodeRest_spec (ha : a < 8) (hlow : ∀ i < a, code.testBit i = false) :
    ∀ {q : ℕ} (bytes : Bytes) {n : ℕ}, q < 4 → n + a = 8 * (q + 1) →
      (huffEncodeRest bytes n code).Ok ∧
        (huffEncodeRest bytes n code).written = ofBytes bytes ++ bits n (code / 2 ^ a)
  | 0, bytes, n, _, hn => huffEncodeRest_last bytes (by omega) (by omega) hlow
  | q + 1, bytes, n, hq, hn => by
    obtain ⟨m, rfl⟩ : ∃ m, n = 8 + m := ⟨n - 8, by omega⟩
    have hbyte : bits (8 + m) (code / 2 ^ a) =
        bits 8 (code >>> (8 * (q + 1))) ++ bits m (code / 2 ^ a) := by
      rw [bits_add, Nat.div_div_eq_div_mul, ← Nat.pow_add, Nat.shiftRight_eq_div_pow,
        show a + m = 8 * (q + 1) by omega]
    rw [huffEncodeRest_byte bytes (q := q) code (by omega) (by omega) (by omega), hbyte]
    obtain ⟨hok, hwritten⟩ := huffEncodeRest_spec ha hlow
      (bytes ++ [UInt8.ofNat (code >>> (8 * (q + 1)))]) (n := m) (q := q) (by omega) (by omega)
    refine ⟨hok, ?_⟩
    rw [hwritten, ofBytes_append, ofBytes_cons, ofBytes_nil, bits_ofNat, List.append_nil,
      List.append_assoc]

/-- The byte that is completed, when the code fills the place that is left. -/
theorem written_full (ho : o.Ok) (hc : c < 2 ^ o.rembits) :
    ofBytes (o.bytes ++ [UInt8.ofNat (o.cur ||| c)]) = o.written ++ bits o.rembits c := by
  have hlen : 8 - o.rembits + o.rembits = 8 := Nat.sub_add_cancel ho.le
  have hbyte : bits 8 (o.cur ||| c) = bits (8 - o.rembits) (o.cur / 2 ^ o.rembits) ++
      bits o.rembits c := by
    rw [← bits_or ho.low hc, hlen]
  rw [ofBytes_append, ofBytes_cons, ofBytes_nil, bits_ofNat, hbyte, List.append_nil,
    HuffOut.written, List.append_assoc]

/-- One symbol appends its code. -/
theorem huffEncodeSym_spec (ho : o.Ok) (hn : n ≤ 30) (hc : c < 2 ^ n) :
    (huffEncodeSym o (n, c)).Ok ∧ (huffEncodeSym o (n, c)).written = o.written ++ bits n c := by
  unfold huffEncodeSym
  dsimp only
  rcases Nat.lt_trichotomy n o.rembits with hlt | heq | hgt
  · -- the code leaves room in the byte
    rw [if_pos hlt]
    obtain ⟨d, hd⟩ : ∃ d, o.rembits = d + n := ⟨o.rembits - n, by omega⟩
    have hle := ho.le
    have hsub : o.rembits - n = d := by omega
    rw [hsub]
    refine ⟨⟨by show 0 < d; omega, by show d ≤ 8; omega, fun i hi => ?_⟩, ?_⟩
    · show (o.cur ||| c <<< d).testBit i = false
      have hi' : i < d := hi
      rw [Nat.testBit_or, ho.low i (by omega), Nat.testBit_shiftLeft, decide_eq_false (by omega),
        Bool.false_and, Bool.or_false]
    have hdiv : (o.cur ||| c <<< d) / 2 ^ d = o.cur / 2 ^ d ||| c := by
      apply Nat.eq_of_testBit_eq
      intro i
      rw [Nat.testBit_div_two_pow, Nat.testBit_or, Nat.testBit_or, Nat.testBit_div_two_pow,
        Nat.testBit_shiftLeft, decide_eq_true (by omega), Nat.add_sub_cancel, Bool.true_and]
    have hlow : ∀ i < n, (o.cur / 2 ^ d).testBit i = false := by
      intro i hi
      rw [Nat.testBit_div_two_pow, ho.low (i + d) (by omega)]
    show ofBytes o.bytes ++ bits (8 - d) ((o.cur ||| c <<< d) / 2 ^ d) = _
    rw [hdiv, show 8 - d = 8 - o.rembits + n by omega, bits_or hlow hc,
      Nat.div_div_eq_div_mul, ← Nat.pow_add, ← hd, HuffOut.written, List.append_assoc]
  · -- the code fills the byte
    subst heq
    rw [if_neg (lt_irrefl _), if_pos rfl]
    refine ⟨⟨by norm_num, le_rfl, fun i _ => Nat.zero_testBit i⟩, ?_⟩
    rw [← written_full ho hc, HuffOut.written, Nat.sub_self, bits_zero, List.append_nil]
  -- the code goes on in the next bytes
  rw [if_neg (by omega), if_neg (by omega)]
  obtain ⟨m, rfl⟩ : ∃ m, n = o.rembits + m := ⟨n - o.rembits, by omega⟩
  have hpos := ho.pos
  have hhigh : c >>> m < 2 ^ o.rembits := by
    rw [Nat.shiftRight_eq_div_pow]
    exact Nat.div_lt_of_lt_mul (by rwa [← Nat.pow_add, Nat.add_comm m])
  rw [Nat.add_sub_cancel_left, bits_add, ← List.append_assoc, ← Nat.shiftRight_eq_div_pow,
    ← written_full ho hhigh]
  by_cases hm : m % 8 = 0
  · rw [if_neg (by omega)]
    obtain ⟨q, hq⟩ : ∃ q, m = 8 * (q + 1) := ⟨m / 8 - 1, by omega⟩
    have hlow : ∀ i < 0, c.testBit i = false := fun i hi => absurd hi (Nat.not_lt_zero i)
    have hspec := huffEncodeRest_spec (q := q) (n := m) (by norm_num) hlow
      (o.bytes ++ [UInt8.ofNat (o.cur ||| c >>> m)]) (by omega) (by omega)
    rwa [pow_zero, Nat.div_one] at hspec
  rw [if_pos hm]
  have hlow : ∀ i < 8 - m % 8, (c <<< (8 - m % 8)).testBit i = false := by
    intro i hi
    rw [Nat.testBit_shiftLeft, decide_eq_false (by omega), Bool.false_and]
  have hspec := huffEncodeRest_spec (a := 8 - m % 8) (q := m / 8) (n := m) (by omega) hlow
    (o.bytes ++ [UInt8.ofNat (o.cur ||| c >>> m)]) (by omega) (by omega)
  have hdiv : c <<< (8 - m % 8) / 2 ^ (8 - m % 8) = c := by
    rw [Nat.shiftLeft_eq, Nat.mul_div_cancel _ (Nat.two_pow_pos _)]
  rwa [hdiv] at hspec

@[simp] theorem codeBits_nil : codeBits [] = [] := rfl

@[simp] theorem codeBits_cons (b : UInt8) (s : Bytes) :
    codeBits (b :: s) = huffCode (byteSym b) ++ codeBits s := rfl

@[simp] theorem codeBits_append (s t : Bytes) : codeBits (s ++ t) = codeBits s ++ codeBits t := by
  rw [codeBits, List.map_append, encode_append, codeBits, codeBits]

/-- All symbols, by induction on the string. -/
theorem huffEncodeSym_foldl :
    ∀ (s : Bytes) {o : HuffOut}, o.Ok →
      (s.foldl (fun o b => huffEncodeSym o (huffSym b.toNat)) o).Ok ∧
        (s.foldl (fun o b => huffEncodeSym o (huffSym b.toNat)) o).written = o.written ++ codeBits s
  | [], o, ho => ⟨ho, by rw [codeBits_nil, List.append_nil, List.foldl_nil]⟩
  | b :: s, o, ho => by
    obtain ⟨-, hn, hc⟩ := huffSym_bounds (byteSym b)
    obtain ⟨hok, hwritten⟩ := huffEncodeSym_spec ho hn hc
    obtain ⟨hok', hwritten'⟩ := huffEncodeSym_foldl s hok
    refine ⟨hok', ?_⟩
    rw [List.foldl_cons, codeBits_cons, ← List.append_assoc, huffCode, ← hwritten]
    exact hwritten'

/-- Up to seven bits of the symbol 256 are ones. -/
theorem eos_shiftRight (hr : r < 8) : (huffSym 256).2 >>> ((huffSym 256).1 - r) = 2 ^ r - 1 := by
  have heos : huffSym 256 = (30, 2 ^ 30 - 1) := by decide +kernel
  rw [heos]
  interval_cases r <;> rfl

/-- **What the encoder writes**: the codes, filled up with less than eight ones. -/
theorem ofBytes_huffEncode (s : Bytes) :
    ∃ k < 8, ofBytes (huffEncode s) = codeBits s ++ List.replicate k true := by
  have hinit : HuffOut.Ok ⟨[], 0, 8⟩ := ⟨by norm_num, le_rfl, fun i _ => Nat.zero_testBit i⟩
  obtain ⟨hok, hwritten⟩ := huffEncodeSym_foldl s hinit
  have hcodes : (s.foldl (fun o b => huffEncodeSym o (huffSym b.toNat)) ⟨[], 0, 8⟩).written =
      codeBits s := hwritten
  unfold huffEncode
  generalize s.foldl (fun o b => huffEncodeSym o (huffSym b.toNat)) ⟨[], 0, 8⟩ = o at hok hcodes
  dsimp only
  rcases Nat.lt_or_ge o.rembits 8 with hrem | hrem
  · refine ⟨o.rembits, hrem, ?_⟩
    have hlt : 2 ^ o.rembits - 1 < 2 ^ o.rembits := Nat.sub_lt (Nat.two_pow_pos _) Nat.one_pos
    rw [if_pos hrem, eos_shiftRight hrem, written_full hok hlt, hcodes, bits_ones]
  · have hfull : o.rembits = 8 := le_antisymm hok.le hrem
    refine ⟨0, by norm_num, ?_⟩
    rw [if_neg (by omega), ← hcodes, HuffOut.written, hfull, Nat.sub_self, bits_zero,
      List.append_nil, List.replicate_zero, List.append_nil]

/-- The lengths of the codes add up. -/
theorem length_codeBits (s : Bytes) :
    (codeBits s).length = (s.map fun b => (huffSym b.toNat).1).sum := by
  induction s with
  | nil => rfl
  | cons b s ih =>
    rw [codeBits, List.map_cons, encode_cons, List.length_append, huffCode, length_bits,
      List.map_cons, List.sum_cons, ← ih]
    rfl

/-- **`nghttp2_hd_huff_encode_count` is right.** -/
theorem length_huffEncode (s : Bytes) : (huffEncode s).length = huffEncodeCount s := by
  obtain ⟨k, hk, hs⟩ := ofBytes_huffEncode s
  have hlen := congrArg List.length hs
  rw [length_ofBytes, List.length_append, List.length_replicate, length_codeBits] at hlen
  unfold huffEncodeCount
  omega

/-- The number of ones is determined by the number of bits. -/
theorem huffEncode_iff (b s : Bytes) :
    b = huffEncode s ↔ ∃ k < 8, ofBytes b = codeBits s ++ List.replicate k true := by
  constructor
  · rintro rfl
    exact ofBytes_huffEncode s
  · rintro ⟨k, hk, hb⟩
    obtain ⟨k', hk', hs⟩ := ofBytes_huffEncode s
    have hlen := congrArg List.length hb
    have hlen' := congrArg List.length hs
    rw [length_ofBytes, List.length_append, List.length_replicate] at hlen hlen'
    obtain rfl : k = k' := by omega
    exact ofBytes_inj (hb.trans hs.symm)

/-! ## The automaton

A state of the decoder stands for the bits that have been read since the last symbol. -/

/-- The code of a symbol, filled up with zeros. -/
def alignedSym (sym : ℕ) : ℕ := (packedSym sym).2 * 2 ^ (30 - (packedSym sym).1)

/-- The symbols in the order of their codes. -/
def symsByCode : List ℕ := (List.range 257).insertionSort fun a b => alignedSym a ≤ alignedSym b

/-- For each state, the number of these bits and a symbol whose code starts with them.  The states
are the beginnings of codes in the order of the tree: those of a code follow which the code before
it does not have. -/
@[irreducible] def stateSyms : List (ℕ × ℕ) :=
  let news := List.zipWith (fun a b => 30 - Nat.log2 (alignedSym a ^^^ alignedSym b)) symsByCode
    symsByCode.tail
  (List.zipWith (fun sym n => (List.range' n ((packedSym sym).1 - n)).map fun k => (k, sym))
    symsByCode (0 :: news)).flatten

/-- The number of these bits, and the bits as a number. -/
def statePrefixTable : List (ℕ × ℕ) :=
  stateSyms.map fun e => (e.1, (packedSym e.2).2 >>> ((packedSym e.2).1 - e.1))

/-- The bits since the last symbol. -/
def pending (state : ℕ) : List Bool :=
  bits (statePrefixTable.getD state (0, 0)).1 (statePrefixTable.getD state (0, 0)).2

/-- The table of the states in one number. -/
def packedPrefixes : ℕ := packPairs 8 32 statePrefixTable

/-- The prefixes are shorter than codes. -/
theorem statePrefixTable_bounds : ∀ e ∈ statePrefixTable, e.1 < 30 ∧ e.2 < 2 ^ e.1 := by
  decide +kernel

/-- The packed prefixes are those of the table. -/
theorem unpackPair_packedPrefixes (state : ℕ) :
    unpackPair 8 32 packedPrefixes state = statePrefixTable.getD state (0, 0) := by
  refine unpackPair_packPairs (fun e he => ?_) state
  obtain ⟨hn, hc⟩ := statePrefixTable_bounds e he
  have hpow : 2 ^ e.1 ≤ 2 ^ 30 := Nat.pow_le_pow_right two_pos hn.le
  omega

/-- An entry of the table of the decoder is right, when `n` bits `v` have been read since the last
symbol. -/
def entryOk (n v : ℕ) (t : HuffDecode) : Bool :=
  if t.fail then Nat.ble 30 n && Nat.beq (v >>> (n - 30)) (2 ^ 30 - 1)
  else
    let p := unpackPair 8 32 packedPrefixes t.state
    let whole :=
      match t.sym with
      | none => p
      | some b =>
        let c := packedSym b.toNat
        (c.1 + p.1, c.2 * 2 ^ p.1 + p.2)
    Nat.blt t.state 256 && Nat.beq n whole.1 && Nat.beq v whole.2 &&
      (t.accepted == (Nat.blt p.1 8 && Nat.beq p.2 (2 ^ p.1 - 1)))

/-- All entries of a state are right. -/
def rowOk (row : ℕ × ℕ × ℕ) : Bool :=
  (List.range 16).all fun nibble =>
    entryOk (row.2.1 + 4) (row.2.2 * 16 + nibble)
      ((huffRow row.1).getD (15 - nibble) ⟨0, false, none, true⟩)

/-- **All 4096 entries**, by evaluation. -/
theorem huffDecodeTable_ok : (huffDecodeTable.zip statePrefixTable).all rowOk = true := by
  decide +kernel

/-- There are 256 states. -/
theorem length_tables : huffDecodeTable.length = 256 ∧ statePrefixTable.length = 256 := by
  decide +kernel

/-- A prefix that ends inside a code. -/
theorem stateSyms_ok : ∀ e ∈ stateSyms, e.2 < 257 ∧ e.1 < (packedSym e.2).1 := by
  decide +kernel

/-- The bits since the last symbol are the beginning of a code. -/
theorem partial_code_pending (h : state < 256) : Partial huffCode (pending state) := by
  have hstate : state < stateSyms.length := by
    rwa [← List.length_map, ← statePrefixTable, length_tables.2]
  obtain ⟨hsym, hlen⟩ := stateSyms_ok _ (List.getElem_mem hstate)
  rw [pending, statePrefixTable, List.getD_eq_getElem?_getD, List.getElem?_map,
    List.getElem?_eq_getElem hstate]
  dsimp only [Option.map_some, Option.getD_some]
  generalize stateSyms[state] = e at hsym hlen
  rw [packedSym_eq] at hlen ⊢
  refine ⟨⟨e.2, hsym⟩, ?_, fun heq => ?_⟩
  · obtain ⟨d, hd⟩ := Nat.exists_eq_add_of_lt hlen
    rw [huffCode]
    dsimp only
    rw [hd, Nat.add_assoc, Nat.add_sub_cancel_left, bits_add, Nat.shiftRight_eq_div_pow]
    exact List.prefix_append _ _
  · have hl := congrArg List.length heq
    rw [huffCode, length_bits, length_bits] at hl
    exact absurd hl hlen.ne

/-- The entry of a state and a nibble. -/
theorem huffDecode_entryOk (h : state < 256) (hn : nibble < 16) :
    entryOk ((statePrefixTable.getD state (0, 0)).1 + 4)
      ((statePrefixTable.getD state (0, 0)).2 * 16 + nibble) (huffDecode state nibble) = true := by
  have hmem := getD_mem_zip (h.trans_eq length_tables.1.symm) (h.trans_eq length_tables.2.symm)
    0 (0, 0)
  have hrow := List.all_eq_true.1 huffDecodeTable_ok _ hmem
  exact List.all_eq_true.1 hrow nibble (List.mem_range.2 hn)

/-- The bits since the last symbol and four more. -/
theorem pending_append (hn : nibble < 16) :
    pending state ++ bits 4 nibble =
      bits ((statePrefixTable.getD state (0, 0)).1 + 4)
        ((statePrefixTable.getD state (0, 0)).2 * 16 + nibble) :=
  (bits_mul_add (m := 4) hn).symm

/-- The symbol 256, with which nothing goes on. -/
theorem huffCode_eos : huffCode ⟨256, by norm_num⟩ = List.replicate 30 true := by
  have heos : huffSym 256 = (30, 2 ^ 30 - 1) := by decide +kernel
  rw [huffCode, heos, bits_ones]

/-- The automaton fails when it has read the symbol 256. -/
theorem huffDecode_fail (h : state < 256) (hn : nibble < 16)
    (hfail : (huffDecode state nibble).fail = true) :
    List.replicate 30 true <+: pending state ++ bits 4 nibble := by
  have hok := huffDecode_entryOk h hn
  rw [entryOk, if_pos hfail, Bool.and_eq_true, Nat.ble_eq, Nat.beq_eq] at hok
  obtain ⟨hle, hval⟩ := hok
  obtain ⟨d, hd⟩ := Nat.exists_eq_add_of_le hle
  rw [pending_append hn, hd, bits_add, ← bits_ones, ← Nat.shiftRight_eq_div_pow, ← hval, hd,
    Nat.add_sub_cancel_left]
  exact List.prefix_append _ _

/-- The state may stand at the end of the string: only ones have been read since the last symbol,
and less than eight of them. -/
def Accepts (state : ℕ) : Prop := ∃ k < 8, pending state = List.replicate k true

/-- A prefix of EOS that padding may be. -/
theorem accepts_iff (state : ℕ) :
    Accepts state ↔ (statePrefixTable.getD state (0, 0)).1 < 8 ∧
      (statePrefixTable.getD state (0, 0)).2 = 2 ^ (statePrefixTable.getD state (0, 0)).1 - 1 := by
  have hval : (statePrefixTable.getD state (0, 0)).2 <
      2 ^ (statePrefixTable.getD state (0, 0)).1 := by
    rcases Nat.lt_or_ge state statePrefixTable.length with hlt | hge
    · rw [List.getD_eq_getElem?_getD, List.getElem?_eq_getElem hlt, Option.getD_some]
      exact (statePrefixTable_bounds _ (List.getElem_mem hlt)).2
    · rw [List.getD_eq_getElem?_getD, List.getElem?_eq_none hge, Option.getD_none]
      exact Nat.one_pos
  unfold Accepts pending
  generalize statePrefixTable.getD state (0, 0) = p at hval
  have hones : 2 ^ p.1 - 1 < 2 ^ p.1 := Nat.sub_lt (Nat.two_pow_pos _) Nat.one_pos
  constructor
  · rintro ⟨k, hk, hbits⟩
    have hlen := congrArg List.length hbits
    rw [length_bits, List.length_replicate] at hlen
    subst hlen
    exact ⟨hk, bits_inj hval hones (hbits.trans (bits_ones _).symm)⟩
  · rintro ⟨hk, hv⟩
    exact ⟨p.1, hk, by rw [hv, bits_ones]⟩

/-- **A step of the automaton**: what has been read since the last symbol is the symbol that comes
out, if any, and the rest. -/
theorem huffDecode_step (h : state < 256) (hn : nibble < 16)
    (hfail : (huffDecode state nibble).fail = false) :
    (huffDecode state nibble).state < 256 ∧
      pending state ++ bits 4 nibble =
        codeBits (huffDecode state nibble).sym.toList ++ pending (huffDecode state nibble).state ∧
      ((huffDecode state nibble).accepted = true ↔ Accepts (huffDecode state nibble).state) := by
  have hok := huffDecode_entryOk h hn
  rw [pending_append hn]
  generalize huffDecode state nibble = t at hok hfail
  rw [entryOk, hfail, if_neg Bool.false_ne_true, unpackPair_packedPrefixes] at hok
  dsimp only at hok
  rw [Bool.and_eq_true, Bool.and_eq_true, Bool.and_eq_true, Nat.blt_eq, Nat.beq_eq, Nat.beq_eq,
    beq_iff_eq] at hok
  obtain ⟨⟨⟨hstate, hlen⟩, hval⟩, hacc⟩ := hok
  refine ⟨hstate, ?_, ?_⟩
  · cases hsym : t.sym with
    | none =>
      rw [hsym] at hlen hval
      rw [hlen, hval]
      rfl
    | some b =>
      rw [hsym] at hlen hval
      dsimp only at hlen hval
      rw [packedSym_eq] at hlen hval
      have hmem := getD_mem_zip (hstate.trans_eq length_tables.1.symm)
        (hstate.trans_eq length_tables.2.symm) 0 (0, 0)
      obtain ⟨-, hlt⟩ := statePrefixTable_bounds _ (List.of_mem_zip hmem).2
      rw [hlen, hval, bits_mul_add hlt, Option.toList_some, codeBits_cons, codeBits_nil,
        List.append_nil]
      rfl
  · rw [hacc, accepts_iff, Bool.and_eq_true, Nat.blt_eq, Nat.beq_eq]

/-! ## The decoder -/

/-- A context is in order. -/
structure HuffContext.Ok (ctx : HuffContext) : Prop where
  lt : ctx.state < 256
  accept : ctx.accept = true ↔ Accepts ctx.state

/-- What the decoder has done with the bits `read`, when `buf` was there before. -/
def Decoded {α : Type} (cap : ℕ) (view : α → HuffContext) (buf : Bytes) (read : List Bool) :
    Except HdError (α × Bytes) → Prop
  | .ok (a, buf') =>
    (view a).Ok ∧ buf'.length ≤ cap ∧
      ∃ out, buf' = buf ++ out ∧ read = codeBits out ++ pending (view a).state
  -- the symbol 256 has been read
  | .error .headerComp => ∃ out rest, read = codeBits out ++ (List.replicate 30 true ++ rest)
  | .error .bufferError => ∃ out rest, cap < buf.length + out.length ∧ read = codeBits out ++ rest
  | .error .assertFailed => False

/-- Two parts, one after the other. -/
theorem Decoded.bind {α β : Type} {view : α → HuffContext} {view' : β → HuffContext}
    {read more : List Bool} {r : Except HdError (α × Bytes)}
    {f : α × Bytes → Except HdError (β × Bytes)} (h : Decoded cap view buf read r)
    (hf : ∀ a buf', (view a).Ok → buf'.length ≤ cap →
      Decoded cap view' buf' (pending (view a).state ++ more) (f (a, buf'))) :
    Decoded cap view' buf (read ++ more) (r >>= f) := by
  match r, h with
  | .ok (a, buf'), ⟨hok, hcap, out, hout, hread⟩ =>
    subst hout
    have hnext := hf a (buf ++ out) hok hcap
    show Decoded cap view' buf (read ++ more) (f (a, buf ++ out))
    rw [hread, List.append_assoc]
    match f (a, buf ++ out), hnext with
    | .ok (_, _), ⟨hok', hcap', out', hout', hmore⟩ =>
      refine ⟨hok', hcap', out ++ out', hout'.trans (List.append_assoc _ _ _), ?_⟩
      rw [hmore, codeBits_append, List.append_assoc]
    | .error .headerComp, ⟨out', rest, hmore⟩ =>
      exact ⟨out ++ out', rest, by rw [hmore, codeBits_append, List.append_assoc]⟩
    | .error .bufferError, ⟨out', rest, hlen, hmore⟩ =>
      refine ⟨out ++ out', rest, ?_, by rw [hmore, codeBits_append, List.append_assoc]⟩
      rwa [List.length_append, Nat.add_assoc, ← List.length_append] at hlen
  | .error .headerComp, ⟨out, rest, hread⟩ =>
    exact ⟨out, rest ++ more, by rw [hread, List.append_assoc, List.append_assoc]⟩
  | .error .bufferError, ⟨out, rest, hlen, hread⟩ =>
    exact ⟨out, rest ++ more, hlen, by rw [hread, List.append_assoc]⟩

/-- A transition as a context. -/
def HuffDecode.context (t : HuffDecode) : HuffContext := ⟨t.state, t.accepted⟩

/-- **One nibble.** -/
theorem huffDecodeNibble_decoded (cap : ℕ) (h : state < 256) (hn : nibble < 16)
    (hbuf : buf.length ≤ cap) :
    Decoded cap HuffDecode.context buf (pending state ++ bits 4 nibble)
      (huffDecodeNibble cap state nibble buf) := by
  unfold huffDecodeNibble
  dsimp only
  cases hfail : (huffDecode state nibble).fail with
  | true =>
    obtain ⟨rest, hrest⟩ := huffDecode_fail h hn hfail
    rw [if_pos rfl]
    exact ⟨[], rest, hrest.symm⟩
  | false =>
    rw [if_neg Bool.false_ne_true]
    obtain ⟨hlt, hread, hacc⟩ := huffDecode_step h hn hfail
    generalize huffDecode state nibble = t at hlt hread hacc
    cases hsym : t.sym with
    | none =>
      rw [hsym] at hread
      exact ⟨⟨hlt, hacc⟩, hbuf, [], (List.append_nil buf).symm, hread⟩
    | some b =>
      rw [hsym] at hread
      dsimp only
      unfold addb
      by_cases hroom : buf.length < cap
      · rw [if_pos hroom]
        exact ⟨⟨hlt, hacc⟩, by simpa using hroom, [b], rfl, hread⟩
      · rw [if_neg hroom]
        exact ⟨[b], pending t.state, by simp; omega, hread⟩

/-- A byte is two nibbles. -/
theorem bits_byte (b : UInt8) :
    bits 8 b.toNat = bits 4 (b.toNat >>> 4) ++ bits 4 (b.toNat &&& 0xf) := by
  have hlow : b.toNat &&& 0xf = b.toNat % 2 ^ 4 := Nat.and_two_pow_sub_one_eq_mod b.toNat 4
  rw [hlow, bits_mod le_rfl, Nat.shiftRight_eq_div_pow]
  exact bits_add 4 4 b.toNat

/-- **The loop of the decoder**: the bits that are read are the symbols that come out and the bits
since the last one. -/
theorem huffDecodeLoop_decoded (cap : ℕ) :
    ∀ (l buf : Bytes) {ctx : HuffContext}, ctx.Ok → buf.length ≤ cap →
      Decoded cap id buf (pending ctx.state ++ ofBytes l) (huffDecodeLoop cap ctx buf l)
  | [], buf, ctx, hok, hbuf =>
    ⟨hok, hbuf, [], (List.append_nil buf).symm, List.append_nil (pending ctx.state)⟩
  | b :: l, buf, ctx, hok, hbuf => by
    have hhigh : b.toNat >>> 4 < 16 := by
      rw [Nat.shiftRight_eq_div_pow]
      have := b.toNat_lt
      omega
    have hlow : b.toNat &&& 0xf < 16 := Nat.lt_of_le_of_lt Nat.and_le_right (by norm_num)
    rw [ofBytes_cons, bits_byte, List.append_assoc, ← List.append_assoc]
    apply (huffDecodeNibble_decoded cap hok.lt hhigh hbuf).bind
    intro t buf1 hok1 hbuf1
    rw [← List.append_assoc]
    apply (huffDecodeNibble_decoded cap hok1.lt hlow hbuf1).bind
    intro t' buf2 hok2 hbuf2
    exact huffDecodeLoop_decoded cap l buf2 hok2 hbuf2

/-- The initial context. -/
theorem HuffContext.init_ok : HuffContext.init.Ok where
  lt := by decide
  accept := by
    rw [accepts_iff]
    decide +kernel

/-- Nothing has been read yet. -/
theorem pending_init : pending HuffContext.init.state = [] := by
  decide +kernel

/-- The ones at the end are the beginning of the symbol 256. -/
theorem ones_partial {k : ℕ} (hk : k < 8) : Partial huffCode (List.replicate k true) := by
  refine ⟨⟨256, by norm_num⟩, ?_, fun heq => ?_⟩
  · rw [huffCode_eos, show 30 = k + (30 - k) by omega, List.replicate_add]
    exact List.prefix_append _ _
  · have hlen := congrArg List.length heq
    rw [huffCode_eos, List.length_replicate, List.length_replicate] at hlen
    omega

/-- No byte is EOS. -/
theorem byteSym_ne_eos (b : UInt8) : byteSym b ≠ ⟨256, by norm_num⟩ := by
  intro h
  have hval : b.toNat = 256 := congrArg Fin.val h
  exact absurd b.toNat_lt (by omega)

/-- Bytes have their own symbols. -/
theorem byteSym_injective : Function.Injective byteSym := by
  intro b c h
  exact UInt8.toNat_inj.1 (Fin.mk.inj_iff.1 h)

/-- What the decoder makes of a string of the encoder: the string is appended, unless the buffer
is too small. -/
theorem huffDecodeLoop_huffEncode (buf s : Bytes) (hbuf : buf.length ≤ cap) :
    (buf.length + s.length ≤ cap ∧ ∃ ctx, ctx.accept = true ∧
      huffDecodeLoop cap .init buf (huffEncode s) = .ok (ctx, buf ++ s)) ∨
    (cap < buf.length + s.length ∧
      huffDecodeLoop cap .init buf (huffEncode s) = .error .bufferError) := by
  have hspec := huffDecodeLoop_decoded cap (huffEncode s) buf HuffContext.init_ok hbuf
  obtain ⟨k, hk, hbits⟩ := ofBytes_huffEncode s
  have hones := ones_partial hk
  rw [pending_init, List.nil_append, hbits] at hspec
  match huffDecodeLoop cap .init buf (huffEncode s), hspec with
  | .ok (ctx, out), ⟨hok, hcap, out', hout, hread⟩ =>
    -- each of the two readings goes on from the other one
    obtain ⟨u, hu, hpend⟩ := huffCode_prefixFree.eq_append_of_partial hones hread.symm
    obtain ⟨u', hu', -⟩ :=
      huffCode_prefixFree.eq_append_of_partial (partial_code_pending hok.lt) hread
    have hlen := congrArg List.length hu
    have hlen' := congrArg List.length hu'
    rw [List.length_append] at hlen hlen'
    obtain rfl : u = [] := List.eq_nil_of_length_eq_zero (by omega)
    rw [List.append_nil] at hu
    obtain rfl : s = out' := (List.map_injective_iff.2 byteSym_injective) hu
    rw [hout, List.length_append] at hcap
    exact Or.inl ⟨hcap, ctx, hok.accept.2 ⟨k, hk, hpend⟩, by rw [hout]⟩
  | .error .headerComp, ⟨out, rest, hread⟩ =>
    -- the symbol 256 would be a byte
    have heq : encode huffCode (out.map byteSym ++ [⟨256, by norm_num⟩]) ++ rest =
        encode huffCode (s.map byteSym) ++ List.replicate k true := by
      rw [encode_append, encode_cons, encode_nil, huffCode_eos, List.append_nil, List.append_assoc]
      exact hread.symm
    obtain ⟨u, hu, -⟩ := huffCode_prefixFree.eq_append_of_partial hones heq
    have hmem : (⟨256, by norm_num⟩ : Fin 257) ∈ s.map byteSym := by simp [hu]
    obtain ⟨b, -, hb⟩ := List.mem_map.1 hmem
    exact absurd hb (byteSym_ne_eos b)
  | .error .bufferError, ⟨out, rest, hlen, hread⟩ =>
    obtain ⟨u, hu, -⟩ := huffCode_prefixFree.eq_append_of_partial hones hread.symm
    have hle := congrArg List.length hu
    rw [List.length_append, List.length_map, List.length_map] at hle
    exact Or.inr ⟨by omega, rfl⟩

/-- **The decoder accepts the strings of the encoder, and returns what has been encoded.** -/
theorem huffDecodeAll_iff (cap : ℕ) (b s : Bytes) :
    (∃ ctx, huffDecodeAll cap .init [] b true = .ok (ctx, s)) ↔
      s.length ≤ cap ∧ b = huffEncode s := by
  constructor
  · rintro ⟨ctx, hres⟩
    obtain ⟨⟨ctx', buf⟩, hloop, hfinal⟩ := bind_eq_ok.1 hres
    have hspec := huffDecodeLoop_decoded cap b [] HuffContext.init_ok (Nat.zero_le cap)
    rw [hloop, pending_init, List.nil_append] at hspec
    obtain ⟨hok, hcap, out, hout, hread⟩ := hspec
    dsimp only at hfinal
    cases hacc : ctx'.accept with
    | false =>
      rw [hacc] at hfinal
      cases hfinal
    | true =>
      rw [hacc] at hfinal
      cases hfinal
      rw [List.nil_append] at hout
      subst hout
      obtain ⟨k, hk, hpend⟩ := hok.accept.1 hacc
      exact ⟨hcap, (huffEncode_iff b s).2 ⟨k, hk, hread.trans (by rw [hpend])⟩⟩
  · rintro ⟨hcap, rfl⟩
    obtain ⟨-, ctx, hacc, hloop⟩ | ⟨hlarge, -⟩ := huffDecodeLoop_huffEncode [] s (Nat.zero_le cap)
    case inr => exact absurd hlarge (by simpa using hcap)
    refine ⟨ctx, bind_eq_ok.2 ⟨(ctx, s), hloop, ?_⟩⟩
    dsimp only
    rw [hacc]
    rfl

/-- A string that is decoded in pieces, the last one with `final`. -/
def huffDecodeChunks (cap : ℕ) (ctx : HuffContext) (buf : Bytes) :
    Bytes → List Bytes → Except HdError (HuffContext × Bytes)
  | c, [] => huffDecodeAll cap ctx buf c true
  | c, c' :: cs => do
    let (ctx, buf) ← huffDecodeAll cap ctx buf c false
    huffDecodeChunks cap ctx buf c' cs

/-- **Chunks are as good as the whole.** -/
theorem huffDecodeChunks_eq (cap : ℕ) :
    ∀ (ctx : HuffContext) (buf c : Bytes) (cs : List Bytes),
      huffDecodeChunks cap ctx buf c cs = huffDecodeAll cap ctx buf (c ++ cs.flatten) true
  | ctx, buf, c, [] => by rw [List.flatten_nil, List.append_nil, huffDecodeChunks]
  | ctx, buf, c, c' :: cs => by
    rw [huffDecodeChunks, huffDecodeAll, huffDecodeAll, huffDecodeLoop_append, List.flatten_cons]
    simp only [bind_assoc]
    congr 1
    funext r
    exact huffDecodeChunks_eq cap r.1 r.2 c' cs

/-- **The Huffman codec is exact.**  However a string is cut, the decoder accepts it just if it is
what the encoder writes for some bytes, which are then returned, as far as the buffer holds them.
What the encoder writes is the codes, filled up with less than eight ones. -/
theorem huffDecodeChunks_exact (cap : ℕ) (c : Bytes) (cs : List Bytes) (s : Bytes) :
    ((∃ ctx, huffDecodeChunks cap .init [] c cs = .ok (ctx, s)) ↔
      s.length ≤ cap ∧ c ++ cs.flatten = huffEncode s) ∧
    (c ++ cs.flatten = huffEncode s ↔
      ∃ k < 8, ofBytes (c ++ cs.flatten) = codeBits s ++ List.replicate k true) := by
  refine ⟨?_, huffEncode_iff (c ++ cs.flatten) s⟩
  rw [huffDecodeChunks_eq]
  exact huffDecodeAll_iff cap (c ++ cs.flatten) s

end Nghttp2.Hd
