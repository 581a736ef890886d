/-
# Bit strings

Numbers and bytes as lists of bits, with the most significant bit first, and tables that are
packed into one number.

* `bits n x`: the lower `n` bits of `x`;
* `bits_add`: they can be cut anywhere;
* `ofBytes`: the bits of a list of bytes;
* `pack`: a list of numbers as one number, so that looking up an entry is arithmetic.
-/
import Mathlib.Tactic

namespace BitString

/-! ## The bits of a number -/

/-- The lower `n` bits of `x`. -/
def bits : ℕ → ℕ → List Bool
  | 0, _ => []
  | n + 1, x => x.testBit n :: bits n x

@[simp] theorem bits_zero (x : ℕ) : bits 0 x = [] := rfl

@[simp] theorem length_bits : ∀ n x : ℕ, (bits n x).length = n
  | 0, _ => rfl
  | n + 1, x => by rw [bits, List.length_cons, length_bits n x]

variable {k m n w x y : ℕ}

/-- The bits below `n` decide. -/
theorem bits_congr : ∀ {n : ℕ}, (∀ i < n, x.testBit i = y.testBit i) → bits n x = bits n y
  | 0, _ => rfl
  | n + 1, h => by
    rw [bits, bits, h n (Nat.lt_succ_self n), bits_congr fun i hi => h i (Nat.lt_succ_of_lt hi)]

/-- Each bit can be read off. -/
theorem testBit_of_bits :
    ∀ {n : ℕ}, bits n x = bits n y → ∀ i < n, x.testBit i = y.testBit i
  | n + 1, h, i, hi => by
    rw [bits, bits, List.cons.injEq] at h
    rcases Nat.lt_succ_iff_lt_or_eq.1 hi with hlt | rfl
    · exact testBit_of_bits h.2 i hlt
    · exact h.1

/-- **The bits of a number can be cut anywhere.** -/
theorem bits_add (n m x : ℕ) : bits (n + m) x = bits n (x / 2 ^ m) ++ bits m x := by
  induction n with
  | zero => rw [Nat.zero_add, bits_zero, List.nil_append]
  | succ n ih => rw [Nat.add_right_comm, bits, bits, ih, List.cons_append, Nat.testBit_div_two_pow]

/-- Higher bits do not matter. -/
theorem bits_mod (h : n ≤ k) (x : ℕ) : bits n (x % 2 ^ k) = bits n x := by
  apply bits_congr
  intro i hi
  rw [Nat.testBit_mod_two_pow, decide_eq_true (by omega), Bool.true_and]

/-- Small numbers differ in their bits. -/
theorem bits_inj (hx : x < 2 ^ n) (hy : y < 2 ^ n) (h : bits n x = bits n y) : x = y := by
  apply Nat.eq_of_testBit_eq
  intro i
  rcases lt_or_ge i n with hi | hi
  · exact testBit_of_bits h i hi
  · have hpow : 2 ^ n ≤ 2 ^ i := Nat.pow_le_pow_right two_pos hi
    rw [Nat.testBit_lt_two_pow (hx.trans_le hpow), Nat.testBit_lt_two_pow (hy.trans_le hpow)]

/-- All bits are set. -/
theorem bits_ones (n : ℕ) : bits n (2 ^ n - 1) = List.replicate n true := by
  apply List.eq_replicate_iff.2
  refine ⟨length_bits n _, ?_⟩
  have hall : ∀ m ≤ n, ∀ b ∈ bits m (2 ^ n - 1), b = true := by
    intro m
    induction m with
    | zero => exact fun _ b hb => nomatch hb
    | succ m ih =>
      intro hm b hb
      rw [bits, List.mem_cons] at hb
      rcases hb with rfl | hb
      · rw [Nat.testBit_two_pow_sub_one, decide_eq_true (by omega)]
      · exact ih (by omega) b hb
  exact hall n le_rfl

/-- Two numbers, one after the other. -/
theorem bits_mul_add (hy : y < 2 ^ m) : bits (n + m) (x * 2 ^ m + y) = bits n x ++ bits m y := by
  have hdiv : (x * 2 ^ m + y) / 2 ^ m = x := by
    rw [Nat.mul_comm, Nat.mul_add_div (Nat.two_pow_pos m), Nat.div_eq_of_lt hy, Nat.add_zero]
  have hmod : (x * 2 ^ m + y) % 2 ^ m = y := by
    rw [Nat.mul_comm, Nat.mul_add_mod, Nat.mod_eq_of_lt hy]
  rw [bits_add, hdiv, ← bits_mod le_rfl (x * 2 ^ m + y), hmod]

/-- A prefix, as a quotient. -/
theorem prefix_bits (hx : x < 2 ^ n) (hy : y < 2 ^ m) (h : bits n x <+: bits m y) :
    n ≤ m ∧ y / 2 ^ (m - n) = x := by
  have hle : n ≤ m := by simpa using h.length_le
  refine ⟨hle, ?_⟩
  obtain ⟨d, rfl⟩ := Nat.exists_eq_add_of_le hle
  obtain ⟨t, ht⟩ := h
  rw [bits_add] at ht
  have heq := (List.append_inj ht (by simp)).1
  rw [Nat.add_sub_cancel_left]
  refine (bits_inj hx ?_ heq).symm
  exact Nat.div_lt_of_lt_mul (by rwa [← Nat.pow_add, Nat.add_comm])

/-! ## The bits of bytes -/

/-- The bits of a list of bytes. -/
def ofBytes (l : List UInt8) : List Bool := l.flatMap fun b => bits 8 b.toNat

@[simp] theorem ofBytes_nil : ofBytes [] = [] := rfl

@[simp] theorem ofBytes_cons (b : UInt8) (l : List UInt8) :
    ofBytes (b :: l) = bits 8 b.toNat ++ ofBytes l := rfl

@[simp] theorem ofBytes_append (l l' : List UInt8) :
    ofBytes (l ++ l') = ofBytes l ++ ofBytes l' := by
  simp [ofBytes]

@[simp] theorem length_ofBytes : ∀ l : List UInt8, (ofBytes l).length = 8 * l.length
  | [] => rfl
  | b :: l => by
    rw [ofBytes_cons, List.length_append, length_bits, length_ofBytes l, List.length_cons]
    omega

/-- Different bytes have different bits. -/
theorem ofBytes_inj : ∀ {l l' : List UInt8}, ofBytes l = ofBytes l' → l = l'
  | [], [], _ => rfl
  | [], b :: l', h => by
    have hlen := congrArg List.length h
    rw [length_ofBytes, length_ofBytes, List.length_cons, List.length_nil] at hlen
    omega
  | b :: l, [], h => by
    have hlen := congrArg List.length h
    rw [length_ofBytes, length_ofBytes, List.length_cons, List.length_nil] at hlen
    omega
  | b :: l, b' :: l', h => by
    rw [ofBytes_cons, ofBytes_cons] at h
    obtain ⟨hb, hl⟩ := List.append_inj h (by simp)
    rw [UInt8.toNat_inj.1 (bits_inj b.toNat_lt b'.toNat_lt hb), ofBytes_inj hl]

/-- The bits of a byte. -/
theorem bits_ofNat (x : ℕ) : bits 8 (UInt8.ofNat x).toNat = bits 8 x := by
  rw [UInt8.toNat_ofNat', bits_mod le_rfl]

/-! ## Packed tables -/

/-- A list of numbers as one number; each of them takes `w` bits. -/
def pack (w : ℕ) (l : List ℕ) : ℕ := l.foldr (fun x acc => acc * 2 ^ w + x) 0

/-- Entry `k` of a packed list. -/
def unpack (w t k : ℕ) : ℕ := t >>> (w * k) % 2 ^ w

/-- **Packed numbers are read back.** -/
theorem unpack_pack :
    ∀ {l : List ℕ} {k : ℕ}, (∀ x ∈ l, x < 2 ^ w) → unpack w (pack w l) k = l.getD k 0
  | [], k, _ => by simp [pack, unpack]
  | x :: l, 0, h => by
    have hx : x < 2 ^ w := h x List.mem_cons_self
    show (pack w l * 2 ^ w + x) >>> (w * 0) % 2 ^ w = x
    rw [Nat.mul_zero, Nat.shiftRight_zero, Nat.mul_comm, Nat.mul_add_mod, Nat.mod_eq_of_lt hx]
  | x :: l, k + 1, h => by
    have hx : x < 2 ^ w := h x List.mem_cons_self
    have hl : ∀ y ∈ l, y < 2 ^ w := fun y hy => h y (List.mem_cons_of_mem x hy)
    have hdiv : (pack w l * 2 ^ w + x) / 2 ^ w = pack w l := by
      rw [Nat.mul_comm, Nat.mul_add_div (Nat.two_pow_pos w), Nat.div_eq_of_lt hx, Nat.add_zero]
    show (pack w l * 2 ^ w + x) >>> (w * (k + 1)) % 2 ^ w = l.getD k 0
    rw [← unpack_pack hl, Nat.mul_succ, Nat.add_comm (w * k) w, Nat.shiftRight_add,
      Nat.shiftRight_eq_div_pow _ w, hdiv, unpack]

/-- What stands at one place in both lists. -/
theorem getD_mem_zip {α β : Type*} {l : List α} {l' : List β} (h : k < l.length)
    (h' : k < l'.length) (d : α) (d' : β) : (l.getD k d, l'.getD k d') ∈ l.zip l' := by
  rw [List.getD_eq_getElem?_getD, List.getD_eq_getElem?_getD, List.getElem?_eq_getElem h,
    List.getElem?_eq_getElem h']
  refine List.mem_iff_getElem.2 ⟨k, ?_, List.getElem_zip⟩
  rw [List.length_zip]
  exact lt_min h h'

/-- A list of pairs as one number; the parts of a pair take `v` and `w` bits. -/
def packPairs (v w : ℕ) (l : List (ℕ × ℕ)) : ℕ := pack (v + w) (l.map fun e => e.1 * 2 ^ w + e.2)

/-- Entry `k` of a packed list of pairs. -/
def unpackPair (v w t k : ℕ) : ℕ × ℕ :=
  let e := unpack (v + w) t k
  (e / 2 ^ w, e % 2 ^ w)

/-- **Packed pairs are read back.** -/
theorem unpackPair_packPairs {v : ℕ} {l : List (ℕ × ℕ)} (h : ∀ e ∈ l, e.1 < 2 ^ v ∧ e.2 < 2 ^ w)
    (k : ℕ) : unpackPair v w (packPairs v w l) k = l.getD k (0, 0) := by
  have hbound : ∀ x ∈ l.map (fun e => e.1 * 2 ^ w + e.2), x < 2 ^ (v + w) := by
    intro x hx
    obtain ⟨e, he, rfl⟩ := List.mem_map.1 hx
    obtain ⟨h1, h2⟩ := h e he
    calc e.1 * 2 ^ w + e.2 < (e.1 + 1) * 2 ^ w := by rw [Nat.succ_mul]; omega
      _ ≤ 2 ^ v * 2 ^ w := Nat.mul_le_mul_right _ h1
      _ = 2 ^ (v + w) := (Nat.pow_add 2 v w).symm
  rw [unpackPair, packPairs, unpack_pack hbound]
  rcases Nat.lt_or_ge k l.length with hk | hk
  · have hk' : k < (l.map fun e => e.1 * 2 ^ w + e.2).length := by rwa [List.length_map]
    have hlt : (l[k]).2 < 2 ^ w := (h _ (List.getElem_mem hk)).2
    rw [List.getD_eq_getElem?_getD, List.getD_eq_getElem?_getD, List.getElem?_eq_getElem hk',
      List.getElem?_eq_getElem hk, Option.getD_some, Option.getD_some, List.getElem_map,
      Nat.mul_comm, Nat.mul_add_div (Nat.two_pow_pos w), Nat.div_eq_of_lt hlt, Nat.add_zero,
      Nat.mul_add_mod, Nat.mod_eq_of_lt hlt]
  · have hk' : (l.map fun e => e.1 * 2 ^ w + e.2).length ≤ k := by rwa [List.length_map]
    rw [List.getD_eq_getElem?_getD, List.getD_eq_getElem?_getD, List.getElem?_eq_none hk',
      List.getElem?_eq_none hk, Option.getD_none, Option.getD_none, Nat.zero_div, Nat.zero_mod]

end BitString
