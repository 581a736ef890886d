/-
# Numbers in network byte order

`putBe k n` are the last `k` bytes of the number `n`, the most significant first, and
`getBe` reads such bytes.

* `getBe_lt`: what is read has at most as many digits as there are bytes;
* `getBe_putBe`: what is read after `putBe k n` is `n` modulo `256 ^ k`.
-/
import Mathlib.Tactic

namespace BigEndian

/-- The last `k` bytes of `n`. -/
def putBe : ℕ → ℕ → List UInt8
  | 0, _ => []
  | k + 1, n => UInt8.ofNat (n / 256 ^ k) :: putBe k n

/-- The number that the bytes are the digits of. -/
def getBe (l : List UInt8) : ℕ := l.foldl (fun n b => 256 * n + b.toNat) 0

@[simp] theorem length_putBe (k n : ℕ) : (putBe k n).length = k := by
  induction k with
  | zero => rfl
  | succ k ih => simp [putBe, ih]

theorem foldl_digits (l : List UInt8) (m : ℕ) :
    l.foldl (fun n b => 256 * n + b.toNat) m = m * 256 ^ l.length + getBe l := by
  induction l generalizing m with
  | nil => simp [getBe]
  | cons b l ih =>
    rw [getBe, List.foldl_cons, List.foldl_cons, ih, ih, List.length_cons, pow_succ]
    ring

theorem getBe_cons (b : UInt8) (l : List UInt8) :
    getBe (b :: l) = b.toNat * 256 ^ l.length + getBe l := by
  rw [getBe, List.foldl_cons, foldl_digits]
  simp

theorem getBe_lt (l : List UInt8) : getBe l < 256 ^ l.length := by
  induction l with
  | nil => decide
  | cons b l ih =>
    have hb := b.toNat_lt
    rw [getBe_cons, List.length_cons, pow_succ']
    calc b.toNat * 256 ^ l.length + getBe l < b.toNat * 256 ^ l.length + 256 ^ l.length := by omega
      _ = (b.toNat + 1) * 256 ^ l.length := by ring
      _ ≤ 256 * 256 ^ l.length := Nat.mul_le_mul_right _ (by omega)

/-- **Reading what was written.** -/
theorem getBe_putBe (k n : ℕ) : getBe (putBe k n) = n % 256 ^ k := by
  induction k with
  | zero => simp [putBe, getBe, Nat.mod_one]
  | succ k ih =>
    rw [putBe, getBe_cons, length_putBe, ih, Nat.mod_pow_succ, UInt8.toNat_ofNat']
    ring

theorem getBe_putBe_of_lt {k n : ℕ} (h : n < 256 ^ k) : getBe (putBe k n) = n := by
  rw [getBe_putBe, Nat.mod_eq_of_lt h]

end BigEndian
