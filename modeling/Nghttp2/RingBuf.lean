/-
# The ring buffer of the dynamic table

`nghttp2_hd_ringbuf` keeps the entries in the slots `(first + i) & mask` of an array whose length
is a power of two.  `first` is a `size_t` that is counted down through zero.

* `Holds`: which list a buffer holds;
* `refines_of_reaches`: in every run the buffer is a list.
-/
import Mathlib.Tactic

namespace Nghttp2.Hd

/-- `nghttp2_hd_ringbuf`. -/
structure RingBuf (α : Type) where
  buffer : ℕ → Option α
  mask : ℕ
  first : ℕ
  len : ℕ

namespace RingBuf

variable {α : Type}

/-- `for (size = 1; size < bufsize; size <<= 1)`.  After 64 turns `size` is zero, and the loop
does not end. -/
def sizeLoop (bufsize : ℕ) : ℕ → ℕ → Option ℕ
  | 0, _ => none
  | turns + 1, size =>
    if size < bufsize then sizeLoop bufsize turns ((size <<< 1) % 2 ^ 64) else some size

/-- The length of a new array, if the loop ends and the number of its bytes is a `size_t`. -/
def newSize (bufsize : ℕ) : Option ℕ := (sizeLoop bufsize 64 1).filter (8 * · < 2 ^ 64)

/-- `hd_ringbuf_init`. -/
def init (bufsize : ℕ) : Option (RingBuf α) :=
  (newSize bufsize).map fun size => ⟨fun _ => none, size - 1, 0, 0⟩

/-- `hd_ringbuf_get`; the assertion fails for an index that is too large. -/
def get (r : RingBuf α) (idx : ℕ) : Option α :=
  if idx < r.len then r.buffer ((r.first + idx) % 2 ^ 64 &&& r.mask) else none

/-- `hd_ringbuf_reserve`. -/
def reserve (r : RingBuf α) (bufsize : ℕ) : Option (RingBuf α) :=
  if r.mask + 1 ≥ bufsize then some r
  else (newSize bufsize).map fun size => ⟨r.get, size - 1, 0, r.len⟩

/-- `hd_ringbuf_push_front`. -/
def pushFront (r : RingBuf α) (ent : α) : Option (RingBuf α) :=
  (r.reserve (r.len + 1)).map fun r =>
    let first := (r.first + (2 ^ 64 - 1)) % 2 ^ 64
    ⟨Function.update r.buffer (first &&& r.mask) (some ent), r.mask, first, r.len + 1⟩

/-- `hd_ringbuf_pop_back`, with its assertion. -/
def popBack (r : RingBuf α) : Option (RingBuf α) :=
  if 0 < r.len then some { r with len := r.len - 1 } else none

/-- The operations on a buffer. -/
inductive Op (α : Type)
  | reserve (bufsize : ℕ)
  | pushFront (ent : α)
  | popBack

/-- **One operation.** -/
def step (r : RingBuf α) : Op α → Option (RingBuf α)
  | .reserve bufsize => r.reserve bufsize
  | .pushFront ent => r.pushFront ent
  | .popBack => r.popBack

/-- The same operation on a list. -/
def stepList (l : List α) : Op α → List α
  | .reserve _ => l
  | .pushFront ent => ent :: l
  | .popBack => l.dropLast

/-- The array has at most `2 ^ 60` slots, and an entry that is taken out is there. -/
def Fits (l : List α) : Op α → Prop
  | .reserve bufsize => bufsize ≤ 2 ^ 60
  | .pushFront _ => l.length < 2 ^ 60
  | .popBack => l ≠ []

/-- The operations have led a new buffer to `r`, and an empty list to `l`. -/
inductive Reaches : RingBuf α → List α → Prop
  | init {bufsize : ℕ} {r : RingBuf α} : init bufsize = some r → Reaches r []
  | step {r r' : RingBuf α} {l : List α} {op : Op α} : Reaches r l → r.step op = some r' →
      Reaches r' (stepList l op)

/-- **The buffer holds the list.** -/
structure Holds (r : RingBuf α) (l : List α) : Prop where
  len : r.len = l.length
  size : ∃ k ≤ 60, r.mask = 2 ^ k - 1 ∧ l.length ≤ 2 ^ k
  get : ∀ i, r.get i = l[i]?

variable {r r' : RingBuf α} {l : List α} {ent : α} {op : Op α} {i k n size : ℕ}

/-- The loop finds the least power of two that is not below `n`. -/
theorem sizeLoop_eq (turns j : ℕ) (hj : turns + j = 64) (hle : j ≤ Nat.clog 2 n) :
    sizeLoop n turns (2 ^ j) = if Nat.clog 2 n < 64 then some (2 ^ Nat.clog 2 n) else none := by
  induction turns generalizing j with
  | zero => rw [sizeLoop, if_neg (by omega)]
  | succ turns ih =>
    simp only [sizeLoop, ← Nat.lt_clog_iff_pow_lt one_lt_two]
    by_cases hlt : j < Nat.clog 2 n
    · rw [if_pos hlt]
      rcases Nat.eq_zero_or_pos turns with rfl | hpos
      · rw [sizeLoop, if_neg (by omega)]
      have hshift : ((2 ^ j) <<< 1) % 2 ^ 64 = 2 ^ (j + 1) := by
        rw [Nat.shiftLeft_eq, pow_one, ← pow_succ]
        exact Nat.mod_eq_of_lt (Nat.pow_lt_pow_right one_lt_two (by omega))
      rw [hshift, ih (j + 1) (by omega) hlt]
    · obtain rfl : j = Nat.clog 2 n := by omega
      rw [if_neg hlt, if_pos (by omega)]

/-- The next power of two, up to `2 ^ 60`. -/
theorem newSize_eq :
    newSize n = if Nat.clog 2 n ≤ 60 then some (2 ^ Nat.clog 2 n) else none := by
  have hloop := sizeLoop_eq (n := n) 64 0 rfl (Nat.zero_le _)
  have hbytes : ∀ k, 8 * 2 ^ k < 2 ^ 64 ↔ k ≤ 60 := fun k => by
    rw [show 8 * 2 ^ k = 2 ^ (k + 3) by ring, Nat.pow_lt_pow_iff_right one_lt_two]
    omega
  rw [pow_zero] at hloop
  rw [newSize, hloop]
  split_ifs with h64 h60 h60
  · rw [Option.filter_some, if_pos (by simpa using (hbytes _).2 h60)]
  · rw [Option.filter_some, if_neg (by simpa using fun h => h60 ((hbytes _).1 h))]
  · omega
  · rfl

/-- An array is allocated for at most `2 ^ 60` entries, and has room for them. -/
theorem exists_newSize (hn : n ≤ 2 ^ 60) : ∃ size, newSize n = some size :=
  ⟨_, newSize_eq.trans (if_pos (Nat.clog_le_of_le_pow hn))⟩

/-- Small buffers can be made. -/
theorem exists_init (hn : n ≤ 2 ^ 60) : ∃ r : RingBuf α, init n = some r := by
  obtain ⟨size, hsize⟩ := exists_newSize hn
  exact ⟨_, by rw [init, hsize]; rfl⟩

/-- The size is a power of two that suffices. -/
theorem newSize_eq_some (h : newSize n = some size) : ∃ k ≤ 60, size = 2 ^ k ∧ n ≤ 2 ^ k := by
  rw [newSize_eq] at h
  split_ifs at h with hk
  exact ⟨_, hk, (Option.some.inj h).symm, Nat.le_pow_clog one_lt_two n⟩

/-- The mask is a remainder. -/
theorem slot_eq (hk : k ≤ 60) (i : ℕ) : i % 2 ^ 64 &&& (2 ^ k - 1) = i % 2 ^ k := by
  rw [Nat.and_two_pow_sub_one_eq_mod, Nat.mod_mod_of_dvd _ (pow_dvd_pow 2 (by omega))]

/-- Growing keeps the entries and their order. -/
theorem Holds.reserve (h : Holds r l) (hres : r.reserve n = some r') :
    Holds r' l ∧ n ≤ r'.mask + 1 := by
  unfold RingBuf.reserve at hres
  split_ifs at hres with hle
  · cases hres
    exact ⟨h, hle⟩
  obtain ⟨size, hsize, rfl⟩ := Option.map_eq_some_iff.1 hres
  obtain ⟨k, hk, rfl, hnk⟩ := newSize_eq_some hsize
  obtain ⟨j, -, hmask, hlen⟩ := h.size
  refine ⟨⟨h.len, ⟨k, hk, rfl, by omega⟩, fun i => ?_⟩, by dsimp only; omega⟩
  rw [RingBuf.get, zero_add, slot_eq hk, ← h.get]
  dsimp only
  split_ifs with hi
  · rw [h.len] at hi
    rw [Nat.mod_eq_of_lt (by omega)]
  · rw [RingBuf.get, if_neg hi]

/-- Counting `first` down and up again leads back to the same slot, also through zero. -/
theorem slot_pred (hk : k ≤ 60) (first i : ℕ) :
    ((first + (2 ^ 64 - 1)) % 2 ^ 64 + (i + 1)) % 2 ^ k = (first + i) % 2 ^ k := by
  have hdvd : 2 ^ k ∣ 2 ^ 64 := pow_dvd_pow 2 (by omega)
  have hmod : (first + (2 ^ 64 - 1)) % 2 ^ 64 ≡ first + (2 ^ 64 - 1) [MOD 2 ^ k] :=
    (Nat.mod_modEq ..).of_dvd hdvd
  have hsum : first + (2 ^ 64 - 1) + (i + 1) = first + i + 2 ^ 64 := by omega
  calc ((first + (2 ^ 64 - 1)) % 2 ^ 64 + (i + 1)) % 2 ^ k
      = (first + (2 ^ 64 - 1) + (i + 1)) % 2 ^ k := hmod.add_right _
    _ = (first + i + 2 ^ 64) % 2 ^ k := by rw [hsum]
    _ = (first + i) % 2 ^ k := hdvd.modEq_zero_nat.add_left _

/-- The new entry is in front. -/
theorem Holds.pushFront (h : Holds r l) (hres : r.pushFront ent = some r') :
    Holds r' (ent :: l) := by
  obtain ⟨r1, hreserve, rfl⟩ := Option.map_eq_some_iff.1 hres
  obtain ⟨h1, hroom⟩ := h.reserve hreserve
  obtain ⟨k, hk, hmask, hlen⟩ := h1.size
  rw [h.len, hmask, Nat.sub_add_cancel Nat.one_le_two_pow] at hroom
  refine ⟨by simp [h1.len], ⟨k, hk, hmask, hroom⟩, fun i => ?_⟩
  have hpred := slot_pred hk r1.first
  rw [RingBuf.get]
  dsimp only
  generalize (r1.first + (2 ^ 64 - 1)) % 2 ^ 64 = first at hpred ⊢
  rw [hmask, slot_eq hk, Nat.and_two_pow_sub_one_eq_mod]
  cases i with
  | zero => rw [if_pos (Nat.succ_pos _), add_zero, Function.update_self, List.getElem?_cons_zero]
  | succ i =>
    rw [List.getElem?_cons_succ, ← h1.get, RingBuf.get, hmask, slot_eq hk, ← hpred i]
    by_cases hi : i < r1.len
    · rw [if_pos hi, if_pos (Nat.succ_lt_succ hi), Function.update_of_ne]
      -- two slots of one array that are less than its length apart are different
      intro heq
      have hdvd := Nat.dvd_of_mod_eq_zero (Nat.sub_mod_eq_zero_of_mod_eq heq)
      rw [Nat.add_sub_cancel_left] at hdvd
      rw [h1.len] at hi
      exact absurd (Nat.le_of_dvd (Nat.succ_pos i) hdvd) (by omega)
    · rw [if_neg hi, if_neg (by omega)]

/-- The oldest entry is no longer counted. -/
theorem Holds.popBack (h : Holds r l) (hres : r.popBack = some r') : Holds r' l.dropLast := by
  unfold RingBuf.popBack at hres
  split_ifs at hres with hpos
  obtain ⟨k, hk, hmask, hlen⟩ := h.size
  cases hres
  refine ⟨by simp [h.len], ⟨k, hk, hmask, by rw [List.length_dropLast]; omega⟩, fun i => ?_⟩
  have hget := h.get i
  unfold RingBuf.get at hget ⊢
  dsimp only
  rw [List.getElem?_dropLast, ← h.len]
  split_ifs with hi
  · rwa [if_pos (by omega)] at hget
  · rfl

/-- **In every run the buffer holds the list.** -/
theorem Reaches.holds (h : Reaches r l) : Holds r l := by
  induction h with
  | init hinit =>
    obtain ⟨size, hsize, rfl⟩ := Option.map_eq_some_iff.1 hinit
    obtain ⟨k, hk, rfl, -⟩ := newSize_eq_some hsize
    exact ⟨rfl, ⟨k, hk, rfl, Nat.zero_le _⟩, fun _ => rfl⟩
  | @step _ _ _ op _ hstep ih =>
    cases op with
    | reserve bufsize => exact (ih.reserve hstep).1
    | pushFront ent => exact ih.pushFront hstep
    | popBack => exact ih.popBack hstep

/-- An operation is possible as long as the array can be allocated. -/
theorem Holds.exists_step (h : Holds r l) (hfits : Fits l op) : ∃ r', r.step op = some r' := by
  have hreserve : ∀ {n}, n ≤ 2 ^ 60 → ∃ r', r.reserve n = some r' := fun {n} hn => by
    unfold RingBuf.reserve
    split_ifs
    · exact ⟨r, rfl⟩
    · obtain ⟨size, hsize⟩ := exists_newSize hn
      exact ⟨_, congrArg _ hsize⟩
  cases op with
  | reserve bufsize => exact hreserve hfits
  | pushFront ent =>
    obtain ⟨r', hr⟩ := hreserve (n := r.len + 1) (h.len ▸ hfits)
    exact ⟨_, Option.map_eq_some_iff.2 ⟨r', hr, rfl⟩⟩
  | popBack => exact ⟨_, if_pos (h.len ▸ List.length_pos_iff.2 hfits)⟩

end RingBuf

end Nghttp2.Hd
