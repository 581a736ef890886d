/-
# The frames in a byte stream

What comes from the peer is one string of bytes, and the lengths in the frame headers say
where the frames are.  `Phase` is the place in that string, `scan` reads on byte by byte.
This is what the receiver has to agree with, however its input is cut.

* `Phase.scan`, `Phase.count`: the place after some bytes, and how many of them were payload
  of DATA frames;
* `scan_ofLeft`, `scan_short`, `scan_full`: the same for a piece of a payload and of a header.
-/
import Nghttp2.FrameFormat

namespace Nghttp2.Format

open Hd (Bytes)

/-- The place in a byte stream: in the header of a frame, of which some bytes have been read,
or in the payload of a frame, of which some bytes are left. -/
inductive Phase
  | head (got : Bytes)
  | body (left : ℕ) (data : Bool)
deriving DecidableEq, Repr

namespace Phase

/-- The place with `left` bytes of payload to come. -/
def ofLeft (left : ℕ) (data : Bool) : Phase := if left = 0 then .head [] else .body left data

/-- The place behind the header of a frame. -/
def ofHd (hd : FrameHd) : Phase := ofLeft hd.length (decide (hd.type = FrameType.data.code))

/-- The place after one byte. -/
def byte : Phase → UInt8 → Phase
  | .head got, b =>
    if (got ++ [b]).length < frameHdlen then .head (got ++ [b]) else ofHd
      (unpackFrameHd (got ++ [b]))
  | .body left data, _ => ofLeft (left - 1) data

/-- The next byte is payload of a DATA frame. -/
def isData : Phase → Bool
  | .head _ => false
  | .body _ data => data

/-- The place after some bytes. -/
def scan (p : Phase) (l : Bytes) : Phase := l.foldl byte p

/-- How many of some bytes are payload of DATA frames. -/
def count : Phase → Bytes → ℕ
  | _, [] => 0
  | p, b :: l => (if p.isData then 1 else 0) + (p.byte b).count l

variable {p : Phase} {l l' got : Bytes} {left : ℕ} {data : Bool}

@[simp] theorem scan_nil (p : Phase) : p.scan [] = p := rfl

@[simp] theorem scan_cons (p : Phase) (b : UInt8) (l : Bytes) :
    p.scan (b :: l) = (p.byte b).scan l := rfl

@[simp] theorem count_nil (p : Phase) : p.count [] = 0 := rfl

theorem scan_append (p : Phase) (l l' : Bytes) : p.scan (l ++ l') = (p.scan l).scan l' :=
  List.foldl_append

theorem count_append (p : Phase) (l l' : Bytes) :
    p.count (l ++ l') = p.count l + (p.scan l).count l' := by
  induction l generalizing p with
  | nil => simp
  | cons b l ih =>
    rw [List.cons_append, count, count, ih, scan_cons, Nat.add_assoc]

@[simp] theorem ofLeft_zero (data : Bool) : ofLeft 0 data = .head [] := rfl

theorem ofLeft_pos (h : 0 < left) : ofLeft left data = .body left data := if_neg h.ne'

/-- **A piece of a payload.** -/
theorem scan_ofLeft (data : Bool) (h : l.length ≤ left) :
    (ofLeft left data).scan l = ofLeft (left - l.length) data ∧
      (ofLeft left data).count l = if data then l.length else 0 := by
  induction l generalizing left with
  | nil => simp
  | cons b l ih =>
    rw [List.length_cons] at h
    have hbyte : (ofLeft left data).byte b = ofLeft (left - 1) data := by
      rw [ofLeft_pos (by omega)]
      rfl
    have hdata : (ofLeft left data).isData = data := by
      rw [ofLeft_pos (by omega)]
      rfl
    obtain ⟨hscan, hcount⟩ := ih (by omega : l.length ≤ left - 1)
    constructor
    · rw [scan_cons, hbyte, hscan, List.length_cons]
      congr 1
      omega
    · rw [count, hbyte, hcount, hdata, List.length_cons]
      cases data
      · simp
      · simp only [if_true]
        omega

/-- **A piece of a header**, which is not complete yet. -/
theorem scan_short (h : got.length + l.length < frameHdlen) :
    (head got).scan l = .head (got ++ l) ∧ (head got).count l = 0 := by
  induction l generalizing got with
  | nil => simp
  | cons b l ih =>
    rw [List.length_cons] at h
    have hbyte : (head got).byte b = .head (got ++ [b]) := by
      rw [byte, if_pos (by rw [List.length_append, List.length_singleton]; omega)]
    have hlen : (got ++ [b]).length + l.length < frameHdlen := by
      rw [List.length_append, List.length_singleton]
      omega
    obtain ⟨hscan, hcount⟩ := ih hlen
    constructor
    · rw [scan_cons, hbyte, hscan, List.append_assoc, List.singleton_append]
    · rw [count, hbyte, hcount]
      rfl

/-- **The rest of a header.** -/
theorem scan_full (h : got.length + l.length = frameHdlen) (hl : l ≠ []) :
    (head got).scan l = ofHd (unpackFrameHd (got ++ l)) ∧ (head got).count l = 0 := by
  obtain ⟨l, b, rfl⟩ : ∃ l' b, l = l' ++ [b] := ⟨l.dropLast, l.getLast hl,
    (List.dropLast_append_getLast hl).symm⟩
  rw [List.length_append, List.length_singleton] at h
  have hshort : got.length + l.length < frameHdlen := by omega
  obtain ⟨hscan, hcount⟩ := scan_short hshort
  constructor
  · rw [scan_append, hscan, scan_cons, scan_nil, byte,
      if_neg (by rw [List.length_append, List.length_append, List.length_singleton]; omega),
      List.append_assoc]
  · rw [count_append, hcount, hscan]
    rfl

end Phase

theorem length_unpackFrameHd_lt (buf : Bytes) : (unpackFrameHd buf).length < 2 ^ 24 := by
  have h := BigEndian.getBe_lt (buf.take 4)
  have hlen : (buf.take 4).length ≤ 4 := by simp
  have hpow : 256 ^ (buf.take 4).length ≤ 256 ^ 4 := Nat.pow_le_pow_right (by norm_num) hlen
  show BigEndian.getBe (buf.take 4) / 256 < 2 ^ 24
  omega

end Nghttp2.Format
