/-
# Base64 and the token68 form of the HTTP2-Settings header field

`encode` and `decode` of `base64.h`, and `to_token68` and `to_base64` of `util.cc`, which
strip the padding of an encoded string and rebuild it from the length alone.

* `toBase64_toToken68_encode`: the padding that is stripped is rebuilt;
* `decodeLoop_encode`: what is encoded is decoded;
* `decode_toBase64_toToken68`: the round trip of the HTTP2-Settings value.
-/
import Mathlib.Tactic

namespace Nghttp2.Base64

/-- `CHAR_TABLE` of `encode`. -/
def charTable : List Char :=
  "ABCDEFGHIJKLMNOPQRSTUVWXYZabcdefghijklmnopqrstuvwxyz0123456789+/".toList

/-- The character of a value below 64. -/
def digit (v : ℕ) : Char := charTable.getD v '='

/-- `base64::encode`: groups of three bytes, and a tail of two, one or no byte. -/
def encode : List UInt8 → List Char
  | a :: b :: c :: rest =>
    let n := (a.toNat <<< 16) + (b.toNat <<< 8) + c.toNat
    [digit (n >>> 18), digit ((n >>> 12) &&& 0x3f), digit ((n >>> 6) &&& 0x3f),
      digit (n &&& 0x3f)] ++ encode rest
  | [a, b] =>
    let n := (a.toNat <<< 16) + (b.toNat <<< 8)
    [digit (n >>> 18), digit ((n >>> 12) &&& 0x3f), digit ((n >>> 6) &&& 0x3f), '=']
  | [a] =>
    let n := a.toNat <<< 16
    [digit (n >>> 18), digit ((n >>> 12) &&& 0x3f), '=', '=']
  | [] => []

/-- `INDEX_TABLE` of `decode`, with `none` for `-1`. -/
def indexTable : List (Option ℕ) :=
  List.replicate 43 none ++ [some 62, none, none, none, some 63] ++
    (List.range' 52 10).map some ++ List.replicate 7 none ++ (List.range' 0 26).map some ++
    List.replicate 6 none ++ (List.range' 26 26).map some ++ List.replicate 133 none

/-- The entry of a character.  The source reads the table with a signed `char` as the index,
which is outside of it for a byte from 128 on; here such a byte is garbage. -/
def index (c : Char) : Option ℕ := indexTable.getD c.toNat none

/-- `getNext`: the text from the next character on that is a digit or padding. -/
def getNext : List Char → List Char
  | [] => []
  | c :: cs => if (index c).isSome ∨ c = '=' then c :: cs else getNext cs

theorem length_getNext_le (cs : List Char) : (getNext cs).length ≤ cs.length := by
  induction cs with
  | nil => exact le_rfl
  | cons c cs ih =>
    rw [getNext]
    split
    · exact le_rfl
    · exact ih.trans (Nat.le_succ _)

/-- The inner loop of `decode`: the next four characters and the text behind them.  Without
them, whether the text has ended in front of the first. -/
def nextFour (cs : List Char) : Except Bool ((Char × Char × Char × Char) × List Char) :=
  match getNext cs with
  | [] => .error true
  | k0 :: cs =>
    match getNext cs with
    | [] => .error false
    | k1 :: cs =>
      match getNext cs with
      | [] => .error false
      | k2 :: cs =>
        match getNext cs with
        | [] => .error false
        | k3 :: cs => .ok ((k0, k1, k2, k3), cs)

variable {cs rest : List Char} {n v : ℕ}

theorem length_nextFour {k : Char × Char × Char × Char}
    (h : nextFour cs = .ok (k, rest)) : rest.length < cs.length := by
  have hl := length_getNext_le
  unfold nextFour at h
  split at h
  · cases h
  · rename_i k0 cs1 h0
    have hl0 := hl cs
    rw [h0, List.length_cons] at hl0
    split at h
    · cases h
    · rename_i k1 cs2 h1
      have hl1 := hl cs1
      rw [h1, List.length_cons] at hl1
      split at h
      · cases h
      · rename_i k2 cs3 h2
        have hl2 := hl cs2
        rw [h2, List.length_cons] at hl2
        split at h
        · cases h
        · rename_i k3 cs4 h3
          have hl3 := hl cs3
          rw [h3, List.length_cons] at hl3
          cases h
          omega

/-- What the end of `decode` makes of a group with padding in it: `res` and the bytes of the
group, or nothing if the padding is malformed. -/
def decodeLast (res : List UInt8) (k0 k1 k2 k3 : Char) : List UInt8 :=
  let n := ((index k0).getD 0 <<< 18) + ((index k1).getD 0 <<< 12)
  if k0 = '=' ∨ k1 = '=' then []
  else if k2 = '=' then
    if k3 = '=' then res ++ [UInt8.ofNat (n >>> 16)] else []
  else
    let n := n + ((index k2).getD 0 <<< 6)
    res ++ [UInt8.ofNat (n >>> 16), UInt8.ofNat ((n >>> 8) &&& 0xff)]

/-- The loop of `base64::decode`. -/
def decodeLoop (res : List UInt8) (cs : List Char) : List UInt8 :=
  match _h : nextFour cs with
  -- garbage at the end
  | .error true => res
  | .error false => []
  | .ok ((k0, k1, k2, k3), rest) =>
    if k0 = '=' ∨ k1 = '=' ∨ k2 = '=' ∨ k3 = '=' then decodeLast res k0 k1 k2 k3
    else
      let n := ((index k0).getD 0 <<< 18) + ((index k1).getD 0 <<< 12) +
        ((index k2).getD 0 <<< 6) + (index k3).getD 0
      decodeLoop (res ++ [UInt8.ofNat (n >>> 16), UInt8.ofNat ((n >>> 8) &&& 0xff),
        UInt8.ofNat (n &&& 0xff)]) rest
  termination_by cs.length
  decreasing_by exact length_nextFour _h

/-- `base64::decode`. -/
def decode (cs : List Char) : List UInt8 := decodeLoop [] cs

/-- The substitution of `to_token68`. -/
def urlChar (c : Char) : Char :=
  match c with
  | '+' => '-'
  | '/' => '_'
  | c => c

/-- `util::to_token68`. -/
def toToken68 (cs : List Char) : List Char := (cs.map urlChar).takeWhile (· ≠ '=')

/-- The substitution of `to_base64`. -/
def base64Char (c : Char) : Char :=
  match c with
  | '-' => '+'
  | '_' => '/'
  | c => c

/-- `util::to_base64`. -/
def toBase64 (cs : List Char) : List Char :=
  let cs := cs.map base64Char
  if cs.length &&& 0x3 ≠ 0 then cs ++ List.replicate (4 - (cs.length &&& 0x3)) '=' else cs

/-- The URL-safe alphabet without padding. -/
def UrlSafe (c : Char) : Prop := c.isAlphanum ∨ c = '-' ∨ c = '_'

/-! ## Digits -/

/-- The two tables are inverse to each other. -/
theorem index_digit (h : v < 64) : index (digit v) = some v := by
  have hall : ∀ v : Fin 64, index (digit v) = some v.val := by decide +kernel
  exact hall ⟨v, h⟩

/-- A digit is no padding, also behind the substitution of `to_token68`, which can be undone
and leaves a character of the URL-safe alphabet. -/
theorem digit_spec (h : v < 64) :
    digit v ≠ '=' ∧ urlChar (digit v) ≠ '=' ∧ base64Char (urlChar (digit v)) = digit v ∧
      UrlSafe (urlChar (digit v)) := by
  have hall : ∀ v : Fin 64, digit v ≠ '=' ∧ urlChar (digit v) ≠ '=' ∧
      base64Char (urlChar (digit v)) = digit v ∧ ((urlChar (digit v)).isAlphanum ∨
        urlChar (digit v) = '-' ∨ urlChar (digit v) = '_') := by decide +kernel
  exact hall ⟨v, h⟩

theorem and_mask (n : ℕ) : n &&& 0x3f = n % 64 ∧ n &&& 0xff = n % 256 ∧ n &&& 0x3 = n % 4 :=
  ⟨Nat.and_two_pow_sub_one_eq_mod n 6, Nat.and_two_pow_sub_one_eq_mod n 8,
    Nat.and_two_pow_sub_one_eq_mod n 2⟩

/-- The numbers of a group of three bytes and of the two tails. -/
theorem group_lt (a b c : UInt8) : (a.toNat <<< 16) + (b.toNat <<< 8) + c.toNat < 2 ^ 24 ∧
    (a.toNat <<< 16) + (b.toNat <<< 8) < 2 ^ 24 ∧ a.toNat <<< 16 < 2 ^ 24 := by
  have ha := a.toNat_lt
  have hb := b.toNat_lt
  have hc := c.toNat_lt
  simp only [Nat.shiftLeft_eq]
  omega

/-- The values that the number of a group is cut into, of which a tail uses only the first. -/
def sextets (n : ℕ) : List ℕ := [n >>> 18, (n >>> 12) &&& 0x3f, (n >>> 6) &&& 0x3f, n &&& 0x3f]

theorem sextets_lt (hn : n < 2 ^ 24) (k : ℕ) : ∀ v ∈ (sextets n).take k, v < 64 := by
  intro v hv
  have h := List.mem_of_mem_take hv
  simp only [sextets, List.mem_cons, List.not_mem_nil, or_false, (and_mask _).1,
    Nat.shiftRight_eq_div_pow] at h
  omega

theorem encode_three (a b c : UInt8) (rest : List UInt8) : encode (a :: b :: c :: rest) =
    ((sextets ((a.toNat <<< 16) + (b.toNat <<< 8) + c.toNat)).take 4).map digit ++ encode rest :=
    rfl

theorem encode_two (a b : UInt8) : encode [a, b] =
    ((sextets ((a.toNat <<< 16) + (b.toNat <<< 8))).take 3).map digit ++ List.replicate 1 '=' := rfl

theorem encode_one (a : UInt8) : encode [a] =
    ((sextets (a.toNat <<< 16)).take 2).map digit ++ List.replicate 2 '=' := rfl

/-! ## Stripping and rebuilding the padding -/

section Padding

variable {vs : List ℕ} (hvs : ∀ v ∈ vs, v < 64)
include hvs

theorem toToken68_append (t : List Char) :
    toToken68 (vs.map digit ++ t) = (vs.map digit).map urlChar ++ toToken68 t := by
  unfold toToken68
  rw [List.map_append, List.takeWhile_append_of_pos]
  intro c hc
  simp only [List.map_map, List.mem_map] at hc
  obtain ⟨v, hv, rfl⟩ := hc
  simpa using (digit_spec (hvs v hv)).2.1

theorem map_base64Char_urlChar : ((vs.map digit).map urlChar).map base64Char = vs.map digit := by
  simp only [List.map_map]
  apply List.map_congr_left
  intro v hv
  exact (digit_spec (hvs v hv)).2.2.1

theorem toToken68_pad (k : ℕ) :
    toToken68 (vs.map digit ++ List.replicate (k + 1) '=') = (vs.map digit).map urlChar := by
  rw [toToken68_append hvs]
  exact List.append_nil _

/-- The padding that is stripped is rebuilt from the length. -/
theorem toBase64_toToken68_pad {k : ℕ} (hlen : vs.length % 4 + k = 3) (hk : k < 3) :
    toBase64 (toToken68 (vs.map digit ++ List.replicate (k + 1) '=')) =
      vs.map digit ++ List.replicate (k + 1) '=' := by
  have hpad : 4 - vs.length % 4 = k + 1 := by omega
  rw [toToken68_pad hvs, toBase64, map_base64Char_urlChar hvs, List.length_map, (and_mask _).2.2,
    if_pos (by omega), hpad]

theorem urlSafe_of_mem_map : ∀ c ∈ (vs.map digit).map urlChar, UrlSafe c := by
  simp only [List.map_map, List.mem_map]
  rintro c ⟨v, hv, rfl⟩
  exact (digit_spec (hvs v hv)).2.2.2

end Padding

theorem toBase64_append {q : List Char} (hq : q.length = 4) (t : List Char) :
    toBase64 (q ++ t) = q.map base64Char ++ toBase64 t := by
  have hlen : (4 + t.length) % 4 = t.length % 4 := Nat.add_mod_left 4 _
  simp only [toBase64, List.map_append, List.length_append, List.length_map, hq, (and_mask _).2.2,
    hlen]
  split
  · rw [List.append_assoc]
  · rfl

/-- The padding of an encoded string is stripped by `to_token68` and rebuilt by `to_base64`. -/
theorem toBase64_toToken68_encode (s : List UInt8) :
    toBase64 (toToken68 (encode s)) = encode s := by
  induction s using encode.induct with
  | case1 a b c rest ih =>
    have hvs := sextets_lt (group_lt a b c).1 4
    rw [encode_three, toToken68_append hvs, toBase64_append rfl, map_base64Char_urlChar hvs, ih]
  | case2 a b =>
    rw [encode_two]
    exact toBase64_toToken68_pad (k := 0) (sextets_lt (group_lt a b 0).2.1 3) rfl (by omega)
  | case3 a =>
    rw [encode_one]
    exact toBase64_toToken68_pad (k := 1) (sextets_lt (group_lt a 0 0).2.2 2) rfl (by omega)
  | case4 => rfl

/-- The token68 form of an encoded string is in the URL-safe alphabet. -/
theorem urlSafe_of_mem_toToken68 (s : List UInt8) : ∀ c ∈ toToken68 (encode s), UrlSafe c := by
  induction s using encode.induct with
  | case1 a b c rest ih =>
    have hvs := sextets_lt (group_lt a b c).1 4
    rw [encode_three, toToken68_append hvs]
    intro d hd
    rcases List.mem_append.1 hd with hd | hd
    · exact urlSafe_of_mem_map hvs d hd
    · exact ih d hd
  | case2 a b =>
    have hvs := sextets_lt (group_lt a b 0).2.1 3
    rw [encode_two, toToken68_pad hvs]
    exact urlSafe_of_mem_map hvs
  | case3 a =>
    have hvs := sextets_lt (group_lt a 0 0).2.2 2
    rw [encode_one, toToken68_pad hvs]
    exact urlSafe_of_mem_map hvs
  | case4 => simp [encode, toToken68]

/-! ## Decoding -/

/-- A whole group is read by the inner loop. -/
theorem nextFour_cons {a b c d : Char} (h : ∀ x ∈ [a, b, c, d], (index x).isSome ∨ x = '=')
    (t : List Char) : nextFour (a :: b :: c :: d :: t) = .ok ((a, b, c, d), t) := by
  simp only [List.forall_mem_cons, List.not_mem_nil, false_implies, implies_true, and_true] at h
  obtain ⟨h0, h1, h2, h3⟩ := h
  simp only [nextFour, getNext, if_pos h0, if_pos h1, if_pos h2, if_pos h3]

/-- One turn of the loop of `decode`. -/
theorem decodeLoop_of_nextFour {k0 k1 k2 k3 : Char} (h : nextFour cs = .ok ((k0, k1, k2, k3), rest))
    (res : List UInt8) :
    decodeLoop res cs = if k0 = '=' ∨ k1 = '=' ∨ k2 = '=' ∨ k3 = '=' then
      decodeLast res k0 k1 k2 k3
    else
      let n := ((index k0).getD 0 <<< 18) + ((index k1).getD 0 <<< 12) +
        ((index k2).getD 0 <<< 6) + (index k3).getD 0
      decodeLoop (res ++ [UInt8.ofNat (n >>> 16), UInt8.ofNat ((n >>> 8) &&& 0xff),
        UInt8.ofNat (n &&& 0xff)]) rest := by
  rw [decodeLoop]
  split
  · rename_i h'
    cases h.symm.trans h'
  · rename_i h'
    cases h.symm.trans h'
  · rename_i h'
    cases h.symm.trans h'
    rfl

section Groups

variable {v0 v1 v2 v3 : ℕ} (h0 : v0 < 64) (h1 : v1 < 64)
include h0 h1

theorem decodeLoop_digits (h2 : v2 < 64) (h3 : v3 < 64) (res : List UInt8) (t : List Char) :
    decodeLoop res (digit v0 :: digit v1 :: digit v2 :: digit v3 :: t) =
      let n := (v0 <<< 18) + (v1 <<< 12) + (v2 <<< 6) + v3
      decodeLoop (res ++ [UInt8.ofNat (n >>> 16), UInt8.ofNat ((n >>> 8) &&& 0xff),
        UInt8.ofNat (n &&& 0xff)]) t := by
  have hread := nextFour_cons (a := digit v0) (b := digit v1) (c := digit v2) (d := digit v3)
    (by simp [index_digit, h0, h1, h2, h3]) t
  rw [decodeLoop_of_nextFour hread, if_neg]
  · simp only [index_digit, h0, h1, h2, h3, Option.getD_some]
  · simp [(digit_spec h0).1, (digit_spec h1).1, (digit_spec h2).1, (digit_spec h3).1]

theorem decodeLoop_pad_one (h2 : v2 < 64) (res : List UInt8) :
    decodeLoop res [digit v0, digit v1, digit v2, '='] =
      let n := (v0 <<< 18) + (v1 <<< 12) + (v2 <<< 6)
      res ++ [UInt8.ofNat (n >>> 16), UInt8.ofNat ((n >>> 8) &&& 0xff)] := by
  have hread := nextFour_cons (a := digit v0) (b := digit v1) (c := digit v2) (d := '=')
    (by simp [index_digit, h0, h1, h2]) []
  rw [decodeLoop_of_nextFour hread, if_pos (by simp), decodeLast, if_neg, if_neg (digit_spec h2).1]
  · simp only [index_digit, h0, h1, h2, Option.getD_some]
  · simp [(digit_spec h0).1, (digit_spec h1).1]

theorem decodeLoop_pad_two (res : List UInt8) :
    decodeLoop res [digit v0, digit v1, '=', '='] =
      res ++ [UInt8.ofNat (((v0 <<< 18) + (v1 <<< 12)) >>> 16)] := by
  have hread := nextFour_cons (a := digit v0) (b := digit v1) (c := '=') (d := '=')
    (by simp [index_digit, h0, h1]) []
  rw [decodeLoop_of_nextFour hread, if_pos (by simp), decodeLast, if_neg, if_pos rfl, if_pos rfl]
  · simp only [index_digit, h0, h1, Option.getD_some]
  · simp [(digit_spec h0).1, (digit_spec h1).1]

end Groups

theorem ofNat_eq {a : UInt8} (h : n = a.toNat) : UInt8.ofNat n = a := by
  rw [h, UInt8.ofNat_toNat]

theorem decodeLoop_encode (res s : List UInt8) : decodeLoop res (encode s) = res ++ s := by
  induction s using encode.induct generalizing res with
  | case1 a b c rest ih =>
    have ha := a.toNat_lt
    have hb := b.toNat_lt
    have hc := c.toNat_lt
    have hvs := sextets_lt (group_lt a b c).1 4
    simp only [sextets, List.take, List.forall_mem_cons] at hvs
    obtain ⟨h0, h1, h2, h3, -⟩ := hvs
    refine (decodeLoop_digits h0 h1 h2 h3 res (encode rest)).trans ?_
    dsimp only
    rw [ih, List.append_assoc]
    congr 1
    simp only [(and_mask _).1, (and_mask _).2.1, Nat.shiftRight_eq_div_pow, Nat.shiftLeft_eq]
    rw [ofNat_eq (a := a) (by omega), ofNat_eq (a := b) (by omega), ofNat_eq (a := c) (by omega)]
    rfl
  | case2 a b =>
    have ha := a.toNat_lt
    have hb := b.toNat_lt
    have hvs := sextets_lt (group_lt a b 0).2.1 3
    simp only [sextets, List.take, List.forall_mem_cons] at hvs
    obtain ⟨h0, h1, h2, -⟩ := hvs
    refine (decodeLoop_pad_one h0 h1 h2 res).trans ?_
    simp only [(and_mask _).1, (and_mask _).2.1, Nat.shiftRight_eq_div_pow, Nat.shiftLeft_eq]
    rw [ofNat_eq (a := a) (by omega), ofNat_eq (a := b) (by omega)]
  | case3 a =>
    have ha := a.toNat_lt
    have hvs := sextets_lt (group_lt a 0 0).2.2 2
    simp only [sextets, List.take, List.forall_mem_cons] at hvs
    obtain ⟨h0, h1, -⟩ := hvs
    refine (decodeLoop_pad_two h0 h1 res).trans ?_
    simp only [(and_mask _).1, Nat.shiftRight_eq_div_pow, Nat.shiftLeft_eq]
    rw [ofNat_eq (a := a) (by omega)]
  | case4 =>
    rw [encode, decodeLoop]
    split
    · exact (List.append_nil res).symm
    · rename_i h
      cases h
    · rename_i h
      cases h

/-- **Round trip of the HTTP2-Settings value.**  What `to_token68` makes of an encoded byte
string is URL-safe and without padding, and is decoded to the byte string again. -/
theorem decode_toBase64_toToken68 (s : List UInt8) :
    decode (toBase64 (toToken68 (encode s))) = s ∧ ∀ c ∈ toToken68 (encode s), UrlSafe c := by
  refine ⟨?_, urlSafe_of_mem_toToken68 s⟩
  rw [toBase64_toToken68_encode, decode, decodeLoop_encode, List.nil_append]

end Nghttp2.Base64
