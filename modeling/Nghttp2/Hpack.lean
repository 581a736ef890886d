/-
# Header compression

The model of `nghttp2_hd.c` and `nghttp2_hd_huffman.c`: the deflater turns a list of header
fields into a header block, and the inflater is fed with the bytes of the block in chunks.

* `Deflater.deflateHdBufs` is `nghttp2_hd_deflate_hd_bufs`, for a buffer that is large enough;
* `Inflater.inflateHd2` is `nghttp2_hd_inflate_hd2`: one call, which returns with a header
  field, at the end of the input, or with an error.

The dynamic table is a ring buffer in the source.  Here it is a list that starts with the entry
that was added last; `addHdTableIncremental_reaches` says that a ring buffer follows it.
-/
import Nghttp2.HdData
import Nghttp2.RingBuf
import Nghttp2.SizedFifo

namespace Nghttp2.Hd

open SizedFifo

/-- `nghttp2_nv`: a header field.  The only flag that is looked at is `NGHTTP2_NV_FLAG_NO_INDEX`. -/
structure Nv where
  name : Bytes
  value : Bytes
  noIndex : Bool
deriving DecidableEq, Repr

/-- The errors; `assertFailed` is a failed assertion. -/
inductive HdError
  | headerComp
  | bufferError
  | assertFailed
deriving DecidableEq, Repr

/-- Both succeed. -/
theorem bind_eq_ok {α β : Type} {r : Except HdError α} {f : α → Except HdError β} {b : β} :
    (r >>= f) = .ok b ↔ ∃ a, r = .ok a ∧ f a = .ok b := by
  cases r with
  | error e => simp [bind, Except.bind]
  | ok a => simp [bind, Except.bind]

/-- The result is mapped. -/
theorem map_eq_ok {α β : Type} {r : Except HdError α} {f : α → β} {b : β} :
    r.map f = .ok b ↔ ∃ a, r = .ok a ∧ f a = b := by
  cases r with
  | error e => simp [Except.map]
  | ok a => simp [Except.map]

/-! ## The dynamic table -/

/-- `nghttp2_hd_context`. -/
structure Context where
  hdTable : List Entry
  hdTableBufsize : ℕ
  hdTableBufsizeMax : ℕ
  bad : Bool
deriving DecidableEq, Repr

/-- `NGHTTP2_HD_DEFAULT_MAX_BUFFER_SIZE`. -/
def defaultMaxBufferSize : ℕ := 4096

/-- `entry_room`, with `NGHTTP2_HD_ENTRY_OVERHEAD`. -/
def entryRoom (name value : Bytes) : ℕ := 32 + name.length + value.length

/-- The room of an entry. -/
def Entry.room (ent : Entry) : ℕ := entryRoom ent.name ent.value

/-- An entry takes at least 32 bytes. -/
theorem Entry.le_room (ent : Entry) : 32 ≤ ent.room := by
  unfold Entry.room entryRoom
  omega

namespace Context

/-- `hd_context_init`. -/
def init : Context := ⟨[], 0, defaultMaxBufferSize, false⟩

/-- The loop that evicts the oldest entries until there is room. -/
def evictLoop (room : ℕ) : ℕ → Context → Context
  | 0, c => c
  | n + 1, c =>
    match c.hdTable.getLast? with
    | none => c
    | some ent =>
      if c.hdTableBufsize + room > c.hdTableBufsizeMax then
        evictLoop room n { c with
          hdTable := c.hdTable.dropLast
          hdTableBufsize := c.hdTableBufsize - entryRoom ent.name ent.value }
      else c

/-- Make room for an entry. -/
def evict (c : Context) (room : ℕ) : Context := evictLoop room c.hdTable.length c

/-- `hd_context_shrink_table_size`. -/
def shrinkTableSize (c : Context) : Context := c.evict 0

/-- `add_hd_table_incremental`: an entry that is too large empties the table. -/
def addHdTableIncremental (c : Context) (ent : Entry) : Context :=
  let room := entryRoom ent.name ent.value
  let c := c.evict room
  if room > c.hdTableBufsizeMax then c
  else { c with hdTable := ent :: c.hdTable, hdTableBufsize := c.hdTableBufsize + room }

/-- `nghttp2_hd_table_get`; there is no entry if the assertion fails. -/
def tableGet (c : Context) (idx : ℕ) : Option Entry :=
  if idx ≥ staticTableLength then c.hdTable[idx - staticTableLength]? else staticTable[idx]?

/-- `get_max_index`. -/
def getMaxIndex (c : Context) : ℕ := c.hdTable.length + staticTableLength - 1

/-! ### What is evicted -/

/-- The table is accounted for, and within its limit. -/
structure Sound (c : Context) : Prop where
  bufsize : c.hdTableBufsize = weight Entry.room c.hdTable
  le_max : c.hdTableBufsize ≤ c.hdTableBufsizeMax

/-- The table is empty. -/
theorem init_sound : init.Sound := ⟨rfl, Nat.zero_le _⟩

variable {c : Context} {ent : Entry} {room : ℕ}

/-- Evicting changes entries only. -/
theorem evictLoop_frame (room : ℕ) :
    ∀ (n : ℕ) (c : Context), (evictLoop room n c).bad = c.bad ∧
      (evictLoop room n c).hdTableBufsizeMax = c.hdTableBufsizeMax
  | 0, _ => ⟨rfl, rfl⟩
  | n + 1, c => by
    rw [evictLoop]
    split
    · exact ⟨rfl, rfl⟩
    · split
      · exact evictLoop_frame room n _
      · exact ⟨rfl, rfl⟩

@[simp] theorem shrinkTableSize_bad (c : Context) : c.shrinkTableSize.bad = c.bad :=
  (evictLoop_frame 0 _ c).1

@[simp] theorem shrinkTableSize_max (c : Context) :
    c.shrinkTableSize.hdTableBufsizeMax = c.hdTableBufsizeMax :=
  (evictLoop_frame 0 _ c).2

/-- No entry makes the context bad. -/
@[simp] theorem addHdTableIncremental_bad (c : Context) (ent : Entry) :
    (c.addHdTableIncremental ent).bad = c.bad := by
  have hbad : (c.evict (entryRoom ent.name ent.value)).bad = c.bad := (evictLoop_frame _ _ c).1
  unfold addHdTableIncremental
  dsimp only
  split
  · exact hbad
  · exact hbad

/-- **The loop keeps what there is room for.** -/
theorem evictLoop_eq (room max : ℕ) (bad : Bool) (l : List Entry) :
    evictLoop room l.length ⟨l, weight Entry.room l, max, bad⟩ =
      ⟨keep Entry.room (max - room) l, weight Entry.room (keep Entry.room (max - room) l), max,
        bad⟩ := by
  -- the oldest entry is the last one, so the induction takes the list apart at its end
  induction l using List.reverseRecOn with
  | nil => rw [keep_nil]; rfl
  | append_singleton l ent ih =>
    have hent := ent.le_room
    rw [List.length_append, List.length_singleton, evictLoop]
    simp only [List.getLast?_append_of_ne_nil, ne_eq, List.cons_ne_nil, not_false_eq_true,
      List.getLast?_singleton]
    split
    · next hover =>
      rw [weight_append, weight_cons, weight_nil] at hover
      have hsize : weight Entry.room (l ++ [ent]) - entryRoom ent.name ent.value =
          weight Entry.room l := by
        rw [weight_append, weight_cons, weight_nil, Entry.room]
        omega
      rw [List.dropLast_concat, hsize, ih, keep_concat]
      rw [weight_append, weight_cons, weight_nil]
      omega
    · rw [keep_of_le (by omega)]

/-- **Eviction keeps the newest entries that leave the room.** -/
theorem evict_eq (h : c.hdTableBufsize = weight Entry.room c.hdTable) (room : ℕ) :
    c.evict room = { c with
      hdTable := keep Entry.room (c.hdTableBufsizeMax - room) c.hdTable
      hdTableBufsize :=
        weight Entry.room (keep Entry.room (c.hdTableBufsizeMax - room) c.hdTable) } := by
  obtain ⟨l, size, max, bad⟩ := c
  obtain rfl : size = weight Entry.room l := h
  exact evictLoop_eq room max bad l

section

variable (h : c.hdTableBufsize = weight Entry.room c.hdTable)
include h

/-- The entries there is room for are kept. -/
theorem shrinkTableSize_eq :
    c.shrinkTableSize = { c with
      hdTable := keep Entry.room c.hdTableBufsizeMax c.hdTable
      hdTableBufsize := weight Entry.room (keep Entry.room c.hdTableBufsizeMax c.hdTable) } :=
  evict_eq h 0

/-- Shrinking establishes the invariant. -/
theorem shrinkTableSize_sound : c.shrinkTableSize.Sound := by
  rw [shrinkTableSize_eq h]
  exact ⟨rfl, weight_keep_le⟩

/-- What is in the table after an entry has been added. -/
theorem addHdTableIncremental_eq (ent : Entry) :
    ∃ l, c.addHdTableIncremental ent =
        { c with hdTable := l, hdTableBufsize := weight Entry.room l } ∧
      weight Entry.room l ≤ c.hdTableBufsizeMax := by
  have hkeep : weight Entry.room (keep Entry.room (c.hdTableBufsizeMax - ent.room) c.hdTable) ≤
      c.hdTableBufsizeMax - ent.room := weight_keep_le
  unfold addHdTableIncremental
  dsimp only
  rw [evict_eq h]
  split
  · exact ⟨_, rfl, hkeep.trans (Nat.sub_le _ _)⟩
  · next hle =>
    refine ⟨ent :: keep Entry.room (c.hdTableBufsizeMax - ent.room) c.hdTable, ?_, ?_⟩
    · rw [weight_cons, Nat.add_comm]
      rfl
    · have hroom : ent.room ≤ c.hdTableBufsizeMax := not_lt.1 hle
      rw [weight_cons]
      omega

end

/-- Adding an entry keeps it. -/
theorem Sound.addHdTableIncremental (h : c.Sound) (ent : Entry) :
    (c.addHdTableIncremental ent).Sound := by
  obtain ⟨l, heq, hle⟩ := addHdTableIncremental_eq h.bufsize ent
  rw [heq]
  exact ⟨rfl, hle⟩

/-- Adding an entry keeps the limit. -/
theorem Sound.addHdTableIncremental_max (h : c.Sound) (ent : Entry) :
    (c.addHdTableIncremental ent).hdTableBufsizeMax = c.hdTableBufsizeMax := by
  obtain ⟨l, heq, -⟩ := addHdTableIncremental_eq h.bufsize ent
  rw [heq]

/-- The limit bounds the number of entries. -/
theorem Sound.length_le (h : c.Sound) : c.hdTable.length * 32 ≤ c.hdTableBufsizeMax :=
  (length_mul_le Entry.le_room c.hdTable).trans (h.bufsize.symm.le.trans h.le_max)

/-! ### The ring buffer of the table -/

/-- `hd_context_init` allocates a buffer for the smallest entries. -/
theorem init_reaches : ∃ r : RingBuf Entry, RingBuf.init (defaultMaxBufferSize / 32) = some r ∧
    r.Reaches Context.init.hdTable :=
  (RingBuf.exists_init (by decide)).imp fun _ h => ⟨h, .init h⟩

/-- An entry is evicted with `hd_ringbuf_pop_back`. -/
theorem evictLoop_reaches {r : RingBuf Entry} (room n : ℕ) (h : r.Reaches c.hdTable) :
    ∃ r' : RingBuf Entry, r'.Reaches (evictLoop room n c).hdTable ∧
      (evictLoop room n c).hdTable.length ≤ c.hdTable.length := by
  induction n generalizing c r with
  | zero => exact ⟨r, h, le_rfl⟩
  | succ n ih =>
    rw [evictLoop]
    split
    · exact ⟨r, h, le_rfl⟩
    next ent hlast =>
    split_ifs
    · have hne : RingBuf.Fits c.hdTable .popBack := fun hnil => by simp [hnil] at hlast
      obtain ⟨r1, hpop⟩ := h.holds.exists_step hne
      obtain ⟨r', hr, hle⟩ := ih (c := { c with
        hdTable := c.hdTable.dropLast
        hdTableBufsize := c.hdTableBufsize - entryRoom ent.name ent.value }) (h.step hpop)
      exact ⟨r', hr, hle.trans (by simp)⟩
    · exact ⟨r, h, le_rfl⟩

/-- **A ring buffer follows the table**: one that holds the table is led by `hd_ringbuf_pop_back`
and `hd_ringbuf_push_front` to one that holds the table with the new entry. -/
theorem addHdTableIncremental_reaches {r : RingBuf Entry} (h : r.Reaches c.hdTable)
    (hlen : c.hdTable.length < 2 ^ 60) (ent : Entry) :
    ∃ r' : RingBuf Entry, r'.Reaches (c.addHdTableIncremental ent).hdTable := by
  obtain ⟨r1, h1, hle⟩ := evictLoop_reaches (entryRoom ent.name ent.value) c.hdTable.length h
  unfold addHdTableIncremental evict
  dsimp only
  split_ifs
  · exact ⟨r1, h1⟩
  · have hfits : RingBuf.Fits _ (.pushFront ent) := hle.trans_lt hlen
    obtain ⟨r2, h2⟩ := h1.holds.exists_step hfits
    exact ⟨r2, h1.step h2⟩

end Context

/-! ## Integers -/

/-- The loop of `count_encoded_length`. -/
def countLoop : ℕ → ℕ → ℕ → ℕ
  | 0, _, len => len
  | fuel + 1, n, len => if n ≥ 128 then countLoop fuel (n >>> 7) (len + 1) else len

/-- `count_encoded_length`. -/
def countEncodedLength (n width : ℕ) : ℕ :=
  let k := 2 ^ width - 1
  if n < k then 1 else countLoop n (n - k) 1 + 1

/-- The loop of `encode_length`, with the last byte. -/
def encodeLoop : ℕ → ℕ → Bytes
  | 0, n => [UInt8.ofNat n]
  | fuel + 1, n =>
    if n ≥ 128 then UInt8.ofNat (128 ||| (n &&& 127)) :: encodeLoop fuel (n >>> 7)
    else [UInt8.ofNat n]

/-- `encode_length`: `first` is what the first byte held before. -/
def encodeLength (first : UInt8) (n width : ℕ) : Bytes :=
  let k := 2 ^ width - 1
  let first := first &&& ~~~UInt8.ofNat k
  if n < k then [first ||| UInt8.ofNat n]
  else (first ||| UInt8.ofNat k) :: encodeLoop n (n - k)

/-- What `decode_length` returns: the integer as far as it has been read, the shift for the
next byte, whether it has been read completely, and the rest of the input. -/
structure DecodedLength where
  res : UInt32
  shift : ℕ
  final : Bool
  rest : Bytes
deriving DecidableEq, Repr

/-- The loop of `decode_length`.  For a shift of 32 or more C leaves the results of the shifts
open; here they are those of the shift modulo 32. -/
def decodeLoop (n : UInt32) (shift : ℕ) : Bytes → Option DecodedLength
  | [] => some ⟨n, shift, false, []⟩
  | b :: l =>
    let add := b.toUInt32 &&& 0x7f
    if 0xffffffff >>> UInt32.ofNat shift < add then none
    else
      let add := add <<< UInt32.ofNat shift
      if 0xffffffff - add < n then none
      else if b &&& 0x80 = 0 then some ⟨n + add, shift, true, l⟩
      else decodeLoop (n + add) (shift + 7) l

/-- `decode_length`.  If `initial` is not 0, the input starts in the middle of an integer.  It is
never called for the first byte of an integer without input. -/
def decodeLength (initial : UInt32) (shift : ℕ) (inp : Bytes) (width : ℕ) : Option DecodedLength :=
  let k := UInt32.ofNat (2 ^ width - 1)
  if initial = 0 then
    match inp with
    | [] => some ⟨0, shift, false, []⟩
    | b :: l =>
      if b.toUInt32 &&& k ≠ k then some ⟨b.toUInt32 &&& k, 0, true, l⟩
      else if l = [] then some ⟨k, 0, false, []⟩
      else decodeLoop k shift l
  else decodeLoop initial shift inp

/-- No input. -/
theorem decodeLength_zero_nil (shift width : ℕ) :
    decodeLength 0 shift [] width = some ⟨0, shift, false, []⟩ := by
  simp only [decodeLength, if_true]

/-- The first byte of a length. -/
theorem decodeLength_zero_cons (shift width : ℕ) (b : UInt8) (l : Bytes) :
    decodeLength 0 shift (b :: l) width =
      if b.toUInt32 &&& UInt32.ofNat (2 ^ width - 1) ≠ UInt32.ofNat (2 ^ width - 1) then
        some ⟨b.toUInt32 &&& UInt32.ofNat (2 ^ width - 1), 0, true, l⟩
      else if l = [] then some ⟨UInt32.ofNat (2 ^ width - 1), 0, false, []⟩
      else decodeLoop (UInt32.ofNat (2 ^ width - 1)) shift l := by
  simp only [decodeLength, if_true]

variable {inp : Bytes} {d : DecodedLength} {initial : UInt32} {shift width : ℕ}

/-- The first byte has been read. -/
theorem decodeLength_of_ne (h : initial ≠ 0) (shift width : ℕ) (inp : Bytes) :
    decodeLength initial shift inp width = decodeLoop initial shift inp := by
  simp only [decodeLength, if_neg h]

/-- How the result of `decode_length` changes when `more` follows the input. -/
def DecodedLength.Extends (more : Bytes) (r' : Option DecodedLength)
    (resume : UInt32 → ℕ → Option DecodedLength) : Option DecodedLength → Prop
  | none => r' = none
  | some d =>
    if d.final then r' = some { d with rest := d.rest ++ more } else r' = resume d.res d.shift

/-- More input, by induction on the first part. -/
theorem decodeLoop_extends (more : Bytes) :
    ∀ (l : Bytes) (n : UInt32) (shift : ℕ),
    DecodedLength.Extends more (decodeLoop n shift (l ++ more))
      (fun n shift => decodeLoop n shift more) (decodeLoop n shift l)
  | [], _, _ => rfl
  | b :: l, n, shift => by
    rw [List.cons_append, decodeLoop, decodeLoop]
    dsimp only
    split
    · rfl
    · split
      · rfl
      · split
        · rfl
        · exact decodeLoop_extends more l _ _

/-- The check before the addition keeps it from overflowing. -/
theorem toNat_add_of_le {n add : UInt32} (h : ¬0xffffffff - add < n) :
    (n + add).toNat = n.toNat + add.toNat := by
  have hadd := add.toNat_lt
  have hn := n.toNat_lt
  rw [UInt32.lt_iff_toNat_lt, UInt32.toNat_sub] at h
  rw [UInt32.toNat_add]
  simp at h ⊢
  omega

/-- The value only grows. -/
theorem le_of_decodeLoop :
    ∀ {l : Bytes} {n : UInt32} {shift : ℕ} {d : DecodedLength}, decodeLoop n shift l = some d →
      n.toNat ≤ d.res.toNat
  | [], n, _, d, h => by
    cases h
    exact le_rfl
  | b :: l, n, shift, d, h => by
    rw [decodeLoop] at h
    dsimp only at h
    split at h
    · cases h
    split at h
    · cases h
    · next hover =>
      have hadd := toNat_add_of_le hover
      split at h
      · cases h
        dsimp only
        omega
      · have hle := le_of_decodeLoop h
        omega

/-- The same, with the first byte. -/
theorem le_of_decodeLength
    (h : decodeLength initial shift inp width = some d) : initial.toNat ≤ d.res.toNat := by
  by_cases hzero : initial = 0
  · rw [hzero]
    exact Nat.zero_le _
  · rw [decodeLength_of_ne hzero] at h
    exact le_of_decodeLoop h

/-- An unfinished length takes all input. -/
theorem rest_of_decodeLoop :
    ∀ {l : Bytes} {n : UInt32} {shift : ℕ} {d : DecodedLength}, decodeLoop n shift l = some d →
      ¬d.final = true → d.rest = []
  | [], _, _, _, h, _ => by
    cases h
    rfl
  | b :: l, n, shift, d, h, hfinal => by
    rw [decodeLoop] at h
    dsimp only at h
    split at h
    · cases h
    · split at h
      · cases h
      · split at h
        · cases h
          exact absurd rfl hfinal
        · exact rest_of_decodeLoop h hfinal

/-- The same, with the first byte. -/
theorem rest_of_decodeLength (h : decodeLength initial shift inp width = some d)
    (hfinal : ¬d.final = true) : d.rest = [] := by
  by_cases hinit : initial = 0
  · subst hinit
    cases inp with
    | nil =>
      rw [decodeLength_zero_nil] at h
      cases h
      rfl
    | cons b l =>
      rw [decodeLength_zero_cons] at h
      split at h
      · cases h
        exact absurd rfl hfinal
      · split at h
        · cases h
          rfl
        · exact rest_of_decodeLoop h hfinal
  · rw [decodeLength_of_ne hinit] at h
    exact rest_of_decodeLoop h hfinal

/-- A length takes input. -/
theorem suffix_of_decodeLoop :
    ∀ {l : Bytes} {n : UInt32} {shift : ℕ} {d : DecodedLength}, decodeLoop n shift l = some d →
      d.final = true → ∃ used, used ≠ [] ∧ l = used ++ d.rest
  | [], _, _, _, h, hfinal => by
    cases h
    cases hfinal
  | b :: l, n, shift, d, h, hfinal => by
    rw [decodeLoop] at h
    dsimp only at h
    split at h
    · cases h
    · split at h
      · cases h
      · split at h
        · cases h
          exact ⟨[b], List.cons_ne_nil _ _, rfl⟩
        · obtain ⟨used, -, hl⟩ := suffix_of_decodeLoop h hfinal
          exact ⟨b :: used, List.cons_ne_nil _ _, by rw [hl, List.cons_append]⟩

/-- The same, with the first byte. -/
theorem suffix_of_decodeLength (h : decodeLength initial shift inp width = some d)
    (hfinal : d.final = true) : ∃ used, used ≠ [] ∧ inp = used ++ d.rest := by
  by_cases hinit : initial = 0
  · subst hinit
    cases inp with
    | nil =>
      rw [decodeLength_zero_nil] at h
      cases h
      cases hfinal
    | cons b l =>
      rw [decodeLength_zero_cons] at h
      split at h
      · cases h
        exact ⟨[b], List.cons_ne_nil _ _, rfl⟩
      · split at h
        · cases h
          cases hfinal
        · obtain ⟨used, -, hl⟩ := suffix_of_decodeLoop h hfinal
          exact ⟨b :: used, List.cons_ne_nil _ _, by rw [hl, List.cons_append]⟩
  · rw [decodeLength_of_ne hinit] at h
    exact suffix_of_decodeLoop h hfinal

/-- An integer of which nothing has been read starts with the shift 0. -/
theorem shift_of_decodeLength (h : decodeLength initial shift inp width = some d)
    (hfinal : d.final = false) (hzero : initial = 0 → shift = 0)
    (hk : UInt32.ofNat (2 ^ width - 1) ≠ 0) (hres : d.res = 0) : d.shift = 0 := by
  have hloop : ∀ {n : UInt32} {l : Bytes}, n ≠ 0 → decodeLoop n shift l ≠ some d := by
    intro n l hn hd
    have hle := le_of_decodeLoop hd
    rw [hres] at hle
    exact hn (UInt32.toNat_inj.1 (Nat.le_zero.1 hle))
  by_cases hinit : initial = 0
  · obtain rfl := hzero hinit
    subst hinit
    cases inp with
    | nil =>
      rw [decodeLength_zero_nil] at h
      cases h
      rfl
    | cons b l =>
      rw [decodeLength_zero_cons] at h
      split at h
      · cases h
        cases hfinal
      · split at h
        · cases h
          rfl
        · exact absurd h (hloop hk)
  · rw [decodeLength_of_ne hinit] at h
    exact absurd h (hloop hinit)

/-- **An integer may be read in parts.** -/
theorem decodeLength_extends (inp : Bytes) {more : Bytes} (hmore : more ≠ [])
    (hzero : initial = 0 → shift = 0) (hk : UInt32.ofNat (2 ^ width - 1) ≠ 0) :
    DecodedLength.Extends more (decodeLength initial shift (inp ++ more) width)
      (fun n shift => decodeLength n shift more width) (decodeLength initial shift inp width) := by
  -- a value that has been read partly is not 0, so `decode_length` goes on with it
  have hloop : ∀ {n : UInt32}, n ≠ 0 → ∀ l, DecodedLength.Extends more
      (decodeLoop n shift (l ++ more)) (fun n shift => decodeLength n shift more width)
      (decodeLoop n shift l) := by
    intro n hn l
    have hext := decodeLoop_extends more l n shift
    cases hd : decodeLoop n shift l with
    | none =>
      rw [hd] at hext
      exact hext
    | some d =>
      have hle := le_of_decodeLoop hd
      have hne : d.res ≠ 0 := by
        intro h0
        rw [h0] at hle
        exact hn (UInt32.toNat_inj.1 (Nat.le_zero.1 hle))
      rw [hd] at hext
      simpa only [DecodedLength.Extends, decodeLength_of_ne hne] using hext
  by_cases hinit : initial = 0
  · obtain rfl := hzero hinit
    subst hinit
    cases inp with
    | nil =>
      rw [decodeLength_zero_nil, List.nil_append, DecodedLength.Extends,
        if_neg Bool.false_ne_true]
    | cons b l =>
      rw [decodeLength_zero_cons, List.cons_append, decodeLength_zero_cons]
      split
      · rfl
      cases l with
      | nil =>
        rw [List.nil_append, if_neg hmore, if_pos rfl, DecodedLength.Extends,
          if_neg Bool.false_ne_true, decodeLength_of_ne hk]
      | cons c l =>
        rw [List.cons_append, if_neg (List.cons_ne_nil c l),
          if_neg (List.cons_ne_nil c (l ++ more))]
        exact hloop hk (c :: l)
  · rw [decodeLength_of_ne hinit, decodeLength_of_ne hinit]
    exact hloop hinit inp

/-! ## Huffman coding -/

/-- `nghttp2_hd_huff_encode_count`. -/
def huffEncodeCount (src : Bytes) : ℕ :=
  ((src.map fun b => (huffSym b.toNat).1).sum + 7) / 8

/-- The output of the Huffman encoder: the bytes that are complete, the byte that is being
filled, and the number of bits it has left. -/
structure HuffOut where
  bytes : Bytes
  cur : ℕ
  rembits : ℕ
deriving DecidableEq, Repr

/-- The end of `huff_encode_sym`: the rest of the code starts a new byte, and `nbits` bits of it
are left. -/
def huffEncodeRest (bytes : Bytes) (nbits code : ℕ) : HuffOut :=
  if nbits < 8 then ⟨bytes, code % 256, 8 - nbits⟩
  else
    let (bytes, nbits) :=
      if nbits > 24 then (bytes ++ [UInt8.ofNat (code >>> 24)], nbits - 8) else (bytes, nbits)
    let (bytes, nbits) :=
      if nbits > 16 then (bytes ++ [UInt8.ofNat (code >>> 16)], nbits - 8) else (bytes, nbits)
    let (bytes, nbits) :=
      if nbits > 8 then (bytes ++ [UInt8.ofNat (code >>> 8)], nbits - 8) else (bytes, nbits)
    if nbits = 8 then ⟨bytes ++ [UInt8.ofNat code], 0, 8⟩ else ⟨bytes, code % 256, 8 - nbits⟩

/-- `huff_encode_sym`. -/
def huffEncodeSym (o : HuffOut) (sym : ℕ × ℕ) : HuffOut :=
  let (nbits, code) := sym
  if o.rembits > nbits then
    { o with cur := o.cur ||| code <<< (o.rembits - nbits), rembits := o.rembits - nbits }
  else if o.rembits = nbits then ⟨o.bytes ++ [UInt8.ofNat (o.cur ||| code)], 0, 8⟩
  else
    let bytes := o.bytes ++ [UInt8.ofNat (o.cur ||| code >>> (nbits - o.rembits))]
    let nbits := nbits - o.rembits
    let code := if nbits % 8 ≠ 0 then code <<< (8 - nbits % 8) else code
    huffEncodeRest bytes nbits code

/-- `nghttp2_hd_huff_encode`: the last byte is filled with a part of the symbol 256. -/
def huffEncode (src : Bytes) : Bytes :=
  let o := src.foldl (fun o b => huffEncodeSym o (huffSym b.toNat)) ⟨[], 0, 8⟩
  if o.rembits < 8 then
    let sym := huffSym 256
    o.bytes ++ [UInt8.ofNat (o.cur ||| sym.2 >>> (sym.1 - o.rembits))]
  else o.bytes

/-- `NGHTTP2_HD_MAX_NV`, which is also what `nvbufs` holds. -/
def maxNv : ℕ := 65536

/-- `nghttp2_bufs_addb`, for a buffer that holds `cap` bytes. -/
def addb (cap : ℕ) (buf : Bytes) (b : UInt8) : Except HdError Bytes :=
  if buf.length < cap then .ok (buf ++ [b]) else .error .bufferError

/-- `nghttp2_bufs_add`. -/
def addBytes (cap : ℕ) (buf l : Bytes) : Except HdError Bytes :=
  if buf.length + l.length ≤ cap then .ok (buf ++ l) else .error .bufferError

/-- `nghttp2_hd_huff_decode_context`. -/
structure HuffContext where
  state : ℕ
  accept : Bool
deriving DecidableEq, Repr

/-- `nghttp2_hd_huff_decode_context_init`. -/
def HuffContext.init : HuffContext := ⟨0, true⟩

/-- A step of the decoder for four bits. -/
def huffDecodeNibble (cap state nibble : ℕ) (buf : Bytes) : Except HdError (HuffDecode × Bytes) :=
  let t := huffDecode state nibble
  if t.fail then .error .headerComp
  else
    match t.sym with
    | some sym => (addb cap buf sym).map fun buf => (t, buf)
    | none => .ok (t, buf)

/-- The loop of `nghttp2_hd_huff_decode`. -/
def huffDecodeLoop (cap : ℕ) (ctx : HuffContext) (buf : Bytes) :
    Bytes → Except HdError (HuffContext × Bytes)
  | [] => .ok (ctx, buf)
  | b :: l => do
    let (t, buf) ← huffDecodeNibble cap ctx.state (b.toNat >>> 4) buf
    let (t, buf) ← huffDecodeNibble cap t.state (b.toNat &&& 0xf) buf
    huffDecodeLoop cap ⟨t.state, t.accepted⟩ buf l

/-- Decoding, in two parts. -/
theorem huffDecodeLoop_append (cap : ℕ) (more : Bytes) :
    ∀ (ctx : HuffContext) (buf l : Bytes), huffDecodeLoop cap ctx buf (l ++ more) =
      (huffDecodeLoop cap ctx buf l >>= fun r => huffDecodeLoop cap r.1 r.2 more)
  | _, _, [] => rfl
  | ctx, buf, b :: l => by
    simp only [List.cons_append, huffDecodeLoop, bind_assoc]
    congr
    funext r
    congr
    funext r'
    exact huffDecodeLoop_append cap more _ _ l

/-- Copying, in two parts. -/
theorem addBytes_append (cap : ℕ) (buf l more : Bytes) :
    addBytes cap buf (l ++ more) = (addBytes cap buf l >>= fun buf => addBytes cap buf more) := by
  unfold addBytes
  rw [List.length_append]
  by_cases hl : buf.length + l.length ≤ cap
  · rw [if_pos hl]
    show _ = if (buf ++ l).length + more.length ≤ cap then _ else _
    rw [List.length_append, Nat.add_assoc, List.append_assoc]
  · rw [if_neg hl, if_neg (by omega)]
    rfl

/-- `nghttp2_hd_huff_decode`. -/
def huffDecodeAll (cap : ℕ) (ctx : HuffContext) (buf src : Bytes) (final : Bool) :
    Except HdError (HuffContext × Bytes) := do
  let (ctx, buf) ← huffDecodeLoop cap ctx buf src
  if final && !ctx.accept then throw .headerComp else return (ctx, buf)

end Nghttp2.Hd
