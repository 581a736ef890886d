/-
# The deflater

The model of the compressing side of `nghttp2_hd.c`, and what it does with header fields that
are never indexed: their values take no part in the compression.

* `Deflater.deflateNv` is `deflate_nv`, `Deflater.deflateHdBufs` is
  `nghttp2_hd_deflate_hd_bufs` for a buffer that is large enough;
* `Nv.NeverIndexed`: the fields whose values are not to be compressed;
* `deflateNv_of_neverIndexed`: such a field is a literal, and the state does not change;
* `deflateHdBufs_agree`: two lists that differ only in such values.
-/
import Nghttp2.Hpack

namespace Nghttp2.Hd

/-! ## Representations -/

/-- `nghttp2_hd_indexing_mode`. -/
inductive IndexingMode
  | withIndexing
  | withoutIndexing
  | neverIndexing
deriving DecidableEq, Repr

/-- `encode_length` after the check that it fits into the sixteen bytes of `sb`. -/
def emitLength (first : UInt8) (n width : ℕ) : Except HdError Bytes :=
  if 16 < countEncodedLength n width then .error .headerComp else .ok (encodeLength first n width)

/-- `emit_table_size`. -/
def emitTableSize (tableSize : ℕ) : Except HdError Bytes := emitLength 0x20 tableSize 5

/-- `emit_indexed_block`. -/
def emitIndexedBlock (idx : ℕ) : Except HdError Bytes := emitLength 0x80 (idx + 1) 7

/-- `emit_string`. -/
def emitString (str : Bytes) : Except HdError Bytes :=
  let enclen := huffEncodeCount str
  if enclen < str.length then (emitLength 0x80 enclen 7).map (· ++ huffEncode str)
  else (emitLength 0 str.length 7).map (· ++ str)

/-- `pack_first_byte`. -/
def packFirstByte : IndexingMode → UInt8
  | .withIndexing => 0x40
  | .withoutIndexing => 0
  | .neverIndexing => 0x10

/-- `emit_indname_block`. -/
def emitIndnameBlock (idx : ℕ) (nv : Nv) (mode : IndexingMode) : Except HdError Bytes := do
  let width := if mode = .withIndexing then 6 else 4
  let block ← emitLength (packFirstByte mode) (idx + 1) width
  let value ← emitString nv.value
  return block ++ value

/-- `emit_newname_block`. -/
def emitNewnameBlock (nv : Nv) (mode : IndexingMode) : Except HdError Bytes := do
  let name ← emitString nv.name
  let value ← emitString nv.value
  return [packFirstByte mode] ++ name ++ value

variable {name s : Bytes} {ent : Entry} {first : UInt8} {n t width : ℕ}

theorem emitLength_eq_ok {r : Bytes}
    (h : emitLength first n width = .ok r) : encodeLength first n width = r := by
  unfold emitLength at h
  split at h
  · cases h
  · exact Except.ok.inj h

theorem emitIndnameBlock_eq_ok {idx : ℕ} {nv : Nv} {mode : IndexingMode} {r : Bytes} :
    emitIndnameBlock idx nv mode = .ok r ↔ ∃ block value,
      emitLength (packFirstByte mode) (idx + 1) (if mode = .withIndexing then 6 else 4) =
          .ok block ∧
        emitString nv.value = .ok value ∧ block ++ value = r := by
  simp only [emitIndnameBlock, bind_eq_ok, pure, Except.pure, Except.ok.injEq, exists_and_left]

theorem emitNewnameBlock_eq_ok {nv : Nv} {mode : IndexingMode} {r : Bytes} :
    emitNewnameBlock nv mode = .ok r ↔ ∃ name value, emitString nv.name = .ok name ∧
      emitString nv.value = .ok value ∧ packFirstByte mode :: (name ++ value) = r := by
  simp only [emitNewnameBlock, bind_eq_ok, pure, Except.pure, Except.ok.injEq, exists_and_left,
    List.cons_append, List.nil_append]

/-! ## Search -/

/-- `search_result`: the index is -1 if nothing has been found. -/
inductive SearchResult
  | notFound
  | nameMatch (index : ℕ)
  | nameValueMatch (index : ℕ)
deriving DecidableEq, Repr

/-- The loop of `search_static_table`. -/
def searchStaticLoop (nv : Nv) (token : ℕ) : ℕ → ℕ → SearchResult
  | 0, _ => .nameMatch token
  | fuel + 1, i =>
    match staticTable[i]? with
    | none => .nameMatch token
    | some ent =>
      if i ≤ tokenWwwAuthenticate ∧ ent.token = some token then
        if ent.value = nv.value then .nameValueMatch i else searchStaticLoop nv token fuel (i + 1)
      else .nameMatch token

/-- `search_static_table`. -/
def searchStaticTable (nv : Nv) (token : ℕ) (mode : IndexingMode) : SearchResult :=
  if mode = .neverIndexing then .nameMatch token
  else searchStaticLoop nv token staticTableLength token

/-- The loop of `search_hd_table`; `i` is the position of the first entry, and `index` what has
been found. -/
def searchHdLoop (nv : Nv) (token : Option ℕ) (mode : IndexingMode) :
    List Entry → ℕ → Option ℕ → SearchResult
  | [], _, none => .notFound
  | [], _, some index => .nameMatch index
  | ent :: l, i, index =>
    if ent.token ≠ token ∨ token = none ∧ ent.name ≠ nv.name then
      searchHdLoop nv token mode l (i + 1) index
    else if mode ≠ .neverIndexing ∧ ent.value = nv.value then
      .nameValueMatch (i + staticTableLength)
    else searchHdLoop nv token mode l (i + 1) (some (index.getD (i + staticTableLength)))

/-- `search_hd_table`. -/
def searchHdTable (c : Context) (nv : Nv) (token : Option ℕ) (mode : IndexingMode) :
    SearchResult :=
  match token with
  | none => searchHdLoop nv none mode c.hdTable 0 none
  | some t =>
    if t ≤ tokenWwwAuthenticate then
      match searchStaticTable nv t mode with
      | .nameValueMatch index => .nameValueMatch index
      | .nameMatch index => searchHdLoop nv token mode c.hdTable 0 (some index)
      | .notFound => searchHdLoop nv token mode c.hdTable 0 none
    else searchHdLoop nv token mode c.hdTable 0 none

/-! ### Tokens -/

/-- A name has at most one token, and no two names have the same. -/
theorem tokenTable_nodup : (tokenTable.map Prod.fst).Nodup ∧ (tokenTable.map Prod.snd).Nodup := by
  decide +kernel

theorem mem_tokenTable_of_lookupToken (h : lookupToken name = some t) : (name, t) ∈ tokenTable := by
  obtain ⟨e, hfind, rfl⟩ := Option.map_eq_some_iff.1 h
  have hname : e.1 = name := by simpa using List.find?_some hfind
  rw [← hname]
  exact List.mem_of_find?_eq_some hfind

theorem lookupToken_of_mem (h : (name, t) ∈ tokenTable) : lookupToken name = some t := by
  have hsome : (tokenTable.find? fun e => e.1 = name).isSome := by
    rw [List.find?_isSome]
    exact ⟨(name, t), h, by simp⟩
  obtain ⟨e, hfind⟩ := Option.isSome_iff_exists.1 hsome
  have hname : e.1 = name := by simpa using List.find?_some hfind
  have heq : e = (name, t) :=
    List.inj_on_of_nodup_map tokenTable_nodup.1 (List.mem_of_find?_eq_some hfind) h hname
  rw [lookupToken, hfind, heq, Option.map_some]

theorem lookupToken_eq_some_iff (h : (s, t) ∈ tokenTable) :
    lookupToken name = some t ↔ name = s := by
  constructor
  · intro ht
    have heq : (name, t) = (s, t) :=
      List.inj_on_of_nodup_map tokenTable_nodup.2 (mem_tokenTable_of_lookupToken ht) h rfl
    exact congrArg Prod.fst heq
  · rintro rfl
    exact lookupToken_of_mem h

/-- The token of a name of the static table is its first index there. -/
theorem staticTable_of_mem (h : (name, t) ∈ tokenTable) (ht : t ≤ tokenWwwAuthenticate) :
    ∃ ent, staticTable[t]? = some ent ∧ ent.token = some t ∧ ent.name = name := by
  have hall : ∀ e ∈ tokenTable, e.2 ≤ tokenWwwAuthenticate →
      (staticTable[e.2]?).map (fun ent => (ent.token, ent.name)) = some (some e.2, e.1) := by
    decide +kernel
  obtain ⟨ent, hent, hpair⟩ := Option.map_eq_some_iff.1 (hall _ h ht)
  exact ⟨ent, hent, congrArg Prod.fst hpair, congrArg Prod.snd hpair⟩

/-! ### What is found -/

/-- The entries that the search takes for entries of the name. -/
def Entry.Matches (ent : Entry) (nv : Nv) (token : Option ℕ) : Prop :=
  ent.token = token ∧ (token = none → ent.name = nv.name)

section Search

variable {c : Context} {nv : Nv} {token : Option ℕ} {mode : IndexingMode} {k : ℕ}

theorem searchHdLoop_nameMatch :
    ∀ {l : List Entry} {i : ℕ} {index : Option ℕ},
      searchHdLoop nv token mode l i index = .nameMatch k → index = some k ∨
        ∃ j ent, k = i + j + staticTableLength ∧ l[j]? = some ent ∧ ent.Matches nv token
  | [], _, some _, h => Or.inl (by cases h; rfl)
  | ent :: l, i, index, h => by
    rw [searchHdLoop] at h
    -- what has been found in the rest of the table
    have hrest : ∀ {index' : Option ℕ}, searchHdLoop nv token mode l (i + 1) index' = .nameMatch k →
        index' = some k ∨ ∃ j e, k = i + j + staticTableLength ∧ (ent :: l)[j]? = some e ∧
          e.Matches nv token := by
      intro index' h'
      rcases searchHdLoop_nameMatch h' with hk | ⟨j, e, hk, hj, hmatch⟩
      · exact Or.inl hk
      · exact Or.inr ⟨j + 1, e, by omega, by simpa using hj, hmatch⟩
    split at h
    · exact hrest h
    · next hmatch =>
      split at h
      · cases h
      · rcases hrest h with hk | hk
        · cases index with
          | some _ => exact Or.inl hk
          | none =>
            refine Or.inr ⟨0, ent, by simpa using (Option.some.inj hk).symm, rfl, ?_⟩
            exact ⟨by tauto, by tauto⟩
        · exact Or.inr hk

theorem searchHdLoop_nameValueMatch :
    ∀ {l : List Entry} {i : ℕ} {index : Option ℕ},
      searchHdLoop nv token mode l i index = .nameValueMatch k →
        ∃ j ent, k = i + j + staticTableLength ∧ l[j]? = some ent ∧ ent.Matches nv token ∧
          ent.value = nv.value
  | [], _, none, h => by cases h
  | [], _, some _, h => by cases h
  | ent :: l, i, index, h => by
    rw [searchHdLoop] at h
    have hrest : ∀ {index' : Option ℕ},
        searchHdLoop nv token mode l (i + 1) index' = .nameValueMatch k →
        ∃ j e, k = i + j + staticTableLength ∧ (ent :: l)[j]? = some e ∧ e.Matches nv token ∧
          e.value = nv.value := by
      intro index' h'
      obtain ⟨j, e, hk, hj, hmatch⟩ := searchHdLoop_nameValueMatch h'
      exact ⟨j + 1, e, by omega, by simpa using hj, hmatch⟩
    split at h
    · exact hrest h
    · next hmatch =>
      split at h
      · next hvalue =>
        cases h
        exact ⟨0, ent, by omega, rfl, ⟨by tauto, by tauto⟩, hvalue.2⟩
      · exact hrest h

theorem searchStaticLoop_spec (nv : Nv) :
    ∀ {fuel i : ℕ}, searchStaticLoop nv t fuel i = .nameMatch t ∨
      ∃ j ent, searchStaticLoop nv t fuel i = .nameValueMatch j ∧ staticTable[j]? = some ent ∧
        ent.token = some t ∧ ent.value = nv.value
  | 0, _ => Or.inl rfl
  | fuel + 1, i => by
    rw [searchStaticLoop]
    split
    · exact Or.inl rfl
    · next ent hent =>
      split
      · next htoken =>
        split
        · next hvalue => exact Or.inr ⟨i, ent, rfl, hent, htoken.2, hvalue⟩
        · exact searchStaticLoop_spec nv
      · exact Or.inl rfl

theorem tableGet_of_lt {i : ℕ} (h : i < staticTableLength) : c.tableGet i = staticTable[i]? :=
  if_neg (by omega)

theorem tableGet_add (i : ℕ) : c.tableGet (i + staticTableLength) = c.hdTable[i]? := by
  rw [Context.tableGet, if_pos (by omega), Nat.add_sub_cancel]

theorem lt_of_tableGet (h : c.tableGet k = some ent) :
    k < c.hdTable.length + staticTableLength := by
  unfold Context.tableGet at h
  split at h
  · have hlt := (List.getElem?_eq_some_iff.1 h).1
    omega
  · omega

/-- The static table is searched first, and then the dynamic one. -/
theorem searchHdTable_cases (c : Context) (nv : Nv) (token : Option ℕ) (mode : IndexingMode) :
    (∃ j ent t, searchHdTable c nv token mode = .nameValueMatch j ∧ token = some t ∧
      staticTable[j]? = some ent ∧ ent.token = some t ∧ ent.value = nv.value) ∨
      ∃ index, searchHdTable c nv token mode = searchHdLoop nv token mode c.hdTable 0 index ∧
        ∀ t, index = some t → token = some t ∧ t ≤ tokenWwwAuthenticate := by
  cases token with
  | none => exact Or.inr ⟨none, rfl, nofun⟩
  | some t =>
    by_cases ht : t ≤ tokenWwwAuthenticate
    · simp only [searchHdTable, if_pos ht, searchStaticTable]
      by_cases hmode : mode = .neverIndexing
      · rw [if_pos hmode]
        exact Or.inr ⟨some t, rfl, fun _ h => ⟨h, by cases h; exact ht⟩⟩
      · rw [if_neg hmode]
        rcases searchStaticLoop_spec nv (t := t) with hres | ⟨j, ent, hres, hent, htok, hval⟩
        · rw [hres]
          exact Or.inr ⟨some t, rfl, fun _ h => ⟨h, by cases h; exact ht⟩⟩
        · rw [hres]
          exact Or.inl ⟨j, ent, t, rfl, rfl, hent, htok, hval⟩
    · simp only [searchHdTable, if_neg ht]
      exact Or.inr ⟨none, rfl, nofun⟩

theorem searchHdTable_nameMatch (h : searchHdTable c nv (lookupToken nv.name) mode = .nameMatch k) :
    ∃ ent, c.tableGet k = some ent ∧ ent.Matches nv (lookupToken nv.name) := by
  rcases searchHdTable_cases c nv (lookupToken nv.name) mode with
    ⟨j, ent, t, hres, -⟩ | ⟨index, hres, hindex⟩
  · exact nomatch hres.symm.trans h
  · rcases searchHdLoop_nameMatch (hres.symm.trans h) with hk | ⟨j, ent, rfl, hj, hmatch⟩
    · obtain ⟨htoken, hle⟩ := hindex k hk
      obtain ⟨ent, hent, htok, -⟩ := staticTable_of_mem (mem_tokenTable_of_lookupToken htoken) hle
      rw [htoken]
      exact ⟨ent, by rw [tableGet_of_lt (Nat.lt_succ_of_le hle)]; exact hent, htok, nofun⟩
    · exact ⟨ent, by rw [Nat.zero_add, tableGet_add]; exact hj, hmatch⟩

theorem searchHdTable_nameValueMatch
    (h : searchHdTable c nv (lookupToken nv.name) mode = .nameValueMatch k) :
    ∃ ent, c.tableGet k = some ent ∧ ent.Matches nv (lookupToken nv.name) ∧
      ent.value = nv.value := by
  rcases searchHdTable_cases c nv (lookupToken nv.name) mode with
    ⟨j, ent, t, hres, htoken, hent, htok, hval⟩ | ⟨index, hres, -⟩
  · cases hres.symm.trans h
    have hlt : k < staticTableLength := (List.getElem?_eq_some_iff.1 hent).1
    rw [htoken]
    exact ⟨ent, by rw [tableGet_of_lt hlt]; exact hent, ⟨htok, nofun⟩, hval⟩
  · obtain ⟨j, ent, rfl, hj, hmatch, hval⟩ := searchHdLoop_nameValueMatch (hres.symm.trans h)
    exact ⟨ent, by rw [Nat.zero_add, tableGet_add]; exact hj, hmatch, hval⟩

end Search

/-! ## The deflater -/

/-- `nghttp2_hd_deflater`. -/
structure Deflater where
  ctx : Context
  deflateHdTableBufsizeMax : ℕ
  minHdTableBufsizeMax : ℕ
  notifyTableSizeChange : Bool
deriving DecidableEq, Repr

/-- A header block: the changes of the table size, and a representation for each field. -/
structure Block where
  sizeUpdates : Bytes
  fields : List Bytes
deriving DecidableEq, Repr

/-- What is in the buffer. -/
def Block.bytes (b : Block) : Bytes := b.sizeUpdates ++ b.fields.flatten

namespace Deflater

/-- `nghttp2_hd_deflate_init2`. -/
def init2 (deflateHdTableBufsizeMax : ℕ) : Deflater where
  ctx :=
    if deflateHdTableBufsizeMax < defaultMaxBufferSize then
      { Context.init with hdTableBufsizeMax := deflateHdTableBufsizeMax }
    else Context.init
  deflateHdTableBufsizeMax := deflateHdTableBufsizeMax
  minHdTableBufsizeMax := 2 ^ 32 - 1
  notifyTableSizeChange := decide (deflateHdTableBufsizeMax < defaultMaxBufferSize)

/-- `nghttp2_hd_deflate_change_table_size`. -/
def changeTableSize (d : Deflater) (settingsHdTableBufsizeMax : ℕ) : Deflater :=
  let next := min settingsHdTableBufsizeMax d.deflateHdTableBufsizeMax
  { d with
    ctx := { d.ctx with hdTableBufsizeMax := next }.shrinkTableSize
    minHdTableBufsizeMax := min d.minHdTableBufsizeMax next
    notifyTableSizeChange := true }

/-- `hd_deflate_decide_indexing`: the tokens are `:path`, `age`, `content-length`, `etag`,
`if-modified-since`, `if-none-match`, `location` and `set-cookie`. -/
def decideIndexing (d : Deflater) (nv : Nv) (token : Option ℕ) : IndexingMode :=
  if token ∈ [some 3, some 20, some 27, some 33, some 39, some 40, some 45, some 54] ∨
      entryRoom nv.name nv.value > d.ctx.hdTableBufsizeMax * 3 / 4 then .withoutIndexing
  else .withIndexing

/-- How `deflate_nv` chooses the mode: the tokens are `authorization` and `cookie`. -/
def indexingMode (d : Deflater) (nv : Nv) (token : Option ℕ) : IndexingMode :=
  if token = some 22 ∨ token = some 31 ∧ nv.value.length < 20 ∨ nv.noIndex then .neverIndexing
  else d.decideIndexing nv token

/-- The name of the new entry: a name of the static table is not copied. -/
def entryName (d : Deflater) (nv : Nv) : Option ℕ → Bytes
  | none => nv.name
  | some idx =>
    if idx < staticTableLength then
      match d.ctx.tableGet idx with
      | some ent => ent.name.take nv.name.length
      | none => nv.name
    else nv.name

/-- The part of `deflate_nv` that adds the field to the table. -/
def addNv (d : Deflater) (nv : Nv) (token idx : Option ℕ) (mode : IndexingMode) : Deflater :=
  if mode = .withIndexing then
    { d with ctx := d.ctx.addHdTableIncremental ⟨d.entryName nv idx, nv.value, token⟩ }
  else d

/-- `deflate_nv`. -/
def deflateNv (d : Deflater) (nv : Nv) : Deflater × Except HdError Bytes :=
  let token := lookupToken nv.name
  let mode := d.indexingMode nv token
  match searchHdTable d.ctx nv token mode with
  | .nameValueMatch idx => (d, emitIndexedBlock idx)
  | .nameMatch idx => (d.addNv nv token (some idx) mode, emitIndnameBlock idx nv mode)
  | .notFound => (d.addNv nv token none mode, emitNewnameBlock nv mode)

/-- The loop of `nghttp2_hd_deflate_hd_bufs`. -/
def deflateNvs (d : Deflater) : List Nv → Deflater × Except HdError (List Bytes)
  | [] => (d, .ok [])
  | nv :: l =>
    match d.deflateNv nv with
    | (d, .error e) => (d, .error e)
    | (d, .ok b) =>
      let (d, r) := deflateNvs d l
      (d, r.map (b :: ·))

/-- The changes of the table size at the beginning of a block. -/
def sizeUpdates (d : Deflater) : Deflater × Except HdError Bytes :=
  if d.notifyTableSizeChange then
    ({ d with notifyTableSizeChange := false, minHdTableBufsizeMax := 2 ^ 32 - 1 }, do
      let low ← if d.ctx.hdTableBufsizeMax > d.minHdTableBufsizeMax then
        emitTableSize d.minHdTableBufsizeMax else pure []
      let last ← emitTableSize d.ctx.hdTableBufsizeMax
      return low ++ last)
  else (d, .ok [])

/-- The label `fail`. -/
def markBad (d : Deflater) : Deflater := { d with ctx := { d.ctx with bad := true } }

/-- `nghttp2_hd_deflate_hd_bufs`. -/
def deflateHdBufs (d : Deflater) (nva : List Nv) : Deflater × Except HdError Block :=
  if d.ctx.bad then (d, .error .headerComp)
  else
    match d.sizeUpdates with
    | (d, .error e) => (d.markBad, .error e)
    | (d, .ok updates) =>
      match d.deflateNvs nva with
      | (d, .error e) => (d.markBad, .error e)
      | (d, .ok fields) => (d, .ok ⟨updates, fields⟩)

end Deflater

/-! ## Fields that are never indexed -/

/-- The fields whose values must not be compressed: the application says so, or they are
`authorization`, or a short `cookie`. -/
def Nv.NeverIndexed (nv : Nv) : Prop :=
  nv.noIndex = true ∨ nv.name = ascii "authorization" ∨
    nv.name = ascii "cookie" ∧ nv.value.length < 20

instance (nv : Nv) : Decidable nv.NeverIndexed :=
  inferInstanceAs (Decidable (nv.noIndex = true ∨ nv.name = ascii "authorization" ∨
    nv.name = ascii "cookie" ∧ nv.value.length < 20))

/-- The representation of a field as a literal that is never indexed: only its name may be an
index, and the first byte has the pattern `0x10`. -/
def Nv.NeverLiteral (nv : Nv) (r : Bytes) : Prop :=
  ((∃ idx, emitIndnameBlock idx nv .neverIndexing = .ok r) ∨
    emitNewnameBlock nv .neverIndexing = .ok r) ∧ ∃ b l, r = b :: l ∧ b &&& 0xf0 = 0x10

/-- Two fields that are equal up to a value that is never indexed. -/
def Nv.Agree (a b : Nv) : Prop :=
  a = b ∨ a.NeverIndexed ∧ b.NeverIndexed ∧ a.name = b.name ∧ a.noIndex = b.noIndex

/-- **The mode of a field says whether it is never indexed.** -/
theorem Deflater.indexingMode_eq_never {d : Deflater} {nv : Nv} :
    d.indexingMode nv (lookupToken nv.name) = .neverIndexing ↔ nv.NeverIndexed := by
  have hauth : (ascii "authorization", 22) ∈ tokenTable := by decide +kernel
  have hcookie : (ascii "cookie", 31) ∈ tokenTable := by decide +kernel
  unfold Nv.NeverIndexed
  rw [← lookupToken_eq_some_iff hauth, ← lookupToken_eq_some_iff hcookie]
  unfold indexingMode
  constructor
  · intro h
    split at h
    · next hcase =>
      rcases hcase with h22 | h31 | hno
      exacts [Or.inr (Or.inl h22), Or.inr (Or.inr h31), Or.inl hno]
    · unfold decideIndexing at h
      split at h <;> cases h
  · intro h
    rw [if_pos]
    rcases h with hno | h22 | h31
    exacts [Or.inr (Or.inr hno), Or.inl h22, Or.inr (Or.inl h31)]

/-! ### Search without values -/

/-- The search does not look at the value, and does not find it. -/
theorem searchHdLoop_never {a b : Nv} (hname : a.name = b.name) (token : Option ℕ) :
    ∀ (l : List Entry) (i : ℕ) (index : Option ℕ),
      searchHdLoop a token .neverIndexing l i index =
        searchHdLoop b token .neverIndexing l i index ∧
        ∀ k, searchHdLoop a token .neverIndexing l i index ≠ .nameValueMatch k
  | [], _, none => ⟨rfl, nofun⟩
  | [], _, some _ => ⟨rfl, nofun⟩
  | ent :: l, i, index => by
    simp only [searchHdLoop, hname, ne_eq, not_true_eq_false, false_and, if_false]
    split
    · exact searchHdLoop_never hname token l _ _
    · exact searchHdLoop_never hname token l _ _

theorem searchHdTable_never (c : Context) {a b : Nv} (hname : a.name = b.name)
    (token : Option ℕ) :
    searchHdTable c a token .neverIndexing = searchHdTable c b token .neverIndexing ∧
      ∀ k, searchHdTable c a token .neverIndexing ≠ .nameValueMatch k := by
  cases token with
  | none => exact searchHdLoop_never hname none _ _ _
  | some t =>
    simp only [searchHdTable, searchStaticTable, if_true]
    split
    · exact searchHdLoop_never hname _ _ _ _
    · exact searchHdLoop_never hname _ _ _ _

/-! ### The representation of one field -/

theorem countLoop_le : ∀ (k fuel n len : ℕ), n < 128 ^ (k + 1) → countLoop fuel n len ≤ len + k
  | _, 0, _, _, _ => Nat.le_add_right _ _
  | 0, fuel + 1, n, len, h => by
    rw [countLoop, if_neg (by omega)]
    exact Nat.le_add_right _ _
  | k + 1, fuel + 1, n, len, h => by
    have hshift : n >>> 7 < 128 ^ (k + 1) := by
      rw [Nat.shiftRight_eq_div_pow]
      exact Nat.div_lt_of_lt_mul (by rw [pow_succ] at h; omega)
    rw [countLoop]
    split
    · have hle := countLoop_le k fuel (n >>> 7) (len + 1) hshift
      omega
    · exact Nat.le_add_right _ _

/-- A number that fits into `size_t` is encoded in less than sixteen bytes. -/
theorem emitLength_of_lt (h : n < 2 ^ 64) :
    emitLength first n width = .ok (encodeLength first n width) := by
  have hcount : countEncodedLength n width ≤ 16 := by
    unfold countEncodedLength
    dsimp only
    split
    · omega
    · have hle := countLoop_le 9 n (n - (2 ^ width - 1)) 1 (by omega)
      omega
  rw [emitLength, if_neg (by omega)]

/-- A string whose length fits into `size_t` can be emitted. -/
theorem emitString_of_lt {str : Bytes} (h : str.length < 2 ^ 64) : ∃ b, emitString str = .ok b := by
  unfold emitString
  dsimp only
  split
  · rw [emitLength_of_lt (by omega)]
    exact ⟨_, rfl⟩
  · rw [emitLength_of_lt h]
    exact ⟨_, rfl⟩

/-- The first byte keeps what stands before the integer. -/
theorem encodeLength_never (n : ℕ) : ∃ b l, encodeLength 0x10 n 4 = b :: l ∧ b &&& 0xf0 = 0x10 := by
  unfold encodeLength
  dsimp only
  split
  · next hn =>
    refine ⟨_, _, rfl, ?_⟩
    interval_cases n <;> rfl
  · exact ⟨_, _, rfl, rfl⟩

/-- The representation of a field that is never indexed. -/
def Deflater.emitNever (d : Deflater) (nv : Nv) : Except HdError Bytes :=
  match searchHdTable d.ctx nv (lookupToken nv.name) .neverIndexing with
  | .nameMatch idx => emitIndnameBlock idx nv .neverIndexing
  | _ => emitNewnameBlock nv .neverIndexing

namespace Deflater

variable {d : Deflater} {nv a b : Nv} {r : Bytes}

/-- **A field that is never indexed does not change the state.** -/
theorem deflateNv_of_neverIndexed (h : nv.NeverIndexed) : d.deflateNv nv = (d, d.emitNever nv) := by
  have hmode := indexingMode_eq_never (d := d).2 h
  have hno := (searchHdTable_never d.ctx (rfl : nv.name = nv.name) (lookupToken nv.name)).2
  unfold deflateNv emitNever
  dsimp only
  rw [hmode]
  cases hres : searchHdTable d.ctx nv (lookupToken nv.name) .neverIndexing with
  | notFound => simp [addNv]
  | nameMatch idx => simp [addNv]
  | nameValueMatch idx => exact absurd hres (hno idx)

theorem neverLiteral_of_emitNever (h : d.emitNever nv = .ok r) : nv.NeverLiteral r := by
  unfold emitNever at h
  split at h
  · next idx hres =>
    refine ⟨Or.inl ⟨idx, h⟩, ?_⟩
    obtain ⟨block, value, hblock, -, rfl⟩ := emitIndnameBlock_eq_ok.1 h
    obtain ⟨b, l, hb, hbits⟩ := encodeLength_never (idx + 1)
    obtain rfl : b :: l = block := hb.symm.trans (emitLength_eq_ok hblock)
    exact ⟨b, l ++ value, rfl, hbits⟩
  · refine ⟨Or.inr h, ?_⟩
    obtain ⟨name, value, -, -, rfl⟩ := emitNewnameBlock_eq_ok.1 h
    exact ⟨_, _, rfl, rfl⟩

/-- Whether the representation can be emitted does not depend on the value. -/
theorem emitNever_agree (hname : a.name = b.name) (ha : a.value.length < 2 ^ 64)
    (hb : b.value.length < 2 ^ 64) :
    (∃ e, d.emitNever a = .error e ∧ d.emitNever b = .error e) ∨
      ∃ r s, d.emitNever a = .ok r ∧ d.emitNever b = .ok s := by
  obtain ⟨va, hva⟩ := emitString_of_lt ha
  obtain ⟨vb, hvb⟩ := emitString_of_lt hb
  unfold emitNever
  rw [hname, (searchHdTable_never d.ctx hname (lookupToken b.name)).1]
  split
  · next idx hres =>
    unfold emitIndnameBlock
    rw [hva, hvb]
    dsimp only
    cases emitLength (packFirstByte .neverIndexing) (idx + 1)
        (if IndexingMode.neverIndexing = .withIndexing then 6 else 4) with
    | error e => exact Or.inl ⟨e, rfl, rfl⟩
    | ok block => exact Or.inr ⟨_, _, rfl, rfl⟩
  · unfold emitNewnameBlock
    rw [hname, hva, hvb]
    cases emitString b.name with
    | error e => exact Or.inl ⟨e, rfl, rfl⟩
    | ok block => exact Or.inr ⟨_, _, rfl, rfl⟩

end Deflater

/-! ### Two lists -/

/-- What two blocks have in common if the lists agree: the fields that are equal have the same
representation, and those that are never indexed are literals. -/
structure SameFields (l₁ l₂ : List Nv) (f₁ f₂ : List Bytes) : Prop where
  length₁ : f₁.length = l₁.length
  length₂ : f₂.length = l₂.length
  other : ∀ k : ℕ, l₁[k]? = l₂[k]? → f₁[k]? = f₂[k]?
  literal₁ : ∀ (k : ℕ) (nv : Nv) (r : Bytes), l₁[k]? = some nv → nv.NeverIndexed →
    f₁[k]? = some r → nv.NeverLiteral r
  literal₂ : ∀ (k : ℕ) (nv : Nv) (r : Bytes), l₂[k]? = some nv → nv.NeverIndexed →
    f₂[k]? = some r → nv.NeverLiteral r

theorem SameFields.cons {a b : Nv} {l₁ l₂ : List Nv} {r : Bytes} {f1 f2 : List Bytes}
    (h : SameFields l₁ l₂ f1 f2) (hother : a = b → r = s) (ha : a.NeverIndexed → a.NeverLiteral r)
    (hb : b.NeverIndexed → b.NeverLiteral s) :
    SameFields (a :: l₁) (b :: l₂) (r :: f1) (s :: f2) where
  length₁ := by simp [h.length₁]
  length₂ := by simp [h.length₂]
  other := by
    rintro (_ | k) hk
    · simpa using hother (by simpa using hk)
    · exact h.other k hk
  literal₁ := by
    rintro (_ | k) nv t hk hnever ht
    · cases hk
      cases ht
      exact ha hnever
    · exact h.literal₁ k nv t hk hnever ht
  literal₂ := by
    rintro (_ | k) nv t hk hnever ht
    · cases hk
      cases ht
      exact hb hnever
    · exact h.literal₂ k nv t hk hnever ht

/-- The results of two calls. -/
def SameResult {α : Type} (P : α → α → Prop) : Except HdError α → Except HdError α → Prop
  | .error e₁, .error e₂ => e₁ = e₂
  | .ok x₁, .ok x₂ => P x₁ x₂
  | _, _ => False

theorem SameResult.map {α β : Type} {P : α → α → Prop} {Q : β → β → Prop} {f g : α → β}
    (hf : ∀ {x y}, P x y → Q (f x) (g y)) :
    ∀ {r s : Except HdError α}, SameResult P r s → SameResult Q (r.map f) (s.map g)
  | .error _, .error _, h => h
  | .ok _, .ok _, h => hf h

/-- The lengths of a field are of type `size_t`. -/
def Nv.Fits (nv : Nv) : Prop := nv.name.length < 2 ^ 64 ∧ nv.value.length < 2 ^ 64

instance (nv : Nv) : Decidable nv.Fits :=
  inferInstanceAs (Decidable (nv.name.length < 2 ^ 64 ∧ nv.value.length < 2 ^ 64))

namespace Deflater

variable {d : Deflater} {nv a b : Nv} {l₁ l₂ : List Nv}

/-- One field, in two lists. -/
theorem deflateNv_agree (h : a.Agree b) (ha : a.Fits) (hb : b.Fits) :
    (d.deflateNv a).1 = (d.deflateNv b).1 ∧
      SameResult (fun r s => (a = b → r = s) ∧ (a.NeverIndexed → a.NeverLiteral r) ∧
        (b.NeverIndexed → b.NeverLiteral s)) (d.deflateNv a).2 (d.deflateNv b).2 := by
  have hliteral : ∀ {nv : Nv} {r : Bytes}, (d.deflateNv nv).2 = .ok r → nv.NeverIndexed →
      nv.NeverLiteral r := by
    intro nv r hr hnever
    rw [deflateNv_of_neverIndexed hnever] at hr
    exact neverLiteral_of_emitNever hr
  rcases h with rfl | ⟨hanever, hbnever, hname, -⟩
  · refine ⟨rfl, ?_⟩
    cases hres : (d.deflateNv a).2 with
    | error e => exact rfl
    | ok r => exact ⟨fun _ => rfl, hliteral hres, hliteral hres⟩
  rw [deflateNv_of_neverIndexed hanever, deflateNv_of_neverIndexed hbnever]
  refine ⟨rfl, ?_⟩
  rcases emitNever_agree (d := d) hname ha.2 hb.2 with ⟨e, hea, heb⟩ | ⟨r, s, hr, hs⟩
  · rw [hea, heb]
    exact rfl
  · rw [hr, hs]
    refine ⟨?_, fun _ => neverLiteral_of_emitNever hr, fun _ => neverLiteral_of_emitNever hs⟩
    rintro rfl
    exact Except.ok.inj (hr.symm.trans hs)

/-- The loop over two lists. -/
theorem deflateNvs_agree (h : List.Forall₂ Nv.Agree l₁ l₂) :
    ∀ {d : Deflater}, (∀ nv ∈ l₁ ++ l₂, nv.Fits) → (d.deflateNvs l₁).1 = (d.deflateNvs l₂).1 ∧
      SameResult (SameFields l₁ l₂) (d.deflateNvs l₁).2 (d.deflateNvs l₂).2 := by
  induction h with
  | nil => exact fun _ => ⟨rfl, rfl, rfl, fun _ _ => rfl, nofun, nofun⟩
  | @cons a b l₁ l₂ hab _ ih =>
    intro d hfits
    have hfa : a.Fits := hfits a (by simp)
    have hfb : b.Fits := hfits b (by simp)
    have hfl : ∀ nv ∈ l₁ ++ l₂, nv.Fits := by
      intro nv hnv
      refine hfits nv ?_
      rcases List.mem_append.1 hnv with hnv | hnv
      · simp [hnv]
      · simp [hnv]
    obtain ⟨hstate, hres⟩ := deflateNv_agree (d := d) hab hfa hfb
    rw [deflateNvs, deflateNvs]
    rcases hr1 : d.deflateNv a with ⟨d1, r1⟩
    rcases hr2 : d.deflateNv b with ⟨d2, r2⟩
    rw [hr1, hr2] at hstate hres
    obtain rfl : d1 = d2 := hstate
    match r1, r2, hres with
    | .error e1, .error e2, hres => exact ⟨rfl, hres⟩
    | .ok r, .ok s, ⟨hother, hla, hlb⟩ =>
      obtain ⟨hstate, hrest⟩ := ih (d := d1) hfl
      exact ⟨hstate, SameResult.map (fun hf => hf.cons hother hla hlb) hrest⟩

/-! ### Every block can be emitted -/

/-- The table is sound, and the limits are of type `size_t`. -/
structure Fits (d : Deflater) : Prop where
  sound : d.ctx.Sound
  max_lt : d.ctx.hdTableBufsizeMax < 2 ^ 64
  min_lt : d.minHdTableBufsizeMax < 2 ^ 64

theorem Fits.addNv (h : d.Fits) (nv : Nv) (token idx : Option ℕ) (mode : IndexingMode) :
    (d.addNv nv token idx mode).Fits := by
  unfold Deflater.addNv
  split
  · exact ⟨h.sound.addHdTableIncremental _,
      (h.sound.addHdTableIncremental_max _).trans_lt h.max_lt, h.min_lt⟩
  · exact h

theorem Fits.index_lt (h : d.Fits) {k : ℕ} (hk : d.ctx.tableGet k = some ent) : k + 1 < 2 ^ 64 := by
  have hlen := h.sound.length_le
  have hmax := h.max_lt
  have hlt := lt_of_tableGet hk
  have hstatic : staticTableLength = 61 := rfl
  omega

theorem Fits.deflateNv (h : d.Fits) (hnv : nv.Fits) :
    (d.deflateNv nv).1.Fits ∧ ∃ r, (d.deflateNv nv).2 = .ok r := by
  obtain ⟨name, hname⟩ := emitString_of_lt hnv.1
  obtain ⟨value, hvalue⟩ := emitString_of_lt hnv.2
  unfold Deflater.deflateNv
  dsimp only
  split
  · next k hres =>
    obtain ⟨ent, hent, -⟩ := searchHdTable_nameValueMatch hres
    exact ⟨h, _, emitLength_of_lt (h.index_lt hent)⟩
  · next k hres =>
    obtain ⟨ent, hent, -⟩ := searchHdTable_nameMatch hres
    exact ⟨h.addNv .., _,
      emitIndnameBlock_eq_ok.2 ⟨_, value, emitLength_of_lt (h.index_lt hent), hvalue, rfl⟩⟩
  · exact ⟨h.addNv .., _, emitNewnameBlock_eq_ok.2 ⟨name, value, hname, hvalue, rfl⟩⟩

theorem Fits.deflateNvs :
    ∀ {l : List Nv} {d : Deflater}, d.Fits → (∀ nv ∈ l, nv.Fits) → ∃ f, (d.deflateNvs l).2 = .ok f
  | [], _, _, _ => ⟨_, rfl⟩
  | nv :: l, d, h, hfits => by
    obtain ⟨hd, r, hr⟩ := h.deflateNv (hfits nv (by simp))
    obtain ⟨f, hf⟩ := hd.deflateNvs (l := l) fun nv hnv => hfits nv (List.mem_cons_of_mem _ hnv)
    rw [Deflater.deflateNvs]
    rcases hres : d.deflateNv nv with ⟨d1, r1⟩
    rw [hres] at hr hf
    obtain rfl : r1 = .ok r := hr
    exact ⟨r :: f, map_eq_ok.2 ⟨f, hf, rfl⟩⟩

theorem Fits.sizeUpdates (h : d.Fits) :
    d.sizeUpdates.1.Fits ∧ ∃ b, d.sizeUpdates.2 = .ok b := by
  have hlast : emitTableSize d.ctx.hdTableBufsizeMax = _ := emitLength_of_lt h.max_lt
  have hlow : emitTableSize d.minHdTableBufsizeMax = _ := emitLength_of_lt h.min_lt
  unfold Deflater.sizeUpdates
  split
  · refine ⟨⟨h.sound, h.max_lt, by norm_num⟩, ?_⟩
    dsimp only
    rw [hlast, hlow]
    split
    · exact ⟨_, rfl⟩
    · exact ⟨_, rfl⟩
  · exact ⟨h, _, rfl⟩

/-! ### Secrets -/

/-- **Values that are never indexed do not influence the compression.** -/
theorem deflateHdBufs_agree (d : Deflater) (hagree : List.Forall₂ Nv.Agree l₁ l₂)
    (hfits : ∀ nv ∈ l₁ ++ l₂, nv.Fits) :
    (d.deflateHdBufs l₁).1 = (d.deflateHdBufs l₂).1 ∧
      SameResult (fun b₁ b₂ => b₁.sizeUpdates = b₂.sizeUpdates ∧
        SameFields l₁ l₂ b₁.fields b₂.fields) (d.deflateHdBufs l₁).2 (d.deflateHdBufs l₂).2 ∧
      (d.Fits → d.ctx.bad = false → ∃ b, (d.deflateHdBufs l₁).2 = .ok b) := by
  unfold deflateHdBufs
  cases hbad : d.ctx.bad with
  | true => exact ⟨rfl, rfl, nofun⟩
  | false =>
    rw [if_neg Bool.false_ne_true]
    have hok := Fits.sizeUpdates (d := d)
    rcases hupd : d.sizeUpdates with ⟨d', _ | updates⟩
    · rw [hupd] at hok
      exact ⟨rfl, rfl, fun hd => nomatch (hok hd).2⟩
    rw [hupd] at hok
    dsimp only
    obtain ⟨hstate, hres⟩ := deflateNvs_agree (d := d') hagree hfits
    have hok' := fun hd : d.Fits =>
      (hok hd).1.deflateNvs (l := l₁) fun nv hnv => hfits nv (by simp [hnv])
    rcases hr₁ : d'.deflateNvs l₁ with ⟨d₁, r₁⟩
    rcases hr₂ : d'.deflateNvs l₂ with ⟨d₂, r₂⟩
    rw [hr₁, hr₂] at hstate hres
    rw [hr₁] at hok'
    obtain rfl : d₁ = d₂ := hstate
    match r₁, r₂, hres with
    | .error e₁, .error e₂, hres => exact ⟨rfl, hres, fun hd => nomatch hok' hd⟩
    | .ok f₁, .ok f₂, hres => exact ⟨rfl, ⟨rfl, hres⟩, fun _ _ => ⟨_, rfl⟩⟩

/-- Two requests with different passwords leave the same state. -/
theorem deflateHdBufs_authorization :
    let l₁ : List Nv := [⟨ascii "authorization", ascii "secret", false⟩,
      ⟨ascii "x", ascii "y", false⟩]
    let l₂ : List Nv := [⟨ascii "authorization", ascii "guess", false⟩,
      ⟨ascii "x", ascii "y", false⟩]
    ((init2 4096).deflateHdBufs l₁).1 = ((init2 4096).deflateHdBufs l₂).1 ∧
      ∃ b, ((init2 4096).deflateHdBufs l₁).2 = .ok b := by
  intro l₁ l₂
  have hagree : List.Forall₂ Nv.Agree l₁ l₂ :=
    .cons (Or.inr ⟨by decide, by decide, rfl, rfl⟩) (.cons (Or.inl rfl) .nil)
  have hfits : ∀ nv ∈ l₁ ++ l₂, nv.Fits := by decide
  obtain ⟨hstate, -, hok⟩ := deflateHdBufs_agree (init2 4096) hagree hfits
  exact ⟨hstate, hok ⟨Context.init_sound, by decide, by decide⟩ rfl⟩

end Deflater

end Nghttp2.Hd
