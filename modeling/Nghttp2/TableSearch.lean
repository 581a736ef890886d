/-
# The search in the header tables

The deflater looks for a field among the entries of the static table and of its dynamic
table.  It does not compare names: a known name has a token, each entry was given the token
of its name when it was added, and only names without a token are compared byte by byte.

* `Deflater.Call`: what is done with a deflater;
* `Context.Tokens`: each entry has the token of its name, in every table that comes up;
* `searchHdTable_iff`: the search finds what a comparison of names and values finds.
-/
import Nghttp2.Deflate

namespace Nghttp2.Hd

/-! ## The tables that come up -/

/-- The tokens of the entries are those of their names. -/
def Context.Tokens (c : Context) : Prop := ∀ ent ∈ c.hdTable, ent.token = lookupToken ent.name

theorem Context.evictLoop_subset (room : ℕ) :
    ∀ {n : ℕ} {c : Context}, (Context.evictLoop room n c).hdTable ⊆ c.hdTable
  | 0, _ => List.Subset.refl _
  | n + 1, c => by
    rw [Context.evictLoop]
    split
    · exact List.Subset.refl _
    · split
      · exact List.Subset.trans (Context.evictLoop_subset room) (List.dropLast_subset _)
      · exact List.Subset.refl _

theorem Context.Tokens.evict {c : Context} (h : c.Tokens) (room : ℕ) : (c.evict room).Tokens :=
  fun ent hent => h ent (Context.evictLoop_subset room hent)

theorem Context.Tokens.add {c : Context} (h : c.Tokens) {ent : Entry}
    (hent : ent.token = lookupToken ent.name) : (c.addHdTableIncremental ent).Tokens := by
  have hevict := h.evict (entryRoom ent.name ent.value)
  unfold Context.addHdTableIncremental
  dsimp only
  split
  · exact hevict
  · intro e he
    rcases List.mem_cons.1 he with rfl | he
    · exact hent
    · exact hevict e he

theorem staticTable_tokens : ∀ ent ∈ staticTable, ent.token = lookupToken ent.name := by
  decide +kernel

section Match

variable {c : Context} {nv : Nv} {ent : Entry} {mode : IndexingMode} {k : ℕ}

theorem lookupToken_inj {a b : Bytes} (h : lookupToken a = lookupToken b)
    (hsome : lookupToken a ≠ none) : a = b := by
  obtain ⟨t, ht⟩ := Option.ne_none_iff_exists'.1 hsome
  exact (lookupToken_eq_some_iff (mem_tokenTable_of_lookupToken (h.symm.trans ht))).1 ht

/-- An entry with the token of its name matches if it has the name. -/
theorem matches_iff (hent : ent.token = lookupToken ent.name) :
    ent.Matches nv (lookupToken nv.name) ↔ ent.name = nv.name := by
  unfold Entry.Matches
  constructor
  · rintro ⟨htoken, hname⟩
    by_cases hnone : lookupToken nv.name = none
    · exact hname hnone
    · rw [hent] at htoken
      exact lookupToken_inj htoken (htoken ▸ hnone)
  · intro h
    exact ⟨by rw [hent, h], fun _ => h⟩

theorem tokens_of_tableGet (hc : c.Tokens) (h : c.tableGet k = some ent) :
    ent.token = lookupToken ent.name := by
  unfold Context.tableGet at h
  split at h
  · exact hc ent (List.mem_of_getElem? h)
  · exact staticTable_tokens ent (List.mem_of_getElem? h)

/-- The name of a new entry is that of the field, also if it is taken from the static
table. -/
theorem entryName_eq {d : Deflater} (hd : d.ctx.Tokens)
    (h : searchHdTable d.ctx nv (lookupToken nv.name) mode = .nameMatch k) :
    d.entryName nv (some k) = nv.name := by
  obtain ⟨ent, hget, hmatch⟩ := searchHdTable_nameMatch h
  unfold Deflater.entryName
  dsimp only
  split
  · rw [hget]
    dsimp only
    rw [(matches_iff (tokens_of_tableGet hd hget)).1 hmatch, List.take_length]
  · rfl

end Match

namespace Deflater

variable {d : Deflater}

/-- What is done with a deflater. -/
inductive Call
  | changeTableSize (settingsHdTableBufsizeMax : ℕ)
  | deflateHdBufs (nva : List Nv)

/-- The deflater after a call. -/
def call (d : Deflater) : Call → Deflater
  | .changeTableSize n => d.changeTableSize n
  | .deflateHdBufs nva => (d.deflateHdBufs nva).1

theorem tokens_addNv (hd : d.ctx.Tokens) {nv : Nv} {idx : Option ℕ} {mode : IndexingMode}
    (hname : d.entryName nv idx = nv.name) :
    (d.addNv nv (lookupToken nv.name) idx mode).ctx.Tokens := by
  unfold addNv
  split
  · exact hd.add (by rw [hname])
  · exact hd

theorem tokens_deflateNv (hd : d.ctx.Tokens) (nv : Nv) : (d.deflateNv nv).1.ctx.Tokens := by
  unfold deflateNv
  dsimp only
  split
  · exact hd
  · next hres => exact tokens_addNv hd (entryName_eq hd hres)
  · exact tokens_addNv hd rfl

theorem tokens_deflateNvs : ∀ {l : List Nv} {d : Deflater}, d.ctx.Tokens →
    (d.deflateNvs l).1.ctx.Tokens
  | [], _, hd => hd
  | nv :: l, d, hd => by
    have hnext := tokens_deflateNv hd nv
    rw [deflateNvs]
    rcases hres : d.deflateNv nv with ⟨d1, r⟩
    rw [hres] at hnext
    cases r with
    | error e => exact hnext
    | ok b => exact tokens_deflateNvs hnext

theorem tokens_deflateHdBufs (hd : d.ctx.Tokens) (nva : List Nv) :
    (d.deflateHdBufs nva).1.ctx.Tokens := by
  have hupdates : d.sizeUpdates.1.ctx = d.ctx := by
    unfold sizeUpdates
    split <;> rfl
  unfold deflateHdBufs
  split
  · exact hd
  rcases hres : d.sizeUpdates with ⟨d1, r⟩
  rw [hres] at hupdates
  have hd1 : d1.ctx.Tokens := hupdates ▸ hd
  cases r with
  | error e => exact hd1
  | ok updates =>
    have hnext := tokens_deflateNvs (l := nva) hd1
    dsimp only
    rcases hres' : d1.deflateNvs nva with ⟨d2, r⟩
    rw [hres'] at hnext
    cases r <;> exact hnext

theorem tokens_call (hd : d.ctx.Tokens) (c : Call) : (d.call c).ctx.Tokens := by
  cases c with
  | changeTableSize n =>
    exact Context.Tokens.evict
      (c := { d.ctx with hdTableBufsizeMax := min n d.deflateHdTableBufsizeMax }) hd 0
  | deflateHdBufs nva => exact tokens_deflateHdBufs hd nva

theorem tokens_of_calls (max : ℕ) (calls : List Call) :
    (calls.foldl call (init2 max)).ctx.Tokens := by
  induction calls using List.reverseRecOn with
  | nil =>
    have hnil : (init2 max).ctx.hdTable = [] := by
      unfold init2
      split_ifs <;> rfl
    intro ent hent
    simp [hnil] at hent
  | append_singleton calls c ih =>
    rw [List.foldl_append]
    exact tokens_call ih c

end Deflater

/-! ## What is not found -/

section Miss

variable {c : Context} {nv : Nv} {token : Option ℕ} {mode : IndexingMode} {k : ℕ}

theorem matches_iff_not {ent : Entry} :
    ¬(ent.token ≠ token ∨ token = none ∧ ent.name ≠ nv.name) ↔ ent.Matches nv token := by
  unfold Entry.Matches
  tauto

/-- The search in the dynamic table finds nothing only if there is nothing. -/
theorem searchHdLoop_notFound :
    ∀ {l : List Entry} {i : ℕ} {index : Option ℕ},
      searchHdLoop nv token mode l i index = .notFound ↔
        index = none ∧ ∀ ent ∈ l, ¬ent.Matches nv token
  | [], _, none => by simp [searchHdLoop]
  | [], _, some _ => by simp [searchHdLoop]
  | ent :: l, i, index => by
    rw [searchHdLoop, List.forall_mem_cons]
    split
    · next hskip =>
      rw [searchHdLoop_notFound, and_iff_right (fun hm => (matches_iff_not.2 hm) hskip)]
    · next hmatch =>
      have hm := matches_iff_not.1 hmatch
      split
      · exact iff_of_false (by simp) fun h => h.2.1 hm
      · rw [searchHdLoop_notFound]
        exact iff_of_false (by simp) fun h => h.2.1 hm

/-- A field is found if it is there. -/
theorem searchHdLoop_complete (hmode : mode ≠ .neverIndexing) :
    ∀ {l : List Entry} {i : ℕ} {index : Option ℕ},
      (∃ ent ∈ l, ent.Matches nv token ∧ ent.value = nv.value) →
        ∃ k, searchHdLoop nv token mode l i index = .nameValueMatch k
  | ent :: l, i, index, ⟨e, he, hmatch, hvalue⟩ => by
    rw [searchHdLoop]
    split
    · next hskip =>
      rcases List.mem_cons.1 he with rfl | he
      · exact absurd hskip (matches_iff_not.2 hmatch)
      · exact searchHdLoop_complete hmode ⟨e, he, hmatch, hvalue⟩
    · split
      · exact ⟨_, rfl⟩
      · next hother =>
        rcases List.mem_cons.1 he with rfl | he
        · exact absurd ⟨hmode, hvalue⟩ hother
        · exact searchHdLoop_complete hmode ⟨e, he, hmatch, hvalue⟩

/-- The entries of one name stand together in the static table, the first at the token of the
name. -/
theorem staticTable_grouped : ∀ j < staticTableLength, ∀ i ≤ j,
    ∀ t ∈ (staticTable[j]?).bind Entry.token, t ≤ i →
      j ≤ tokenWwwAuthenticate ∧ (staticTable[i]?).bind Entry.token = some t := by
  decide +kernel

theorem le_of_staticTable : ∀ j < staticTableLength,
    ∀ t ∈ (staticTable[j]?).bind Entry.token, t ≤ j := by
  decide +kernel

theorem searchStaticLoop_complete {t j : ℕ} {ent : Entry} (hj : staticTable[j]? = some ent)
    (htoken : ent.token = some t) (hvalue : ent.value = nv.value) :
    ∀ {fuel i : ℕ}, t ≤ i → i ≤ j → j < i + fuel →
      ∃ k, searchStaticLoop nv t fuel i = .nameValueMatch k
  | 0, i, _, hij, hfuel => absurd hfuel (by omega)
  | fuel + 1, i, hti, hij, hfuel => by
    have hlt : j < staticTableLength := (List.getElem?_eq_some_iff.1 hj).1
    have hmem : t ∈ (staticTable[j]?).bind Entry.token := by rw [hj]; exact htoken
    obtain ⟨hlast, hgroup⟩ := staticTable_grouped j hlt i hij t hmem hti
    obtain ⟨e, he, hetoken⟩ := Option.bind_eq_some_iff.1 hgroup
    rw [searchStaticLoop, he]
    dsimp only
    rw [if_pos ⟨by omega, hetoken⟩]
    split
    · exact ⟨i, rfl⟩
    · next hother =>
      have hne : i ≠ j := by
        rintro rfl
        exact hother (by rw [← hvalue, Option.some.inj (he.symm.trans hj)])
      exact searchStaticLoop_complete hj htoken hvalue (by omega) (by omega) (by omega)

/-- The entries of the static table have tokens, and none is beyond the table. -/
theorem token_of_staticTable {ent : Entry} (h : staticTable[k]? = some ent) :
    ∃ t, ent.token = some t ∧ t ≤ k ∧ t ≤ tokenWwwAuthenticate := by
  have hall : ∀ e ∈ staticTable, e.token ≠ none := by decide +kernel
  obtain ⟨t, ht⟩ := Option.ne_none_iff_exists'.1 (hall ent (List.mem_of_getElem? h))
  have hk : k < staticTableLength := (List.getElem?_eq_some_iff.1 h).1
  have hle := le_of_staticTable k hk t (by rw [h]; exact ht)
  exact ⟨t, ht, hle, hle.trans (Nat.le_of_lt_succ hk)⟩

/-- A field of the static or of the dynamic table is found. -/
theorem searchHdTable_complete (hmode : mode ≠ .neverIndexing) {ent : Entry}
    (hget : c.tableGet k = some ent) (hmatch : ent.Matches nv token)
    (hvalue : ent.value = nv.value) : ∃ j, searchHdTable c nv token mode = .nameValueMatch j := by
  by_cases hk : k < staticTableLength
  · rw [tableGet_of_lt hk] at hget
    obtain ⟨t, ht, hle, hlast⟩ := token_of_staticTable hget
    have hfuel : k < t + staticTableLength := by omega
    obtain ⟨j, hj⟩ := searchStaticLoop_complete hget ht hvalue (le_refl t) hle hfuel
    rw [← hmatch.1, ht]
    exact ⟨j, by rw [searchHdTable, if_pos hlast, searchStaticTable, if_neg hmode, hj]⟩
  · obtain ⟨i, rfl⟩ := Nat.exists_eq_add_of_le' (Nat.le_of_not_lt hk)
    rw [tableGet_add] at hget
    rcases searchHdTable_cases c nv token mode with ⟨j, _, _, hres, -⟩ | ⟨index, hres, -⟩
    · exact ⟨j, hres⟩
    · rw [hres]
      exact searchHdLoop_complete hmode ⟨ent, List.mem_of_getElem? hget, hmatch, hvalue⟩

theorem searchHdTable_ne_notFound {t : ℕ} (ht : t ≤ tokenWwwAuthenticate) :
    searchHdTable c nv (some t) mode ≠ .notFound := by
  have hloop : searchHdLoop nv (some t) mode c.hdTable 0 (some t) ≠ .notFound := fun h =>
    by simpa using (searchHdLoop_notFound.1 h).1
  rw [searchHdTable, if_pos ht, searchStaticTable]
  split_ifs
  · exact hloop
  · rcases searchStaticLoop_spec nv (t := t) with hres | ⟨j, _, hres, -⟩
    · rw [hres]
      exact hloop
    · rw [hres]
      simp

theorem searchHdTable_notFound :
    searchHdTable c nv (lookupToken nv.name) mode = .notFound ↔
      ∀ k ent, c.tableGet k = some ent → ¬ent.Matches nv (lookupToken nv.name) := by
  constructor
  · intro h k ent hget hmatch
    by_cases hk : k < staticTableLength
    · rw [tableGet_of_lt hk] at hget
      obtain ⟨t, ht, -, hlast⟩ := token_of_staticTable hget
      rw [← hmatch.1, ht] at h
      exact searchHdTable_ne_notFound hlast h
    · obtain ⟨i, rfl⟩ := Nat.exists_eq_add_of_le' (Nat.le_of_not_lt hk)
      rw [tableGet_add] at hget
      rcases searchHdTable_cases c nv (lookupToken nv.name) mode with
        ⟨_, _, _, hres, -⟩ | ⟨index, hres, -⟩
      · exact nomatch hres.symm.trans h
      · exact (searchHdLoop_notFound.1 (hres.symm.trans h)).2 ent (List.mem_of_getElem? hget) hmatch
  · intro h
    rcases hres : searchHdTable c nv (lookupToken nv.name) mode with _ | k | k
    · rfl
    · obtain ⟨ent, hget, hmatch⟩ := searchHdTable_nameMatch hres
      exact absurd hmatch (h k ent hget)
    · obtain ⟨ent, hget, hmatch, -⟩ := searchHdTable_nameValueMatch hres
      exact absurd hmatch (h k ent hget)

end Miss

/-! ## The search as a comparison of names and values -/

namespace SearchResult

/-- `index`, if it is not -1. -/
def index : SearchResult → Option ℕ
  | .notFound => none
  | .nameMatch i => some i
  | .nameValueMatch i => some i

/-- `name_value_match`. -/
def isNameValueMatch : SearchResult → Bool
  | .nameValueMatch _ => true
  | _ => false

end SearchResult

/-- The search finds what a comparison of names and values finds: an entry with the name if
there is one, and an entry with the name and the value if there is one and the values are
compared at all. -/
theorem searchHdTable_iff (max : ℕ) (calls : List Deflater.Call) (nv : Nv)
    (mode : IndexingMode) :
    let c := (calls.foldl Deflater.call (Deflater.init2 max)).ctx
    let res := searchHdTable c nv (lookupToken nv.name) mode
    (∀ k, res.index = some k → ∃ ent, c.tableGet k = some ent ∧ ent.name = nv.name ∧
        (res.isNameValueMatch ↔ mode ≠ .neverIndexing ∧ ent.value = nv.value)) ∧
      (mode ≠ .neverIndexing →
        (∃ k ent, c.tableGet k = some ent ∧ ent.name = nv.name ∧ ent.value = nv.value) →
          res.isNameValueMatch) ∧
      (res.index = none ↔ ∀ k ent, c.tableGet k = some ent → ent.name ≠ nv.name) := by
  intro c res
  have htokens : c.Tokens := Deflater.tokens_of_calls max calls
  have hres : res = searchHdTable c nv (lookupToken nv.name) mode := rfl
  clear_value c res
  have hname : ∀ {k ent}, c.tableGet k = some ent →
      (ent.Matches nv (lookupToken nv.name) ↔ ent.name = nv.name) := fun hget =>
    matches_iff (tokens_of_tableGet htokens hget)
  have hcomplete : mode ≠ .neverIndexing →
      (∃ k ent, c.tableGet k = some ent ∧ ent.name = nv.name ∧ ent.value = nv.value) →
        res.isNameValueMatch := by
    rintro hmode ⟨k, ent, hget, hn, hv⟩
    obtain ⟨j, hj⟩ := searchHdTable_complete hmode hget ((hname hget).2 hn) hv
    rw [hres, hj]
    rfl
  refine ⟨?_, hcomplete, ?_⟩
  · intro k hk
    cases hr : res with
    | notFound => exact absurd hk (by rw [hr]; exact nofun)
    | nameMatch i =>
      obtain rfl : i = k := by rw [hr] at hk; exact Option.some.inj hk
      obtain ⟨ent, hget, hmatch⟩ := searchHdTable_nameMatch (hres.symm.trans hr)
      have hn := (hname hget).1 hmatch
      refine ⟨ent, hget, hn, iff_of_false nofun fun ⟨hmode, hv⟩ => ?_⟩
      have hfull := hcomplete hmode ⟨i, ent, hget, hn, hv⟩
      rw [hr] at hfull
      exact nomatch hfull
    | nameValueMatch i =>
      obtain rfl : i = k := by rw [hr] at hk; exact Option.some.inj hk
      obtain ⟨ent, hget, hmatch, hv⟩ := searchHdTable_nameValueMatch (hres.symm.trans hr)
      have hmode : mode ≠ .neverIndexing := by
        rintro rfl
        exact (searchHdTable_never c (rfl : nv.name = nv.name) _).2 i (hres.symm.trans hr)
      exact ⟨ent, hget, (hname hget).1 hmatch, iff_of_true rfl ⟨hmode, hv⟩⟩
  · have hindex : res.index = none ↔ res = .notFound := by
      cases res <;> simp [SearchResult.index]
    rw [hindex, hres, searchHdTable_notFound]
    exact forall₂_congr fun k ent => imp_congr_right fun hget => not_congr (hname hget)

/-- A field `authorization` is never indexed.  Its empty value is not looked at, although the
entry that is found has it. -/
theorem name_only_not_flagged :
    let nv : Nv := ⟨ascii "authorization", [], false⟩
    let res := searchHdTable (Deflater.init2 4096).ctx nv (lookupToken nv.name)
      ((Deflater.init2 4096).indexingMode nv (lookupToken nv.name))
    ∃ k ent, res.index = some k ∧ (Deflater.init2 4096).ctx.tableGet k = some ent ∧
      ent.name = nv.name ∧ ent.value = nv.value ∧ res.isNameValueMatch = false :=
  ⟨22, makeStaticEnt "authorization" "" 22, by decide +kernel⟩

end Nghttp2.Hd
