/-
# An intrusive hash table with chaining

A map whose entries are the caller's own objects: the link to the next entry of a
bucket is a field of the entry.  The table doubles when it is three quarters full,
and every entry is then inserted again.

* `Linked hash m chains` says that bucket `b` of `m` is the chain `chains b`, that
  every entry stands in the bucket its key hashes to, and that no key occurs twice;
* `find_eq_some_iff` reads a lookup off the chains, `Linked.insert` and
  `Linked.remove` say what the two updates do to the set of entries (`Holds`);
* `Linked.cut` is what happens when the link of an entry is cleared while the entry
  is in the map: all entries behind it are gone, and `entries_length` counts how many
  remain.
-/
import Nghttp2.LinkedChain

open LinkedChain

/-- The table and the fields `key` and `next` of all entries. -/
structure ChainMap (α K : Type) where
  table : ℕ → Option α
  tablelen : ℕ
  key : α → K
  next : α → Option α
  size : ℕ

namespace ChainMap

open Function (update update_eq_self update_of_ne update_self)

variable {α K : Type}

section Operations

variable [DecidableEq α] [DecidableEq K]

/-- The loop over a chain that looks for a key. -/
def findLoop (m : ChainMap α K) (k : K) : ℕ → Option α → Option α
  | 0, _ => none
  | _, none => none
  | n + 1, some a => if m.key a = k then some a else findLoop m k n (m.next a)

/-- Look up a key. -/
def find (hash : K → ℕ → ℕ) (m : ChainMap α K) (k : K) : Option α :=
  m.findLoop k (m.size + 1) (m.table (hash k m.tablelen))

/-- Initialise an entry. -/
def entryInit (m : ChainMap α K) (a : α) (k : K) : ChainMap α K :=
  { m with key := Function.update m.key a k, next := Function.update m.next a none }

/-- Put an entry at the front of its bucket; the result is `false`, and nothing
changes, if the key is there already. -/
def insertEntry (hash : K → ℕ → ℕ) (m : ChainMap α K) (a : α) : ChainMap α K × Bool :=
  let h := hash (m.key a) m.tablelen
  match m.table h with
  | none => ({ m with table := Function.update m.table h (some a) }, true)
  | some b =>
    if (m.findLoop (m.key a) (m.size + 1) (some b)).isSome then (m, false)
    else
      ({ m with
          next := Function.update m.next a (some b)
          table := Function.update m.table h (some a) }, true)

/-- Move the entries of one old bucket to the new table. -/
def rehashLoop (hash : K → ℕ → ℕ) : ℕ → ChainMap α K → Option α → ChainMap α K
  | 0, m, _ => m
  | _, m, none => m
  | n + 1, m, some a =>
    rehashLoop hash n
      (insertEntry hash { m with next := Function.update m.next a none } a).1 (m.next a)

/-- Replace the table by one of another length. -/
def resize (hash : K → ℕ → ℕ) (m : ChainMap α K) (newTablelen : ℕ) : ChainMap α K :=
  (List.range m.tablelen).foldl (fun nm i => rehashLoop hash (m.size + 1) nm (m.table i))
    { m with table := fun _ => none, tablelen := newTablelen }

/-- The table is resized first if its load factor would pass 3/4. -/
def reserve (hash : K → ℕ → ℕ) (m : ChainMap α K) : ChainMap α K :=
  if (m.size + 1) * 4 > m.tablelen * 3 then resize hash m (m.tablelen * 2) else m

/-- Insert an entry; the result is `false` if its key is there already. -/
def insert (hash : K → ℕ → ℕ) (m : ChainMap α K) (a : α) : ChainMap α K × Bool :=
  let r := insertEntry hash (reserve hash m) a
  if r.2 then ({ r.1 with size := r.1.size + 1 }, true) else r

/-- Take `a`, which follows `prev` in the chain of bucket `h`, out of the chain. -/
def unlink (m : ChainMap α K) (h : ℕ) (prev : Option α) (a : α) : ChainMap α K :=
  match prev with
  | none => { m with table := Function.update m.table h (m.next a), size := m.size - 1 }
  | some p => { m with next := Function.update m.next p (m.next a), size := m.size - 1 }

/-- The loop of `remove` over the chain of bucket `h`, one entry behind `prev`. -/
def removeLoop (m : ChainMap α K) (k : K) (h : ℕ) : ℕ → Option α → Option α → ChainMap α K × Bool
  | 0, _, _ => (m, false)
  | _, _, none => (m, false)
  | n + 1, prev, some a =>
    if m.key a = k then (m.unlink h prev a, true) else removeLoop m k h n (some a) (m.next a)

/-- Remove the entry of a key; the result is `false` if there is none. -/
def remove (hash : K → ℕ → ℕ) (m : ChainMap α K) (k : K) : ChainMap α K × Bool :=
  let h := hash k m.tablelen
  removeLoop m k h (m.size + 1) none (m.table h)

/-- The entries that can be reached through the chains. -/
def entries (m : ChainMap α K) : List α :=
  (List.range m.tablelen).flatMap fun b => walk m.next (m.size + 1) (m.table b)

end Operations

/-! ## Chains -/

/-- Following `next` from `p` visits the addresses `l` and then ends. -/
def Path (next : α → Option α) : Option α → List α → Prop
  | p, [] => p = none
  | p, a :: l => p = some a ∧ Path next (next a) l

variable {next next' : α → Option α} {p : Option α} {l l1 l2 : List α} {a b : α}

@[simp] theorem path_nil : Path next p [] ↔ p = none := Iff.rfl

@[simp] theorem path_cons : Path next p (a :: l) ↔ p = some a ∧ Path next (next a) l := Iff.rfl

/-- **Frame rule**: a chain only depends on the links of its own entries. -/
theorem path_congr (h : ∀ x ∈ l, next' x = next x) : Path next' p l ↔ Path next p l := by
  induction l generalizing p with
  | nil => simp
  | cons a l ih => rw [path_cons, path_cons, h a (by simp), ih fun x hx => h x (by simp [hx])]

/-- A path begins where it is entered. -/
theorem Path.head (h : Path next p l) : p = l.head? := by
  cases l with
  | nil => exact h
  | cons a l => exact h.1

/-- What follows an entry of a chain is the chain that starts at its link. -/
theorem Path.tail_of_append (h : Path next p (l1 ++ a :: l2)) : Path next (next a) l2 := by
  induction l1 generalizing p with
  | nil => exact h.2
  | cons c l1 ih => exact ih h.2

/-- Walking a path lists it. -/
theorem Path.walk_eq {n : ℕ} (h : Path next p l) (hn : l.length ≤ n) : walk next n p = l := by
  induction l generalizing n p with
  | nil =>
    cases h
    exact walk_none n
  | cons a l ih =>
    obtain ⟨rfl, h⟩ := h
    obtain ⟨n, rfl⟩ := Nat.exists_eq_add_of_le' (Nat.succ_le_of_lt (List.length_pos_of_ne_nil
      (List.cons_ne_nil a l) |>.trans_le hn))
    rw [walk, ih h (by simpa using hn)]

section Update

variable [DecidableEq α]

/-- A link that is not on the path. -/
theorem path_update_of_notMem {v : Option α} (ha : a ∉ l) :
    Path (update next a v) p l ↔ Path next p l :=
  path_congr fun _ hx => update_of_ne (ne_of_mem_of_not_mem hx ha) _ _

/-- Redirecting the link of an entry replaces what follows it. -/
theorem Path.update_append (h : Path next p (l1 ++ a :: l2)) (ha : a ∉ l1) {v : Option α}
    {l' : List α} (hl' : Path next v l') (ha' : a ∉ l') :
    Path (update next a v) p (l1 ++ a :: l') := by
  induction l1 generalizing p with
  | nil =>
    refine ⟨h.1, ?_⟩
    rwa [update_self, path_update_of_notMem ha']
  | cons c l1 ih =>
    have hca : c ≠ a := fun hca => ha (by simp [hca])
    refine ⟨h.1, ?_⟩
    rw [update_of_ne hca]
    exact ih h.2 fun hm => ha (by simp [hm])

end Update

/-- The search along a chain finds an entry of the chain with the key, if there is
one. -/
theorem findLoop_eq [DecidableEq K] {m : ChainMap α K} {k : K} {n : ℕ} (h : Path m.next p l)
    (hn : l.length ≤ n) : m.findLoop k n p = l.find? (fun a => m.key a = k) := by
  induction l generalizing n p with
  | nil =>
    cases h
    cases n <;> rfl
  | cons a l ih =>
    obtain ⟨rfl, h⟩ := h
    cases n with
    | zero => simp at hn
    | succ n =>
      rw [findLoop, ih h (by simpa using hn), List.find?_cons]
      by_cases ha : m.key a = k <;> simp [ha]

/-! ## The representation invariant -/

variable {hash : K → ℕ → ℕ} {m m' : ChainMap α K} {chains : ℕ → List α} {k : K}

/-- The map `m` consists of the chains `chains`. -/
structure Linked (hash : K → ℕ → ℕ) (m : ChainMap α K) (chains : ℕ → List α) : Prop where
  path : ∀ b, Path m.next (m.table b) (chains b)
  home : ∀ ⦃b a⦄, a ∈ chains b → hash (m.key a) m.tablelen = b
  keys : ∀ b, ((chains b).map m.key).Nodup
  pos : 0 < m.tablelen

/-- The entry `a` is in one of the chains. -/
def Holds (chains : ℕ → List α) (a : α) : Prop := ∃ b, a ∈ chains b

/-- The number of entries in the chains of `n` buckets. -/
def total (n : ℕ) (chains : ℕ → List α) : ℕ := ∑ b ∈ Finset.range n, (chains b).length

/-- A map that counted its entries right counts them right afterwards. -/
theorem balanced {m m' : ChainMap α K} {chains chains' : ℕ → List α}
    (h : total m.tablelen chains = m.size)
    (h' : total m'.tablelen chains' + m.size = total m.tablelen chains + m'.size) :
    total m'.tablelen chains' = m'.size := by
  omega

/-- The buckets hold all entries. -/
theorem flatMap_range_length (n : ℕ) :
    ((List.range n).flatMap chains).length = total n chains := by
  induction n with
  | zero => rfl
  | succ n ih =>
    rw [List.range_succ, List.flatMap_append, List.length_append, ih, total, total,
      Finset.sum_range_succ]
    simp

/-- One bucket changes. -/
theorem total_update (chains : ℕ → List α) (l : List α) {i n : ℕ} (hi : i < n) :
    total n (update chains i l) + (chains i).length = total n chains + l.length := by
  have hmem : i ∈ Finset.range n := Finset.mem_range.2 hi
  rw [total, total, ← Finset.add_sum_erase _ _ hmem, ← Finset.add_sum_erase _ _ hmem]
  have hrest : ∀ b ∈ (Finset.range n).erase i,
      (update chains i l b).length = (chains b).length := fun b hb => by
    rw [update_of_ne (Finset.ne_of_mem_erase hb)]
  rw [Finset.sum_congr rfl hrest, update_self]
  omega

/-- The key of an entry determines it. -/
theorem Linked.key_inj (h : Linked hash m chains) (ha : Holds chains a) (hb : Holds chains b)
    (hk : m.key a = m.key b) : a = b := by
  obtain ⟨i, hi⟩ := ha
  obtain ⟨j, hj⟩ := hb
  obtain rfl : i = j := by rw [← h.home hi, ← h.home hj, hk]
  exact List.inj_on_of_nodup_map (h.keys i) hi hj hk

/-- A bucket lists no entry twice. -/
theorem Linked.nodup (h : Linked hash m chains) (b : ℕ) : (chains b).Nodup :=
  List.Nodup.of_map _ (h.keys b)

/-- No entry is in two buckets. -/
theorem Linked.nodup_flatMap (h : Linked hash m chains) :
    ((List.range m.tablelen).flatMap chains).Nodup := by
  rw [List.nodup_flatMap]
  refine ⟨fun b _ => h.nodup b, List.nodup_range.imp ?_⟩
  intro i j hij a hai haj
  exact hij ((h.home hai).symm.trans (h.home haj))

/-- The number of elements of a list. -/
theorem encard_mem_of_nodup {l : List α} (h : l.Nodup) : {a | a ∈ l}.encard = l.length := by
  classical
  have hset : {a | a ∈ l} = (l.toFinset : Set α) := by
    ext a
    simp
  rw [hset, Set.encard_coe_eq_coe_finsetCard, List.toFinset_card_of_nodup h]

section Hash

variable (hash_lt : ∀ k n, 0 < n → hash k n < n)
include hash_lt

section

variable (h : Linked hash m chains)
include h

/-- Only buckets of the table hold entries. -/
theorem Linked.lt_tablelen {i : ℕ} (ha : a ∈ chains i) : i < m.tablelen := by
  rw [← h.home ha]
  exact hash_lt _ _ h.pos

/-- The size bounds every bucket. -/
theorem Linked.length_le (htotal : total m.tablelen chains ≤ m.size)
    (i : ℕ) : (chains i).length ≤ m.size := by
  refine le_trans ?_ htotal
  by_cases hi : i < m.tablelen
  · exact Finset.single_le_sum (f := fun b => (chains b).length) (fun _ _ => Nat.zero_le _)
      (Finset.mem_range.2 hi)
  · have : chains i = [] := List.eq_nil_iff_forall_not_mem.2 fun a ha =>
      hi (h.lt_tablelen hash_lt ha)
    simp [this]

/-- **Lookup**: the entry found is the one in the chains with the key. -/
theorem find_eq_some_iff [DecidableEq K] (htotal : total m.tablelen chains ≤ m.size) :
    find hash m k = some a ↔ Holds chains a ∧ m.key a = k := by
  rw [find, findLoop_eq (h.path _) (Nat.le_succ_of_le (h.length_le hash_lt htotal _))]
  constructor
  · intro hfind
    exact ⟨⟨_, List.mem_of_find?_eq_some hfind⟩, by simpa using List.find?_some hfind⟩
  · rintro ⟨⟨i, hi⟩, rfl⟩
    obtain rfl := h.home hi
    cases hfind : (chains (hash (m.key a) m.tablelen)).find? (fun c => m.key c = m.key a) with
    | none => simpa using List.find?_eq_none.1 hfind a hi
    | some c =>
      have hc : m.key c = m.key a := by simpa using List.find?_some hfind
      rw [h.key_inj ⟨_, List.mem_of_find?_eq_some hfind⟩ ⟨_, hi⟩ hc]

/-- **No entry has the key.** -/
theorem find_eq_none_iff [DecidableEq K] (htotal : total m.tablelen chains ≤ m.size) :
    find hash m k = none ↔ ∀ a, Holds chains a → m.key a ≠ k := by
  rw [Option.eq_none_iff_forall_ne_some]
  refine forall_congr' fun a => ?_
  rw [Ne, find_eq_some_iff hash_lt h htotal]
  exact not_and

/-- The entries are those of the buckets. -/
theorem entries_eq (htotal : total m.tablelen chains ≤ m.size) :
    m.entries = (List.range m.tablelen).flatMap chains := by
  have hwalk : ∀ b, walk m.next (m.size + 1) (m.table b) = chains b := fun b =>
    (h.path b).walk_eq (Nat.le_succ_of_le (h.length_le hash_lt htotal b))
  simp only [entries, hwalk]

/-- Every entry is listed once. -/
theorem entries_length (htotal : total m.tablelen chains ≤ m.size) :
    m.entries.length = total m.tablelen chains := by
  rw [entries_eq hash_lt h htotal, flatMap_range_length]

/-- What the buckets hold. -/
theorem Linked.mem_flatMap : a ∈ (List.range m.tablelen).flatMap chains ↔ Holds chains a := by
  simp only [List.mem_flatMap, List.mem_range]
  exact ⟨fun ⟨b, _, hb⟩ => ⟨b, hb⟩, fun ⟨b, hb⟩ => ⟨b, h.lt_tablelen hash_lt hb, hb⟩⟩

/-- The entries in the chains, as a set, counted. -/
theorem Linked.encard_holds : {a | Holds chains a}.encard = total m.tablelen chains := by
  rw [← flatMap_range_length, ← encard_mem_of_nodup h.nodup_flatMap]
  simp only [h.mem_flatMap hash_lt]

end

end Hash

/-! ## Inserting -/

section Insert

/-- The chains after `a` was put at the front of bucket `i`. -/
def pushFront (chains : ℕ → List α) (i : ℕ) (a : α) : ℕ → List α :=
  Function.update chains i (a :: chains i)

/-- The bucket gets one more entry. -/
theorem mem_pushFront {i j : ℕ} :
    b ∈ pushFront chains i a j ↔ b ∈ chains j ∨ (b = a ∧ j = i) := by
  rcases eq_or_ne j i with rfl | hji
  · simp [pushFront, or_comm]
  · simp [pushFront, hji]

/-- The table holds one more entry. -/
theorem holds_pushFront {i : ℕ} : Holds (pushFront chains i a) b ↔ Holds chains b ∨ b = a := by
  simp only [Holds, mem_pushFront, exists_or, exists_and_left, exists_eq, and_true]

/-- It is counted once. -/
theorem total_pushFront {i n : ℕ} (hi : i < n) :
    total n (pushFront chains i a) = total n chains + 1 := by
  have := total_update chains (a :: chains i) hi
  rw [List.length_cons] at this
  rw [pushFront]
  omega

/-- Clearing the link of an entry outside the chains changes none of them. -/
theorem Linked.clear [DecidableEq α] (h : Linked hash m chains) (ha : ¬ Holds chains a) :
    Linked hash { m with next := update m.next a none } chains :=
  ⟨fun b => (path_update_of_notMem fun hb => ha ⟨b, hb⟩).2 (h.path b), h.home, h.keys, h.pos⟩

/-- The map `m'` has the entries of `m` and the entries `l`, which are new. -/
structure Extends (hash : K → ℕ → ℕ) (m m' : ChainMap α K) (chains chains' : ℕ → List α)
    (l : List α) : Prop where
  linked : Linked hash m' chains'
  holds : ∀ x, Holds chains' x ↔ Holds chains x ∨ x ∈ l
  total : total m'.tablelen chains' = total m.tablelen chains + l.length
  key : m'.key = m.key
  tablelen : m'.tablelen = m.tablelen
  size : m'.size = m.size
  next : ∀ c ∉ l, m'.next c = m.next c

/-- Nothing is added. -/
theorem Extends.refl (h : Linked hash m chains) : Extends hash m m chains chains [] :=
  ⟨h, by simp, by simp, rfl, rfl, rfl, fun _ _ => rfl⟩

/-- One addition after the other. -/
theorem Extends.trans {m1 m2 m3 : ChainMap α K} {c1 c2 c3 : ℕ → List α}
    (h : Extends hash m1 m2 c1 c2 l1) (h' : Extends hash m2 m3 c2 c3 l2) :
    Extends hash m1 m3 c1 c3 (l1 ++ l2) where
  linked := h'.linked
  holds x := by rw [h'.holds, h.holds, List.mem_append, or_assoc]
  total := by rw [h'.total, h.total, List.length_append, add_assoc]
  key := h'.key.trans h.key
  tablelen := h'.tablelen.trans h.tablelen
  size := h'.size.trans h.size
  next c hc := by
    rw [List.mem_append, not_or] at hc
    exact (h'.next c hc.2).trans (h.next c hc.1)

variable [DecidableEq α] [DecidableEq K]

/-- Inserting may double the table. -/
theorem insert_tablelen : (insert hash m a).1.tablelen = (reserve hash m).tablelen := by
  unfold insert insertEntry
  dsimp only
  split <;> split_ifs <;> rfl

variable (hash_lt : ∀ k n, 0 < n → hash k n < n)
include hash_lt

/-- A new entry, whose link is clear and whose key is new, goes to the front of its
bucket. -/
theorem Linked.insertEntry (h : Linked hash m chains) (htotal : total m.tablelen chains ≤ m.size)
    (hkey : ∀ c, Holds chains c → m.key c ≠ m.key a) (hnext : m.next a = none) :
    (insertEntry hash m a).2 = true ∧
      Extends hash m (insertEntry hash m a).1 chains
        (pushFront chains (hash (m.key a) m.tablelen) a) [a] := by
  set i := hash (m.key a) m.tablelen with hi
  have hnot : ∀ b, a ∉ chains b := fun b hb => hkey a ⟨b, hb⟩ rfl
  -- both branches differ in the links only
  have hrep : ∀ (table : ℕ → Option α) (next : α → Option α),
      (∀ b, Path next (table b) (pushFront chains i a b)) → (∀ c, c ≠ a → next c = m.next c) →
      Extends hash m { m with table := table, next := next } chains (pushFront chains i a) [a] := by
    intro table next hpath hframe
    refine ⟨⟨hpath, fun b c hc => ?_, fun b => ?_, h.pos⟩, fun x => ?_, ?_, rfl, rfl, rfl,
      fun c hc => hframe c (by simpa using hc)⟩
    · rcases mem_pushFront.1 hc with hc | ⟨rfl, rfl⟩
      · exact h.home hc
      · exact hi.symm
    · rcases eq_or_ne b i with rfl | hbi
      · rw [pushFront, update_self, List.map_cons, List.nodup_cons]
        refine ⟨fun hmem => ?_, h.keys i⟩
        obtain ⟨c, hc, hck⟩ := List.mem_map.1 hmem
        exact hkey c ⟨i, hc⟩ hck
      · rw [pushFront, update_of_ne hbi]
        exact h.keys b
    · rw [holds_pushFront, List.mem_singleton]
    · exact total_pushFront (hash_lt _ _ h.pos)
  have hpush : ∀ b, b ≠ i → pushFront chains i a b = chains b := fun b hb =>
    update_of_ne hb _ _
  cases htable : m.table i with
  | none =>
    have hnil : chains i = [] := by
      have := (h.path i).head
      rw [htable] at this
      exact List.head?_eq_none_iff.1 this.symm
    have heq : ChainMap.insertEntry hash m a =
        ({ m with table := update m.table i (some a) }, true) := by
      simp only [ChainMap.insertEntry, ← hi, htable]
    rw [heq]
    refine ⟨rfl, hrep _ m.next (fun b => ?_) fun _ _ => rfl⟩
    rcases eq_or_ne b i with rfl | hbi
    · rw [update_self, pushFront, update_self, hnil]
      exact ⟨rfl, hnext⟩
    · rw [update_of_ne hbi, hpush b hbi]
      exact h.path b
  | some c =>
    have hfind : m.findLoop (m.key a) (m.size + 1) (some c) = none := by
      rw [← htable, findLoop_eq (h.path i) (Nat.le_succ_of_le (h.length_le hash_lt htotal i)),
        List.find?_eq_none]
      intro x hx
      simpa using hkey x ⟨i, hx⟩
    have heq : ChainMap.insertEntry hash m a =
        ({ m with
            next := update m.next a (some c)
            table := update m.table i (some a) }, true) := by
      simp [ChainMap.insertEntry, ← hi, htable, hfind]
    rw [heq]
    refine ⟨rfl, hrep _ _ (fun b => ?_) fun x hx => update_of_ne hx _ _⟩
    rcases eq_or_ne b i with rfl | hbi
    · rw [update_self, pushFront, update_self]
      refine ⟨rfl, ?_⟩
      rw [update_self, path_update_of_notMem (hnot i), ← htable]
      exact h.path i
    · rw [update_of_ne hbi, hpush b hbi, path_update_of_notMem (hnot b)]
      exact h.path b

/-- The entries `l` of an old bucket, chained from `p`, move to the new table. -/
theorem Linked.rehashLoop {n : ℕ} (h : Linked hash m chains) (hl : Path m.next p l)
    (hn : l.length ≤ n) (htotal : total m.tablelen chains + l.length ≤ m.size)
    (hkeys : (l.map m.key).Nodup) (hnew : ∀ x, Holds chains x → ∀ c ∈ l, m.key x ≠ m.key c) :
    ∃ chains', Extends hash m (rehashLoop hash n m p) chains chains' l := by
  induction l generalizing n m p chains with
  | nil =>
    cases hl
    have : ChainMap.rehashLoop hash n m none = m := by cases n <;> rfl
    rw [this]
    exact ⟨chains, Extends.refl h⟩
  | cons a l ih =>
    obtain ⟨rfl, hl⟩ := hl
    cases n with
    | zero => simp at hn
    | succ n =>
      simp only [List.length_cons] at hn htotal
      rw [List.map_cons, List.nodup_cons] at hkeys
      have hal : a ∉ l := fun hal => hkeys.1 (List.mem_map_of_mem hal)
      have hka : ∀ x, Holds chains x → m.key x ≠ m.key a := fun x hx => hnew x hx a (by simp)
      have hna : ¬ Holds chains a := fun ha => hka a ha rfl
      have hclear : Linked hash { m with next := update m.next a none } chains :=
        h.clear hna
      obtain ⟨-, hins⟩ := hclear.insertEntry hash_lt (a := a) (by simp only; omega) hka
        (update_self ..)
      set m1 := (ChainMap.insertEntry hash { m with next := update m.next a none } a).1
        with hm1
      have hkey1 : m1.key = m.key := hins.key
      -- the rest of the old chain is untouched by the move of its first entry
      have hl1 : Path m1.next (m.next a) l := by
        refine (path_congr fun x hx => ?_).2 hl
        have hxa : x ≠ a := ne_of_mem_of_not_mem hx hal
        rw [hins.next x (by simpa using hxa)]
        exact update_of_ne hxa _ _
      obtain ⟨chains', hext⟩ := ih hins.linked hl1 (Nat.le_of_succ_le_succ hn)
        (by rw [hins.total, hins.size]; simp only [List.length_singleton]; omega)
        (by rw [hkey1]; exact hkeys.2) fun x hx c hc => by
          rw [hkey1]
          rcases (hins.holds x).1 hx with hx | hx
          · exact hnew x hx c (by simp [hc])
          · rw [List.mem_singleton.1 hx]
            exact fun hac => hkeys.1 (hac ▸ List.mem_map_of_mem hc)
      refine ⟨chains', ?_⟩
      have hloop : ChainMap.rehashLoop hash (n + 1) m (some a) =
          ChainMap.rehashLoop hash n m1 (m.next a) := rfl
      have := hins.trans hext
      rw [hloop]
      exact ⟨this.linked, this.holds, this.total, this.key, this.tablelen, this.size,
        fun c hc => (this.next c hc).trans (update_of_ne (fun hca => hc (by simp [hca])) _ _)⟩

/-- The buckets `is` of `m` move to the table of `nm`. -/
theorem Linked.rehashBuckets {nm : ChainMap α K} {nchains : ℕ → List α} (is : List ℕ)
    (his : is.Nodup) (h : Linked hash m chains) (hn : Linked hash nm nchains)
    (hkey : nm.key = m.key) (hsize : nm.size = m.size)
    (hnext : ∀ i ∈ is, ∀ a ∈ chains i, nm.next a = m.next a)
    (htotal : total nm.tablelen nchains + (is.flatMap chains).length ≤ m.size)
    (hnew : ∀ x, Holds nchains x → ∀ i ∈ is, ∀ c ∈ chains i, m.key x ≠ m.key c) :
    ∃ nchains', Extends hash nm
      (is.foldl (fun nm i => ChainMap.rehashLoop hash (m.size + 1) nm (m.table i)) nm)
      nchains nchains' (is.flatMap chains) := by
  induction is generalizing nm nchains with
  | nil => exact ⟨nchains, Extends.refl hn⟩
  | cons i is ih =>
    rw [List.nodup_cons] at his
    rw [List.flatMap_cons, List.length_append] at htotal
    have hpath : Path nm.next (m.table i) (chains i) :=
      (path_congr fun a ha => hnext i (by simp) a ha).2 (h.path i)
    obtain ⟨c1, hext1⟩ := hn.rehashLoop hash_lt (n := m.size + 1) hpath (by omega)
      (by rw [hsize]; omega) (by rw [hkey]; exact h.keys i)
      fun x hx c hc => by rw [hkey]; exact hnew x hx i (by simp) c hc
    -- entries of the other buckets are not in bucket `i`
    have hother : ∀ j ∈ is, ∀ a ∈ chains j, a ∉ chains i := fun j hj a ha hai =>
      his.1 (by rwa [← (h.home ha).symm.trans (h.home hai)])
    obtain ⟨c2, hext2⟩ := ih his.2 hext1.linked (hext1.key.trans hkey) (hext1.size.trans hsize)
      (fun j hj a ha => (hext1.next a (hother j hj a ha)).trans (hnext j (by simp [hj]) a ha))
      (by rw [hext1.total]; omega) fun x hx j hj c hc => by
        rcases (hext1.holds x).1 hx with hx | hx
        · exact hnew x hx j (by simp [hj]) c hc
        · intro hxc
          exact hother j hj c hc (h.key_inj ⟨i, hx⟩ ⟨j, hc⟩ hxc ▸ hx)
    exact ⟨c2, hext1.trans hext2⟩

/-- The map `m'` has the entries of `m` in other chains. -/
structure Rechains (hash : K → ℕ → ℕ) (m m' : ChainMap α K) (chains chains' : ℕ → List α) :
    Prop where
  linked : Linked hash m' chains'
  holds : ∀ x, Holds chains' x ↔ Holds chains x
  total : total m'.tablelen chains' = total m.tablelen chains
  key : m'.key = m.key
  size : m'.size = m.size
  next : ∀ c, ¬ Holds chains c → m'.next c = m.next c

/-- **Resizing** keeps the entries. -/
theorem Linked.resize {n : ℕ} (h : Linked hash m chains) (hn : 0 < n)
    (htotal : total m.tablelen chains ≤ m.size) :
    (resize hash m n).tablelen = n ∧ ∃ chains', Rechains hash m (resize hash m n)
      chains chains' := by
  have hempty : Linked hash { m with table := fun _ => none, tablelen := n } fun _ => [] :=
    ⟨fun _ => rfl, by simp, by simp, hn⟩
  have hzero : total n (fun _ => ([] : List α)) = 0 := by simp [total]
  obtain ⟨chains', hext⟩ := h.rehashBuckets hash_lt (List.range m.tablelen) List.nodup_range hempty
    rfl rfl (fun _ _ _ _ => rfl) (by rw [flatMap_range_length]; simp only; omega)
    (by simp [Holds])
  refine ⟨hext.tablelen, chains', hext.linked, fun x => ?_, ?_, hext.key, hext.size, fun c hc => ?_⟩
  · rw [hext.holds, h.mem_flatMap hash_lt]
    simp [Holds]
  · rw [show total (ChainMap.resize hash m n).tablelen chains' = _ from hext.total,
      flatMap_range_length]
    simp only
    omega
  · exact hext.next c fun hm => hc ((h.mem_flatMap hash_lt).1 hm)

/-- Making room keeps the entries. -/
theorem Linked.reserve (h : Linked hash m chains) (htotal : total m.tablelen chains ≤ m.size) :
    (reserve hash m).tablelen = (if (m.size + 1) * 4 > m.tablelen * 3 then m.tablelen * 2
      else m.tablelen) ∧ ∃ chains', Rechains hash m (reserve hash m) chains chains' := by
  unfold ChainMap.reserve
  split
  · exact h.resize hash_lt (Nat.mul_pos h.pos two_pos) htotal
  · exact ⟨rfl, chains, h, fun _ => Iff.rfl, rfl, rfl, rfl, fun _ _ => rfl⟩

/-- **An entry with the same key** keeps a new one out. -/
theorem Linked.insert_of_holds (h : Linked hash m chains)
    (htotal : total m.tablelen chains ≤ m.size) (hb : Holds chains b) (hkey : m.key b = m.key a) :
    insert hash m a = (ChainMap.reserve hash m, false) := by
  obtain ⟨-, c1, hr⟩ := h.reserve hash_lt htotal
  have hfind : find hash (ChainMap.reserve hash m) (m.key a) = some b :=
    (find_eq_some_iff hash_lt hr.linked (by rw [hr.total, hr.size]; exact htotal)).2
      ⟨(hr.holds b).2 hb, by rw [hr.key, hkey]⟩
  have hrefuse : ChainMap.insertEntry hash (ChainMap.reserve hash m) a =
      (ChainMap.reserve hash m, false) := by
    unfold ChainMap.insertEntry
    rw [hr.key]
    unfold find at hfind
    dsimp only
    cases htable : (ChainMap.reserve hash m).table (hash (m.key a)
        (ChainMap.reserve hash m).tablelen) with
    | none =>
      rw [htable] at hfind
      cases hfind
    | some c =>
      rw [htable] at hfind
      simp [hfind]
  rw [ChainMap.insert, hrefuse]
  rfl

/-- **Inserting** a new entry adds it to the entries; the map may count more entries than
its chains hold. -/
theorem Linked.insert (h : Linked hash m chains) (htotal : total m.tablelen chains ≤ m.size)
    (hkey : ∀ c, Holds chains c → m.key c ≠ m.key a) (hnext : m.next a = none) :
    (insert hash m a).2 = true ∧ ∃ chains', Linked hash (insert hash m a).1 chains' ∧
      (∀ x, Holds chains' x ↔ Holds chains x ∨ x = a) ∧
      total (insert hash m a).1.tablelen chains' + m.size =
        total m.tablelen chains + (insert hash m a).1.size ∧
      (insert hash m a).1.key = m.key := by
  have hna : ¬ Holds chains a := fun ha => hkey a ha rfl
  obtain ⟨-, c1, hl, hholds, ht, hk, hs, hnx⟩ := h.reserve hash_lt htotal
  obtain ⟨hok, hext⟩ := hl.insertEntry hash_lt (a := a) (by omega)
    (fun c hc => by rw [hk]; exact hkey c ((hholds c).1 hc)) ((hnx a hna).trans hnext)
  have heq : ChainMap.insert hash m a =
      ({ (ChainMap.insertEntry hash (ChainMap.reserve hash m) a).1 with
          size := (ChainMap.insertEntry hash (ChainMap.reserve hash m) a).1.size + 1 }, true) := by
    simp only [ChainMap.insert, hok, if_true]
  rw [heq]
  refine ⟨rfl, _, ⟨hext.linked.path, hext.linked.home, hext.linked.keys, hext.linked.pos⟩,
    fun x => ?_, ?_, hext.key.trans hk⟩
  · rw [hext.holds, hholds, List.mem_singleton]
  · have := hext.total
    have := hext.size
    simp only [List.length_singleton] at *
    omega

end Insert

/-! ## Removing -/

section Remove

/-- Bucket `i` changes to `l`; the rest of the chains stay. -/
theorem Linked.replace {i : ℕ} {m' : ChainMap α K} (h : Linked hash m chains)
    (hkey : m'.key = m.key) (hlen : m'.tablelen = m.tablelen)
    (hpath : ∀ b, b ≠ i → Path m'.next (m'.table b) (chains b)) (hi : Path m'.next (m'.table i) l)
    (hsub : l.Sublist (chains i)) : Linked hash m' (update chains i l) := by
  refine ⟨fun b => ?_, fun b a ha => ?_, fun b => ?_, hlen ▸ h.pos⟩
  · rcases eq_or_ne b i with rfl | hb
    · rwa [update_self]
    · rw [update_of_ne hb]
      exact hpath b hb
  · rw [hkey, hlen]
    rcases eq_or_ne b i with rfl | hb
    · rw [update_self] at ha
      exact h.home (hsub.subset ha)
    · rw [update_of_ne hb] at ha
      exact h.home ha
  · rw [hkey]
    rcases eq_or_ne b i with rfl | hb
    · rw [update_self]
      exact (h.keys b).sublist (hsub.map _)
    · rw [update_of_ne hb]
      exact h.keys b

variable [DecidableEq α] [DecidableEq K] {i n : ℕ} {prev : Option α}

/-- The loop of `remove` leaves the map alone if the key is not on the chain. -/
theorem removeLoop_eq_of_absent (h : Path m.next p l) (hk : ∀ c ∈ l, m.key c ≠ k) :
    removeLoop m k i n prev p = (m, false) := by
  induction l generalizing n prev p with
  | nil =>
    cases h
    cases n <;> rfl
  | cons c l ih =>
    obtain ⟨rfl, h⟩ := h
    cases n with
    | zero => rfl
    | succ n =>
      rw [removeLoop, if_neg (hk c (by simp))]
      exact ih h fun x hx => hk x (by simp [hx])

/-- The loop of `remove` unlinks the entry it finds from the one before it. -/
theorem removeLoop_eq_of_append (h : Path m.next p (l1 ++ a :: l2)) (hn : l1.length < n)
    (hk : ∀ c ∈ l1, m.key c ≠ k) (ha : m.key a = k) :
    removeLoop m k i n prev p = (m.unlink i (l1.getLast?.or prev) a, true) := by
  induction l1 generalizing n prev p with
  | nil =>
    obtain ⟨rfl, -⟩ := h
    cases n with
    | zero => simp at hn
    | succ n =>
      rw [removeLoop, if_pos ha]
      rfl
  | cons c l1 ih =>
    obtain ⟨rfl, h⟩ := h
    cases n with
    | zero => simp at hn
    | succ n =>
      have hlast : (c :: l1).getLast?.or prev = l1.getLast?.or (some c) := by
        cases l1 with
        | nil => simp
        | cons d l => simp [List.getLast?_eq_getLast_of_ne_nil]
      rw [removeLoop, if_neg (hk c (by simp)), hlast]
      exact ih h (by simpa using hn) fun x hx => hk x (by simp [hx])

/-- **Removing** a key takes its entry, and no other, out of the map; the map may count
more entries than its chains hold. -/
theorem Linked.remove (hash_lt : ∀ k n, 0 < n → hash k n < n) (h : Linked hash m chains)
    (htotal : total m.tablelen chains ≤ m.size) (ha : Holds chains a) :
    (remove hash m (m.key a)).2 = true ∧ ∃ chains',
      Linked hash (remove hash m (m.key a)).1 chains' ∧
      (∀ x, Holds chains' x ↔ Holds chains x ∧ x ≠ a) ∧
      total (remove hash m (m.key a)).1.tablelen chains' + m.size =
        total m.tablelen chains + (remove hash m (m.key a)).1.size ∧
      (remove hash m (m.key a)).1.key = m.key := by
  obtain ⟨i, hi⟩ := ha
  obtain ⟨l1, l2, hl⟩ := List.append_of_mem hi
  have hhome := h.home hi
  have hnodup : (l1 ++ a :: l2).Nodup := hl ▸ h.nodup i
  have hpath : Path m.next (m.table i) (l1 ++ a :: l2) := hl ▸ h.path i
  have hkeys : ∀ c ∈ l1, m.key c ≠ m.key a := fun c hc hck => by
    have hca : c = a := h.key_inj ⟨i, by rw [hl]; simp [hc]⟩ ⟨i, hi⟩ hck
    exact List.disjoint_of_nodup_append hnodup hc (by simp [hca])
  have hlen : l1.length < m.size + 1 := by
    have := h.length_le hash_lt htotal i
    rw [hl, List.length_append] at this
    omega
  have hsub : (l1 ++ l2).Sublist (chains i) := by
    rw [hl]
    exact List.Sublist.append_left (List.sublist_cons_self a l2) l1
  -- in both cases bucket `i` becomes `l1 ++ l2` and nothing else changes
  have hdone : ∀ (table : ℕ → Option α) (next : α → Option α),
      (∀ b, b ≠ i → Path next (table b) (chains b)) → Path next (table i) (l1 ++ l2) →
      ∃ chains', Linked hash { m with table := table, next := next, size := m.size - 1 } chains' ∧
        (∀ x, Holds chains' x ↔ Holds chains x ∧ x ≠ a) ∧
        total m.tablelen chains' + m.size = total m.tablelen chains + (m.size - 1) := by
    intro table next hne hpath'
    refine ⟨update chains i (l1 ++ l2), ?_, fun x => ?_, ?_⟩
    · exact h.replace rfl rfl hne hpath' hsub
    · constructor
      · rintro ⟨b, hb⟩
        rcases eq_or_ne b i with rfl | hbi
        · rw [update_self] at hb
          refine ⟨⟨b, hsub.subset hb⟩, fun hxa => ?_⟩
          rw [hxa] at hb
          rw [List.nodup_middle, List.nodup_cons] at hnodup
          exact hnodup.1 hb
        · rw [update_of_ne hbi] at hb
          refine ⟨⟨b, hb⟩, fun hxa => hbi ?_⟩
          rw [← h.home hb, hxa, h.home hi]
      · rintro ⟨⟨b, hb⟩, hxa⟩
        rcases eq_or_ne b i with rfl | hbi
        · refine ⟨b, ?_⟩
          rw [update_self]
          rw [hl] at hb
          simpa [hxa] using hb
        · exact ⟨b, by rwa [update_of_ne hbi]⟩
    · have := total_update chains (l1 ++ l2) (h.lt_tablelen hash_lt hi)
      rw [hl, List.length_append, List.length_append, List.length_cons] at this
      omega
  have heq : ChainMap.remove hash m (m.key a) = (m.unlink i l1.getLast? a, true) := by
    rw [ChainMap.remove, hhome, removeLoop_eq_of_append hpath hlen hkeys rfl, Option.or_none]
  rw [heq]
  rcases List.eq_nil_or_concat l1 with rfl | ⟨l, q, rfl⟩
  · obtain ⟨c, hlinked, hholds, htot⟩ := hdone (update m.table i (m.next a)) m.next
      (fun b hb => by rw [update_of_ne hb]; exact h.path b)
      (by rw [update_self]; exact hpath.2)
    exact ⟨rfl, c, hlinked, hholds, htot, rfl⟩
  rw [List.concat_eq_append] at *
  have hq : q ∉ l2 ∧ q ∉ l := by
    rw [List.append_assoc, List.nodup_append'] at hnodup
    have h2 := hnodup.2.1
    simp only [List.singleton_append, List.nodup_cons, List.mem_cons, not_or] at h2
    exact ⟨h2.1.2, fun hql => hnodup.2.2 hql (by simp)⟩
  have hqi : q ∈ chains i := by rw [hl]; simp
  obtain ⟨c, hlinked, hholds, htot⟩ := hdone m.table (update m.next q (m.next a))
    (fun b hb => (path_update_of_notMem fun hqb =>
      hb ((h.home hqb).symm.trans (h.home hqi))).2 (h.path b))
    (by
      rw [List.append_assoc] at hpath ⊢
      have htail : Path m.next (m.next q) (a :: l2) := hpath.tail_of_append
      exact hpath.update_append hq.2 htail.2 hq.1)
  rw [List.getLast?_append, List.getLast?_singleton]
  exact ⟨rfl, c, hlinked, hholds, htot, rfl⟩

/-- Removing leaves the table as large. -/
theorem remove_tablelen : (remove hash m k).1.tablelen = m.tablelen := by
  have hloop : ∀ n prev p,
      (m.removeLoop k (hash k m.tablelen) n prev p).1.tablelen = m.tablelen := by
    intro n
    induction n with
    | zero => exact fun _ _ => rfl
    | succ n ih =>
      intro prev p
      cases p with
      | none => rfl
      | some a =>
        rw [removeLoop]
        split_ifs
        · cases prev <;> rfl
        · exact ih _ _
  exact hloop _ _ _

/-- Nothing has the key. -/
theorem Linked.remove_of_absent (h : Linked hash m chains)
    (hk : ∀ c, Holds chains c → m.key c ≠ k) : ChainMap.remove hash m k = (m, false) :=
  removeLoop_eq_of_absent (h.path _) fun c hc => hk c ⟨_, hc⟩

end Remove

/-! ## Initialising an entry -/

section Init

variable [DecidableEq α] {i : ℕ}

/-- **Clearing the link of an entry** of the map cuts off the entries behind it. -/
theorem Linked.cut (h : Linked hash m chains) (hi : chains i = l1 ++ a :: l2) :
    Linked hash (m.entryInit a (m.key a)) (update chains i (l1 ++ [a])) := by
  have hai : a ∈ chains i := by rw [hi]; simp
  have hnodup : (l1 ++ a :: l2).Nodup := hi ▸ h.nodup i
  have hal : a ∉ l1 := fun hal => List.disjoint_of_nodup_append hnodup hal (by simp)
  refine h.replace (update_eq_self a m.key) rfl (fun b hb => ?_) ?_ ?_
  · exact (path_update_of_notMem fun hab => hb ((h.home hab).symm.trans (h.home hai))).2 (h.path b)
  · have hpath : Path m.next (m.table i) (l1 ++ a :: l2) := hi ▸ h.path i
    exact hpath.update_append hal rfl (by simp)
  · rw [hi]
    exact List.Sublist.append_left (by simp) l1

/-- The map counts more entries than its chains hold, once the link of an entry that is not
the last of its chain was cleared. -/
theorem Linked.cut_short (hash_lt : ∀ k n, 0 < n → hash k n < n)
    (h : Linked hash m chains) (htotal : total m.tablelen chains = m.size) (ha : Holds chains a)
    (hnext : m.next a ≠ none) :
    ∃ chains', Linked hash (m.entryInit a (m.key a)) chains' ∧
    total m.tablelen chains' < m.size := by
  obtain ⟨i, hai⟩ := ha
  obtain ⟨l1, l2, hi⟩ := List.append_of_mem hai
  have hpath : Path m.next (m.table i) (l1 ++ a :: l2) := hi ▸ h.path i
  have hl2 : l2 ≠ [] := by
    rintro rfl
    exact hnext hpath.tail_of_append
  have hlen : 0 < l2.length := List.length_pos_iff.2 hl2
  have hupdate := total_update chains (l1 ++ [a]) (h.lt_tablelen hash_lt hai)
  rw [hi] at hupdate
  simp only [List.length_append, List.length_cons, List.length_nil] at hupdate
  exact ⟨_, h.cut hi, by omega⟩

/-- **Fewer entries can be reached** than the map counts, once the link of an entry that
is not the last of its chain was cleared. -/
theorem Linked.entries_length_lt (hash_lt : ∀ k n, 0 < n → hash k n < n)
    (h : Linked hash m chains) (htotal : total m.tablelen chains = m.size) (ha : Holds chains a)
    (hnext : m.next a ≠ none) : (m.entryInit a (m.key a)).entries.length < m.size := by
  obtain ⟨chains', hcut, hlt⟩ := h.cut_short hash_lt htotal ha hnext
  rw [entries_length hash_lt hcut hlt.le]
  exact hlt

/-- The fields are already so. -/
theorem entryInit_of_next_eq_none (hnext : m.next a = none) : m.entryInit a (m.key a) = m := by
  simp [entryInit, ← hnext]

/-- An entry outside the table is initialised. -/
theorem Linked.entryInit (h : Linked hash m chains) (ha : ¬ Holds chains a) (k : K) :
    Linked hash (m.entryInit a k) chains := by
  have hne : ∀ {b x}, x ∈ chains b → x ≠ a := fun {b x} hx hxa => ha ⟨b, hxa ▸ hx⟩
  refine ⟨fun b => (path_update_of_notMem fun hab => ha ⟨b, hab⟩).2 (h.path b),
    fun b x hx => ?_, fun b => ?_, h.pos⟩
  · exact (congrArg (hash · _) (update_of_ne (hne hx) _ _)).trans (h.home hx)
  · have : (chains b).map (m.entryInit a k).key = (chains b).map m.key :=
      List.map_congr_left fun x hx => update_of_ne (hne hx) _ _
    rw [this]
    exact h.keys b

end Init

end ChainMap
