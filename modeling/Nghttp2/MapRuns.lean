/-
# The map of the library

`nghttp2_map` with its own hash function.  What `nghttp2_map_find` returns for each key is the
finite map that it stands for.

* `Reachable`: the maps that the program may come to;
* `Sound.insertNew`, `Sound.remove`: what the two updates do to the finite map;
* `refines_of_reachable`: all operations, in every run.
-/
import Nghttp2.Session

open ChainMap

namespace Nghttp2.Map

open Function (update update_eq_self update_of_ne update_self)

variable {α : Type}

/-- `nghttp2_map_init`; the fields of the entries have any value. -/
def init (key : α → ℕ) (next : α → Option α) : ChainMap α ℕ := ⟨fun _ => none, 256, key, next, 0⟩

/-- `nghttp2_map_entry_init` and `nghttp2_map_insert`. -/
def insertNew [DecidableEq α] (m : ChainMap α ℕ) (a : α) (k : ℕ) : ChainMap α ℕ × Bool :=
  (m.entryInit a k).insert mapHash a

/-- The entry of each key. -/
def entry (m : ChainMap α ℕ) (k : ℕ) : Option α := m.find mapHash k

/-- The maps that the program may come to.  An entry is inserted while it is not in the map, and
there are at most `3 * 2 ^ 29` entries. -/
inductive Reachable [DecidableEq α] : ChainMap α ℕ → Prop
  | init (key : α → ℕ) (next : α → Option α) : Reachable (init key next)
  | insert {m : ChainMap α ℕ} {a : α} (h : Reachable m) (hnew : ∀ k, entry m k ≠ some a)
      (hroom : m.size < 3 * 2 ^ 29) (k : ℕ) : Reachable (insertNew m a k).1
  | remove {m : ChainMap α ℕ} (h : Reachable m) (k : ℕ) : Reachable (m.remove mapHash k).1

variable {m : ChainMap α ℕ} {chains : ℕ → List α} {a b : α} {k : ℕ}

/-- The table consists of chains that hold as many entries as the map counts, and the hash of a
key fits `int32_t`. -/
structure Sound (m : ChainMap α ℕ) (chains : ℕ → List α) : Prop where
  linked : Linked mapHash m chains
  total : total m.tablelen chains = m.size
  tablelen : ∃ j ≤ 31, m.tablelen = 2 ^ j

theorem Sound.entry_eq (h : Sound m chains) : entry m k = some a ↔ Holds chains a ∧ m.key a = k :=
  find_eq_some_iff mapHash_lt h.linked h.total.le

/-- The table grows up to `2 ^ 31` buckets. -/
theorem Sound.grow (h : Sound m chains) (hroom : m.size < 3 * 2 ^ 29) :
    ∃ j ≤ 31, (if (m.size + 1) * 4 > m.tablelen * 3 then m.tablelen * 2 else m.tablelen) =
      2 ^ j := by
  obtain ⟨j, hj, hlen⟩ := h.tablelen
  split_ifs with hfull
  · refine ⟨j + 1, ?_, by rw [hlen, pow_succ]⟩
    by_contra hlast
    obtain rfl : j = 31 := by omega
    omega
  · exact ⟨j, hj, hlen⟩

/-- **The size** of the map is the number of its keys. -/
theorem Sound.size_eq (h : Sound m chains) : {k | entry m k ≠ none}.encard = m.size := by
  have himage : {k | entry m k ≠ none} = m.key '' {a | Holds chains a} := by
    ext k
    simp [Option.ne_none_iff_exists', h.entry_eq]
  have hinj : Set.InjOn m.key {a | Holds chains a} := fun a ha b hb => h.linked.key_inj ha hb
  rw [himage, hinj.encard_image, h.linked.encard_holds mapHash_lt, h.total]

variable [DecidableEq α]

/-- **Inserting** an entry that is not in the map. -/
theorem Sound.insertNew (h : Sound m chains) (hnew : ∀ k, entry m k ≠ some a)
    (hroom : m.size < 3 * 2 ^ 29) (k : ℕ) :
    (insertNew m a k).2 = (entry m k).isNone ∧ ∃ chains', Sound (insertNew m a k).1 chains' ∧
      entry (insertNew m a k).1 =
        if entry m k = none then update (entry m) k (some a) else entry m := by
  have ha : ¬ Holds chains a := fun ha => hnew _ (h.entry_eq.2 ⟨ha, rfl⟩)
  have hl : Linked mapHash (m.entryInit a k) chains := h.linked.entryInit ha k
  have hself : (m.entryInit a k).key a = k := update_self ..
  have hkey : ∀ c, Holds chains c → (m.entryInit a k).key c = m.key c := fun c hc =>
    update_of_ne (by rintro rfl; exact ha hc) _ _
  obtain ⟨hlen, c1, hr⟩ := hl.reserve mapHash_lt h.total.le
  have hgrow := h.grow hroom
  cases hf : entry m k with
  | none =>
    obtain ⟨hok, chains', hl', hholds, ht, hk⟩ := hl.insert mapHash_lt (a := a) h.total.le
      (fun c hc hck => by
        rw [hkey c hc, hself] at hck
        cases hf.symm.trans (h.entry_eq.2 ⟨hc, hck⟩)) (update_self ..)
    have hs : Sound (Map.insertNew m a k).1 chains' :=
      ⟨hl', balanced h.total ht, by rw [Map.insertNew, insert_tablelen, hlen]; exact hgrow⟩
    refine ⟨hok, chains', hs, ?_⟩
    ext k' b
    rw [if_pos rfl, hs.entry_eq, hholds, show (Map.insertNew m a k).1.key = _ from hk]
    constructor
    · rintro ⟨hb | rfl, hbk⟩
      · rw [hkey b hb] at hbk
        have hb' := h.entry_eq.2 ⟨hb, hbk⟩
        rwa [update_of_ne (by rintro rfl; cases hf.symm.trans hb')]
      · rw [← hbk, hself, update_self]
    intro hb
    rcases eq_or_ne k' k with rfl | hne
    · rw [update_self] at hb
      cases hb
      exact ⟨.inr rfl, hself⟩
    · rw [update_of_ne hne] at hb
      obtain ⟨hb, hbk⟩ := h.entry_eq.1 hb
      exact ⟨.inl hb, (hkey b hb).trans hbk⟩
  | some b =>
    obtain ⟨hb, hbk⟩ := h.entry_eq.1 hf
    have hrefuse : Map.insertNew m a k = (reserve mapHash (m.entryInit a k), false) :=
      hl.insert_of_holds mapHash_lt h.total.le hb (by rw [hkey b hb, hself, hbk])
    rw [hrefuse]
    have hs : Sound (reserve mapHash (m.entryInit a k)) c1 :=
      ⟨hr.linked, hr.total.trans (h.total.trans hr.size.symm), by rw [hlen]; exact hgrow⟩
    refine ⟨rfl, c1, hs, ?_⟩
    ext k' c
    rw [if_neg nofun, hs.entry_eq, hr.holds, hr.key, h.entry_eq]
    exact and_congr_right fun hc => by rw [hkey c hc]

/-- **Removing** a key. -/
theorem Sound.remove (h : Sound m chains) (k : ℕ) :
    (m.remove mapHash k).2 = (entry m k).isSome ∧ ∃ chains', Sound (m.remove mapHash k).1 chains' ∧
      entry (m.remove mapHash k).1 = update (entry m) k none := by
  cases hf : entry m k with
  | none =>
    have habsent : m.remove mapHash k = (m, false) := h.linked.remove_of_absent fun c hc hck => by
      cases hf.symm.trans (h.entry_eq.2 ⟨hc, hck⟩)
    rw [habsent, ← hf, update_eq_self]
    exact ⟨by rw [hf]; rfl, chains, h, rfl⟩
  | some a =>
    obtain ⟨ha, rfl⟩ := h.entry_eq.1 hf
    obtain ⟨hok, chains', hl', hholds, ht, hk⟩ := h.linked.remove mapHash_lt h.total.le ha
    have hs : Sound (m.remove mapHash (m.key a)).1 chains' :=
      ⟨hl', balanced h.total ht, by rw [remove_tablelen]; exact h.tablelen⟩
    refine ⟨hok, chains', hs, ?_⟩
    ext k' b
    rw [hs.entry_eq, hholds, hk]
    rcases eq_or_ne k' (m.key a) with rfl | hne
    · rw [update_self]
      exact iff_of_false (fun hb => hb.1.2 (h.linked.key_inj hb.1.1 ha hb.2)) nofun
    · rw [update_of_ne hne, h.entry_eq, and_assoc]
      exact and_congr_right fun _ => ⟨And.right, fun hb => ⟨by rintro rfl; exact hne hb.symm, hb⟩⟩

theorem Reachable.sound (h : Reachable m) : ∃ chains, Sound m chains := by
  induction h with
  | init key next =>
    exact ⟨fun _ => [], ⟨fun _ => rfl, nofun, fun _ => List.nodup_nil, Nat.succ_pos 255⟩,
      Finset.sum_const_zero, 8, by decide, rfl⟩
  | insert _ hnew hroom k ih =>
    obtain ⟨chains, h⟩ := ih
    obtain ⟨-, chains', h', -⟩ := h.insertNew hnew hroom k
    exact ⟨chains', h'⟩
  | remove _ k ih =>
    obtain ⟨chains, h⟩ := ih
    obtain ⟨-, chains', h', -⟩ := h.remove k
    exact ⟨chains', h'⟩

/-- **In every run** the map is a finite map.  An entry is inserted if its key is new, and
otherwise nothing changes; the entry of a key is removed, and no other; the size is the number of
keys, `nghttp2_map_each` visits every entry once, and the buckets have indices of type `int32_t`. -/
theorem refines_of_reachable (h : Reachable m) :
    (∀ a k, (∀ k, entry m k ≠ some a) → m.size < 3 * 2 ^ 29 →
      (insertNew m a k).2 = (entry m k).isNone ∧ entry (insertNew m a k).1 =
        if entry m k = none then update (entry m) k (some a) else entry m) ∧
      (∀ k, (m.remove mapHash k).2 = (entry m k).isSome ∧
        entry (m.remove mapHash k).1 = update (entry m) k none) ∧
      {k | entry m k ≠ none}.encard = m.size ∧
      (m.entries.Nodup ∧ ∀ a, a ∈ m.entries ↔ ∃ k, entry m k = some a) ∧
      ∀ k, mapHash k m.tablelen < 2 ^ 31 := by
  obtain ⟨chains, h⟩ := h.sound
  refine ⟨fun a k hnew hroom => ?_, fun k => ?_, h.size_eq, ?_, fun k => ?_⟩
  · obtain ⟨hok, -, -, hentry⟩ := h.insertNew hnew hroom k
    exact ⟨hok, hentry⟩
  · obtain ⟨hok, -, -, hentry⟩ := h.remove k
    exact ⟨hok, hentry⟩
  · rw [entries_eq mapHash_lt h.linked h.total.le]
    refine ⟨h.linked.nodup_flatMap, fun a => ?_⟩
    rw [h.linked.mem_flatMap mapHash_lt]
    exact ⟨fun ha => ⟨_, h.entry_eq.2 ⟨ha, rfl⟩⟩, fun ⟨k, hk⟩ => (h.entry_eq.1 hk).1⟩
  · obtain ⟨j, hj, hlen⟩ := h.tablelen
    refine (mapHash_lt k _ h.linked.pos).trans_le ?_
    rw [hlen]
    exact Nat.pow_le_pow_right two_pos hj

/-- A map with one entry. -/
def oneEntry : ChainMap ℕ ℕ := (insertNew (init id fun _ => none) 0 1).1

theorem oneEntry_reachable : Reachable oneEntry := .insert (.init _ _) nofun (by decide) 1

/-- The keys 1 and 274 share a bucket; one of them is removed, and the other stays. -/
theorem refines_shared_bucket :
    let two := (insertNew oneEntry 1 274).1
    mapHash 1 256 = mapHash 274 256 ∧
      entry (two.remove mapHash 1).1 = update (entry two) 1 none ∧
      entry (two.remove mapHash 1).1 274 = some 1 ∧ (two.remove mapHash 1).1.entries = [1] := by
  intro two
  have hone : entry oneEntry = _ :=
    ((refines_of_reachable (.init id fun _ => none)).1 0 1 nofun (by decide)).2
  have hnew : ∀ k, entry oneEntry k ≠ some 1 := fun k => by
    rw [hone, if_pos (by decide), Function.update_apply]
    split_ifs
    · decide
    · exact nofun
  have htwo : Reachable two := .insert oneEntry_reachable hnew (by decide) 274
  exact ⟨by decide +kernel, ((refines_of_reachable htwo).2.1 1).2, by decide +kernel,
    by decide +kernel⟩

/-- **An entry that is inserted again** without being initialised still has its link, and brings
an entry back that was removed.  In a table of `2 ^ 32` buckets the hash of a key may not fit
`int32_t`. -/
theorem insert_again_brings_back :
    let two := (insertNew oneEntry 1 274).1
    let m := (((two.remove mapHash 274).1.remove mapHash 1).1.insert mapHash 1).1
    m.size = 1 ∧ entry m 274 = some 1 ∧ entry m 1 = some 0 ∧
      2 ^ 31 ≤ mapHash (2 ^ 32 - 1) (2 ^ 32) := by
  decide +kernel

end Nghttp2.Map
