/-
# Selection of a backend group by host and path

`match_downstream_addr_group` compares the concatenation of the host and the path of a
request with the patterns of the groups, which are such concatenations themselves.

* `pathMatch_iff`: no match crosses the border between host and path;
* `matchLoop_best`: the loop finds the first of the longest patterns that match;
* `matchDownstreamAddrGroup_spec`: the priority of the two stages and the catch-all group.
-/
import Mathlib.Tactic

namespace Nghttp2.AddrGroup

/-- `path_match`; `std::equal` of a range and the text at some position is a prefix test. -/
def pathMatch (pattern host path : List Char) : Bool :=
  if pattern.getLast? ≠ some '/' then
    pattern.length == host.length + path.length && host.isPrefixOf pattern &&
      path.isPrefixOf (pattern.drop host.length)
  else if host.isPrefixOf pattern && (pattern.drop host.length).isPrefixOf path then true
  else pattern.length - 1 == host.length + path.length && host.isPrefixOf pattern &&
    path.isPrefixOf (pattern.drop host.length)

/-- The loop of `match` from the group `i` on, with `none` for the result `-1`. -/
def matchLoop (ok : List Char → Bool) :
    List (List Char) → ℕ → Option ℕ → ℕ → Option ℕ
  | [], _, res, _ => res
  | pattern :: rest, i, res, best =>
    if ¬ ok pattern then matchLoop ok rest (i + 1) res best
    else if res = none ∨ best < pattern.length then
      matchLoop ok rest (i + 1) (some i) pattern.length
    else matchLoop ok rest (i + 1) res best

/-- `match`. -/
def matchGroup (host path : List Char) (groups : List (List Char)) : Option ℕ :=
  matchLoop (pathMatch · host path) groups 0 none 0

/-- `match_downstream_addr_group_host`. -/
def matchDownstreamAddrGroupHost (host path : List Char) (groups : List (List Char))
    (catchAll : ℕ) : ℕ :=
  if path.head? ≠ some '/' then (matchGroup host ['/'] groups).getD catchAll
  else
    match matchGroup host path groups with
    | some group => group
    | none => (matchGroup [] path groups).getD catchAll

/-- The host of a `host[:port]` that is not empty, as `match_downstream_addr_group` cuts it. -/
def hostOf (hostport : List Char) : Option (List Char) :=
  if hostport.head? = some '[' then
    -- assume this is IPv6 numeric address
    match hostport.dropWhile (· ≠ ']') with
    | [] => none
    | _ :: rest =>
      if rest ≠ [] ∧ rest.head? ≠ some ':' then none
      else some (hostport.takeWhile (· ≠ ']') ++ [']'])
  else if hostport.head? = some ':' then none
  else some (hostport.takeWhile (· ≠ ':'))

/-- The path without query and fragment. -/
def pathOf (rawPath : List Char) : List Char :=
  (rawPath.takeWhile (· ≠ '#')).takeWhile (· ≠ '?')

/-- `match_downstream_addr_group`. -/
def matchDownstreamAddrGroup (hostport rawPath : List Char) (groups : List (List Char))
    (catchAll : ℕ) : ℕ :=
  -- We use '/' specially, and if '/' is included in host, it breaks our code.
  if '/' ∈ hostport then catchAll
  else if hostport = [] then
    matchDownstreamAddrGroupHost hostport (pathOf rawPath) groups catchAll
  else
    match hostOf hostport with
    | none => catchAll
    | some host =>
      matchDownstreamAddrGroupHost (host.map Char.toLower) (pathOf rawPath) groups catchAll

/-! ## What is to be selected -/

/-- A pattern: a host part, which may be empty, and a path part. -/
structure Pattern where
  host : List Char
  path : List Char
  noSlash : '/' ∉ host
  slash : path.head? = some '/'

/-- The pattern as the configuration stores it. -/
def Pattern.text (g : Pattern) : List Char := g.host ++ g.path

/-- The path part `p` matches the path of a request. -/
def PathMatches (p path : List Char) : Prop :=
  p = path ∨ (p.getLast? = some '/' ∧ p <+: path) ∨ path ++ ['/'] = p

/-- The pattern matches a host and a path. -/
def Pattern.Matches (g : Pattern) (host path : List Char) : Prop :=
  g.host = host ∧ PathMatches g.path path

/-- The group `i` is the first of those with the longest pattern for which `P` holds. -/
def Selects (groups : List Pattern) (P : Pattern → Prop) (i : ℕ) : Prop :=
  ∃ g, groups[i]? = some g ∧ P g ∧ ∀ j g', groups[j]? = some g' → P g' →
    g'.text.length ≤ g.text.length ∧ (g'.text.length = g.text.length → i ≤ j)

/-- A port behind a host, if there is one. -/
def IsPort (p : List Char) : Prop := (p = [] ∨ p.head? = some ':') ∧ '/' ∉ p

/-- `IsHostPort host s`: the text `s` is the host, which is missing, a name or bracketed, and
perhaps a port behind it. -/
inductive IsHostPort : List Char → List Char → Prop
  | missing : IsHostPort [] []
  | name {host port : List Char} : host ≠ [] → host.head? ≠ some '[' → ':' ∉ host →
      '/' ∉ host → IsPort port → IsHostPort host (host ++ port)
  | bracketed {a port : List Char} : ']' ∉ a → '/' ∉ a → IsPort port →
      IsHostPort ('[' :: a ++ [']']) ('[' :: a ++ [']'] ++ port)

/-! ## The border between host and path -/

theorem ne_of_notMem {c : Char} {l : List Char} (hc : c ∉ l) : ∀ d ∈ l, decide (d ≠ c) = true := by
  intro d hd
  simpa using fun heq : d = c => hc (heq ▸ hd)

/-- A text is cut at the first occurrence of a character. -/
theorem cut_at {c : Char} {l p : List Char} (hc : c ∉ l) (hp : p.head? = some c) :
    (l ++ p).takeWhile (· ≠ c) = l ∧ (l ++ p).dropWhile (· ≠ c) = p := by
  obtain ⟨t, rfl⟩ := List.head?_eq_some_iff.1 hp
  rw [List.takeWhile_append_of_pos (ne_of_notMem hc), List.dropWhile_append_of_pos
    (ne_of_notMem hc)]
  simp

section Border

variable (g : Pattern) {host path q : List Char}

/-- A pattern is a host and a path put together in one way only. -/
theorem Pattern.text_eq_append_iff (hh : '/' ∉ host) (hq : q.head? = some '/') :
    g.text = host ++ q ↔ g.host = host ∧ g.path = q := by
  constructor
  · intro heq
    have hhost : g.host = host := by
      rw [← (cut_at g.noSlash g.slash).1, ← (cut_at hh hq).1]
      exact congrArg _ heq
    subst hhost
    exact ⟨rfl, List.append_cancel_left heq⟩
  · rintro ⟨rfl, rfl⟩
    rfl

theorem Pattern.getLast?_text : g.text.getLast? = g.path.getLast? := by
  obtain ⟨t, ht⟩ := List.head?_eq_some_iff.1 g.slash
  rw [Pattern.text, ht, List.getLast?_append_of_ne_nil _ (List.cons_ne_nil _ _)]

/-- **No match crosses the border.**  The comparison of the concatenations decides whether
the host parts agree and the path part matches. -/
theorem pathMatch_iff (hh : '/' ∉ host) (hp : path.head? = some '/') :
    pathMatch g.text host path ↔ g.Matches host path := by
  constructor
  · intro hmatch
    have hcut (hpre : host <+: g.text) : g.text = host ++ g.text.drop host.length :=
      (List.prefix_iff_eq_append.1 hpre).symm
    have hlen := List.length_drop (i := host.length) (l := g.text)
    unfold pathMatch at hmatch
    split at hmatch
    · simp only [Bool.and_eq_true, beq_iff_eq, List.isPrefixOf_iff_prefix] at hmatch
      obtain ⟨⟨hsize, hpre⟩, hpath⟩ := hmatch
      have hq : path = g.text.drop host.length := hpath.eq_of_length (by omega)
      obtain ⟨hhost, hpart⟩ := (g.text_eq_append_iff hh (hq ▸ hp)).1 (hcut hpre)
      exact ⟨hhost, .inl (hpart.trans hq.symm)⟩
    · rename_i hlast
      rw [not_not] at hlast
      split at hmatch
      · rename_i hboth
        simp only [Bool.and_eq_true, List.isPrefixOf_iff_prefix] at hboth
        -- the pattern ends in a slash, and the host has none, so a path part is left
        have hne : g.text.drop host.length ≠ [] := by
          intro hnil
          have hall := hcut hboth.1
          rw [hnil, List.append_nil] at hall
          exact hh (hall ▸ List.mem_of_getLast? hlast)
        have hq : (g.text.drop host.length).head? = some '/' := by
          obtain ⟨t, ht⟩ := hboth.2
          rw [← hp, ← ht, List.head?_append_of_ne_nil _ hne]
        obtain ⟨hhost, hpart⟩ := (g.text_eq_append_iff hh hq).1 (hcut hboth.1)
        exact ⟨hhost, .inr (.inl ⟨g.getLast?_text ▸ hlast, hpart ▸ hboth.2⟩)⟩
      simp only [Bool.and_eq_true, beq_iff_eq, List.isPrefixOf_iff_prefix] at hmatch
      obtain ⟨⟨hsize, hpre⟩, t, ht⟩ := hmatch
      have htext := hcut hpre
      rw [← ht] at htext hlen
      have hq : (path ++ t).head? = some '/' := by
        rw [List.head?_append, hp]
        rfl
      obtain ⟨hhost, hpart⟩ := (g.text_eq_append_iff hh hq).1 htext
      obtain ⟨c, rfl⟩ : ∃ c, t = [c] := List.length_eq_one_iff.1 (by
        have hpos := List.length_pos_of_mem (List.mem_of_getLast? hlast)
        rw [List.length_append] at hlen
        omega)
      rw [g.getLast?_text, hpart, List.getLast?_concat, Option.some_inj] at hlast
      exact ⟨hhost, .inr (.inr (hlast ▸ hpart.symm))⟩
  · rintro ⟨rfl, hmatch⟩
    simp only [pathMatch, Pattern.text, List.length_append]
    rcases hmatch with rfl | ⟨hlast, hmatch⟩ | hmatch
    · simp
    · simp [hlast, hmatch]
    · simp [← hmatch]

end Border

/-! ## The loop -/

/-- The state of the loop of `match` behind the groups `done`. -/
def Best (ok : List Char → Bool) (done : List (List Char)) : Option ℕ → ℕ → Prop
  | none, _ => ∀ g ∈ done, ¬ ok g
  | some i, best => ∃ g, done[i]? = some g ∧ ok g ∧ g.length = best ∧
      ∀ j g', done[j]? = some g' → ok g' → g'.length ≤ best ∧ (g'.length = best → i ≤ j)

section Loop

variable {ok : List Char → Bool} {done : List (List Char)} {res : Option ℕ} {best : ℕ}
  {g : List Char}

theorem getElem?_concat_iff {l : List (List Char)} {j : ℕ} {g' : List Char} :
    (l ++ [g])[j]? = some g' ↔ l[j]? = some g' ∨ j = l.length ∧ g = g' := by
  rcases Nat.lt_trichotomy j l.length with h | rfl | h
  · rw [List.getElem?_append_left h]
    simp [h.ne]
  · simp
  · rw [List.getElem?_eq_none (by simp; omega), List.getElem?_eq_none h.le]
    simp [h.ne']

/-- A pattern that does not match leaves the state of the loop as it is. -/
theorem Best.skip (h : Best ok done res best) (hg : ¬ ok g) : Best ok (done ++ [g]) res best := by
  cases res with
  | none =>
    intro g' hg'
    rcases List.mem_append.1 hg' with hmem | hmem
    · exact h g' hmem
    · rwa [List.mem_singleton.1 hmem]
  | some i =>
    obtain ⟨gi, hgi, hok, hlen, hall⟩ := h
    refine ⟨gi, getElem?_concat_iff.2 (.inl hgi), hok, hlen, ?_⟩
    intro j g' hj hok'
    rcases getElem?_concat_iff.1 hj with hj | ⟨-, rfl⟩
    · exact hall j g' hj hok'
    · exact absurd hok' hg

/-- A pattern that is not longer than the best one does so as well. -/
theorem Best.keep {i : ℕ} (h : Best ok done (some i) best) (hg : g.length ≤ best) :
    Best ok (done ++ [g]) (some i) best := by
  obtain ⟨gi, hgi, hok, hlen, hall⟩ := h
  refine ⟨gi, getElem?_concat_iff.2 (.inl hgi), hok, hlen, ?_⟩
  intro j g' hj hok'
  rcases getElem?_concat_iff.1 hj with hj | ⟨rfl, rfl⟩
  · exact hall j g' hj hok'
  · exact ⟨hg, fun _ => (List.getElem?_eq_some_iff.1 hgi).1.le⟩

/-- The first pattern that matches, and a longer one, become the best. -/
theorem Best.replace (h : Best ok done res best) (hg : ok g) (hlt : res = none ∨ best < g.length) :
    Best ok (done ++ [g]) (some done.length) g.length := by
  refine ⟨g, getElem?_concat_iff.2 (.inr ⟨rfl, rfl⟩), hg, rfl, ?_⟩
  intro j g' hj hok'
  rcases getElem?_concat_iff.1 hj with hj | ⟨rfl, rfl⟩
  · cases res with
    | none => exact absurd hok' (h g' (List.mem_of_getElem? hj))
    | some i =>
      obtain ⟨gi, -, -, -, hall⟩ := h
      have hle := (hall j g' hj hok').1
      have hbest := hlt.resolve_left (by simp)
      exact ⟨by omega, by omega⟩
  · exact ⟨le_rfl, fun _ => le_rfl⟩

/-- The loop finds the first of the longest patterns that match. -/
theorem matchLoop_best (rest : List (List Char)) (h : Best ok done res best) :
    ∃ best', Best ok (done ++ rest) (matchLoop ok rest done.length res best) best' := by
  induction rest generalizing done res best with
  | nil => exact ⟨best, by rwa [List.append_nil]⟩
  | cons g rest ih =>
    have hnext {res' : Option ℕ} {best' : ℕ} (hb : Best ok (done ++ [g]) res' best') :
        ∃ b, Best ok (done ++ g :: rest) (matchLoop ok rest (done.length + 1) res' best') b := by
      have := ih hb
      rwa [List.append_assoc, List.length_append] at this
    rw [matchLoop]
    split
    · rename_i hg
      exact hnext (h.skip hg)
    · rename_i hg
      split
      · rename_i hlt
        exact hnext (h.replace (not_not.1 hg) hlt)
      · rename_i hlt
        rw [not_or] at hlt
        obtain ⟨i, rfl⟩ := Option.ne_none_iff_exists'.1 hlt.1
        exact hnext (h.keep (by omega))

end Loop

theorem matchGroup_best (host path : List Char) (groups : List (List Char)) :
    ∃ best, Best (pathMatch · host path) groups (matchGroup host path groups) best :=
  matchLoop_best groups (show Best _ [] none 0 from nofun)

/-! ## The two stages -/

section Stages

variable (groups : List Pattern) {host path : List Char} (hh : '/' ∉ host)
  (hp : path.head? = some '/')
include hh hp

theorem matchGroup_eq_none (h : matchGroup host path (groups.map Pattern.text) = none) :
    ∀ g ∈ groups, ¬ g.Matches host path := by
  obtain ⟨best, hbest⟩ := matchGroup_best host path (groups.map Pattern.text)
  rw [h] at hbest
  intro g hg hm
  exact hbest g.text (List.mem_map_of_mem hg) ((pathMatch_iff g hh hp).2 hm)

theorem matchGroup_eq_some {i : ℕ} (h : matchGroup host path (groups.map Pattern.text) = some i) :
    Selects groups (·.Matches host path) i := by
  obtain ⟨best, hbest⟩ := matchGroup_best host path (groups.map Pattern.text)
  rw [h] at hbest
  obtain ⟨t, hi, hok, rfl, hall⟩ := hbest
  simp only [List.getElem?_map, Option.map_eq_some_iff] at hi hall
  obtain ⟨g, hi, rfl⟩ := hi
  refine ⟨g, hi, (pathMatch_iff g hh hp).1 hok, ?_⟩
  intro j g' hj hm
  exact hall j g'.text ⟨g', hj, rfl⟩ ((pathMatch_iff g' hh hp).2 hm)

/-- A host is tried first, then no host, and then the catch-all group is left. -/
theorem matchDownstreamAddrGroupHost_spec {catchAll group : ℕ}
    (h : matchDownstreamAddrGroupHost host path (groups.map Pattern.text) catchAll = group) :
    Selects groups (·.Matches host path) group ∨ (∀ g ∈ groups, ¬ g.Matches host path) ∧
      (Selects groups (·.Matches [] path) group ∨
        (∀ g ∈ groups, ¬ g.Matches [] path) ∧ group = catchAll) := by
  rw [matchDownstreamAddrGroupHost, if_neg (not_not.2 hp)] at h
  split at h
  · rename_i i hi
    exact .inl (matchGroup_eq_some groups hh hp (h ▸ hi))
  · rename_i hnone
    refine .inr ⟨matchGroup_eq_none groups hh hp hnone, ?_⟩
    cases hsecond : matchGroup [] path (groups.map Pattern.text) with
    | some i =>
      rw [hsecond, Option.getD_some] at h
      exact .inl (matchGroup_eq_some groups List.not_mem_nil hp (h ▸ hsecond))
    | none =>
      rw [hsecond, Option.getD_none] at h
      exact .inr ⟨matchGroup_eq_none groups List.not_mem_nil hp hsecond, h.symm⟩

end Stages

/-- The host is cut out of a `host[:port]` that has one. -/
theorem hostOf_of_isHostPort {host s : List Char} (h : IsHostPort host s) :
    host = [] ∧ s = [] ∨ s ≠ [] ∧ hostOf s = some host ∧ '/' ∉ host ∧ '/' ∉ s := by
  cases h with
  | missing => exact .inl ⟨rfl, rfl⟩
  | @name _ port hhost hbr hcolon hslash hport =>
    refine .inr ⟨by simp [hhost], ?_, hslash, by simp [hslash, hport.2]⟩
    obtain ⟨c, t, rfl⟩ := List.exists_cons_of_ne_nil hhost
    have hc : c ≠ '[' ∧ c ≠ ':' := ⟨by simpa using hbr, fun h => hcolon (h ▸ List.mem_cons_self)⟩
    rw [hostOf, if_neg (by simpa using hc.1), if_neg (by simpa using hc.2)]
    rcases hport.1 with rfl | hport
    · rw [List.takeWhile_append_of_pos (ne_of_notMem hcolon), List.takeWhile_nil, List.append_nil]
    · rw [(cut_at hcolon hport).1]
  | @bracketed a port hbr hslash hport =>
    refine .inr ⟨by simp, ?_, by simpa using hslash, by simp [hslash, hport.2]⟩
    have hcut := cut_at (l := '[' :: a) (p := ']' :: port) (by simpa using hbr) rfl
    rw [hostOf, if_pos (by simp), List.append_assoc, List.singleton_append, hcut.1, hcut.2]
    dsimp only
    rw [if_neg]
    rcases hport.1 with h | h
    · simp [h]
    · simp [h]

theorem slash_notMem_map {host : List Char} (h : '/' ∉ host) : '/' ∉ host.map Char.toLower := by
  rw [List.mem_map]
  rintro ⟨c, hc, heq⟩
  unfold Char.toLower at heq
  split at heq
  · rename_i hup
    have hsum : c.val + 32 = 47 := congrArg Char.val heq
    have hge : (65 : UInt32) ≤ c.val := hup.1
    rw [show c.val = 15 by grind] at hge
    exact absurd hge (by decide)
  · exact h (heq ▸ hc)

theorem head?_pathOf {rawPath : List Char} (hp : rawPath.head? = some '/') :
    (pathOf rawPath).head? = some '/' := by
  obtain ⟨t, rfl⟩ := List.head?_eq_some_iff.1 hp
  simp [pathOf]

/-- **The most specific pattern is selected.**  The group is the first with a longest pattern
for the host and the path, otherwise the first with a longest pattern for the path that has no
host part, and otherwise the catch-all group. -/
theorem matchDownstreamAddrGroup_spec (groups : List Pattern) (catchAll : ℕ)
    {host hostport rawPath : List Char} (h : IsHostPort host hostport)
    (hp : rawPath.head? = some '/') :
    let group := matchDownstreamAddrGroup hostport rawPath (groups.map Pattern.text) catchAll
    Selects groups (·.Matches (host.map Char.toLower) (pathOf rawPath)) group ∨
      (∀ g ∈ groups, ¬ g.Matches (host.map Char.toLower) (pathOf rawPath)) ∧
        (Selects groups (·.Matches [] (pathOf rawPath)) group ∨
          (∀ g ∈ groups, ¬ g.Matches [] (pathOf rawPath)) ∧ group = catchAll) := by
  intro group
  rcases hostOf_of_isHostPort h with ⟨rfl, rfl⟩ | ⟨hne, hcut, hslash, hport⟩
  · exact matchDownstreamAddrGroupHost_spec groups List.not_mem_nil (head?_pathOf hp) rfl
  · apply matchDownstreamAddrGroupHost_spec groups (slash_notMem_map hslash) (head?_pathOf hp)
    simp only [group, matchDownstreamAddrGroup, if_neg hport, if_neg hne, hcut]

/-- A request with a port and a query, and a pattern that ends in a slash. -/
theorem matchDownstreamAddrGroup_ported :
    let groups := [Pattern.mk ['a'] ['/'] (by decide) rfl,
      Pattern.mk ['a'] ['/', 'b', '/'] (by decide) rfl]
    let group := matchDownstreamAddrGroup ['A', ':', '8'] ['/', 'b', '?', 'c']
      (groups.map Pattern.text) 9
    IsHostPort ['A'] ['A', ':', '8'] ∧ group = 1 ∧
      (Selects groups (·.Matches ['a'] ['/', 'b']) group ∨
        (∀ g ∈ groups, ¬ g.Matches ['a'] ['/', 'b']) ∧
        (Selects groups (·.Matches [] ['/', 'b']) group ∨
          (∀ g ∈ groups, ¬ g.Matches [] ['/', 'b']) ∧ group = 9)) := by
  have h := @IsHostPort.name ['A'] [':', '8'] (by decide) (by decide) (by decide) (by decide)
    ⟨by decide, by decide⟩
  exact ⟨h, by decide, matchDownstreamAddrGroup_spec _ 9 h rfl⟩

end Nghttp2.AddrGroup
