/-
# The document root of nghttpd

`prepare_response` opens the file that the `:path` of a request names.  A string is the list of
its bytes, and `open` sees it up to the first NUL.

* `checkPath` and `prepareResponse` follow the source up to `open`;
* `hasDotDot_iff_of_opens`: when the path below the document root has a segment `..`.
-/
import Mathlib.Tactic

namespace Nghttp2.DocRoot

/-- `isHexDigit`. -/
def isHexDigit (c : Char) : Bool := c.isDigit || ('A' ≤ c && c ≤ 'F') || ('a' ≤ c && c ≤ 'f')

/-- `hex_to_uint`. -/
def hexToUint (c : Char) : ℕ :=
  if c ≤ '9' then c.toNat - '0'.toNat
  else if c ≤ 'Z' then c.toNat - 'A'.toNat + 10
  else if c ≤ 'z' then c.toNat - 'a'.toNat + 10
  else c.toNat

/-- `percentDecode`. -/
def percentDecode : List Char → List Char
  | '%' :: a :: b :: rest =>
    if isHexDigit a && isHexDigit b then
      Char.ofNat (hexToUint a * 16 + hexToUint b) :: percentDecode rest
    else '%' :: percentDecode (a :: b :: rest)
  | c :: rest => c :: percentDecode rest
  | [] => []

/-- `check_path`. -/
def checkPath (path : List Char) : Bool :=
  path.head? = some '/' ∧ '\\' ∉ path ∧ ¬ "/../".toList <:+: path ∧ ¬ "/./".toList <:+: path ∧
    ¬ "/..".toList <:+ path ∧ ¬ "/.".toList <:+ path

/-- The part of `:path` before the query, decoded. -/
def urlOf (reqpath : List Char) : List Char := percentDecode (reqpath.takeWhile (· ≠ '?'))

/-- `prepare_response` up to `open`: the string that is opened, if any. -/
def prepareResponse (htdocs : List Char) (echoUpload : Bool) (cached : List Char → Bool)
    (reqpath : List Char) : Option (List Char) :=
  -- do not respond to this request to allow clients to test timeouts
  if "nghttpd_do_not_respond_to_req=yes".toList <:+: reqpath.dropWhile (· ≠ '?') then none
  else if !checkPath (urlOf reqpath) then none
  else
    let path := htdocs ++ urlOf reqpath
    let path := if path.getLast? = some '/' then path ++ "index.html".toList else path
    if echoUpload || cached path then none else some path

/-- `c_str`: what `open` sees of a string. -/
def cStr (s : List Char) : List Char := s.takeWhile (· ≠ '\x00')

/-- The path has a segment `..`. -/
def HasDotDot (p : List Char) : Prop :=
  ∃ a b, p = a ++ "..".toList ++ b ∧ (a = [] ∨ a.getLast? = some '/') ∧
    (b = [] ∨ b.head? = some '/')

variable {p url htdocs : List Char}

theorem hasDotDot_iff (hp : p.head? = some '/') :
    HasDotDot p ↔ "/../".toList <:+: p ∨ "/..".toList <:+ p := by
  constructor
  · rintro ⟨a, b, rfl, ha | ha, hb⟩
    · subst ha
      cases hp
    · obtain ⟨a, rfl⟩ := List.getLast?_eq_some_iff.1 ha
      rcases hb with rfl | hb
      · exact .inr ⟨a, by simp⟩
      · obtain ⟨b, rfl⟩ := List.head?_eq_some_iff.1 hb
        exact .inl ⟨a, b, by simp⟩
  · rintro (⟨a, b, rfl⟩ | ⟨a, rfl⟩)
    · exact ⟨a ++ ['/'], '/' :: b, by simp, .inr (by simp), .inr rfl⟩
    · exact ⟨a ++ ['/'], [], by simp, .inr (by simp), .inl rfl⟩

/-- The name of the default file adds no segment `..`. -/
theorem not_hasDotDot_index (hp : url.head? = some '/') (hin : ¬ "/../".toList <:+: url) :
    ¬ HasDotDot (url ++ "index.html".toList) := by
  rw [hasDotDot_iff (by simp [hp])]
  rintro (⟨a, b, h⟩ | ⟨a, h⟩)
  · -- `index.html` has no slash, so that `/../` ends in `url`
    obtain ⟨c, hc, -⟩ | ⟨c, hc, hindex⟩ := List.append_eq_append_iff.1 h
    · exact hin ⟨a, c, hc.symm⟩
    · rcases List.eq_nil_or_concat c with rfl | ⟨c, x, rfl⟩
      · exact hin ⟨a, [], by simpa using hc⟩
      · have hx := congrArg List.getLast? hc
        have hmem : x ∈ "index.html".toList := by simp [hindex]
        simp at hx
        subst hx
        revert hmem
        decide
  · have hlast := congrArg List.getLast? h
    simp at hlast

/-- A path that `check_path` accepts has no segment `..`, up to its first NUL apart. -/
theorem hasDotDot_cStr (hok : checkPath url = true) :
    HasDotDot (cStr url) ↔ "/..".toList <:+ cStr url := by
  simp only [checkPath, decide_eq_true_eq] at hok
  obtain ⟨c, hc⟩ := List.head?_eq_some_iff.1 hok.1
  rw [hasDotDot_iff (by simp [cStr, hc])]
  refine or_iff_right fun hin => hok.2.2.1 (hin.trans ?_)
  exact (List.takeWhile_prefix _).isInfix

/-- **When the opened path leaves the document root.**  The string that is opened is the
document root followed by a path, and the path has a segment `..` exactly if the decoded `:path`
ends in `/..` where it is cut. -/
theorem hasDotDot_iff_of_opens {echoUpload : Bool} {cached : List Char → Bool}
    {reqpath path : List Char} (hroot : '\x00' ∉ htdocs)
    (h : prepareResponse htdocs echoUpload cached reqpath = some path) :
    ∃ p, cStr path = htdocs ++ p ∧
      (HasDotDot p ↔ "/..".toList <:+ cStr (urlOf reqpath)) := by
  have hcut : ∀ s, cStr (htdocs ++ s) = htdocs ++ cStr s := fun s =>
    List.takeWhile_append_of_pos fun c hc => by
      simpa using ne_of_mem_of_not_mem hc hroot
  unfold prepareResponse at h
  dsimp only at h
  split_ifs at h with _ hok
  all_goals
    rw [Bool.not_eq_true', Bool.not_eq_false] at hok
    obtain rfl := Option.some.inj h
  · rw [List.append_assoc, hcut, cStr, List.takeWhile_append]
    refine ⟨_, rfl, ?_⟩
    split_ifs with hlen
    · -- there is no NUL in the path
      have hwhole : cStr (urlOf reqpath) = urlOf reqpath :=
        (List.takeWhile_prefix _).eq_of_length hlen
      rw [hwhole]
      simp only [checkPath, decide_eq_true_eq] at hok
      exact iff_of_false (not_hasDotDot_index hok.1 hok.2.2.1) hok.2.2.2.2.1
    · exact hasDotDot_cStr hok
  · rw [hcut]
    exact ⟨_, rfl, hasDotDot_cStr hok⟩

/-- A directory, for which the default file is opened. -/
theorem index_inside : ∃ p, cStr "/www/a/index.html".toList = "/www".toList ++ p ∧
    (HasDotDot p ↔ "/..".toList <:+ cStr (urlOf "/%61/?q".toList)) :=
  @hasDotDot_iff_of_opens _ false (fun _ => false) _ _ (by decide) (by decide)

/-- **A NUL hides what follows** from `open`, but not from `check_path`: the parent of the document
root is opened. -/
theorem nul_leaves_root : ∃ path,
    prepareResponse "/www".toList false (fun _ => false) "/..%00".toList = some path ∧
      cStr path = "/www".toList ++ "/..".toList ∧ HasDotDot "/..".toList :=
  ⟨"/www/..\x00".toList, by decide, by decide, ['/'], [], by decide, .inr rfl, .inl rfl⟩

end Nghttp2.DocRoot
