import LoginService.Http.Uri
import LoginService.Proofs.NotAhead

/-!
# How targets are read

A target with a path is written from its parts: a scheme and an authority, which may be left out, a
path, a query and a fragment. Every part ends where the next one begins, so the parts are read back
from the text whatever characters follow in the later parts. The text that is shown for a target is
again the text of parts, without a fragment, and it is read as the same target.
-/

namespace LoginService.Http.Uri

/-- A scheme and an authority, as they stand before a path. -/
structure Base where
  /-- The scheme. -/
  scheme : String
  /-- The authority. -/
  authority : String
  /-- A target that begins with a slash has no scheme. -/
  scheme_begins : scheme.toList.head? ≠ some '/'
  /-- A scheme ends at the first colon. -/
  scheme_ends : ':' ∉ scheme.toList ∧ '#' ∉ scheme.toList
  /-- An authority ends where a path, a query or a fragment begins. -/
  authority_ends : '/' ∉ authority.toList ∧ '?' ∉ authority.toList ∧ '#' ∉ authority.toList

/-- The parts from which a target with a path is written. -/
structure Parts where
  /-- The scheme and the authority, if they are named. -/
  base : Option Base
  /-- The path. -/
  path : String
  /-- The query, if there is one. -/
  query : Option String
  /-- The fragment, if there is one. -/
  fragment : Option String
  /-- A path begins with a slash, or it is left out behind an authority. -/
  path_begins : path.toList.head? = some '/' ∨ path = "" ∧ base.isSome
  /-- A path ends where a query or a fragment begins. -/
  path_ends : '?' ∉ path.toList ∧ '#' ∉ path.toList
  /-- A query ends where a fragment begins. -/
  query_ends : ∀ text ∈ query, '#' ∉ text.toList

/-- A fragment as it is written, behind a hash mark. -/
def fragmentText : Option String → String
  | none => ""
  | some fragment => "#" ++ fragment

/-- A scheme and an authority as they are written. -/
def Base.text (b : Base) : String :=
  b.scheme ++ "://" ++ b.authority

namespace Parts

/-- The text before the path. -/
def front (p : Parts) : String :=
  (p.base.map Base.text).getD ""

/-- The text of a target with the given parts. -/
def text (p : Parts) : String :=
  p.front ++ p.path ++ queryText p.query ++ fragmentText p.fragment

/-- The path that is asked for. A path that is left out stands for the root. -/
def resource (p : Parts) : String :=
  if p.path = "" then "/" else p.path

/-- The target that is written from the parts. -/
def uri (p : Parts) : Uri :=
  match p.base with
  | none => .origin p.resource p.query
  | some b => .absolute (canonicalScheme b.scheme) b.authority p.resource p.query

/-- The path of the target is the path that is asked for. -/
@[simp] theorem path_uri (p : Parts) : p.uri.path = p.resource := by
  unfold uri
  split <;> rfl

/-- The path that is asked for begins with a slash. -/
theorem head?_resource (p : Parts) : p.resource.toList.head? = some '/' := by
  unfold resource
  split
  · rfl
  · next hne =>
    rcases p.path_begins with hslash | ⟨hempty, -⟩
    · exact hslash
    · exact absurd hempty hne

/-- The path that is asked for ends where a query or a fragment begins. -/
theorem resource_ends (p : Parts) : '?' ∉ p.resource.toList ∧ '#' ∉ p.resource.toList := by
  unfold resource
  split
  · decide
  · exact p.path_ends

/-- A path that begins with a slash is asked for as it is. -/
theorem resource_of_slash {p : Parts} (hslash : p.path.toList.head? = some '/') :
    p.resource = p.path := by
  have hne : p.path ≠ "" := by
    intro hempty
    rw [hempty] at hslash
    cases hslash
  rw [resource, if_neg hne]

/-- Without an authority the path is not left out. -/
theorem resource_of_base_eq_none {p : Parts} (h : p.base = none) : p.resource = p.path := by
  rcases p.path_begins with hslash | ⟨-, hbase⟩
  · exact resource_of_slash hslash
  · rw [h] at hbase
    cases hbase

end Parts

/-- The text before the first character of a kind that ends it. -/
theorem cut_ne_iff {mark : Char} {text run rest : List Char} :
    (text.takeWhile (· ≠ mark) = run ∧ text.dropWhile (· ≠ mark) = rest) ↔
      mark ∉ run ∧ text = run ++ rest ∧ NotAhead (· ≠ mark) rest := by
  have hrun : (∀ c ∈ run, c ≠ mark) ↔ mark ∉ run :=
    ⟨fun h hmem => h mark hmem rfl, fun h c hc heq => h (heq ▸ hc)⟩
  simp only [cut_eq_iff, decide_eq_true_eq]
  rw [hrun]

/-- A text without its fragment is what stands before the first hash mark. -/
theorem withoutFragment_eq_iff {text front : List Char} :
    withoutFragment text = front ↔
      '#' ∉ front ∧ ∃ fragment, text = front ++ (fragmentText fragment).toList := by
  constructor
  · intro h
    obtain ⟨hfront, htext, hrest⟩ := cut_ne_iff.mp ⟨h, rfl⟩
    refine ⟨hfront, ?_⟩
    generalize text.dropWhile (· ≠ '#') = rest at htext hrest
    cases rest with
    | nil => exact ⟨none, htext⟩
    | cons c rest =>
      have hc : c = '#' := by simpa using hrest
      refine ⟨some (String.ofList rest), ?_⟩
      rw [htext, hc]
      simp [fragmentText]
  · rintro ⟨hfront, fragment, rfl⟩
    have hrest : NotAhead (· ≠ '#') (fragmentText fragment).toList := by
      cases fragment <;> simp [fragmentText]
    exact (cut_ne_iff.mpr ⟨hfront, rfl, hrest⟩).1

/-- The path is what stands before the first question mark, and the query is what follows it. -/
theorem pathAndQuery_eq_iff {text path : List Char} {query : Option String} :
    pathAndQuery text = (path, query) ↔ '?' ∉ path ∧ text = path ++ (queryText query).toList := by
  constructor
  · intro h
    obtain ⟨hpath, hquery⟩ := Prod.mk.inj h
    obtain ⟨hends, htext, hrest⟩ := cut_ne_iff.mp ⟨hpath, rfl⟩
    refine ⟨hends, ?_⟩
    generalize text.dropWhile (· ≠ '?') = rest at hquery htext hrest
    cases rest with
    | nil =>
      rw [← hquery, htext]
      rfl
    | cons c rest =>
      have hc : c = '?' := by simpa using hrest
      rw [← hquery, htext, hc]
      simp [queryText]
  · rintro ⟨hends, rfl⟩
    have hrest : NotAhead (· ≠ '?') (queryText query).toList := by
      cases query <;> simp [queryText]
    obtain ⟨htake, hdrop⟩ := cut_ne_iff.mpr ⟨hends, rfl, hrest⟩
    rw [pathAndQuery, htake, hdrop]
    cases query with
    | none => rfl
    | some query => simp [queryText]

/-- Every text is a path with a query. -/
theorem exists_pathAndQuery (text : List Char) :
    ∃ path query, '?' ∉ path ∧ text = path ++ (queryText query).toList :=
  ⟨_, _, pathAndQuery_eq_iff.mp (Eq.refl (pathAndQuery text))⟩

/-- A scheme is what stands before the first colon, if that begins the mark of a scheme. -/
theorem scheme?_eq_some_iff {text scheme rest : List Char} :
    scheme? text = some (scheme, rest) ↔
      ':' ∉ scheme ∧ text = scheme ++ ':' :: '/' :: '/' :: rest := by
  constructor
  · intro h
    unfold scheme? at h
    split at h
    · next rest' hdrop =>
      obtain ⟨htake, rfl⟩ := Prod.mk.inj (Option.some.inj h)
      obtain ⟨hends, htext, -⟩ := cut_ne_iff.mp ⟨htake, hdrop⟩
      exact ⟨hends, htext⟩
    · cases h
  · rintro ⟨hends, rfl⟩
    have hrest : NotAhead (· ≠ ':') (':' :: '/' :: '/' :: rest) := by simp
    obtain ⟨htake, hdrop⟩ := cut_ne_iff.mpr ⟨hends, rfl, hrest⟩
    rw [scheme?, htake, hdrop]
    rfl

/-- An authority is what stands before the first slash or question mark. -/
theorem authority_eq_iff {text authority rest : List Char} :
    (text.takeWhile inAuthority = authority ∧ text.dropWhile inAuthority = rest) ↔
      ('/' ∉ authority ∧ '?' ∉ authority) ∧ text = authority ++ rest ∧
        NotAhead (fun c => c ≠ '/' ∧ c ≠ '?') rest := by
  have hrun : (∀ c ∈ authority, c ≠ '/' ∧ c ≠ '?') ↔ '/' ∉ authority ∧ '?' ∉ authority :=
    ⟨fun h => ⟨fun hmem => (h _ hmem).1 rfl, fun hmem => (h _ hmem).2 rfl⟩,
      fun h c hc => ⟨fun heq => h.1 (heq ▸ hc), fun heq => h.2 (heq ▸ hc)⟩⟩
  simp only [cut_eq_iff, inAuthority, Bool.and_eq_true, decide_eq_true_eq]
  rw [hrun]

/-- The path behind an authority begins with a slash, if with anything: a question mark would begin
the query. -/
theorem head?_of_notAhead {path back : List Char} (hends : '?' ∉ path)
    (h : NotAhead (fun c => c ≠ '/' ∧ c ≠ '?') (path ++ back)) :
    path.head? = some '/' ∨ path = [] := by
  cases path with
  | nil => exact .inr rfl
  | cons c path =>
    have hquestion : c ≠ '?' := fun heq => hends (heq ▸ List.mem_cons_self)
    by_cases hslash : c = '/'
    · exact .inl (congrArg some hslash)
    · exact absurd ⟨hslash, hquestion⟩ (h c rfl)

/-- What may follow an authority. -/
theorem notAhead_path {path : List Char} (hpath : path.head? = some '/' ∨ path = [])
    (query : Option String) :
    NotAhead (fun c => c ≠ '/' ∧ c ≠ '?') (path ++ (queryText query).toList) := by
  rcases hpath with hslash | rfl
  · cases path with
    | nil => cases hslash
    | cons c path =>
      obtain rfl : c = '/' := by simpa using hslash
      simp
  · cases query <;> simp [queryText]

/-- A path with a query is read as such if no scheme stands before it. -/
theorem ofChars_path {path : List Char} (hslash : path.head? = some '/') (hends : '?' ∉ path)
    (query : Option String) :
    ofChars (path ++ (queryText query).toList) = .origin (String.ofList path) query := by
  have hread : pathAndQuery (path ++ (queryText query).toList) = (path, query) :=
    pathAndQuery_eq_iff.mpr ⟨hends, rfl⟩
  cases path with
  | nil => cases hslash
  | cons c path =>
    obtain rfl : c = '/' := by simpa using hslash
    rw [List.cons_append] at hread ⊢
    rw [ofChars, hread]

/-- A text with the mark of a scheme behind its first colon is read as one with a scheme. -/
theorem ofChars_scheme {scheme rest : List Char} (hbegins : scheme.head? ≠ some '/')
    (hends : ':' ∉ scheme) :
    ofChars (scheme ++ ':' :: '/' :: '/' :: rest) = ofScheme scheme rest := by
  have hread : scheme? (scheme ++ ':' :: '/' :: '/' :: rest) = some (scheme, rest) :=
    scheme?_eq_some_iff.mpr ⟨hends, rfl⟩
  unfold ofChars
  -- An asterisk alone is too short, and no slash stands in front of a scheme.
  split
  · next heq =>
    have hlength := congrArg List.length heq
    simp only [List.length_append, List.length_cons, List.length_nil] at hlength
    omega
  · next heq =>
    cases scheme with
    | nil => cases heq
    | cons c scheme =>
      obtain ⟨rfl, -⟩ := List.cons.inj heq
      exact absurd rfl hbegins
  · rw [hread]

/-- Behind a scheme stand an authority, a path that may be left out, and a query. -/
theorem ofScheme_append {scheme authority path : List Char}
    (hauthority : '/' ∉ authority ∧ '?' ∉ authority)
    (hpath : path.head? = some '/' ∨ path = []) (hends : '?' ∉ path) (query : Option String) :
    ofScheme scheme (authority ++ (path ++ (queryText query).toList)) =
      .absolute (canonicalScheme (String.ofList scheme)) (String.ofList authority)
        (if path.isEmpty then "/" else String.ofList path) query := by
  obtain ⟨htake, hdrop⟩ := authority_eq_iff.mpr ⟨hauthority, rfl, notAhead_path hpath query⟩
  have hread : pathAndQuery (path ++ (queryText query).toList) = (path, query) :=
    pathAndQuery_eq_iff.mpr ⟨hends, rfl⟩
  rw [ofScheme, htake, hdrop, hread]

/-- No fragment begins before the path. -/
theorem Parts.hash_notMem_front (p : Parts) : '#' ∉ p.front.toList := by
  unfold front
  cases p.base with
  | none => simp
  | some b =>
    obtain ⟨-, hscheme⟩ := b.scheme_ends
    obtain ⟨-, -, hauthority⟩ := b.authority_ends
    simp [Base.text, hscheme, hauthority]

/-- No fragment begins in a query. -/
theorem Parts.hash_notMem_queryText (p : Parts) : '#' ∉ (queryText p.query).toList := by
  have hquery := p.query_ends
  cases hvalue : p.query with
  | none => simp [queryText]
  | some query =>
    have hends : '#' ∉ query.toList := hquery query hvalue
    simp [queryText, hends]

/-- The fragment is cut off the text of parts. -/
theorem Parts.withoutFragment_text (p : Parts) :
    withoutFragment p.text.toList =
      p.front.toList ++ (p.path.toList ++ (queryText p.query).toList) := by
  have hfront := p.hash_notMem_front
  have hpath := p.path_ends.2
  have hquery := p.hash_notMem_queryText
  refine withoutFragment_eq_iff.mpr ⟨?_, p.fragment, ?_⟩
  · simp only [List.mem_append, hfront, hpath, hquery, or_self, not_false_eq_true]
  · simp only [text, String.toList_append, List.append_assoc]

/-- The text of parts is read as the target that is written from them. -/
theorem ofString_text (p : Parts) : ofString p.text = p.uri := by
  have hpath : p.path.toList.head? = some '/' ∨ p.path.toList = [] := by
    rcases p.path_begins with hslash | ⟨hempty, -⟩
    · exact .inl hslash
    · exact .inr (by rw [hempty]; rfl)
  rw [ofString, p.withoutFragment_text, Parts.uri, Parts.front]
  cases hbase : p.base with
  | none =>
    have hslash := p.head?_resource
    rw [Parts.resource_of_base_eq_none hbase] at hslash ⊢
    exact (ofChars_path hslash p.path_ends.1 p.query).trans (by rw [String.ofList_toList])
  | some b =>
    have htext : b.text.toList =
        b.scheme.toList ++ ':' :: '/' :: '/' :: b.authority.toList := by
      simp [Base.text]
    have hauthority := b.authority_ends
    have hresource : (if p.path.toList.isEmpty then "/" else String.ofList p.path.toList) =
        p.resource := by
      simp [Parts.resource]
    simp only [Option.map_some, Option.getD_some, htext, List.append_assoc, List.cons_append]
    rw [ofChars_scheme b.scheme_begins b.scheme_ends.1,
      ofScheme_append ⟨hauthority.1, hauthority.2.1⟩ hpath p.path_ends.1, hresource,
      String.ofList_toList, String.ofList_toList]

/-- A path and a query behind a base are parts if each of them ends where the next one begins. -/
theorem Parts.exists_text_eq (base : Option Base) {path : List Char} {query : Option String}
    (hbegins : path.head? = some '/' ∨ path = [] ∧ base.isSome) (hends : '?' ∉ path)
    (hhash : '#' ∉ path ++ (queryText query).toList) (fragment : Option String) :
    ∃ p : Parts, p.text =
      (base.map Base.text).getD "" ++ String.ofList path ++ queryText query ++
        fragmentText fragment := by
  have hbegins' : (String.ofList path).toList.head? = some '/' ∨
      String.ofList path = "" ∧ base.isSome := by
    rw [String.toList_ofList]
    rcases hbegins with hslash | ⟨rfl, hbase⟩
    · exact .inl hslash
    · exact .inr ⟨rfl, hbase⟩
  rw [List.mem_append, not_or] at hhash
  have hpath : '?' ∉ (String.ofList path).toList ∧ '#' ∉ (String.ofList path).toList := by
    rw [String.toList_ofList]
    exact ⟨hends, hhash.1⟩
  have hquery : ∀ text ∈ query, '#' ∉ text.toList := by
    rintro text rfl hmem
    exact hhash.2 (by simp [queryText, hmem])
  exact ⟨⟨base, String.ofList path, query, fragment, hbegins', hpath, hquery⟩, rfl⟩

/-- A text that begins with a slash is written from parts without a base. -/
theorem exists_parts_of_slash {front rest : List Char} (hslash : front = '/' :: rest)
    (hhash : '#' ∉ front) (fragment : Option String) :
    ∃ p : Parts, p.text = String.ofList front ++ fragmentText fragment := by
  obtain ⟨path, query, hends, rfl⟩ := exists_pathAndQuery front
  have hbegins : path.head? = some '/' := by
    cases path with
    | nil => cases query <;> simp [queryText] at hslash
    | cons c path =>
      obtain ⟨rfl, -⟩ := List.cons.inj hslash
      rfl
  obtain ⟨p, hp⟩ := Parts.exists_text_eq none (.inl hbegins) hends hhash fragment
  exact ⟨p, by simp [hp]⟩

/-- A text with a scheme is written from parts with a base, unless it begins with a slash. -/
theorem exists_parts_of_scheme {front scheme rest : List Char}
    (hscheme : scheme? front = some (scheme, rest)) (hbegins : front.head? ≠ some '/')
    (hhash : '#' ∉ front) (fragment : Option String) :
    ∃ p : Parts, p.text = String.ofList front ++ fragmentText fragment := by
  obtain ⟨hcolon, rfl⟩ := scheme?_eq_some_iff.mp hscheme
  obtain ⟨hauthority, hrest, hahead⟩ := authority_eq_iff.mp
    ⟨Eq.refl (rest.takeWhile inAuthority), Eq.refl (rest.dropWhile inAuthority)⟩
  generalize rest.takeWhile inAuthority = authority at hauthority hrest
  obtain ⟨path, query, hends, hbehind⟩ := exists_pathAndQuery (rest.dropWhile inAuthority)
  rw [hbehind] at hrest hahead
  subst hrest
  have hpath := head?_of_notAhead hends hahead
  have hfirst : (String.ofList scheme).toList.head? ≠ some '/' := by
    rw [String.toList_ofList]
    cases scheme with
    | nil => simp
    | cons c scheme => exact hbegins
  simp only [List.mem_append, List.mem_cons, not_or] at hhash
  obtain ⟨hschemeHash, -, -, -, hauthorityHash, hpathHash, hqueryHash⟩ := hhash
  let base : Base :=
    { scheme := String.ofList scheme
      authority := String.ofList authority
      scheme_begins := hfirst
      scheme_ends := by rw [String.toList_ofList]; exact ⟨hcolon, hschemeHash⟩
      authority_ends := by
        rw [String.toList_ofList]
        exact ⟨hauthority.1, hauthority.2, hauthorityHash⟩ }
  have hbehindHash : '#' ∉ path ++ (queryText query).toList := by
    rw [List.mem_append, not_or]
    exact ⟨hpathHash, hqueryHash⟩
  obtain ⟨p, hp⟩ := Parts.exists_text_eq (some base)
    (hpath.imp_right fun hempty => ⟨hempty, rfl⟩) hends hbehindHash fragment
  refine ⟨p, hp.trans ?_⟩
  apply String.toList_injective
  simp [base, Base.text]

/-- A target whose path begins with a slash is written from parts. Every other target is shown as it
is written, without its fragment. -/
theorem exists_text_eq_or (target : String) :
    (∃ p : Parts, p.text = target) ∨
      ((ofString target).text = String.ofList (withoutFragment target.toList) ∧
        (ofString target).path.toList.head? ≠ some '/') := by
  obtain ⟨hhash, fragment, htarget⟩ :=
    withoutFragment_eq_iff.mp (Eq.refl (withoutFragment target.toList))
  rw [ofString]
  generalize withoutFragment target.toList = front at hhash htarget
  have hwhole : String.ofList front ++ fragmentText fragment = target := by
    apply String.toList_injective
    simp [htarget]
  rw [← hwhole]
  by_cases hslash : front.head? = some '/'
  · obtain ⟨rest, hfront⟩ := List.head?_eq_some_iff.mp hslash
    exact .inl (exists_parts_of_slash hfront hhash fragment)
  · unfold ofChars
    split
    · exact .inr ⟨rfl, by decide⟩
    · exact absurd rfl hslash
    · split
      · next scheme rest hscheme =>
        exact .inl (exists_parts_of_scheme hscheme hslash hhash fragment)
      · exact .inr ⟨rfl, by simp [path]⟩

/-- A target has a path that begins with a slash if and only if it is written from parts with that
path. -/
theorem path_eq_iff {target path : String} (hslash : path.toList.head? = some '/') :
    (ofString target).path = path ↔ ∃ p : Parts, p.text = target ∧ p.resource = path := by
  constructor
  · intro hpath
    rcases exists_text_eq_or target with ⟨p, rfl⟩ | ⟨-, hbegins⟩
    · rw [ofString_text, p.path_uri] at hpath
      exact ⟨p, rfl, hpath⟩
    · rw [hpath] at hbegins
      exact absurd hslash hbegins
  · rintro ⟨p, rfl, rfl⟩
    rw [ofString_text, p.path_uri]

-- Marks in a later part do not divide the earlier ones.
example : (ofString "HTTP://host:80/health?x?y/z#f?/#g").path = "/health" := by decide

/-- The path that is asked for stands in the text, unless it is the root. -/
theorem Parts.mem_text {p : Parts} (hroot : p.resource ≠ "/") {c : Char}
    (hc : c ∈ p.resource.toList) : c ∈ p.text.toList := by
  have hpath : p.resource = p.path := by
    have hnonempty : p.path ≠ "" := fun hempty => hroot (if_pos hempty)
    rw [resource, if_neg hnonempty]
  rw [hpath] at hc
  simp [text, hc]

/-- The parts of a path alone. -/
def Parts.ofResource (p : Parts) : Parts where
  base := none
  path := p.resource
  query := none
  fragment := none
  path_begins := .inl p.head?_resource
  path_ends := p.resource_ends
  query_ends := fun _ hquery => nomatch hquery

/-- A path alone is written as it is. -/
theorem Parts.text_ofResource (p : Parts) : p.ofResource.text = p.resource := by
  simp [text, front, ofResource, queryText, fragmentText]

/-- A path alone is asked for as it is. -/
theorem path_ofString_resource (p : Parts) : (ofString p.resource).path = p.resource := by
  have hresource : p.ofResource.resource = p.resource := Parts.resource_of_slash p.head?_resource
  have htext := ofString_text p.ofResource
  rw [p.text_ofResource] at htext
  rw [htext, Parts.path_uri, hresource]

/-- The schemes of the web are shown in lower case, and every other scheme as it is. -/
theorem canonicalScheme_cases (scheme : String) :
    canonicalScheme scheme = scheme ∨ canonicalScheme scheme = "http" ∨
      canonicalScheme scheme = "https" := by
  unfold canonicalScheme
  dsimp only
  split
  · next hweb => exact .inr hweb
  · exact .inl rfl

/-- A scheme in lower case is shown as it is. -/
theorem canonicalScheme_of_map_eq {scheme : String} (hlower : scheme.map Char.toLower = scheme) :
    canonicalScheme scheme = scheme := by
  unfold canonicalScheme
  dsimp only
  rw [hlower, ite_self]

/-- A scheme that is shown stays as it is. -/
@[simp] theorem canonicalScheme_idem (scheme : String) :
    canonicalScheme (canonicalScheme scheme) = canonicalScheme scheme := by
  rcases canonicalScheme_cases scheme with h | h | h
  · rw [h, h]
  · rw [h]
    exact canonicalScheme_of_map_eq (by simp [← String.toList_inj])
  · rw [h]
    exact canonicalScheme_of_map_eq (by simp [← String.toList_inj])

/-- What holds of a scheme and of the schemes of the web holds of the scheme as it is shown. -/
theorem canonicalScheme_induction {P : String → Prop} {scheme : String} (hscheme : P scheme)
    (hhttp : P "http") (hhttps : P "https") : P (canonicalScheme scheme) := by
  rcases canonicalScheme_cases scheme with h | h | h
  · rwa [h]
  · rwa [h]
  · rwa [h]

/-- A base as it is shown. -/
def Base.canonical (b : Base) : Base where
  scheme := canonicalScheme b.scheme
  authority := b.authority
  scheme_begins :=
    canonicalScheme_induction (P := fun scheme => scheme.toList.head? ≠ some '/')
      b.scheme_begins (by decide) (by decide)
  scheme_ends :=
    canonicalScheme_induction (P := fun scheme => ':' ∉ scheme.toList ∧ '#' ∉ scheme.toList)
      b.scheme_ends (by decide) (by decide)
  authority_ends := b.authority_ends

namespace Parts

/-- The parts that are shown: the scheme is canonical, the path is not left out, and there is no
fragment. -/
def shown (p : Parts) : Parts where
  base := p.base.map Base.canonical
  path := p.resource
  query := p.query
  fragment := none
  path_begins := .inl p.head?_resource
  path_ends := p.resource_ends
  query_ends := p.query_ends

/-- A target is shown as the text of the parts that are shown. -/
theorem text_uri (p : Parts) : p.uri.text = p.shown.text := by
  cases hbase : p.base <;>
    simp [uri, Uri.text, text, front, shown, hbase, Base.text, Base.canonical, fragmentText,
      String.append_assoc]

/-- The path that is shown is asked for again. -/
@[simp] theorem resource_shown (p : Parts) : p.shown.resource = p.resource :=
  resource_of_slash p.head?_resource

/-- The parts that are shown are those of the same target. -/
@[simp] theorem uri_shown (p : Parts) : p.shown.uri = p.uri := by
  have hbase : p.shown.base = p.base.map Base.canonical := rfl
  have hquery : p.shown.query = p.query := rfl
  rw [uri, uri, hbase, hquery, resource_shown]
  cases p.base with
  | none => rfl
  | some b => simp [Base.canonical]

/-- No fragment is shown. -/
theorem hash_notMem_shown (p : Parts) : '#' ∉ p.shown.text.toList := by
  have htext : p.shown.text.toList =
      p.shown.front.toList ++ (p.shown.path.toList ++ (queryText p.shown.query).toList) := by
    have hfragment : p.shown.fragment = none := rfl
    simp [text, hfragment, fragmentText]
  rw [htext, ← p.shown.withoutFragment_text]
  exact (withoutFragment_eq_iff.mp rfl).1

end Parts

/-- No target is shown with a fragment. -/
theorem hash_notMem_text (target : String) : '#' ∉ (ofString target).text.toList := by
  rcases exists_text_eq_or target with ⟨p, rfl⟩ | ⟨htext, -⟩
  · rw [ofString_text, p.text_uri]
    exact p.hash_notMem_shown
  · rw [htext, String.toList_ofList]
    exact (withoutFragment_eq_iff.mp rfl).1

/-- The text that is shown for a target is read as the same target. -/
@[simp] theorem ofString_text_ofString (target : String) :
    ofString (ofString target).text = ofString target := by
  rcases exists_text_eq_or target with ⟨p, rfl⟩ | ⟨htext, -⟩
  · rw [ofString_text, p.text_uri, ofString_text, p.uri_shown]
  · have hfront := (withoutFragment_eq_iff.mp (Eq.refl (withoutFragment target.toList))).1
    have hagain : withoutFragment (withoutFragment target.toList) = withoutFragment target.toList :=
      withoutFragment_eq_iff.mpr ⟨hfront, none, by simp [fragmentText]⟩
    rw [htext, ofString, String.toList_ofList, hagain, ofString]

end LoginService.Http.Uri
