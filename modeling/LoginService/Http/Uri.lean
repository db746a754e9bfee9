/-!
# Request targets

A request target is an asterisk, a path with an optional query, a URI with a scheme, or an
authority alone. A fragment is dropped, and a URI with a scheme but without a path has the path `/`.

Which texts are valid is left out: every text is read as the target that it would spell. The texts
that can be sent are made of the characters that a URI allows, and have at most 65534 bytes.
-/

namespace LoginService.Http

/-- A request target. -/
inductive Uri where
  /-- The asterisk. -/
  | asterisk
  /-- A path that begins with a slash, and a query. -/
  | origin (path : String) (query : Option String)
  /-- A scheme and an authority, a path that is not empty, and a query. -/
  | absolute (scheme authority path : String) (query : Option String)
  /-- An authority alone. -/
  | bare (authority : String)

namespace Uri

/-- The text before a fragment. -/
def withoutFragment (text : List Char) : List Char :=
  text.takeWhile (· ≠ '#')

/-- The path and the query of a text without a fragment. The first question mark divides them. -/
def pathAndQuery (text : List Char) : List Char × Option String :=
  (text.takeWhile (· ≠ '?'),
    match text.dropWhile (· ≠ '?') with
    | [] => none
    | _ :: query => some (String.ofList query))

/-- The scheme of a text and what follows `://`, if the first colon begins that mark. -/
def scheme? (text : List Char) : Option (List Char × List Char) :=
  match text.dropWhile (· ≠ ':') with
  | ':' :: '/' :: '/' :: rest => some (text.takeWhile (· ≠ ':'), rest)
  | _ => none

/-- A scheme as it is shown: the schemes of the web do not depend on case and are shown in lower
case. -/
def canonicalScheme (scheme : String) : String :=
  let lower := scheme.map Char.toLower
  if lower = "http" ∨ lower = "https" then lower else scheme

/-- Whether a character belongs to the authority that it follows. -/
def inAuthority (c : Char) : Bool :=
  c ≠ '/' && c ≠ '?'

/-- The target with the given scheme and what follows `://`. -/
def ofScheme (scheme rest : List Char) : Uri :=
  let (path, query) := pathAndQuery (rest.dropWhile inAuthority)
  .absolute (canonicalScheme (String.ofList scheme)) (String.ofList (rest.takeWhile inAuthority))
    (if path.isEmpty then "/" else String.ofList path) query

/-- The target that a text without a fragment spells. -/
def ofChars : List Char → Uri
  | ['*'] => .asterisk
  | '/' :: rest =>
    let (path, query) := pathAndQuery ('/' :: rest)
    .origin (String.ofList path) query
  | text =>
    match scheme? text with
    | some (scheme, rest) => ofScheme scheme rest
    | none => .bare (String.ofList text)

/-- The target that a text spells. -/
def ofString (text : String) : Uri :=
  ofChars (withoutFragment text.toList)

/-- The path by which a resource is chosen. An authority alone has none. -/
def path : Uri → String
  | asterisk => "*"
  | origin path _ => path
  | absolute _ _ path _ => path
  | bare _ => ""

/-- A query as it is shown, behind a question mark. -/
def queryText : Option String → String
  | none => ""
  | some query => "?" ++ query

/-- The text of a target. It can be one byte longer than the text that spelled the target, by the
slash of a URI without a path, so it is not always short enough to be sent itself. -/
def text : Uri → String
  | asterisk => "*"
  | origin path query => path ++ queryText query
  | absolute scheme authority path query => scheme ++ "://" ++ authority ++ path ++ queryText query
  | bare authority => authority

end Uri

end LoginService.Http
