import LoginService.Json.Reader
import LoginService.Utf8

/-!
# Embedded texts

An object whose first member has a reserved name embeds a JSON text: that member must be its only
one and hold a string, and the object stands for the value that the string writes. An embedded text
is a text of its own. It may have blanks around its value, its containers are counted afresh, and it
may embed further texts. After another member the reserved name has no meaning.
-/

namespace LoginService.Json

/-- The reserved name of a member that embeds a text. -/
def embeddedName : String := "$serde_json::private::RawValue"

/-- Whether an object with the given members embeds a text. -/
def embeds : List (String × Value) → Bool
  | [] => false
  | (name, _) :: _ => name = embeddedName

/-- The text that the only member of an object embeds. -/
def embeddedText? : List (String × Value) → Option String
  | [(_, .string s)] => some s
  | _ => none

namespace Value

mutual

/-- The value in which every object that embeds a text is replaced by what `read` makes of that
text. -/
def expand? (read : String → Option Value) : Value → Option Value
  | .array items => (expandItems? read [] items).map .array
  | .object members =>
    if embeds members then (embeddedText? members).bind read
    else (expandMembers? read [] members).map .object
  | v => some v

/-- The items of an array, expanded, after those in `done`, last first. -/
def expandItems? (read : String → Option Value) (done : List Value) :
    List Value → Option (List Value)
  | [] => some done.reverse
  | v :: items =>
    match expand? read v with
    | none => none
    | some v => expandItems? read (v :: done) items

/-- The members of an object, expanded, after those in `done`, last first. -/
def expandMembers? (read : String → Option Value) (done : List (String × Value)) :
    List (String × Value) → Option (List (String × Value))
  | [] => some done.reverse
  | (name, v) :: members =>
    match expand? read v with
    | none => none
    | some v => expandMembers? read ((name, v) :: done) members

end

/-- The value that a text writes, with the texts that it embeds. An embedded text is always shorter
than the text around it. -/
def ofDocument? (text : List Char) : Option Value :=
  let bound := text.length
  (ofText? text).bind <| expand? fun s =>
    if s.toList.length < bound then ofDocument? s.toList else none
termination_by text.length

/-- The value that a byte sequence writes, which must be UTF-8 throughout. -/
def ofBytes? (bytes : Bytes) : Option Value :=
  (Utf8.decode? bytes).bind fun text => ofDocument? text.toList

end Value

end LoginService.Json
