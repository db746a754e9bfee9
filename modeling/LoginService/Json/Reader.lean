import LoginService.Json.Token
import LoginService.Json.Value

/-!
# Reading JSON

The tokens of a text are taken one by one. What has been read of the containers that are still open
is kept on a stack, and the stack never holds more than 127 of them. A text is readable if after its
last token one value is complete and nothing is open.
-/

namespace LoginService.Json

/-- The greatest number of containers that may be open at once. -/
def greatestDepth : Nat := 127

/-- An open container in which a value is due, with what stands before that value, last first. -/
inductive Frame where
  /-- An array with its items so far. -/
  | array (before : List Value)
  /-- An object with its members so far, and the name of the member that is due. -/
  | object (before : List (String × Value)) (name : String)

/-- How far a text has been read, and what may come next. -/
inductive State where
  /-- A value must come. -/
  | value (stack : List Frame)
  /-- An array has been opened: a value or its end must come. -/
  | firstItem (stack : List Frame)
  /-- An object has been opened: a name or its end must come. -/
  | firstName (stack : List Frame)
  /-- A comma stands after the members `before`: a name must come. -/
  | nextName (stack : List Frame) (before : List (String × Value))
  /-- The colon after a name must come. -/
  | colon (stack : List Frame) (before : List (String × Value)) (name : String)
  /-- A value has ended: a comma or the end of its container must come, or nothing. -/
  | complete (stack : List Frame) (v : Value)

namespace State

/-- Takes a token where a value is due. -/
def enter (stack : List Frame) : Token → Option State
  | .null => some (.complete stack .null)
  | .bool b => some (.complete stack (.bool b))
  | .number n => some (.complete stack (.number n))
  | .string s => some (.complete stack (.string s))
  | .openBracket => if stack.length < greatestDepth then some (.firstItem stack) else none
  | .openBrace => if stack.length < greatestDepth then some (.firstName stack) else none
  | _ => none

/-- Takes a token after a value that ended inside a container. -/
def proceed (stack : List Frame) (v : Value) : Frame → Token → Option State
  | .array before, .comma => some (.value (.array (v :: before) :: stack))
  | .array before, .closeBracket => some (.complete stack (.array (v :: before).reverse))
  | .object before name, .comma => some (.nextName stack ((name, v) :: before))
  | .object before name, .closeBrace =>
    some (.complete stack (.object ((name, v) :: before).reverse))
  | _, _ => none

/-- Takes the next token. -/
def step : State → Token → Option State
  | .value stack, t => enter stack t
  | .firstItem stack, .closeBracket => some (.complete stack (.array []))
  | .firstItem stack, t => enter (.array [] :: stack) t
  | .firstName stack, .closeBrace => some (.complete stack (.object []))
  | .firstName stack, .string s => some (.colon stack [] s)
  | .nextName stack before, .string s => some (.colon stack before s)
  | .colon stack before name, .colon => some (.value (.object before name :: stack))
  | .complete (frame :: stack) v, t => proceed stack v frame t
  | _, _ => none

end State

/-- The value that a sequence of tokens writes. -/
def Value.ofTokens? (tokens : List Token) : Option Value :=
  match tokens.foldlM State.step (.value []) with
  | some (.complete [] v) => some v
  | _ => none

/-- The value that a text writes. -/
def Value.ofText? (text : List Char) : Option Value :=
  (Token.ofText? text).bind ofTokens?

end LoginService.Json
