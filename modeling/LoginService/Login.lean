import LoginService.Json.Embedded
import LoginService.Log

/-!
# Login requests

A login request is a JSON object, and its last member `requestId` gives the request identifier:
a string by its contents, a number or a truth value by its text, and nothing or null as the empty
identifier.
-/

namespace LoginService.Login

open Json

/-- What can be wrong with the body of a login request. -/
inductive Fault where
  /-- The body is not JSON. -/
  | unreadable
  /-- The body is JSON, but not a login request. -/
  | wrongShape
deriving DecidableEq

namespace Fault

/-- The error that a fault is answered with. -/
def toApiError : Fault → ApiError
  | unreadable | wrongShape => .malformedRequest

/-- What is reported about a fault. -/
def log : Fault → List Event
  | unreadable => [.unreadableBody]
  | wrongShape => []

end Fault

/-- The greatest number of bytes that a body may have. -/
def bodyLimit : Nat := 2097152

/-- The member that carries the request identifier. -/
def identifierName : String := "requestId"

/-- The identifier that a member gives; a container gives none. -/
def identifierOf? : Value → Option String
  | .null => some ""
  | .bool b => some (if b then "true" else "false")
  | .number n => some n.text
  | .string s => some s
  | .array _ | .object _ => none

/-- The identifier in the members of a login request. -/
def identifierIn? (members : List (String × Value)) : Option String :=
  match lastMember? identifierName members with
  | none => some ""
  | some v => identifierOf? v

/-- The request identifier that a value carries. -/
def ofValue : Value → Except Fault String
  | .object members =>
    match identifierIn? members with
    | some identifier => .ok identifier
    | none => .error .wrongShape
  | _ => .error .wrongShape

/-- The request identifier that the body of a login request carries. -/
def identifier (body : Bytes) : Except Fault String :=
  match Value.ofBytes? body with
  | none => .error .unreadable
  | some v => ofValue v

end LoginService.Login
