import LoginService.Json.Number

/-!
# JSON values

The tree of a JSON text. An object keeps all its members in the order in which they were written;
asking for a member gives the last one of that name.
-/

namespace LoginService.Json

/-- A JSON value. -/
inductive Value where
  | null
  | bool (b : Bool)
  | number (n : Number)
  | string (s : String)
  | array (items : List Value)
  | object (members : List (String × Value))

/-- The value of the last member with the given name. -/
def lastMember? (name : String) (members : List (String × Value)) : Option Value :=
  members.reverse.lookup name

end LoginService.Json
