import LoginService.Json.Token
import LoginService.Json.Value

/-!
# Writing JSON

A value is written as its tokens, one after another, with nothing between them.
-/

namespace LoginService.Json

namespace Value

mutual

/-- The tokens of a value. -/
def tokens : Value → List Token
  | .null => [.null]
  | .bool b => [.bool b]
  | .number n => [.number n]
  | .string s => [.string s]
  | .array items => .openBracket :: (itemTokens items ++ [.closeBracket])
  | .object members => .openBrace :: (memberTokens members ++ [.closeBrace])

/-- The tokens of the items of an array, with commas between them. -/
def itemTokens : List Value → List Token
  | [] => []
  | [v] => v.tokens
  | v :: items => v.tokens ++ .comma :: itemTokens items

/-- The tokens of the members of an object, with commas between them. -/
def memberTokens : List (String × Value) → List Token
  | [] => []
  | [(name, v)] => .string name :: .colon :: v.tokens
  | (name, v) :: members => .string name :: .colon :: (v.tokens ++ .comma :: memberTokens members)

end

/-- The text of a value, without blanks. -/
def text (v : Value) : String :=
  String.ofList (v.tokens.flatMap Token.text)

end Value

end LoginService.Json
