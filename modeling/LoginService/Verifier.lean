import LoginService.Log

/-!
# Verifying request identifiers

A verifier decides whether a request identifier is still valid.
-/

namespace LoginService

/-- The identifier that the sentinel verifier accepts. -/
def validIdentifier : String := "valid_request_id"

/-- Decides whether a request identifier is still valid. -/
inductive Verifier where
  /-- Accepts one fixed identifier and reports every other. -/
  | sentinel
  /-- Accepts the identifiers that a predicate holds of, and reports nothing. -/
  | custom (accepts : String → Bool)

/-- Why a verifier refuses an identifier. -/
inductive VerifyError where
  /-- The identifier is not valid, or no longer. -/
  | expired
deriving DecidableEq

namespace VerifyError

/-- The wording of a refusal. -/
def message : VerifyError → String
  | expired => "request identifier is expired"

/-- The error that a refusal is answered with. -/
def toApiError : VerifyError → ApiError
  | expired => .requestExpired

end VerifyError

namespace Verifier

/-- Whether a verifier accepts an identifier. -/
def accepts : Verifier → String → Bool
  | sentinel, identifier => identifier = validIdentifier
  | custom accepts, identifier => accepts identifier

/-- What a verifier answers about an identifier. -/
def verify (v : Verifier) (identifier : String) : Except VerifyError Unit :=
  if v.accepts identifier then .ok () else .error .expired

/-- What a verifier reports when it refuses an identifier. -/
def refusalLog : Verifier → String → List Event
  | sentinel, identifier => [.rejectedIdentifier identifier]
  | custom _, _ => []

end Verifier

end LoginService
