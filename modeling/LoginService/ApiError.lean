import LoginService.Http.Message

/-!
# Errors of the service

The reasons for which a request is answered with an error document.
-/

namespace LoginService

open Http

/-- Why a request is answered with an error. -/
inductive ApiError where
  /-- The request identifier is not valid, or no longer. -/
  | requestExpired
  /-- The body is not a login request. -/
  | malformedRequest
  /-- The settings of the identity provider are missing. -/
  | configurationMissing
deriving DecidableEq

namespace ApiError

/-- The status of the answer. -/
def status : ApiError → Status
  | requestExpired | malformedRequest => .badRequest
  | configurationMissing => .internalServerError

/-- The wording of an error. -/
def message : ApiError → String
  | requestExpired => "request_id is expired"
  | malformedRequest => "malformed login request"
  | configurationMissing => "Firebase configuration is not set"

/-- The error document: the status and the wording. -/
def toValue (e : ApiError) : Json.Value :=
  .object [("statusCode", .number (.integer e.status.code)), ("statusMessage", .string e.message)]

/-- The answer to a request that fails. -/
def response (e : ApiError) : Response :=
  .json e.status e.toValue

end ApiError

end LoginService
