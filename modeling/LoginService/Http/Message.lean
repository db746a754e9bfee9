import LoginService.Json.Writer
import LoginService.Utf8

/-!
# Requests and responses

The messages of the site. Only the header fields that the site sets have a name here.
-/

namespace LoginService.Http

/-- The statuses that the site answers with. -/
inductive Status where
  | ok
  | noContent
  | badRequest
  | notFound
  | methodNotAllowed
  | contentTooLarge
  | internalServerError
deriving DecidableEq

namespace Status

/-- The number of a status. -/
def code : Status → Nat
  | ok => 200
  | noContent => 204
  | badRequest => 400
  | notFound => 404
  | methodNotAllowed => 405
  | contentTooLarge => 413
  | internalServerError => 500

/-- The name of a status. -/
def reason : Status → String
  | ok => "OK"
  | noContent => "No Content"
  | badRequest => "Bad Request"
  | notFound => "Not Found"
  | methodNotAllowed => "Method Not Allowed"
  | contentTooLarge => "Payload Too Large"
  | internalServerError => "Internal Server Error"

end Status

/-- The header fields that the site sets. -/
inductive HeaderName where
  | allowCredentials
  | allowHeaders
  | allowMethods
  | allowOrigin
  | maxAge
  | allow
  | cacheControl
  | contentLength
  | contentType
deriving DecidableEq

namespace HeaderName

/-- A header field as it is written. -/
def text : HeaderName → String
  | allowCredentials => "access-control-allow-credentials"
  | allowHeaders => "access-control-allow-headers"
  | allowMethods => "access-control-allow-methods"
  | allowOrigin => "access-control-allow-origin"
  | maxAge => "access-control-max-age"
  | allow => "allow"
  | cacheControl => "cache-control"
  | contentLength => "content-length"
  | contentType => "content-type"

/-- All header fields, sorted by their text. -/
def all : List HeaderName :=
  [allowCredentials, allowHeaders, allowMethods, allowOrigin, maxAge, allow, cacheControl,
    contentLength, contentType]

end HeaderName

/-- The header fields of a response. A field may be sent several times, each time with a value. -/
structure Headers where
  /-- The values of a header field, in the order in which they are sent. -/
  values : HeaderName → List String

namespace Headers

/-- No header fields. -/
def empty : Headers := ⟨fun _ => []⟩

/-- Sets a header field. The new value takes the place of all values that the field had. -/
def insert (headers : Headers) (name : HeaderName) (value : String) : Headers :=
  ⟨fun other => if other = name then [value] else headers.values other⟩

/-- The first value of a header field, if it is set. -/
def value? (headers : Headers) (name : HeaderName) : Option String :=
  (headers.values name).head?

/-- The fields as they are sent, sorted by name. -/
def toList (headers : Headers) : List (String × String) :=
  HeaderName.all.flatMap fun name => (headers.values name).map fun value => (name.text, value)

/-- Nothing is set at first. -/
@[simp] theorem values_empty (name : HeaderName) : empty.values name = [] := rfl

/-- Setting a field changes that field only. -/
@[simp] theorem values_insert (headers : Headers) (name other : HeaderName) (value : String) :
    (headers.insert name value).values other =
      if other = name then [value] else headers.values other := rfl

end Headers

/-- A request as the site receives it. -/
structure Request where
  /-- The method token; methods are told apart by case. -/
  method : String
  /-- The request target as it was sent. -/
  target : String
  /-- The body. -/
  body : Bytes

/-- A response of the site. -/
structure Response where
  /-- The status. -/
  status : Status
  /-- The header fields. -/
  headers : Headers
  /-- The body. -/
  body : String

namespace Response

/-- A response without a body. -/
def empty (status : Status) : Response :=
  ⟨status, .empty, ""⟩

/-- A response whose body is plain text. -/
def text (status : Status) (body : String) : Response :=
  ⟨status, Headers.empty.insert .contentType "text/plain; charset=utf-8", body⟩

/-- A response whose body is a JSON value. -/
def json (status : Status) (value : Json.Value) : Response :=
  ⟨status, Headers.empty.insert .contentType "application/json", value.text⟩

/-- The response with a header field set. -/
def withHeader (r : Response) (name : HeaderName) (value : String) : Response :=
  { r with headers := r.headers.insert name value }

/-- A response without a body has its status. -/
@[simp] theorem status_empty (status : Status) : (empty status).status = status := rfl

/-- Plain text has its status. -/
@[simp] theorem status_text (status : Status) (body : String) :
    (text status body).status = status := rfl

/-- A JSON value has its status. -/
@[simp] theorem status_json (status : Status) (value : Json.Value) :
    (json status value).status = status := rfl

/-- Setting a field does not change the status. -/
@[simp] theorem status_withHeader (r : Response) (name : HeaderName) (value : String) :
    (r.withHeader name value).status = r.status := rfl

/-- A response without a body sets no field. -/
@[simp] theorem values_empty (status : Status) (name : HeaderName) :
    (empty status).headers.values name = [] := rfl

/-- Plain text comes with its type. -/
@[simp] theorem values_text (status : Status) (body : String) (name : HeaderName) :
    (text status body).headers.values name =
      if name = .contentType then ["text/plain; charset=utf-8"] else [] := rfl

/-- A JSON value comes with its type. -/
@[simp] theorem values_json (status : Status) (value : Json.Value) (name : HeaderName) :
    (json status value).headers.values name =
      if name = .contentType then ["application/json"] else [] := rfl

/-- A field that is set has its new value only, and the others stay as they are. -/
@[simp] theorem values_withHeader (r : Response) (name other : HeaderName) (value : String) :
    (r.withHeader name value).headers.values other =
      if other = name then [value] else r.headers.values other := rfl

end Response

end LoginService.Http
