import LoginService.Http.Route
import LoginService.Http.Uri
import LoginService.Login
import LoginService.Verifier

/-!
# The site

How the site answers a request. A preflight request is answered at once; every other request is
answered by the resource that its path names, if the resource serves its method. The fields for
cross-origin use, the length of the body and the methods of the resource are added around that.
-/

namespace LoginService

open Http

/-- What the site works with. -/
structure Site where
  /-- The settings of the service. -/
  settings : Settings
  /-- The verifier of request identifiers. -/
  verifier : Verifier

/-- What answering a request comes to. -/
@[ext]
structure Answer where
  /-- The response. -/
  response : Response
  /-- The identifiers that the verifier was asked about, in order. -/
  asked : List String
  /-- What was reported, in order. -/
  log : List Event

namespace Answer

/-- An answer of which nothing is reported. -/
def silent (response : Response) : Answer :=
  ⟨response, [], []⟩

/-- An answer with an error, which is reported. -/
def error (e : ApiError) : Answer :=
  ⟨e.response, [], [.failed e]⟩

/-- The answer after something else has been reported. -/
def after (log : List Event) (a : Answer) : Answer :=
  { a with log := log ++ a.log }

/-- The answer after the verifier was asked about an identifier. -/
def asking (identifier : String) (a : Answer) : Answer :=
  { a with asked := identifier :: a.asked }

/-- The identifier that the verifier was asked about first, if it was asked. -/
def verified (a : Answer) : Option String :=
  a.asked.head?

/-- The answer with its response changed. -/
def mapResponse (f : Response → Response) (a : Answer) : Answer :=
  { a with response := f a.response }

end Answer

namespace Site

/-- The document that tells where an accepted login leads. -/
def redirect (s : Site) : Json.Value :=
  .object [("url", .string s.settings.redirectUrl)]

/-- The answer to a login with an identifier: the verifier is asked about it. -/
def answerIdentifier (s : Site) (identifier : String) : Answer :=
  Answer.asking identifier <|
    match s.verifier.verify identifier with
    | .ok () => .silent (.json .ok s.redirect)
    | .error e => (Answer.error e.toApiError).after (s.verifier.refusalLog identifier)

/-- The answer to a login whose body is not too long. -/
def answerBody (s : Site) (body : Bytes) : Answer :=
  Answer.after [.loginRequest (Utf8.decodeLossy body)] <|
    match Login.identifier body with
    | .ok identifier => s.answerIdentifier identifier
    | .error fault => (Answer.error fault.toApiError).after fault.log

/-- The answer to a login. A body that is too long is refused unread. -/
def answerLogin (s : Site) (body : Bytes) : Answer :=
  if Login.bodyLimit < body.length then
    .silent (.text .contentTooLarge "Failed to buffer the request body: length limit exceeded")
  else
    s.answerBody body

/-- The answer to a request for the public configuration, which must not be stored. -/
def answerConfig (s : Site) : Answer :=
  match s.settings.publicConfig? with
  | some config =>
    .silent ((Response.json .ok config.toValue).withHeader .cacheControl
      "no-cache, no-store, max-age=0, must-revalidate")
  | none => (Answer.error .configurationMissing).after [.configurationMissing]

/-- The answer of a resource to a method that it serves. -/
def answerRoute (s : Site) (body : Bytes) : Route → Answer
  | .config => s.answerConfig
  | .login => s.answerLogin body
  | .health => .silent (.text .ok "OK")

/-- The answer to a request for a resource, if there is one. -/
def dispatch (s : Site) (route : Option Route) (request : Request) : Answer :=
  match route with
  | none => .silent (.empty .notFound)
  | some route =>
    if route.serves request.method then s.answerRoute request.body route
    else .silent (.empty .methodNotAllowed)

/-- The answer to a preflight request. -/
def preflight (uri : Uri) : Answer :=
  (Answer.silent ((Response.empty .noContent).withHeader .maxAge "86400")).after
    [.preflight uri.text]

/-- Adds the fields that allow cross-origin use. -/
def allowOrigins (r : Response) : Response :=
  (((r.withHeader .allowOrigin "*").withHeader .allowMethods "GET,POST,OPTIONS").withHeader
    .allowHeaders "Content-Type, Authorization").withHeader .allowCredentials "true"

/-- Adds the methods of a resource that does not serve the method asked for. -/
def allowMethods (route : Option Route) (method : String) (r : Response) : Response :=
  match route with
  | none => r
  | some route => if route.serves method then r else r.withHeader .allow route.allow

/-- Adds the length of the body in bytes. A response to `HEAD` is then sent without its body. -/
def measure (method : String) (r : Response) : Response :=
  let measured := r.withHeader .contentLength r.body.utf8ByteSize.repr
  if method = "HEAD" then { measured with body := "" } else measured

/-- The answer of the site to a request. -/
def answer (s : Site) (request : Request) : Answer :=
  let uri := Uri.ofString request.target
  let route := Route.ofPath? uri.path
  let found := if request.method = "OPTIONS" then preflight uri else s.dispatch route request
  found.mapResponse fun r =>
    measure request.method (allowMethods route request.method (allowOrigins r))

end Site

end LoginService
