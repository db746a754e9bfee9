import LoginService.Proofs.Login.Outcome
import LoginService.Proofs.Site.Dispatch
import LoginService.Proofs.Site.Headers

/-!
# The answer to `HEAD`

No resource tells `HEAD` from `GET`: the same answer is found for both, the same fields are added to
it, and only then, when its length has been taken, the body is dropped. So the answer to `HEAD` is
that to `GET` without the body, for every target, and what it says about the body is said about the
one that `GET` gets.
-/

namespace LoginService

open Http

/-- The response without its body. -/
def Http.Response.withoutBody (r : Response) : Response :=
  { r with body := "" }

/-- The answer whose response has lost its body. -/
def Answer.withoutBody (a : Answer) : Answer :=
  a.mapResponse Response.withoutBody

/-- Dropping the body of an answer changes the answer if and only if it has a body. -/
theorem Answer.withoutBody_ne_iff {a : Answer} : a.withoutBody ≠ a ↔ a.response.body ≠ "" := by
  refine not_congr ⟨fun h => ?_, fun h => ?_⟩
  · have hbody : a.withoutBody.response.body = a.response.body := by rw [h]
    exact hbody.symm
  · obtain ⟨⟨status, headers, body⟩, asked, log⟩ := a
    subst h
    rfl

/-- A resource serves `HEAD` if it serves `GET`. -/
theorem Http.Route.serves_head (route : Route) : route.serves "HEAD" = route.serves "GET" := by
  rw [Bool.eq_iff_iff, serves_iff, serves_iff, route.head_mem_methods_iff]

namespace Site

/-- The methods of a resource are added to the answer to `HEAD` as to the answer to `GET`. -/
theorem allowMethods_head (route : Option Route) (r : Response) :
    allowMethods route "HEAD" r = allowMethods route "GET" r := by
  cases route with
  | none => rfl
  | some route => rw [allowMethods, allowMethods, route.serves_head]

/-- The length is taken before the body is dropped. -/
theorem measure_head (r : Response) : measure "HEAD" r = (measure "GET" r).withoutBody := rfl

/-- For `HEAD` the same is found as for `GET`, whatever the bodies of the requests. -/
theorem found_head_eq (s : Site) (target : String) (body other : Bytes) :
    s.found ⟨"HEAD", target, body⟩ = s.found ⟨"GET", target, other⟩ := by
  have hpost : "GET" ≠ "POST" := by decide
  have hlogin : ¬Login.IsLogin ⟨"GET", target, other⟩ := fun hlogin => hpost hlogin.1
  calc s.found ⟨"HEAD", target, body⟩
      = s.found ⟨"GET", target, body⟩ := found_head s rfl
    _ = s.found ⟨"GET", target, other⟩ := Login.found_congr hlogin body

/-- The answer to `HEAD` is that to `GET` without the body. -/
theorem answer_head (s : Site) (target : String) (body other : Bytes) :
    s.answer ⟨"HEAD", target, body⟩ = (s.answer ⟨"GET", target, other⟩).withoutBody := by
  have hfound := found_head_eq s target body other
  have hresponse : (s.answer ⟨"HEAD", target, body⟩).response =
      (s.answer ⟨"GET", target, other⟩).response.withoutBody := by
    rw [response_answer, response_answer, hfound, allowMethods_head, measure_head]
    rfl
  have hasked : (s.answer ⟨"HEAD", target, body⟩).asked =
      (s.answer ⟨"GET", target, other⟩).asked := by
    rw [asked_answer, asked_answer, hfound]
  have hlog : (s.answer ⟨"HEAD", target, body⟩).log = (s.answer ⟨"GET", target, other⟩).log := by
    rw [log_answer, log_answer, hfound]
  exact Answer.ext hresponse hasked hlog

end Site

/-- What is said about a body without sending it. -/
structure Description where
  /-- The status of the response. -/
  status : Status
  /-- The type of the body. -/
  contentType : List String
  /-- Whether the body may be stored. -/
  cacheControl : List String
  /-- What was reported. -/
  log : List Event

/-- What an answer says about its body. -/
def Answer.description (a : Answer) : Description where
  status := a.response.status
  contentType := a.response.headers.values .contentType
  cacheControl := a.response.headers.values .cacheControl
  log := a.log

/-- The fields that are added to an answer leave its description as it is. -/
theorem Site.description_answer (s : Site) (request : Request) :
    (s.answer request).description = (s.found request).description := by
  rw [Answer.description, status_answer, log_answer,
    values_answer s request (by decide) (by decide) (by decide),
    values_answer s request (by decide) (by decide) (by decide)]
  rfl

/-- What is said about the body that `GET` gets for a path, and that `HEAD` leaves out. -/
inductive Describes (settings : Settings) (path : String) : Description → String → Prop where
  /-- The sign of life is a text. -/
  | health (hpath : path = "/health") :
      Describes settings path ⟨.ok, ["text/plain; charset=utf-8"], [], []⟩ "OK"
  /-- The settings of the identity provider are a document, which must not be stored. -/
  | config {config : PublicConfig} (hpath : path = "/api/config.json")
      (hconfig : settings.publicConfig? = some config) :
      Describes settings path ⟨.ok, ["application/json"],
        ["no-cache, no-store, max-age=0, must-revalidate"], []⟩ config.toValue.text
  /-- If they are missing, then the document is that of the error, and both are reported. -/
  | unconfigured (hpath : path = "/api/config.json") (hconfig : settings.publicConfig? = none) :
      Describes settings path ⟨.internalServerError, ["application/json"], [],
        [.configurationMissing, .failed .configurationMissing]⟩
        ApiError.configurationMissing.toValue.text
  /-- The login serves neither method. -/
  | login (hpath : path = "/api/login") : Describes settings path ⟨.methodNotAllowed, [], [], []⟩ ""
  /-- Every other path leads nowhere. -/
  | unknown (hpath : ∀ route : Route, path ≠ route.path) :
      Describes settings path ⟨.notFound, [], [], []⟩ ""

/-- There is a body on the paths of the two resources that serve both methods, and only there. -/
theorem Describes.ne_empty_iff {settings : Settings} {path body : String} {d : Description}
    (h : Describes settings path d body) :
    body ≠ "" ↔ path = "/api/config.json" ∨ path = "/health" := by
  cases h with
  | health hpath => exact iff_of_true (by decide) (.inr hpath)
  | config hpath | unconfigured hpath =>
    exact iff_of_true (Json.Value.text_object_ne_empty _) (.inl hpath)
  | login hpath =>
    rw [hpath]
    exact iff_of_false (fun hne => hne rfl) (by decide)
  | unknown hpath =>
    refine iff_of_false (fun hne => hne rfl) ?_
    rintro (hconfig | hhealth)
    · exact hpath .config hconfig
    · exact hpath .health hhealth

/-- What is found for `GET` describes its body. -/
theorem Finds.describes {s : Site} {request : Request} {a : Answer} (h : Finds s request a)
    (hmethod : request.method = "GET") :
    Describes s.settings request.path a.description a.response.body := by
  cases h with
  | preflight hoptions =>
    rw [hmethod] at hoptions
    exact absurd hoptions (by decide)
  | unknown _ hpath => exact .unknown hpath
  | @unserved route _ hpath hserved =>
    rw [hmethod] at hserved
    cases route with
    | login => exact .login hpath
    | config | health => exact absurd hserved (by decide)
  | handled hroute h =>
    have hserved := hroute.2
    rw [hmethod] at hserved
    cases h with
    | health => exact .health hroute.1
    | config hconfig => exact .config hroute.1 hconfig
    | unconfigured hconfig => exact .unconfigured hroute.1 hconfig
    | tooLong | malformed | refused | accepted => exact absurd hserved (by decide)

namespace Site

/-- The answer to `HEAD` describes the body of the answer to `GET`. -/
theorem describes_answer_head (s : Site) (target : String) (body other : Bytes) :
    Describes s.settings (Uri.ofString target).path (s.answer ⟨"HEAD", target, body⟩).description
      (s.answer ⟨"GET", target, other⟩).response.body := by
  have hget : "GET" ≠ "HEAD" := by decide
  rw [description_answer, found_head_eq s target body other, body_answer s hget]
  exact (finds s ⟨"GET", target, other⟩).describes rfl

/-- The answer to `HEAD` lists the methods of the login where that is the resource, and nothing
elsewhere. -/
theorem allow_answer_head (s : Site) (target : String) (body : Bytes) :
    (s.answer ⟨"HEAD", target, body⟩).response.headers.values .allow =
      if (Uri.ofString target).path = "/api/login" then ["POST"] else [] := by
  split
  · next hpath =>
    have hlogin : Request.path ⟨"HEAD", target, body⟩ = Route.login.path := hpath
    have hserved : "HEAD" ∉ Route.login.methods := by decide
    have hlisted : Route.login.allow = "POST" := by decide
    rw [allow_of_path s hlogin, if_neg hserved, hlisted]
  · next hpath =>
    by_contra hallow
    obtain ⟨route, hroute, hserved⟩ := (allow_ne_nil_iff s _).mp hallow
    have hothers : ∀ other : Route, other ≠ .login → "HEAD" ∈ other.methods := by
      intro other
      cases other <;> decide
    refine hserved (hothers route ?_)
    rintro rfl
    exact hpath hroute

/-- How an answer to `HEAD` compares to an answer to `GET`, where both targets have the given
path. -/
structure Mirrors (settings : Settings) (path : String) (head get : Answer) : Prop where
  /-- The status is the same. -/
  status : head.response.status = get.response.status
  /-- The same fields are sent, with the same values. -/
  headers : head.response.headers = get.response.headers
  /-- The same is reported. -/
  log : head.log = get.log
  /-- Neither asks the verifier. -/
  asked : head.asked = [] ∧ get.asked = []
  /-- `HEAD` gets no body. -/
  body : head.response.body = ""
  /-- The length is that of the body that `GET` gets, in bytes. -/
  length : head.response.headers.values .contentLength =
    [(Utf8.encode get.response.body).length.repr]
  /-- The methods of the login are listed where that is the resource, and nothing elsewhere. -/
  allow : head.response.headers.values .allow = if path = "/api/login" then ["POST"] else []
  /-- What is said about the body is said about the one that `GET` gets. -/
  describes : Describes settings path head.description get.response.body
  /-- The answers differ where a resource serves both methods, and only there. -/
  ne_iff : head ≠ get ↔ path = "/api/config.json" ∨ path = "/health"

/-- For every target the answer to `HEAD` is that to `GET`, apart from the body, which is left out.
Neither depends on the body of its request. -/
theorem head_mirrors_get (s : Site) (target : String) (body other : Bytes) :
    Mirrors s.settings (Uri.ofString target).path (s.answer ⟨"HEAD", target, body⟩)
      (s.answer ⟨"GET", target, other⟩) := by
  have hequal := answer_head s target body other
  have hdescribes := describes_answer_head s target body other
  have hhead : "HEAD" ≠ "POST" := by decide
  have hget : "GET" ≠ "POST" := by decide
  constructor
  · rw [hequal]
    rfl
  · rw [hequal]
    rfl
  · rw [hequal]
    rfl
  · exact ⟨Login.asked_of_not_isLogin s fun h => hhead h.1,
      Login.asked_of_not_isLogin s fun h => hget h.1⟩
  · exact body_answer_head s rfl
  · rw [hequal]
    exact contentLength_answer s ⟨"GET", target, other⟩
  · exact allow_answer_head s target body
  · exact hdescribes
  · rw [hequal, Answer.withoutBody_ne_iff, hdescribes.ne_empty_iff]

/-- The length counts the bytes of the document that `GET` gets, escapes included. -/
example : (answer ⟨{ Settings.standard with apiKey := some "é", authDomain := some "\n" },
    .sentinel⟩ ⟨"HEAD", "/api/config.json?", []⟩).response.headers.value? .contentLength =
      some "33" := by decide

end Site

end LoginService
