import LoginService.Proofs.Http.Route
import LoginService.Site

/-!
# What is added to an answer

The site answers a request in two steps: it finds an answer, and then adds header fields to the
response. The second step changes neither the status nor the type of the content, and it changes the
body only for the method `HEAD`. The kind of the request decides how the answer is found.
-/

namespace LoginService

namespace Answer

/-- A silent answer has its response. -/
@[simp] theorem response_silent (r : Http.Response) : (silent r).response = r := rfl

/-- Nothing is reported of a silent answer. -/
@[simp] theorem log_silent (r : Http.Response) : (silent r).log = [] := rfl

/-- An error has its response. -/
@[simp] theorem response_error (e : ApiError) : (error e).response = e.response := rfl

/-- An error is reported. -/
@[simp] theorem log_error (e : ApiError) : (error e).log = [.failed e] := rfl

/-- Reports do not change the response. -/
@[simp] theorem response_after (log : List Event) (a : Answer) :
    (a.after log).response = a.response := rfl

/-- Reports come before those of the answer. -/
@[simp] theorem log_after (log : List Event) (a : Answer) : (a.after log).log = log ++ a.log := rfl

/-- Asking the verifier does not change the response. -/
@[simp] theorem response_asking (identifier : String) (a : Answer) :
    (a.asking identifier).response = a.response := rfl

/-- Asking the verifier is not reported. -/
@[simp] theorem log_asking (identifier : String) (a : Answer) :
    (a.asking identifier).log = a.log := rfl

/-- A silent answer asks no verifier. -/
@[simp] theorem verified_silent (r : Http.Response) : (silent r).verified = none := rfl

/-- An error asks no verifier. -/
@[simp] theorem verified_error (e : ApiError) : (error e).verified = none := rfl

/-- Reports do not ask the verifier. -/
@[simp] theorem verified_after (log : List Event) (a : Answer) :
    (a.after log).verified = a.verified := rfl

/-- The identifier that is asked about first is the one verified. -/
@[simp] theorem verified_asking (identifier : String) (a : Answer) :
    (a.asking identifier).verified = some identifier := rfl

end Answer

namespace Site

open Http

/-- Fields for cross-origin use do not change the status. -/
@[simp] theorem status_allowOrigins (r : Response) : (allowOrigins r).status = r.status := rfl

/-- Fields for cross-origin use do not change the body. -/
@[simp] theorem body_allowOrigins (r : Response) : (allowOrigins r).body = r.body := rfl

/-- The fields that allow cross-origin use, with their values. -/
def crossOrigin : List (HeaderName × String) :=
  [(.allowOrigin, "*"), (.allowMethods, "GET,POST,OPTIONS"),
    (.allowHeaders, "Content-Type, Authorization"), (.allowCredentials, "true")]

/-- Fields for cross-origin use are set to their values. -/
theorem values_allowOrigins {field : HeaderName × String} (hfield : field ∈ crossOrigin)
    (r : Response) : (allowOrigins r).headers.values field.1 = [field.2] := by
  simp only [crossOrigin, List.mem_cons, List.not_mem_nil, or_false] at hfield
  rcases hfield with rfl | rfl | rfl | rfl <;> rfl

/-- Fields for cross-origin use leave the other fields as they are. -/
theorem values_allowOrigins_of_notMem {name : HeaderName}
    (hname : name ∉ crossOrigin.map Prod.fst) (r : Response) :
    (allowOrigins r).headers.values name = r.headers.values name := by
  simp only [crossOrigin, List.map_cons, List.map_nil, List.mem_cons, List.not_mem_nil, or_false,
    not_or] at hname
  simp [allowOrigins, hname]

/-- The methods of a resource do not change the status. -/
@[simp] theorem status_allowMethods (route : Option Route) (method : String) (r : Response) :
    (allowMethods route method r).status = r.status := by
  unfold allowMethods
  repeat' split
  all_goals rfl

/-- The methods of a resource do not change the body. -/
@[simp] theorem body_allowMethods (route : Option Route) (method : String) (r : Response) :
    (allowMethods route method r).body = r.body := by
  unfold allowMethods
  repeat' split
  all_goals rfl

/-- The methods of a resource leave the other fields as they are. -/
theorem values_allowMethods_of_ne {name : HeaderName} (hname : name ≠ .allow)
    (route : Option Route) (method : String) (r : Response) :
    (allowMethods route method r).headers.values name = r.headers.values name := by
  unfold allowMethods
  repeat' split
  all_goals simp [hname]

/-- The length does not change the status. -/
@[simp] theorem status_measure (method : String) (r : Response) :
    (measure method r).status = r.status := by
  unfold measure
  split <;> rfl

/-- The length does not change the body, except for `HEAD`. -/
theorem body_measure {method : String} (hmethod : method ≠ "HEAD") (r : Response) :
    (measure method r).body = r.body := by
  unfold measure
  rw [if_neg hmethod]
  rfl

/-- For `HEAD` the body is dropped. -/
theorem body_measure_head {method : String} (hmethod : method = "HEAD") (r : Response) :
    (measure method r).body = "" := by
  unfold measure
  rw [if_pos hmethod]

/-- The length is that of the body before it is dropped. -/
theorem values_measure (method : String) (r : Response) :
    (measure method r).headers.values .contentLength = [r.body.utf8ByteSize.repr] := by
  unfold measure
  split <;> rfl

/-- The length leaves the other fields as they are. -/
theorem values_measure_of_ne {name : HeaderName} (hname : name ≠ .contentLength)
    (method : String) (r : Response) :
    (measure method r).headers.values name = r.headers.values name := by
  unfold measure
  split <;> exact if_neg hname

/-- The answer to a request before fields are added to its response. -/
def found (s : Site) (request : Request) : Answer :=
  let uri := Uri.ofString request.target
  if request.method = "OPTIONS" then preflight uri
  else s.dispatch (Route.ofPath? uri.path) request

/-- The answer has the response that is found, with the fields that are added. -/
theorem response_answer (s : Site) (request : Request) :
    (s.answer request).response =
      measure request.method (allowMethods (Route.ofPath? request.path) request.method
        (allowOrigins (s.found request).response)) := rfl

/-- The verifier is asked in finding the answer only. -/
@[simp] theorem asked_answer (s : Site) (request : Request) :
    (s.answer request).asked = (s.found request).asked := rfl

/-- Everything is reported in finding the answer. -/
@[simp] theorem log_answer (s : Site) (request : Request) :
    (s.answer request).log = (s.found request).log := rfl

/-- Requests for which the same is found, with the same method and path, have the same answer. -/
theorem answer_congr {s t : Site} {request other : Request}
    (hfound : s.found request = t.found other) (hmethod : request.method = other.method)
    (hpath : request.path = other.path) : s.answer request = t.answer other := by
  have hresponse : (s.answer request).response = (t.answer other).response := by
    rw [response_answer, response_answer, hfound, hmethod, hpath]
  have hasked : (s.answer request).asked = (t.answer other).asked := by
    rw [asked_answer, asked_answer, hfound]
  have hlog : (s.answer request).log = (t.answer other).log := by
    rw [log_answer, log_answer, hfound]
  exact Answer.ext hresponse hasked hlog

/-- The answer has the status that is found. -/
@[simp] theorem status_answer (s : Site) (request : Request) :
    (s.answer request).response.status = (s.found request).response.status := by
  simp [answer, found, Answer.mapResponse]

/-- The answer has the body that is found, except for `HEAD`. -/
theorem body_answer (s : Site) {request : Request} (hmethod : request.method ≠ "HEAD") :
    (s.answer request).response.body = (s.found request).response.body := by
  simp [answer, found, Answer.mapResponse, body_measure hmethod]

/-- For `HEAD` the answer has no body. -/
theorem body_answer_head (s : Site) {request : Request} (hmethod : request.method = "HEAD") :
    (s.answer request).response.body = "" := by
  rw [response_answer, body_measure_head hmethod]

/-- Every answer has the fields for cross-origin use. -/
theorem values_answer_of_mem (s : Site) (request : Request) {field : HeaderName × String}
    (hfield : field ∈ crossOrigin) :
    (s.answer request).response.headers.values field.1 = [field.2] := by
  have hother : ∀ field ∈ crossOrigin, field.1 ≠ .allow ∧ field.1 ≠ .contentLength := by decide
  obtain ⟨hallow, hlength⟩ := hother field hfield
  rw [response_answer, values_measure_of_ne hlength, values_allowMethods_of_ne hallow,
    values_allowOrigins hfield]

/-- The answer has the fields that are found, except for those that are added. -/
theorem values_answer (s : Site) (request : Request) {name : HeaderName}
    (horigins : name ∉ crossOrigin.map Prod.fst) (hallow : name ≠ .allow)
    (hlength : name ≠ .contentLength) :
    (s.answer request).response.headers.values name =
      (s.found request).response.headers.values name := by
  rw [response_answer, values_measure_of_ne hlength, values_allowMethods_of_ne hallow,
    values_allowOrigins_of_notMem horigins]

/-- The answer has the type of the content that is found. -/
theorem contentType_answer (s : Site) (request : Request) :
    (s.answer request).response.headers.value? .contentType =
      (s.found request).response.headers.value? .contentType := by
  rw [Headers.value?, Headers.value?,
    values_answer s request (by decide) (by decide) (by decide)]

variable {request : Request}

/-- A preflight request is answered at once. -/
theorem found_of_options (s : Site) (hmethod : request.method = "OPTIONS") :
    s.found request = preflight (Uri.ofString request.target) := by
  rw [found, if_pos hmethod]

/-- Every other request is answered by what its path leads to. -/
theorem found_of_ne_options (s : Site) (hmethod : request.method ≠ "OPTIONS") :
    s.found request = s.dispatch (Route.ofPath? request.path) request := by
  rw [found, if_neg hmethod, Request.path]

/-- Nothing is found where a path leads nowhere. -/
theorem found_of_unknown (s : Site) (hmethod : request.method ≠ "OPTIONS")
    (hpath : ∀ route : Route, request.path ≠ route.path) :
    s.found request = .silent (.empty .notFound) := by
  rw [found_of_ne_options s hmethod, Route.ofPath?_eq_none_iff.mpr hpath]
  rfl

/-- A method that a resource does not serve is refused. -/
theorem found_of_unserved (s : Site) {route : Route} (hmethod : request.method ≠ "OPTIONS")
    (hpath : request.path = route.path) (hserved : request.method ∉ route.methods) :
    s.found request = .silent (.empty .methodNotAllowed) := by
  rw [found_of_ne_options s hmethod, Route.ofPath?_eq_some_iff.mpr hpath]
  exact if_neg (mt Route.serves_iff.mp hserved)

/-- A request that asks for a resource is answered by the resource. -/
theorem found_of_asksFor (s : Site) {route : Route} (hroute : request.AsksFor route) :
    s.found request = s.answerRoute request.body route := by
  rw [found_of_ne_options s hroute.ne_options, Route.ofPath?_eq_some_iff.mpr hroute.1]
  exact if_pos (Route.serves_iff.mpr hroute.2)

/-- For `HEAD` the same is found as for `GET`. -/
theorem found_head (s : Site) (hmethod : request.method = "HEAD") :
    s.found request = s.found { request with method := "GET" } := by
  have hget : "GET" ≠ "OPTIONS" := by decide
  cases request.kind with
  | preflight hoptions =>
    rw [hmethod] at hoptions
    exact absurd hoptions (by decide)
  | unknown hne hpath =>
    have hgetFound : s.found { request with method := "GET" } = .silent (.empty .notFound) :=
      found_of_unknown s hget hpath
    rw [found_of_unknown s hne hpath, hgetFound]
  | unserved route hne hpath hserved =>
    have hgetServed : "GET" ∉ route.methods := by
      rwa [← route.head_mem_methods_iff, ← hmethod]
    have hgetFound : s.found { request with method := "GET" } =
        .silent (.empty .methodNotAllowed) := found_of_unserved s hget hpath hgetServed
    rw [found_of_unserved s hne hpath hserved, hgetFound]
  | served route hroute =>
    have hgetServed : "GET" ∈ route.methods := by
      rw [← route.head_mem_methods_iff, ← hmethod]
      exact hroute.2
    have hgetRoute : Request.AsksFor { request with method := "GET" } route :=
      ⟨hroute.1, hgetServed⟩
    rw [found_of_asksFor s hroute, found_of_asksFor s hgetRoute]

end Site

end LoginService
