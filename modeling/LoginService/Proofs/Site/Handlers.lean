import LoginService.Proofs.Login.Identifier
import LoginService.Proofs.Site.Answer

/-!
# What is answered

The answers that a resource can give, and the answers that are given without a resource, each with
the reason for which it is given. Every fact about the answers of the site is a case analysis of
these lists.
-/

namespace LoginService

open Http

/-- The answers of the resources to a request with a body. -/
inductive Handles (s : Site) (body : Bytes) : Route → Answer → Prop where
  /-- The sign of life is always the same. -/
  | health : Handles s body .health (.silent (.text .ok "OK"))
  /-- The settings of the identity provider are told, and must not be stored. -/
  | config {config : PublicConfig} (hconfig : s.settings.publicConfig? = some config) :
      Handles s body .config (.silent ((Response.json .ok config.toValue).withHeader .cacheControl
        "no-cache, no-store, max-age=0, must-revalidate"))
  /-- The settings of the identity provider are missing. -/
  | unconfigured (hconfig : s.settings.publicConfig? = none) :
      Handles s body .config ((Answer.error .configurationMissing).after [.configurationMissing])
  /-- A body that is too long is refused unread. -/
  | tooLong (hlength : Login.bodyLimit < body.length) :
      Handles s body .login (.silent
        (.text .contentTooLarge "Failed to buffer the request body: length limit exceeded"))
  /-- A body without an identifier is refused, and the verifier is not asked. -/
  | malformed {fault : Login.Fault} (hlength : body.length ≤ Login.bodyLimit)
      (hread : Login.identifier body = .error fault) :
      Handles s body .login (((Answer.error .malformedRequest).after fault.log).after
        [.loginRequest (Utf8.decodeLossy body)])
  /-- The verifier refuses the identifier. -/
  | refused {identifier : String} (hlength : body.length ≤ Login.bodyLimit)
      (hread : Login.identifier body = .ok identifier)
      (hrefused : ¬s.verifier.accepts identifier) :
      Handles s body .login ((((Answer.error .requestExpired).after
        (s.verifier.refusalLog identifier)).asking identifier).after
        [.loginRequest (Utf8.decodeLossy body)])
  /-- The verifier accepts the identifier. -/
  | accepted {identifier : String} (hlength : body.length ≤ Login.bodyLimit)
      (hread : Login.identifier body = .ok identifier) (haccepted : s.verifier.accepts identifier) :
      Handles s body .login (((Answer.silent (.json .ok s.redirect)).asking identifier).after
        [.loginRequest (Utf8.decodeLossy body)])

variable {s : Site} {body : Bytes} {route : Route} {a : Answer}

/-- Every answer of a login is one of these. -/
theorem handles_answerLogin (s : Site) (body : Bytes) :
    Handles s body .login (s.answerLogin body) := by
  unfold Site.answerLogin
  split
  · next hlength => exact .tooLong hlength
  · next hlength =>
    have hlength : body.length ≤ Login.bodyLimit := Nat.not_lt.mp hlength
    unfold Site.answerBody
    cases hread : Login.identifier body with
    | error fault =>
      dsimp only
      rw [fault.toApiError_eq]
      exact .malformed hlength hread
    | ok identifier =>
      dsimp only
      unfold Site.answerIdentifier Verifier.verify
      by_cases haccepts : s.verifier.accepts identifier
      · rw [if_pos haccepts]
        exact .accepted hlength hread haccepts
      · rw [if_neg haccepts]
        exact .refused hlength hread haccepts

/-- Every answer of a resource is one of these. -/
theorem handles_answerRoute (s : Site) (body : Bytes) (route : Route) :
    Handles s body route (s.answerRoute body route) := by
  cases route with
  | health => exact .health
  | login => exact handles_answerLogin s body
  | config =>
    unfold Site.answerRoute Site.answerConfig
    cases hconfig : s.settings.publicConfig? with
    | some config => exact .config hconfig
    | none => exact .unconfigured hconfig

/-- A request that asks for a resource finds one of these answers. -/
theorem handles_found (s : Site) {request : Request} (hroute : request.AsksFor route) :
    Handles s request.body route (s.found request) := by
  rw [Site.found_of_asksFor s hroute]
  exact handles_answerRoute s request.body route

/-- The answers that are found for a request. -/
inductive Finds (s : Site) (request : Request) : Answer → Prop where
  /-- A preflight request is answered at once. -/
  | preflight (hmethod : request.method = "OPTIONS") :
      Finds s request (Site.preflight (Uri.ofString request.target))
  /-- The path leads nowhere. -/
  | unknown (hmethod : request.method ≠ "OPTIONS")
      (hpath : ∀ route : Route, request.path ≠ route.path) :
      Finds s request (.silent (.empty .notFound))
  /-- The resource does not serve the method. -/
  | unserved {route : Route} (hmethod : request.method ≠ "OPTIONS")
      (hpath : request.path = route.path) (hserved : request.method ∉ route.methods) :
      Finds s request (.silent (.empty .methodNotAllowed))
  /-- A resource answers. -/
  | handled {route : Route} {a : Answer} (hroute : request.AsksFor route)
      (h : Handles s request.body route a) : Finds s request a

/-- Every answer that is found is one of these. -/
theorem finds (s : Site) (request : Request) : Finds s request (s.found request) := by
  cases request.kind with
  | preflight hmethod =>
    rw [Site.found_of_options s hmethod]
    exact .preflight hmethod
  | unknown hmethod hpath =>
    rw [Site.found_of_unknown s hmethod hpath]
    exact .unknown hmethod hpath
  | unserved route hmethod hpath hserved =>
    rw [Site.found_of_unserved s hmethod hpath hserved]
    exact .unserved hmethod hpath hserved
  | served route hroute => exact .handled hroute (handles_found s hroute)

/-- A status that a resource answers with. -/
def Handled (status : Status) : Prop :=
  status = .ok ∨ status = .badRequest ∨ status = .contentTooLarge ∨ status = .internalServerError

/-- No resource answers like a preflight request, an unknown path or a refused method. -/
theorem Handled.ne {status : Status} (h : Handled status) :
    status ≠ .noContent ∧ status ≠ .notFound ∧ status ≠ .methodNotAllowed := by
  rcases h with rfl | rfl | rfl | rfl <;> decide

/-- The text of an object is not empty. -/
theorem Json.Value.text_object_ne_empty (members : List (String × Json.Value)) :
    (Json.Value.object members).text ≠ "" := by
  intro hempty
  have htext := congrArg String.toList hempty
  simp [text, tokens, Json.Token.text] at htext

namespace Handles

/-- A resource answers with success, or with an error of the client or of the service. -/
theorem status (h : Handles s body route a) : Handled a.response.status := by
  cases h with
  | health | config | accepted => exact .inl rfl
  | malformed | refused => exact .inr (.inl rfl)
  | tooLong => exact .inr (.inr (.inl rfl))
  | unconfigured => exact .inr (.inr (.inr rfl))

/-- A resource never answers without a body. -/
theorem body_ne_empty (h : Handles s body route a) : a.response.body ≠ "" := by
  cases h with
  | health | tooLong => decide
  | config | unconfigured | malformed | refused | accepted =>
    exact Json.Value.text_object_ne_empty _

/-- A resource tells the type of its content. -/
theorem contentType_ne_nil (h : Handles s body route a) :
    a.response.headers.values .contentType ≠ [] := by
  cases h <;> exact List.cons_ne_nil _ _

/-- Only the settings of the identity provider, when they are told, must not be stored. -/
theorem cacheControl_ne_nil_iff (h : Handles s body route a) :
    a.response.headers.values .cacheControl ≠ [] ↔ route = .config ∧ a.response.status = .ok := by
  cases h with
  | config => exact iff_of_true (List.cons_ne_nil _ _) ⟨rfl, rfl⟩
  | unconfigured => exact iff_of_false (fun hne => hne rfl) (fun hok => by cases hok.2)
  | health | tooLong | malformed | refused | accepted =>
    exact iff_of_false (fun hne => hne rfl) (fun hconfig => by cases hconfig.1)

/-- A resource sets none of the other fields. -/
theorem values_eq_nil (h : Handles s body route a) {name : HeaderName}
    (htype : name ≠ .contentType) (hcache : name ≠ .cacheControl) :
    a.response.headers.values name = [] := by
  cases h with
  | config => exact (if_neg hcache).trans (if_neg htype)
  | health | unconfigured | tooLong | malformed | refused | accepted => exact if_neg htype

end Handles

end LoginService
