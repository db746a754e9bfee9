import LoginService.Proofs.Site.Handlers
import Mathlib.Data.List.Forall2

/-!
# The outcome of a login

A login ends in one of four ways, whatever its body and whatever the verifier: the body is too long,
it is malformed, or its identifier is refused or accepted. The verifier is asked once about the
identifier in the last two cases, and never otherwise. No other request asks the verifier, and its
body does not matter. A site keeps nothing from one request to the next, so over a sequence of
requests the verifier is asked about the identifiers of the logins, each once and in their order.
-/

namespace LoginService

open Http

/-- Two verifiers say the same about an identifier. -/
def Verifier.AgreesOn (v w : Verifier) (identifier : String) : Prop :=
  v.verify identifier = w.verify identifier ∧ v.refusalLog identifier = w.refusalLog identifier

namespace Login

/-- A response refuses a request with a message. -/
def Refuses (r : Response) (message : String) : Prop :=
  r.status = .badRequest ∧
    r.body = "\x7b\"statusCode\":400,\"statusMessage\":\"" ++ message ++ "\"\x7d"

/-- The error of a request that cannot be granted is a refusal with its message. -/
theorem refuses_response {e : ApiError} (h : e.status = .badRequest) :
    Refuses e.response e.message := by
  cases e with
  | requestExpired => exact ⟨rfl, by decide⟩
  | malformedRequest => exact ⟨rfl, by decide⟩
  | configurationMissing => cases h

/-- The ways in which a login ends. -/
inductive Outcome where
  /-- The body is too long. -/
  | tooLong
  /-- The body is not a login request. -/
  | malformed
  /-- The verifier refuses the identifier. -/
  | refused (identifier : String)
  /-- The verifier accepts the identifier. -/
  | accepted (identifier : String)

/-- When a login with a body ends in an outcome. -/
inductive Outcome.Arises (s : Site) (body : Bytes) : Outcome → Prop where
  /-- The length is looked at first. -/
  | tooLong (hlength : bodyLimit < body.length) : Arises s body .tooLong
  /-- The body is read next. -/
  | malformed (hlength : body.length ≤ bodyLimit) (hread : Malformed body) :
      Arises s body .malformed
  /-- The verifier decides last, and it refuses. -/
  | refused {identifier : String} (hlength : body.length ≤ bodyLimit)
      (hread : Login.identifier body = .ok identifier)
      (hrefused : ¬s.verifier.accepts identifier) : Arises s body (.refused identifier)
  /-- The verifier decides last, and it accepts. -/
  | accepted {identifier : String} (hlength : body.length ≤ bodyLimit)
      (hread : Login.identifier body = .ok identifier)
      (haccepted : s.verifier.accepts identifier) : Arises s body (.accepted identifier)

/-- What an answer shows of an outcome. -/
inductive Outcome.ShownBy (s : Site) (a : Answer) : Outcome → Prop where
  /-- A body that is too long is refused with a text, and nothing is reported. -/
  | tooLong (hstatus : a.response.status = .contentTooLarge)
      (htype : a.response.headers.values .contentType = ["text/plain; charset=utf-8"])
      (hbody : a.response.body = "Failed to buffer the request body: length limit exceeded")
      (hasked : a.asked = []) (hlog : a.log = []) : ShownBy s a .tooLong
  /-- A malformed body is refused, and the verifier is not asked. -/
  | malformed (hrefused : Refuses a.response "malformed login request") (hasked : a.asked = []) :
      ShownBy s a .malformed
  /-- An identifier is refused after the verifier was asked about it. -/
  | refused {identifier : String} (hrefused : Refuses a.response "request_id is expired")
      (hasked : a.asked = [identifier]) : ShownBy s a (.refused identifier)
  /-- An accepted login is told where it leads, after the verifier was asked about the
  identifier. -/
  | accepted {identifier : String} (hstatus : a.response.status = .ok)
      (hbody : a.response.body = (Json.Value.object [("url", .string s.settings.redirectUrl)]).text)
      (hasked : a.asked = [identifier]) : ShownBy s a (.accepted identifier)

/-- A request is a login. -/
def IsLogin (request : Request) : Prop :=
  request.method = "POST" ∧ request.path = "/api/login"

instance (request : Request) : Decidable (IsLogin request) :=
  inferInstanceAs (Decidable (_ ∧ _))

/-- Logins are the requests that ask for the login. -/
theorem isLogin_iff {request : Request} : IsLogin request ↔ request.AsksFor .login := by
  rw [IsLogin, Request.AsksFor, and_comm]
  simp only [Route.path, Route.methods, List.mem_singleton]

variable {s : Site} {body : Bytes} {request : Request}

/-- The outcome of a login with a body. -/
def outcomeOf (s : Site) (body : Bytes) : Outcome :=
  if bodyLimit < body.length then .tooLong
  else
    match identifier body with
    | .error _ => .malformed
    | .ok identifier =>
      if s.verifier.accepts identifier then .accepted identifier else .refused identifier

/-- A login ends in no other outcome. -/
theorem Outcome.Arises.eq_outcomeOf {outcome : Outcome} (h : outcome.Arises s body) :
    outcome = outcomeOf s body := by
  cases h with
  | tooLong hlength => rw [outcomeOf, if_pos hlength]
  | malformed hlength hread =>
    obtain ⟨fault, hfault, -⟩ := hread
    rw [outcomeOf, if_neg (Nat.not_lt.mpr hlength), hfault]
  | refused hlength hread hrefused =>
    rw [outcomeOf, if_neg (Nat.not_lt.mpr hlength), hread]
    exact (if_neg hrefused).symm
  | accepted hlength hread haccepted =>
    rw [outcomeOf, if_neg (Nat.not_lt.mpr hlength), hread]
    exact (if_pos haccepted).symm

/-- What is found for a login shows the outcome that arises. -/
theorem exists_outcome {a : Answer} (h : Handles s body .login a) :
    ∃ outcome : Outcome, outcome.Arises s body ∧ outcome.ShownBy s a := by
  cases h with
  | tooLong hlength => exact ⟨.tooLong, .tooLong hlength, .tooLong rfl rfl rfl rfl rfl⟩
  | malformed hlength hread =>
    have hmalformed : Malformed body := ⟨_, hread, Fault.toApiError_eq _⟩
    exact ⟨.malformed, .malformed hlength hmalformed, .malformed (refuses_response rfl) rfl⟩
  | refused hlength hread hrefused =>
    exact ⟨_, .refused hlength hread hrefused, .refused (refuses_response rfl) rfl⟩
  | accepted hlength hread haccepted =>
    exact ⟨_, .accepted hlength hread haccepted, .accepted rfl rfl rfl⟩

/-- The fields that are added to the answer leave the outcome as it is. -/
theorem Outcome.ShownBy.answer {outcome : Outcome} (hmethod : request.method ≠ "HEAD")
    (h : outcome.ShownBy s (s.found request)) : outcome.ShownBy s (s.answer request) := by
  have hstatus := Site.status_answer s request
  have hbody := Site.body_answer s hmethod
  cases h with
  | tooLong hfoundStatus hfoundType hfoundBody hasked hlog =>
    have htype : (s.answer request).response.headers.values .contentType =
        (s.found request).response.headers.values .contentType :=
      Site.values_answer s request (by decide) (by decide) (by decide)
    exact .tooLong (hstatus.trans hfoundStatus) (htype.trans hfoundType) (hbody.trans hfoundBody)
      hasked hlog
  | malformed hrefused hasked =>
    exact .malformed ⟨hstatus.trans hrefused.1, hbody.trans hrefused.2⟩ hasked
  | refused hrefused hasked =>
    exact .refused ⟨hstatus.trans hrefused.1, hbody.trans hrefused.2⟩ hasked
  | accepted hfoundStatus hfoundBody hasked =>
    exact .accepted (hstatus.trans hfoundStatus) (hbody.trans hfoundBody) hasked

/-- A login has exactly one outcome, and the answer shows it. -/
theorem existsUnique_outcome (s : Site) (hlogin : IsLogin request) :
    ∃! outcome : Outcome, outcome.Arises s request.body ∧ outcome.ShownBy s (s.answer request) := by
  have hmethod : request.method ≠ "HEAD" := by
    rw [hlogin.1]
    decide
  obtain ⟨outcome, harises, hshown⟩ := exists_outcome (handles_found s (isLogin_iff.mp hlogin))
  refine ⟨outcome, ⟨harises, hshown.answer hmethod⟩, ?_⟩
  -- The body and the verifier determine the outcome, so no other one arises.
  rintro other ⟨hother, -⟩
  rw [hother.eq_outcomeOf, harises.eq_outcomeOf]

/-- What is found for a login with a body that is too long does not depend on the body. -/
theorem found_of_tooLong (s : Site) (hlogin : IsLogin request)
    (hlength : bodyLimit < request.body.length) :
    s.found request = .silent
      (.text .contentTooLarge "Failed to buffer the request body: length limit exceeded") := by
  rw [Site.found_of_asksFor s (isLogin_iff.mp hlogin), Site.answerRoute, Site.answerLogin,
    if_pos hlength]

/-- A login with a body that is too long has the same answer whatever the bytes are. -/
theorem answer_of_tooLong (s : Site) (hlogin : IsLogin request)
    (hlength : bodyLimit < request.body.length) {other : Bytes}
    (hother : bodyLimit < other.length) :
    s.answer { request with body := other } = s.answer request := by
  have hotherLogin : IsLogin { request with body := other } := hlogin
  have hfound := found_of_tooLong s hlogin hlength
  have hotherFound := found_of_tooLong s hotherLogin hother
  exact Site.answer_congr (hotherFound.trans hfound.symm) rfl rfl

/-- A request that is not a login asks for another resource, if it asks for one. -/
theorem asksFor_ne_login (hlogin : ¬IsLogin request) {route : Route}
    (hroute : request.AsksFor route) : route ≠ .login := by
  rintro rfl
  exact hlogin (isLogin_iff.mpr hroute)

/-- No other resource asks the verifier. -/
theorem asked_of_handles {route : Route} {a : Answer} (h : Handles s body route a)
    (hroute : route ≠ .login) : a.asked = [] := by
  cases h with
  | health | config | unconfigured => rfl
  | tooLong | malformed | refused | accepted => exact absurd rfl hroute

/-- No other resource looks at the body or asks the verifier. -/
theorem answerRoute_congr {settings : Settings} {v w : Verifier} {route : Route}
    (hroute : route ≠ .login) (other : Bytes) :
    Site.answerRoute ⟨settings, v⟩ other route = Site.answerRoute ⟨settings, w⟩ body route := by
  cases route with
  | health | config => rfl
  | login => exact absurd rfl hroute

/-- What is found for a request that is not a login depends neither on its body nor on the
verifier. -/
theorem found_congr {settings : Settings} {v w : Verifier} (hlogin : ¬IsLogin request)
    (other : Bytes) :
    Site.found ⟨settings, v⟩ { request with body := other } = Site.found ⟨settings, w⟩ request := by
  cases request.kind with
  | preflight hmethod =>
    rw [Site.found_of_options _ hmethod]
    exact Site.found_of_options _ hmethod
  | unknown hmethod hpath =>
    rw [Site.found_of_unknown _ hmethod hpath]
    exact Site.found_of_unknown _ hmethod hpath
  | unserved route hmethod hpath hserved =>
    rw [Site.found_of_unserved _ hmethod hpath hserved]
    exact Site.found_of_unserved _ hmethod hpath hserved
  | served route hroute =>
    rw [Site.found_of_asksFor _ hroute]
    have hother : Request.AsksFor { request with body := other } route := hroute
    exact (Site.found_of_asksFor _ hother).trans
      (answerRoute_congr (asksFor_ne_login hlogin hroute) other)

/-- Nothing that is found for another request asks the verifier. -/
theorem asked_of_finds {a : Answer} (hlogin : ¬IsLogin request) (h : Finds s request a) :
    a.asked = [] := by
  cases h with
  | preflight | unknown | unserved => rfl
  | handled hroute h => exact asked_of_handles h (asksFor_ne_login hlogin hroute)

/-- No request but a login asks the verifier. -/
theorem asked_of_not_isLogin (s : Site) (hlogin : ¬IsLogin request) :
    (s.answer request).asked = [] := by
  rw [Site.asked_answer]
  exact asked_of_finds hlogin (finds s request)

/-- The answer to a body depends on the verifier only in what it says about the identifiers that it
is asked about. -/
theorem answerBody_congr {settings : Settings} {v w : Verifier}
    (h : ∀ identifier ∈ (Site.answerBody ⟨settings, w⟩ body).asked, v.AgreesOn w identifier) :
    Site.answerBody ⟨settings, v⟩ body = Site.answerBody ⟨settings, w⟩ body := by
  unfold Site.answerBody at h ⊢
  cases hread : identifier body with
  | error fault => rfl
  | ok identifier =>
    rw [hread] at h
    obtain ⟨hverify, hlog⟩ := h identifier List.mem_cons_self
    dsimp only
    rw [Site.answerIdentifier, Site.answerIdentifier, hverify, hlog]
    rfl

/-- The answer to a login depends on the verifier only in what it says about the identifiers that it
is asked about. -/
theorem answerLogin_congr {settings : Settings} {v w : Verifier}
    (h : ∀ identifier ∈ (Site.answerLogin ⟨settings, w⟩ body).asked, v.AgreesOn w identifier) :
    Site.answerLogin ⟨settings, v⟩ body = Site.answerLogin ⟨settings, w⟩ body := by
  unfold Site.answerLogin at h ⊢
  by_cases hlength : bodyLimit < body.length
  · rw [if_pos hlength, if_pos hlength]
  · rw [if_neg hlength] at h
    rw [if_neg hlength, if_neg hlength]
    exact answerBody_congr h

/-- An answer depends on the verifier only in what it says about the identifiers that it is asked
about. -/
theorem answer_congr_verifier (s : Site) {v : Verifier}
    (h : ∀ identifier ∈ (s.answer request).asked, v.AgreesOn s.verifier identifier) :
    Site.answer ⟨s.settings, v⟩ request = s.answer request := by
  have hfound : Site.found ⟨s.settings, v⟩ request = s.found request := by
    by_cases hlogin : IsLogin request
    · have hroute := isLogin_iff.mp hlogin
      rw [Site.asked_answer, Site.found_of_asksFor s hroute] at h
      rw [Site.found_of_asksFor s hroute, Site.found_of_asksFor _ hroute]
      exact answerLogin_congr h
    · exact found_congr hlogin request.body
  exact Site.answer_congr hfound rfl rfl

/-- The identifier that a request submits, if it is a login whose body carries one. -/
def submitted? (request : Request) : Option String :=
  if IsLogin request ∧ request.body.length ≤ bodyLimit then (identifier request.body).toOption
  else none

/-- A request that submits an identifier asks the verifier about it, and no other request asks. -/
theorem asked_eq_submitted? (s : Site) (request : Request) :
    (s.answer request).asked = (submitted? request).toList := by
  unfold submitted?
  by_cases hlogin : IsLogin request
  · obtain ⟨outcome, ⟨harises, hshown⟩, -⟩ := existsUnique_outcome s hlogin
    cases harises with
    | tooLong hlength =>
      rw [if_neg (fun h => absurd hlength (Nat.not_lt.mpr h.2))]
      cases hshown with
      | tooLong _ _ _ hasked => exact hasked
    | malformed hlength hread =>
      obtain ⟨fault, hfault, -⟩ := hread
      rw [if_pos ⟨hlogin, hlength⟩, hfault]
      cases hshown with
      | malformed _ hasked => exact hasked
    | refused hlength hread =>
      rw [if_pos ⟨hlogin, hlength⟩, hread]
      cases hshown with
      | refused _ hasked => exact hasked
    | accepted hlength hread =>
      rw [if_pos ⟨hlogin, hlength⟩, hread]
      cases hshown with
      | accepted _ _ hasked => exact hasked
  · rw [if_neg (fun h => hlogin h.1)]
    exact asked_of_not_isLogin s hlogin

/-- On every site a login with the body asks the verifier about the identifier, and about nothing
else. -/
def Submits (body : Bytes) (found : String) : Prop :=
  ∀ (s : Site) (request : Request), IsLogin request → request.body = body →
    (s.answer request).asked = [found]

/-- What a body submits is the identifier that it is read as, if it is not too long. -/
theorem submits_iff {found : String} :
    Submits body found ↔ body.length ≤ bodyLimit ∧ identifier body = .ok found := by
  constructor
  · intro h
    have hpath : (Uri.ofString "/api/login").path = "/api/login" := by decide
    have hlogin : IsLogin ⟨"POST", "/api/login", body⟩ := ⟨rfl, hpath⟩
    have hasked := h ⟨⟨3000, none, none, ""⟩, .sentinel⟩ _ hlogin rfl
    rw [asked_eq_submitted?, submitted?] at hasked
    split at hasked
    · next hread =>
      refine ⟨hread.2, ?_⟩
      dsimp only at hasked
      cases hidentifier : identifier body with
      | error fault =>
        rw [hidentifier] at hasked
        cases hasked
      | ok other =>
        rw [hidentifier] at hasked
        cases hasked
        rfl
    · cases hasked
  · rintro ⟨hlength, hread⟩ s request hlogin rfl
    rw [asked_eq_submitted?, submitted?, if_pos ⟨hlogin, hlength⟩, hread]
    rfl

/-- Over a sequence of requests the verifier is asked about the identifiers that they submit, each
once and in their order. -/
theorem flatMap_asked (s : Site) (requests : List Request) :
    (requests.map s.answer).flatMap Answer.asked = requests.filterMap submitted? := by
  induction requests with
  | nil => rfl
  | cons request requests ih =>
    rw [List.map_cons, List.flatMap_cons, asked_eq_submitted?, ih]
    cases hsubmitted : submitted? request with
    | none => rw [List.filterMap_cons_none hsubmitted]; rfl
    | some identifier => rw [List.filterMap_cons_some hsubmitted]; rfl

/-- What holds of the answer to a request. -/
structure Settled (s : Site) (request : Request) (a : Answer) : Prop where
  /-- A login has exactly one outcome, and the answer shows it. -/
  login : IsLogin request →
    ∃! outcome : Outcome, outcome.Arises s request.body ∧ outcome.ShownBy s a
  /-- A body that is too long is not read. -/
  unread : IsLogin request → bodyLimit < request.body.length →
    ∀ other : Bytes, bodyLimit < other.length → s.answer { request with body := other } = a
  /-- Any other request asks no verifier, and its body does not matter. -/
  other : ¬IsLogin request → a.asked = [] ∧ ∀ body, s.answer { request with body := body } = a
  /-- The verifier matters only in what it says about the identifiers that it is asked about. -/
  consults : ∀ v : Verifier, (∀ identifier ∈ a.asked, v.AgreesOn s.verifier identifier) →
    Site.answer ⟨s.settings, v⟩ request = a

/-- Every request of a sequence is settled on its own, and the verifier is asked about the
identifiers that the logins of the sequence submit, each once and in their order. -/
theorem sequence_settled (s : Site) (requests : List Request) :
    List.Forall₂ (Settled s) requests (requests.map s.answer) ∧
      (requests.map s.answer).flatMap Answer.asked = requests.filterMap submitted? := by
  refine ⟨?_, flatMap_asked s requests⟩
  rw [List.forall₂_map_right_iff, List.forall₂_same]
  intro request _
  constructor
  · intro hlogin
    exact existsUnique_outcome s hlogin
  · intro hlogin hlength other hother
    exact answer_of_tooLong s hlogin hlength hother
  · intro hlogin
    have hbody : ∀ body, s.answer { request with body := body } = s.answer request :=
      fun body => Site.answer_congr (found_congr hlogin body) rfl rfl
    exact ⟨asked_of_not_isLogin s hlogin, hbody⟩
  · intro v hagrees
    exact answer_congr_verifier s hagrees

end Login

end LoginService
