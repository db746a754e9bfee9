import LoginService.Proofs.Json.Writer
import LoginService.Proofs.Site.Handlers

/-!
# JSON answers

Every JSON answer of the site is the text of an object that consists of the data to be told and of
nothing else: the two settings of the identity provider, the target of an accepted login, or the
status and the wording of an error. The text is read back as that object, whatever characters the
settings consist of, so answers with different data have different bodies.
-/

namespace LoginService

open Http Json

/-- No error has the status of a success. -/
theorem ApiError.status_ne_ok (e : ApiError) : e.status ≠ .ok := by
  cases e <;> decide

/-- The members that an answer to a request for a path should carry. -/
inductive Carried (s : Site) (path : String) (a : Answer) : List (String × Value) → Prop where
  /-- The public configuration tells the two settings of the identity provider. -/
  | config {apiKey authDomain : String} (hpath : path = "/api/config.json")
      (hstatus : a.response.status = .ok) (hkey : s.settings.apiKey = some apiKey)
      (hdomain : s.settings.authDomain = some authDomain) :
      Carried s path a [("apiKey", .string apiKey), ("authDomain", .string authDomain)]
  /-- An accepted login tells where it leads. -/
  | redirect {identifier : String} (hpath : path = "/api/login")
      (hstatus : a.response.status = .ok) (hverified : a.verified = some identifier)
      (haccepts : s.verifier.accepts identifier) :
      Carried s path a [("url", .string s.settings.redirectUrl)]
  /-- An error, which is reported last, tells the status of the response and its wording. -/
  | error {e : ApiError} (hstatus : a.response.status = e.status)
      (hlog : a.log.getLast? = some (.failed e)) :
      Carried s path a [("statusCode", .number (.integer a.response.status.code)),
        ("statusMessage", .string e.message)]

variable {s : Site} {path : String} {a : Answer} {members : List (String × Value)}

namespace Carried

/-- An answer carries one object only. -/
theorem unique {found : List (String × Value)} (hmembers : Carried s path a members)
    (hfound : Carried s path a found) : found = members := by
  cases hmembers with
  | config hpath hstatus hkey hdomain =>
    cases hfound with
    | config hpath' hstatus' hkey' hdomain' =>
      cases hkey.symm.trans hkey'
      cases hdomain.symm.trans hdomain'
      rfl
    | redirect hpath' => exact absurd (hpath.symm.trans hpath') (by decide)
    | error hstatus' => exact absurd (hstatus'.symm.trans hstatus) (ApiError.status_ne_ok _)
  | redirect hpath hstatus =>
    cases hfound with
    | config hpath' => exact absurd (hpath.symm.trans hpath') (by decide)
    | redirect => rfl
    | error hstatus' => exact absurd (hstatus'.symm.trans hstatus) (ApiError.status_ne_ok _)
  | error hstatus hlog =>
    cases hfound with
    | config hpath' hstatus' => exact absurd (hstatus.symm.trans hstatus') (ApiError.status_ne_ok _)
    | redirect hpath' hstatus' =>
      exact absurd (hstatus.symm.trans hstatus') (ApiError.status_ne_ok _)
    | error hstatus' hlog' =>
      cases hlog.symm.trans hlog'
      rfl

/-- The text of what an answer carries is read back. -/
theorem writtenBy_text (h : Carried s path a members) :
    (Value.object members).WrittenBy (Value.object members).text.toList := by
  apply Value.writtenBy_text
  · cases h with
    | config => exact ⟨trivial, trivial, trivial⟩
    | redirect => exact ⟨trivial, trivial⟩
    | error =>
      refine ⟨Number.readsBack_integer ?_ ?_, trivial, trivial⟩ <;>
        cases a.response.status <;> decide
  · cases h <;> simp [Value.depth, Value.membersDepth]

/-- No object that an answer carries begins with the reserved name of embedded texts. -/
theorem plain (h : Carried s path a members) : (Value.object members).Plain := by
  cases h <;> simp [Value.Plain, Value.MembersPlain, Reserved, embeddedName]

/-- Reports before an answer do not change what it carries. -/
theorem after (log : List Event) (h : Carried s path a members) :
    Carried s path (a.after log) members := by
  cases h with
  | config hpath hstatus hkey hdomain => exact .config hpath hstatus hkey hdomain
  | redirect hpath hstatus hverified haccepts =>
    exact .redirect hpath hstatus hverified haccepts
  | error hstatus hlog =>
    refine .error (a := a.after log) hstatus ?_
    rw [Answer.after, List.getLast?_append, hlog]
    rfl

end Carried

/-- An answer is not JSON, or it is the text of what it should carry. -/
def Documents (s : Site) (path : String) (a : Answer) : Prop :=
  a.response.headers.value? .contentType = some "application/json" →
    ∃ members, Carried s path a members ∧ a.response.body = (Value.object members).text

/-- The public configuration consists of the two settings of the identity provider. -/
theorem settings_of_publicConfig? {settings : Settings} {config : PublicConfig}
    (h : settings.publicConfig? = some config) :
    settings.apiKey = some config.apiKey ∧ settings.authDomain = some config.authDomain := by
  simp only [Settings.publicConfig?, Settings.nonEmpty?, Option.bind_eq_bind,
    Option.bind_eq_some_iff, Option.filter_eq_some_iff, Option.pure_def, Option.some.injEq] at h
  obtain ⟨apiKey, ⟨hkey, -⟩, authDomain, ⟨hdomain, -⟩, rfl⟩ := h
  exact ⟨hkey, hdomain⟩

namespace Documents

/-- Reports before an answer do not change what it documents. -/
theorem after (log : List Event) (h : Documents s path a) : Documents s path (a.after log) := by
  intro hjson
  obtain ⟨members, hcarried, hbody⟩ := h hjson
  exact ⟨members, hcarried.after log, hbody⟩

/-- Plain text is not JSON. -/
theorem text (s : Site) (path : String) (status : Status) (body : String) :
    Documents s path (.silent (.text status body)) :=
  fun hjson => absurd (Option.some.inj hjson) (by decide)

/-- An error documents its status and its wording. -/
theorem error (s : Site) (path : String) (e : ApiError) : Documents s path (.error e) :=
  fun _ => ⟨_, .error (e := e) rfl rfl, rfl⟩

/-- An error after asking the verifier documents its status and its wording. -/
theorem refusal (s : Site) (path identifier : String) (log : List Event) (e : ApiError) :
    Documents s path (((Answer.error e).after log).asking identifier) := by
  intro _
  refine ⟨_, .error (e := e) rfl ?_, rfl⟩
  exact List.getLast?_concat

/-- Every answer of a resource documents what it carries. -/
theorem of_handles {body : Bytes} {route : Route} (h : Handles s body route a) :
    Documents s route.path a := by
  cases h with
  | health | tooLong => exact text s _ _ _
  | config hconfig =>
    obtain ⟨hkey, hdomain⟩ := settings_of_publicConfig? hconfig
    intro _
    exact ⟨_, .config rfl rfl hkey hdomain, rfl⟩
  | unconfigured => exact (error s _ _).after _
  | malformed => exact ((error s _ _).after _).after _
  | refused => exact (refusal s _ _ _ _).after _
  | accepted _ _ haccepted =>
    intro _
    exact ⟨_, .redirect rfl rfl rfl haccepted, rfl⟩

/-- Every answer that is found documents what it carries. -/
theorem of_finds {request : Request} (h : Finds s request a) : Documents s request.path a := by
  cases h with
  | preflight | unknown | unserved =>
    intro hjson
    cases hjson
  | handled hroute h =>
    rw [hroute.1]
    exact of_handles h

/-- Every answer to a method other than `HEAD` documents what it carries. -/
theorem answer (s : Site) {request : Request} (hmethod : request.method ≠ "HEAD") :
    Documents s (Uri.ofString request.target).path (s.answer request) := by
  intro hjson
  rw [Site.contentType_answer] at hjson
  obtain ⟨members, hcarried, hbody⟩ := of_finds (finds s request) hjson
  refine ⟨members, ?_, by rw [Site.body_answer s hmethod, hbody]⟩
  have hstatus := Site.status_answer s request
  cases hcarried with
  | config hpath hok hkey hdomain => exact .config hpath (hstatus.trans hok) hkey hdomain
  | redirect hpath hok hverified haccepts =>
    exact .redirect hpath (hstatus.trans hok) hverified haccepts
  | error herror hlog =>
    rw [← hstatus]
    exact .error (hstatus.trans herror) hlog

end Documents

/-- A JSON answer is the text of one object, which consists of what the answer carries. It is read
back as that object, and no other JSON answer with the same body carries anything else. -/
theorem json_answer (s : Site) {request : Request} (hmethod : request.method ≠ "HEAD")
    (hjson : (s.answer request).response.headers.value? .contentType = some "application/json") :
    ∃ members, Carried s (Uri.ofString request.target).path (s.answer request) members ∧
      (∀ v : Value, v.WrittenBy (s.answer request).response.body.toList ↔ v = .object members) ∧
      Value.ofBytes? (Utf8.encode (s.answer request).response.body) = some (.object members) ∧
      ∀ (t : Site) (other : Request), other.method ≠ "HEAD" →
        (t.answer other).response.headers.value? .contentType = some "application/json" →
        (t.answer other).response.body = (s.answer request).response.body →
          ∀ found, Carried t (Uri.ofString other.target).path (t.answer other) found →
            found = members := by
  obtain ⟨members, hcarried, hbody⟩ := Documents.answer s hmethod hjson
  have hwritten := hcarried.writtenBy_text
  rw [← hbody] at hwritten
  refine ⟨members, hcarried, ?_, ?_, ?_⟩
  · intro v
    constructor
    · intro hv
      exact hv.unique hwritten
    · rintro rfl
      exact hwritten
  · exact Value.ofBytes?_eq_some_iff.mpr
      ⟨_, Value.encodedBy_encode.mpr hwritten, hcarried.plain.resolves⟩
  · intro t other hother hotherJson heq found hfound
    obtain ⟨others, hothers, hotherBody⟩ := Documents.answer t hother hotherJson
    have hotherWritten := hothers.writtenBy_text
    rw [← hotherBody, heq] at hotherWritten
    rw [hothers.unique hfound]
    exact Value.object.inj (hotherWritten.unique hwritten)

/-- A site whose settings need escapes. -/
def escapingSite : Site :=
  ⟨⟨3000, some "quote \" and backslash \\", some "line\nfeed", "https://example.com"⟩, .sentinel⟩

/-- The configuration of that site is read back. -/
theorem json_answer_escapingSite :
    "GET" ≠ "HEAD" ∧
      (escapingSite.answer ⟨"GET", "/api/config.json", []⟩).response.headers.value? .contentType =
        some "application/json" ∧
      ∀ v : Value, v.WrittenBy
          (escapingSite.answer ⟨"GET", "/api/config.json", []⟩).response.body.toList ↔
        v = .object [("apiKey", .string "quote \" and backslash \\"),
          ("authDomain", .string "line\nfeed")] := by
  have hmethod : "GET" ≠ "HEAD" := by decide
  have hjson : (escapingSite.answer ⟨"GET", "/api/config.json", []⟩).response.headers.value?
      .contentType = some "application/json" := by decide
  obtain ⟨members, hcarried, hwritten, -⟩ := json_answer escapingSite hmethod hjson
  have hmembers := hcarried.unique (.config (by decide) (by decide) rfl rfl)
  rw [hmembers]
  exact ⟨hmethod, hjson, hwritten⟩

end LoginService
