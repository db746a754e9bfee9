import LoginService.Proofs.Login.Outcome
import LoginService.Proofs.Json.Writer

/-!
# What is reported about a request

The log of an answer and its response tell the same story. A failure is reported if and only if the
response is an error, and it is reported once, last, and with the status and the wording of the
response. Every other event is reported for one reason only, and its place in the log is fixed.
-/

namespace LoginService

open Http Json Login

namespace Event

/-- A failure is not worded like an unreadable body. -/
theorem failed_ne_unreadable (e : ApiError) :
    statusLine e.status ++ ", " ++ e.message ≠ "unreadable login body" := by
  cases e <;> decide

/-- Refused settings are not worded like missing ones. -/
theorem refused_ne_missing (e : SettingsError) :
    "Error loading settings: " ++ e.message ≠ missingSettings := by
  intro h
  have hhead := congrArg (·.toList.head?) h
  simp [missingSettings] at hhead

/-- The port is not worded like the end. -/
theorem listening_ne_shuttingDown (port : String) :
    "listening on http://0.0.0.0:" ++ port ≠ "shutting down" := by
  intro h
  have hhead := congrArg (·.toList.head?) h
  simp at hhead

/-- Refused settings are told apart by their wording. -/
theorem refused_injective {e other : SettingsError} (h : e.message = other.message) :
    e = other := by
  obtain ⟨text⟩ := e
  obtain ⟨otherText⟩ := other
  have htext : "PORT is not a valid port number: " ++ text =
      "PORT is not a valid port number: " ++ otherText := h
  rw [String.append_right_inj] at htext
  rw [htext]

/-- Ports are told apart by their digits. -/
theorem listening_injective {port other : UInt16}
    (h : (listening port).record = (listening other).record) : port = other := by
  have hmessage : "listening on http://0.0.0.0:" ++ port.toNat.repr =
      "listening on http://0.0.0.0:" ++ other.toNat.repr := congrArg Record.message h
  rw [String.append_right_inj] at hmessage
  have hdigits : Nat.toDigits 10 port.toNat = Nat.toDigits 10 other.toNat :=
    String.ofList_injective hmessage
  have hvalue := congrArg (Nat.ofDigitChars 10 · 0) hdigits
  simpa only [Nat.ofDigitChars_ten_toDigits, UInt16.toNat_inj] using hvalue

/-- Failures are told apart by their wording. -/
theorem failed_injective {e other : ApiError}
    (h : statusLine e.status ++ ", " ++ e.message =
      statusLine other.status ++ ", " ++ other.message) : e = other := by
  cases e <;> cases other <;> first | rfl | exact absurd h (by decide)

/-- Events are told apart by their records. -/
theorem record_injective : Function.Injective record := by
  intro event other h
  cases event <;> cases other <;> simp_all [record]
  case unreadableBody.failed e => exact failed_ne_unreadable e h.symm
  case failed.unreadableBody e => exact failed_ne_unreadable e h
  case configurationMissing.settingsRefused e => exact refused_ne_missing e h.symm
  case settingsRefused.configurationMissing e => exact refused_ne_missing e h
  case listening.shuttingDown port => exact listening_ne_shuttingDown port.toNat.repr h
  case shuttingDown.listening port => exact listening_ne_shuttingDown port.toNat.repr h.symm
  case failed.failed => exact failed_injective h
  case settingsRefused.settingsRefused => exact refused_injective h
  case listening.listening port other => exact listening_injective (by simp only [record, h])

end Event

/-- A fault is reported if the body is unreadable. -/
theorem Login.Fault.mem_log_iff {fault : Fault} {event : Event} :
    event ∈ fault.log ↔ fault = .unreadable ∧ event = .unreadableBody := by
  cases fault <;> simp [Fault.log]

/-- A refusal is reported by the sentinel, with the identifier. -/
theorem Verifier.mem_refusalLog_iff {v : Verifier} {identifier : String} {event : Event} :
    event ∈ v.refusalLog identifier ↔ v = .sentinel ∧ event = .rejectedIdentifier identifier := by
  cases v <;> simp [refusalLog]

variable {s : Site} {request : Request} {body : Bytes} {route : Route} {a : Answer}

/-- How an answer ends: well, and no failure is reported, or with an error that is reported last. -/
inductive Answer.Ends (a : Answer) : Prop where
  | well (hlog : ∀ e, .failed e ∉ a.log) (hclient : a.response.status ≠ .badRequest)
      (hservice : a.response.status ≠ .internalServerError)
  | failed {e : ApiError} {before : List Event} (hlog : a.log = before ++ [.failed e])
      (hbefore : ∀ other, .failed other ∉ before) (hresponse : a.response = e.response)

/-- Reports of other events do not change how an answer ends. -/
theorem Answer.Ends.after {log : List Event} (h : a.Ends) (hlog : ∀ e, .failed e ∉ log) :
    (a.after log).Ends := by
  cases h with
  | well hnone hclient hservice =>
    refine .well (fun e he => ?_) hclient hservice
    rcases List.mem_append.mp he with he | he
    · exact hlog e he
    · exact hnone e he
  | @failed e before hlast hbefore hresponse =>
    have hlonger : (a.after log).log = (log ++ before) ++ [.failed e] := by
      rw [Answer.log_after, hlast, List.append_assoc]
    refine .failed hlonger (fun other hother => ?_) hresponse
    rcases List.mem_append.mp hother with hother | hother
    · exact hlog other hother
    · exact hbefore other hother

/-- Asking the verifier does not change how an answer ends. -/
theorem Answer.Ends.asking {identifier : String} (h : a.Ends) : (a.asking identifier).Ends := by
  cases h with
  | well hnone hclient hservice => exact .well hnone hclient hservice
  | failed hlast hbefore hresponse => exact .failed hlast hbefore hresponse

/-- A reported failure is the last event and the only one of its kind, and it is the error of the
response. -/
theorem Answer.Ends.of_failed_mem {e : ApiError} (h : a.Ends) (he : .failed e ∈ a.log) :
    (∃ before, a.log = before ++ [.failed e] ∧ ∀ other, .failed other ∉ before) ∧
      a.response = e.response := by
  cases h with
  | well hnone => exact absurd he (hnone e)
  | @failed other before hlog hbefore hresponse =>
    rw [hlog, List.mem_append, List.mem_singleton] at he
    rcases he with he | he
    · exact absurd he (hbefore e)
    · cases he
      exact ⟨⟨before, hlog, hbefore⟩, hresponse⟩

/-- A failure is reported if and only if the response is an error. -/
theorem Answer.Ends.exists_failed_iff (h : a.Ends) : (∃ e, .failed e ∈ a.log) ↔
    a.response.status = .badRequest ∨ a.response.status = .internalServerError := by
  constructor
  · rintro ⟨e, he⟩
    rw [(h.of_failed_mem he).2]
    cases e
    · exact .inl rfl
    · exact .inl rfl
    · exact .inr rfl
  · intro herror
    cases h with
    | well _ hclient hservice =>
      rcases herror with herror | herror
      · exact absurd herror hclient
      · exact absurd herror hservice
    | @failed e _ hlog =>
      refine ⟨e, ?_⟩
      rw [hlog]
      exact List.mem_append_right _ List.mem_cons_self

/-- An error is reported last. -/
theorem Answer.ends_error (e : ApiError) : (Answer.error e).Ends := by
  have hlog : (Answer.error e).log = [] ++ [.failed e] := rfl
  exact .failed hlog (fun other => List.not_mem_nil) rfl

/-- Every answer of a resource ends well or with a reported error. -/
theorem Handles.ends (h : Handles s body route a) : a.Ends := by
  cases h with
  | health | config | tooLong => exact .well (fun e => by simp) (by simp) (by simp)
  | accepted => exact .well (fun e => by simp) (by simp) (by simp)
  | unconfigured => exact (Answer.ends_error _).after (by simp)
  | malformed => exact ((Answer.ends_error _).after (by simp [Fault.mem_log_iff])).after (by simp)
  | refused =>
    refine Answer.Ends.after (Answer.Ends.asking ?_) (by simp)
    exact (Answer.ends_error _).after (by simp [Verifier.mem_refusalLog_iff])

/-- Every answer that is found ends well or with a reported error. -/
theorem Finds.ends (h : Finds s request a) : a.Ends := by
  cases h with
  | preflight =>
    exact .well (fun e => by simp [Site.preflight]) (by simp [Site.preflight])
      (by simp [Site.preflight])
  | unknown | unserved => exact .well (fun e => by simp) (by simp) (by simp)
  | handled _ h => exact h.ends

/-- A login is reported with its body, unless the body is too long. -/
theorem Handles.loginRequest_mem_iff (h : Handles s body route a) {text : String} :
    .loginRequest text ∈ a.log ↔
      (route = .login ∧ body.length ≤ bodyLimit) ∧ text = Utf8.decodeLossy body := by
  cases h with
  | health | config | unconfigured => simp
  | tooLong hlength => simp [Nat.not_le.mpr hlength]
  | malformed hlength => simp [hlength, Fault.mem_log_iff]
  | refused hlength => simp [hlength, Verifier.mem_refusalLog_iff]
  | accepted hlength => simp [hlength]

/-- A body is reported as unreadable if it is read and found so. -/
theorem Handles.unreadableBody_mem_iff (h : Handles s body route a) :
    .unreadableBody ∈ a.log ↔
      (route = .login ∧ body.length ≤ bodyLimit) ∧ identifier body = .error .unreadable := by
  cases h with
  | health | config | unconfigured => simp
  | tooLong hlength => simp [Nat.not_le.mpr hlength]
  | malformed hlength hread => simp [hlength, hread, Fault.mem_log_iff]
  | refused hlength hread => simp [hlength, hread, Verifier.mem_refusalLog_iff]
  | accepted hlength hread => simp [hlength, hread]

/-- An identifier is reported as rejected if the sentinel was asked about it and refused it. -/
theorem Handles.rejectedIdentifier_mem_iff (h : Handles s body route a) {found : String} :
    .rejectedIdentifier found ∈ a.log ↔
      s.verifier = .sentinel ∧ a.verified = some found ∧ ¬s.verifier.accepts found := by
  cases h with
  | health | config | unconfigured | tooLong => simp
  | malformed => simp [Fault.mem_log_iff]
  | @refused identifier _ _ hrefused =>
    have hmem : .rejectedIdentifier found ∈ s.verifier.refusalLog identifier ↔
        s.verifier = .sentinel ∧ identifier = found ∧ ¬s.verifier.accepts found := by
      rw [Verifier.mem_refusalLog_iff]
      constructor
      · rintro ⟨hsentinel, heq⟩
        cases heq
        exact ⟨hsentinel, rfl, hrefused⟩
      · rintro ⟨hsentinel, rfl, -⟩
        exact ⟨hsentinel, rfl⟩
    simpa using hmem
  | @accepted identifier _ _ haccepted =>
    have hnone : ¬(s.verifier = .sentinel ∧ identifier = found ∧ ¬s.verifier.accepts found) := by
      rintro ⟨-, rfl, hrefused⟩
      exact hrefused haccepted
    simpa using hnone

/-- Missing settings are reported if and only if the service fails, just before the failure. -/
theorem Handles.configurationMissing_mem_iff (h : Handles s body route a) :
    .configurationMissing ∈ a.log ↔ a.response.status = .internalServerError := by
  cases h with
  | health | config | unconfigured | tooLong | accepted => simp [ApiError.response, ApiError.status]
  | malformed => simp [Fault.mem_log_iff, ApiError.response, ApiError.status]
  | refused => simp [Verifier.mem_refusalLog_iff, ApiError.response, ApiError.status]

/-- Missing settings are reported just before the failure. -/
theorem Handles.log_of_configurationMissing (h : Handles s body route a)
    (hmem : .configurationMissing ∈ a.log) :
    a.log = [.configurationMissing, .failed .configurationMissing] := by
  cases h with
  | unconfigured => rfl
  | health | config | tooLong | accepted => simp at hmem
  | malformed => simp [Fault.mem_log_iff] at hmem
  | refused => simp [Verifier.mem_refusalLog_iff] at hmem

/-- A login is reported first, and once. -/
theorem Handles.log_of_loginRequest (h : Handles s body route a) {text : String}
    (hmem : .loginRequest text ∈ a.log) :
    ∃ rest, a.log = .loginRequest text :: rest ∧ ∀ other, .loginRequest other ∉ rest := by
  rw [(h.loginRequest_mem_iff.mp hmem).2]
  cases h with
  | health | config | unconfigured | tooLong => simp at hmem
  | malformed => exact ⟨_, rfl, fun other => by simp [Fault.mem_log_iff]⟩
  | refused => exact ⟨_, rfl, fun other => by simp [Verifier.mem_refusalLog_iff]⟩
  | accepted => exact ⟨_, rfl, fun other => by simp⟩

/-- No resource reports a preflight request. -/
theorem Handles.preflight_notMem (h : Handles s body route a) (target : String) :
    .preflight target ∉ a.log := by
  cases h with
  | health | config | unconfigured | tooLong | accepted => simp
  | malformed => simp [Fault.mem_log_iff]
  | refused => simp [Verifier.mem_refusalLog_iff]

/-- Of the requests that ask for a resource, logins ask for the login. -/
theorem isLogin_iff_of_asksFor (hroute : request.AsksFor route) :
    IsLogin request ↔ route = .login := by
  constructor
  · intro hlogin
    exact Route.path_injective (hroute.1.symm.trans (isLogin_iff.mp hlogin).1)
  · rintro rfl
    exact isLogin_iff.mpr hroute

/-- An answer of which something is reported was given by a resource, or to a preflight request. -/
theorem Finds.handles_of_mem (h : Finds s request a) {event : Event} (hmem : event ∈ a.log) :
    (request.method = "OPTIONS" ∧ a.log = [.preflight (Uri.ofString request.target).text]) ∨
      ∃ route, request.AsksFor route ∧ Handles s request.body route a := by
  cases h with
  | preflight hmethod => exact .inl ⟨hmethod, rfl⟩
  | unknown | unserved => cases hmem
  | handled hroute h => exact .inr ⟨_, hroute, h⟩

/-- The answer that is found for a login is one of those of the login. -/
theorem Finds.handles_of_isLogin (h : Finds s request a) (hlogin : IsLogin request) :
    Handles s request.body .login a := by
  have hroute := isLogin_iff.mp hlogin
  cases h with
  | preflight hmethod => exact absurd hmethod hroute.ne_options
  | unknown _ hpath => exact absurd hroute.1 (hpath .login)
  | unserved _ hpath hserved =>
    rw [← Route.path_injective (hroute.1.symm.trans hpath)] at hserved
    exact absurd hroute.2 hserved
  | handled hother h =>
    rw [(isLogin_iff_of_asksFor hother).mp hlogin] at h
    exact h

/-- An event that only the login reports is reported of logins. -/
theorem Finds.isLogin_of_mem (h : Finds s request a) {event : Event} (hmem : event ∈ a.log)
    (hpreflight : ∀ target, event ≠ .preflight target)
    (hreports : ∀ route, Handles s request.body route a → route = .login) : IsLogin request := by
  rcases h.handles_of_mem hmem with ⟨-, hlog⟩ | ⟨route, hroute, hhandles⟩
  · rw [hlog] at hmem
    exact absurd (List.mem_singleton.mp hmem) (hpreflight _)
  · exact (isLogin_iff_of_asksFor hroute).mpr (hreports route hhandles)

/-- Logins are reported with their body, unless it is too long, and no other request is. -/
theorem Finds.loginRequest_mem_iff (h : Finds s request a) {text : String} :
    .loginRequest text ∈ a.log ↔
      (IsLogin request ∧ request.body.length ≤ bodyLimit) ∧
        text = Utf8.decodeLossy request.body := by
  constructor
  · intro hmem
    have hlogin := h.isLogin_of_mem hmem (by simp)
      fun route hhandles => (hhandles.loginRequest_mem_iff.mp hmem).1.1
    have hreported := (h.handles_of_isLogin hlogin).loginRequest_mem_iff.mp hmem
    exact ⟨⟨hlogin, hreported.1.2⟩, hreported.2⟩
  · rintro ⟨⟨hlogin, hlength⟩, rfl⟩
    exact (h.handles_of_isLogin hlogin).loginRequest_mem_iff.mpr ⟨⟨rfl, hlength⟩, rfl⟩

/-- A body is reported as unreadable if it is that of a login and stands for nothing. -/
theorem Finds.unreadableBody_mem_iff (h : Finds s request a) :
    .unreadableBody ∈ a.log ↔
      (IsLogin request ∧ request.body.length ≤ bodyLimit) ∧
        ¬∃ v w : Value, v.EncodedBy request.body ∧ v.Resolves w := by
  rw [← identifier_eq_unreadable_iff]
  constructor
  · intro hmem
    have hlogin := h.isLogin_of_mem hmem (by simp)
      fun route hhandles => (hhandles.unreadableBody_mem_iff.mp hmem).1.1
    have hreported := (h.handles_of_isLogin hlogin).unreadableBody_mem_iff.mp hmem
    exact ⟨⟨hlogin, hreported.1.2⟩, hreported.2⟩
  · rintro ⟨⟨hlogin, hlength⟩, hread⟩
    exact (h.handles_of_isLogin hlogin).unreadableBody_mem_iff.mpr ⟨⟨rfl, hlength⟩, hread⟩

/-- An identifier is reported as rejected if the sentinel was asked about it and refused it. -/
theorem Finds.rejectedIdentifier_mem_iff (h : Finds s request a) {found : String} :
    .rejectedIdentifier found ∈ a.log ↔
      s.verifier = .sentinel ∧ a.verified = some found ∧ ¬s.verifier.accepts found := by
  cases h with
  | preflight => simp [Site.preflight]
  | unknown | unserved => simp
  | handled _ h => exact h.rejectedIdentifier_mem_iff

/-- Missing settings are reported if and only if the service fails. -/
theorem Finds.configurationMissing_mem_iff (h : Finds s request a) :
    .configurationMissing ∈ a.log ↔ a.response.status = .internalServerError := by
  cases h with
  | preflight => simp [Site.preflight]
  | unknown | unserved => simp
  | handled _ h => exact h.configurationMissing_mem_iff

/-- A preflight request is reported alone, with its target. -/
theorem Finds.preflight_mem_iff (h : Finds s request a) {target : String} :
    .preflight target ∈ a.log ↔
      request.method = "OPTIONS" ∧ target = (Uri.ofString request.target).text := by
  cases h with
  | preflight hmethod => simp [Site.preflight, hmethod]
  | unknown hmethod | unserved hmethod => simp [hmethod]
  | handled hroute h => simp [hroute.ne_options, h.preflight_notMem]

/-- An error document writes the number of the status and the wording of the error, and nothing
else. -/
theorem ApiError.writtenBy_text_iff (e : ApiError) (v : Value) :
    v.WrittenBy e.toValue.text.toList ↔
      v = .object [("statusCode", .number (.integer e.status.code)),
        ("statusMessage", .string e.message)] := by
  have hnumbers : e.toValue.NumbersReadBack := by
    refine ⟨Number.readsBack_integer ?_ ?_, trivial, trivial⟩ <;> cases e <;> decide
  have hwritten : e.toValue.WrittenBy e.toValue.text.toList :=
    Value.writtenBy_text hnumbers (by cases e <;> decide)
  constructor
  · intro hv
    exact hv.unique hwritten
  · rintro rfl
    exact hwritten

/-- What the log of an answer tells, unreadable bodies apart. -/
structure LogConsistent (s : Site) (request : Request) (a : Answer) : Prop where
  /-- The records of the log are those of its events and of no others. -/
  records : ∀ event : Event, event.record ∈ a.log.map Event.record ↔ event ∈ a.log
  /-- A failure is reported if and only if the response is an error. -/
  failed_iff : (∃ e, .failed e ∈ a.log) ↔
    a.response.status = .badRequest ∨ a.response.status = .internalServerError
  /-- It is reported last, and once. -/
  failed_last : ∀ e, .failed e ∈ a.log →
    ∃ before, a.log = before ++ [.failed e] ∧ ∀ other, .failed other ∉ before
  /-- It tells the status of the response. -/
  failed_record : ∀ e, .failed e ∈ a.log → (Event.failed e).record = ⟨.debug,
    a.response.status.code.repr ++ " " ++ a.response.status.reason ++ ", " ++ e.message, []⟩
  /-- The body, which `HEAD` leaves out, tells the same status and the same wording. -/
  failed_body : ∀ e, .failed e ∈ a.log →
    if request.method = "HEAD" then a.response.body = ""
    else ∀ v : Value, v.WrittenBy a.response.body.toList ↔
      v = .object [("statusCode", .number (.integer a.response.status.code)),
        ("statusMessage", .string e.message)]
  /-- A preflight request is reported if and only if the method is the one of such requests. -/
  preflight_iff : (∃ target, .preflight target ∈ a.log) ↔ request.method = "OPTIONS"
  /-- It is then all that is reported. -/
  preflight_alone : ∀ target, .preflight target ∈ a.log → a.log = [.preflight target]
  /-- A login is reported if and only if it is one and its body is not too long. -/
  login_iff : (∃ text, .loginRequest text ∈ a.log) ↔
    IsLogin request ∧ request.body.length ≤ bodyLimit
  /-- It is reported first, and once. -/
  login_first : ∀ text, .loginRequest text ∈ a.log →
    ∃ rest, a.log = .loginRequest text :: rest ∧ ∀ other, .loginRequest other ∉ rest
  /-- An identifier is reported as rejected if and only if the sentinel was asked about it and
  refused it. -/
  rejected_iff : ∀ found, .rejectedIdentifier found ∈ a.log ↔
    s.verifier = .sentinel ∧ a.verified = some found ∧ ¬s.verifier.accepts found
  /-- Missing settings are reported if and only if the service fails. -/
  missing_iff : .configurationMissing ∈ a.log ↔ a.response.status = .internalServerError
  /-- They are then reported just before the failure, and nothing else is. -/
  missing_first : .configurationMissing ∈ a.log →
    a.log = [.configurationMissing, .failed .configurationMissing]

/-- The log tells all this, and a body is reported as unreadable if and only if it is the body of a
login, not too long, and writes no value. -/
structure LogFaithful (s : Site) (request : Request) (a : Answer) : Prop
    extends LogConsistent s request a where
  unreadable_iff : .unreadableBody ∈ a.log ↔
    (IsLogin request ∧ request.body.length ≤ bodyLimit) ∧
      ¬∃ v : Value, v.EncodedBy request.body

namespace Site

/-- The log of every answer is consistent with it. -/
theorem logConsistent_answer (s : Site) (request : Request) :
    LogConsistent s request (s.answer request) := by
  have h := finds s request
  have hstatus := status_answer s request
  have hverified : (s.answer request).verified = (s.found request).verified := rfl
  exact {
    records := fun event => List.mem_map_of_injective Event.record_injective
    failed_iff := by
      rw [log_answer, hstatus]
      exact h.ends.exists_failed_iff
    failed_last := fun e he => (h.ends.of_failed_mem he).1
    failed_record := by
      intro e he
      rw [hstatus, (h.ends.of_failed_mem he).2]
      rfl
    failed_body := by
      intro e he
      split
      · next hhead => exact body_answer_head s hhead
      · next hhead =>
        rw [hstatus, body_answer s hhead, (h.ends.of_failed_mem he).2]
        exact e.writtenBy_text_iff
    preflight_iff := by simp [h.preflight_mem_iff]
    preflight_alone := by
      intro target htarget
      rw [log_answer, h.preflight_mem_iff] at htarget
      rw [log_answer, found_of_options s htarget.1, htarget.2]
      rfl
    login_iff := by simp [h.loginRequest_mem_iff]
    login_first := by
      intro text htext
      have hlogin := (h.loginRequest_mem_iff.mp htext).1.1
      exact (h.handles_of_isLogin hlogin).log_of_loginRequest htext
    rejected_iff := by
      intro found
      rw [log_answer, hverified]
      exact h.rejectedIdentifier_mem_iff
    missing_iff := by
      rw [log_answer, hstatus]
      exact h.configurationMissing_mem_iff
    missing_first := by
      intro hmissing
      rcases h.handles_of_mem hmissing with ⟨-, hlog⟩ | ⟨route, -, hhandles⟩
      · rw [log_answer, hlog] at hmissing
        simp at hmissing
      · exact hhandles.log_of_configurationMissing hmissing }

/-- The log of an answer is faithful if and only if the value that is written by the body of a
login, if it is not too long, stands for something. -/
theorem logFaithful_answer_iff (s : Site) (request : Request) :
    LogFaithful s request (s.answer request) ↔
      (IsLogin request → request.body.length ≤ bodyLimit →
        ∀ v : Value, v.EncodedBy request.body → ∃ w, v.Resolves w) := by
  have hunreadable := (finds s request).unreadableBody_mem_iff
  constructor
  · intro hfaithful hlogin hlength v hv
    by_contra hnone
    have hreported : .unreadableBody ∈ (s.found request).log := by
      refine hunreadable.mpr ⟨⟨hlogin, hlength⟩, ?_⟩
      rintro ⟨u, w, hu, hw⟩
      rw [hu.unique hv] at hw
      exact hnone ⟨w, hw⟩
    exact (hfaithful.unreadable_iff.mp hreported).2 ⟨v, hv⟩
  · intro hresolves
    refine ⟨logConsistent_answer s request, ?_⟩
    rw [log_answer, hunreadable]
    refine and_congr_right fun hlogin => not_congr ⟨?_, ?_⟩
    · rintro ⟨v, -, hv, -⟩
      exact ⟨v, hv⟩
    · rintro ⟨v, hv⟩
      obtain ⟨w, hw⟩ := hresolves hlogin.1 hlogin.2 v hv
      exact ⟨v, w, hv, hw⟩

/-- The log of an answer is consistent with it. It is faithful if and only if the value that is
written by the body of a login, if it is not too long, stands for something. Where the reserved name
is not used it always does. -/
theorem logFaithful_iff (s : Site) (request : Request) :
    LogConsistent s request (s.answer request) ∧
      (LogFaithful s request (s.answer request) ↔
        (IsLogin request → request.body.length ≤ bodyLimit →
          ∀ v : Value, v.EncodedBy request.body → ∃ w, v.Resolves w)) ∧
      ((∀ v : Value, v.EncodedBy request.body → v.Plain) →
        LogFaithful s request (s.answer request)) := by
  have hiff := logFaithful_answer_iff s request
  refine ⟨logConsistent_answer s request, hiff, fun hplain => hiff.mpr fun _ _ v hv => ?_⟩
  exact ⟨v, (hplain v hv).resolves⟩

/-- A login whose body is an object in which another one misuses the reserved name. -/
def reservedInside : Request :=
  ⟨"POST", "/api/login",
    Utf8.encode "\x7b\"a\":\x7b\"$serde_json::private::RawValue\":null\x7d\x7d"⟩

/-- A body that writes an object is reported as unreadable. -/
theorem not_logFaithful_reservedInside :
    ¬LogFaithful ⟨.standard, .sentinel⟩ reservedInside
      (Site.answer ⟨.standard, .sentinel⟩ reservedInside) := by
  rw [logFaithful_answer_iff]
  intro h
  have hpath : (Uri.ofString "/api/login").path = "/api/login" := by decide
  have hwritten : (Value.object [("a", .object [(embeddedName, .null)])]).EncodedBy
      reservedInside.body :=
    Value.encodedBy_encode.mpr (Value.writtenBy_text ⟨⟨trivial, trivial⟩, trivial⟩ (by decide))
  obtain ⟨w, hw⟩ := h ⟨rfl, hpath⟩ (by decide) _ hwritten
  -- The object does not misuse the reserved name, but the one inside does.
  obtain ⟨found, hfound⟩ := hw.members (by decide)
  cases hfound with
  | cons hinner =>
    cases hinner with
    | object hfirst => exact hfirst rfl

end Site

end LoginService
