import LoginService.Proofs.Json.DecimalText
import LoginService.Proofs.Json.Writer
import LoginService.Proofs.Login.Outcome

/-!
# The sentinel

The sentinel verifier should let a login pass if and only if its body writes an object whose last
member `requestId` is one particular string. No number is mistaken for that string, since the text
of every number is a numeral. This holds of every body in which no object begins with the reserved
name of embedded texts, and of any other body if and only if what is written and what it stands for
agree.
-/

namespace LoginService.Login

open Json Http

/-- An object whose last member `requestId` is the string that the sentinel accepts. -/
def Grants (v : Value) : Prop :=
  ∃ members, v = .object members ∧ LastNamed identifierName members (.string validIdentifier)

/-- No number has the text that the sentinel accepts. -/
theorem number_text_ne_validIdentifier (n : Number) : n.text ≠ validIdentifier := by
  intro h
  obtain ⟨numeral, hspelled⟩ := Numeral.exists_spelledBy_text n
  obtain ⟨first, more, htext, hfirst⟩ := hspelled.exists_cons
  have hvalid : validIdentifier.toList = 'v' :: "alid_request_id".toList := rfl
  rw [h, hvalid] at htext
  obtain ⟨rfl, -⟩ := List.cons.inj htext
  exact absurd hfirst (by decide)

/-- Only a string names the identifier that the sentinel accepts. -/
theorem names_validIdentifier_iff {v : Value} :
    Names v validIdentifier ↔ v = .string validIdentifier := by
  constructor
  · intro h
    generalize hidentifier : validIdentifier = identifier at h
    cases h with
    | number n => exact absurd hidentifier.symm (number_text_ne_validIdentifier n)
    | string s => rfl
    | _ => exact absurd hidentifier (by decide)
  · rintro rfl
    exact .string validIdentifier

/-- Only an object with that string carries the identifier that the sentinel accepts. -/
theorem carries_validIdentifier_iff {v : Value} : Carries v validIdentifier ↔ Grants v := by
  constructor
  · intro h
    generalize hidentifier : validIdentifier = identifier at h
    cases h with
    | absent => exact absurd hidentifier (by decide)
    | present hlast hnames =>
      subst hidentifier
      rw [names_validIdentifier_iff.mp hnames] at hlast
      exact ⟨_, rfl, hlast⟩
  · rintro ⟨members, rfl, hlast⟩
    exact .present hlast (.string validIdentifier)

/-- The response of a site with the sentinel verifier to a login. -/
def submit (settings : Settings) (body : Bytes) : Response :=
  (Site.answer ⟨settings, .sentinel⟩ ⟨"POST", "/api/login", body⟩).response

variable (settings : Settings) {body : Bytes}

/-- The sentinel accepts one identifier. -/
theorem accepts_sentinel_iff {found : String} :
    Verifier.accepts .sentinel found ↔ found = validIdentifier := by
  rw [Verifier.accepts, decide_eq_true_eq]

/-- A login has one of three outcomes. -/
theorem submit_cases (hlength : body.length ≤ bodyLimit) :
    (identifier body = .ok validIdentifier ∧ (submit settings body).status = .ok) ∨
      (∃ found, found ≠ validIdentifier ∧ identifier body = .ok found ∧
        Refuses (submit settings body) "request_id is expired") ∨
      (Malformed body ∧ Refuses (submit settings body) "malformed login request") := by
  have hpath : (Uri.ofString "/api/login").path = "/api/login" := by decide
  have hlogin : IsLogin ⟨"POST", "/api/login", body⟩ := ⟨rfl, hpath⟩
  obtain ⟨outcome, ⟨harises, hshown⟩, -⟩ := existsUnique_outcome ⟨settings, .sentinel⟩ hlogin
  cases harises with
  | tooLong hlong => exact absurd hlong (Nat.not_lt.mpr hlength)
  | malformed _ hmalformed =>
    cases hshown with
    | malformed hrefuses => exact .inr (.inr ⟨hmalformed, hrefuses⟩)
  | refused _ hread hrefused =>
    cases hshown with
    | refused hrefuses =>
      exact .inr (.inl ⟨_, mt accepts_sentinel_iff.mpr hrefused, hread, hrefuses⟩)
  | accepted _ hread haccepted =>
    rw [accepts_sentinel_iff.mp haccepted] at hread
    cases hshown with
    | accepted hstatus => exact .inl ⟨hread, hstatus⟩

/-- The sentinel lets its own identifier pass. -/
theorem status_submit_of_valid (hlength : body.length ≤ bodyLimit)
    (h : identifier body = .ok validIdentifier) : (submit settings body).status = .ok := by
  rcases submit_cases settings hlength with ⟨-, hstatus⟩ | ⟨found, hne, hread, -⟩ | ⟨hmalformed, -⟩
  · exact hstatus
  · exact absurd (Except.ok.inj (hread.symm.trans h)) hne
  · exact absurd ⟨_, h⟩ (malformed_iff.mp hmalformed)

/-- The sentinel refuses every other identifier as expired. -/
theorem submit_refuses_of_ne (hlength : body.length ≤ bodyLimit) {found : String}
    (h : identifier body = .ok found) (hne : found ≠ validIdentifier) :
    Refuses (submit settings body) "request_id is expired" := by
  rcases submit_cases settings hlength with ⟨hread, -⟩ | ⟨-, -, -, hrefuses⟩ | ⟨hmalformed, -⟩
  · exact absurd (Except.ok.inj (h.symm.trans hread)) hne
  · exact hrefuses
  · exact absurd ⟨_, h⟩ (malformed_iff.mp hmalformed)

/-- A malformed body is refused as malformed. -/
theorem submit_refuses_of_malformed (hlength : body.length ≤ bodyLimit) (h : Malformed body) :
    Refuses (submit settings body) "malformed login request" := by
  rcases submit_cases settings hlength with ⟨hread, -⟩ | ⟨found, -, hread, -⟩ | ⟨-, hrefuses⟩
  · exact absurd ⟨_, hread⟩ (malformed_iff.mp h)
  · exact absurd ⟨found, hread⟩ (malformed_iff.mp h)
  · exact hrefuses

/-- A login passes if and only if its body is read as the identifier that the sentinel accepts. -/
theorem status_submit_eq_ok_iff (hlength : body.length ≤ bodyLimit) :
    (submit settings body).status = .ok ↔ identifier body = .ok validIdentifier := by
  constructor
  · intro hstatus
    rcases submit_cases settings hlength with ⟨hread, -⟩ | ⟨-, -, -, hrefused⟩ | ⟨-, hrefused⟩
    · exact hread
    · rw [hrefused.1] at hstatus
      cases hstatus
    · rw [hrefused.1] at hstatus
      cases hstatus
  · exact status_submit_of_valid settings hlength

/-- A body that is refused as expired is read as an identifier. -/
theorem exists_identifier_of_expired (hlength : body.length ≤ bodyLimit)
    (h : Refuses (submit settings body) "request_id is expired") :
    ∃ found, identifier body = .ok found := by
  rcases submit_cases settings hlength with ⟨hread, -⟩ | ⟨found, -, hread, -⟩ | ⟨-, hrefused⟩
  · exact ⟨_, hread⟩
  · exact ⟨found, hread⟩
  · rw [Refuses, h.2] at hrefused
    exact absurd hrefused.2 (by decide)

/-- A body that is refused as malformed is malformed. -/
theorem malformed_of_refuses (hlength : body.length ≤ bodyLimit)
    (h : Refuses (submit settings body) "malformed login request") : Malformed body := by
  rcases submit_cases settings hlength with ⟨-, hstatus⟩ | ⟨-, -, -, hrefused⟩ | ⟨hmalformed, -⟩
  · rw [h.1] at hstatus
    cases hstatus
  · rw [Refuses, h.2] at hrefused
    exact absurd hrefused.2 (by decide)
  · exact hmalformed

/-- What the sentinel makes of a login with a body, by what the body writes. -/
structure Gate (settings : Settings) (body : Bytes) : Prop where
  /-- The login passes if and only if the body writes an object that grants access. -/
  grants : (submit settings body).status = .ok ↔ ∃ v : Value, v.EncodedBy body ∧ Grants v
  /-- Every other login request is refused as expired. -/
  expires : (∃ v : Value, v.EncodedBy body ∧ IsRequest v ∧ ¬Grants v) →
    Refuses (submit settings body) "request_id is expired"
  /-- Every other body is refused as malformed. -/
  refuses : (¬∃ v : Value, v.EncodedBy body ∧ IsRequest v) →
    Refuses (submit settings body) "malformed login request"

variable {settings} {v : Value}

/-- A login passes if and only if the value that its body writes stands for one that grants
access. -/
theorem status_submit_iff_of_encodedBy (settings : Settings) (hlength : body.length ≤ bodyLimit)
    (hv : v.EncodedBy body) :
    (submit settings body).status = .ok ↔ ∃ w, v.Resolves w ∧ Grants w := by
  rw [status_submit_eq_ok_iff settings hlength, identifier_eq_ok_iff_of_encodedBy hv]
  simp only [carries_validIdentifier_iff]

/-- If the gate is kept, a value grants access together with what it stands for. -/
theorem Gate.grants_iff (h : Gate settings body) (hlength : body.length ≤ bodyLimit)
    (hv : v.EncodedBy body) : Grants v ↔ ∃ w, v.Resolves w ∧ Grants w := by
  rw [← status_submit_iff_of_encodedBy settings hlength hv, h.grants]
  exact ⟨fun hgrants => ⟨v, hv, hgrants⟩, of_exists_encodedBy hv⟩

/-- If the gate is kept, a value is a login request together with what it stands for. -/
theorem Gate.isRequest_iff (h : Gate settings body) (hlength : body.length ≤ bodyLimit)
    (hv : v.EncodedBy body) : IsRequest v ↔ ∃ w, v.Resolves w ∧ IsRequest w := by
  rw [← exists_identifier_iff_of_encodedBy hv]
  constructor
  · intro hrequest
    by_cases hgrants : Grants v
    · have hstatus := h.grants.mpr ⟨v, hv, hgrants⟩
      exact ⟨_, (status_submit_eq_ok_iff settings hlength).mp hstatus⟩
    · exact exists_identifier_of_expired settings hlength (h.expires ⟨v, hv, hrequest, hgrants⟩)
  · intro hread
    by_cases hwritten : ∃ u : Value, u.EncodedBy body ∧ IsRequest u
    · exact of_exists_encodedBy hv hwritten
    · have hmalformed := malformed_of_refuses settings hlength (h.refuses hwritten)
      exact absurd hread (malformed_iff.mp hmalformed)

/-- The gate is kept if the value that the body writes agrees with what it stands for. -/
theorem gate_of_agree (hlength : body.length ≤ bodyLimit)
    (hgrants : ∀ v : Value, v.EncodedBy body → (Grants v ↔ ∃ w, v.Resolves w ∧ Grants w))
    (hrequest : ∀ v : Value, v.EncodedBy body → (IsRequest v ↔ ∃ w, v.Resolves w ∧ IsRequest w)) :
    Gate settings body := by
  constructor
  · constructor
    · intro hstatus
      have hread := (status_submit_eq_ok_iff settings hlength).mp hstatus
      obtain ⟨v, w, hv, hw, hcarries⟩ := identifier_eq_ok_iff.mp hread
      exact ⟨v, hv, (hgrants v hv).mpr ⟨w, hw, carries_validIdentifier_iff.mp hcarries⟩⟩
    · rintro ⟨v, hv, hgranted⟩
      exact (status_submit_iff_of_encodedBy settings hlength hv).mpr ((hgrants v hv).mp hgranted)
  · rintro ⟨v, hv, hrequested, hgranted⟩
    obtain ⟨found, hread⟩ :=
      (exists_identifier_iff_of_encodedBy hv).mpr ((hrequest v hv).mp hrequested)
    apply submit_refuses_of_ne settings hlength hread
    rintro rfl
    have hstatus := status_submit_of_valid settings hlength hread
    have hcarried := (status_submit_iff_of_encodedBy settings hlength hv).mp hstatus
    exact hgranted ((hgrants v hv).mpr hcarried)
  · intro hnone
    apply submit_refuses_of_malformed settings hlength
    rw [malformed_iff, exists_identifier_eq_ok_iff]
    rintro ⟨v, w, hv, hw, hfound⟩
    exact hnone ⟨v, hv, (hrequest v hv).mpr ⟨w, hw, hfound⟩⟩

/-- The gate is kept if and only if the value that the body writes grants access, and is a login
request, together with the value it stands for. Where the reserved name is not used it always is. -/
theorem gate_iff (settings : Settings) {body : Bytes} (hlength : body.length ≤ bodyLimit) :
    (Gate settings body ↔ ∀ v : Value, v.EncodedBy body →
      (Grants v ↔ ∃ w, v.Resolves w ∧ Grants w) ∧
      (IsRequest v ↔ ∃ w, v.Resolves w ∧ IsRequest w)) ∧
    ((∀ v : Value, v.EncodedBy body → v.Plain) → Gate settings body) := by
  refine ⟨⟨?_, ?_⟩, ?_⟩
  · intro h v hv
    exact ⟨h.grants_iff hlength hv, h.isRequest_iff hlength hv⟩
  · intro h
    exact gate_of_agree hlength (fun v hv => (h v hv).1) (fun v hv => (h v hv).2)
  · intro hplain
    exact gate_of_agree hlength (fun v hv => (hplain v hv).exists_resolves_iff.symm)
      (fun v hv => (hplain v hv).exists_resolves_iff.symm)

/-- An object with the string that the sentinel accepts. -/
def plainGrant : Value :=
  .object [("requestId", .string "valid_request_id")]

/-- The gate is kept for the text of that object, and it passes. -/
theorem gate_plainGrant :
    (Utf8.encode plainGrant.text).length ≤ bodyLimit ∧
      Gate .standard (Utf8.encode plainGrant.text) ∧
      (submit .standard (Utf8.encode plainGrant.text)).status = .ok := by
  have hlength : (Utf8.encode plainGrant.text).length ≤ bodyLimit := by decide
  have hwritten : plainGrant.EncodedBy (Utf8.encode plainGrant.text) :=
    Value.encodedBy_encode.mpr (Value.writtenBy_text ⟨trivial, trivial⟩ (by decide))
  have hgate : Gate .standard (Utf8.encode plainGrant.text) := by
    refine (gate_iff .standard hlength).2 fun v hv => ?_
    rw [hv.unique hwritten]
    exact ⟨by decide, trivial, trivial⟩
  exact ⟨hlength, hgate, hgate.grants.mpr ⟨plainGrant, hwritten, _, rfl, [], [], rfl, by simp⟩⟩

/-- An object that embeds the text of one that grants access, and does not grant it itself. -/
def embeddedGrant : Value :=
  .object [(embeddedName, .string "\x7b\"requestId\":\"valid_request_id\"\x7d")]

/-- The gate is not kept for the text of that object: it passes as well. -/
theorem not_gate_embeddedGrant : ¬Gate .standard (Utf8.encode embeddedGrant.text) := by
  have hlength : (Utf8.encode embeddedGrant.text).length ≤ bodyLimit := by decide
  have hwritten : embeddedGrant.EncodedBy (Utf8.encode embeddedGrant.text) :=
    Value.encodedBy_encode.mpr (Value.writtenBy_text ⟨trivial, trivial⟩ (by decide))
  have hinner : plainGrant.WrittenBy "\x7b\"requestId\":\"valid_request_id\"\x7d".toList :=
    Value.writtenBy_text ⟨trivial, trivial⟩ (by decide)
  have hplain : plainGrant.Resolves plainGrant := Value.Plain.resolves ⟨by decide, trivial, trivial⟩
  have hgrants : Grants plainGrant := ⟨_, rfl, [], [], rfl, by simp⟩
  have hstatus := (status_submit_iff_of_encodedBy .standard hlength hwritten).mpr
    ⟨plainGrant, .embedded hinner hplain, hgrants⟩
  intro h
  obtain ⟨members, heq, hlast⟩ := of_exists_encodedBy hwritten (h.grants.mp hstatus)
  cases heq
  exact hlast.not_forall_ne (by simp [embeddedName, identifierName])

end LoginService.Login
