import LoginService.Login
import LoginService.Proofs.Json.Document

/-!
# The identifier of a login request

What identifier a JSON value carries, and what a body is read as: the identifier carried by what the
body stands for. A body that stands for a value without identifier has the wrong shape, and one that
stands for nothing is unreadable.
-/

namespace LoginService

namespace Json

/-- The last member with the given name has the given value. -/
def LastNamed (name : String) (members : List (String × Value)) (v : Value) : Prop :=
  ∃ before after, members = before ++ (name, v) :: after ∧ ∀ m ∈ after, m.1 ≠ name

/-- The member that is asked for is the last of its name. -/
theorem lastMember?_eq_some_iff {name : String} {members : List (String × Value)} {v : Value} :
    lastMember? name members = some v ↔ LastNamed name members v := by
  rw [lastMember?, List.lookup_eq_some_iff]
  constructor
  · rintro ⟨after, before, hmembers, hafter⟩
    refine ⟨before.reverse, after.reverse, ?_, ?_⟩
    · rw [← List.reverse_reverse members, hmembers]
      simp
    · intro m hm heq
      have := hafter m (List.mem_reverse.mp hm)
      simp [heq] at this
  · rintro ⟨before, after, rfl, hafter⟩
    refine ⟨after.reverse, before.reverse, by simp, ?_⟩
    intro m hm
    simpa using (hafter m (List.mem_reverse.mp hm)).symm

/-- There is no member to ask for if none has the name. -/
theorem lastMember?_eq_none_iff {name : String} {members : List (String × Value)} :
    lastMember? name members = none ↔ ∀ m ∈ members, m.1 ≠ name := by
  rw [lastMember?, List.lookup_eq_none_iff]
  simp only [List.mem_reverse, bne_iff_ne]
  exact forall₂_congr fun m _ => ne_comm

/-- At most one member is the last of its name. -/
theorem LastNamed.unique {name : String} {members : List (String × Value)} {v w : Value}
    (hv : LastNamed name members v) (hw : LastNamed name members w) : v = w :=
  Option.some.inj ((lastMember?_eq_some_iff.mpr hv).symm.trans (lastMember?_eq_some_iff.mpr hw))

/-- A member that is the last of its name has that name. -/
theorem LastNamed.not_forall_ne {name : String} {members : List (String × Value)} {v : Value}
    (h : LastNamed name members v) : ¬∀ m ∈ members, m.1 ≠ name := by
  obtain ⟨before, after, rfl, -⟩ := h
  intro hall
  exact hall (name, v) (by simp) rfl

/-- A name either has a last member or has none. -/
theorem lastNamed_or_forall_ne (name : String) (members : List (String × Value)) :
    (∃ v, LastNamed name members v) ∨ ∀ m ∈ members, m.1 ≠ name := by
  cases hlast : lastMember? name members with
  | none => exact .inr (lastMember?_eq_none_iff.mp hlast)
  | some v => exact .inl ⟨v, lastMember?_eq_some_iff.mp hlast⟩

/-- An array or an object. -/
inductive Value.IsContainer : Value → Prop where
  | array (items : List Value) : IsContainer (.array items)
  | object (members : List (String × Value)) : IsContainer (.object members)

end Json

namespace Login

open Json

/-- The identifier that a value names: a string by its contents, a number or a truth value by its
text, and null as the empty identifier. A container names none. -/
inductive Names : Value → String → Prop where
  | null : Names .null ""
  | true : Names (.bool true) "true"
  | false : Names (.bool false) "false"
  | number (n : Number) : Names (.number n) n.text
  | string (s : String) : Names (.string s) s

/-- The identifier that a value carries: an object carries what its last member `requestId` names,
and the empty identifier if there is none. Nothing else carries one. -/
inductive Carries : Value → String → Prop where
  | absent {members : List (String × Value)} (h : ∀ m ∈ members, m.1 ≠ identifierName) :
      Carries (.object members) ""
  | present {members : List (String × Value)} {v : Value} {identifier : String}
      (hlast : LastNamed identifierName members v) (hv : Names v identifier) :
      Carries (.object members) identifier

/-- The identifier of a member is the one that its value names. -/
theorem identifierOf?_eq_some_iff {v : Value} {identifier : String} :
    identifierOf? v = some identifier ↔ Names v identifier := by
  constructor
  · intro h
    cases v with
    | null =>
      cases h
      exact .null
    | bool b =>
      cases b <;> cases h
      · exact .false
      · exact .true
    | number n =>
      cases h
      exact .number n
    | string s =>
      cases h
      exact .string _
    | array => cases h
    | object => cases h
  · intro h
    cases h <;> rfl

/-- Every value but a container names an identifier. -/
theorem exists_names_iff {v : Value} : (∃ identifier, Names v identifier) ↔ ¬v.IsContainer := by
  constructor
  · rintro ⟨identifier, hnames⟩ hcontainer
    cases hcontainer <;> cases hnames
  · intro h
    cases v with
    | null => exact ⟨_, .null⟩
    | bool b =>
      cases b
      · exact ⟨_, .false⟩
      · exact ⟨_, .true⟩
    | number n => exact ⟨_, .number n⟩
    | string s => exact ⟨_, .string s⟩
    | array items => exact absurd (.array items) h
    | object members => exact absurd (.object members) h

/-- A login request: an object whose last member `requestId`, if there is one, is no container. -/
def IsRequest (v : Value) : Prop :=
  ∃ members, v = .object members ∧ ∀ u, LastNamed identifierName members u → ¬u.IsContainer

/-- Login requests are the values that carry an identifier. -/
theorem isRequest_iff {v : Value} : IsRequest v ↔ ∃ identifier, Carries v identifier := by
  constructor
  · rintro ⟨members, rfl, h⟩
    rcases lastNamed_or_forall_ne identifierName members with ⟨v, hv⟩ | hnone
    · obtain ⟨identifier, hnames⟩ := exists_names_iff.mpr (h v hv)
      exact ⟨identifier, .present hv hnames⟩
    · exact ⟨"", .absent hnone⟩
  · rintro ⟨identifier, @⟨members, h⟩ | @⟨members, w, identifier, hlast, hw⟩⟩
    · exact ⟨members, rfl, fun u hu => absurd h hu.not_forall_ne⟩
    · refine ⟨members, rfl, fun u hu => ?_⟩
      rw [hu.unique hlast]
      exact exists_names_iff.mp ⟨identifier, hw⟩

/-- The members of an object are read as the identifier that the object carries. -/
theorem identifierIn?_eq_some_iff {members : List (String × Value)} {identifier : String} :
    identifierIn? members = some identifier ↔ Carries (.object members) identifier := by
  rw [identifierIn?]
  constructor
  · intro h
    split at h
    · next hnone =>
      cases h
      exact .absent (lastMember?_eq_none_iff.mp hnone)
    · next v hlast =>
      exact .present (lastMember?_eq_some_iff.mp hlast) (identifierOf?_eq_some_iff.mp h)
  · intro h
    cases h with
    | absent h => rw [lastMember?_eq_none_iff.mpr h]
    | present hlast hv =>
      rw [lastMember?_eq_some_iff.mpr hlast]
      exact identifierOf?_eq_some_iff.mpr hv

/-- A value is read as the identifier that it carries. -/
theorem ofValue_eq_ok_iff {v : Value} {identifier : String} :
    ofValue v = .ok identifier ↔ Carries v identifier := by
  cases v with
  | object members =>
    rw [← identifierIn?_eq_some_iff, ofValue]
    cases identifierIn? members <;> simp
  | _ =>
    constructor
    · intro h
      cases h
    · rintro ⟨⟩

/-- A value carries at most one identifier. -/
theorem Carries.unique {v : Value} {first second : String} (hfirst : Carries v first)
    (hsecond : Carries v second) : first = second :=
  Except.ok.inj ((ofValue_eq_ok_iff.mpr hfirst).symm.trans (ofValue_eq_ok_iff.mpr hsecond))

/-- A body is read as an identifier if and only if it stands for a value that carries it. -/
theorem identifier_eq_ok_iff {body : Bytes} {found : String} :
    identifier body = .ok found ↔
      ∃ v w : Value, v.EncodedBy body ∧ v.Resolves w ∧ Carries w found := by
  unfold identifier
  cases hread : Value.ofBytes? body with
  | none =>
    constructor
    · intro h
      cases h
    · rintro ⟨v, w, hv, hw, -⟩
      rw [Value.ofBytes?_eq_some_iff.mpr ⟨v, hv, hw⟩] at hread
      cases hread
  | some u =>
    dsimp only
    rw [ofValue_eq_ok_iff]
    constructor
    · intro hcarries
      obtain ⟨v, hv, hu⟩ := Value.ofBytes?_eq_some_iff.mp hread
      exact ⟨v, u, hv, hu, hcarries⟩
    · rintro ⟨v, w, hv, hw, hcarries⟩
      rw [Value.ofBytes?_eq_some_iff.mpr ⟨v, hv, hw⟩] at hread
      cases hread
      exact hcarries

/-- A body is read as some identifier if and only if it stands for a login request. -/
theorem exists_identifier_eq_ok_iff {body : Bytes} :
    (∃ found, identifier body = .ok found) ↔
      ∃ v w : Value, v.EncodedBy body ∧ v.Resolves w ∧ IsRequest w := by
  constructor
  · rintro ⟨found, hfound⟩
    obtain ⟨v, w, hv, hw, hcarries⟩ := identifier_eq_ok_iff.mp hfound
    exact ⟨v, w, hv, hw, isRequest_iff.mpr ⟨found, hcarries⟩⟩
  · rintro ⟨v, w, hv, hw, hrequest⟩
    obtain ⟨found, hcarries⟩ := isRequest_iff.mp hrequest
    exact ⟨found, identifier_eq_ok_iff.mpr ⟨v, w, hv, hw, hcarries⟩⟩

/-- A body is unreadable if and only if it stands for nothing. -/
theorem identifier_eq_unreadable_iff {body : Bytes} :
    identifier body = .error .unreadable ↔ ¬∃ v w : Value, v.EncodedBy body ∧ v.Resolves w := by
  have hnone : (¬∃ v w : Value, v.EncodedBy body ∧ v.Resolves w) ↔ Value.ofBytes? body = none := by
    rw [Option.eq_none_iff_forall_ne_some]
    simp only [ne_eq, Value.ofBytes?_eq_some_iff]
    constructor
    · rintro hnone w ⟨v, hv, hw⟩
      exact hnone ⟨v, w, hv, hw⟩
    · rintro hnone ⟨v, w, hv, hw⟩
      exact hnone w ⟨v, hv, hw⟩
  rw [hnone, identifier]
  cases Value.ofBytes? body with
  | none => exact iff_of_true rfl rfl
  | some w =>
    refine iff_of_false ?_ (Option.some_ne_none w)
    -- What is read has the wrong shape at worst.
    dsimp only
    unfold ofValue
    split
    · split <;> simp
    · simp

/-- Every fault is answered as malformed. -/
theorem Fault.toApiError_eq (fault : Fault) : fault.toApiError = .malformedRequest := by
  cases fault <;> rfl

/-- A body is answered as malformed. -/
def Malformed (body : Bytes) : Prop :=
  ∃ fault, identifier body = .error fault ∧ fault.toApiError = .malformedRequest

/-- A body is answered as malformed if and only if it is not read as an identifier. -/
theorem malformed_iff {body : Bytes} :
    Malformed body ↔ ¬∃ found, identifier body = .ok found := by
  constructor
  · rintro ⟨fault, hfault, -⟩ ⟨found, hfound⟩
    rw [hfault] at hfound
    cases hfound
  · intro hnone
    cases hread : identifier body with
    | ok found => exact absurd ⟨found, hread⟩ hnone
    | error fault => exact ⟨fault, hread, fault.toApiError_eq⟩

variable {v : Value} {body : Bytes}

/-- A body that writes a value is read as an identifier if and only if the value stands for one that
carries it. -/
theorem identifier_eq_ok_iff_of_encodedBy {found : String} (hv : v.EncodedBy body) :
    identifier body = .ok found ↔ ∃ w, v.Resolves w ∧ Carries w found := by
  rw [identifier_eq_ok_iff]
  constructor
  · rintro ⟨u, w, hu, hw, hcarries⟩
    rw [hu.unique hv] at hw
    exact ⟨w, hw, hcarries⟩
  · rintro ⟨w, hw, hcarries⟩
    exact ⟨v, w, hv, hw, hcarries⟩

/-- A body that writes a value is read as some identifier if and only if the value stands for a
login request. -/
theorem exists_identifier_iff_of_encodedBy (hv : v.EncodedBy body) :
    (∃ found, identifier body = .ok found) ↔ ∃ w, v.Resolves w ∧ IsRequest w := by
  rw [exists_identifier_eq_ok_iff]
  constructor
  · rintro ⟨u, w, hu, hw, hrequest⟩
    rw [hu.unique hv] at hw
    exact ⟨w, hw, hrequest⟩
  · rintro ⟨w, hw, hrequest⟩
    exact ⟨v, w, hv, hw, hrequest⟩

/-- What holds of some value that a body writes holds of the value that it writes. -/
theorem of_exists_encodedBy {P : Value → Prop} (hv : v.EncodedBy body)
    (h : ∃ u : Value, u.EncodedBy body ∧ P u) : P v := by
  obtain ⟨u, hu, hP⟩ := h
  rwa [hv.unique hu]

end Login

end LoginService
