import LoginService.Proofs.Json.Writer
import LoginService.Proofs.Login.Identifier

/-!
# Which bodies are accepted

A body should be accepted if and only if it writes a login request by the grammar, and the last
member `requestId` alone should decide the identifier. Both hold of every body in which no object
begins with the reserved name of embedded texts. For any other body they hold if and only if the
object that is written and the value it stands for agree.
-/

namespace LoginService.Login

open Json

/-- A body is accepted if it writes a login request, and malformed if it does not. -/
structure FollowsGrammar (body : Bytes) : Prop where
  /-- A body that writes a login request is read as an identifier. -/
  accepts : (∃ v : Value, v.EncodedBy body ∧ IsRequest v) → ∃ found, identifier body = .ok found
  /-- Every other body is malformed. -/
  refuses : (¬∃ v : Value, v.EncodedBy body ∧ IsRequest v) → Malformed body

/-- Acceptance follows the grammar if and only if the value that a body writes is a login request
together with the value it stands for. Where the reserved name is not used it always does. -/
theorem followsGrammar_iff (body : Bytes) :
    (FollowsGrammar body ↔
      ∀ v : Value, v.EncodedBy body → (IsRequest v ↔ ∃ w, v.Resolves w ∧ IsRequest w)) ∧
    ((∀ v : Value, v.EncodedBy body → v.Plain) → FollowsGrammar body) := by
  have hiff : FollowsGrammar body ↔
      ∀ v : Value, v.EncodedBy body → (IsRequest v ↔ ∃ w, v.Resolves w ∧ IsRequest w) := by
    constructor
    · intro h v hv
      rw [← exists_identifier_iff_of_encodedBy hv]
      constructor
      · intro hrequest
        exact h.accepts ⟨v, hv, hrequest⟩
      · intro hread
        by_cases hwritten : ∃ u : Value, u.EncodedBy body ∧ IsRequest u
        · exact of_exists_encodedBy hv hwritten
        · exact absurd hread (malformed_iff.mp (h.refuses hwritten))
    · intro h
      constructor
      · rintro ⟨v, hv, hrequest⟩
        exact (exists_identifier_iff_of_encodedBy hv).mpr ((h v hv).mp hrequest)
      · intro hnone
        rw [malformed_iff, exists_identifier_eq_ok_iff]
        rintro ⟨v, w, hv, hw, hrequest⟩
        exact hnone ⟨v, hv, (h v hv).mpr ⟨w, hw, hrequest⟩⟩
  refine ⟨hiff, fun hplain => hiff.mpr fun v hv => ?_⟩
  exact (hplain v hv).exists_resolves_iff.symm

/-- An object that holds nothing but null under the reserved name. -/
def reservedNull : Value :=
  .object [(embeddedName, .null)]

/-- An object without a member `requestId` is not accepted if it misuses the reserved name. -/
theorem not_followsGrammar_reservedNull :
    ¬FollowsGrammar (Utf8.encode "\x7b\"$serde_json::private::RawValue\":null\x7d") := by
  have hwritten : reservedNull.EncodedBy
      (Utf8.encode "\x7b\"$serde_json::private::RawValue\":null\x7d") :=
    Value.encodedBy_encode.mpr (Value.writtenBy_text ⟨trivial, trivial⟩ (by decide))
  have hrequest : IsRequest reservedNull :=
    isRequest_iff.mpr ⟨"", .absent (by simp [embeddedName, identifierName])⟩
  intro h
  obtain ⟨v, w, hv, hw, -⟩ := exists_identifier_eq_ok_iff.mp (h.accepts ⟨_, hwritten, hrequest⟩)
  rw [hv.unique hwritten] at hw
  cases hw with
  | object hfirst => exact hfirst rfl

/-- The last member `requestId` of the object that a text writes decides what the text is read
as. -/
structure LastDecides (members : List (String × Value)) (text : String) : Prop where
  /-- The identifier is the one that the object carries. -/
  reads : ∀ found, Carries (.object members) found → identifier (Utf8.encode text) = .ok found
  /-- An object that carries none is malformed. -/
  refuses : (¬∃ found, Carries (.object members) found) → Malformed (Utf8.encode text)

/-- What an object carries depends on its last member `requestId` alone. -/
theorem Carries.of_sameLast {members others : List (String × Value)} {found : String}
    (hlast : ∀ v, LastNamed identifierName members v ↔ LastNamed identifierName others v)
    (h : Carries (.object members) found) : Carries (.object others) found := by
  cases h with
  | absent hnone =>
    rcases lastNamed_or_forall_ne identifierName others with ⟨v, hv⟩ | hothers
    · exact absurd hnone ((hlast v).mpr hv).not_forall_ne
    · exact .absent hothers
  | present hv hnames => exact .present ((hlast _).mp hv) hnames

/-- A text whose last member decides is read as exactly what the object carries. -/
theorem LastDecides.eq_ok_iff {members : List (String × Value)} {text found : String}
    (h : LastDecides members text) :
    identifier (Utf8.encode text) = .ok found ↔ Carries (.object members) found := by
  constructor
  · intro hread
    by_cases hany : ∃ other, Carries (.object members) other
    · obtain ⟨other, hother⟩ := hany
      have hreads := h.reads other hother
      rw [hread] at hreads
      cases hreads
      exact hother
    · exact absurd ⟨found, hread⟩ (malformed_iff.mp (h.refuses hany))
  · exact h.reads found

/-- The last member decides if and only if the object and what it stands for carry the same
identifiers. Where the reserved name is not used it always does. Of two texts in which it does, the
same last member gives the same result, whatever the other members are. -/
theorem lastDecides_iff {members : List (String × Value)} {text : String}
    (hwritten : (Value.object members).WrittenBy text.toList) :
    (LastDecides members text ↔ ∀ found, Carries (.object members) found ↔
      ∃ w, (Value.object members).Resolves w ∧ Carries w found) ∧
    ((Value.object members).Plain → LastDecides members text) ∧
    ∀ others other, LastDecides members text → LastDecides others other →
      (∀ v, LastNamed identifierName members v ↔ LastNamed identifierName others v) →
        ∀ found, identifier (Utf8.encode text) = .ok found ↔
          identifier (Utf8.encode other) = .ok found := by
  have hread : ∀ found, identifier (Utf8.encode text) = .ok found ↔
      ∃ w, (Value.object members).Resolves w ∧ Carries w found :=
    fun found => identifier_eq_ok_iff_of_encodedBy (Value.encodedBy_encode.mpr hwritten)
  have hiff : LastDecides members text ↔ ∀ found, Carries (.object members) found ↔
      ∃ w, (Value.object members).Resolves w ∧ Carries w found := by
    constructor
    · intro h found
      rw [← hread, h.eq_ok_iff]
    · intro h
      constructor
      · intro found hcarries
        exact (hread found).mpr ((h found).mp hcarries)
      · intro hnone
        rw [malformed_iff]
        rintro ⟨found, hfound⟩
        exact hnone ⟨found, (h found).mpr ((hread found).mp hfound)⟩
  refine ⟨hiff, ?_, ?_⟩
  · intro hplain
    exact hiff.mpr fun found => (hplain.exists_resolves_iff (P := (Carries · found))).symm
  · intro others other hmembers hothers hlast found
    rw [hmembers.eq_ok_iff, hothers.eq_ok_iff]
    constructor
    · exact fun h => h.of_sameLast hlast
    · exact fun h => h.of_sameLast fun v => (hlast v).symm

/-- The last member decides in a text with two members of that name. -/
theorem lastDecides_duplicate :
    (Value.object [("requestId", .null), ("requestId", .bool true)]).WrittenBy
        "\x7b\"requestId\":null,\"requestId\":true\x7d".toList ∧
      LastDecides [("requestId", .null), ("requestId", .bool true)]
        "\x7b\"requestId\":null,\"requestId\":true\x7d" := by
  have hwritten : (Value.object [("requestId", .null), ("requestId", .bool true)]).WrittenBy
      "\x7b\"requestId\":null,\"requestId\":true\x7d".toList :=
    Value.writtenBy_text ⟨trivial, trivial, trivial⟩ (by decide)
  exact ⟨hwritten, (lastDecides_iff hwritten).2.1 ⟨by decide, trivial, trivial, trivial⟩⟩

/-- An object whose last member `requestId` is a container that embeds a string. -/
def embeddedIdentifier : List (String × Value) :=
  [("requestId", .object [(embeddedName, .string "\"x\"")])]

/-- A container is the last member `requestId`, but what it embeds is read as an identifier. -/
theorem not_lastDecides_embeddedIdentifier :
    ¬LastDecides embeddedIdentifier
      "\x7b\"requestId\":\x7b\"$serde_json::private::RawValue\":\"\\\"x\\\"\"\x7d\x7d" := by
  have hwritten : (Value.object embeddedIdentifier).WrittenBy
      "\x7b\"requestId\":\x7b\"$serde_json::private::RawValue\":\"\\\"x\\\"\"\x7d\x7d".toList :=
    Value.writtenBy_text ⟨⟨trivial, trivial⟩, trivial⟩ (by decide)
  have hlast : ∀ v, LastNamed identifierName [("requestId", v)] v :=
    fun v => ⟨[], [], rfl, by simp⟩
  have hinner : (Value.string "x").WrittenBy "\"x\"".toList :=
    Value.writtenBy_text trivial (by decide)
  have hresolves : (Value.object embeddedIdentifier).Resolves
      (.object [("requestId", .string "x")]) :=
    .object (by decide) (.cons (.embedded hinner (.string "x")) .nil)
  have hread := (identifier_eq_ok_iff_of_encodedBy (Value.encodedBy_encode.mpr hwritten)).mpr
    ⟨_, hresolves, .present (hlast _) (.string "x")⟩
  have hnone : ¬∃ found, Carries (.object embeddedIdentifier) found := by
    rw [← isRequest_iff]
    rintro ⟨members, heq, hrequest⟩
    cases heq
    exact hrequest _ (hlast _) (.object _)
  intro h
  exact malformed_iff.mp (h.refuses hnone) ⟨"x", hread⟩

end LoginService.Login
