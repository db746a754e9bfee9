import LoginService.Proofs.Json.Extent
import LoginService.Proofs.Json.Writer
import LoginService.Proofs.Login.Identifier

/-!
# Where a login ends

A body that carries an identifier carries it with its last brace and not before. What arrives of it
up to there is malformed, and so is the body with anything but blanks behind it: a connection that
breaks off or runs on never submits an identifier.
-/

namespace LoginService.Login

open Json

/-- A value that stands for one which carries an identifier is an object. -/
theorem Carries.exists_members {v w : Value} {found : String} (h : Carries w found)
    (hw : v.Resolves w) : ∃ members, v = .object members := by
  cases h <;> cases hw <;> exact ⟨_, rfl⟩

/-- A body that is read as an identifier writes an object. -/
theorem exists_members_of_identifier {body : Bytes} {found : String}
    (h : identifier body = .ok found) : ∃ members w, (Value.object members).EncodedBy body ∧
      (Value.object members).Resolves w ∧ Carries w found := by
  obtain ⟨v, w, hv, hw, hcarries⟩ := identifier_eq_ok_iff.mp h
  obtain ⟨members, rfl⟩ := hcarries.exists_members hw
  exact ⟨members, w, hv, hw, hcarries⟩

/-- A body that carries an identifier goes on in another one with blanks only. -/
theorem forall_isBlankByte_of_identifier {front back : Bytes} {found other : String}
    (hfront : identifier front = .ok found) (hwhole : identifier (front ++ back) = .ok other) :
    ∀ b ∈ back, isBlankByte b := by
  obtain ⟨members, -, hmembers, -⟩ := exists_members_of_identifier hfront
  obtain ⟨others, -, hothers, -⟩ := exists_members_of_identifier hwhole
  exact hmembers.forall_isBlankByte (by simp) hothers

/-- Blanks may stand behind the trimmed body. -/
theorem identifier_trimmed_append {body blanks : Bytes} {found : String}
    (h : identifier body = .ok found) (hblanks : ∀ b ∈ blanks, isBlankByte b) :
    identifier (trimmed body ++ blanks) = .ok found := by
  obtain ⟨members, w, hmembers, hw, hcarries⟩ := exists_members_of_identifier h
  exact identifier_eq_ok_iff.mpr ⟨_, w, hmembers.trimmed.append_blanks hblanks, hw, hcarries⟩

/-- Bytes carry an identifier, and they carry none where they are cut off or go on. -/
structure Delimits (bytes : Bytes) (found : String) : Prop where
  /-- What arrives before the last byte is malformed. -/
  cut : ∀ front back, front ++ back = bytes → back ≠ [] → Malformed front
  /-- Blanks may follow. -/
  padded : ∀ blanks, (∀ b ∈ blanks, isBlankByte b) → identifier (bytes ++ blanks) = .ok found
  /-- Nothing else may follow, neither at once nor after blanks. -/
  lengthened : ∀ blanks b more, (∀ c ∈ blanks, isBlankByte c) → ¬isBlankByte b →
    Malformed (bytes ++ blanks ++ b :: more)

/-- A body that is read as an identifier delimits it when the blanks at its end are removed. -/
theorem delimits_trimmed {body : Bytes} {found : String} (h : identifier body = .ok found) :
    Delimits (trimmed body) found where
  cut front back hbytes hback := by
    have hwhole := identifier_trimmed_append h (List.forall_mem_nil _)
    rw [List.append_nil, ← hbytes] at hwhole
    refine malformed_iff.mpr fun ⟨other, hother⟩ => hback ?_
    exact eq_nil_of_append_eq_trimmed hbytes (forall_isBlankByte_of_identifier hother hwhole)
  padded blanks hblanks := identifier_trimmed_append h hblanks
  lengthened blanks b more hblanks hb := by
    refine malformed_iff.mpr fun ⟨other, hother⟩ => hb ?_
    have hpadded := identifier_trimmed_append h hblanks
    exact forall_isBlankByte_of_identifier hpadded hother b List.mem_cons_self

/-- An object with a number inside, which is itself lengthened by any further digit, is
delimited. -/
theorem delimits_trimmed_seven :
    identifier (Utf8.encode "\x7b\"requestId\":7\x7d" ++ [0x0D, 0x0A]) = .ok "7" ∧
      Delimits (Utf8.encode "\x7b\"requestId\":7\x7d") "7" := by
  have hwritten : (Value.object [(identifierName, .number (.integer 7))]).EncodedBy
      (Utf8.encode "\x7b\"requestId\":7\x7d") :=
    Value.encodedBy_encode.mpr (Value.writtenBy_text
      ⟨Number.readsBack_integer (by decide) (by decide), trivial⟩ (by decide))
  have hresolves := Value.Plain.resolves (v := .object [(identifierName, .number (.integer 7))])
    ⟨by decide, trivial, trivial⟩
  have hread : identifier (Utf8.encode "\x7b\"requestId\":7\x7d" ++ [0x0D, 0x0A]) = .ok "7" :=
    identifier_eq_ok_iff.mpr ⟨_, _, hwritten.append_blanks (by simp [isBlankByte]), hresolves,
      .present ⟨[], [], rfl, by simp⟩ (.number _)⟩
  have htrimmed : trimmed (Utf8.encode "\x7b\"requestId\":7\x7d" ++ [0x0D, 0x0A]) =
      Utf8.encode "\x7b\"requestId\":7\x7d" := by decide
  rw [← htrimmed]
  exact ⟨hread, delimits_trimmed hread⟩

end LoginService.Login
