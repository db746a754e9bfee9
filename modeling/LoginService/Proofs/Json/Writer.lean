import LoginService.Proofs.Json.Document
import LoginService.Proofs.Json.Number

/-!
# The written text of a value

The text that is written for a value is one of those that the grammar allows, whatever characters
its strings and names consist of. So it is read back as the value, and two values have different
texts.
-/

namespace LoginService.Json.Value

mutual

/-- Every number in the value is read back from its text. -/
def NumbersReadBack : Value → Prop
  | .number n => n.ReadsBack
  | .array items => ItemsReadBack items
  | .object members => MembersReadBack members
  | _ => True

/-- Every number in the items is read back from its text. -/
def ItemsReadBack : List Value → Prop
  | [] => True
  | v :: items => v.NumbersReadBack ∧ ItemsReadBack items

/-- Every number in the values of the members is read back from its text. -/
def MembersReadBack : List (String × Value) → Prop
  | [] => True
  | (_, v) :: members => v.NumbersReadBack ∧ MembersReadBack members

end

mutual

/-- The written text of a value is one that the grammar allows. -/
theorem spelledBy_tokens : ∀ {v : Value}, v.NumbersReadBack →
    v.SpelledBy (v.tokens.flatMap Token.text)
  | .null, _ => .null
  | .bool true, _ => .true
  | .bool false, _ => .false
  | .number n, h => by
    obtain ⟨numeral, hspelled, hnumber⟩ := h
    rw [tokens, List.flatMap_singleton, Token.text]
    exact .number hspelled hnumber
  | .string s, _ => by
    rw [tokens, List.flatMap_singleton, Token.text]
    exact .string (Quoted.spelledBy_literal s)
  | .array [], _ => .emptyArray blanks_nil
  | .array (v :: items), h => by
    have hitems := itemsSpelledBy_tokens (List.cons_ne_nil v items) h
    rw [tokens, List.flatMap_cons, List.flatMap_append, List.flatMap_singleton]
    exact .array hitems
  | .object [], _ => .emptyObject blanks_nil
  | .object (m :: members), h => by
    have hmembers := membersSpelledBy_tokens (List.cons_ne_nil m members) h
    rw [tokens, List.flatMap_cons, List.flatMap_append, List.flatMap_singleton]
    exact .object hmembers

/-- The written text of items is one that the grammar allows. -/
theorem itemsSpelledBy_tokens : ∀ {items : List Value}, items ≠ [] → ItemsReadBack items →
    ItemsSpelledBy items ((itemTokens items).flatMap Token.text)
  | [], hne, _ => absurd rfl hne
  | [v], _, h => by
    simpa [itemTokens] using ItemsSpelledBy.last blanks_nil (spelledBy_tokens h.1) blanks_nil
  | v :: w :: items, _, h => by
    have hitems := itemsSpelledBy_tokens (List.cons_ne_nil w items) h.2
    rw [itemTokens_cons_cons, List.flatMap_append, List.flatMap_cons]
    simpa [Token.text] using ItemsSpelledBy.more blanks_nil (spelledBy_tokens h.1) blanks_nil hitems

/-- The written text of members is one that the grammar allows. -/
theorem membersSpelledBy_tokens : ∀ {members : List (String × Value)}, members ≠ [] →
    MembersReadBack members →
      MembersSpelledBy members ((memberTokens members).flatMap Token.text)
  | [], hne, _ => absurd rfl hne
  | [(name, v)], _, h => by
    simpa [memberTokens, Token.text] using MembersSpelledBy.last blanks_nil
      (Quoted.spelledBy_literal name) blanks_nil blanks_nil (spelledBy_tokens h.1) blanks_nil
  | (name, v) :: m :: members, _, h => by
    have hmembers := membersSpelledBy_tokens (List.cons_ne_nil m members) h.2
    rw [memberTokens_cons_cons, List.flatMap_cons, List.flatMap_cons, List.flatMap_append,
      List.flatMap_cons]
    simpa [Token.text] using MembersSpelledBy.more blanks_nil (Quoted.spelledBy_literal name)
      blanks_nil blanks_nil (spelledBy_tokens h.1) blanks_nil hmembers

end

/-- A value that is not too deep is written by its text. -/
theorem writtenBy_text {v : Value} (hnumbers : v.NumbersReadBack) (hdepth : v.depth ≤ 127) :
    v.WrittenBy v.text.toList := by
  have h : v.WrittenBy _ := .mk blanks_nil (spelledBy_tokens hnumbers) blanks_nil hdepth
  rw [text, String.toList_ofList]
  simpa using h

end LoginService.Json.Value
