import LoginService.Proofs.Json.Reader
import LoginService.Proofs.Json.Token

/-!
# The reader accepts exactly the grammar

A derivation leads the scanner over its text to the tokens of its value, and a text that is made of
the tokens of a value has a derivation. With what is known of tokens, a text is read as a value if
and only if the grammar writes that value with it. A text therefore writes at most one value.
-/

namespace LoginService.Json

open Numeral (Lengthens)

/-- The end of a container does not lengthen a numeral. -/
theorem notAhead_closing {c : Char} {rest : List Char}
    (hc : c = ',' ∨ c = ']' ∨ c = '\x7d') : NotAhead Lengthens (c :: rest) := by
  apply notAhead_cons.mpr
  rcases hc with rfl | rfl | rfl <;> simp [Lengthens]

/-- A token that is a single character is put with those before it. -/
theorem Token.scan?_cons {t : Token} {c : Char} (ht : t.SpelledBy [c])
    (hnumber : ∀ n, t ≠ .number n) (before : List Token) (rest : List Char) :
    scan? before (c :: rest) = scan? (t :: before) rest :=
  ht.scan? (fun n hn => absurd hn (hnumber n)) before

/-- The quoted form of a string is one token. -/
theorem Token.scan?_name {name : String} {key : List Char} (h : Quoted.SpelledBy name key)
    (before : List Token) (rest : List Char) :
    scan? before (key ++ rest) = scan? (.string name :: before) rest :=
  (Token.SpelledBy.string h).scan? (fun n hn => by cases hn) before

namespace Value

mutual

/-- The text of a value is scanned into its tokens. Only a numeral depends on what follows. -/
theorem SpelledBy.scan? : ∀ {v : Value} {text : List Char}, v.SpelledBy text →
    ∀ (before : List Token) (rest : List Char), (∀ n, v = .number n → NotAhead Lengthens rest) →
      Token.scan? before (text ++ rest) = Token.scan? (v.tokens.reverse ++ before) rest
  | _, _, .null, before, rest, _ => Token.SpelledBy.null.scan? (fun _ hn => by cases hn) before
  | _, _, .true, before, rest, _ => Token.SpelledBy.true.scan? (fun _ hn => by cases hn) before
  | _, _, .false, before, rest, _ => Token.SpelledBy.false.scan? (fun _ hn => by cases hn) before
  | _, _, .number hspelled hnumber, before, rest, hrest =>
    (Token.SpelledBy.number hspelled hnumber).scan? (fun _ _ => hrest _ rfl) before
  | _, _, .string h, before, rest, _ => Token.scan?_name h before rest
  | _, _, .emptyArray h, before, rest, _ => by
    rw [List.cons_append, List.append_assoc, Token.scan?_cons .openBracket (by simp),
      Token.scan?_blanks h, List.singleton_append, Token.scan?_cons .closeBracket (by simp)]
    rfl
  | _, _, .array h, before, rest, _ => by
    rw [List.cons_append, List.append_assoc, Token.scan?_cons .openBracket (by simp),
      List.singleton_append, h.scan? _ _ (notAhead_closing (by simp)),
      Token.scan?_cons .closeBracket (by simp)]
    simp [tokens]
  | _, _, .emptyObject h, before, rest, _ => by
    rw [List.cons_append, List.append_assoc, Token.scan?_cons .openBrace (by simp),
      Token.scan?_blanks h, List.singleton_append, Token.scan?_cons .closeBrace (by simp)]
    rfl
  | _, _, .object h, before, rest, _ => by
    rw [List.cons_append, List.append_assoc, Token.scan?_cons .openBrace (by simp),
      List.singleton_append, h.scan? _ _ (notAhead_closing (by simp)),
      Token.scan?_cons .closeBrace (by simp)]
    simp [tokens]

/-- The text of items is scanned into their tokens. -/
theorem ItemsSpelledBy.scan? : ∀ {items : List Value} {text : List Char},
    ItemsSpelledBy items text → ∀ (before : List Token) (rest : List Char),
      NotAhead Lengthens rest →
        Token.scan? before (text ++ rest) = Token.scan? ((itemTokens items).reverse ++ before) rest
  | _, _, .last hbefore hv hafter, before, rest, hrest => by
    rw [List.append_assoc, List.append_assoc, Token.scan?_blanks hbefore,
      hv.scan? _ _ (fun _ _ => hafter.notAhead hrest), Token.scan?_blanks hafter, itemTokens]
  | _, _, .more hbefore hv hafter hitems, before, rest, hrest => by
    rw [List.append_assoc, List.append_assoc, List.append_assoc, Token.scan?_blanks hbefore,
      List.cons_append, hv.scan? _ _ (fun _ _ => hafter.notAhead (notAhead_closing (by simp))),
      Token.scan?_blanks hafter, Token.scan?_cons .comma (by simp), hitems.scan? _ _ hrest]
    cases hitems <;> simp [itemTokens]

/-- The text of members is scanned into their tokens. -/
theorem MembersSpelledBy.scan? : ∀ {members : List (String × Value)} {text : List Char},
    MembersSpelledBy members text → ∀ (before : List Token) (rest : List Char),
      NotAhead Lengthens rest →
        Token.scan? before (text ++ rest) =
          Token.scan? ((memberTokens members).reverse ++ before) rest
  | _, _, .last hbefore hname hcolon hbetween hv hafter, before, rest, hrest => by
    rw [List.append_assoc, List.append_assoc, List.append_assoc, Token.scan?_blanks hbefore,
      Token.scan?_name hname, Token.scan?_blanks hcolon, List.cons_append,
      Token.scan?_cons .colon (by simp), List.append_assoc, List.append_assoc,
      Token.scan?_blanks hbetween, hv.scan? _ _ (fun _ _ => hafter.notAhead hrest),
      Token.scan?_blanks hafter]
    simp [memberTokens]
  | _, _, .more hbefore hname hcolon hbetween hv hafter hmembers, before, rest, hrest => by
    rw [List.append_assoc, List.append_assoc, List.append_assoc, Token.scan?_blanks hbefore,
      Token.scan?_name hname, Token.scan?_blanks hcolon, List.cons_append,
      Token.scan?_cons .colon (by simp), List.append_assoc, List.append_assoc, List.append_assoc,
      Token.scan?_blanks hbetween, List.cons_append,
      hv.scan? _ _ (fun _ _ => hafter.notAhead (notAhead_closing (by simp))),
      Token.scan?_blanks hafter, Token.scan?_cons .comma (by simp), hmembers.scan? _ _ hrest]
    cases hmembers <;> simp [memberTokens]

end

mutual

/-- A text that begins with the tokens of a value begins with its text. -/
theorem spelledBy_of_lexed : ∀ (v : Value) {more : List Token} {text : List Char},
    Lexed (v.tokens ++ more) text → ∃ before part rest,
      Blanks before ∧ v.SpelledBy part ∧ Lexed more rest ∧ text = before ++ part ++ rest
  | .null, _, _, h => by
    obtain ⟨before, part, rest, hbefore, ⟨-⟩, hrest, htext⟩ := Lexed.exists_append h
    exact ⟨before, _, rest, hbefore, .null, hrest, htext⟩
  | .bool b, _, _, h => by
    obtain ⟨before, part, rest, hbefore, hpart, hrest, htext⟩ := Lexed.exists_append h
    cases hpart with
    | true => exact ⟨before, _, rest, hbefore, .true, hrest, htext⟩
    | false => exact ⟨before, _, rest, hbefore, .false, hrest, htext⟩
  | .number n, _, _, h => by
    obtain ⟨before, part, rest, hbefore, hpart, hrest, htext⟩ := Lexed.exists_append h
    cases hpart with
    | number hspelled hnumber =>
      exact ⟨before, part, rest, hbefore, .number hspelled hnumber, hrest, htext⟩
  | .string s, _, _, h => by
    obtain ⟨before, part, rest, hbefore, hpart, hrest, htext⟩ := Lexed.exists_append h
    cases hpart with
    | string hs => exact ⟨before, part, rest, hbefore, .string hs, hrest, htext⟩
  | .array items, more, text, h => by
    rw [tokens, List.cons_append, List.append_assoc] at h
    obtain ⟨before, part, rest, hbefore, ⟨-⟩, hrest, rfl⟩ := Lexed.exists_append h
    by_cases hempty : items = []
    · subst hempty
      obtain ⟨blanks, closing, last, hblanks, ⟨-⟩, hlast, rfl⟩ := Lexed.exists_append hrest
      exact ⟨before, _, last, hbefore, .emptyArray hblanks, hlast, by simp⟩
    · obtain ⟨inner, last, hinner, hlast, rfl⟩ := itemsSpelledBy_of_lexed items hempty hrest
      exact ⟨before, _, last, hbefore, .array hinner, hlast, by simp⟩
  | .object members, more, text, h => by
    rw [tokens, List.cons_append, List.append_assoc] at h
    obtain ⟨before, part, rest, hbefore, ⟨-⟩, hrest, rfl⟩ := Lexed.exists_append h
    by_cases hempty : members = []
    · subst hempty
      obtain ⟨blanks, closing, last, hblanks, ⟨-⟩, hlast, rfl⟩ := Lexed.exists_append hrest
      exact ⟨before, _, last, hbefore, .emptyObject hblanks, hlast, by simp⟩
    · obtain ⟨inner, last, hinner, hlast, rfl⟩ := membersSpelledBy_of_lexed members hempty hrest
      exact ⟨before, _, last, hbefore, .object hinner, hlast, by simp⟩

/-- A text that begins with the tokens of items and the end of their array begins with their
text. -/
theorem itemsSpelledBy_of_lexed : ∀ (items : List Value) {more : List Token} {text : List Char},
    items ≠ [] → Lexed (itemTokens items ++ ([.closeBracket] ++ more)) text → ∃ part rest,
      ItemsSpelledBy items part ∧ Lexed more rest ∧ text = part ++ ']' :: rest
  | [], _, _, hne, _ => absurd rfl hne
  | [v], more, text, _, h => by
    rw [itemTokens] at h
    obtain ⟨before, part, rest, hbefore, hpart, hrest, rfl⟩ := spelledBy_of_lexed v h
    obtain ⟨after, closing, last, hafter, ⟨-⟩, hlast, rfl⟩ := Lexed.exists_append hrest
    exact ⟨before ++ part ++ after, last, .last hbefore hpart hafter, hlast, by simp⟩
  | v :: w :: items, more, text, _, h => by
    rw [itemTokens_cons_cons, List.append_assoc] at h
    obtain ⟨before, part, rest, hbefore, hpart, hrest, rfl⟩ := spelledBy_of_lexed v h
    obtain ⟨after, comma, rest, hafter, ⟨-⟩, hmore, rfl⟩ := Lexed.exists_append hrest
    obtain ⟨inner, last, hinner, hlast, rfl⟩ :=
      itemsSpelledBy_of_lexed (w :: items) (List.cons_ne_nil w items) hmore
    exact ⟨_, last, .more hbefore hpart hafter hinner, hlast, by simp⟩

/-- A text that begins with the tokens of members and the end of their object begins with their
text. -/
theorem membersSpelledBy_of_lexed : ∀ (members : List (String × Value)) {more : List Token}
    {text : List Char}, members ≠ [] →
      Lexed (memberTokens members ++ ([.closeBrace] ++ more)) text → ∃ part rest,
        MembersSpelledBy members part ∧ Lexed more rest ∧ text = part ++ '\x7d' :: rest
  | [], _, _, hne, _ => absurd rfl hne
  | [(name, v)], more, text, _, h => by
    rw [memberTokens, List.cons_append, List.cons_append] at h
    obtain ⟨before, key, rest, hbefore, hkey, hrest, rfl⟩ := Lexed.exists_append h
    obtain ⟨colon, mark, rest, hcolon, ⟨-⟩, hvalue, rfl⟩ := Lexed.exists_append hrest
    obtain ⟨between, part, rest, hbetween, hpart, hend, rfl⟩ := spelledBy_of_lexed v hvalue
    obtain ⟨after, closing, last, hafter, ⟨-⟩, hlast, rfl⟩ := Lexed.exists_append hend
    cases hkey with
    | string hkey =>
      exact ⟨_, last, .last hbefore hkey hcolon hbetween hpart hafter, hlast, by simp⟩
  | (name, v) :: m :: members, more, text, _, h => by
    rw [memberTokens_cons_cons, List.cons_append, List.cons_append, List.append_assoc] at h
    obtain ⟨before, key, rest, hbefore, hkey, hrest, rfl⟩ := Lexed.exists_append h
    obtain ⟨colon, mark, rest, hcolon, ⟨-⟩, hvalue, rfl⟩ := Lexed.exists_append hrest
    obtain ⟨between, part, rest, hbetween, hpart, hend, rfl⟩ := spelledBy_of_lexed v hvalue
    obtain ⟨after, comma, rest, hafter, ⟨-⟩, hmore, rfl⟩ := Lexed.exists_append hend
    obtain ⟨inner, last, hinner, hlast, rfl⟩ :=
      membersSpelledBy_of_lexed (m :: members) (List.cons_ne_nil m members) hmore
    cases hkey with
    | string hkey =>
      exact ⟨_, last, .more hbefore hkey hcolon hbetween hpart hafter hinner, hlast, by simp⟩

end

/-- A text is read as a value if and only if it writes that value. -/
theorem ofText?_eq_some_iff {text : List Char} {v : Value} :
    ofText? text = some v ↔ v.WrittenBy text := by
  rw [ofText?, Option.bind_eq_some_iff]
  constructor
  · rintro ⟨tokens, hscan, htokens⟩
    obtain ⟨rfl, hdepth⟩ := ofTokens?_eq_some_iff.mp htokens
    obtain ⟨more, hmore, heq⟩ := Token.lexed_of_scan? hscan
    rw [List.reverse_nil, List.nil_append] at heq
    subst heq
    rw [← List.append_nil v.tokens] at hmore
    obtain ⟨before, part, after, hbefore, hpart, ⟨hafter⟩, rfl⟩ := spelledBy_of_lexed v hmore
    exact .mk hbefore hpart hafter hdepth
  · rintro ⟨hbefore, hv, hafter, hdepth⟩
    refine ⟨v.tokens, ?_, ofTokens?_eq_some_iff.mpr ⟨rfl, hdepth⟩⟩
    have hend : NotAhead Lengthens [] := by simp [NotAhead]
    have hscan := hv.scan? [] _ (fun _ _ => hafter.notAhead hend)
    rw [Token.scan?_blanks hafter, List.append_nil, List.append_nil] at hscan
    rw [Token.ofText?, List.append_assoc, Token.scan?_blanks hbefore, hscan, Token.scan?,
      List.reverse_reverse]

/-- A text that is not made of tokens writes no value. -/
theorem not_writtenBy_of_scan? {text : List Char} (h : Token.scan? [] text = none) (v : Value) :
    ¬v.WrittenBy text := by
  intro hv
  have hread := ofText?_eq_some_iff.mpr hv
  rw [ofText?, Token.ofText?, h, Option.bind_none] at hread
  cases hread

/-- A text writes at most one value. -/
theorem WrittenBy.unique {text : List Char} {v w : Value} (hv : v.WrittenBy text)
    (hw : w.WrittenBy text) : v = w :=
  Option.some.inj ((ofText?_eq_some_iff.mpr hv).symm.trans (ofText?_eq_some_iff.mpr hw))

end Value

end LoginService.Json
