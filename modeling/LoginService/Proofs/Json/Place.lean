import LoginService.Proofs.Json.Text

/-!
# Places in a text

A place in the text of a value is what stands before it and behind it. Whatever value is written
there, the whole is the text of a value again. A numeral out of range that stands in a place spoils
the whole text.
-/

namespace LoginService.Json

open Numeral (Lengthens)

/-- A numeral out of range is no token. -/
theorem Token.scan?_eq_none {numeral : Numeral} {literal rest : List Char}
    (hspelled : numeral.SpelledBy literal) (hnumber : numeral.number? = none)
    (hrest : NotAhead Lengthens rest) (before : List Token) :
    scan? before (literal ++ rest) = none := by
  obtain ⟨first, more, rfl, hfirst⟩ := hspelled.exists_cons
  have hblank : ¬isBlank first := by
    intro hblank
    rcases isBlank_iff.mp hblank with rfl | rfl | rfl | rfl <;> exact absurd hfirst (by decide)
  have hread : read? (first :: (more ++ rest)) = none := by
    rw [read?_eq_number? hfirst, Token.number?, ← List.cons_append]
    simp only [hspelled.read? hrest, hnumber, Option.bind_eq_bind, Option.bind_some,
      Option.bind_none]
  exact scan?_eq_none_of_read? hblank hread before

namespace Value

mutual

/-- A place in the text of a value, by what stands before and behind it. What is written there is
filled into the value of the whole. -/
inductive Around : (Value → Value) → List Char → List Char → Prop where
  | here : Around (fun v => v) [] []
  | array {fill : Value → List Value} {before after : List Char}
      (h : ItemsAround fill before after) :
      Around (fun v => .array (fill v)) ('[' :: before) (after ++ [']'])
  | object {fill : Value → List (String × Value)} {before after : List Char}
      (h : MembersAround fill before after) :
      Around (fun v => .object (fill v)) ('\x7b' :: before) (after ++ ['\x7d'])

/-- A place in the text of items. -/
inductive ItemsAround : (Value → List Value) → List Char → List Char → Prop where
  | last {fill : Value → Value} {front before after back : List Char} (hfront : Blanks front)
      (h : Around fill before after) (hback : Blanks back) :
      ItemsAround (fun v => [fill v]) (front ++ before) (after ++ back)
  | first {fill : Value → Value} {items : List Value} {front before after back rest : List Char}
      (hfront : Blanks front) (h : Around fill before after) (hback : Blanks back)
      (hitems : ItemsSpelledBy items rest) :
      ItemsAround (fun v => fill v :: items) (front ++ before) (after ++ back ++ ',' :: rest)
  | later {u : Value} {fill : Value → List Value} {front text back before after : List Char}
      (hfront : Blanks front) (hu : SpelledBy u text) (hback : Blanks back)
      (h : ItemsAround fill before after) :
      ItemsAround (fun v => u :: fill v) (front ++ text ++ back ++ ',' :: before) after

/-- A place in the text of members, for the value of one of them. -/
inductive MembersAround : (Value → List (String × Value)) → List Char → List Char → Prop where
  | last {name : String} {fill : Value → Value}
      {front key colon between before after back : List Char} (hfront : Blanks front)
      (hname : Quoted.SpelledBy name key) (hcolon : Blanks colon) (hbetween : Blanks between)
      (h : Around fill before after) (hback : Blanks back) :
      MembersAround (fun v => [(name, fill v)])
        (front ++ key ++ colon ++ ':' :: (between ++ before)) (after ++ back)
  | first {name : String} {fill : Value → Value} {members : List (String × Value)}
      {front key colon between before after back rest : List Char} (hfront : Blanks front)
      (hname : Quoted.SpelledBy name key) (hcolon : Blanks colon) (hbetween : Blanks between)
      (h : Around fill before after) (hback : Blanks back)
      (hmembers : MembersSpelledBy members rest) :
      MembersAround (fun v => (name, fill v) :: members)
        (front ++ key ++ colon ++ ':' :: (between ++ before)) (after ++ back ++ ',' :: rest)
  | later {name : String} {u : Value} {fill : Value → List (String × Value)}
      {front key colon between text back before after : List Char} (hfront : Blanks front)
      (hname : Quoted.SpelledBy name key) (hcolon : Blanks colon) (hbetween : Blanks between)
      (hu : SpelledBy u text) (hback : Blanks back) (h : MembersAround fill before after) :
      MembersAround (fun v => (name, u) :: fill v)
        (front ++ key ++ colon ++ ':' :: (between ++ text ++ back ++ ',' :: before)) after

end

mutual

/-- The text of a value in a place makes the text of a value. -/
theorem Around.spelledBy {v : Value} {text : List Char} (hv : SpelledBy v text) :
    ∀ {fill : Value → Value} {before after : List Char}, Around fill before after →
      SpelledBy (fill v) (before ++ text ++ after)
  | _, _, _, .here => by simpa using hv
  | _, _, _, .array h => by simpa using SpelledBy.array (h.spelledBy hv)
  | _, _, _, .object h => by simpa using SpelledBy.object (h.spelledBy hv)

/-- The text of a value in a place among items makes the text of items. -/
theorem ItemsAround.spelledBy {v : Value} {text : List Char} (hv : SpelledBy v text) :
    ∀ {fill : Value → List Value} {before after : List Char}, ItemsAround fill before after →
      ItemsSpelledBy (fill v) (before ++ text ++ after)
  | _, _, _, .last hfront h hback => by
    simpa using ItemsSpelledBy.last hfront (h.spelledBy hv) hback
  | _, _, _, .first hfront h hback hitems => by
    simpa using ItemsSpelledBy.more hfront (h.spelledBy hv) hback hitems
  | _, _, _, .later hfront hu hback h => by
    simpa using ItemsSpelledBy.more hfront hu hback (h.spelledBy hv)

/-- The text of a value in a place among members makes the text of members. -/
theorem MembersAround.spelledBy {v : Value} {text : List Char} (hv : SpelledBy v text) :
    ∀ {fill : Value → List (String × Value)} {before after : List Char},
      MembersAround fill before after → MembersSpelledBy (fill v) (before ++ text ++ after)
  | _, _, _, .last hfront hname hcolon hbetween h hback => by
    simpa using MembersSpelledBy.last hfront hname hcolon hbetween (h.spelledBy hv) hback
  | _, _, _, .first hfront hname hcolon hbetween h hback hmembers => by
    simpa using MembersSpelledBy.more hfront hname hcolon hbetween (h.spelledBy hv) hback hmembers
  | _, _, _, .later hfront hname hcolon hbetween hu hback h => by
    simpa using MembersSpelledBy.more hfront hname hcolon hbetween hu hback (h.spelledBy hv)

end

mutual

/-- What stands before a place is scanned into tokens. -/
theorem Around.scan? : ∀ {fill : Value → Value} {before after : List Char},
    Around fill before after → ∃ tokens, ∀ (done : List Token) (rest : List Char),
      Token.scan? done (before ++ rest) = Token.scan? (tokens ++ done) rest
  | _, _, _, .here => ⟨[], fun _ _ => rfl⟩
  | _, _, _, .array h => by
    obtain ⟨tokens, htokens⟩ := h.scan?
    refine ⟨tokens ++ [.openBracket], fun done rest => ?_⟩
    rw [List.cons_append, Token.scan?_cons .openBracket (by simp), htokens, List.append_assoc]
    rfl
  | _, _, _, .object h => by
    obtain ⟨tokens, htokens⟩ := h.scan?
    refine ⟨tokens ++ [.openBrace], fun done rest => ?_⟩
    rw [List.cons_append, Token.scan?_cons .openBrace (by simp), htokens, List.append_assoc]
    rfl

/-- What stands before a place among items is scanned into tokens. -/
theorem ItemsAround.scan? : ∀ {fill : Value → List Value} {before after : List Char},
    ItemsAround fill before after → ∃ tokens, ∀ (done : List Token) (rest : List Char),
      Token.scan? done (before ++ rest) = Token.scan? (tokens ++ done) rest
  | _, _, _, .last hfront h _ | _, _, _, .first hfront h _ _ => by
    obtain ⟨tokens, htokens⟩ := h.scan?
    refine ⟨tokens, fun done rest => ?_⟩
    rw [List.append_assoc, Token.scan?_blanks hfront, htokens]
  | _, _, _, .later (u := u) hfront hu hback h => by
    obtain ⟨tokens, htokens⟩ := h.scan?
    refine ⟨tokens ++ .comma :: u.tokens.reverse, fun done rest => ?_⟩
    rw [List.append_assoc, List.append_assoc, List.append_assoc, Token.scan?_blanks hfront,
      List.cons_append, hu.scan? _ _ (fun _ _ => hback.notAhead (notAhead_closing (by simp))),
      Token.scan?_blanks hback, Token.scan?_cons .comma (by simp), htokens, List.append_assoc]
    rfl

/-- What stands before a place among members is scanned into tokens. -/
theorem MembersAround.scan? : ∀ {fill : Value → List (String × Value)} {before after : List Char},
    MembersAround fill before after → ∃ tokens, ∀ (done : List Token) (rest : List Char),
      Token.scan? done (before ++ rest) = Token.scan? (tokens ++ done) rest
  | _, _, _, @MembersAround.last name _ _ _ _ _ _ _ _ hfront hname hcolon hbetween h _
  | _, _, _, @MembersAround.first name _ _ _ _ _ _ _ _ _ _ hfront hname hcolon hbetween h _ _ => by
    obtain ⟨tokens, htokens⟩ := h.scan?
    refine ⟨tokens ++ [.colon, .string name], fun done rest => ?_⟩
    rw [List.append_assoc, List.append_assoc, List.append_assoc, Token.scan?_blanks hfront,
      Token.scan?_name hname, Token.scan?_blanks hcolon, List.cons_append,
      Token.scan?_cons .colon (by simp), List.append_assoc, Token.scan?_blanks hbetween, htokens,
      List.append_assoc]
    rfl
  | _, _, _, @MembersAround.later name u _ _ _ _ _ _ _ _ _
      hfront hname hcolon hbetween hu hback h => by
    obtain ⟨tokens, htokens⟩ := h.scan?
    refine ⟨tokens ++ .comma :: (u.tokens.reverse ++ [.colon, .string name]), fun done rest => ?_⟩
    rw [List.append_assoc, List.append_assoc, List.append_assoc, Token.scan?_blanks hfront,
      Token.scan?_name hname, Token.scan?_blanks hcolon, List.cons_append,
      Token.scan?_cons .colon (by simp), List.append_assoc, List.append_assoc, List.append_assoc,
      Token.scan?_blanks hbetween, List.cons_append,
      hu.scan? _ _ (fun _ _ => hback.notAhead (notAhead_closing (by simp))),
      Token.scan?_blanks hback, Token.scan?_cons .comma (by simp), htokens]
    simp

end

mutual

/-- What stands behind a place does not lengthen a numeral in it. -/
theorem Around.notAhead : ∀ {fill : Value → Value} {before after rest : List Char},
    Around fill before after → NotAhead Lengthens rest → NotAhead Lengthens (after ++ rest)
  | _, _, _, _, .here, hrest => hrest
  | _, _, _, _, .array h, _ => by
    rw [List.append_assoc]
    exact h.notAhead (notAhead_closing (by simp))
  | _, _, _, _, .object h, _ => by
    rw [List.append_assoc]
    exact h.notAhead (notAhead_closing (by simp))

/-- What stands behind a place among items does not lengthen a numeral in it. -/
theorem ItemsAround.notAhead : ∀ {fill : Value → List Value} {before after rest : List Char},
    ItemsAround fill before after → NotAhead Lengthens rest → NotAhead Lengthens (after ++ rest)
  | _, _, _, _, .last _ h hback, hrest => by
    rw [List.append_assoc]
    exact h.notAhead (hback.notAhead hrest)
  | _, _, _, _, .first _ h hback _, _ => by
    rw [List.append_assoc, List.append_assoc]
    exact h.notAhead (hback.notAhead (notAhead_closing (by simp)))
  | _, _, _, _, .later _ _ _ h, hrest => h.notAhead hrest

/-- What stands behind a place among members does not lengthen a numeral in it. -/
theorem MembersAround.notAhead : ∀ {fill : Value → List (String × Value)}
    {before after rest : List Char}, MembersAround fill before after → NotAhead Lengthens rest →
      NotAhead Lengthens (after ++ rest)
  | _, _, _, _, .last _ _ _ _ h hback, hrest => by
    rw [List.append_assoc]
    exact h.notAhead (hback.notAhead hrest)
  | _, _, _, _, .first _ _ _ _ h hback _, _ => by
    rw [List.append_assoc, List.append_assoc]
    exact h.notAhead (hback.notAhead (notAhead_closing (by simp)))
  | _, _, _, _, .later _ _ _ _ _ _ h, hrest => h.notAhead hrest

end

mutual

/-- What is filled into a place adds its own depth to that of the whole. -/
theorem Around.depth_eq {v w : Value} (hdepth : v.depth = w.depth) :
    ∀ {fill : Value → Value} {before after : List Char}, Around fill before after →
      (fill v).depth = (fill w).depth
  | _, _, _, .here => hdepth
  | _, _, _, .array h => by simp only [depth, h.depth_eq hdepth]
  | _, _, _, .object h => by simp only [depth, h.depth_eq hdepth]

/-- What is filled into a place among items adds its own depth to that of the items. -/
theorem ItemsAround.depth_eq {v w : Value} (hdepth : v.depth = w.depth) :
    ∀ {fill : Value → List Value} {before after : List Char}, ItemsAround fill before after →
      itemsDepth (fill v) = itemsDepth (fill w)
  | _, _, _, .last _ h _ | _, _, _, .first _ h _ _ => by simp only [itemsDepth, h.depth_eq hdepth]
  | _, _, _, .later _ _ _ h => by simp only [itemsDepth, h.depth_eq hdepth]

/-- What is filled into a place among members adds its own depth to that of the members. -/
theorem MembersAround.depth_eq {v w : Value} (hdepth : v.depth = w.depth) :
    ∀ {fill : Value → List (String × Value)} {before after : List Char},
      MembersAround fill before after → membersDepth (fill v) = membersDepth (fill w)
  | _, _, _, .last _ _ _ _ h _ | _, _, _, .first _ _ _ _ h _ _ => by
    simp only [membersDepth, h.depth_eq hdepth]
  | _, _, _, .later _ _ _ _ _ _ h => by simp only [membersDepth, h.depth_eq hdepth]

end

/-- A place in a JSON text, with at most 127 containers open around a number that is written
there. -/
inductive Place (fill : Value → Value) : List Char → List Char → Prop where
  | mk {front before after back : List Char} (hfront : Blanks front) (h : Around fill before after)
      (hback : Blanks back) (hdepth : ∀ n, (fill (.number n)).depth ≤ 127) :
      Place fill (front ++ before) (after ++ back)

namespace Place

variable {fill : Value → Value} {front literal back : List Char} {numeral : Numeral}

/-- A value in a place that opens no container is written there. -/
theorem writtenBy_of_spelledBy (h : Place fill front back) {v : Value} (hv : v.SpelledBy literal)
    (hflat : v.depth = 0) : (fill v).WrittenBy (front ++ literal ++ back) := by
  cases h with
  | mk hfront h hback hdepth =>
    have heq : (fill v).depth = (fill (.number (.integer 0))).depth :=
      h.depth_eq (hflat.trans rfl)
    have hwritten := WrittenBy.mk hfront (h.spelledBy hv) hback (heq ▸ hdepth (.integer 0))
    simpa using hwritten

/-- A numeral in a place writes the number that it stands for. -/
theorem writtenBy (h : Place fill front back) (hspelled : numeral.SpelledBy literal) {n : Number}
    (hnumber : numeral.number? = some n) :
    (fill (.number n)).WrittenBy (front ++ literal ++ back) :=
  h.writtenBy_of_spelledBy (.number hspelled hnumber) rfl

/-- A numeral out of range in a place spoils the text. -/
theorem not_writtenBy (h : Place fill front back) (hspelled : numeral.SpelledBy literal)
    (hnumber : numeral.number? = none) (v : Value) : ¬v.WrittenBy (front ++ literal ++ back) := by
  intro hv
  cases h with
  | @mk front before after back hfront h hback =>
    obtain ⟨tokens, htokens⟩ := h.scan?
    have hblanks : NotAhead Lengthens back := by simpa using hback.notAhead notAhead_nil
    have hscan : Token.scan? [] (front ++ before ++ literal ++ (after ++ back)) = none := by
      rw [List.append_assoc, List.append_assoc, Token.scan?_blanks hfront, htokens]
      exact Token.scan?_eq_none hspelled hnumber (h.notAhead hblanks) _
    exact not_writtenBy_of_scan? hscan v hv

end Place

end Value

end LoginService.Json
