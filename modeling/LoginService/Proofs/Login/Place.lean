import LoginService.Proofs.Json.Place
import LoginService.Proofs.Login.Identifier

/-!
# The identifier in its place

A place in a body may be that of the last `requestId`. What is written there decides the identifier,
whatever else the body writes, as long as the whole stands for something. An object with no other
member always does.
-/

namespace LoginService

namespace Json

namespace Value

/-- What members stand for has their names. -/
theorem MembersResolve.forall_ne {name : String} : ∀ {members found : List (String × Value)},
    MembersResolve members found → (∀ m ∈ members, m.1 ≠ name) → ∀ m ∈ found, m.1 ≠ name
  | _, _, .nil, hnames => hnames
  | _, _, .cons _ hmembers, hnames => by
    rw [List.forall_mem_cons] at hnames ⊢
    exact ⟨hnames.1, hmembers.forall_ne hnames.2⟩

/-- The last member of a name stands for the last member of that name. -/
theorem MembersResolve.lastNamed {name : String} {members found : List (String × Value)} {v : Value}
    (h : MembersResolve members found) (hlast : LastNamed name members v) :
    ∃ w, v.Resolves w ∧ LastNamed name found w := by
  obtain ⟨before, after, rfl, hafter⟩ := hlast
  induction before generalizing found with
  | nil =>
    cases h with
    | cons hv hmembers => exact ⟨_, hv, [], _, rfl, hmembers.forall_ne hafter⟩
  | cons m before ih =>
    cases h with
    | @cons other _ u _ _ _ hmembers =>
      obtain ⟨w, hw, more, rest, rfl, hrest⟩ := ih hmembers
      exact ⟨w, hw, (other, u) :: more, rest, rfl, hrest⟩

end Value

end Json

namespace Login

open Json

/-- What names an identifier stands for itself. -/
theorem Names.eq_of_resolves {v w : Value} {found : String} (h : Names v found)
    (hw : v.Resolves w) : w = v := by
  cases h <;> cases hw <;> rfl

/-- What names an identifier opens no container. -/
theorem Names.flat {v : Value} {found : String} (h : Names v found) : v.depth = 0 ∧ v.Plain := by
  cases h <;> exact ⟨rfl, trivial⟩

/-- An object whose last `requestId` names an identifier stands for an object with the same last
one, whatever its other members stand for. -/
theorem lastNamed_of_resolves {members : List (String × Value)} {v w : Value} {found : String}
    (hlast : LastNamed identifierName members v) (hv : Names v found)
    (hw : (Value.object members).Resolves w) :
    ∃ all, w = .object all ∧ LastNamed identifierName all v := by
  cases hw with
  | object _ hmembers =>
    obtain ⟨u, hu, hfound⟩ := hmembers.lastNamed hlast
    obtain rfl := hv.eq_of_resolves hu
    exact ⟨_, rfl, hfound⟩
  | embedded =>
    exact absurd (by simp [embeddedName, identifierName]) hlast.not_forall_ne

/-- An object whose last `requestId` names an identifier carries it, whatever else it stands for. -/
theorem carries_of_names {members : List (String × Value)} {v w : Value} {found : String}
    (hlast : LastNamed identifierName members v) (hv : Names v found)
    (hw : (Value.object members).Resolves w) : Carries w found := by
  obtain ⟨all, rfl, hall⟩ := lastNamed_of_resolves hlast hv hw
  exact .present hall hv

/-- An object whose last `requestId` is a number carries its text, whatever else it stands for. -/
theorem carries_of_resolves {members : List (String × Value)} {n : Number} {w : Value}
    (hlast : LastNamed identifierName members (.number n))
    (hw : (Value.object members).Resolves w) : Carries w n.text :=
  carries_of_names hlast (.number n) hw

/-- Whatever is written in a place is the last `requestId` of the body. -/
def Designates (fill : Value → Value) : Prop :=
  ∀ v, ∃ members, fill v = .object members ∧ LastNamed identifierName members v

section

variable {text : String} {front literal back : List Char} {fill : Value → Value} {v : Value}
  {found : String}

/-- What names an identifier and is written in a place of the last `requestId` gives that identifier
and no other, if the whole stands for something. -/
theorem identifier_eq_ok_iff_of_place (htext : text.toList = front ++ literal ++ back)
    (hplace : Value.Place fill front back) (hdesignates : Designates fill)
    (hspelled : v.SpelledBy literal) (hv : Names v found) {other : String} :
    identifier (Utf8.encode text) = .ok other ↔ other = found ∧ ∃ w, (fill v).Resolves w := by
  have hbody : (fill v).EncodedBy (Utf8.encode text) := by
    rw [Value.encodedBy_encode, htext]
    exact hplace.writtenBy_of_spelledBy hspelled hv.flat.1
  obtain ⟨members, hmembers, hlast⟩ := hdesignates v
  rw [identifier_eq_ok_iff_of_encodedBy hbody, hmembers]
  constructor
  · rintro ⟨w, hw, hcarries⟩
    exact ⟨hcarries.unique (carries_of_names hlast hv hw), w, hw⟩
  · rintro ⟨rfl, w, hw⟩
    exact ⟨w, hw, carries_of_names hlast hv hw⟩

/-- A numeral without a value in a place spoils the body. -/
theorem identifier_ne_ok_of_number? {numeral : Numeral}
    (htext : text.toList = front ++ literal ++ back) (hplace : Value.Place fill front back)
    (hspelled : numeral.SpelledBy literal) (hnumber : numeral.number? = none) (other : String) :
    identifier (Utf8.encode text) ≠ .ok other := by
  intro hread
  obtain ⟨v, -, hv, -⟩ := identifier_eq_ok_iff.mp hread
  rw [Value.encodedBy_encode, htext] at hv
  exact hplace.not_writtenBy hspelled hnumber v hv

/-- A place for the only member of an object, with blanks wherever they may stand. -/
theorem place_single {name : String} {outside inside key colon between behind last : List Char}
    (houtside : Blanks outside) (hinside : Blanks inside) (hname : Quoted.SpelledBy name key)
    (hcolon : Blanks colon) (hbetween : Blanks between) (hbehind : Blanks behind)
    (hlast : Blanks last) :
    Value.Place (fun v => .object [(name, v)])
      (outside ++ '\x7b' :: (inside ++ key ++ colon ++ ':' :: between))
      (behind ++ '\x7d' :: last) := by
  have hdepth : ∀ n, (Value.object [(name, .number n)]).depth ≤ 127 := by
    intro n
    simp [Value.depth, Value.membersDepth]
  have hmember := Value.MembersAround.last hinside hname hcolon hbetween .here hbehind
  simpa using Value.Place.mk houtside (.object hmember) hlast hdepth

/-- A place for the only member of an object, without blanks. -/
theorem place_only (name : String) :
    Value.Place (fun v => .object [(name, v)]) ('\x7b' :: (Quoted.literal name ++ [':']))
      ['\x7d'] := by
  simpa using place_single blanks_nil blanks_nil (Quoted.spelledBy_literal name) blanks_nil
    blanks_nil blanks_nil blanks_nil

/-- If its name is `requestId`, it is the last one of that name. -/
theorem designates_only : Designates fun v => .object [(identifierName, v)] :=
  fun _ => ⟨_, rfl, [], [], rfl, by simp⟩

/-- An object with nothing but a `requestId` that names an identifier stands for itself. -/
theorem Names.plain_only (hv : Names v found) : (Value.object [(identifierName, v)]).Plain := by
  have hfirst : ¬Reserved [(identifierName, v)] := by
    simp [Reserved, identifierName, embeddedName]
  exact ⟨hfirst, hv.flat.2, trivial⟩

/-- What names an identifier and is written as the only member of a body gives that identifier. -/
theorem identifier_of_only (htext : text.toList = front ++ literal ++ back)
    (hplace : Value.Place (fun v => .object [(identifierName, v)]) front back)
    (hspelled : v.SpelledBy literal) (hv : Names v found) :
    identifier (Utf8.encode text) = .ok found :=
  (identifier_eq_ok_iff_of_place htext hplace designates_only hspelled hv).mpr
    ⟨rfl, _, hv.plain_only.resolves⟩

end

/-- The text of a body with nothing but a `requestId`, without blanks. -/
def onlyIdentifier (literal : List Char) : String :=
  String.ofList ("\x7b\"requestId\":".toList ++ literal ++ ['\x7d'])

/-- What stands before and behind the identifier in that text. -/
theorem toList_onlyIdentifier (literal : List Char) :
    (onlyIdentifier literal).toList = "\x7b\"requestId\":".toList ++ literal ++ ['\x7d'] :=
  String.toList_ofList

/-- The text with a short identifier is not too long for a body. -/
theorem length_onlyIdentifier_le {literal : List Char}
    (h : 4 * (literal.length + 14) ≤ bodyLimit) :
    (Utf8.encode (onlyIdentifier literal)).length ≤ bodyLimit := by
  have hbytes := Utf8.length_encode_le (onlyIdentifier literal)
  have hfront : "\x7b\"requestId\":".toList.length = 13 := by decide
  rw [toList_onlyIdentifier, List.length_append, List.length_append, List.length_singleton,
    hfront] at hbytes
  omega

/-- The identifier stands in a place of that text. -/
theorem place_onlyIdentifier : Value.Place (fun v => .object [(identifierName, v)])
    "\x7b\"requestId\":".toList ['\x7d'] := by
  have hfront : '\x7b' :: (Quoted.literal identifierName ++ [':']) =
      "\x7b\"requestId\":".toList := by decide
  exact hfront ▸ place_only identifierName

end Login

end LoginService
