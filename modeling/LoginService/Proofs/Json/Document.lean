import LoginService.Json.Embedded.Lemmas
import LoginService.Proofs.Json.Text
import LoginService.Proofs.Utf8

/-!
# Documents

What a document stands for, without reference to how it is read: the value that its text writes, in
which every object that embeds a text has given way to what that text stands for. A value in which
no object begins with the reserved name stands for itself, so for such a document this is the
grammar and nothing else.
-/

namespace LoginService.Json

/-- The first member of an object has the reserved name. -/
def Reserved (members : List (String × Value)) : Prop :=
  members.head?.map Prod.fst = some embeddedName

instance (members : List (String × Value)) : Decidable (Reserved members) :=
  inferInstanceAs (Decidable (_ = _))

/-- The reader looks for embedded texts where the first member has the reserved name. -/
theorem embeds_iff {members : List (String × Value)} : embeds members ↔ Reserved members := by
  cases members with
  | nil => simp [embeds, Reserved]
  | cons m members => simp [embeds, Reserved]

namespace Value

mutual

/-- What a value stands for. An object that begins with the reserved name stands for something only
if that member is alone and holds a text that writes a value which stands for something. -/
inductive Resolves : Value → Value → Prop where
  | null : Resolves .null .null
  | bool (b : Bool) : Resolves (.bool b) (.bool b)
  | number (n : Number) : Resolves (.number n) (.number n)
  | string (s : String) : Resolves (.string s) (.string s)
  | array {items found : List Value} (h : ItemsResolve items found) :
      Resolves (.array items) (.array found)
  | object {members found : List (String × Value)} (hfirst : ¬Reserved members)
      (h : MembersResolve members found) : Resolves (.object members) (.object found)
  | embedded {s : String} {v w : Value} (hs : v.WrittenBy s.toList) (h : Resolves v w) :
      Resolves (.object [(embeddedName, .string s)]) w

/-- What items stand for, one by one. -/
inductive ItemsResolve : List Value → List Value → Prop where
  | nil : ItemsResolve [] []
  | cons {v w : Value} {items found : List Value} (hv : Resolves v w)
      (hitems : ItemsResolve items found) : ItemsResolve (v :: items) (w :: found)

/-- What members stand for, one by one. Their names stay. -/
inductive MembersResolve : List (String × Value) → List (String × Value) → Prop where
  | nil : MembersResolve [] []
  | cons {name : String} {v w : Value} {members found : List (String × Value)} (hv : Resolves v w)
      (hmembers : MembersResolve members found) :
      MembersResolve ((name, v) :: members) ((name, w) :: found)

end

mutual

/-- An expansion is what the value stands for if the texts in it are read as what they stand for. -/
theorem resolves_of_expand? {P : String → Prop} {read : String → Option Value}
    (hread : ∀ s u, P s → read s = some u → ∃ v : Value, v.WrittenBy s.toList ∧ v.Resolves u) :
    ∀ (v : Value) {w : Value}, v.StringsHave P → expand? read v = some w → v.Resolves w
  | .null, _, _, h => by
    cases h
    exact .null
  | .bool b, _, _, h => by
    cases h
    exact .bool b
  | .number n, _, _, h => by
    cases h
    exact .number n
  | .string s, _, _, h => by
    cases h
    exact .string s
  | .array items, _, hv, h => by
    rw [expand?, Option.map_eq_some_iff] at h
    obtain ⟨all, hitems, rfl⟩ := h
    obtain ⟨found, rfl, hfound⟩ := itemsResolve_of_expandItems? hread items [] hv hitems
    exact .array hfound
  | .object members, _, hv, h => by
    rw [expand?] at h
    split at h
    · next hembeds =>
      obtain ⟨s, htext, hs⟩ := Option.bind_eq_some_iff.mp h
      unfold embeddedText? at htext
      split at htext
      · cases htext
        obtain ⟨v, hwritten, hresolves⟩ := hread s _ hv.1 hs
        have hname := embeds_iff.mp hembeds
        simp only [Reserved, List.head?_cons, Option.map_some, Option.some.injEq] at hname
        subst hname
        exact .embedded hwritten hresolves
      · cases htext
    · next hembeds =>
      obtain ⟨all, hmembers, rfl⟩ := Option.map_eq_some_iff.mp h
      obtain ⟨found, rfl, hfound⟩ := membersResolve_of_expandMembers? hread members [] hv hmembers
      exact .object (fun hfirst => hembeds (embeds_iff.mpr hfirst)) hfound

/-- The expansions of items are what the items stand for. -/
theorem itemsResolve_of_expandItems? {P : String → Prop} {read : String → Option Value}
    (hread : ∀ s u, P s → read s = some u → ∃ v : Value, v.WrittenBy s.toList ∧ v.Resolves u) :
    ∀ (items done : List Value) {all : List Value}, ItemsHave P items →
      expandItems? read done items = some all →
        ∃ found, all = done.reverse ++ found ∧ ItemsResolve items found
  | [], done, _, _, h => by
    cases h
    exact ⟨[], by rw [List.append_nil], .nil⟩
  | v :: items, done, _, hall, h => by
    rw [expandItems?] at h
    split at h
    · cases h
    · next w hw =>
      obtain ⟨found, rfl, hfound⟩ := itemsResolve_of_expandItems? hread items _ hall.2 h
      exact ⟨w :: found, by simp, .cons (resolves_of_expand? hread v hall.1 hw) hfound⟩

/-- The expansions of members are what the members stand for. -/
theorem membersResolve_of_expandMembers? {P : String → Prop} {read : String → Option Value}
    (hread : ∀ s u, P s → read s = some u → ∃ v : Value, v.WrittenBy s.toList ∧ v.Resolves u) :
    ∀ (members done : List (String × Value)) {all : List (String × Value)},
      MembersHave P members → expandMembers? read done members = some all →
        ∃ found, all = done.reverse ++ found ∧ MembersResolve members found
  | [], done, _, _, h => by
    cases h
    exact ⟨[], by rw [List.append_nil], .nil⟩
  | (name, v) :: members, done, _, hall, h => by
    rw [expandMembers?] at h
    split at h
    · cases h
    · next w hw =>
      obtain ⟨found, rfl, hfound⟩ := membersResolve_of_expandMembers? hread members _ hall.2 h
      exact ⟨(name, w) :: found, by simp, .cons (resolves_of_expand? hread v hall.1 hw) hfound⟩

end

mutual

/-- What a value stands for is found by expanding it. -/
theorem Resolves.expand? : ∀ {v w : Value}, v.Resolves w →
    Value.expand? (fun s => ofDocument? s.toList) v = some w
  | _, _, .null | _, _, .bool _ | _, _, .number _ | _, _, .string _ => rfl
  | _, _, .array h => by
    rw [Value.expand?, h.expandItems? []]
    rfl
  | _, _, .object hfirst h => by
    rw [Value.expand?, if_neg fun hembeds => hfirst (embeds_iff.mp hembeds), h.expandMembers? []]
    rfl
  | _, _, .embedded (s := s) hs h => by
    have hembeds : embeds [(embeddedName, Value.string s)] := embeds_iff.mpr rfl
    rw [Value.expand?, if_pos hembeds, embeddedText?, Option.bind_some, ofDocument?_eq,
      ofText?_eq_some_iff.mpr hs, Option.bind_some]
    exact h.expand?

/-- What items stand for is found by expanding them. -/
theorem ItemsResolve.expandItems? : ∀ {items found : List Value}, ItemsResolve items found →
    ∀ done, Value.expandItems? (fun s => ofDocument? s.toList) done items =
      some (done.reverse ++ found)
  | _, _, .nil, done => by rw [Value.expandItems?, List.append_nil]
  | _, _, .cons hv hitems, done => by
    rw [Value.expandItems?, hv.expand?]
    simpa using hitems.expandItems? (_ :: done)

/-- What members stand for is found by expanding them. -/
theorem MembersResolve.expandMembers? : ∀ {members found : List (String × Value)},
    MembersResolve members found →
      ∀ done, Value.expandMembers? (fun s => ofDocument? s.toList) done members =
        some (done.reverse ++ found)
  | _, _, .nil, done => by rw [Value.expandMembers?, List.append_nil]
  | _, _, .cons hv hmembers, done => by
    rw [Value.expandMembers?, hv.expand?]
    simpa using hmembers.expandMembers? (_ :: done)

end

/-- A document is read as a value if and only if its text writes a value that stands for it. -/
theorem ofDocument?_eq_some_iff {text : List Char} {w : Value} :
    ofDocument? text = some w ↔ ∃ v : Value, v.WrittenBy text ∧ v.Resolves w := by
  induction hlength : text.length using Nat.strong_induction_on generalizing text w with
  | _ n ih =>
    subst hlength
    rw [ofDocument?_eq, Option.bind_eq_some_iff]
    constructor
    · rintro ⟨v, hv, hw⟩
      refine ⟨v, ofText?_eq_some_iff.mp hv, ?_⟩
      exact resolves_of_expand? (fun s u hs hu => (ih _ hs rfl).mp hu) v
        (stringsHave_of_ofText? hv) hw
    · rintro ⟨v, hv, hw⟩
      exact ⟨v, ofText?_eq_some_iff.mpr hv, hw.expand?⟩

/-- The members of an object that does not begin with the reserved name stand for something if the
object does. -/
theorem Resolves.members {members : List (String × Value)} {w : Value}
    (h : (Value.object members).Resolves w) (hfirst : ¬Reserved members) :
    ∃ found, MembersResolve members found := by
  cases h with
  | object _ hmembers => exact ⟨_, hmembers⟩
  | embedded => exact absurd rfl hfirst

/-- A value stands for at most one value. -/
theorem Resolves.unique {v w u : Value} (hw : v.Resolves w) (hu : v.Resolves u) : w = u :=
  Option.some.inj (hw.expand?.symm.trans hu.expand?)

mutual

/-- No object in the value begins with the reserved name. -/
def Plain : Value → Prop
  | .array items => ItemsPlain items
  | .object members => ¬Reserved members ∧ MembersPlain members
  | _ => True

/-- No object in the items begins with the reserved name. -/
def ItemsPlain : List Value → Prop
  | [] => True
  | v :: items => v.Plain ∧ ItemsPlain items

/-- No object in the values of the members begins with the reserved name. -/
def MembersPlain : List (String × Value) → Prop
  | [] => True
  | (_, v) :: members => v.Plain ∧ MembersPlain members

end

mutual

/-- A value without the reserved name stands for itself. -/
theorem Plain.resolves : ∀ {v : Value}, v.Plain → v.Resolves v
  | .null, _ => .null
  | .bool b, _ => .bool b
  | .number n, _ => .number n
  | .string s, _ => .string s
  | .array _, h => .array (ItemsPlain.itemsResolve h)
  | .object _, h => .object h.1 (MembersPlain.membersResolve h.2)

/-- Items without the reserved name stand for themselves. -/
theorem ItemsPlain.itemsResolve : ∀ {items : List Value}, ItemsPlain items →
    ItemsResolve items items
  | [], _ => .nil
  | _ :: _, h => .cons h.1.resolves (ItemsPlain.itemsResolve h.2)

/-- Members without the reserved name stand for themselves. -/
theorem MembersPlain.membersResolve : ∀ {members : List (String × Value)}, MembersPlain members →
    MembersResolve members members
  | [], _ => .nil
  | (_, _) :: _, h => .cons h.1.resolves (MembersPlain.membersResolve h.2)

end

/-- A value without the reserved name stands for itself only. -/
theorem Plain.resolves_iff {v w : Value} (hv : v.Plain) : v.Resolves w ↔ w = v := by
  constructor
  · intro hw
    exact hw.unique hv.resolves
  · rintro rfl
    exact hv.resolves

/-- What holds of the value that a plain value stands for holds of that value itself. -/
theorem Plain.exists_resolves_iff {P : Value → Prop} {v : Value} (hv : v.Plain) :
    (∃ w, v.Resolves w ∧ P w) ↔ P v := by
  constructor
  · rintro ⟨w, hw, hP⟩
    rw [← hv.resolves_iff.mp hw]
    exact hP
  · intro hP
    exact ⟨v, hv.resolves, hP⟩

/-- The bytes are the UTF-8 encoding of a text that writes the value. -/
def EncodedBy (v : Value) (bytes : Bytes) : Prop :=
  ∃ text : String, Utf8.encode text = bytes ∧ v.WrittenBy text.toList

/-- The encoding of a text writes what the text writes. -/
theorem encodedBy_encode {v : Value} {text : String} :
    v.EncodedBy (Utf8.encode text) ↔ v.WrittenBy text.toList := by
  constructor
  · rintro ⟨other, hother, hv⟩
    have hdecode := Utf8.decode?_encode other
    rw [hother, Utf8.decode?_encode] at hdecode
    cases hdecode
    exact hv
  · intro hv
    exact ⟨text, rfl, hv⟩

/-- Bytes write at most one value. -/
theorem EncodedBy.unique {v w : Value} {bytes : Bytes} (hv : v.EncodedBy bytes)
    (hw : w.EncodedBy bytes) : v = w := by
  obtain ⟨text, rfl, hv⟩ := hv
  exact hv.unique (encodedBy_encode.mp hw)

/-- Bytes are read as a value if and only if they write a value that stands for it. -/
theorem ofBytes?_eq_some_iff {bytes : Bytes} {w : Value} :
    ofBytes? bytes = some w ↔ ∃ v : Value, v.EncodedBy bytes ∧ v.Resolves w := by
  simp only [ofBytes?, Option.bind_eq_some_iff, Utf8.decode?_eq_some_iff, ofDocument?_eq_some_iff,
    EncodedBy]
  constructor
  · rintro ⟨text, htext, v, hv, hw⟩
    exact ⟨v, ⟨text, htext, hv⟩, hw⟩
  · rintro ⟨v, ⟨text, htext, hv⟩, hw⟩
    exact ⟨text, htext, v, hv, hw⟩

end Value

end LoginService.Json
