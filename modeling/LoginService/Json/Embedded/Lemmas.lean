import LoginService.Json.Embedded

/-!
# Embedded texts are shorter

Every string in the value of a text is shorter than the text. So the reading of embedded texts never
meets its bound, and `ofDocument?_eq` states it without one.
-/

namespace LoginService.Json

/-- A string token has a property; every other token has it without more. -/
def Token.StringHas (P : String → Prop) : Token → Prop
  | .string s => P s
  | _ => True

namespace Value

mutual

/-- Every string in the value has a property, the names of members apart. -/
def StringsHave (P : String → Prop) : Value → Prop
  | .string s => P s
  | .array items => ItemsHave P items
  | .object members => MembersHave P members
  | _ => True

/-- Every string in the items has a property. -/
def ItemsHave (P : String → Prop) : List Value → Prop
  | [] => True
  | v :: items => v.StringsHave P ∧ ItemsHave P items

/-- Every string in the members has a property, their names apart. -/
def MembersHave (P : String → Prop) : List (String × Value) → Prop
  | [] => True
  | (_, v) :: members => v.StringsHave P ∧ MembersHave P members

end

/-- The items have a property if each of them has it. -/
theorem itemsHave_iff {P : String → Prop} {items : List Value} :
    ItemsHave P items ↔ ∀ v ∈ items, v.StringsHave P := by
  induction items with
  | nil => simp [ItemsHave]
  | cons v items ih => simp [ItemsHave, ih]

/-- The members have a property if the value of each of them has it. -/
theorem membersHave_iff {P : String → Prop} {members : List (String × Value)} :
    MembersHave P members ↔ ∀ m ∈ members, m.2.StringsHave P := by
  induction members with
  | nil => simp [MembersHave]
  | cons m members ih => simp [MembersHave, ih]

end Value

/-- Every string in an open container has a property. -/
def Frame.StringsHave (P : String → Prop) : Frame → Prop
  | .array before => Value.ItemsHave P before
  | .object before _ => Value.MembersHave P before

namespace State

/-- Every string that has been read has a property. -/
def StringsHave (P : String → Prop) : State → Prop
  | .value stack | .firstItem stack | .firstName stack => ∀ f ∈ stack, f.StringsHave P
  | .nextName stack before | .colon stack before _ =>
    Value.MembersHave P before ∧ ∀ f ∈ stack, f.StringsHave P
  | .complete stack v => v.StringsHave P ∧ ∀ f ∈ stack, f.StringsHave P

/-- Taking a token where a value is due keeps a property of all strings. -/
theorem StringsHave.enter {P : String → Prop} {stack : List Frame} {t : Token} {after : State}
    (hstack : ∀ f ∈ stack, f.StringsHave P) (ht : t.StringHas P)
    (h : State.enter stack t = some after) : after.StringsHave P := by
  cases t <;> simp only [State.enter, Option.ite_none_right_eq_some, Option.some.injEq,
    reduceCtorEq] at h
  case openBrace | openBracket =>
    obtain ⟨-, rfl⟩ := h
    exact hstack
  case null | bool | number =>
    subst h
    exact ⟨trivial, hstack⟩
  case string =>
    subst h
    exact ⟨ht, hstack⟩

/-- Taking a token after a value keeps a property of all strings. -/
theorem StringsHave.proceed {P : String → Prop} {stack : List Frame} {v : Value} {f : Frame}
    {t : Token} {after : State} (hstack : ∀ f ∈ stack, f.StringsHave P) (hv : v.StringsHave P)
    (hf : f.StringsHave P) (h : State.proceed stack v f t = some after) :
    after.StringsHave P := by
  unfold State.proceed at h
  split at h
  · obtain rfl := Option.some.inj h
    intro frame hframe
    rcases List.mem_cons.mp hframe with rfl | hframe
    · exact ⟨hv, hf⟩
    · exact hstack frame hframe
  · next before =>
    obtain rfl := Option.some.inj h
    have hall : Value.ItemsHave P (v :: before) := ⟨hv, hf⟩
    refine ⟨?_, hstack⟩
    rw [Value.StringsHave, Value.itemsHave_iff]
    intro w hw
    exact Value.itemsHave_iff.mp hall w (List.mem_reverse.mp hw)
  · obtain rfl := Option.some.inj h
    exact ⟨⟨hv, hf⟩, hstack⟩
  · next before name =>
    obtain rfl := Option.some.inj h
    have hall : Value.MembersHave P ((name, v) :: before) := ⟨hv, hf⟩
    refine ⟨?_, hstack⟩
    rw [Value.StringsHave, Value.membersHave_iff]
    intro m hm
    exact Value.membersHave_iff.mp hall m (List.mem_reverse.mp hm)
  · simp at h

/-- Taking a token keeps a property of all strings. -/
theorem StringsHave.step {P : String → Prop} {before after : State} {t : Token}
    (hbefore : before.StringsHave P) (ht : t.StringHas P) (h : before.step t = some after) :
    after.StringsHave P := by
  unfold State.step at h
  split at h
  · exact StringsHave.enter hbefore ht h
  · obtain rfl := Option.some.inj h
    exact ⟨trivial, hbefore⟩
  · refine StringsHave.enter ?_ ht h
    intro f hf
    rcases List.mem_cons.mp hf with rfl | hf
    · trivial
    · exact hbefore f hf
  · obtain rfl := Option.some.inj h
    exact ⟨trivial, hbefore⟩
  · obtain rfl := Option.some.inj h
    exact ⟨trivial, hbefore⟩
  · obtain rfl := Option.some.inj h
    exact hbefore
  · obtain rfl := Option.some.inj h
    intro f hf
    rcases List.mem_cons.mp hf with rfl | hf
    · exact hbefore.1
    · exact hbefore.2 f hf
  · obtain ⟨hv, hstack⟩ := hbefore
    exact StringsHave.proceed (fun f hf => hstack f (List.mem_cons_of_mem _ hf)) hv
      (hstack _ List.mem_cons_self) h
  · simp at h

/-- Taking tokens one by one keeps a property of all strings. -/
theorem StringsHave.foldlM {P : String → Prop} {before after : State} {tokens : List Token}
    (hbefore : before.StringsHave P) (htokens : ∀ t ∈ tokens, t.StringHas P)
    (h : tokens.foldlM State.step before = some after) : after.StringsHave P := by
  induction tokens generalizing before with
  | nil =>
    obtain rfl := Option.some.inj h
    exact hbefore
  | cons t tokens ih =>
    rw [List.foldlM_cons] at h
    obtain ⟨middle, hstep, hrest⟩ := Option.bind_eq_some_iff.mp h
    exact ih (hbefore.step (htokens t List.mem_cons_self) hstep)
      (fun t ht => htokens t (List.mem_cons_of_mem _ ht)) hrest

end State

/-- A string token is shorter than the text it was read from. -/
theorem Token.stringHas_of_read? {text rest : List Char} {t : Token}
    (h : Token.read? text = some (t, rest)) :
    t.StringHas fun s => s.toList.length < text.length := by
  unfold Token.read? at h
  split at h
  case h_7 =>
    obtain ⟨⟨contents, last⟩, hcontents, hpair⟩ := Option.map_eq_some_iff.mp h
    obtain ⟨rfl, -⟩ := Prod.mk.inj hpair
    have := Quoted.length_add_of_closing? hcontents
    simp only [Token.StringHas, String.toList_ofList, List.length_cons, List.length_nil] at this ⊢
    omega
  case h_11 =>
    simp only [Token.number?, Option.bind_eq_bind, Option.bind_eq_some_iff, Option.pure_def,
      Option.some.injEq, Prod.mk.injEq] at h
    obtain ⟨-, -, -, -, rfl, -⟩ := h
    trivial
  all_goals
    obtain ⟨rfl, -⟩ := Prod.mk.inj (Option.some.inj h)
    trivial

/-- A property of strings that holds of a token holds of it if it is weakened. -/
theorem Token.StringHas.imp {P Q : String → Prop} {t : Token} (h : ∀ s, P s → Q s)
    (ht : t.StringHas P) : t.StringHas Q := by
  cases t with
  | string s => exact h s ht
  | _ => trivial

/-- The string tokens of a text are shorter than the text. -/
theorem Token.stringHas_of_scan? {bound : Nat} {before tokens : List Token} {text : List Char}
    (hbefore : ∀ t ∈ before, t.StringHas fun s => s.toList.length < bound)
    (hbound : text.length ≤ bound) (h : Token.scan? before text = some tokens) :
    ∀ t ∈ tokens, t.StringHas fun s => s.toList.length < bound := by
  fun_induction Token.scan? before text with
  | case1 before =>
    obtain rfl := Option.some.inj h
    intro t ht
    exact hbefore t (List.mem_reverse.mp ht)
  | case2 before c rest hblank ih =>
    rw [List.length_cons] at hbound
    exact ih hbefore (by omega) h
  | case3 => simp at h
  | case4 before c rest hblank t last hread ih =>
    have hshorter := Token.length_of_read? hread
    refine ih ?_ (by omega) h
    intro u hu
    rcases List.mem_cons.mp hu with rfl | hu
    · exact (Token.stringHas_of_read? hread).imp fun s hs => by omega
    · exact hbefore u hu

namespace Value

/-- The strings in the value of a text are shorter than the text. -/
theorem stringsHave_of_ofText? {text : List Char} {v : Value} (h : ofText? text = some v) :
    v.StringsHave fun s => s.toList.length < text.length := by
  obtain ⟨tokens, htokens, hvalue⟩ := Option.bind_eq_some_iff.mp h
  have hall := Token.stringHas_of_scan? (by simp) (Nat.le_refl _) htokens
  unfold ofTokens? at hvalue
  split at hvalue
  · next w hfold =>
    obtain rfl := Option.some.inj hvalue
    exact (State.StringsHave.foldlM (by simp [State.StringsHave]) hall hfold).1
  · simp at hvalue

mutual

/-- Expansion depends only on how the strings in a value are read. -/
theorem expand?_congr {P : String → Prop} {f g : String → Option Value}
    (hfg : ∀ s, P s → f s = g s) : ∀ v : Value, v.StringsHave P → expand? f v = expand? g v
  | .null, _ | .bool _, _ | .number _, _ | .string _, _ => rfl
  | .array items, hv => by
    rw [expand?, expand?, expandItems?_congr hfg items [] hv]
  | .object members, hv => by
    rw [expand?, expand?, expandMembers?_congr hfg members [] hv]
    split
    · unfold embeddedText?
      split
      · exact hfg _ hv.1
      · rfl
    · rfl

/-- Expansion of items depends only on how the strings in them are read. -/
theorem expandItems?_congr {P : String → Prop} {f g : String → Option Value}
    (hfg : ∀ s, P s → f s = g s) : ∀ (items done : List Value), ItemsHave P items →
      expandItems? f done items = expandItems? g done items
  | [], _, _ => rfl
  | v :: items, done, hitems => by
    rw [expandItems?, expandItems?, expand?_congr hfg v hitems.1]
    split
    · rfl
    · exact expandItems?_congr hfg items _ hitems.2

/-- Expansion of members depends only on how the strings in them are read. -/
theorem expandMembers?_congr {P : String → Prop} {f g : String → Option Value}
    (hfg : ∀ s, P s → f s = g s) : ∀ members done : List (String × Value),
      MembersHave P members → expandMembers? f done members = expandMembers? g done members
  | [], _, _ => rfl
  | (name, v) :: members, done, hmembers => by
    rw [expandMembers?, expandMembers?, expand?_congr hfg v hmembers.1]
    split
    · rfl
    · exact expandMembers?_congr hfg members _ hmembers.2

end

/-- The value of a document is the value of its text in which each embedded text is replaced by the
value of that document. -/
theorem ofDocument?_eq (text : List Char) :
    ofDocument? text = (ofText? text).bind (expand? fun s => ofDocument? s.toList) := by
  rw [ofDocument?]
  cases htext : ofText? text with
  | none => rfl
  | some v =>
    exact expand?_congr (fun s hs => if_pos hs) v (stringsHave_of_ofText? htext)

end Value

end LoginService.Json
