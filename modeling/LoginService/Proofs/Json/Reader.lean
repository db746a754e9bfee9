import LoginService.Json.Reader
import LoginService.Json.Writer
import LoginService.Proofs.Json.Grammar
import Mathlib.Data.List.Induction

/-!
# Reading tokens back into a value

A state of the reader holds everything that it has taken, so the tokens taken can be read off it,
and a step appends the token it takes. A finished run has therefore taken exactly the tokens of its
value. In the other direction the tokens of a value lead through the machine as long as no more than
127 containers are open, which is the same as a bound on the depth of the value.
-/

namespace LoginService.Json

namespace Value

/-- An item that another one follows. -/
def itemAndComma (v : Value) : List Token :=
  v.tokens ++ [.comma]

/-- A member that another one follows. -/
def memberAndComma (m : String × Value) : List Token :=
  .string m.1 :: .colon :: (m.2.tokens ++ [.comma])

/-- A comma stands between two items. -/
theorem itemTokens_cons_cons (v w : Value) (items : List Value) :
    itemTokens (v :: w :: items) = v.tokens ++ .comma :: itemTokens (w :: items) := rfl

/-- A comma stands between two members. -/
theorem memberTokens_cons_cons (name : String) (v : Value) (m : String × Value)
    (members : List (String × Value)) :
    memberTokens ((name, v) :: m :: members) =
      .string name :: .colon :: (v.tokens ++ .comma :: memberTokens (m :: members)) := rfl

/-- The tokens of items by the last of them. -/
theorem itemTokens_append (items : List Value) (v : Value) :
    itemTokens (items ++ [v]) = items.flatMap itemAndComma ++ v.tokens := by
  induction items with
  | nil => rw [List.nil_append, itemTokens, List.flatMap_nil, List.nil_append]
  | cons w items ih =>
    obtain ⟨u, more, hmore⟩ := List.exists_cons_of_ne_nil (List.append_ne_nil_of_right_ne_nil items
      (List.cons_ne_nil v []))
    rw [List.cons_append, hmore, itemTokens_cons_cons, ← hmore, ih, List.flatMap_cons, itemAndComma]
    simp

/-- The tokens of members by the last of them. -/
theorem memberTokens_append (members : List (String × Value)) (name : String) (v : Value) :
    memberTokens (members ++ [(name, v)]) =
      members.flatMap memberAndComma ++ .string name :: .colon :: v.tokens := by
  induction members with
  | nil => rw [List.nil_append, memberTokens, List.flatMap_nil, List.nil_append]
  | cons m members ih =>
    obtain ⟨u, more, hmore⟩ := List.exists_cons_of_ne_nil
      (List.append_ne_nil_of_right_ne_nil members (List.cons_ne_nil (name, v) []))
    obtain ⟨key, w⟩ := m
    rw [List.cons_append, hmore, memberTokens_cons_cons, ← hmore, ih, List.flatMap_cons,
      memberAndComma]
    simp

/-- The items are no deeper than a bound if none of them is. -/
theorem itemsDepth_le_iff {items : List Value} {n : Nat} :
    itemsDepth items ≤ n ↔ ∀ v ∈ items, v.depth ≤ n := by
  induction items with
  | nil => simp [itemsDepth]
  | cons v items ih => rw [itemsDepth, Nat.max_le, ih, List.forall_mem_cons]

/-- The members are no deeper than a bound if the value of none of them is. -/
theorem membersDepth_le_iff {members : List (String × Value)} {n : Nat} :
    membersDepth members ≤ n ↔ ∀ m ∈ members, m.2.depth ≤ n := by
  induction members with
  | nil => simp [membersDepth]
  | cons m members ih => rw [membersDepth, Nat.max_le, ih, List.forall_mem_cons]

/-- The order of items does not matter for their depth. -/
@[simp] theorem itemsDepth_reverse (items : List Value) :
    itemsDepth items.reverse = itemsDepth items := by
  apply Nat.le_antisymm
  · rw [itemsDepth_le_iff]
    exact fun v hv => itemsDepth_le_iff.mp (Nat.le_refl _) v (List.mem_reverse.mp hv)
  · rw [itemsDepth_le_iff]
    exact fun v hv => itemsDepth_le_iff.mp (Nat.le_refl _) v (List.mem_reverse.mpr hv)

/-- The order of members does not matter for their depth. -/
@[simp] theorem membersDepth_reverse (members : List (String × Value)) :
    membersDepth members.reverse = membersDepth members := by
  apply Nat.le_antisymm
  · rw [membersDepth_le_iff]
    exact fun m hm => membersDepth_le_iff.mp (Nat.le_refl _) m (List.mem_reverse.mp hm)
  · rw [membersDepth_le_iff]
    exact fun m hm => membersDepth_le_iff.mp (Nat.le_refl _) m (List.mem_reverse.mpr hm)

end Value

/-- The tokens that have been taken of an open container. -/
def Frame.tokens : Frame → List Token
  | .array before => .openBracket :: before.reverse.flatMap Value.itemAndComma
  | .object before name =>
    .openBrace :: (before.reverse.flatMap Value.memberAndComma ++ [.string name, .colon])

/-- The tokens that have been taken of all open containers, the innermost of which is first. -/
def stackTokens : List Frame → List Token
  | [] => []
  | f :: stack => stackTokens stack ++ f.tokens

namespace State

/-- The tokens that have been taken. -/
def tokens : State → List Token
  | .value stack => stackTokens stack
  | .firstItem stack => stackTokens stack ++ [.openBracket]
  | .firstName stack => stackTokens stack ++ [.openBrace]
  | .nextName stack before =>
    stackTokens stack ++ .openBrace :: before.reverse.flatMap Value.memberAndComma
  | .colon stack before name =>
    stackTokens stack ++
      .openBrace :: (before.reverse.flatMap Value.memberAndComma ++ [.string name])
  | .complete stack v => stackTokens stack ++ v.tokens

/-- A value that is due takes a token of its own. -/
theorem tokens_enter {stack : List Frame} {t : Token} {after : State}
    (h : enter stack t = some after) : after.tokens = stackTokens stack ++ [t] := by
  cases t <;> simp only [enter, Option.ite_none_right_eq_some, Option.some.injEq,
    reduceCtorEq] at h
  case openBrace | openBracket =>
    obtain ⟨-, rfl⟩ := h
    rfl
  case null | bool | number | string =>
    subst h
    rfl

/-- A token after a value is appended. -/
theorem tokens_proceed {stack : List Frame} {v : Value} {f : Frame} {t : Token} {after : State}
    (h : proceed stack v f t = some after) :
    after.tokens = stackTokens (f :: stack) ++ v.tokens ++ [t] := by
  unfold proceed at h
  split at h
  · cases h
    simp [tokens, stackTokens, Frame.tokens, Value.itemAndComma]
  · cases h
    simp [tokens, stackTokens, Frame.tokens, Value.tokens, Value.itemTokens_append]
  · cases h
    simp [tokens, stackTokens, Frame.tokens, Value.memberAndComma]
  · cases h
    simp [tokens, stackTokens, Frame.tokens, Value.tokens, Value.memberTokens_append]
  · cases h

/-- A step appends the token that it takes. -/
theorem tokens_step {before after : State} {t : Token} (h : before.step t = some after) :
    after.tokens = before.tokens ++ [t] := by
  unfold step at h
  split at h
  · exact tokens_enter h
  · cases h
    simp [tokens, Value.tokens, Value.itemTokens]
  · rw [tokens_enter h]
    simp [tokens, stackTokens, Frame.tokens]
  · cases h
    simp [tokens, Value.tokens, Value.memberTokens]
  · cases h
    simp [tokens]
  · cases h
    simp [tokens]
  · cases h
    simp [tokens, stackTokens, Frame.tokens]
  · rw [tokens_proceed h]
    rfl
  · cases h

/-- A run appends the tokens that it takes. -/
theorem tokens_foldlM {before after : State} {tokens : List Token}
    (h : tokens.foldlM step before = some after) : after.tokens = before.tokens ++ tokens := by
  induction tokens generalizing before with
  | nil =>
    cases h
    rw [List.append_nil]
  | cons t tokens ih =>
    rw [List.foldlM_cons] at h
    obtain ⟨middle, hstep, hrest⟩ := Option.bind_eq_some_iff.mp h
    rw [ih hrest, tokens_step hstep, List.append_assoc, List.singleton_append]

end State

/-- The greatest depth among the complete values of an open container. -/
def Frame.depth : Frame → Nat
  | .array before => Value.itemsDepth before
  | .object before _ => Value.membersDepth before

/-- No more than 127 containers are open, and none was with one of their values. -/
def StackWithin : List Frame → Prop
  | [] => True
  | f :: stack => f.depth + stack.length < greatestDepth ∧ StackWithin stack

/-- At most 127 containers are open. -/
theorem StackWithin.length_le {stack : List Frame} (h : StackWithin stack) :
    stack.length ≤ greatestDepth := by
  cases stack with
  | nil => exact Nat.zero_le _
  | cons f stack =>
    have := h.1
    rw [List.length_cons]
    omega

namespace State

/-- No more than 127 containers are or were open at once. -/
def Within : State → Prop
  | .value stack => StackWithin stack
  | .firstItem stack | .firstName stack => stack.length < greatestDepth ∧ StackWithin stack
  | .nextName stack before | .colon stack before _ =>
    Value.membersDepth before + stack.length < greatestDepth ∧ StackWithin stack
  | .complete stack v => v.depth + stack.length ≤ greatestDepth ∧ StackWithin stack

/-- Taking a token where a value is due opens no container too many. -/
theorem Within.enter {stack : List Frame} {t : Token} {after : State} (hstack : StackWithin stack)
    (h : State.enter stack t = some after) : after.Within := by
  have hlength := hstack.length_le
  cases t <;> simp only [State.enter, Option.ite_none_right_eq_some, Option.some.injEq,
    reduceCtorEq] at h
  case openBrace | openBracket =>
    obtain ⟨hroom, rfl⟩ := h
    exact ⟨hroom, hstack⟩
  case null | bool | number | string =>
    subst h
    simpa only [Within, Value.depth, Nat.zero_add] using And.intro hlength hstack

/-- Taking a token after a value leaves no container too many. -/
theorem Within.proceed {stack : List Frame} {v : Value} {f : Frame} {t : Token} {after : State}
    (hstack : StackWithin (f :: stack)) (hv : v.depth + (f :: stack).length ≤ greatestDepth)
    (h : State.proceed stack v f t = some after) : after.Within := by
  obtain ⟨hf, hstack⟩ := hstack
  rw [List.length_cons] at hv
  unfold State.proceed at h
  split at h
  · cases h
    simp only [Within, StackWithin, Frame.depth, Value.itemsDepth] at hf ⊢
    exact ⟨by omega, hstack⟩
  · cases h
    simp only [Within, Value.depth, Value.itemsDepth_reverse, Frame.depth, Value.itemsDepth] at hf ⊢
    exact ⟨by omega, hstack⟩
  · cases h
    simp only [Within, Frame.depth, Value.membersDepth] at hf ⊢
    exact ⟨by omega, hstack⟩
  · cases h
    simp only [Within, Value.depth, Value.membersDepth_reverse, Frame.depth,
      Value.membersDepth] at hf ⊢
    exact ⟨by omega, hstack⟩
  · cases h

/-- A step opens no container too many. -/
theorem Within.step {before after : State} {t : Token} (hbefore : before.Within)
    (h : before.step t = some after) : after.Within := by
  unfold State.step at h
  split at h
  · exact Within.enter hbefore h
  · cases h
    simp only [Within, Value.depth, Value.itemsDepth] at hbefore ⊢
    exact ⟨by omega, hbefore.2⟩
  · refine Within.enter ?_ h
    simpa only [Within, StackWithin, Frame.depth, Value.itemsDepth, Nat.zero_add] using hbefore
  · cases h
    simp only [Within, Value.depth, Value.membersDepth] at hbefore ⊢
    exact ⟨by omega, hbefore.2⟩
  · cases h
    simpa only [Within, Value.membersDepth, Nat.zero_add] using hbefore
  · cases h
    exact hbefore
  · cases h
    exact hbefore
  · exact Within.proceed hbefore.2 hbefore.1 h
  · cases h

/-- A run opens no container too many. -/
theorem Within.foldlM {before after : State} {tokens : List Token} (hbefore : before.Within)
    (h : tokens.foldlM State.step before = some after) : after.Within := by
  induction tokens generalizing before with
  | nil =>
    cases h
    exact hbefore
  | cons t tokens ih =>
    rw [List.foldlM_cons] at h
    obtain ⟨middle, hstep, hrest⟩ := Option.bind_eq_some_iff.mp h
    exact ih (hbefore.step hstep) hrest

end State

/-- The first token of a value does not close an array. -/
theorem Value.exists_tokens_cons (v : Value) :
    ∃ t rest, v.tokens = t :: rest ∧ t ≠ .closeBracket := by
  cases v <;> exact ⟨_, _, rfl, by simp⟩

/-- The tokens of items begin with those of the first item. -/
theorem Value.exists_itemTokens_append (v : Value) (items : List Value) :
    ∃ rest, itemTokens (v :: items) = v.tokens ++ rest := by
  cases items with
  | nil => exact ⟨[], by rw [itemTokens, List.append_nil]⟩
  | cons w items => exact ⟨_, itemTokens_cons_cons v w items⟩

namespace State

/-- The first item of an array is read like any other. -/
theorem foldlM_firstItem (v : Value) (rest : List Token) (stack : List Frame) :
    (v.tokens ++ rest).foldlM step (.firstItem stack) =
      (v.tokens ++ rest).foldlM step (.value (.array [] :: stack)) := by
  obtain ⟨t, more, htokens, hclose⟩ := v.exists_tokens_cons
  rw [htokens, List.cons_append, List.foldlM_cons, List.foldlM_cons]
  congr 1
  cases t <;> first | rfl | exact absurd rfl hclose

mutual

/-- The tokens of a value complete it where it is due. -/
theorem foldlM_value : ∀ (v : Value) (stack : List Frame),
    v.depth + stack.length ≤ greatestDepth →
      v.tokens.foldlM step (.value stack) = some (.complete stack v)
  | .null, _, _ | .bool _, _, _ | .number _, _, _ | .string _, _, _ => rfl
  | .array [], stack, h => by
    have hroom : stack.length < greatestDepth := by
      simp only [Value.depth, Value.itemsDepth] at h
      omega
    have hopen : step (.value stack) .openBracket = some (.firstItem stack) := if_pos hroom
    rw [Value.tokens, List.foldlM_cons, hopen]
    rfl
  | .array (v :: items), stack, h => by
    rw [Value.depth] at h
    have hopen : step (.value stack) .openBracket = some (.firstItem stack) := if_pos (by omega)
    obtain ⟨rest, hrest⟩ := v.exists_itemTokens_append items
    rw [Value.tokens, List.foldlM_cons, hopen, Option.bind_eq_bind, Option.bind_some, hrest,
      List.append_assoc, foldlM_firstItem, ← List.append_assoc, ← hrest]
    exact foldlM_items (v :: items) [] stack (List.cons_ne_nil v items) (by omega)
  | .object [], stack, h => by
    have hroom : stack.length < greatestDepth := by
      simp only [Value.depth, Value.membersDepth] at h
      omega
    have hopen : step (.value stack) .openBrace = some (.firstName stack) := if_pos hroom
    rw [Value.tokens, List.foldlM_cons, hopen]
    rfl
  | .object (m :: members), stack, h => by
    rw [Value.depth] at h
    have hopen : step (.value stack) .openBrace = some (.firstName stack) := if_pos (by omega)
    rw [Value.tokens, List.foldlM_cons, hopen, Option.bind_eq_bind, Option.bind_some]
    exact foldlM_members (m :: members) [] stack (.firstName stack) (fun _ => rfl)
      (List.cons_ne_nil m members) (by omega)

/-- The tokens of items and the end of their array complete it. -/
theorem foldlM_items : ∀ (items before : List Value) (stack : List Frame), items ≠ [] →
    Value.itemsDepth items + stack.length < greatestDepth →
      (Value.itemTokens items ++ [Token.closeBracket]).foldlM step
          (.value (.array before :: stack)) =
        some (.complete stack (.array (before.reverse ++ items)))
  | [], _, _, hne, _ => absurd rfl hne
  | [v], before, stack, _, h => by
    simp only [Value.itemsDepth] at h
    have hv := foldlM_value v (.array before :: stack) (by rw [List.length_cons]; omega)
    rw [Value.itemTokens, List.foldlM_append, hv, Option.bind_eq_bind, Option.bind_some]
    simp [step, proceed]
  | v :: w :: items, before, stack, _, h => by
    rw [Value.itemsDepth] at h
    have hv := foldlM_value v (.array before :: stack) (by rw [List.length_cons]; omega)
    have hitems := foldlM_items (w :: items) (v :: before) stack (List.cons_ne_nil w items)
      (by omega)
    rw [Value.itemTokens_cons_cons, List.append_assoc, List.foldlM_append, hv, Option.bind_eq_bind,
      Option.bind_some, List.cons_append, List.foldlM_cons]
    simpa [step, proceed] using hitems

/-- The tokens of members and the end of their object complete it. -/
theorem foldlM_members :
    ∀ (members before : List (String × Value)) (stack : List Frame) (s : State),
    (∀ name, s.step (.string name) = some (.colon stack before name)) → members ≠ [] →
      Value.membersDepth members + stack.length < greatestDepth →
        (Value.memberTokens members ++ [Token.closeBrace]).foldlM step s =
          some (.complete stack (.object (before.reverse ++ members)))
  | [], _, _, _, _, hne, _ => absurd rfl hne
  | [(name, v)], before, stack, s, hs, _, h => by
    simp only [Value.membersDepth] at h
    have hv := foldlM_value v (.object before name :: stack) (by rw [List.length_cons]; omega)
    have hcolon : step (.colon stack before name) .colon =
        some (.value (.object before name :: stack)) := rfl
    rw [Value.memberTokens, List.cons_append, List.foldlM_cons, hs, Option.bind_eq_bind,
      Option.bind_some, List.cons_append, List.foldlM_cons, hcolon, Option.bind_eq_bind,
      Option.bind_some, List.foldlM_append, hv, Option.bind_eq_bind, Option.bind_some]
    simp [step, proceed]
  | (name, v) :: m :: members, before, stack, s, hs, _, h => by
    rw [Value.membersDepth] at h
    have hv := foldlM_value v (.object before name :: stack) (by rw [List.length_cons]; omega)
    have hcolon : step (.colon stack before name) .colon =
        some (.value (.object before name :: stack)) := rfl
    have hmembers := foldlM_members (m :: members) ((name, v) :: before) stack
      (.nextName stack ((name, v) :: before)) (fun _ => rfl) (List.cons_ne_nil m members) (by omega)
    rw [Value.memberTokens_cons_cons, List.cons_append, List.foldlM_cons, hs, Option.bind_eq_bind,
      Option.bind_some, List.cons_append, List.foldlM_cons, hcolon, Option.bind_eq_bind,
      Option.bind_some, List.append_assoc, List.foldlM_append, hv, Option.bind_eq_bind,
      Option.bind_some, List.cons_append, List.foldlM_cons]
    simpa [step, proceed] using hmembers

end

end State

/-- A sequence of tokens writes exactly the values whose tokens it is, up to a depth of 127. -/
theorem Value.ofTokens?_eq_some_iff {tokens : List Token} {v : Value} :
    ofTokens? tokens = some v ↔ tokens = v.tokens ∧ v.depth ≤ greatestDepth := by
  constructor
  · intro h
    rw [ofTokens?] at h
    split at h
    · next w hrun =>
      cases h
      have htokens := State.tokens_foldlM hrun
      have hstart : (State.value []).Within := trivial
      have hdepth : v.depth + 0 ≤ greatestDepth ∧ True := hstart.foldlM hrun
      exact ⟨by simpa [State.tokens, stackTokens] using htokens.symm, hdepth.1⟩
    · cases h
  · rintro ⟨rfl, hdepth⟩
    rw [ofTokens?, State.foldlM_value v [] hdepth]

end LoginService.Json
