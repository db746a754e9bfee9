import LoginService.Proofs.Json.Document
import LoginService.Proofs.Utf8.Lossy
import Mathlib.Data.List.DropRight

/-!
# Where a document ends

The reader knows that a value is complete when its last token has been taken, except for a numeral,
which more digits could lengthen. So a text that writes a container is continued by blanks only, and
no part of it without its last character writes a container.
-/

namespace LoginService.Json

namespace Value

/-- No token can be taken after a complete value. -/
theorem eq_nil_of_ofTokens?_append {v u : Value} {more : List Token} (hdepth : v.depth ≤ 127)
    (h : ofTokens? (v.tokens ++ more) = some u) : more = [] := by
  cases more with
  | nil => rfl
  | cons t more =>
    have hstep : State.step (.complete [] v) t = none := by cases t <;> rfl
    rw [ofTokens?, List.foldlM_append, State.foldlM_value v [] hdepth, Option.bind_eq_bind,
      Option.bind_some, List.foldlM_cons, hstep] at h
    cases h

/-- What follows a text that writes a value, and writes one together with it, is blank. -/
theorem WrittenBy.blanks_of_append {v u : Value} {text more : List Char}
    (hnumber : ∀ n, v ≠ .number n) (hv : v.WrittenBy text) (hu : u.WrittenBy (text ++ more)) :
    Blanks more := by
  obtain ⟨hbefore, hpart, hafter, hdepth⟩ := hv
  obtain ⟨tokens, hscan, htokens⟩ := Option.bind_eq_some_iff.mp (ofText?_eq_some_iff.mpr hu)
  rw [Token.ofText?, List.append_assoc, List.append_assoc, Token.scan?_blanks hbefore,
    hpart.scan? _ _ (fun n hn => absurd hn (hnumber n)), Token.scan?_blanks hafter] at hscan
  obtain ⟨rest, hrest, rfl⟩ := Token.lexed_of_scan? hscan
  rw [List.append_nil, List.reverse_reverse] at htokens
  obtain rfl := eq_nil_of_ofTokens?_append hdepth htokens
  obtain ⟨hmore⟩ := hrest
  exact hmore

/-- Blanks behind a text change nothing. -/
theorem WrittenBy.append_blanks {v : Value} {text blanks : List Char} (hv : v.WrittenBy text)
    (hblanks : Blanks blanks) : v.WrittenBy (text ++ blanks) := by
  obtain ⟨hbefore, hpart, hafter, hdepth⟩ := hv
  rw [List.append_assoc]
  exact .mk hbefore hpart (List.forall_mem_append.mpr ⟨hafter, hblanks⟩) hdepth

/-- A text that writes an object ends with a brace, blanks apart. -/
theorem WrittenBy.exists_brace {members : List (String × Value)} {text : List Char}
    (h : (Value.object members).WrittenBy text) : ∃ front after, Blanks after ∧
      text = front ++ ['\x7d'] ++ after ∧
      (Value.object members).WrittenBy (front ++ ['\x7d']) := by
  obtain ⟨hbefore, hpart, hafter, hdepth⟩ := h
  have hwritten := WrittenBy.mk hbefore hpart blanks_nil hdepth
  rw [List.append_nil] at hwritten
  cases hpart with
  | emptyObject | object =>
    rw [← List.cons_append, ← List.append_assoc] at hwritten ⊢
    exact ⟨_, _, hafter, rfl, hwritten⟩

end Value

/-- The bytes of blanks. -/
def isBlankByte (b : UInt8) : Bool :=
  b = 0x20 || b = 0x09 || b = 0x0A || b = 0x0D

/-- Bytes without the blanks at their end. -/
def trimmed (bytes : Bytes) : Bytes :=
  bytes.rdropWhile isBlankByte

/-- Bytes are those of blanks exactly if they encode blanks. -/
theorem forall_isBlankByte_iff {bytes : Bytes} : (∀ b ∈ bytes, isBlankByte b) ↔
    ∃ blanks : List Char, Blanks blanks ∧ blanks.flatMap String.utf8EncodeChar = bytes := by
  constructor
  · intro h
    induction bytes with
    | nil => exact ⟨[], blanks_nil, rfl⟩
    | cons b bytes ih =>
      obtain ⟨hb, hbytes⟩ := List.forall_mem_cons.mp h
      obtain ⟨blanks, hblanks, rfl⟩ := ih hbytes
      simp only [isBlankByte, Bool.or_eq_true, decide_eq_true_eq, or_assoc] at hb
      rcases hb with rfl | rfl | rfl | rfl
      · exact ⟨' ' :: blanks, blanks_cons rfl hblanks, rfl⟩
      · exact ⟨'\t' :: blanks, blanks_cons rfl hblanks, rfl⟩
      · exact ⟨'\n' :: blanks, blanks_cons rfl hblanks, rfl⟩
      · exact ⟨'\r' :: blanks, blanks_cons rfl hblanks, rfl⟩
  · rintro ⟨blanks, hblanks, rfl⟩ b hb
    obtain ⟨c, hc, hb⟩ := List.mem_flatMap.mp hb
    rcases hblanks c hc with rfl | rfl | rfl | rfl <;>
      obtain rfl := List.mem_singleton.mp hb <;> rfl

namespace Value

/-- Bytes behind those of a value, with which they write one, are blanks. -/
theorem EncodedBy.forall_isBlankByte {v u : Value} {bytes more : Bytes}
    (hnumber : ∀ n, v ≠ .number n) (hv : v.EncodedBy bytes) (hu : u.EncodedBy (bytes ++ more)) :
    ∀ b ∈ more, isBlankByte b := by
  obtain ⟨text, rfl, hv⟩ := hv
  obtain ⟨whole, hwhole, hu⟩ := hu
  obtain ⟨rest, hrest, rfl⟩ := Utf8.exists_toList_append hwhole
  rw [hrest] at hu
  exact forall_isBlankByte_iff.mpr ⟨rest, hv.blanks_of_append hnumber hu, rfl⟩

/-- Blank bytes behind those of a value change nothing. -/
theorem EncodedBy.append_blanks {v : Value} {bytes blanks : Bytes} (hv : v.EncodedBy bytes)
    (hblanks : ∀ b ∈ blanks, isBlankByte b) : v.EncodedBy (bytes ++ blanks) := by
  obtain ⟨text, rfl, hv⟩ := hv
  obtain ⟨more, hmore, rfl⟩ := forall_isBlankByte_iff.mp hblanks
  refine ⟨String.ofList (text.toList ++ more), ?_, ?_⟩
  · simp [Utf8.encode]
  · rw [String.toList_ofList]
    exact hv.append_blanks hmore

/-- The bytes of an object without the blanks at their end write that object. -/
theorem EncodedBy.trimmed {members : List (String × Value)} {bytes : Bytes}
    (h : (Value.object members).EncodedBy bytes) :
    (Value.object members).EncodedBy (trimmed bytes) := by
  obtain ⟨text, rfl, hv⟩ := h
  obtain ⟨front, after, hafter, htext, hwritten⟩ := hv.exists_brace
  have hblanks := forall_isBlankByte_iff.mpr ⟨after, hafter, rfl⟩
  have htrimmed : Json.trimmed (Utf8.encode text) =
      Utf8.encode (String.ofList (front ++ ['\x7d'])) := by
    rw [Json.trimmed, Utf8.encode, htext, List.flatMap_append, List.rdropWhile,
      List.reverse_append, List.dropWhile_append_of_pos (by simpa using hblanks), ← List.rdropWhile,
      Utf8.encode, String.toList_ofList, List.flatMap_append]
    exact List.rdropWhile_concat_neg _ _ _ (by decide)
  rw [htrimmed, encodedBy_encode, String.toList_ofList]
  exact hwritten

end Value

/-- Trimmed bytes do not end with a blank. -/
theorem eq_nil_of_append_eq_trimmed {bytes front back : Bytes} (h : front ++ back = trimmed bytes)
    (hback : ∀ b ∈ back, isBlankByte b) : back = [] := by
  by_contra hne
  have hlast := List.rdropWhile_last_not isBlankByte bytes
  rw [← trimmed, ← h] at hlast
  have hnil : front ++ back ≠ [] := List.append_ne_nil_of_right_ne_nil front hne
  refine hlast hnil ?_
  rw [List.getLast_append_of_ne_nil hnil hne]
  exact hback _ (List.getLast_mem hne)

end LoginService.Json
