import LoginService.Utf8
import Mathlib.Data.List.Induction

/-!
# Decoding inverts encoding

The scan of `Utf8` against the encoding of single characters. Both are compared with the table of
UTF-8, which gives the number of a character by its one to four bytes. So a byte sequence decodes to
a text exactly if it encodes that text.
-/

namespace LoginService.Utf8

/-- A natural number that is a scalar value is the number of its character. -/
theorem toNat_ofNat {n : Nat} (h : n.isValidChar) : (Char.ofNat n).toNat = n := by
  rw [Char.ofNat, dif_pos h]
  rfl

/-- A byte that continues a character: 0x80 to 0xBF. -/
def Continues (b : UInt8) : Prop := 0x80 ≤ b.toNat ∧ b.toNat < 0xC0

/-- The table of UTF-8: the bytes of a character, by its number. The second byte is narrowed where
there would be an overlong form, a surrogate or a number beyond U+10FFFF. -/
inductive Encoded (n : Nat) : Bytes → Prop where
  | one {a : UInt8} (ha : a.toNat < 0x80) (hn : n = a.toNat) : Encoded n [a]
  | two {a b : UInt8} (ha : 0xC2 ≤ a.toNat ∧ a.toNat < 0xE0) (hb : Continues b)
      (hn : n = (a.toNat - 0xC0) * 64 + (b.toNat - 0x80)) : Encoded n [a, b]
  | three {a b c : UInt8} (ha : 0xE0 ≤ a.toNat ∧ a.toNat < 0xF0) (hb : Continues b)
      (hnarrow : (a.toNat = 0xE0 → 0xA0 ≤ b.toNat) ∧ (a.toNat = 0xED → b.toNat < 0xA0))
      (hc : Continues c)
      (hn : n = ((a.toNat - 0xE0) * 64 + (b.toNat - 0x80)) * 64 + (c.toNat - 0x80)) :
      Encoded n [a, b, c]
  | four {a b c d : UInt8} (ha : 0xF0 ≤ a.toNat ∧ a.toNat < 0xF5) (hb : Continues b)
      (hnarrow : (a.toNat = 0xF0 → 0x90 ≤ b.toNat) ∧ (a.toNat = 0xF4 → b.toNat < 0x90))
      (hc : Continues c) (hd : Continues d)
      (hn : n = (((a.toNat - 0xF0) * 64 + (b.toNat - 0x80)) * 64 + (c.toNat - 0x80)) * 64 +
        (d.toNat - 0x80)) :
      Encoded n [a, b, c, d]

/-- Every line of the table stands for a scalar value. -/
theorem Encoded.isValidChar {n : Nat} {bytes : Bytes} (h : Encoded n bytes) : n.isValidChar := by
  unfold Nat.isValidChar
  cases h with
  | one ha hn => omega
  | two ha hb hn =>
    unfold Continues at hb
    omega
  | three ha hb hnarrow hc hn =>
    unfold Continues at hb hc
    omega
  | four ha hb hnarrow hc hd hn =>
    unfold Continues at hb hc hd
    omega

/-- The encoding of a character stands in the table. -/
theorem encoded_encodeChar (c : Char) : Encoded c.toNat (String.utf8EncodeChar c) := by
  have hvalid : c.toNat < 0xD800 ∨ 0xDFFF < c.toNat ∧ c.toNat < 0x110000 := c.valid
  simp only [String.utf8EncodeChar, Char.toNat_val]
  split
  · apply Encoded.one <;> simp only [UInt8.toNat_ofNat'] <;> omega
  · split
    · apply Encoded.two <;> simp only [Continues, UInt8.toNat_ofNat'] <;> omega
    · split
      · apply Encoded.three <;> simp only [Continues, UInt8.toNat_ofNat'] <;> omega
      · apply Encoded.four <;> simp only [Continues, UInt8.toNat_ofNat'] <;> omega

/-- A byte with the number of another is that byte. -/
theorem ofNat_eq_of_toNat {n : Nat} {b : UInt8} (h : n = b.toNat) : UInt8.ofNat n = b := by
  rw [h, UInt8.ofNat_toNat]

/-- The table has one line for each character. -/
theorem Encoded.eq_encodeChar {c : Char} {bytes : Bytes} (h : Encoded c.toNat bytes) :
    String.utf8EncodeChar c = bytes := by
  simp only [String.utf8EncodeChar, Char.toNat_val]
  cases h with
  | one ha hn =>
    rw [if_pos (by omega), ofNat_eq_of_toNat hn]
  | @two a b ha hb hn =>
    unfold Continues at hb
    have h₁ : c.toNat / 64 % 0x20 + 0xC0 = a.toNat := by omega
    have h₂ : c.toNat % 0x40 + 0x80 = b.toNat := by omega
    rw [if_neg (by omega), if_pos (by omega), ofNat_eq_of_toNat h₁, ofNat_eq_of_toNat h₂]
  | @three a b d ha hb hnarrow hd hn =>
    unfold Continues at hb hd
    have h₁ : c.toNat / 4096 % 0x10 + 0xE0 = a.toNat := by omega
    have h₂ : c.toNat / 64 % 0x40 + 0x80 = b.toNat := by omega
    have h₃ : c.toNat % 0x40 + 0x80 = d.toNat := by omega
    rw [if_neg (by omega), if_neg (by omega), if_pos (by omega), ofNat_eq_of_toNat h₁,
      ofNat_eq_of_toNat h₂, ofNat_eq_of_toNat h₃]
  | @four a b d e ha hb hnarrow hd he hn =>
    unfold Continues at hb hd he
    have h₁ : c.toNat / 262144 % 0x08 + 0xF0 = a.toNat := by omega
    have h₂ : c.toNat / 4096 % 0x40 + 0x80 = b.toNat := by omega
    have h₃ : c.toNat / 64 % 0x40 + 0x80 = d.toNat := by omega
    have h₄ : c.toNat % 0x40 + 0x80 = e.toNat := by omega
    rw [if_neg (by omega), if_neg (by omega), if_neg (by omega), ofNat_eq_of_toNat h₁,
      ofNat_eq_of_toNat h₂, ofNat_eq_of_toNat h₃, ofNat_eq_of_toNat h₄]

/-- A byte below 0x80 is a character. -/
theorem opening_one {b : UInt8} (h : b.toNat < 0x80) :
    opening b = .character (Char.ofUInt8 b) := by
  rw [opening, if_pos (UInt8.lt_iff_toNat_lt.mpr h)]

/-- A byte from 0xC2 to 0xDF begins a character of two bytes. -/
theorem opening_two {b : UInt8} (h : 0xC2 ≤ b.toNat ∧ b.toNat < 0xE0) :
    opening b = .lead ⟨0, 0x80, 0xBF, b.toNat - 0xC0⟩ := by
  simp only [opening, UInt8.lt_iff_toNat_lt, UInt8.reduceToNat]
  rw [if_neg (by omega), if_neg (by omega), if_pos (by omega)]

/-- A byte from 0xE0 to 0xEF begins a character of three bytes. -/
theorem opening_three {b : UInt8} (h : 0xE0 ≤ b.toNat ∧ b.toNat < 0xF0) :
    opening b = .lead ⟨1, if b = 0xE0 then 0xA0 else 0x80, if b = 0xED then 0x9F else 0xBF,
      b.toNat - 0xE0⟩ := by
  simp only [opening, UInt8.lt_iff_toNat_lt, UInt8.reduceToNat]
  rw [if_neg (by omega), if_neg (by omega), if_neg (by omega), if_pos (by omega)]

/-- A byte from 0xF0 to 0xF4 begins a character of four bytes. -/
theorem opening_four {b : UInt8} (h : 0xF0 ≤ b.toNat ∧ b.toNat < 0xF5) :
    opening b = .lead ⟨2, if b = 0xF0 then 0x90 else 0x80, if b = 0xF4 then 0x8F else 0xBF,
      b.toNat - 0xF0⟩ := by
  simp only [opening, UInt8.lt_iff_toNat_lt, UInt8.reduceToNat]
  rw [if_neg (by omega), if_neg (by omega), if_neg (by omega), if_neg (by omega),
    if_pos (by omega)]

/-- Whether a byte is in the range that a character in progress calls for. -/
def Pending.Admits (p : Pending) (b : UInt8) : Prop := p.low ≤ b ∧ b ≤ p.high

/-- After the first byte of two, and after every second byte, any continuation is admitted. -/
theorem admits_iff_continues {remaining bits : Nat} {b : UInt8} :
    (⟨remaining, 0x80, 0xBF, bits⟩ : Pending).Admits b ↔ Continues b := by
  simp only [Pending.Admits, Continues, UInt8.le_iff_toNat_le, UInt8.reduceToNat]
  omega

/-- After the first byte of three, the second byte is narrowed twice. -/
theorem admits_three_iff {a b : UInt8} {bits : Nat} :
    (⟨1, if a = 0xE0 then 0xA0 else 0x80, if a = 0xED then 0x9F else 0xBF, bits⟩ : Pending).Admits b
      ↔ Continues b ∧ (a.toNat = 0xE0 → 0xA0 ≤ b.toNat) ∧ (a.toNat = 0xED → b.toNat < 0xA0) := by
  simp only [Pending.Admits, Continues, UInt8.le_iff_toNat_le, ← UInt8.toNat_inj,
    UInt8.reduceToNat]
  split <;> split <;> simp only [UInt8.reduceToNat] <;> omega

/-- After the first byte of four, the second byte is narrowed twice. -/
theorem admits_four_iff {a b : UInt8} {bits : Nat} :
    (⟨2, if a = 0xF0 then 0x90 else 0x80, if a = 0xF4 then 0x8F else 0xBF, bits⟩ : Pending).Admits b
      ↔ Continues b ∧ (a.toNat = 0xF0 → 0x90 ≤ b.toNat) ∧ (a.toNat = 0xF4 → b.toNat < 0x90) := by
  simp only [Pending.Admits, Continues, UInt8.le_iff_toNat_le, ← UInt8.toNat_inj,
    UInt8.reduceToNat]
  split <;> split <;> simp only [UInt8.reduceToNat] <;> omega

namespace Scan

/-- A byte that begins a character of several bytes leaves that character in progress. -/
theorem step_lead {done : List (Option Char)} {b : UInt8} {p : Pending}
    (h : opening b = .lead p) : step ⟨done, none⟩ b = ⟨done, some p⟩ := by
  simp only [step, enter, h]

/-- A byte that is admitted is taken into the character in progress. -/
theorem step_admitted {done : List (Option Char)} {p : Pending} {b : UInt8} (h : p.Admits b) :
    step ⟨done, some p⟩ b = proceed done p b := if_pos h

/-- The bytes of a character yield that character. -/
theorem foldl_step_of_encoded {c : Char} {bytes : Bytes} (h : Encoded c.toNat bytes)
    (done : List (Option Char)) :
    bytes.foldl step ⟨done, none⟩ = ⟨some c :: done, none⟩ := by
  have hc : ∀ n, c.toNat = n → Char.ofNat n = c := by
    rintro n rfl
    exact Char.ofNat_toNat c
  cases h with
  | @one a ha hn =>
    have hchar : Char.ofUInt8 a = c := Char.toNat_inj.mp hn.symm
    simp only [List.foldl_cons, List.foldl_nil, step, enter, opening_one ha, hchar]
  | two ha hb hn =>
    rw [List.foldl_cons, step_lead (opening_two ha), List.foldl_cons,
      step_admitted (admits_iff_continues.mpr hb)]
    simp only [proceed, hc _ hn, List.foldl_nil]
  | three ha hb hnarrow hd hn =>
    rw [List.foldl_cons, step_lead (opening_three ha), List.foldl_cons,
      step_admitted (admits_three_iff.mpr ⟨hb, hnarrow⟩)]
    simp only [proceed]
    rw [List.foldl_cons, step_admitted (admits_iff_continues.mpr hd)]
    simp only [proceed, hc _ hn, List.foldl_nil]
  | four ha hb hnarrow hd he hn =>
    rw [List.foldl_cons, step_lead (opening_four ha), List.foldl_cons,
      step_admitted (admits_four_iff.mpr ⟨hb, hnarrow⟩)]
    simp only [proceed]
    rw [List.foldl_cons, step_admitted (admits_iff_continues.mpr hd)]
    simp only [proceed]
    rw [List.foldl_cons, step_admitted (admits_iff_continues.mpr he)]
    simp only [proceed, hc _ hn, List.foldl_nil]

/-- The encoding of a text yields its characters. -/
theorem foldl_step_flatMap (cs : List Char) (done : List (Option Char)) :
    (cs.flatMap String.utf8EncodeChar).foldl step ⟨done, none⟩ =
      ⟨(cs.map some).reverse ++ done, none⟩ := by
  induction cs generalizing done with
  | nil => rfl
  | cons c cs ih =>
    rw [List.flatMap_cons, List.foldl_append, foldl_step_of_encoded (encoded_encodeChar c), ih]
    simp

end Scan

/-- The bytes that have been read of a character in progress. -/
inductive Started : Bytes → Pending → Prop where
  | lead {b : UInt8} {p : Pending} (h : opening b = .lead p) : Started [b] p
  | more {bytes : Bytes} {p : Pending} {b : UInt8} {n : Nat} (h : Started bytes p)
      (hb : p.Admits b) (hn : p.remaining = n + 1) :
      Started (bytes ++ [b]) ⟨n, 0x80, 0xBF, p.bits * 64 + (b.toNat - 0x80)⟩

/-- Only a byte below 0x80 is a character. -/
theorem character_cases {b : UInt8} {c : Char} (h : opening b = .character c) :
    b.toNat < 0x80 ∧ Char.ofNat b.toNat = c := by
  simp only [opening, UInt8.lt_iff_toNat_lt, UInt8.reduceToNat] at h
  split at h
  · cases h
    exact ⟨by assumption, Char.ofNat_toNat (Char.ofUInt8 b)⟩
  · repeat' split at h
    all_goals cases h

/-- The first bytes of characters by how many more follow. -/
theorem lead_cases {b : UInt8} {p : Pending} (h : opening b = .lead p) :
    (p.remaining = 0 ∧ 0xC2 ≤ b.toNat ∧ b.toNat < 0xE0) ∨
      (p.remaining = 1 ∧ 0xE0 ≤ b.toNat ∧ b.toNat < 0xF0) ∨
        (p.remaining = 2 ∧ 0xF0 ≤ b.toNat ∧ b.toNat < 0xF5) := by
  simp only [opening, UInt8.lt_iff_toNat_lt, UInt8.reduceToNat] at h
  split at h
  · cases h
  split at h
  · cases h
  split at h
  · cases h
    left
    exact ⟨rfl, by omega, by omega⟩
  split at h
  · cases h
    right; left
    exact ⟨rfl, by omega, by omega⟩
  split at h
  · cases h
    right; right
    exact ⟨rfl, by omega, by omega⟩
  · cases h

/-- After the first byte at most two follow the next one. -/
theorem Started.remaining_le {bytes : Bytes} {p : Pending} (h : Started bytes p) :
    p.remaining ≤ 2 := by
  induction h with
  | lead h =>
    have := lead_cases h
    omega
  | more _ _ hn ih =>
    dsimp only
    omega

/-- The last byte of a character in progress completes a line of the table. -/
theorem Started.encoded {bytes : Bytes} {p : Pending} {b : UInt8} (h : Started bytes p)
    (hb : p.Admits b) (hlast : p.remaining = 0) :
    Encoded (p.bits * 64 + (b.toNat - 0x80)) (bytes ++ [b]) := by
  cases h with
  | lead h₁ =>
    obtain ⟨_, ha⟩ | ⟨hrem, _⟩ | ⟨hrem, _⟩ := lead_cases h₁
    · cases h₁.symm.trans (opening_two ha)
      exact .two ha (admits_iff_continues.mp hb) rfl
    all_goals omega
  | more h₁ hb₁ hn₁ =>
    have hc := admits_iff_continues.mp hb
    cases h₁ with
    | lead h₂ =>
      obtain ⟨hrem, _⟩ | ⟨_, ha⟩ | ⟨hrem, _⟩ := lead_cases h₂
      · omega
      · cases h₂.symm.trans (opening_three ha)
        obtain ⟨hb₁, hnarrow⟩ := admits_three_iff.mp hb₁
        exact .three ha hb₁ hnarrow hc rfl
      · dsimp only at hlast
        omega
    | more h₂ hb₂ hn₂ =>
      have hd := admits_iff_continues.mp hb₁
      cases h₂ with
      | lead h₃ =>
        obtain ⟨hrem, _⟩ | ⟨hrem, _⟩ | ⟨_, ha⟩ := lead_cases h₃
        · omega
        · dsimp only at hn₁ hlast
          omega
        · cases h₃.symm.trans (opening_four ha)
          obtain ⟨hb₂, hnarrow⟩ := admits_four_iff.mp hb₂
          exact .four ha hb₂ hnarrow hd hc rfl
      | more h₃ _ hn₃ =>
        have := h₃.remaining_le
        dsimp only at hn₁ hn₂ hlast
        omega

namespace Scan

/-- A scan that has met characters only accounts for its bytes: they encode these characters, and
the rest belong to the character in progress. -/
def Accounts (s : Scan) (bytes : Bytes) : Prop :=
  ∃ (cs : List Char) (rest : Bytes), s.done = (cs.map some).reverse ∧
    bytes = cs.flatMap String.utf8EncodeChar ++ rest ∧
    match s.pending with
    | none => rest = []
    | some p => Started rest p

/-- A piece that is no character stays. -/
theorem mem_done_enter {done : List (Option Char)} {b : UInt8} (h : none ∈ done) :
    none ∈ (enter done b).done := by
  unfold enter
  split
  · exact List.mem_cons_of_mem _ h
  · exact h
  · exact List.mem_cons_of_mem _ h

/-- Taking a byte takes no piece back. -/
theorem mem_done_step {s : Scan} {b : UInt8} (h : none ∈ s.done) : none ∈ (s.step b).done := by
  unfold step
  split
  · exact mem_done_enter h
  · split
    · unfold proceed
      dsimp only
      split
      · exact List.mem_cons_of_mem _ h
      · exact h
    · exact mem_done_enter (List.mem_cons_of_mem _ h)

/-- A character that is complete is accounted for by its bytes. -/
theorem Accounts.complete {cs : List Char} {rest : Bytes} {n : Nat} (h : Encoded n rest) :
    (⟨some (Char.ofNat n) :: (cs.map some).reverse, none⟩ : Scan).Accounts
      (cs.flatMap String.utf8EncodeChar ++ rest) := by
  have hrest : String.utf8EncodeChar (Char.ofNat n) = rest := by
    apply Encoded.eq_encodeChar
    rwa [toNat_ofNat h.isValidChar]
  exact ⟨cs ++ [Char.ofNat n], [], by simp, by simp [hrest], rfl⟩

/-- Taking a byte keeps the account. -/
theorem Accounts.step {s : Scan} {bytes : Bytes} {b : UInt8} (h : s.Accounts bytes)
    (hdone : none ∉ (s.step b).done) : (s.step b).Accounts (bytes ++ [b]) := by
  obtain ⟨done, pending⟩ := s
  obtain ⟨cs, rest, rfl, rfl, hpending⟩ := h
  cases pending with
  | none =>
    obtain rfl : rest = [] := hpending
    rw [List.append_nil]
    simp only [Scan.step, enter] at hdone ⊢
    cases hopen : opening b with
    | character c =>
      obtain ⟨hb, rfl⟩ := character_cases hopen
      exact .complete (.one hb rfl)
    | lead p => exact ⟨cs, [b], rfl, rfl, .lead hopen⟩
    | invalid => simp [hopen] at hdone
  | some p =>
    by_cases hadmits : p.Admits b
    · rw [step_admitted hadmits, proceed, List.append_assoc]
      split
      · next hlast => exact .complete (hpending.encoded hadmits hlast)
      · next n hn => exact ⟨cs, rest ++ [b], rfl, rfl, hpending.more hadmits hn⟩
    · refine absurd ?_ hdone
      simp only [Scan.step, if_neg (show ¬(p.low ≤ b ∧ b ≤ p.high) from hadmits)]
      exact mem_done_enter List.mem_cons_self

/-- A scan from the beginning that meets characters only accounts for all its bytes. -/
theorem accounts_foldl {bytes : Bytes} (h : none ∉ (bytes.foldl Scan.step initial).done) :
    (bytes.foldl Scan.step initial).Accounts bytes := by
  induction bytes using List.reverseRecOn with
  | nil => exact ⟨[], [], rfl, rfl, rfl⟩
  | append_singleton bytes b ih =>
    rw [List.foldl_append, List.foldl_cons, List.foldl_nil] at h ⊢
    exact (ih fun hmem => h (mem_done_step hmem)).step h

end Scan

/-- The pieces of an encoded text are its characters. -/
theorem pieces_encode (s : String) : pieces (encode s) = s.toList.map some := by
  rw [pieces, encode, Scan.initial, Scan.foldl_step_flatMap]
  simp [Scan.flush]

/-- Bytes whose pieces are all characters encode these characters. -/
theorem flatMap_of_pieces {bytes : Bytes} {cs : List Char} (h : pieces bytes = cs.map some) :
    cs.flatMap String.utf8EncodeChar = bytes := by
  have hdone : (bytes.foldl Scan.step Scan.initial).flush.done = (cs.map some).reverse := by
    rw [← h, pieces, List.reverse_reverse]
  have hnone : none ∉ (bytes.foldl Scan.step Scan.initial).flush.done := by
    rw [hdone]
    simp
  have hpending : (bytes.foldl Scan.step Scan.initial).pending = none := by
    cases hp : (bytes.foldl Scan.step Scan.initial).pending with
    | none => rfl
    | some p =>
      rw [Scan.flush, hp] at hnone
      exact absurd List.mem_cons_self hnone
  rw [Scan.flush, hpending] at hdone hnone
  obtain ⟨ds, rest, hds, hbytes, hrest⟩ := Scan.accounts_foldl hnone
  rw [hpending] at hrest
  obtain rfl : rest = [] := hrest
  have hsame : cs = ds :=
    (List.map_inj_right fun _ _ => Option.some.inj).mp
      (List.reverse_inj.mp (hdone.symm.trans hds))
  rw [hsame, hbytes, List.append_nil]

/-- Pieces that are all characters are the pieces of a text. -/
theorem map_some_filterMap {found : List (Option Char)} (h : found.all Option.isSome) :
    (found.filterMap id).map some = found := by
  induction found with
  | nil => rfl
  | cons piece found ih =>
    rw [List.all_cons, Bool.and_eq_true] at h
    obtain ⟨c, rfl⟩ := Option.isSome_iff_exists.mp h.1
    simpa using ih h.2

/-- Bytes decode to a text exactly if they encode it. -/
theorem decode?_eq_some_iff {bytes : Bytes} {s : String} :
    decode? bytes = some s ↔ encode s = bytes := by
  constructor
  · intro h
    simp only [decode?, Option.ite_none_right_eq_some, Option.some.injEq] at h
    obtain ⟨hall, rfl⟩ := h
    rw [encode, String.toList_ofList]
    exact flatMap_of_pieces (map_some_filterMap hall).symm
  · rintro rfl
    have hmap : s.toList.map some = pieces (encode s) := (pieces_encode s).symm
    simp [decode?, ← hmap]

/-- A text has as many bytes as its encoding. -/
theorem length_encode (s : String) : (encode s).length = s.utf8ByteSize := by
  rw [String.utf8ByteSize, ← String.utf8Encode_toList, List.utf8Encode, List.size_toByteArray,
    encode]

/-- A text has at most as many characters as its encoding has bytes. -/
theorem length_toList_le (s : String) : s.toList.length ≤ (encode s).length := by
  rw [encode]
  induction s.toList with
  | nil => exact Nat.le_refl 0
  | cons c cs ih =>
    have hsize : (String.utf8EncodeChar c).length = c.utf8Size := String.length_utf8EncodeChar c
    have hpos := c.utf8Size_pos
    rw [List.flatMap_cons, List.length_append, List.length_cons]
    omega

/-- An encoding has at most four bytes for each character. -/
theorem length_encode_le (s : String) : (encode s).length ≤ 4 * s.toList.length := by
  rw [encode]
  induction s.toList with
  | nil => exact Nat.le_refl 0
  | cons c cs ih =>
    have hsize : (String.utf8EncodeChar c).length = c.utf8Size := String.length_utf8EncodeChar c
    have hfour := c.utf8Size_le_four
    rw [List.flatMap_cons, List.length_append, List.length_cons]
    omega

/-- The encoding of a text decodes to it. -/
theorem decode?_encode (s : String) : decode? (encode s) = some s :=
  decode?_eq_some_iff.mpr rfl

/-- A byte below 0x80 in the encoding of a character is the whole of it. -/
theorem Encoded.eq_singleton {n : Nat} {bytes : Bytes} {b : UInt8} (h : Encoded n bytes)
    (hb : b.toNat < 0x80) (hmem : b ∈ bytes) : bytes = [b] := by
  cases h with
  | one => rw [List.mem_singleton.mp hmem]
  | two ha hc =>
    simp only [List.mem_cons, List.not_mem_nil, or_false, Continues] at hmem hc
    rcases hmem with rfl | rfl <;> omega
  | three ha hc _ hd =>
    simp only [List.mem_cons, List.not_mem_nil, or_false, Continues] at hmem hc hd
    rcases hmem with rfl | rfl | rfl <;> omega
  | four ha hc _ hd he =>
    simp only [List.mem_cons, List.not_mem_nil, or_false, Continues] at hmem hc hd he
    rcases hmem with rfl | rfl | rfl | rfl <;> omega

/-- A byte below 0x80 cuts an encoding between two characters. -/
theorem exists_flatMap_of_append {cs : List Char} {front back : Bytes} {b : UInt8}
    (hb : b.toNat < 0x80) (h : cs.flatMap String.utf8EncodeChar = front ++ b :: back) :
    ∃ before after : List Char, before.flatMap String.utf8EncodeChar = front ∧
      after.flatMap String.utf8EncodeChar = back := by
  induction cs generalizing front with
  | nil => simp at h
  | cons c cs ih =>
    rw [List.flatMap_cons] at h
    rcases List.append_eq_append_iff.mp h with ⟨more, rfl, hmore⟩ | ⟨more, hchar, hmore⟩
    · obtain ⟨before, after, rfl, rfl⟩ := ih hmore
      exact ⟨c :: before, after, List.flatMap_cons, rfl⟩
    · cases more with
      | nil =>
        rw [List.append_nil] at hchar
        obtain ⟨before, after, hbefore, rfl⟩ := @ih [] hmore.symm
        refine ⟨c :: before, after, ?_, rfl⟩
        rw [List.flatMap_cons, hbefore, List.append_nil, hchar]
      | cons d more =>
        obtain ⟨rfl, rfl⟩ := List.cons.inj hmore
        have hsingle := (encoded_encodeChar c).eq_singleton hb (hchar ▸ by simp)
        rw [hchar, List.append_eq_singleton_iff] at hsingle
        obtain ⟨rfl, hmore⟩ | ⟨rfl, hmore⟩ := hsingle
        · obtain ⟨-, rfl⟩ := List.cons.inj hmore
          exact ⟨[], cs, rfl, rfl⟩
        · cases hmore

/-- What stands between two bytes below 0x80 in an encoding is an encoding. -/
theorem exists_encode_of_between {text : String} {front inner back : Bytes} {first last : UInt8}
    (hfirst : first.toNat < 0x80) (hlast : last.toNat < 0x80)
    (h : encode text = front ++ first :: (inner ++ last :: back)) : ∃ s, encode s = inner := by
  obtain ⟨-, rest, -, hrest⟩ := exists_flatMap_of_append hfirst h
  obtain ⟨contents, -, hcontents, -⟩ := exists_flatMap_of_append hlast hrest
  exact ⟨String.ofList contents, by rw [encode, String.toList_ofList, hcontents]⟩

/-- Only the empty text has an empty encoding. -/
theorem encode_eq_nil_iff {text : String} : encode text = [] ↔ text = "" := by
  constructor
  · intro h
    have htext := decode?_encode text
    rw [h] at htext
    exact (Option.some.inj htext).symm
  · rintro rfl
    rfl

end LoginService.Utf8
