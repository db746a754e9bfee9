import LoginService.Proofs.Utf8

/-!
# Lossy decoding

What is shown of bytes that are not UTF-8, said by the table of UTF-8 alone: bytes are cut from left
to right into characters and broken pieces, and a broken piece is as long as the table has a line
that begins with it. A cut never runs into the bytes of a character that stands behind it, so the
text in between two byte sequences is shown as it is, whatever stands around it.
-/

namespace LoginService.Utf8

instance (b : UInt8) : Decidable (Continues b) := inferInstanceAs (Decidable (_ ∧ _))

/-- Some line of the table begins with the bytes. -/
def Begins (bytes : Bytes) : Prop := ∃ n more, Encoded n (bytes ++ more)

/-- The pieces of a byte sequence: characters, and `none` for each longest run of bytes that begins
a line of the table without completing it, and for each byte that begins none. -/
inductive Pieced : Bytes → List (Option Char) → Prop where
  | nil : Pieced [] []
  | character {c : Char} {front rest : Bytes} {found : List (Option Char)}
      (hfront : Encoded c.toNat front) (hrest : Pieced rest found) :
      Pieced (front ++ rest) (some c :: found)
  | broken {front rest : Bytes} {found : List (Option Char)} (hne : front ≠ [])
      (hbegins : Begins front) (hincomplete : ∀ n, ¬Encoded n front)
      (hlongest : ∀ b ∈ rest.head?, ¬Begins (front ++ [b])) (hrest : Pieced rest found) :
      Pieced (front ++ rest) (none :: found)
  | stray {b : UInt8} {rest : Bytes} {found : List (Option Char)} (hb : ¬Begins [b])
      (hrest : Pieced rest found) : Pieced (b :: rest) (none :: found)

/-- A beginning of what begins a line begins that line. -/
theorem Begins.of_append {bytes more : Bytes} (h : Begins (bytes ++ more)) : Begins bytes := by
  obtain ⟨n, rest, h⟩ := h
  rw [List.append_assoc] at h
  exact ⟨n, _, h⟩

/-- All bytes of a line but the first continue a character. -/
theorem Encoded.continues_of_mem {n : Nat} {a : UInt8} {rest : Bytes} (h : Encoded n (a :: rest)) :
    ∀ b ∈ rest, Continues b := by
  cases h with
  | one => simp
  | two ha hb => simpa using hb
  | three ha hb hnarrow hc => simpa using And.intro hb hc
  | four ha hb hnarrow hc hd => simpa using And.intro hb (And.intro hc hd)

/-- The first byte of a line does not continue a character. -/
theorem Encoded.not_continues {n : Nat} {a : UInt8} {rest : Bytes} (h : Encoded n (a :: rest)) :
    ¬Continues a := by
  unfold Continues
  cases h <;> omega

/-- The first byte of a line stands nowhere else in a line. -/
theorem Encoded.not_begins {n : Nat} {a : UInt8} {rest front : Bytes} (h : Encoded n (a :: rest))
    (hfront : front ≠ []) : ¬Begins (front ++ [a]) := by
  rintro ⟨m, more, hline⟩
  obtain ⟨first, front, rfl⟩ := List.exists_cons_of_ne_nil hfront
  rw [List.cons_append, List.cons_append] at hline
  exact h.not_continues (hline.continues_of_mem a (by simp))

namespace Scan

/-- A piece that is no character stays to the end of a scan. -/
theorem mem_done_foldl {s : Scan} {bytes : Bytes} (h : none ∈ s.done) :
    none ∈ (bytes.foldl step s).done := by
  induction bytes generalizing s with
  | nil => exact h
  | cons b bytes ih => exact ih (mem_done_step h)

/-- The bytes of a line are scanned without giving up a piece. -/
theorem notMem_done_of_begins {bytes : Bytes} (h : Begins bytes) :
    none ∉ (bytes.foldl step initial).done := by
  obtain ⟨n, more, hline⟩ := h
  intro hmem
  have hend := foldl_step_of_encoded (c := Char.ofNat n) (by rwa [toNat_ofNat hline.isValidChar]) []
  have hlost : none ∈ (more.foldl step _).done := mem_done_foldl hmem
  rw [← List.foldl_append, initial, hend] at hlost
  simp at hlost

end Scan

/-- The bytes read of a character in progress are scanned into it. -/
theorem Started.foldl_step {front : Bytes} {p : Pending} (h : Started front p)
    (done : List (Option Char)) : front.foldl Scan.step ⟨done, none⟩ = ⟨done, some p⟩ := by
  induction h with
  | lead h => exact Scan.step_lead h
  | more _ hb hn ih =>
    rw [List.foldl_append, ih, List.foldl_cons, List.foldl_nil, Scan.step_admitted hb, Scan.proceed]
    simp only [hn]

/-- A byte that is not admitted is read as if the character in progress had been given up before. -/
theorem step_of_not_admits {done : List (Option Char)} {p : Pending} {b : UInt8}
    (h : ¬p.Admits b) : Scan.step ⟨done, some p⟩ b = Scan.step ⟨none :: done, none⟩ b :=
  if_neg h

/-- A character in progress has some bytes. -/
theorem Started.ne_nil {front : Bytes} {p : Pending} (h : Started front p) : front ≠ [] := by
  cases h <;> simp

/-- A character in progress is not complete. -/
theorem Started.not_encoded {front : Bytes} {p : Pending} (h : Started front p) (n : Nat) :
    ¬Encoded n front := by
  intro hline
  have hend := Scan.foldl_step_of_encoded (c := Char.ofNat n)
    (by rwa [toNat_ofNat hline.isValidChar]) []
  rw [h.foldl_step] at hend
  cases hend

/-- A character in progress admits some byte. -/
theorem Started.exists_admits {front : Bytes} {p : Pending} (h : Started front p) :
    ∃ b, p.Admits b := by
  cases h with
  | @lead a p h =>
    obtain ⟨-, ha⟩ | ⟨-, ha⟩ | ⟨-, ha⟩ := lead_cases h
    · cases h.symm.trans (opening_two ha)
      exact ⟨0x80, admits_iff_continues.mpr (by decide)⟩
    · cases h.symm.trans (opening_three ha)
      by_cases hnarrow : a.toNat = 0xE0
      · exact ⟨0xA0, admits_three_iff.mpr ⟨by decide, fun _ => by decide, fun _ => by omega⟩⟩
      · exact ⟨0x80, admits_three_iff.mpr ⟨by decide, fun _ => by omega, fun _ => by decide⟩⟩
    · cases h.symm.trans (opening_four ha)
      by_cases hnarrow : a.toNat = 0xF0
      · exact ⟨0x90, admits_four_iff.mpr ⟨by decide, fun _ => by decide, fun _ => by omega⟩⟩
      · exact ⟨0x80, admits_four_iff.mpr ⟨by decide, fun _ => by omega, fun _ => by decide⟩⟩
  | more => exact ⟨0x80, admits_iff_continues.mpr (by decide)⟩

/-- A character in progress can be completed. -/
theorem Started.begins {front : Bytes} {p : Pending} (h : Started front p) : Begins front := by
  obtain ⟨b, hb⟩ := h.exists_admits
  induction hn : p.remaining generalizing front p b with
  | zero => exact ⟨_, [b], h.encoded hb hn⟩
  | succ n ih =>
    have hmore := h.more hb hn
    obtain ⟨d, hd⟩ := hmore.exists_admits
    exact (ih hmore d hd rfl).of_append

/-- The bytes that a character in progress admits are those with which the table goes on. -/
theorem Started.begins_append_iff {front : Bytes} {p : Pending} {b : UInt8} (h : Started front p) :
    Begins (front ++ [b]) ↔ p.Admits b := by
  constructor
  · intro hbegins
    by_contra hb
    refine Scan.notMem_done_of_begins hbegins ?_
    rw [List.foldl_append, Scan.initial, h.foldl_step, List.foldl_cons, step_of_not_admits hb]
    exact Scan.mem_done_foldl (Scan.mem_done_step List.mem_cons_self)
  · intro hb
    cases hn : p.remaining with
    | zero => exact ⟨_, [], by simpa using h.encoded hb hn⟩
    | succ n => exact (h.more hb hn).begins

/-- A byte begins no line of the table exactly if it is invalid where a character may begin. -/
theorem not_begins_iff {b : UInt8} : ¬Begins [b] ↔ opening b = .invalid := by
  constructor
  · intro h
    cases hopen : opening b with
    | character c => exact absurd ⟨_, [], .one (character_cases hopen).1 rfl⟩ h
    | lead p => exact absurd (Started.lead hopen).begins h
    | invalid => rfl
  · intro hopen hbegins
    refine Scan.notMem_done_of_begins hbegins ?_
    simp [Scan.initial, Scan.step, Scan.enter, hopen]

/-- The bytes of a line up to any but the last are a character in progress. -/
theorem Encoded.exists_started {n : Nat} {front more : Bytes} (h : Encoded n (front ++ more))
    (hfront : front ≠ []) (hmore : more ≠ []) : ∃ p, Started front p := by
  obtain ⟨x, front, rfl⟩ := List.exists_cons_of_ne_nil hfront
  obtain ⟨y, more, rfl⟩ := List.exists_cons_of_ne_nil hmore
  generalize hline : x :: front ++ y :: more = line at h
  cases h with
  | one => simp at hline
  | two ha =>
    rcases front with _ | ⟨x₁, front⟩ <;>
      simp only [List.cons_append, List.nil_append, List.cons.injEq] at hline
    · obtain ⟨rfl, -⟩ := hline
      exact ⟨_, .lead (opening_two ha)⟩
    · simp at hline
  | three ha hb hnarrow =>
    have hlead := Started.lead (opening_three ha)
    rcases front with _ | ⟨x₁, _ | ⟨x₂, front⟩⟩ <;>
      simp only [List.cons_append, List.nil_append, List.cons.injEq] at hline
    · obtain ⟨rfl, -⟩ := hline
      exact ⟨_, hlead⟩
    · obtain ⟨rfl, rfl, -⟩ := hline
      exact ⟨_, hlead.more (admits_three_iff.mpr ⟨hb, hnarrow⟩) rfl⟩
    · simp at hline
  | four ha hb hnarrow hc =>
    have hlead := Started.lead (opening_four ha)
    have hsecond := hlead.more (admits_four_iff.mpr ⟨hb, hnarrow⟩) rfl
    rcases front with _ | ⟨x₁, _ | ⟨x₂, _ | ⟨x₃, front⟩⟩⟩ <;>
      simp only [List.cons_append, List.nil_append, List.cons.injEq] at hline
    · obtain ⟨rfl, -⟩ := hline
      exact ⟨_, hlead⟩
    · obtain ⟨rfl, rfl, -⟩ := hline
      exact ⟨_, hsecond⟩
    · obtain ⟨rfl, rfl, rfl, -⟩ := hline
      exact ⟨_, hsecond.more (admits_iff_continues.mpr hc) rfl⟩
    · simp at hline

/-- What begins a line without completing it is a character in progress. -/
theorem Begins.exists_started {front : Bytes} (h : Begins front) (hne : front ≠ [])
    (hincomplete : ∀ n, ¬Encoded n front) : ∃ p, Started front p := by
  obtain ⟨n, more, hline⟩ := h
  refine hline.exists_started hne ?_
  rintro rfl
  exact hincomplete n (by simpa using hline)

/-- A character in progress that is not continued is one broken piece. -/
theorem Scan.flush_foldl_some {done : List (Option Char)} {p : Pending} {rest : Bytes}
    (h : ∀ b ∈ rest.head?, ¬p.Admits b) :
    (rest.foldl step ⟨done, some p⟩).flush = (rest.foldl step ⟨none :: done, none⟩).flush := by
  cases rest with
  | nil => rfl
  | cons b rest => rw [List.foldl_cons, List.foldl_cons, step_of_not_admits (h b rfl)]

/-- A scan of bytes finds their pieces. -/
theorem Pieced.flush_foldl {bytes : Bytes} {found : List (Option Char)} (h : Pieced bytes found)
    (done : List (Option Char)) :
    (bytes.foldl Scan.step ⟨done, none⟩).flush.done = found.reverse ++ done := by
  induction h generalizing done with
  | nil => rfl
  | character hfront _ ih =>
    rw [List.foldl_append, Scan.foldl_step_of_encoded hfront, ih]
    simp
  | broken hne hbegins hincomplete hlongest _ ih =>
    obtain ⟨p, hp⟩ := hbegins.exists_started hne hincomplete
    have hstops : ∀ b ∈ _, ¬p.Admits b := fun b hb hadmits =>
      hlongest b hb (hp.begins_append_iff.mpr hadmits)
    rw [List.foldl_append, hp.foldl_step, Scan.flush_foldl_some hstops, ih]
    simp
  | @stray b _ _ hb _ ih =>
    have hstep : Scan.step ⟨done, none⟩ b = ⟨none :: done, none⟩ := by
      simp only [Scan.step, Scan.enter, not_begins_iff.mp hb]
    rw [List.foldl_cons, hstep, ih]
    simp

/-- Bytes have pieces, and so do bytes behind those of a character in progress. -/
theorem exists_pieced (rest : Bytes) : (∃ found, Pieced rest found) ∧
    ∀ front p, Started front p → ∃ found, Pieced (front ++ rest) found := by
  induction rest with
  | nil =>
    refine ⟨⟨[], .nil⟩, fun front p hp => ⟨[none], ?_⟩⟩
    exact .broken hp.ne_nil hp.begins hp.not_encoded (by simp) .nil
  | cons b rest ih =>
    obtain ⟨⟨found, hfound⟩, hstarted⟩ := ih
    have hfresh : ∃ found, Pieced (b :: rest) found := by
      cases hopen : opening b with
      | character c =>
        obtain ⟨hb, rfl⟩ := character_cases hopen
        exact ⟨_, .character (.one hb (toNat_ofNat (Or.inl (by omega)))) hfound⟩
      | lead p => exact hstarted [b] p (.lead hopen)
      | invalid => exact ⟨_, .stray (not_begins_iff.mpr hopen) hfound⟩
    refine ⟨hfresh, fun front p hp => ?_⟩
    by_cases hb : p.Admits b
    · rw [List.append_cons]
      cases hn : p.remaining with
      | zero =>
        have hline := hp.encoded hb hn
        rw [← toNat_ofNat hline.isValidChar] at hline
        exact ⟨_, .character hline hfound⟩
      | succ n => exact hstarted _ _ (hp.more hb hn)
    · -- What is in progress breaks off, and its end is where the next piece begins.
      obtain ⟨found, hfound⟩ := hfresh
      refine ⟨_, .broken hp.ne_nil hp.begins hp.not_encoded ?_ hfound⟩
      rintro _ ⟨⟩
      exact mt hp.begins_append_iff.mp hb

/-- The pieces that lossy decoding shows are the only ones by the table. -/
theorem pieced_iff {bytes : Bytes} {found : List (Option Char)} :
    Pieced bytes found ↔ pieces bytes = found := by
  have hpieces : ∀ found, Pieced bytes found → pieces bytes = found := fun found h => by
    rw [pieces, Scan.initial, h.flush_foldl, List.append_nil, List.reverse_reverse]
  constructor
  · exact hpieces found
  · rintro rfl
    obtain ⟨found, hfound⟩ := (exists_pieced bytes).1
    rwa [hpieces found hfound]

/-- Pieces in front stay what they are if none of them can go on into the bytes behind. -/
theorem Pieced.append {front back : Bytes} {before behind : List (Option Char)}
    (hfront : Pieced front before) (hback : Pieced back behind)
    (hseam : ∀ b ∈ back.head?, ∀ bytes ≠ [], ¬Begins (bytes ++ [b])) :
    Pieced (front ++ back) (before ++ behind) := by
  induction hfront with
  | nil => exact hback
  | character hline _ ih =>
    rw [List.append_assoc]
    exact .character hline ih
  | @broken _ rest _ hne hbegins hincomplete hlongest _ ih =>
    rw [List.append_assoc]
    refine .broken hne hbegins hincomplete (fun b hb => ?_) ih
    cases rest with
    | nil => exact hseam b hb _ hne
    | cons => exact hlongest b hb
  | stray hb _ ih => exact .stray hb ih

/-- The characters of an encoding are its pieces, whatever bytes are behind. -/
theorem Pieced.flatMap_append {back : Bytes} {behind : List (Option Char)}
    (hback : Pieced back behind) (cs : List Char) :
    Pieced (cs.flatMap String.utf8EncodeChar ++ back) (cs.map some ++ behind) := by
  induction cs with
  | nil => exact hback
  | cons c cs ih =>
    rw [List.flatMap_cons, List.append_assoc]
    exact .character (encoded_encodeChar c) ih

/-- What follows an encoding in an encoding encodes the characters that follow. -/
theorem exists_toList_append {text whole : String} {more : Bytes}
    (h : encode whole = encode text ++ more) : ∃ rest : List Char,
      whole.toList = text.toList ++ rest ∧ rest.flatMap String.utf8EncodeChar = more := by
  have hmore := (pieced_iff.mpr rfl : Pieced more _).flatMap_append text.toList
  have hpieces := pieced_iff.mp hmore
  rw [← encode, ← h, pieces_encode, List.map_eq_append_iff] at hpieces
  obtain ⟨front, rest, hwhole, hfront, hrest⟩ := hpieces
  obtain rfl : front = text.toList := (List.map_inj_right fun _ _ => Option.some.inj).mp hfront
  exact ⟨rest, hwhole, flatMap_of_pieces hrest.symm⟩

/-- The first byte of a text continues nothing that stands in front. -/
theorem not_begins_of_mem_head? {s : String} (hs : s ≠ "") {back : Bytes} {b : UInt8}
    (hb : b ∈ (encode s ++ back).head?) {bytes : Bytes} (hbytes : bytes ≠ []) :
    ¬Begins (bytes ++ [b]) := by
  obtain ⟨c, cs, hcs⟩ := List.exists_cons_of_ne_nil (mt String.toList_eq_nil_iff.mp hs)
  have hline := encoded_encodeChar c
  generalize hchar : String.utf8EncodeChar c = line at hline
  rw [encode, hcs, List.flatMap_cons, hchar] at hb
  cases line with
  | nil => cases hline
  | cons a line =>
    obtain rfl : a = b := by simpa using hb
    exact hline.not_begins hbytes

/-- The pieces of a text between two byte sequences are its characters, and the bytes around are cut
as they are without it. -/
theorem pieces_append_encode_append (front back : Bytes) {s : String} (hs : s ≠ "") :
    pieces (front ++ encode s ++ back) = pieces front ++ s.toList.map some ++ pieces back := by
  have hback := (pieced_iff.mpr rfl : Pieced back _).flatMap_append s.toList
  rw [List.append_assoc, List.append_assoc]
  exact pieced_iff.mp ((pieced_iff.mpr rfl).append hback fun b hb bytes =>
    not_begins_of_mem_head? hs hb)

/-- A text between two byte sequences is shown as it is. -/
theorem decodeLossy_append_encode_append (front back : Bytes) {s : String} (hs : s ≠ "") :
    decodeLossy (front ++ encode s ++ back) = decodeLossy front ++ s ++ decodeLossy back := by
  unfold decodeLossy
  rw [pieces_append_encode_append front back hs]
  apply String.toList_injective
  simp [Function.comp_def]

/-- A character that has lost its end and one that lacks its beginning leave the letter alone. -/
example : decodeLossy ([0xE2, 0x82] ++ encode "A" ++ [0x82, 0xAC]) = "\uFFFDA\uFFFD\uFFFD" := by
  decide

/-- The encoding of a text is shown as that text. -/
theorem decodeLossy_encode (s : String) : decodeLossy (encode s) = s := by
  rw [decodeLossy, pieces_encode]
  simp [Function.comp_def]

/-- What is shown of bytes encodes them exactly if they encode a text. -/
theorem encode_decodeLossy_eq_iff {bytes : Bytes} :
    encode (decodeLossy bytes) = bytes ↔ ∃ s, encode s = bytes := by
  constructor
  · intro h
    exact ⟨_, h⟩
  · rintro ⟨s, rfl⟩
    rw [decodeLossy_encode]

end LoginService.Utf8
