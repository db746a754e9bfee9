import LoginService.Proofs.Site.Events
import LoginService.Proofs.Utf8.Lossy

/-!
# The logged body

A login is reported with its body as a text, whatever the bytes are. The text is faithful:
characters are shown where they stand, and only bytes that are no characters are replaced. Where the
body is readable nothing is replaced, so the log tells which bytes were received.
-/

namespace LoginService.Site

open Http Json Login

/-- A readable body encodes a text. -/
theorem exists_encode_of_readable {body : Bytes} (h : identifier body ≠ .error .unreadable) :
    ∃ text, Utf8.encode text = body := by
  rw [ne_eq, identifier_eq_unreadable_iff, not_not] at h
  obtain ⟨-, -, ⟨text, hbody, -⟩, -⟩ := h
  exact ⟨text, hbody⟩

/-- A reported body that is not reported as unreadable is readable. -/
theorem readable_of_log {s : Site} {request : Request} {text : String}
    (hlogged : .loginRequest text ∈ (s.answer request).log)
    (hreadable : .unreadableBody ∉ (s.answer request).log) :
    identifier request.body ≠ .error .unreadable := by
  rw [log_answer] at hlogged hreadable
  rw [(finds s request).unreadableBody_mem_iff, ← identifier_eq_unreadable_iff] at hreadable
  exact fun hread => hreadable ⟨((finds s request).loginRequest_mem_iff.mp hlogged).1, hread⟩

/-- What is shown of bytes is faithful, and it is what the log shows of a body. -/
structure ShowsBodies (shown : Bytes → String) : Prop where
  /-- A login that is not too long is reported with what is shown of its body. -/
  logged : ∀ (s : Site) (request : Request) (text : String),
    .loginRequest text ∈ (s.answer request).log ↔
      (IsLogin request ∧ request.body.length ≤ bodyLimit) ∧ text = shown request.body
  /-- Bytes are cut in one way, and each piece that is no character is shown as U+FFFD. -/
  pieced : ∀ bytes, ∃ found, (∀ other, Utf8.Pieced bytes other ↔ other = found) ∧
    shown bytes = String.ofList (found.map (Option.getD · '\uFFFD'))
  /-- A text is shown as it is, whatever stands around it. -/
  between : ∀ (front back : Bytes) (text : String), text ≠ "" →
    shown (front ++ Utf8.encode text ++ back) = shown front ++ text ++ shown back
  /-- Nothing is lost exactly if the bytes are a text. -/
  lossless_iff : ∀ bytes, Utf8.encode (shown bytes) = bytes ↔ ∃ text, Utf8.encode text = bytes
  /-- A readable body is a text as a whole, and nothing of it is lost. -/
  readable : ∀ body, identifier body ≠ .error .unreadable →
    (∃ text, Utf8.encode text = body) ∧ Utf8.encode (shown body) = body
  /-- What is logged encodes the body, unless that is reported as unreadable. -/
  received : ∀ (s : Site) (request : Request) (text : String),
    .loginRequest text ∈ (s.answer request).log → .unreadableBody ∉ (s.answer request).log →
      Utf8.encode text = request.body

/-- The log shows bodies by lossy decoding, which is faithful. -/
theorem showsBodies_decodeLossy : ShowsBodies Utf8.decodeLossy where
  logged s request text := by rw [log_answer, (finds s request).loginRequest_mem_iff]
  pieced bytes := ⟨_, fun _ => Utf8.pieced_iff.trans eq_comm, rfl⟩
  between front back _ := Utf8.decodeLossy_append_encode_append front back
  lossless_iff _ := Utf8.encode_decodeLossy_eq_iff
  readable body h :=
    have htext := exists_encode_of_readable h
    ⟨htext, Utf8.encode_decodeLossy_eq_iff.mpr htext⟩
  received s request text hlogged hreadable := by
    have htext := exists_encode_of_readable (readable_of_log hlogged hreadable)
    rw [log_answer, (finds s request).loginRequest_mem_iff] at hlogged
    rw [hlogged.2, Utf8.encode_decodeLossy_eq_iff]
    exact htext

end LoginService.Site
