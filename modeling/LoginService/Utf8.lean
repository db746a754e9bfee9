/-!
# UTF-8

Received bytes are cut into pieces from left to right: a piece is a character, or a maximal run of
bytes that begins a character and is not continued. Strict decoding wants characters only; lossy
decoding shows a replacement character for every other piece.
-/

namespace LoginService

/-- Bytes as received: a request body, or the value of an environment variable. -/
abbrev Bytes := List UInt8

namespace Utf8

/-- A character of which some bytes have arrived, with what is required of the next one. -/
structure Pending where
  /-- How many bytes follow the next one. -/
  remaining : Nat
  /-- The least value the next byte may have. -/
  low : UInt8
  /-- The greatest value the next byte may have. -/
  high : UInt8
  /-- The scalar value as far as it is known. -/
  bits : Nat

/-- What a byte means where a character may begin. -/
inductive Opening where
  | character (c : Char)
  | lead (pending : Pending)
  | invalid

/-- The meaning of a byte at the beginning of a character. The narrowed ranges of the second byte
leave no overlong form, no surrogate and nothing beyond U+10FFFF. -/
def opening (b : UInt8) : Opening :=
  if b < 0x80 then .character (Char.ofUInt8 b)
  else if b < 0xC2 then .invalid
  else if b < 0xE0 then .lead ⟨0, 0x80, 0xBF, b.toNat - 0xC0⟩
  else if b < 0xF0 then
    .lead ⟨1, if b = 0xE0 then 0xA0 else 0x80, if b = 0xED then 0x9F else 0xBF, b.toNat - 0xE0⟩
  else if b < 0xF5 then
    .lead ⟨2, if b = 0xF0 then 0x90 else 0x80, if b = 0xF4 then 0x8F else 0xBF, b.toNat - 0xF0⟩
  else .invalid

/-- A decoding in progress. -/
structure Scan where
  /-- The pieces found so far, last first: a character, or `none` for bytes that form none. -/
  done : List (Option Char)
  /-- The character in progress, if its first byte has been read. -/
  pending : Option Pending

namespace Scan

/-- The scan before the first byte. -/
def initial : Scan := ⟨[], none⟩

/-- Gives up a character that is not continued. -/
def flush (s : Scan) : Scan :=
  match s.pending with
  | none => s
  | some _ => ⟨none :: s.done, none⟩

/-- Takes a byte where a character may begin. -/
def enter (done : List (Option Char)) (b : UInt8) : Scan :=
  match opening b with
  | .character c => ⟨some c :: done, none⟩
  | .lead p => ⟨done, some p⟩
  | .invalid => ⟨none :: done, none⟩

/-- Takes a byte that continues a character. -/
def proceed (done : List (Option Char)) (p : Pending) (b : UInt8) : Scan :=
  let bits := p.bits * 64 + (b.toNat - 0x80)
  match p.remaining with
  | 0 => ⟨some (Char.ofNat bits) :: done, none⟩
  | n + 1 => ⟨done, some ⟨n, 0x80, 0xBF, bits⟩⟩

/-- Takes the next byte. A byte that does not continue the character in progress ends it and is read
again as the beginning of another. -/
def step (s : Scan) (b : UInt8) : Scan :=
  match s.pending with
  | none => enter s.done b
  | some p =>
    if p.low ≤ b ∧ b ≤ p.high then proceed s.done p b
    else enter (none :: s.done) b

end Scan

/-- The pieces of a byte sequence in order: its characters, and `none` for each maximal run of bytes
that begins a character and is not continued. -/
def pieces (bytes : Bytes) : List (Option Char) :=
  (bytes.foldl Scan.step Scan.initial).flush.done.reverse

/-- The text that the bytes encode, if they are valid UTF-8. -/
def decode? (bytes : Bytes) : Option String :=
  let found := pieces bytes
  if found.all Option.isSome then some (String.ofList (found.filterMap id)) else none

/-- The text of the bytes, with U+FFFD for each piece that is no character. -/
def decodeLossy (bytes : Bytes) : String :=
  String.ofList ((pieces bytes).map (Option.getD · '\uFFFD'))

/-- The bytes that encode a text. -/
def encode (s : String) : Bytes :=
  s.toList.flatMap String.utf8EncodeChar

end Utf8

end LoginService
