import LoginService.Proofs.Digits
import LoginService.Proofs.Json.Numeral
import LoginService.Proofs.Settings

/-!
# What an environment settles

A port is accepted if it is written by one or more digits, after a plus sign at choice, and its
number has sixteen bits. Digits are gathered under that bound, but the numbers meant here are
unbounded, so leading zeros and the length of the text do not matter. Nothing but the port makes an
environment fail, and every other variable is taken as it is.
-/

namespace LoginService

open Json.Numeral (DigitRun)

/-- The text of a variable: what its value encodes, or none if it is unset or not UTF-8. -/
inductive Environment.TextIs (env : Environment) (name : String) : Option String → Prop where
  | set {text : String} (h : env name = some (Utf8.encode text)) : TextIs env name (some text)
  | unset (h : env name = none) : TextIs env name none
  | notUtf8 {bytes : Bytes} (h : env name = some bytes)
      (hbytes : ∀ text, Utf8.encode text ≠ bytes) : TextIs env name none

namespace Settings

variable {env : Environment} {name text : String} {port : UInt16}

/-- A variable has a text exactly if its value encodes that text. -/
theorem text?_eq_some_iff : text? env name = some text ↔ env name = some (Utf8.encode text) := by
  simp only [text?, Option.bind_eq_some_iff, Utf8.decode?_eq_some_iff]
  constructor
  · rintro ⟨bytes, hbytes, rfl⟩
    exact hbytes
  · intro hbytes
    exact ⟨_, hbytes, rfl⟩

/-- The text that is taken from a variable is its text. -/
theorem textIs_text? (env : Environment) (name : String) : env.TextIs name (text? env name) := by
  cases htext : text? env name with
  | some text => exact .set (text?_eq_some_iff.mp htext)
  | none =>
    cases hvalue : env name with
    | none => exact .unset hvalue
    | some bytes =>
      refine .notUtf8 hvalue fun text hencode => ?_
      rw [text?_eq_some_iff.mpr (hencode ▸ hvalue)] at htext
      cases htext

/-- A text spells a natural number: digits that write it, after a plus sign at choice. -/
inductive Spells (n : Nat) : List Char → Prop where
  | digits {digits : List Char} (hdigits : DigitRun digits)
      (hvalue : Nat.ofDigitChars 10 digits 0 = n) : Spells n digits
  | plus {digits : List Char} (hdigits : DigitRun digits)
      (hvalue : Nat.ofDigitChars 10 digits 0 = n) : Spells n ('+' :: digits)

/-- Digits do not begin with a plus sign. -/
theorem not_digitRun_plus (digits : List Char) : ¬DigitRun ('+' :: digits) := by
  rintro ⟨-, hdigits⟩
  exact absurd (hdigits '+' List.mem_cons_self) (by decide)

/-- A text spells a number if and only if that is what is left without a plus sign in front. -/
theorem spells_iff {n : Nat} : Spells n text.toList ↔
    DigitRun (portDigits text) ∧ Nat.ofDigitChars 10 (portDigits text) 0 = n := by
  unfold portDigits
  split
  · next rest htext =>
    rw [htext]
    constructor
    · rintro (⟨hdigits, -⟩ | ⟨hdigits, hvalue⟩)
      · exact absurd hdigits (not_digitRun_plus rest)
      · exact ⟨hdigits, hvalue⟩
    · rintro ⟨hdigits, hvalue⟩
      exact .plus hdigits hvalue
  · next hplus =>
    constructor
    · intro hspells
      generalize htext : text.toList = chars at hspells
      cases hspells with
      | digits hdigits hvalue => exact ⟨hdigits, hvalue⟩
      | plus => exact absurd htext (hplus _)
    · rintro ⟨hdigits, hvalue⟩
      exact .digits hdigits hvalue

/-- All that is left of a text is read as digits exactly if it is a run of them. -/
theorem read?_eq_nil_iff {chars digits : List Char} :
    Digits.read? chars = some (digits, []) ↔ DigitRun chars ∧ digits = chars := by
  rw [Digits.read?_eq_some_iff, List.append_nil]
  constructor
  · rintro ⟨hdigits, rfl, -⟩
    exact ⟨hdigits, rfl⟩
  · rintro ⟨hdigits, rfl⟩
    exact ⟨hdigits, rfl, notAhead_nil⟩

/-- A text is read as a port exactly if it spells the number of that port. -/
theorem port?_eq_some_iff : port? text = some port ↔ Spells port.toNat text.toList := by
  rw [spells_iff, port?]
  constructor
  · intro h
    split at h
    · next digits hread =>
      obtain ⟨hdigits, rfl⟩ := read?_eq_nil_iff.mp hread
      split at h
      · next n hgather =>
        obtain ⟨hvalue, hle⟩ := (Digits.gather_eq_iff (Nat.zero_le greatestPort)).mp hgather
        obtain rfl := Option.some.inj h
        rw [greatestPort] at hle
        refine ⟨hdigits, ?_⟩
        rw [UInt16.toNat_ofNat_of_lt' (by simp only [UInt16.size]; omega), hvalue]
      · cases h
    · cases h
  · rintro ⟨hdigits, hvalue⟩
    have hlt := port.toNat_lt
    have hgather : Digits.gather greatestPort 0 (portDigits text) = (port.toNat, []) :=
      (Digits.gather_eq_iff (Nat.zero_le _)).mpr ⟨hvalue.symm, by rw [greatestPort]; omega⟩
    simp only [read?_eq_nil_iff.mpr ⟨hdigits, rfl⟩, hgather, UInt16.ofNat_toNat]

/-- A text is read as some port exactly if it spells a number of sixteen bits. -/
theorem exists_port?_iff :
    (∃ port, port? text = some port) ↔ ∃ n ≤ 65535, Spells n text.toList := by
  constructor
  · rintro ⟨port, hport⟩
    have hlt := port.toNat_lt
    exact ⟨port.toNat, by omega, port?_eq_some_iff.mp hport⟩
  · rintro ⟨n, hn, hspells⟩
    refine ⟨UInt16.ofNat n, port?_eq_some_iff.mpr ?_⟩
    rwa [UInt16.toNat_ofNat_of_lt' (by simp only [UInt16.size]; omega)]

/-- Zeros in front do not matter at the bound, and one more number passes it. -/
example : port? "+00065535" = some 65535 ∧ port? "65536" = none ∧ port? "+" = none := by decide

/-- The variable of the port is set to a text that spells no number of sixteen bits. -/
def RefusesPort (env : Environment) (text : String) : Prop :=
  env "PORT" = some (Utf8.encode text) ∧ ¬∃ n ≤ 65535, Spells n text.toList

/-- The port of the settings: the number that the variable spells, or 3000 if it has no text. -/
inductive PortFrom (env : Environment) (port : UInt16) : Prop where
  | spelled {text : String} (htext : env.TextIs "PORT" (some text))
      (hport : Spells port.toNat text.toList)
  | standard (htext : env.TextIs "PORT" none) (hport : port.toNat = 3000)

/-- The settings are those of the environment, variable by variable. -/
structure From (env : Environment) (s : Settings) : Prop where
  /-- The port is the number that its variable spells. -/
  port : PortFrom env s.port
  /-- The key is the text of its variable, if there is one. -/
  apiKey : env.TextIs "FIREBASE_API_KEY" s.apiKey
  /-- The domain is the text of its variable, if there is one. -/
  authDomain : env.TextIs "FIREBASE_AUTH_DOMAIN" s.authDomain
  /-- The address is the text of its variable, or the standard one. -/
  redirectUrl : ∃ text, env.TextIs "LOGIN_REDIRECT_URL" text ∧
    s.redirectUrl = text.getD "https://example.com"

/-- Settings with the port of the environment are those of the environment. -/
theorem from_withPort (hport : PortFrom env port) : From env (withPort env port) where
  port := hport
  apiKey := textIs_text? env _
  authDomain := textIs_text? env _
  redirectUrl := ⟨_, textIs_text? env _, rfl⟩

/-- An environment is refused exactly for the text of its port, whatever the other variables are. -/
theorem ofEnvironment_eq_error_iff :
    ofEnvironment env = .error (.invalidPort text) ↔ RefusesPort env text := by
  rw [RefusesPort, ← exists_port?_iff, ← text?_eq_some_iff, ofEnvironment]
  cases htext : text? env "PORT" with
  | none => simp
  | some other =>
    dsimp only
    cases hport : port? other with
    | none =>
      simp only [Except.error.injEq, SettingsError.invalidPort.injEq, Option.some.injEq]
      constructor
      · rintro rfl
        exact ⟨rfl, by simp [hport]⟩
      · exact And.left
    | some port =>
      simp only [reduceCtorEq, Option.some.injEq, false_iff, not_and, not_not]
      rintro rfl
      exact ⟨port, hport⟩

/-- An environment fails if and only if its port is refused, and the error carries the text of the
port. Otherwise it gives settings, and each of them is what its variable says. -/
theorem environment_settles (env : Environment) :
    (∀ text, ofEnvironment env = .error (.invalidPort text) ↔ RefusesPort env text) ∧
    ((¬∃ text, RefusesPort env text) →
      ∃ settings, ofEnvironment env = .ok settings ∧ From env settings) := by
  refine ⟨fun text => ofEnvironment_eq_error_iff, fun hport => ?_⟩
  have htextIs := textIs_text? env "PORT"
  unfold ofEnvironment
  cases htext : text? env "PORT" with
  | none =>
    rw [htext] at htextIs
    exact ⟨_, rfl, from_withPort (.standard htextIs rfl)⟩
  | some text =>
    rw [htext] at htextIs
    dsimp only
    cases hread : port? text with
    | none =>
      have hrefused : ofEnvironment env = .error (.invalidPort text) := by
        simp only [ofEnvironment, htext, hread]
      exact absurd ⟨text, ofEnvironment_eq_error_iff.mp hrefused⟩ hport
    | some port => exact ⟨_, rfl, from_withPort (.spelled htextIs (port?_eq_some_iff.mp hread))⟩

end Settings

end LoginService
