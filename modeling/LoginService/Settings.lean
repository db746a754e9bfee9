import LoginService.Digits
import LoginService.Json.Value
import LoginService.Utf8

/-!
# Settings

The settings of the service, and how they are read from environment variables. A variable whose
value is not UTF-8 counts as unset, and one with an empty value counts as set.
-/

namespace LoginService

/-- The values of environment variables; `none` for one that is unset. -/
abbrev Environment := String → Option Bytes

/-- What the browser is told about the identity provider. -/
structure PublicConfig where
  /-- The key that the browser presents. -/
  apiKey : String
  /-- The domain that authenticates. -/
  authDomain : String
deriving DecidableEq

/-- The settings of the service. -/
structure Settings where
  /-- The port to listen on. -/
  port : UInt16
  /-- The key that the browser presents to the identity provider. -/
  apiKey : Option String
  /-- The domain of the identity provider. -/
  authDomain : Option String
  /-- Where an accepted login leads. -/
  redirectUrl : String
deriving DecidableEq

/-- Why settings cannot be read. -/
inductive SettingsError where
  /-- The text of the port is not a port number. -/
  | invalidPort (text : String)
deriving DecidableEq

/-- The wording of an error. -/
def SettingsError.message : SettingsError → String
  | .invalidPort text => "PORT is not a valid port number: " ++ text

/-- The JSON form of the public configuration. -/
def PublicConfig.toValue (config : PublicConfig) : Json.Value :=
  .object [("apiKey", .string config.apiKey), ("authDomain", .string config.authDomain)]

namespace Settings

/-- The settings that hold where nothing else is set. -/
def standard : Settings where
  port := 3000
  apiKey := none
  authDomain := none
  redirectUrl := "https://example.com"

/-- The greatest port number. -/
def greatestPort : Nat := 65535

/-- The digits of a port number, without the one plus sign that may stand before them. -/
def portDigits (text : String) : List Char :=
  match text.toList with
  | '+' :: rest => rest
  | digits => digits

/-- The port number that a text spells: one or more digits, and a value of at most 65535. -/
def port? (text : String) : Option UInt16 :=
  match Digits.read? (portDigits text) with
  | some (digits, []) =>
    match Digits.gather greatestPort 0 digits with
    | (port, []) => some (UInt16.ofNat port)
    | _ => none
  | _ => none

/-- The text of a variable, if it is set to valid UTF-8. -/
def text? (env : Environment) (name : String) : Option String :=
  (env name).bind Utf8.decode?

/-- The variables that settings are read from. -/
def variableNames : List String :=
  ["PORT", "FIREBASE_API_KEY", "FIREBASE_AUTH_DOMAIN", "LOGIN_REDIRECT_URL"]

/-- The settings with the given port and with the texts of the other variables. -/
def withPort (env : Environment) (port : UInt16) : Settings where
  port
  apiKey := text? env "FIREBASE_API_KEY"
  authDomain := text? env "FIREBASE_AUTH_DOMAIN"
  redirectUrl := (text? env "LOGIN_REDIRECT_URL").getD standard.redirectUrl

/-- The settings that an environment gives. -/
def ofEnvironment (env : Environment) : Except SettingsError Settings :=
  match text? env "PORT" with
  | none => .ok (withPort env standard.port)
  | some text =>
    match port? text with
    | none => .error (.invalidPort text)
    | some port => .ok (withPort env port)

/-- The text of a value that is set and not empty. -/
def nonEmpty? (value : Option String) : Option String :=
  value.filter (· ≠ "")

/-- What the browser is told, if both of its parts are set and not empty. -/
def publicConfig? (s : Settings) : Option PublicConfig := do
  let apiKey ← nonEmpty? s.apiKey
  let authDomain ← nonEmpty? s.authDomain
  return { apiKey, authDomain }

end Settings

end LoginService
