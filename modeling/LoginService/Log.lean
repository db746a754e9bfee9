import LoginService.ApiError
import LoginService.Settings
import LoginService.Terminal

/-!
# The log

What the service reports while it starts and while it answers requests. An event says what happened;
its record is how the log shows it.
-/

namespace LoginService

/-- How important a log record is. -/
inductive Level where
  | trace
  | debug
  | info
  | warn
  | error
deriving DecidableEq

/-- The name of a level. -/
def Level.text : Level → String
  | trace => "TRACE"
  | debug => "DEBUG"
  | info => "INFO"
  | warn => "WARN"
  | error => "ERROR"

/-- An entry of the log. -/
structure Record where
  /-- How important the entry is. -/
  level : Level
  /-- What it says. -/
  message : String
  /-- Named values that belong to it. -/
  fields : List (String × String)
deriving DecidableEq

/-- The message of a record as it is printed. -/
def Record.printedMessage (r : Record) : String :=
  Terminal.printed r.message

/-- A record as a line of text, without its fields. -/
def Record.line (r : Record) : String :=
  r.level.text ++ " " ++ r.printedMessage

/-- What the service reports. -/
inductive Event where
  /-- A preflight request for a target was answered. -/
  | preflight (target : String)
  /-- A login request with a body arrived. -/
  | loginRequest (body : String)
  /-- The body of a login request is not JSON. -/
  | unreadableBody
  /-- A request identifier was refused. -/
  | rejectedIdentifier (identifier : String)
  /-- A request needs the settings of the identity provider, which are missing. -/
  | configurationMissing
  /-- A request was answered with an error. -/
  | failed (e : ApiError)
  /-- The service cannot start with its settings. -/
  | settingsRefused (e : SettingsError)
  /-- The service starts without the settings of the identity provider. -/
  | startedUnconfigured
  /-- The service accepts requests at a port. -/
  | listening (port : UInt16)
  /-- The service ends. -/
  | shuttingDown
deriving DecidableEq

namespace Event

/-- How the log says that the settings of the identity provider are missing. -/
def missingSettings : String :=
  "FIREBASE_API_KEY or FIREBASE_AUTH_DOMAIN is not set"

/-- The number and the name of a status. -/
def statusLine (status : Http.Status) : String :=
  status.code.repr ++ " " ++ status.reason

/-- How the log shows an event. -/
def record : Event → Record
  | preflight target => ⟨.trace, "preflight", [("uri", target)]⟩
  | loginRequest body => ⟨.debug, "login request", [("body", body)]⟩
  | unreadableBody => ⟨.debug, "unreadable login body", []⟩
  | rejectedIdentifier identifier =>
    ⟨.debug, "rejected request id", [("request_id", identifier)]⟩
  | configurationMissing => ⟨.error, missingSettings, []⟩
  | failed e => ⟨.debug, statusLine e.status ++ ", " ++ e.message, []⟩
  | settingsRefused e => ⟨.error, "Error loading settings: " ++ e.message, []⟩
  | startedUnconfigured => ⟨.warn, missingSettings, []⟩
  | listening port => ⟨.info, "listening on http://0.0.0.0:" ++ port.toNat.repr, []⟩
  | shuttingDown => ⟨.info, "shutting down", []⟩

end Event

end LoginService
