import LoginService.Log

/-!
# Starting the service

What the service reports from its start to its end, and the exit code it ends with, when it is given
an environment and is told to stop once it accepts requests.
-/

namespace LoginService

/-- How a run of the service goes. -/
structure Run where
  /-- The exit code. -/
  exitCode : UInt32
  /-- What is reported, in order. -/
  log : List Event
deriving DecidableEq

namespace Run

/-- The run of a service that has its settings. -/
def ofSettings (settings : Settings) : Run where
  exitCode := 0
  log :=
    (if settings.publicConfig?.isNone then [.startedUnconfigured] else []) ++
      [.listening settings.port, .shuttingDown]

/-- The run of a service in an environment. -/
def ofEnvironment (env : Environment) : Run :=
  match Settings.ofEnvironment env with
  | .error e => ⟨1, [.settingsRefused e]⟩
  | .ok settings => ofSettings settings

end Run

end LoginService
