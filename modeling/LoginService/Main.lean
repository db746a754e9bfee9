import LoginService.Startup

/-!
# The command line

Reports the run that the environment of the process leads to, and ends with its exit code.
-/

namespace LoginService

/-- The environment of the process, as far as settings are read from it. -/
def processEnvironment : IO Environment := do
  let values ← Settings.variableNames.mapM fun name => do
    return (name, (← IO.getEnv name).map Utf8.encode)
  return fun name => (values.lookup name).join

end LoginService

/-- Reports a run of the service. -/
def main : IO UInt32 := do
  let run := LoginService.Run.ofEnvironment (← LoginService.processEnvironment)
  for event in run.log do
    IO.println event.record.line
  return run.exitCode
