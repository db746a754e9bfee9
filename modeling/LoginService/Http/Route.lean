/-!
# Routes

The resources of the site, their paths, and the methods that each of them serves.
-/

namespace LoginService.Http

/-- A resource of the site. -/
inductive Route where
  /-- The settings of the identity provider. -/
  | config
  /-- The login. -/
  | login
  /-- A sign of life. -/
  | health
deriving DecidableEq

namespace Route

/-- The path of a resource. -/
def path : Route → String
  | config => "/api/config.json"
  | login => "/api/login"
  | health => "/health"

/-- The methods that a resource serves. -/
def methods : Route → List String
  | config => ["GET", "HEAD"]
  | login => ["POST"]
  | health => ["GET", "HEAD"]

/-- Whether a resource serves a method. -/
def serves (route : Route) (method : String) : Bool :=
  method ∈ route.methods

/-- The methods that a resource serves, as the `allow` field lists them. -/
def allow (route : Route) : String :=
  ",".intercalate route.methods

/-- The resource with exactly the given path. -/
def ofPath? (path : String) : Option Route :=
  [config, login, health].find? (·.path = path)

end Route

end LoginService.Http
