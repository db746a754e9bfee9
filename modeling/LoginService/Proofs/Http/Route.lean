import LoginService.Http.Message
import LoginService.Http.Route
import LoginService.Http.Uri

/-!
# How requests are told apart

A path leads to the one resource whose path is equal to it. A request asks for a resource if its
path leads there and the resource serves its method; the `allow` field lists the methods for which
this is so.
-/

namespace LoginService.Http

/-- The path of a request. -/
def Request.path (request : Request) : String :=
  (Uri.ofString request.target).path

/-- A request has the path of a resource and a method that the resource serves. -/
def Request.AsksFor (request : Request) (route : Route) : Prop :=
  request.path = route.path ∧ request.method ∈ route.methods

/-- A method is listed in the value of a header field. -/
def Listed (method value : String) : Prop :=
  method.toList ∈ value.toList.splitOn ','

/-- A list of methods lists each of them and nothing else, if no comma stands in them. -/
theorem listed_intercalate_iff {methods : List String} (hne : methods ≠ [])
    (hcomma : ∀ method ∈ methods, ',' ∉ method.toList) (method : String) :
    Listed method (",".intercalate methods) ↔ method ∈ methods := by
  have htext : (",".intercalate methods).toList = [','].intercalate (methods.map String.toList) :=
    String.toList_intercalate
  have hparts : (",".intercalate methods).toList.splitOn ',' = methods.map String.toList := by
    rw [htext]
    apply List.splitOn_intercalate
    · simpa using hcomma
    · simpa using hne
  rw [Listed, hparts, List.mem_map]
  constructor
  · rintro ⟨other, hother, heq⟩
    rwa [← String.toList_injective heq]
  · intro hmethod
    exact ⟨method, hmethod, rfl⟩

namespace Route

/-- Resources have different paths. -/
theorem path_injective {route other : Route} (h : route.path = other.path) : route = other := by
  cases route <;> cases other <;> first | rfl | exact absurd h (by decide)

/-- A path leads to a resource if and only if it is the path of that resource. -/
theorem ofPath?_eq_some_iff {path : String} {route : Route} :
    ofPath? path = some route ↔ path = route.path := by
  constructor
  · intro h
    have hpath := List.find?_some h
    exact (of_decide_eq_true hpath).symm
  · rintro rfl
    cases route <;> decide

/-- A path leads nowhere if and only if it is not the path of a resource. -/
theorem ofPath?_eq_none_iff {path : String} :
    ofPath? path = none ↔ ∀ route : Route, path ≠ route.path := by
  rw [Option.eq_none_iff_forall_ne_some]
  simp only [ne_eq, ofPath?_eq_some_iff]

/-- A resource serves its methods. -/
theorem serves_iff {route : Route} {method : String} :
    route.serves method ↔ method ∈ route.methods := by
  rw [serves, decide_eq_true_eq]

/-- No resource serves preflight requests. -/
theorem options_notMem_methods (route : Route) : "OPTIONS" ∉ route.methods := by
  cases route <;> decide

/-- Resources do not tell `HEAD` from `GET`. -/
theorem head_mem_methods_iff (route : Route) : "HEAD" ∈ route.methods ↔ "GET" ∈ route.methods := by
  cases route <;> decide

/-- The `allow` field of a resource lists the methods that it serves. -/
theorem listed_allow_iff (route : Route) (method : String) :
    Listed method route.allow ↔ method ∈ route.methods := by
  apply listed_intercalate_iff
  · cases route <;> decide
  · cases route <;> decide

end Route

/-- A request that asks for a resource is no preflight request. -/
theorem Request.AsksFor.ne_options {request : Request} {route : Route}
    (h : request.AsksFor route) : request.method ≠ "OPTIONS" := by
  intro hmethod
  exact route.options_notMem_methods (hmethod ▸ h.2)

/-- What a request is, as far as its method and its path tell. -/
inductive Request.Kind (request : Request) : Prop where
  /-- A preflight request. -/
  | preflight (hmethod : request.method = "OPTIONS")
  /-- A request for a path that leads nowhere. -/
  | unknown (hmethod : request.method ≠ "OPTIONS")
      (hpath : ∀ route : Route, request.path ≠ route.path)
  /-- A request with a method that the resource does not serve. -/
  | unserved (route : Route) (hmethod : request.method ≠ "OPTIONS")
      (hpath : request.path = route.path) (hserved : request.method ∉ route.methods)
  /-- A request that asks for a resource. -/
  | served (route : Route) (hroute : request.AsksFor route)

/-- Every request is of one of these kinds. -/
theorem Request.kind (request : Request) : request.Kind := by
  by_cases hmethod : request.method = "OPTIONS"
  · exact .preflight hmethod
  · by_cases hpath : ∃ route : Route, request.path = route.path
    · obtain ⟨route, hroute⟩ := hpath
      by_cases hserved : request.method ∈ route.methods
      · exact .served route ⟨hroute, hserved⟩
      · exact .unserved route hmethod hroute hserved
    · exact .unknown hmethod (not_exists.mp hpath)

end LoginService.Http
