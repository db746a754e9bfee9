import LoginService.Proofs.Site.Handlers

/-!
# Dispatch

The status of an answer tells how the request was dispatched: whether it was a preflight request,
whether its path led nowhere, whether its method was refused, or whether a resource answered it. The
`allow` field is sent where a resource does not serve the method, and it lists the methods that the
resource would have answered.
-/

namespace LoginService

open Http

variable {s : Site} {request : Request} {a : Answer} {route : Route}

namespace Finds

/-- The answer is without content if and only if the request is a preflight request. -/
theorem status_eq_noContent_iff (h : Finds s request a) :
    a.response.status = .noContent ↔ request.method = "OPTIONS" := by
  cases h with
  | preflight hmethod => exact iff_of_true rfl hmethod
  | unknown hmethod | unserved hmethod => exact iff_of_false (by decide) hmethod
  | handled hroute h => exact iff_of_false h.status.ne.1 hroute.ne_options

/-- Any other request is not found if and only if its path leads nowhere. -/
theorem status_eq_notFound_iff (h : Finds s request a) (hmethod : request.method ≠ "OPTIONS") :
    a.response.status = .notFound ↔ ∀ route : Route, request.path ≠ route.path := by
  cases h with
  | preflight hoptions => exact absurd hoptions hmethod
  | unknown _ hpath => exact iff_of_true rfl hpath
  | unserved _ hpath => exact iff_of_false (by decide) fun hnone => hnone _ hpath
  | handled hroute h => exact iff_of_false h.status.ne.2.1 fun hnone => hnone _ hroute.1

/-- On the path of a resource a method is refused, or taken for a preflight request, if and only if
it is not served. -/
theorem refused_iff (h : Finds s request a) (hpath : request.path = route.path) :
    (a.response.status = .methodNotAllowed ∨ a.response.status = .noContent) ↔
      request.method ∉ route.methods := by
  cases h with
  | preflight hmethod =>
    refine iff_of_true (.inr rfl) ?_
    rw [hmethod]
    exact route.options_notMem_methods
  | unknown _ hnone => exact absurd hpath (hnone route)
  | unserved _ hother hserved =>
    -- The path leads to one resource only, so this is the one that does not serve the method.
    rw [Route.path_injective (hpath.symm.trans hother)]
    exact iff_of_true (.inl rfl) hserved
  | handled hroute h =>
    rw [Route.path_injective (hpath.symm.trans hroute.1)]
    obtain ⟨hnoContent, -, hnotAllowed⟩ := h.status.ne
    exact iff_of_false (not_or_intro hnotAllowed hnoContent) (not_not_intro hroute.2)

/-- On the path of a resource a method is answered by the resource if and only if it is served. -/
theorem handled_iff (h : Finds s request a) (hpath : request.path = route.path) :
    Handled a.response.status ↔ request.method ∈ route.methods := by
  constructor
  · intro hhandled
    by_contra hserved
    obtain ⟨hnoContent, -, hnotAllowed⟩ := hhandled.ne
    exact not_or_intro hnotAllowed hnoContent ((h.refused_iff hpath).mpr hserved)
  · intro hserved
    cases h with
    | handled _ h => exact h.status
    | preflight hmethod =>
      rw [hmethod] at hserved
      exact absurd hserved route.options_notMem_methods
    | unknown _ hnone => exact absurd hpath (hnone route)
    | unserved _ hother hrefused =>
      rw [Route.path_injective (hpath.symm.trans hother)] at hserved
      exact absurd hserved hrefused

/-- Any other request is not allowed if and only if its path leads to a resource that does not serve
its method. -/
theorem status_eq_methodNotAllowed_iff (h : Finds s request a)
    (hmethod : request.method ≠ "OPTIONS") :
    a.response.status = .methodNotAllowed ↔
      ∃ route : Route, request.path = route.path ∧ request.method ∉ route.methods := by
  constructor
  · intro hallowed
    cases h with
    | unserved _ hpath hserved => exact ⟨_, hpath, hserved⟩
    | preflight | unknown => cases hallowed
    | handled _ h =>
      obtain ⟨-, -, hnotAllowed⟩ := h.status.ne
      exact absurd hallowed hnotAllowed
  · rintro ⟨route, hpath, hserved⟩
    rcases (h.refused_iff hpath).mpr hserved with hallowed | hcontent
    · exact hallowed
    · exact absurd (h.status_eq_noContent_iff.mp hcontent) hmethod

/-- No methods are listed in finding an answer. -/
theorem allow_eq_nil (h : Finds s request a) : a.response.headers.values .allow = [] := by
  cases h with
  | preflight | unknown | unserved => rfl
  | handled _ h => exact h.values_eq_nil (by decide) (by decide)

end Finds

namespace Site

/-- Where the path leads nowhere, no methods are listed. -/
theorem allow_of_unknown (s : Site) (hpath : ∀ route : Route, request.path ≠ route.path) :
    (s.answer request).response.headers.values .allow = [] := by
  rw [response_answer, values_measure_of_ne (by decide), Route.ofPath?_eq_none_iff.mpr hpath,
    allowMethods, values_allowOrigins_of_notMem (by decide), (finds s request).allow_eq_nil]

/-- Where the path leads to a resource, its methods are listed unless it serves the method. -/
theorem allow_of_path (s : Site) (hpath : request.path = route.path) :
    (s.answer request).response.headers.values .allow =
      if request.method ∈ route.methods then [] else [route.allow] := by
  rw [response_answer, values_measure_of_ne (by decide), Route.ofPath?_eq_some_iff.mpr hpath,
    allowMethods]
  by_cases hserved : request.method ∈ route.methods
  · rw [if_pos hserved, if_pos (Route.serves_iff.mpr hserved),
      values_allowOrigins_of_notMem (by decide), (finds s request).allow_eq_nil]
  · rw [if_neg hserved, if_neg (mt Route.serves_iff.mp hserved)]
    rfl

/-- Methods are listed if and only if the path leads to a resource that does not serve the
method. -/
theorem allow_ne_nil_iff (s : Site) (request : Request) :
    (s.answer request).response.headers.values .allow ≠ [] ↔
      ∃ route : Route, request.path = route.path ∧ request.method ∉ route.methods := by
  constructor
  · intro hallow
    by_contra hnone
    apply hallow
    by_cases hpath : ∃ route : Route, request.path = route.path
    · obtain ⟨route, hroute⟩ := hpath
      have hserved : request.method ∈ route.methods := by
        by_contra hserved
        exact hnone ⟨route, hroute, hserved⟩
      rw [allow_of_path s hroute, if_pos hserved]
    · exact allow_of_unknown s (not_exists.mp hpath)
  · rintro ⟨route, hpath, hserved⟩
    rw [allow_of_path s hpath, if_neg hserved]
    exact List.cons_ne_nil _ _

/-- The methods that are listed are those of the resource to which the path leads. -/
theorem listed_iff_of_mem_allow {s : Site} {value : String}
    (hvalue : value ∈ (s.answer request).response.headers.values .allow) :
    ∃ route : Route, request.path = route.path ∧
      ∀ method, Listed method value ↔ method ∈ route.methods := by
  obtain ⟨route, hpath, hserved⟩ := (allow_ne_nil_iff s request).mp (List.ne_nil_of_mem hvalue)
  rw [allow_of_path s hpath, if_neg hserved, List.mem_singleton] at hvalue
  rw [hvalue]
  exact ⟨route, hpath, route.listed_allow_iff⟩

/-- Nothing but the target of a preflight request decides the answer: no resource looks at the
request, and no verifier is asked. -/
theorem answer_of_options (s t : Site) (hmethod : request.method = "OPTIONS") (body : Bytes) :
    t.answer { request with body := body } = s.answer request := by
  have hfound := found_of_options s hmethod
  have hother : t.found { request with body := body } = preflight (Uri.ofString request.target) :=
    found_of_options t hmethod
  exact answer_congr (hother.trans hfound.symm) rfl rfl

/-- How the answer to a request is dispatched. -/
structure Dispatched (s : Site) (request : Request) (a : Answer) : Prop where
  /-- Preflight requests, and no others, are answered without content. -/
  noContent : a.response.status = .noContent ↔ request.method = "OPTIONS"
  /-- A preflight request is answered without a body, and no resource takes part in the answer. -/
  preflight : request.method = "OPTIONS" →
    a.response.body = "" ∧ a.asked = [] ∧
      a.log = [.preflight (Uri.ofString request.target).text] ∧
      ∀ (t : Site) (body : Bytes), t.answer { request with body := body } = a
  /-- Any other request is not found if and only if its path leads nowhere. -/
  notFound : request.method ≠ "OPTIONS" →
    (a.response.status = .notFound ↔ ∀ route : Route, request.path ≠ route.path)
  /-- It is not allowed if and only if its path leads to a resource that does not serve the
  method. -/
  notAllowed : request.method ≠ "OPTIONS" →
    (a.response.status = .methodNotAllowed ↔
      ∃ route : Route, request.path = route.path ∧ request.method ∉ route.methods)
  /-- Otherwise the resource decides the status. -/
  handled : ∀ route : Route, request.path = route.path → request.method ∈ route.methods →
    a.response.status = (s.answerRoute request.body route).response.status ∧
      Handled a.response.status
  /-- Methods are listed if and only if the path leads to a resource that does not serve the
  method. -/
  allow : a.response.headers.values .allow ≠ [] ↔
    ∃ route : Route, request.path = route.path ∧ request.method ∉ route.methods
  /-- The methods that are listed are those that the resource would answer. -/
  listed : ∀ value ∈ a.response.headers.values .allow, ∀ method,
    Listed method value ↔ Handled (s.answer { request with method := method }).response.status
  /-- The methods that are not listed are those that would be refused, or taken for a preflight
  request. -/
  unlisted : ∀ value ∈ a.response.headers.values .allow, ∀ method,
    ¬Listed method value ↔
      (s.answer { request with method := method }).response.status = .methodNotAllowed ∨
        (s.answer { request with method := method }).response.status = .noContent

/-- Every request is dispatched by its method and its path, and the methods that are listed are
those that are served. -/
theorem dispatched (s : Site) (request : Request) : Dispatched s request (s.answer request) := by
  have hfinds := finds s request
  constructor
  · rw [status_answer, hfinds.status_eq_noContent_iff]
  · intro hmethod
    have hhead : request.method ≠ "HEAD" := by
      rw [hmethod]
      decide
    have hfound := found_of_options s hmethod
    rw [body_answer s hhead, asked_answer, log_answer, hfound]
    exact ⟨rfl, rfl, rfl, fun t body => answer_of_options s t hmethod body⟩
  · intro hmethod
    rw [status_answer, hfinds.status_eq_notFound_iff hmethod]
  · intro hmethod
    rw [status_answer, hfinds.status_eq_methodNotAllowed_iff hmethod]
  · intro route hpath hserved
    have hroute : request.AsksFor route := ⟨hpath, hserved⟩
    have hfound := found_of_asksFor s hroute
    rw [status_answer]
    exact ⟨by rw [hfound], (hfinds.handled_iff hpath).mpr hserved⟩
  · exact allow_ne_nil_iff s request
  · intro value hvalue method
    obtain ⟨route, hpath, hlisted⟩ := listed_iff_of_mem_allow hvalue
    rw [hlisted, status_answer]
    exact ((finds s { request with method := method }).handled_iff hpath).symm
  · intro value hvalue method
    obtain ⟨route, hpath, hlisted⟩ := listed_iff_of_mem_allow hvalue
    rw [hlisted, status_answer]
    exact ((finds s { request with method := method }).refused_iff hpath).symm

end Site

end LoginService
