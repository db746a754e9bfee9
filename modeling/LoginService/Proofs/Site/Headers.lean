import LoginService.Proofs.Site.Handlers
import LoginService.Proofs.Utf8
import Mathlib.Data.List.Nodup

/-!
# The fields of every answer

Every answer carries the fields for cross-origin use and the length of its body, whichever way it
was found, and no field is sent twice. The remaining fields say which way that was: the lifetime of
a preflight answer, the ban on storing the settings that are told, and the type of a body that is
there. The answer to `HEAD` has the fields of the answer to `GET`, whose body it represents.
-/

namespace LoginService

open Http

/-- Fields are told apart by their text. -/
theorem Http.HeaderName.text_injective {name other : HeaderName} (h : name.text = other.text) :
    name = other := by
  cases name <;> cases other <;> first | rfl | exact absurd h (by decide)

namespace Http.Headers

/-- Every field has at most one value. -/
def Single (headers : Headers) : Prop :=
  ∀ name, (headers.values name).length ≤ 1

/-- At first no field has a value. -/
theorem single_empty : empty.Single :=
  fun _ => Nat.zero_le 1

/-- Setting a field leaves it with one value. -/
theorem Single.insert {headers : Headers} (h : headers.Single) (name : HeaderName)
    (value : String) : (headers.insert name value).Single := by
  intro other
  rw [values_insert]
  split
  · exact Nat.le_refl 1
  · exact h other

/-- If every field has at most one value, then no field is sent twice. -/
theorem Single.nodup {headers : Headers} (h : headers.Single) :
    (headers.toList.map Prod.fst).Nodup := by
  have hnames : headers.toList.map Prod.fst =
      HeaderName.all.flatMap fun name => (headers.values name).map fun _ => name.text := by
    rw [toList, List.map_flatMap]
    simp only [List.map_map, Function.comp_def]
  rw [hnames, List.nodup_flatMap]
  constructor
  · intro name _
    rw [List.map_const']
    exact List.nodup_replicate.mpr (h name)
  · -- Different fields are sent under different texts.
    have hall : HeaderName.all.Nodup := by decide
    refine hall.imp fun {name other} hne => ?_
    intro text hname hother
    obtain ⟨_, -, rfl⟩ := List.mem_map.mp hname
    obtain ⟨_, -, htext⟩ := List.mem_map.mp hother
    exact hne (HeaderName.text_injective htext.symm)

end Http.Headers

variable {s : Site} {request : Request} {body : Bytes} {route : Route} {a : Answer}

/-- A resource sets no field twice. -/
theorem Handles.single (h : Handles s body route a) : a.response.headers.Single := by
  cases h with
  | config => exact (Headers.single_empty.insert _ _).insert _ _
  | health | unconfigured | tooLong | malformed | refused | accepted =>
    exact Headers.single_empty.insert _ _

/-- No field is set twice in finding an answer. -/
theorem Finds.single (h : Finds s request a) : a.response.headers.Single := by
  cases h with
  | preflight => exact Headers.single_empty.insert _ _
  | unknown | unserved => exact Headers.single_empty
  | handled _ h => exact h.single

namespace Site

/-- No field is set twice in adding fields to an answer. -/
theorem single_answer (s : Site) (request : Request) :
    (s.answer request).response.headers.Single := by
  have horigins : (allowOrigins (s.found request).response).headers.Single :=
    ((((finds s request).single.insert _ _).insert _ _).insert _ _).insert _ _
  have hallow : (allowMethods (Route.ofPath? request.path) request.method
      (allowOrigins (s.found request).response)).headers.Single := by
    unfold allowMethods
    repeat' split
    · exact horigins
    · exact horigins
    · exact horigins.insert _ _
  rw [response_answer, measure]
  split
  · exact hallow.insert _ _
  · exact hallow.insert _ _

/-- The body that the response to a request represents. For `HEAD` it is that of the same `GET`. -/
def represented (s : Site) (request : Request) : String :=
  if request.method = "HEAD" then (s.answer { request with method := "GET" }).response.body
  else (s.answer request).response.body

/-- The body that is represented is the one that is found. -/
theorem represented_eq (s : Site) (request : Request) :
    s.represented request = (s.found request).response.body := by
  have hget : "GET" ≠ "HEAD" := by decide
  unfold represented
  split
  · next hhead => rw [body_answer s hget, found_head s hhead]
  · next hhead => exact body_answer s hhead

/-- The length is that of the body that is represented, in bytes. -/
theorem contentLength_answer (s : Site) (request : Request) :
    (s.answer request).response.headers.values .contentLength =
      [(Utf8.encode (s.represented request)).length.repr] := by
  rw [response_answer, values_measure, body_allowMethods, body_allowOrigins, represented_eq,
    Utf8.length_encode]

end Site

namespace Finds

/-- The lifetime of a preflight answer is told in preflight answers only. -/
theorem maxAge_eq (h : Finds s request a) :
    a.response.headers.values .maxAge = if request.method = "OPTIONS" then ["86400"] else [] := by
  cases h with
  | preflight hmethod =>
    rw [if_pos hmethod]
    rfl
  | unknown hmethod | unserved hmethod =>
    rw [if_neg hmethod]
    rfl
  | handled hroute h =>
    rw [if_neg hroute.ne_options]
    exact h.values_eq_nil (by decide) (by decide)

/-- Only the settings of the identity provider, when they are told, must not be stored. -/
theorem cacheControl_ne_nil_iff (h : Finds s request a) :
    a.response.headers.values .cacheControl ≠ [] ↔
      request.path = "/api/config.json" ∧ a.response.status = .ok := by
  cases h with
  | preflight | unknown | unserved =>
    exact iff_of_false (fun hne => hne rfl) (fun hok => by cases hok.2)
  | @handled route _ hroute h =>
    have hconfig : route = .config ↔ request.path = "/api/config.json" := by
      constructor
      · rintro rfl
        exact hroute.1
      · intro hpath
        exact Route.path_injective (hroute.1.symm.trans hpath)
    rw [h.cacheControl_ne_nil_iff, hconfig]

/-- The type of the content is told if and only if there is content. -/
theorem contentType_ne_nil_iff (h : Finds s request a) :
    a.response.headers.values .contentType ≠ [] ↔ a.response.body ≠ "" := by
  cases h with
  | preflight | unknown | unserved =>
    exact iff_of_false (fun hne => hne rfl) (fun hne => hne rfl)
  | handled _ h => exact iff_of_true h.contentType_ne_nil h.body_ne_empty

end Finds

namespace Site

/-- What holds of the fields of the response to a request. -/
structure HeadersKept (s : Site) (request : Request) (r : Response) : Prop where
  /-- Each field for cross-origin use is sent once, with its value. -/
  crossOrigin : ∀ field ∈ Site.crossOrigin, r.headers.values field.1 = [field.2]
  /-- No field is sent twice. -/
  nodup : (r.headers.toList.map Prod.fst).Nodup
  /-- The lifetime of a preflight answer is sent with preflight answers only. -/
  maxAge : r.headers.values .maxAge = if request.method = "OPTIONS" then ["86400"] else []
  /-- Only the settings of the identity provider, when they are told, must not be stored. -/
  cacheControl : r.headers.values .cacheControl ≠ [] ↔
    request.path = "/api/config.json" ∧ r.status = .ok
  /-- The type of the content is sent if and only if there is content. -/
  contentType : r.headers.values .contentType ≠ [] ↔ s.represented request ≠ ""
  /-- The length is that of the content in bytes. -/
  contentLength :
    r.headers.values .contentLength = [(Utf8.encode (s.represented request)).length.repr]
  /-- The body is the content, except for `HEAD`. -/
  body : r.body = if request.method = "HEAD" then "" else s.represented request

/-- The fields of every answer are kept. -/
theorem headers_kept (s : Site) (request : Request) :
    HeadersKept s request (s.answer request).response := by
  constructor
  · intro field hfield
    exact values_answer_of_mem s request hfield
  · exact (single_answer s request).nodup
  · rw [values_answer s request (by decide) (by decide) (by decide),
      (finds s request).maxAge_eq]
  · rw [values_answer s request (by decide) (by decide) (by decide), status_answer,
      (finds s request).cacheControl_ne_nil_iff]
  · rw [values_answer s request (by decide) (by decide) (by decide), represented_eq,
      (finds s request).contentType_ne_nil_iff]
  · exact contentLength_answer s request
  · split
    · next hhead => exact body_answer_head s hhead
    · next hhead => rw [represented, if_neg hhead]

end Site

end LoginService
