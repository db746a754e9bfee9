import LoginService.Proofs.Http.Uri
import LoginService.Proofs.Site.Dispatch

/-!
# Routing by the path

Only the path of a target decides which resource answers. Whatever scheme, authority, query and
fragment stand around a path, the request is answered like one for the path alone, and it leads to a
resource only if the path is that of the resource, character by character. A preflight request is
also reported with its target; the text that is reported is a normal form, which is answered and
reported in the same way.
-/

namespace LoginService

open Http

/-- Resources are asked for by a path that begins with a slash. -/
theorem Http.Route.head?_path (route : Route) : route.path.toList.head? = some '/' := by
  cases route <;> decide

/-- Resources are not asked for by the root. -/
theorem Http.Route.path_ne_root (route : Route) : route.path ≠ "/" := by
  cases route <;> decide

/-- A request for a target that is written from parts has their path. -/
@[simp] theorem Http.Request.path_text (method : String) (p : Uri.Parts) (body : Bytes) :
    (Request.mk method p.text body).path = p.resource := by
  rw [Request.path, Uri.ofString_text, p.path_uri]

/-- A target without a slash leads nowhere. -/
theorem Http.Uri.path_ne_of_notMem {target : String} (hslash : '/' ∉ target.toList)
    (route : Route) : (ofString target).path ≠ route.path := by
  intro hpath
  obtain ⟨p, htext, hresource⟩ := (path_eq_iff route.head?_path).mp hpath
  have hroot : p.resource ≠ "/" := hresource ▸ route.path_ne_root
  have hmem := p.mem_text hroot (List.mem_of_head? p.head?_resource)
  rw [htext] at hmem
  exact hslash hmem

namespace Site

variable {method target other : String} {body : Bytes}

/-- Except for preflight requests, only the path of a target decides what is found. -/
theorem found_congr_path (s : Site) (hmethod : method ≠ "OPTIONS")
    (hpath : (Uri.ofString target).path = (Uri.ofString other).path) :
    s.found ⟨method, target, body⟩ = s.found ⟨method, other, body⟩ := by
  rw [found_of_ne_options s hmethod, found_of_ne_options s hmethod, Request.path, Request.path,
    hpath]
  rfl

/-- Except for preflight requests, only the path of a target decides the answer. -/
theorem answer_congr_path (s : Site) (hmethod : method ≠ "OPTIONS")
    (hpath : (Uri.ofString target).path = (Uri.ofString other).path) :
    s.answer ⟨method, target, body⟩ = s.answer ⟨method, other, body⟩ :=
  answer_congr (found_congr_path s hmethod hpath) rfl hpath

/-- Only the path of a target decides the response. -/
theorem response_congr_path (s : Site)
    (hpath : (Uri.ofString target).path = (Uri.ofString other).path) :
    (s.answer ⟨method, target, body⟩).response = (s.answer ⟨method, other, body⟩).response := by
  by_cases hmethod : method = "OPTIONS"
  · have hfound : (s.found ⟨method, target, body⟩).response =
        (s.found ⟨method, other, body⟩).response := by
      rw [found_of_options s hmethod, found_of_options s hmethod]
      rfl
    rw [response_answer, response_answer, hfound, Request.path, Request.path, hpath]
  · rw [answer_congr_path s hmethod hpath]

/-- Only the path of a target decides what the verifier is asked about. -/
theorem asked_congr_path (s : Site)
    (hpath : (Uri.ofString target).path = (Uri.ofString other).path) :
    (s.answer ⟨method, target, body⟩).asked = (s.answer ⟨method, other, body⟩).asked := by
  by_cases hmethod : method = "OPTIONS"
  · rw [asked_answer, asked_answer, found_of_options s hmethod, found_of_options s hmethod]
    rfl
  · rw [answer_congr_path s hmethod hpath]

/-- Targets that are read alike are answered alike. -/
theorem answer_congr_uri (s : Site) (huri : Uri.ofString target = Uri.ofString other) :
    s.answer ⟨method, target, body⟩ = s.answer ⟨method, other, body⟩ := by
  have hpath : (Uri.ofString target).path = (Uri.ofString other).path := by rw [huri]
  by_cases hmethod : method = "OPTIONS"
  · have hfound : s.found ⟨method, target, body⟩ = s.found ⟨method, other, body⟩ := by
      rw [found_of_options s hmethod, found_of_options s hmethod, huri]
    exact answer_congr hfound rfl hpath
  · exact answer_congr_path s hmethod hpath

/-- What holds of the answers to requests with a method and a body, whatever their targets. -/
structure RoutedByPath (s : Site) (method : String) (body : Bytes) : Prop where
  /-- The answer is that to the path alone. -/
  answer : method ≠ "OPTIONS" → ∀ p : Uri.Parts,
    s.answer ⟨method, p.text, body⟩ = s.answer ⟨method, p.resource, body⟩
  /-- Preflight requests, whose targets are reported, have the response to the path alone as
  well. -/
  response : ∀ p : Uri.Parts,
    (s.answer ⟨method, p.text, body⟩).response = (s.answer ⟨method, p.resource, body⟩).response ∧
      (s.answer ⟨method, p.text, body⟩).asked = (s.answer ⟨method, p.resource, body⟩).asked
  /-- A target leads to a resource if and only if its path is that of the resource. -/
  route : ∀ (p : Uri.Parts) (route : Route),
    Route.ofPath? (Uri.ofString p.text).path = some route ↔ p.resource = route.path
  /-- The resource then answers the methods that it serves. -/
  served : ∀ (p : Uri.Parts) (route : Route), p.resource = route.path → method ∈ route.methods →
    s.found ⟨method, p.text, body⟩ = s.answerRoute body route
  /-- Only the targets that do not lead to a resource are not found. -/
  notFound : method ≠ "OPTIONS" → ∀ target,
    (s.answer ⟨method, target, body⟩).response.status = .notFound ↔
      ∀ (p : Uri.Parts) (route : Route), p.text = target → p.resource ≠ route.path
  /-- The asterisk and an authority alone do not lead to a resource. -/
  slash : ∀ target, '/' ∉ target.toList → Route.ofPath? (Uri.ofString target).path = none
  /-- The target that a preflight request reports has no fragment. It is answered in the same way,
  and reported as it is. Whether a target is valid is left out here: one with a scheme, without a
  path and of the greatest length that can be sent, 65534 bytes, is reported with one byte more. -/
  shown : ∀ target, ∃ shown,
    (s.answer ⟨"OPTIONS", target, body⟩).log = [.preflight shown] ∧ '#' ∉ shown.toList ∧
      s.answer ⟨method, shown, body⟩ = s.answer ⟨method, target, body⟩ ∧
      (s.answer ⟨"OPTIONS", shown, body⟩).log = [.preflight shown]

/-- Requests are routed by their path. -/
theorem routed_by_path (s : Site) (method : String) (body : Bytes) :
    RoutedByPath s method body := by
  have hresource : ∀ p : Uri.Parts,
      (Uri.ofString p.text).path = (Uri.ofString p.resource).path := by
    intro p
    rw [Uri.ofString_text, p.path_uri, Uri.path_ofString_resource]
  have hlog : ∀ target, (s.answer ⟨"OPTIONS", target, body⟩).log =
      [.preflight (Uri.ofString target).text] := by
    intro target
    rw [log_answer, found_of_options s rfl]
    rfl
  constructor
  · intro hmethod p
    exact answer_congr_path s hmethod (hresource p)
  · intro p
    exact ⟨response_congr_path s (hresource p), asked_congr_path s (hresource p)⟩
  · intro p route
    rw [Route.ofPath?_eq_some_iff, Uri.ofString_text, p.path_uri]
  · intro p route hpath hserved
    have hroute : Request.AsksFor ⟨method, p.text, body⟩ route :=
      ⟨(Request.path_text method p body).trans hpath, hserved⟩
    exact found_of_asksFor s hroute
  · intro hmethod target
    rw [status_answer, (finds s _).status_eq_notFound_iff hmethod]
    constructor
    · rintro hnone p route rfl hpath
      exact hnone route ((Request.path_text method p body).trans hpath)
    · intro hnone route hpath
      obtain ⟨p, htext, hresource⟩ := (Uri.path_eq_iff route.head?_path).mp hpath
      exact hnone p route htext hresource
  · intro target hslash
    rw [Route.ofPath?_eq_none_iff]
    exact Uri.path_ne_of_notMem hslash
  · intro target
    have huri := Uri.ofString_text_ofString target
    refine ⟨(Uri.ofString target).text, hlog target, Uri.hash_notMem_text target, ?_, ?_⟩
    · exact answer_congr_uri s huri
    · rw [hlog, huri]

end Site

end LoginService
