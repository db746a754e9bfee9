import LoginService.Proofs.Login.Outcome
import LoginService.Proofs.Settings

/-!
# What an answer discloses of the settings

Finding an answer reads the settings in two places: the public configuration where it is asked for,
and the redirect URL where a login is admitted. Two services that agree there give the same answer,
with the same fields, the same log and the same identifiers asked about.
-/

namespace LoginService

open Http Login

/-- A request is a login with an identifier that the verifier accepts. -/
def Login.Admitted (v : Verifier) (request : Request) : Prop :=
  IsLogin request ∧ request.body.length ≤ bodyLimit ∧
    ∃ found, identifier request.body = .ok found ∧ v.accepts found

/-- A request reads the public configuration. -/
def ReadsConfig (request : Request) : Prop :=
  (request.method = "GET" ∨ request.method = "HEAD") ∧ request.path = "/api/config.json"

/-- The public configuration is read by those who ask for it. -/
theorem readsConfig_iff {request : Request} :
    ReadsConfig request ↔ request.AsksFor .config := by
  rw [ReadsConfig, Request.AsksFor, and_comm]
  simp only [Route.path, Route.methods, List.mem_cons, List.not_mem_nil, or_false]

/-- Both texts of the public configuration are set and not empty. -/
def Settings.Configured (settings : Settings) : Prop :=
  (∃ apiKey, settings.apiKey = some apiKey ∧ apiKey ≠ "") ∧
    ∃ authDomain, settings.authDomain = some authDomain ∧ authDomain ≠ ""

/-- Settings without one of the two texts have no public configuration. -/
theorem Settings.publicConfig?_of_not_configured {settings : Settings}
    (h : ¬settings.Configured) : settings.publicConfig? = none := by
  rw [Option.eq_none_iff_forall_ne_some]
  intro config hconfig
  obtain ⟨hkey, hdomain⟩ := publicConfig?_eq_some_iff.mp hconfig
  simp only [nonEmpty?, Option.filter_eq_some_iff, decide_eq_true_eq] at hkey hdomain
  exact h ⟨⟨_, hkey⟩, ⟨_, hdomain⟩⟩

/-- The public configuration consists of the settings of the identity provider. -/
theorem Settings.publicConfig?_congr {settings other : Settings}
    (hkey : settings.apiKey = other.apiKey) (hdomain : settings.authDomain = other.authDomain) :
    settings.publicConfig? = other.publicConfig? := by
  rw [publicConfig?, publicConfig?, hkey, hdomain]

namespace Site

variable {settings other : Settings} {v : Verifier} {request : Request}

/-- The redirect URL is read if the identifier is accepted. -/
theorem answerIdentifier_congr {found : String}
    (hredirect : v.accepts found → settings.redirectUrl = other.redirectUrl) :
    answerIdentifier ⟨settings, v⟩ found = answerIdentifier ⟨other, v⟩ found := by
  by_cases haccepts : v.accepts found
  · rw [answerIdentifier, answerIdentifier, redirect, redirect, hredirect haccepts]
  · have hrefused : v.verify found = .error .expired := if_neg haccepts
    simp only [answerIdentifier, hrefused]

/-- The redirect URL is read if the login is admitted. -/
theorem answerLogin_congr (hlogin : IsLogin request)
    (hredirect : Admitted v request → settings.redirectUrl = other.redirectUrl) :
    answerLogin ⟨settings, v⟩ request.body = answerLogin ⟨other, v⟩ request.body := by
  unfold answerLogin
  split
  · rfl
  · next hlength =>
    unfold answerBody
    cases hread : identifier request.body with
    | error fault => rfl
    | ok found =>
      have hidentifier : answerIdentifier ⟨settings, v⟩ found = answerIdentifier ⟨other, v⟩ found :=
        answerIdentifier_congr fun haccepts =>
          hredirect ⟨hlogin, Nat.not_lt.mp hlength, found, hread, haccepts⟩
      exact congrArg (Answer.after [.loginRequest (Utf8.decodeLossy request.body)]) hidentifier

/-- The same is found for settings that agree where they are read. -/
theorem found_congr
    (hconfig : ReadsConfig request → settings.publicConfig? = other.publicConfig?)
    (hredirect : Admitted v request → settings.redirectUrl = other.redirectUrl) :
    found ⟨settings, v⟩ request = found ⟨other, v⟩ request := by
  cases request.kind with
  | preflight hmethod => rw [found_of_options _ hmethod, found_of_options _ hmethod]
  | unknown hmethod hpath => rw [found_of_unknown _ hmethod hpath, found_of_unknown _ hmethod hpath]
  | unserved route hmethod hpath hserved =>
    rw [found_of_unserved _ hmethod hpath hserved, found_of_unserved _ hmethod hpath hserved]
  | served route hroute =>
    rw [found_of_asksFor _ hroute, found_of_asksFor _ hroute]
    cases route with
    | health => rfl
    | config => rw [answerRoute, answerRoute, answerConfig, answerConfig,
        hconfig (readsConfig_iff.mpr hroute)]
    | login => exact answerLogin_congr (isLogin_iff.mpr hroute) hredirect

end Site

/-- Why the answer to a request cannot tell two settings apart. -/
inductive Settings.Alike (v : Verifier) (request : Request) (settings other : Settings) : Prop where
  /-- The redirect URL differs, and nobody is admitted. -/
  | notAdmitted (hkey : settings.apiKey = other.apiKey)
      (hdomain : settings.authDomain = other.authDomain) (hrequest : ¬Admitted v request)
  /-- The identity provider differs, and the request does not ask for it. -/
  | notAsked (hredirect : settings.redirectUrl = other.redirectUrl)
      (hrequest : ¬ReadsConfig request)
  /-- The port differs, and nothing else. -/
  | samePort (hother : ∃ port, other = { settings with port := port })
  /-- The identity provider differs, but it is not fully set in either. -/
  | notConfigured (hredirect : settings.redirectUrl = other.redirectUrl)
      (hsettings : ¬settings.Configured) (hothers : ¬other.Configured)

/-- Settings that a request cannot tell apart give the same answer, with the same status, fields,
body, log and identifiers asked about. -/
theorem Site.answer_eq_of_alike {v : Verifier} {request : Request} {settings other : Settings}
    (h : settings.Alike v request other) :
    answer ⟨settings, v⟩ request = answer ⟨other, v⟩ request := by
  refine answer_congr (found_congr ?_ ?_) rfl rfl
  · intro hreads
    cases h with
    | notAdmitted hkey hdomain => exact Settings.publicConfig?_congr hkey hdomain
    | notAsked _ hrequest => exact absurd hreads hrequest
    | samePort hother =>
      obtain ⟨port, rfl⟩ := hother
      exact Settings.publicConfig?_congr rfl rfl
    | notConfigured _ hsettings hothers =>
      rw [Settings.publicConfig?_of_not_configured hsettings,
        Settings.publicConfig?_of_not_configured hothers]
  · intro hadmitted
    cases h with
    | notAdmitted _ _ hrequest => exact absurd hadmitted hrequest
    | notAsked hredirect | notConfigured hredirect => exact hredirect
    | samePort hother =>
      obtain ⟨port, rfl⟩ := hother
      rfl

/-- Settings with a key but without a domain. -/
def Settings.halfSet : Settings := { standard with apiKey := some "key" }

/-- Settings with a key only are answered for like settings with nothing set. -/
theorem Site.answer_halfSet :
    Settings.Alike .sentinel ⟨"GET", "/api/config.json", []⟩ .halfSet .standard ∧
      answer ⟨.halfSet, .sentinel⟩ ⟨"GET", "/api/config.json", []⟩ =
        answer ⟨.standard, .sentinel⟩ ⟨"GET", "/api/config.json", []⟩ := by
  have hhalf : ¬Settings.halfSet.Configured := by
    rintro ⟨-, domain, hdomain, -⟩
    cases hdomain
  have hstandard : ¬Settings.standard.Configured := by
    rintro ⟨-, domain, hdomain, -⟩
    cases hdomain
  have halike : Settings.Alike .sentinel ⟨"GET", "/api/config.json", []⟩ .halfSet .standard :=
    .notConfigured rfl hhalf hstandard
  exact ⟨halike, answer_eq_of_alike halike⟩

end LoginService
