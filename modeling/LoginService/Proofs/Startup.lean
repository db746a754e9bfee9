import LoginService.Proofs.Digits
import LoginService.Proofs.Json.Writer
import LoginService.Proofs.Settings
import LoginService.Proofs.Site.Handlers
import LoginService.Startup
import Mathlib.Data.List.Basic

/-!
# Starting and the public configuration

An environment gives no settings, and the run fails at once, or it gives settings, and the run
serves until it is told to stop. In the second case the run begins with a warning if and only if the
site that it serves cannot tell the public configuration, and both come from the same two variables.
-/

namespace LoginService

open Http Json

namespace Site

/-- A request for the public configuration. -/
def configRequest (body : Bytes) : Request :=
  ⟨"GET", "/api/config.json", body⟩

/-- The resource of the public configuration answers it. -/
theorem handles_configRequest (s : Site) (body : Bytes) :
    Handles s body .config (s.found (configRequest body)) := by
  have hpath : (Uri.ofString "/api/config.json").path = "/api/config.json" := by decide
  have hroute : (configRequest body).AsksFor .config := ⟨hpath, List.mem_cons_self⟩
  exact handles_found s hroute

/-- The site fails to tell the public configuration if and only if there is none. -/
theorem status_configRequest_iff (s : Site) (body : Bytes) :
    (s.answer (configRequest body)).response.status = .internalServerError ↔
      s.settings.publicConfig? = none := by
  rw [status_answer]
  generalize hfound : s.found (configRequest body) = a
  have h := handles_configRequest s body
  rw [hfound] at h
  cases h with
  | config hconfig =>
    rw [hconfig]
    exact iff_of_false (fun hstatus => by cases hstatus) (Option.some_ne_none _)
  | unconfigured hconfig => exact iff_of_true rfl hconfig

/-- If there is a public configuration, then the site tells it. -/
theorem answer_configRequest (s : Site) (body : Bytes) {config : PublicConfig}
    (hconfig : s.settings.publicConfig? = some config) :
    (s.answer (configRequest body)).response.status = .ok ∧
      ∀ v : Value, v.WrittenBy (s.answer (configRequest body)).response.body.toList ↔
        v = config.toValue := by
  have hget : "GET" ≠ "HEAD" := by decide
  have hbody : (s.answer (configRequest body)).response.body =
      (s.found (configRequest body)).response.body := body_answer s hget
  rw [status_answer, hbody]
  generalize hfound : s.found (configRequest body) = a
  have h := handles_configRequest s body
  rw [hfound] at h
  cases h with
  | unconfigured hnone =>
    rw [hconfig] at hnone
    cases hnone
  | config hother =>
    rw [hconfig] at hother
    cases hother
    have hwritten : config.toValue.WrittenBy config.toValue.text.toList :=
      Value.writtenBy_text ⟨trivial, trivial, trivial⟩ (by simp [PublicConfig.toValue, Value.depth,
        Value.membersDepth])
    refine ⟨rfl, fun v => ⟨fun hv => hv.unique hwritten, ?_⟩⟩
    rintro rfl
    exact hwritten

end Site

/-- A character that terminals do not act upon. -/
def Terminal.Inert (c : Char) : Prop :=
  ¬isCommand c ∧ ¬isExtendedControl c

instance (c : Char) : Decidable (Terminal.Inert c) :=
  inferInstanceAs (Decidable (_ ∧ _))

/-- A text of characters that terminals do not act upon is printed as it is. -/
theorem Terminal.printed_eq {text : String} (h : ∀ c ∈ text.toList, Inert c) :
    printed text = text := by
  have hescaped : text.toList.flatMap escaped = text.toList.flatMap ([·]) := by
    apply List.flatMap_congr
    intro c hc
    rw [escaped, if_neg (h c hc).1, if_neg (h c hc).2]
  rw [printed, hescaped, List.flatMap_singleton', String.ofList_toList]

/-- Whether terminals act upon a text can be computed. -/
theorem Terminal.inert_of_all {text : String} (h : text.toList.all (decide <| Inert ·)) :
    ∀ c ∈ text.toList, Inert c :=
  fun c hc => of_decide_eq_true (List.all_eq_true.mp h c hc)

/-- Terminals do not act upon digits. -/
theorem Terminal.inert_of_isDigit {c : Char} (h : c.isDigit) : Inert c := by
  have hrange : 48 ≤ c.toNat ∧ c.toNat ≤ 57 := by
    simpa [Char.isDigit, UInt32.le_iff_toNat_le] using h
  constructor
  · have hne : ∀ d : Char, isCommand d → d.toNat < 48 ∨ 57 < d.toNat := by
      intro d hd
      simp only [isCommand, Bool.or_eq_true, decide_eq_true_eq] at hd
      rcases hd with (((rfl | rfl) | rfl) | rfl) | rfl <;> decide
    intro hcommand
    have := hne c hcommand
    omega
  · simp only [isExtendedControl, Bool.and_eq_true, decide_eq_true_eq]
    omega

namespace Run

/-- The warning that the settings of the identity provider are missing. -/
def warning : Record :=
  ⟨.warn, "FIREBASE_API_KEY or FIREBASE_AUTH_DOMAIN is not set", []⟩

/-- What holds of a run in an environment that gives no settings. -/
structure Refused (e : SettingsError) (run : Run) : Prop where
  /-- The run fails. -/
  exitCode : run.exitCode = 1
  /-- The error is all that is reported. -/
  log : run.log.map Event.record = [⟨.error, "Error loading settings: " ++ e.message, []⟩]
  /-- It is printed as it is, unless a terminal would act upon it. -/
  printed : (∀ c ∈ e.message.toList, Terminal.Inert c) →
    ∀ event ∈ run.log, event.record.printedMessage = event.record.message

/-- What holds of a run in an environment that gives settings. -/
structure Served (env : Environment) (settings : Settings) (run : Run) : Prop where
  /-- The run succeeds. -/
  exitCode : run.exitCode = 0
  /-- The port and the end are reported, at choice after a warning. -/
  log : ∃ before, (before = [] ∨ before = [warning]) ∧ run.log.map Event.record = before ++
    [⟨.info, "listening on http://0.0.0.0:" ++ settings.port.toNat.repr, []⟩,
      ⟨.info, "shutting down", []⟩]
  /-- The messages are printed as they are. -/
  printed : ∀ event ∈ run.log, event.record.printedMessage = event.record.message
  /-- There is a warning if and only if the site fails to tell the public configuration, whatever
  its verifier is. -/
  warns_iff_fails : warning ∈ run.log.map Event.record ↔ ∀ (v : Verifier) (body : Bytes),
    (Site.answer ⟨settings, v⟩ (Site.configRequest body)).response.status = .internalServerError
  /-- There is a warning if and only if one of the two variables is unset, not UTF-8, or empty. -/
  warns_iff_lacks : warning ∈ run.log.map Event.record ↔
    env.Lacks "FIREBASE_API_KEY" ∨ env.Lacks "FIREBASE_AUTH_DOMAIN"
  /-- Without a warning the site tells the texts of the two variables and nothing else. -/
  tells : warning ∉ run.log.map Event.record → ∃ apiKey authDomain,
    env.Gives "FIREBASE_API_KEY" apiKey ∧ env.Gives "FIREBASE_AUTH_DOMAIN" authDomain ∧
      ∀ (v : Verifier) (body : Bytes),
        (Site.answer ⟨settings, v⟩ (Site.configRequest body)).response.status = .ok ∧
        ∀ w : Value, w.WrittenBy
            (Site.answer ⟨settings, v⟩ (Site.configRequest body)).response.body.toList ↔
          w = .object [("apiKey", .string apiKey), ("authDomain", .string authDomain)]

/-- The records of a run with settings. -/
theorem records_ofSettings (settings : Settings) :
    (ofSettings settings).log.map Event.record =
      (if settings.publicConfig?.isNone then [warning] else []) ++
        [⟨.info, "listening on http://0.0.0.0:" ++ settings.port.toNat.repr, []⟩,
          ⟨.info, "shutting down", []⟩] := by
  rw [ofSettings, List.map_append]
  split <;> rfl

/-- A run with settings begins with a warning if and only if there is no public configuration. -/
theorem warning_mem_iff (settings : Settings) :
    warning ∈ (ofSettings settings).log.map Event.record ↔ settings.publicConfig? = none := by
  rw [records_ofSettings]
  cases settings.publicConfig? with
  | none => exact iff_of_true List.mem_cons_self rfl
  | some config =>
    refine iff_of_false ?_ (Option.some_ne_none config)
    simp [warning]

/-- The messages of a run with settings are printed as they are. -/
theorem printedMessage_ofSettings (settings : Settings) {event : Event}
    (h : event ∈ (ofSettings settings).log) :
    event.record.printedMessage = event.record.message := by
  apply Terminal.printed_eq
  simp only [ofSettings, List.mem_append, List.mem_cons, List.not_mem_nil, or_false] at h
  rcases h with h | rfl | rfl
  · split at h
    · rw [List.mem_singleton.mp h]
      exact Terminal.inert_of_all (by decide)
    · cases h
  · intro c hc
    have hmessage : (Event.listening settings.port).record.message.toList =
        "listening on http://0.0.0.0:".toList ++ Nat.toDigits 10 settings.port.toNat := by
      simp [Event.record, Nat.repr]
    rw [hmessage, List.mem_append] at hc
    rcases hc with hc | hc
    · exact Terminal.inert_of_all (by decide) c hc
    · exact Terminal.inert_of_isDigit (Digits.isDigit_of_mem_toDigits hc)
  · exact Terminal.inert_of_all (by decide)

/-- Without settings a run fails with the error alone. -/
theorem refused_of_ofEnvironment {env : Environment} {e : SettingsError}
    (h : Settings.ofEnvironment env = .error e) : Refused e (ofEnvironment env) := by
  have hrun : ofEnvironment env = ⟨1, [.settingsRefused e]⟩ := by rw [ofEnvironment, h]
  rw [hrun]
  refine ⟨rfl, rfl, fun hinert event hevent => ?_⟩
  rw [List.mem_singleton.mp hevent]
  apply Terminal.printed_eq
  intro c hc
  have hmessage : (Event.settingsRefused e).record.message.toList =
      "Error loading settings: ".toList ++ e.message.toList := by
    simp [Event.record]
  rw [hmessage, List.mem_append] at hc
  rcases hc with hc | hc
  · exact Terminal.inert_of_all (by decide) c hc
  · exact hinert c hc

/-- With settings a run serves them, and it warns of what the site fails to tell. -/
theorem served_of_ofEnvironment {env : Environment} {settings : Settings}
    (h : Settings.ofEnvironment env = .ok settings) :
    Served env settings (ofEnvironment env) := by
  have hrun : ofEnvironment env = ofSettings settings := by rw [ofEnvironment, h]
  obtain ⟨port, hport⟩ := Settings.eq_withPort_of_ofEnvironment h
  have hkey : settings.apiKey = Settings.text? env "FIREBASE_API_KEY" := by rw [hport]; rfl
  have hdomain : settings.authDomain = Settings.text? env "FIREBASE_AUTH_DOMAIN" := by
    rw [hport]; rfl
  rw [hrun]
  constructor
  · rfl
  · refine ⟨if settings.publicConfig?.isNone then [warning] else [], ?_,
      records_ofSettings settings⟩
    split
    · exact .inr rfl
    · exact .inl rfl
  · intro event hevent
    exact printedMessage_ofSettings settings hevent
  · rw [warning_mem_iff]
    constructor
    · intro hnone v body
      exact (Site.status_configRequest_iff ⟨settings, v⟩ body).mpr hnone
    · intro hfails
      exact (Site.status_configRequest_iff ⟨settings, .sentinel⟩ []).mp (hfails .sentinel [])
  · rw [warning_mem_iff, Settings.publicConfig?_eq_none_iff, hkey, hdomain,
      Settings.nonEmpty?_text?_eq_none_iff, Settings.nonEmpty?_text?_eq_none_iff]
  · rw [warning_mem_iff]
    intro hsome
    obtain ⟨config, hconfig⟩ := Option.ne_none_iff_exists'.mp hsome
    have hparts := Settings.publicConfig?_eq_some_iff.mp hconfig
    rw [hkey, hdomain, Settings.nonEmpty?_text?_eq_some_iff,
      Settings.nonEmpty?_text?_eq_some_iff] at hparts
    exact ⟨config.apiKey, config.authDomain, hparts.1, hparts.2, fun v body =>
      Site.answer_configRequest ⟨settings, v⟩ body hconfig⟩

/-- Every environment leads to a run that fails with one error, or to one that serves settings and
warns if and only if the site fails to tell the public configuration. -/
theorem refused_or_served (env : Environment) :
    (∃ e, Settings.ofEnvironment env = .error e ∧ Refused e (ofEnvironment env)) ∨
      ∃ settings, Settings.ofEnvironment env = .ok settings ∧
        Served env settings (ofEnvironment env) := by
  cases h : Settings.ofEnvironment env with
  | error e => exact .inl ⟨e, rfl, refused_of_ofEnvironment h⟩
  | ok settings => exact .inr ⟨settings, rfl, served_of_ofEnvironment h⟩

end Run

end LoginService
