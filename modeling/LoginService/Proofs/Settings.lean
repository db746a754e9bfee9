import LoginService.Proofs.Utf8
import LoginService.Settings

/-!
# Settings and their variables

What the variables of an environment give: the texts that their values encode. The public
configuration consists of two of these texts, and there is none if one of the two is missing.
-/

namespace LoginService

/-- A variable is set to the encoding of a text that is not empty. -/
def Environment.Gives (env : Environment) (name text : String) : Prop :=
  env name = some (Utf8.encode text) ∧ text ≠ ""

/-- A variable is unset, not UTF-8, or empty. -/
inductive Environment.Lacks (env : Environment) (name : String) : Prop where
  | unset (h : env name = none)
  | notUtf8 {bytes : Bytes} (h : env name = some bytes) (hbytes : ∀ text, Utf8.encode text ≠ bytes)
  | empty (h : env name = some [])

namespace Settings

variable {env : Environment} {name : String}

/-- A text of a variable is kept if the variable gives it. -/
theorem nonEmpty?_text?_eq_some_iff {text : String} :
    nonEmpty? (text? env name) = some text ↔ env.Gives name text := by
  simp only [nonEmpty?, text?, Option.filter_eq_some_iff, Option.bind_eq_some_iff,
    Utf8.decode?_eq_some_iff, decide_eq_true_eq]
  constructor
  · rintro ⟨⟨bytes, hbytes, rfl⟩, hne⟩
    exact ⟨hbytes, hne⟩
  · rintro ⟨hbytes, hne⟩
    exact ⟨⟨_, hbytes, rfl⟩, hne⟩

/-- No text of a variable is kept if the variable lacks one. -/
theorem nonEmpty?_text?_eq_none_iff :
    nonEmpty? (text? env name) = none ↔ env.Lacks name := by
  rw [Option.eq_none_iff_forall_ne_some]
  simp only [ne_eq, nonEmpty?_text?_eq_some_iff]
  constructor
  · intro hnone
    cases hvalue : env name with
    | none => exact .unset hvalue
    | some bytes =>
      by_cases hutf8 : ∃ text, Utf8.encode text = bytes
      · obtain ⟨text, rfl⟩ := hutf8
        by_cases hempty : text = ""
        · rw [Utf8.encode_eq_nil_iff.mpr hempty] at hvalue
          exact .empty hvalue
        · exact absurd ⟨hvalue, hempty⟩ (hnone text)
      · exact .notUtf8 hvalue (not_exists.mp hutf8)
  · rintro hlacks text ⟨hvalue, hne⟩
    cases hlacks with
    | unset h =>
      rw [h] at hvalue
      cases hvalue
    | notUtf8 h hbytes =>
      rw [h] at hvalue
      exact hbytes text (Option.some.inj hvalue).symm
    | empty h =>
      rw [h] at hvalue
      exact hne (Utf8.encode_eq_nil_iff.mp (Option.some.inj hvalue).symm)

/-- Settings are read from the variables of the identity provider as they are. -/
theorem eq_withPort_of_ofEnvironment {settings : Settings}
    (h : ofEnvironment env = .ok settings) : ∃ port, settings = withPort env port := by
  unfold ofEnvironment at h
  split at h
  · exact ⟨_, (Except.ok.inj h).symm⟩
  · split at h
    · cases h
    · exact ⟨_, (Except.ok.inj h).symm⟩

/-- The public configuration consists of the two texts that are not empty. -/
theorem publicConfig?_eq_some_iff {settings : Settings} {config : PublicConfig} :
    settings.publicConfig? = some config ↔
      nonEmpty? settings.apiKey = some config.apiKey ∧
        nonEmpty? settings.authDomain = some config.authDomain := by
  simp only [publicConfig?, Option.bind_eq_bind, Option.bind_eq_some_iff, Option.pure_def,
    Option.some.injEq]
  constructor
  · rintro ⟨apiKey, hkey, authDomain, hdomain, rfl⟩
    exact ⟨hkey, hdomain⟩
  · rintro ⟨hkey, hdomain⟩
    exact ⟨_, hkey, _, hdomain, rfl⟩

/-- There is no public configuration if one of the two texts is missing. -/
theorem publicConfig?_eq_none_iff {settings : Settings} :
    settings.publicConfig? = none ↔
      nonEmpty? settings.apiKey = none ∨ nonEmpty? settings.authDomain = none := by
  cases hkey : nonEmpty? settings.apiKey with
  | none => simp [publicConfig?, hkey]
  | some apiKey =>
    cases hdomain : nonEmpty? settings.authDomain with
    | none => simp [publicConfig?, hkey, hdomain]
    | some authDomain => simp [publicConfig?, hkey, hdomain]

end Settings

end LoginService
