import Mathlib.Data.List.TakeWhile

/-!
# Cutting a text after a run of characters

A text is cut where the first character stands that is not of a given kind. The cut is known from
its two parts: the first consists of that kind only, and the second does not begin with it.
-/

namespace LoginService

/-- A text does not begin with a character of the given kind. -/
def NotAhead (kind : Char → Prop) (text : List Char) : Prop :=
  ∀ c ∈ text.head?, ¬kind c

/-- A text that begins with no character of a kind begins with none of a narrower one. -/
theorem NotAhead.imp {kind narrower : Char → Prop} {text : List Char}
    (h : NotAhead kind text) (himp : ∀ c, narrower c → kind c) : NotAhead narrower text :=
  fun c hc hnarrower => h c hc (himp c hnarrower)

/-- The empty text begins with nothing. -/
@[simp] theorem notAhead_nil {kind : Char → Prop} : NotAhead kind [] := by
  simp [NotAhead]

/-- The first character decides. -/
@[simp] theorem notAhead_cons {kind : Char → Prop} {c : Char} {text : List Char} :
    NotAhead kind (c :: text) ↔ ¬kind c := by
  simp [NotAhead]

/-- If two texts begin with no character of a kind, neither does the one followed by the other. -/
theorem NotAhead.append {kind : Char → Prop} {text rest : List Char} (h : NotAhead kind text)
    (hrest : NotAhead kind rest) : NotAhead kind (text ++ rest) := by
  cases text with
  | nil => exact hrest
  | cons c text => exact notAhead_cons.mpr (notAhead_cons.mp h)

/-- A cut gives a run of the kind and a rest that does not continue it, and these determine it. -/
theorem cut_eq_iff {kind : Char → Bool} {text run rest : List Char} :
    (text.takeWhile kind = run ∧ text.dropWhile kind = rest) ↔
      (∀ c ∈ run, kind c) ∧ text = run ++ rest ∧ NotAhead (kind ·) rest := by
  constructor
  · rintro ⟨rfl, rfl⟩
    refine ⟨fun c hc => List.mem_takeWhile_imp hc, List.takeWhile_append_dropWhile.symm, ?_⟩
    intro c hc
    have hhead := List.head?_dropWhile_not kind text
    rw [Option.mem_def.mp hc] at hhead
    simpa using hhead
  · rintro ⟨hrun, rfl, hrest⟩
    rw [List.takeWhile_append_of_pos hrun, List.dropWhile_append_of_pos hrun]
    cases rest with
    | nil => simp
    | cons c rest => simpa using hrest

end LoginService
