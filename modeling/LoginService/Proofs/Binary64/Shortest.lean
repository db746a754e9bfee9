import LoginService.Binary64.Shortest
import LoginService.Proofs.Binary64.Nearest
import LoginService.Proofs.Binary64.Scale
import LoginService.Proofs.Decimal

/-!
# The shortest decimal of a double

The search looks at two neighbours on each of seventeen decimal grids, from coarse to fine. This
file says what it finds: a decimal that is rounded to the magnitude, such that no decimal with fewer
digits is rounded to it, and none with equally many is nearer. If any decimal is rounded to the
magnitude, so is a neighbour on the grid of its digits, which lies between the two; and on the
finest grid the nearest neighbour always is.
-/

namespace LoginService.Binary64

variable {units place : Nat}

/-- How many units of 10^-1074 make one. -/
def decimalScale : Nat := Nat.pow 10 1074

/-- The units of 10^-1074 in one are a power of ten. -/
theorem cast_decimalScale : (decimalScale : ℚ) = 10 ^ 1074 := by
  unfold decimalScale
  generalize 1074 = k
  exact cast_natPow 10 k

/-- The units of 10^-1074 in a unit of 2^-1074 are a power of five. -/
theorem cast_decimalUnits : (decimalUnits : ℚ) = 5 ^ 1074 := by
  unfold decimalUnits
  generalize 1074 = k
  exact cast_natPow 5 k

/-- Powers of two and of five make powers of ten. -/
theorem one_mul_decimalUnits : (one : ℚ) * decimalUnits = decimalScale := by
  rw [cast_one, cast_decimalUnits, cast_decimalScale, ← mul_pow]
  norm_num

/-- A large power of five has at least seventeen digits. -/
theorem pow_le_five_pow {k : Nat} (hk : 23 ≤ k) : 10 ^ 16 ≤ Nat.pow 5 k :=
  Nat.le_trans (by decide) (Nat.pow_le_pow_right (by decide) hk)

/-- A unit of 2^-1074 has at least seventeen digits in units of 10^-1074. -/
theorem pow_le_decimalUnits : 10 ^ 16 ≤ decimalUnits := by
  unfold decimalUnits
  generalize hk : 1074 = k
  exact pow_le_five_pow (by omega)

/-- There are units of 10^-1074 in every unit of 2^-1074. -/
theorem decimalUnits_pos : 0 < decimalUnits :=
  Nat.lt_of_lt_of_le (by decide) pow_le_decimalUnits

/-- A magnitude other than zero has at least seventeen digits in units of 10^-1074. -/
theorem pow_le_mul_decimalUnits (h : units ≠ 0) : 10 ^ 16 ≤ units * decimalUnits :=
  Nat.le_trans pow_le_decimalUnits (Nat.le_mul_of_pos_left decimalUnits (Nat.pos_of_ne_zero h))

/-- A number in units of 2^-1074 is its number of units of 10^-1074 over those in one of 2^-1074. -/
theorem mul_one_eq (x : ℚ) : x * one = x * decimalScale / decimalUnits := by
  have hpos : (decimalUnits : ℚ) ≠ 0 := Nat.cast_ne_zero.mpr decimalUnits_pos.ne'
  rw [← one_mul_decimalUnits, ← mul_assoc, mul_div_cancel_right₀ _ hpos]

/-- A power of ten in units of 10^-1074. -/
theorem zpow_mul_decimalScale (place : Int) :
    (10 : ℚ) ^ (place - 1074) * decimalScale = 10 ^ place := by
  rw [cast_decimalScale, ← zpow_natCast, ← zpow_add₀ (by norm_num), Nat.cast_ofNat, sub_add_cancel]

/-- A point of a grid as a decimal. -/
def gridPoint (coefficient place : Nat) : Decimal := ⟨coefficient, place - 1074⟩

/-- A point of a grid in units of 10^-1074. -/
theorem toRat_gridPoint (coefficient place : Nat) :
    (gridPoint coefficient place).toRat * decimalScale =
      (coefficient * Nat.pow 10 place : Nat) := by
  rw [Decimal.toRat, gridPoint, mul_assoc, zpow_mul_decimalScale, zpow_natCast, Nat.pow_eq,
    Nat.cast_mul, Nat.cast_pow, Nat.cast_ofNat]

/-- A point of a grid reads back if and only if it is rounded to the magnitude. -/
theorem readsBack_iff {coefficient : Nat} :
    readsBack units coefficient place ↔
      IsNearest ((gridPoint coefficient place).toRat * one) units := by
  rw [readsBack, decide_eq_true_iff, roundUnits_eq_iff decimalUnits_pos, mul_one_eq,
    toRat_gridPoint]

/-- A decimal that is rounded to a magnitude other than zero is not zero. -/
theorem coefficient_ne_zero_of_isNearest {d : Decimal} (hunits : units ≠ 0)
    (h : IsNearest (d.toRat * one) units) : d.coefficient ≠ 0 := by
  intro hcoefficient
  rw [Decimal.toRat_eq_zero_iff.mpr hcoefficient, zero_mul] at h
  exact hunits (h.unique isNearest_zero)

/-- How far a number of units of 10^-1074 is from a magnitude. -/
def distance (units : Nat) (x : ℚ) : ℚ := |x - (units * decimalUnits : Nat)|

/-- A number of units of 10^-1074 lies between another one and a magnitude. -/
def Between (units : Nat) (x y : ℚ) : Prop :=
  x ≤ y ∧ y ≤ (units * decimalUnits : Nat) ∨ ((units * decimalUnits : Nat) : ℚ) ≤ y ∧ y ≤ x

/-- What lies between is not farther away. -/
theorem Between.distance_le {x y : ℚ} (h : Between units x y) :
    distance units y ≤ distance units x := by
  unfold distance
  rcases h with ⟨hxy, hy⟩ | ⟨hy, hyx⟩
  · rw [abs_of_nonpos (by linarith), abs_of_nonpos (by linarith)]
    linarith
  · rw [abs_of_nonneg (by linarith), abs_of_nonneg (by linarith)]
    linarith

/-- A point of a grid that lies between a number that is rounded to the magnitude and the magnitude
reads back. -/
theorem readsBack_of_between {x : ℚ} {coefficient : Nat} (h : IsNearest (x / decimalUnits) units)
    (hbetween : Between units x (coefficient * Nat.pow 10 place : Nat)) :
    readsBack units coefficient place := by
  have hpos : (0 : ℚ) < decimalUnits := Nat.cast_pos.mpr decimalUnits_pos
  rw [readsBack_iff, mul_one_eq, toRat_gridPoint]
  refine h.of_between decimalUnits_pos ?_
  rw [div_le_div_iff_of_pos_right hpos, div_le_div_iff_of_pos_right hpos, div_le_iff₀ hpos,
    le_div_iff₀ hpos, ← Nat.cast_mul]
  exact hbetween

/-- The point of a grid below a magnitude. -/
def below (units place : Nat) : Nat := units * decimalUnits / Nat.pow 10 place

/-- A magnitude lies between its neighbours on a grid. -/
theorem below_bounds (units place : Nat) :
    below units place * Nat.pow 10 place ≤ units * decimalUnits ∧
      units * decimalUnits < (below units place + 1) * Nat.pow 10 place := by
  have hpos : 0 < Nat.pow 10 place := Nat.pow_pos (by decide)
  exact ⟨Nat.div_mul_le_self _ _, Nat.lt_mul_of_div_lt (Nat.lt_succ_self _) hpos⟩

/-- One of the two neighbours lies between any other point of the grid and the magnitude. -/
theorem exists_neighbour_between (units place k : Nat) :
    ∃ c, (c = below units place ∨ c = below units place + 1) ∧
      Between units (k * Nat.pow 10 place : Nat) (c * Nat.pow 10 place : Nat) := by
  obtain ⟨hlow, hhigh⟩ := below_bounds units place
  by_cases hk : k ≤ below units place
  · refine ⟨_, .inl rfl, .inl ⟨?_, Nat.cast_le.mpr hlow⟩⟩
    exact Nat.cast_le.mpr (Nat.mul_le_mul_right _ hk)
  · refine ⟨_, .inr rfl, .inr ⟨Nat.cast_le.mpr (Nat.le_of_lt hhigh), ?_⟩⟩
    exact Nat.cast_le.mpr (Nat.mul_le_mul_right _ (Nat.not_le.mp hk))

/-- The point of a grid that is nearest to a magnitude. -/
def nearest (units place : Nat) : Nat := roundDiv (units * decimalUnits) (Nat.pow 10 place)

/-- The nearest point of a grid is one of the two neighbours. -/
theorem nearest_eq_or (units place : Nat) :
    nearest units place = below units place ∨ nearest units place = below units place + 1 := by
  unfold nearest roundDiv
  dsimp only
  rw [← below]
  split
  · exact .inl rfl
  · exact .inr rfl

/-- No point of a grid is nearer than the nearest one. -/
theorem distance_nearest_le (units place k : Nat) :
    distance units (nearest units place * Nat.pow 10 place : Nat) ≤
      distance units (k * Nat.pow 10 place : Nat) := by
  have hpos : 0 < Nat.pow 10 place := Nat.pow_pos (by decide)
  have hcast : (0 : ℚ) < (Nat.pow 10 place : Nat) := Nat.cast_pos.mpr hpos
  have hnearest := abs_roundDiv_sub_le_abs_sub (units * decimalUnits) hpos k
  rw [← nearest] at hnearest
  have hscale : ∀ c : Nat, distance units (c * Nat.pow 10 place : Nat) =
      |(c : ℚ) - (units * decimalUnits : Nat) / (Nat.pow 10 place : Nat)| *
        (Nat.pow 10 place : Nat) := by
    intro c
    rw [distance, ← abs_of_pos hcast, ← abs_mul, abs_of_pos hcast, sub_mul,
      div_mul_cancel₀ _ hcast.ne', Nat.cast_mul]
  rw [hscale, hscale]
  exact mul_le_mul_of_nonneg_right hnearest hcast.le

/-- Of two numbers the first with a property is found. -/
theorem find?_pair_eq_some_iff {p : Nat → Bool} {first second c : Nat} :
    [first, second].find? p = some c ↔
      p first ∧ c = first ∨ p first = false ∧ p second ∧ c = second := by
  cases hfirst : p first <;> cases hsecond : p second <;>
    simp [hfirst, hsecond, eq_comm]

/-- What is found is the nearest point of a grid if it reads back, and otherwise the other one of
the two neighbours if that one does. -/
theorem neighbour?_eq_some_iff {c : Nat} : neighbour? units place = some c ↔
    readsBack units c place ∧ (c = nearest units place ∨
      readsBack units (nearest units place) place = false ∧ c ≠ nearest units place ∧
        (c = below units place ∨ c = below units place + 1)) := by
  have hcases := nearest_eq_or units place
  have heq : neighbour? units place = [nearest units place,
      if nearest units place = below units place then below units place + 1
      else below units place].find? (readsBack units · place) := rfl
  rw [heq, find?_pair_eq_some_iff]
  constructor
  · rintro (⟨hback, rfl⟩ | ⟨hnear, hback, rfl⟩)
    · exact ⟨hback, .inl rfl⟩
    · refine ⟨hback, .inr ⟨hnear, ?_⟩⟩
      split <;> omega
  · rintro ⟨hback, rfl | ⟨hnear, hne, hc⟩⟩
    · exact .inl ⟨hback, rfl⟩
    · have hother : c = if nearest units place = below units place then below units place + 1
          else below units place := by
        split <;> omega
      rw [hother] at hback
      exact .inr ⟨hnear, hback, hother⟩

/-- If a point of a grid reads back, a neighbour is found, and it is not farther away. -/
theorem exists_neighbour?_of_between {x : ℚ} {k : Nat} (h : IsNearest (x / decimalUnits) units)
    (hbetween : Between units x (k * Nat.pow 10 place : Nat)) :
    ∃ c, neighbour? units place = some c ∧
      distance units (c * Nat.pow 10 place : Nat) ≤ distance units x := by
  have hk := readsBack_of_between h hbetween
  rw [readsBack_iff, mul_one_eq, toRat_gridPoint] at hk
  obtain ⟨c, hc, hcbetween⟩ := exists_neighbour_between units place k
  have hback : readsBack units c place := readsBack_of_between hk hcbetween
  have hclose : distance units (c * Nat.pow 10 place : Nat) ≤ distance units x :=
    hcbetween.distance_le.trans hbetween.distance_le
  by_cases hnear : readsBack units (nearest units place) place
  · exact ⟨_, neighbour?_eq_some_iff.mpr ⟨hnear, .inl rfl⟩,
      (distance_nearest_le units place c).trans hclose⟩
  · have hne : c ≠ nearest units place := by
      rintro rfl
      exact hnear hback
    exact ⟨c, neighbour?_eq_some_iff.mpr
      ⟨hback, .inr ⟨Bool.eq_false_iff.mpr hnear, hne, hc⟩⟩, hclose⟩

/-- How many digits a magnitude has in units of 10^-1074. -/
def digitCount (units : Nat) : Nat := (Nat.toDigits 10 (units * decimalUnits)).length

/-- A magnitude other than zero has at least seventeen digits, and the first of them has the power
of ten that their count says. -/
theorem digitCount_bounds (h : units ≠ 0) :
    17 ≤ digitCount units ∧ 10 ^ (digitCount units - 1) ≤ units * decimalUnits ∧
      units * decimalUnits < 10 ^ digitCount units := by
  have hlarge := pow_le_mul_decimalUnits h
  have hexact : units * decimalUnits ≠ 0 := by omega
  have hhigh : units * decimalUnits < 10 ^ digitCount units := Digits.lt_pow_length_toDigits _
  refine ⟨?_, Digits.pow_length_toDigits_le hexact, hhigh⟩
  by_contra! hshort
  have hle : 10 ^ digitCount units ≤ 10 ^ 16 := Nat.pow_le_pow_right (by decide) (by omega)
  omega

/-- A coefficient with few digits at a small place is at most a power of ten. -/
theorem mul_zpow_le {c count bound : Nat} {place : Int} (hc : c < 10 ^ count)
    (hbound : count + place ≤ bound) : (c : ℚ) * 10 ^ place ≤ (10 ^ bound : Nat) := by
  have hten : (10 : ℚ) ≠ 0 := by norm_num
  have hle : (c : ℚ) ≤ (10 ^ count : Nat) := Nat.cast_le.mpr (Nat.le_of_lt hc)
  calc
    (c : ℚ) * 10 ^ place ≤ (10 ^ count : Nat) * 10 ^ place :=
      mul_le_mul_of_nonneg_right hle (zpow_pos (by norm_num) _).le
    _ = 10 ^ (count + place) := by
      rw [Nat.cast_pow, Nat.cast_ofNat, zpow_add₀ hten, zpow_natCast]
    _ ≤ 10 ^ (bound : Int) := zpow_le_zpow_right₀ (by norm_num) hbound
    _ = (10 ^ bound : Nat) := by
      rw [zpow_natCast, Nat.cast_pow, Nat.cast_ofNat]

/-- On the grid of its digits some point lies between a decimal and the magnitude: the decimal
itself, or the power of ten of the first digit of the magnitude. -/
theorem exists_between {d : Decimal} (hunits : units ≠ 0) (hd : d.coefficient ≠ 0)
    (hlength : d.digits.length ≤ digitCount units) :
    ∃ k, Between units (d.toRat * decimalScale)
      (k * Nat.pow 10 (digitCount units - d.digits.length) : Nat) := by
  obtain ⟨c, exponent, hnormal⟩ := Decimal.exists_normal hd
  obtain ⟨-, hlow, -⟩ := digitCount_bounds hunits
  have hten : (10 : ℚ) ≠ 0 := by norm_num
  have hcount : 0 < d.digits.length := by
    rw [hnormal.digits]
    exact Nat.length_toDigits_pos
  have hc : c < 10 ^ d.digits.length := (hnormal.length_digits_le_iff hcount).mp (Nat.le_refl _)
  obtain ⟨place, rfl⟩ : ∃ place, exponent = place - 1074 := ⟨exponent + 1074, by omega⟩
  rw [hnormal.toRat, mul_assoc, zpow_mul_decimalScale]
  generalize hgrid : digitCount units - d.digits.length = grid
  by_cases hcoarse : (grid : Int) ≤ place
  · -- The decimal is a point of the grid.
    obtain ⟨n, rfl⟩ : ∃ n : Nat, place = grid + n := ⟨(place - grid).toNat, by omega⟩
    have hpoint : ((c * 10 ^ n * Nat.pow 10 grid : Nat) : ℚ) = c * 10 ^ ((grid : Int) + n) := by
      rw [zpow_add₀ hten, zpow_natCast, zpow_natCast, Nat.pow_eq]
      push_cast
      ring
    refine ⟨c * 10 ^ n, ?_⟩
    rw [hpoint]
    rcases le_total ((c : ℚ) * 10 ^ ((grid : Int) + n)) (units * decimalUnits : Nat) with hle | hge
    · exact .inl ⟨le_rfl, hle⟩
    · exact .inr ⟨hge, le_rfl⟩
  · -- The decimal is below the power of ten, because its last digit is.
    have hpower : 10 ^ (d.digits.length - 1) * Nat.pow 10 grid = 10 ^ (digitCount units - 1) := by
      rw [Nat.pow_eq, ← Nat.pow_add]
      congr 1
      omega
    refine ⟨10 ^ (d.digits.length - 1), .inl ⟨?_, ?_⟩⟩
    · rw [hpower]
      exact mul_zpow_le hc (by omega)
    · rw [hpower]
      exact Nat.cast_le.mpr hlow

/-- If a decimal is rounded to the magnitude, a neighbour is found on the grid of its digits, and it
is not farther away. -/
theorem exists_neighbour? {d : Decimal} (hunits : units ≠ 0) (hd : d.coefficient ≠ 0)
    (hlength : d.digits.length ≤ digitCount units) (h : IsNearest (d.toRat * one) units) :
    ∃ c, neighbour? units (digitCount units - d.digits.length) = some c ∧
      distance units (c * Nat.pow 10 (digitCount units - d.digits.length) : Nat) ≤
        distance units (d.toRat * decimalScale) := by
  obtain ⟨k, hbetween⟩ := exists_between hunits hd hlength
  rw [mul_one_eq] at h
  exact exists_neighbour?_of_between h hbetween

/-- A multiple of a fine step that is off by at most half a step is off by little. -/
theorem scaled_error_lt {magnitude near step unit : ℚ} (hmagnitude : 0 < magnitude)
    (hstep : 0 < step) (hunit : 0 < unit) (hhalf : |near - magnitude * unit / step| ≤ 1 / 2)
    (hfine : 10 ^ 16 * step ≤ magnitude * unit) :
    2 ^ 54 * |magnitude - near * step / unit| < magnitude := by
  have herror : |magnitude - near * step / unit| ≤ step / 2 / unit := by
    have hscale : magnitude - near * step / unit =
        (near - magnitude * unit / step) * (-step / unit) := by
      field_simp
      ring
    rw [hscale, abs_mul, abs_div, abs_neg, abs_of_pos hstep, abs_of_pos hunit, ← mul_div_assoc,
      div_le_div_iff_of_pos_right hunit]
    linarith [mul_le_mul_of_nonneg_right hhalf hstep.le]
  have hbound : step / 2 / unit ≤ magnitude / (2 * 10 ^ 16) := by
    rw [div_div, div_le_div_iff₀ (by positivity) (by positivity)]
    linarith
  calc
    (2 : ℚ) ^ 54 * |magnitude - near * step / unit| ≤ 2 ^ 54 * (magnitude / (2 * 10 ^ 16)) :=
      mul_le_mul_of_nonneg_left (herror.trans hbound) (by norm_num)
    _ < magnitude := by
      norm_num
      linarith

/-- On a grid that is fine enough the nearest point reads back: it is off by at most half a step,
which is less than rounding forgives. -/
theorem readsBack_nearest (hunits : units ≠ 0) (hprecise : Precise units)
    (hfine : 10 ^ 16 * Nat.pow 10 place ≤ units * decimalUnits) :
    readsBack units (nearest units place) place := by
  have hpos : 0 < Nat.pow 10 place := Nat.pow_pos (by decide)
  have hhalf := abs_roundDiv_sub_le (units * decimalUnits) hpos
  rw [← nearest, Nat.cast_mul] at hhalf
  have hfineCast : (10 : ℚ) ^ 16 * (Nat.pow 10 place : Nat) ≤ units * decimalUnits := by
    exact_mod_cast hfine
  rw [readsBack_iff, mul_one_eq, toRat_gridPoint]
  refine hprecise.isNearest_of_close decimalUnits_pos ?_
  rw [Nat.cast_mul]
  exact scaled_error_lt (Nat.cast_pos.mpr (Nat.pos_of_ne_zero hunits)) (Nat.cast_pos.mpr hpos)
    (Nat.cast_pos.mpr decimalUnits_pos) hhalf hfineCast

/-- With seventeen digits a neighbour is found. -/
theorem exists_neighbour?_seventeen (hunits : units ≠ 0) (hprecise : Precise units) :
    ∃ c, neighbour? units (digitCount units - 1 - 16) = some c := by
  obtain ⟨hlength, hlow, -⟩ := digitCount_bounds hunits
  have hpower : 10 ^ 16 * Nat.pow 10 (digitCount units - 1 - 16) = 10 ^ (digitCount units - 1) := by
    rw [Nat.pow_eq, ← Nat.pow_add]
    congr 1
    omega
  have hback := readsBack_nearest hunits hprecise (hpower.trans_le hlow)
  exact ⟨_, neighbour?_eq_some_iff.mpr ⟨hback, .inl rfl⟩⟩

/-- If something is found for one of some numbers, a search finds it for the first such number. -/
theorem exists_findSome?_range {α : Type} {f : Nat → Option α} {count i : Nat} {a : α}
    (hi : i < count) (h : f i = some a) :
    ∃ j b, j < count ∧ (List.range count).findSome? f = some b ∧ f j = some b ∧
      ∀ k < j, f k = none := by
  cases hfound : (List.range count).findSome? f with
  | none =>
    rw [List.findSome?_eq_none_iff] at hfound
    rw [hfound i (List.mem_range.mpr hi)] at h
    cases h
  | some b =>
    obtain ⟨front, j, back, hsplit, hj, hfront⟩ := List.findSome?_eq_some_iff.mp hfound
    have hsorted := List.pairwise_lt_range (n := count)
    rw [hsplit, List.pairwise_append, List.pairwise_cons] at hsorted
    have hmem : j ∈ List.range count := by
      rw [hsplit]
      exact List.mem_append_right front List.mem_cons_self
    refine ⟨j, b, List.mem_range.mp hmem, rfl, hj, fun k hk => hfront k ?_⟩
    -- What is smaller stands before it.
    have hmemk : k ∈ front ++ j :: back := by
      rw [← hsplit]
      exact List.mem_range.mpr (hk.trans (List.mem_range.mp hmem))
    rcases List.mem_append.mp hmemk with hmemk | hmemk
    · exact hmemk
    · rcases List.mem_cons.mp hmemk with rfl | hmemk
      · omega
      · have hlater := hsorted.2.1.1 k hmemk
        omega

/-- The search ends on the coarsest grid with a neighbour that reads back. -/
theorem exists_shortest_eq (hunits : units ≠ 0) (hprecise : Precise units) :
    ∃ j b, j < 17 ∧ neighbour? units (digitCount units - 1 - j) = some b ∧
      shortest units = gridPoint b (digitCount units - 1 - j) ∧
      ∀ k < j, neighbour? units (digitCount units - 1 - k) = none := by
  obtain ⟨last, hlast⟩ := exists_neighbour?_seventeen hunits hprecise
  have hmapped : (neighbour? units (digitCount units - 1 - 16)).map
      (gridPoint · (digitCount units - 1 - 16)) =
        some (gridPoint last (digitCount units - 1 - 16)) := by
    rw [hlast, Option.map_some]
  obtain ⟨j, d, hj, hfound, hd, hbefore⟩ := exists_findSome?_range (f := fun k =>
    (neighbour? units (digitCount units - 1 - k)).map (gridPoint · (digitCount units - 1 - k)))
    (by decide : 16 < 17) hmapped
  obtain ⟨b, hb, rfl⟩ := Option.map_eq_some_iff.mp hd
  refine ⟨j, b, hj, hb, ?_, fun k hk => Option.map_eq_none_iff.mp (hbefore k hk)⟩
  have hsearch : (places (Nat.toDigits 10 (units * decimalUnits)).length).findSome? (fun place =>
      (neighbour? units place).map fun coefficient => (⟨coefficient, place - 1074⟩ : Decimal)) =
      some (gridPoint b (digitCount units - 1 - j)) := by
    rw [places, List.findSome?_map]
    exact hfound
  unfold shortest
  rw [if_neg hunits]
  dsimp only
  rw [hsearch, Option.getD_some]

/-- A point of a grid that is found is one of the two neighbours. -/
theorem eq_below_or_of_neighbour? {c : Nat} (h : neighbour? units place = some c) :
    c = below units place ∨ c = below units place + 1 := by
  obtain ⟨-, rfl | ⟨-, -, hc⟩⟩ := neighbour?_eq_some_iff.mp h
  · exact nearest_eq_or units place
  · exact hc

/-- A point of a grid that is found has no more digits than the grid leaves. -/
theorem length_digits_gridPoint_le (hunits : units ≠ 0) {j b : Nat} (hj : j < 17)
    (h : neighbour? units (digitCount units - 1 - j) = some b) :
    (gridPoint b (digitCount units - 1 - j)).digits.length ≤ j + 1 := by
  obtain ⟨hlength, -, hhigh⟩ := digitCount_bounds hunits
  have hne := coefficient_ne_zero_of_isNearest hunits
    (readsBack_iff.mp (neighbour?_eq_some_iff.mp h).1)
  have hbelow : below units (digitCount units - 1 - j) < 10 ^ (j + 1) := by
    have hpower : 10 ^ (j + 1) * Nat.pow 10 (digitCount units - 1 - j) = 10 ^ digitCount units := by
      rw [Nat.pow_eq, ← Nat.pow_add]
      congr 1
      omega
    have hstep : 0 < Nat.pow 10 (digitCount units - 1 - j) := Nat.pow_pos (by decide)
    rw [below, Nat.div_lt_iff_lt_mul hstep, hpower]
    exact hhigh
  have hcases := eq_below_or_of_neighbour? h
  refine Decimal.length_digits_le hne (by omega) ?_
  change b ≤ 10 ^ (j + 1)
  omega

/-- What makes a decimal the shortest of a magnitude. -/
structure IsShortest (d : Decimal) (units : Nat) : Prop where
  /-- It is not zero. -/
  ne_zero : d.coefficient ≠ 0
  /-- It is rounded to the magnitude. -/
  rounded : IsNearest (d.toRat * one) units
  /-- No decimal with fewer digits is rounded to it. -/
  shortest : ∀ other : Decimal, IsNearest (other.toRat * one) units →
    d.digits.length ≤ other.digits.length
  /-- No decimal with equally many that is rounded to it is nearer. -/
  closest : ∀ other : Decimal, IsNearest (other.toRat * one) units →
    other.digits.length = d.digits.length →
      |d.toRat * one - units| ≤ |other.toRat * one - units|

/-- Distances in units of 10^-1074 are distances in units of 2^-1074. -/
theorem abs_toRat_mul_one_sub (x : ℚ) (units : Nat) :
    |x * one - units| = distance units (x * decimalScale) / decimalUnits := by
  have hpos : (0 : ℚ) < decimalUnits := Nat.cast_pos.mpr decimalUnits_pos
  rw [mul_one_eq, distance, ← abs_of_pos hpos, ← abs_div, abs_of_pos hpos, sub_div, Nat.cast_mul,
    mul_div_cancel_right₀ _ hpos.ne']

/-- The search finds the shortest decimal of every magnitude other than zero. -/
theorem isShortest_shortest (hunits : units ≠ 0) (hprecise : Precise units) :
    IsShortest (shortest units) units := by
  obtain ⟨hlength, -, -⟩ := digitCount_bounds hunits
  obtain ⟨j, b, hj, hb, heq, hbefore⟩ := exists_shortest_eq hunits hprecise
  have hrounded := readsBack_iff.mp (neighbour?_eq_some_iff.mp hb).1
  have hdigits := length_digits_gridPoint_le hunits hj hb
  -- A decimal with that many digits or fewer has a neighbour on its own grid.
  have hsearch : ∀ other : Decimal, IsNearest (other.toRat * one) units →
      other.digits.length ≤ j + 1 → other.digits.length = j + 1 ∧
        distance units (b * Nat.pow 10 (digitCount units - 1 - j) : Nat) ≤
          distance units (other.toRat * decimalScale) := by
    intro other hother hle
    have hne := coefficient_ne_zero_of_isNearest hunits hother
    have hcount : 0 < other.digits.length := List.length_pos_of_ne_nil other.digits_ne_nil
    obtain ⟨c, hc, hclose⟩ := exists_neighbour? hunits hne (by omega) hother
    obtain ⟨k, hk⟩ : ∃ k, other.digits.length = k + 1 := ⟨other.digits.length - 1, by omega⟩
    have hgrid : digitCount units - other.digits.length = digitCount units - 1 - k := by omega
    rw [hgrid] at hc hclose
    have hkj : k = j := by
      by_contra hkj
      rw [hbefore k (by omega)] at hc
      cases hc
    subst hkj
    rw [hb] at hc
    obtain rfl := Option.some.inj hc
    exact ⟨hk, hclose⟩
  rw [heq]
  have hexactly := (hsearch _ hrounded hdigits).1
  refine ⟨coefficient_ne_zero_of_isNearest hunits hrounded, hrounded, ?_, ?_⟩
  · intro other hother
    by_contra! hfewer
    have hsame := (hsearch other hother (by omega)).1
    omega
  · intro other hother hcount
    obtain ⟨-, hclose⟩ := hsearch other hother (by omega)
    have hpos : (0 : ℚ) < decimalUnits := Nat.cast_pos.mpr decimalUnits_pos
    rw [abs_toRat_mul_one_sub, abs_toRat_mul_one_sub, toRat_gridPoint,
      div_le_div_iff_of_pos_right hpos]
    exact hclose

end LoginService.Binary64
