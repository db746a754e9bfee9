import LoginService.Proofs.Binary64.Exact

/-!
# The greatest double

The shortest decimal of the greatest double has seventeen digits, and no shortest decimal of another
one is larger. Reading it back multiplies two rounded factors, so it is not clear that the product
stays finite, and this is computed, for its leading digits alone as well. Rounding is monotone, so
the same is true of every smaller decimal with as large a last place.
-/

namespace LoginService.Binary64

/-- The greatest magnitude of a double. -/
def greatest : Nat := (2 ^ 53 - 1) * unitsOfPower 971

/-- The limit is one step above the greatest magnitude. -/
theorem limit_eq : limit = 2 ^ 53 * unitsOfPower 971 := by
  rw [limit, unitsOfPower_eq, unitsOfPower_eq 971, ← Nat.mul_assoc, ← Nat.pow_add]

/-- The greatest magnitude has 53 significant bits. -/
theorem precise_greatest : Precise greatest := by
  rw [greatest, unitsOfPower_eq, ← Nat.mul_assoc]
  exact precise_mul_one (by decide) 971

/-- No double has a greater magnitude. -/
theorem le_greatest {units : Nat} (hprecise : Precise units) (hfinite : units < limit) :
    units ≤ greatest := by
  by_contra! hlt
  have hstep := precise_greatest.le_mul_sub hprecise hlt
  rw [limit_eq] at hfinite
  rw [greatest] at hstep
  omega

/-- The shortest decimal of the greatest double. -/
def greatestDecimal : Decimal := ⟨17976931348623157, 292⟩

/-- It is what the search for a shortest decimal finds. -/
theorem toRat_shortest_greatest : (shortest greatest).toRat = greatestDecimal.toRat := by
  have hfound : (shortest greatest).coefficient = 17976931348623157 ∧
      (shortest greatest).exponent = 292 := by
    decide +kernel
  rw [Decimal.toRat, hfound.1, hfound.2]
  rfl

/-- No double has a larger shortest decimal. -/
theorem toRat_shortest_le {units : Nat} (hunits : units ≠ 0) (hprecise : Precise units)
    (hfinite : units < limit) : (shortest units).toRat ≤ greatestDecimal.toRat := by
  have hpositive : greatest ≠ 0 :=
    Nat.mul_ne_zero (by decide) (unitsOfPower_pos 971).ne'
  have hgreatest := (isShortest_shortest hpositive precise_greatest).rounded
  have hrounded := (isShortest_shortest hunits hprecise).rounded
  by_contra! hlt
  have hle : units = greatest := by
    refine Nat.le_antisymm (le_greatest hprecise hfinite) (hgreatest.mono hrounded ?_)
    rw [toRat_shortest_greatest]
    exact mul_le_mul_of_nonneg_right hlt.le one_pos.le
  rw [hle, toRat_shortest_greatest] at hlt
  exact lt_irrefl _ hlt

/-- A smaller number is not rounded to a larger magnitude. -/
theorem roundUnits_le_roundUnits {num other den : Nat} (hden : 0 < den) (hle : num ≤ other) :
    roundUnits num den ≤ roundUnits other den := by
  refine (isNearest_roundUnits num hden).mono (isNearest_roundUnits other hden) ?_
  exact div_le_div_of_nonneg_right (Nat.cast_le.mpr hle) (Nat.cast_nonneg den)

/-- What is smaller than a number with a double near it has one as well, and a smaller one. -/
theorem exists_nearest?_of_le (negative : Bool) {sign : Bool} {num other den : Nat} {b : Binary64}
    (hden : 0 < den) (hle : num ≤ other) (h : nearest? sign other den = some b) :
    ∃ a, nearest? negative num den = some a ∧ a.units ≤ b.units := by
  obtain ⟨-, hunits⟩ := nearest?_eq_some_iff.mp h
  have hround := roundUnits_le_roundUnits hden hle
  rw [← hunits] at hround
  exact ⟨⟨negative, _, dvd_roundUnits num den, hround.trans_lt b.finite⟩,
    nearest?_eq_some_iff.mpr ⟨rfl, rfl⟩, hround⟩

/-- If a number times a power of ten is not too large, a smaller one is not either. -/
theorem isSome_grow?_of_le {m k exponent : Nat} (hle : m ≤ k) (hexponent : exponent ≤ greatestPower)
    (h : ((ofNat? k).bind (·.grow? exponent)).isSome) :
    ((ofNat? m).bind (·.grow? exponent)).isSome := by
  obtain ⟨d, hd⟩ := Option.isSome_iff_exists.mp h
  obtain ⟨b, hb, hgrow⟩ := Option.bind_eq_some_iff.mp hd
  obtain ⟨a, ha, hab⟩ : ∃ a, ofNat? m = some a ∧ a.units ≤ b.units :=
    exists_nearest?_of_le false Nat.one_pos (Nat.mul_le_mul_right one hle) hb
  rw [grow?, if_pos hexponent, Option.bind_eq_bind, Option.bind_eq_some_iff] at hgrow
  obtain ⟨power, hpower, hproduct⟩ := hgrow
  obtain ⟨c, hc, -⟩ : ∃ c, a.mul? power = some c ∧ c.units ≤ d.units :=
    exists_nearest?_of_le _ (unitsOfPower_pos 0) (Nat.mul_le_mul_right power.units hab) hproduct
  have hread : (ofNat? m).bind (·.grow? exponent) = some c := by
    rw [ha, Option.bind_some, grow?, if_pos hexponent, hpower, Option.bind_eq_bind,
      Option.bind_some, hc]
  rw [hread]
  rfl

/-- The leading digits of the greatest decimal are not too large with the place of the last of
them. -/
theorem isSome_grow?_greatest : ∀ dropped < 17,
    ((ofNat? (17976931348623157 / 10 ^ dropped)).bind (·.grow? (292 + dropped))).isSome := by
  decide +kernel

/-- A decimal with a large place that does not exceed the greatest one is not too large. -/
theorem isSome_scale?_of_le {d : Decimal} (hlow : 292 ≤ d.exponent) (hhigh : d.exponent ≤ 308)
    (hle : d.toRat ≤ greatestDecimal.toRat) :
    ((ofNat? d.coefficient).bind (·.scale? d.exponent)).isSome := by
  obtain ⟨coefficient, exponent⟩ := d
  obtain ⟨dropped, rfl⟩ : ∃ dropped : Nat, exponent = (292 + dropped : Nat) :=
    ⟨(exponent - 292).toNat, by dsimp only at hlow; omega⟩
  dsimp only at hlow hhigh ⊢
  -- With a larger place fewer of the greatest digits are left, and those bound the coefficient.
  have hcoefficient : coefficient ≤ 17976931348623157 / 10 ^ dropped := by
    rw [Nat.le_div_iff_mul_le (Nat.pow_pos (by decide))]
    have hplace : (0 : ℚ) < 10 ^ 292 := by positivity
    have hscaled : ((coefficient * 10 ^ dropped : Nat) : ℚ) * 10 ^ 292 ≤
        (17976931348623157 : Nat) * 10 ^ 292 := by
      rw [Decimal.toRat, Decimal.toRat, zpow_natCast, pow_add, mul_comm (10 ^ 292),
        ← mul_assoc] at hle
      rw [Nat.cast_mul, Nat.cast_pow, Nat.cast_ofNat]
      exact hle
    exact_mod_cast le_of_mul_le_mul_right hscaled hplace
  have hscale : ∀ a : Binary64, a.scale? (292 + dropped : Nat) = a.grow? (292 + dropped) := by
    intro a
    rw [scale?, if_pos (Int.natCast_nonneg _), Int.toNat_natCast]
  simp only [hscale]
  exact isSome_grow?_of_le hcoefficient (by rw [greatestPower]; omega)
    (isSome_grow?_greatest dropped (by omega))

end LoginService.Binary64
