import LoginService.Binary64.Scale
import LoginService.Proofs.Binary64.Rounding

/-!
# The error of scaling

A significand of 64 bits is scaled by a power of ten in at most four roundings that matter: its own,
those of one or two powers of ten, and those of the products or quotients. After two divisions by
`10 ^ 308` nothing is left of it. Only a product can be too large, and then the exact one nearly is.
-/

namespace LoginService.Binary64

/-- How a power of two compares with one. -/
theorem unitsOfPower_eq (exponent : Nat) : unitsOfPower exponent = 2 ^ exponent * one := by
  rw [one, unitsOfPower, unitsOfPower, Nat.zero_add]
  generalize 1074 = units
  exact Nat.pow_add 2 exponent units

/-- The same comparison of rational numbers. -/
theorem cast_unitsOfPower_eq (exponent : Nat) :
    (unitsOfPower exponent : ℚ) = 2 ^ exponent * one := by
  rw [cast_unitsOfPower, cast_one, pow_add]

/-- The greatest power of ten is between one third and two thirds of 2^1024. -/
theorem greatestPower_bounds :
    2 ^ 1024 ≤ 3 * 10 ^ greatestPower ∧ 3 * 10 ^ greatestPower ≤ 2 * 2 ^ 1024 := by
  have hpowers : ∀ a b : Nat, b * 5 ≤ a * 6 → a * 8 ≤ b * 7 →
      b ^ 4 ≤ 3 * a ^ 4 ∧ 3 * a ^ 4 ≤ 2 * b ^ 4 := by
    intro a b hlow hhigh
    have hlowPower := Nat.pow_le_pow_left hlow 4
    have hhighPower := Nat.pow_le_pow_left hhigh 4
    rw [Nat.mul_pow, Nat.mul_pow] at hlowPower hhighPower
    omega
  -- The fourth roots are small enough to be compared.
  have hroots : ∀ n m, n = 77 * 4 → m = 256 * 4 →
      2 ^ m ≤ 3 * 10 ^ n ∧ 3 * 10 ^ n ≤ 2 * 2 ^ m := by
    intro n m hn hm
    rw [hn, hm, Nat.pow_mul, Nat.pow_mul]
    exact hpowers _ _ (by decide) (by decide)
  exact hroots greatestPower 1024 rfl rfl

/-- A power of ten up to `10 ^ 308` has a double near it. -/
theorem power_near {n : Nat} (hn : n ≤ greatestPower) :
    ∃ p, ofNat? (Nat.pow 10 n) = some p ∧ p.negative = false ∧
      Near roundoff 0 p.units (10 ^ n * one) := by
  have hgreatest := greatestPower_bounds.2
  have hpower : 10 ^ n ≤ 10 ^ greatestPower := Nat.pow_le_pow_right (by decide) hn
  have hle : 3 * (10 ^ n * one) ≤ 2 * limit := by
    rw [limit, unitsOfPower_eq, ← Nat.mul_assoc, ← Nat.mul_assoc]
    exact Nat.mul_le_mul_right one (by omega)
  obtain ⟨p, hp, hsign, hnear⟩ := ofNat?_near hle
  refine ⟨p, hp, hsign, ?_⟩
  rwa [Nat.cast_pow, Nat.cast_ofNat] at hnear

variable {a : Binary64} {n : Nat}

/-- A double can be divided by a power of ten up to `10 ^ 308`, with two roundings. -/
theorem exists_div?_power (a : Binary64) (hpos : 0 < n) (hn : n ≤ greatestPower) :
    ∃ b, (ofNat? (Nat.pow 10 n)).bind (a.div? ·) = some b ∧ b.negative = a.negative ∧
      Near (9 / 4 * roundoff) (1 / 2) b.units (a.units / 10 ^ n) := by
  obtain ⟨p, hp, hsign, hpower⟩ := power_near hn
  have hround := roundoff_pos
  have hsmall := thousand_roundoff_le
  have hten : (10 : ℚ) ≤ 10 ^ n := le_self_pow₀ (by norm_num) (by omega)
  have hexact : (0 : ℚ) < 10 ^ n * one := mul_pos (by linarith) one_pos
  have hdivisor : 0 < p.units := by
    have hpositive : (0 : ℚ) < p.units := by
      have hscaled := mul_le_mul_of_nonneg_right hsmall hexact.le
      have hge := hpower.ge
      linarith
    exact_mod_cast hpositive
  -- The rounded power takes the place of the exact one.
  have hquotient : Near (9 / 8 * roundoff) 0 (a.units * one / p.units) (a.units / 10 ^ n) := by
    have hreplaced := hpower.div_left hround.le (by linarith) hexact
      (mul_nonneg (Nat.cast_nonneg a.units) one_pos.le)
    rwa [mul_div_mul_right _ _ one_pos.ne'] at hreplaced
  have hunits : (0 : ℚ) ≤ a.units / 10 ^ n := by positivity
  have hrounded : Rounded (a.div? p) a.negative (9 / 4 * roundoff) (1 / 2) (a.units / 10 ^ n) := by
    have hdivided := (a.rounded_div? hdivisor).trans hquotient hround.le
    rw [hsign, Bool.bne_false] at hdivided
    exact hdivided.mono (by nlinarith) (by linarith) hunits
  rw [hp, Option.bind_some]
  refine hrounded.exists_near ?_
  have hlimit : (2 : ℚ) ^ 52 ≤ limit := le_unitsOfPower 1024 (by decide)
  have hfinite : (a.units : ℚ) < limit := Nat.cast_lt.mpr a.finite
  have htenth : (a.units : ℚ) / 10 ^ n ≤ a.units / 10 :=
    div_le_div_of_nonneg_left (Nat.cast_nonneg _) (by norm_num) hten
  have hscaled := mul_le_mul_of_nonneg_right hsmall hunits
  linarith

/-- An exponent up to 308 takes one division. -/
theorem shrink?_of_le (hn : n ≤ greatestPower) :
    a.shrink? n = (ofNat? (Nat.pow 10 n)).bind (a.div? ·) := by
  rw [shrink?, if_pos hn]
  rfl

/-- A larger exponent takes a division by `10 ^ 308`, and further ones. -/
theorem shrink?_of_lt (hn : greatestPower < n) (ha : a.units ≠ 0) :
    a.shrink? n = ((ofNat? (Nat.pow 10 greatestPower)).bind (a.div? ·)).bind
      (·.shrink? (n - greatestPower)) := by
  rw [shrink?, if_neg (Nat.not_le.mpr hn), if_neg ha, Option.bind_assoc]
  rfl

/-- A double can be divided by a power of ten up to `10 ^ 308`, with two roundings. -/
theorem shrink?_near_of_le (a : Binary64) (hpos : 0 < n) (hn : n ≤ greatestPower) :
    ∃ b, a.shrink? n = some b ∧ b.negative = a.negative ∧
      Near (9 / 4 * roundoff) (1 / 2) b.units (a.units / 10 ^ n) := by
  rw [shrink?_of_le hn]
  exact exists_div?_power a hpos hn

/-- A magnitude near a number well below one is zero. -/
theorem units_eq_zero_of_near {ε η y : ℚ} {units : Nat} (h : Near ε η units y)
    (hsmall : (1 + ε) * y + η < 1) : units = 0 := by
  have hlt : (units : ℚ) < 1 := h.le.trans_lt hsmall
  have hnat : units < 1 := by exact_mod_cast hlt
  omega

/-- A double is its sign and its magnitude. -/
theorem eq_of_units_eq {b : Binary64} (hsign : b.negative = a.negative)
    (hunits : b.units = a.units) : b = a := by
  obtain ⟨negative, units, hprecise, hfinite⟩ := a
  obtain rfl : b.negative = negative := hsign
  obtain rfl : b.units = units := hunits
  rfl

/-- There is one zero of each sign. -/
theorem eq_of_units_eq_zero {b : Binary64} (hsign : b.negative = a.negative) (hb : b.units = 0)
    (ha : a.units = 0) : b = a :=
  eq_of_units_eq hsign (hb.trans ha.symm)

/-- Division leaves zero as it is. -/
theorem shrink?_of_zero (ha : a.units = 0) (hpos : 0 < n) : a.shrink? n = some a := by
  by_cases hn : n ≤ greatestPower
  · obtain ⟨b, hb, hsign, hnear⟩ := shrink?_near_of_le a hpos hn
    have hzero : b.units = 0 := by
      refine units_eq_zero_of_near hnear ?_
      rw [ha, Nat.cast_zero, zero_div]
      norm_num
    rw [hb, eq_of_units_eq_zero hsign hzero ha]
  · rw [shrink?, if_neg hn, if_pos ha]

/-- One step of the division by a larger power of ten: what is left is near the quotient by
`10 ^ 308`, and is divided by the rest of the power. -/
theorem shrink?_step (a : Binary64) (hpos : 0 < n) :
    ∃ b : Binary64, a.shrink? (greatestPower + n) = b.shrink? n ∧ b.negative = a.negative ∧
      Near (9 / 4 * roundoff) (1 / 2) b.units (a.units / 10 ^ greatestPower) := by
  by_cases hzero : a.units = 0
  · refine ⟨a, ?_, rfl, ?_⟩
    · rw [shrink?_of_zero hzero hpos, shrink?_of_zero hzero (by omega)]
    · rw [hzero, Nat.cast_zero, zero_div]
      exact Near.refl (by linarith [roundoff_pos]) (by norm_num) le_rfl
  · have hgreatest : 0 < greatestPower := by decide
    obtain ⟨b, hb, hsign, hnear⟩ := exists_div?_power a hgreatest (Nat.le_refl greatestPower)
    refine ⟨b, ?_, hsign, hnear⟩
    rw [shrink?_of_lt (Nat.lt_add_of_pos_right hpos) hzero, hb, Option.bind_some,
      Nat.add_sub_cancel_left]

/-- A double can be divided by a power of ten beyond `10 ^ 308`, with four roundings. -/
theorem shrink?_near_twice (a : Binary64) (hpos : 0 < n) (hn : n ≤ greatestPower) :
    ∃ b, a.shrink? (greatestPower + n) = some b ∧ b.negative = a.negative ∧
      Near (5 * roundoff) (3 / 4) b.units (a.units / 10 ^ (greatestPower + n)) := by
  obtain ⟨b, hstep, hsign, hnear⟩ := shrink?_step a hpos
  obtain ⟨c, hc, hcsign, hcnear⟩ := shrink?_near_of_le b hpos hn
  refine ⟨c, hstep.trans hc, hcsign.trans hsign, ?_⟩
  have hround := roundoff_pos
  have hsquare := mul_le_mul_of_nonneg_left thousand_roundoff_le hround.le
  -- The second division makes the absolute error of the first one small.
  have hhalf : (1 / 2 : ℚ) / 10 ^ n ≤ 1 / 20 := by
    have hten : (10 : ℚ) ≤ 10 ^ n := le_self_pow₀ (by norm_num) (by omega)
    rw [div_le_iff₀ (by positivity)]
    linarith
  have hpower : (0 : ℚ) < 10 ^ n := by positivity
  have hsplit : (a.units : ℚ) / 10 ^ greatestPower / 10 ^ n =
      a.units / 10 ^ (greatestPower + n) := by
    rw [div_div, ← pow_add]
  have hscaled := hnear.div hpower
  rw [hsplit] at hscaled
  have hkept : (1 + 9 / 4 * roundoff) * ((1 / 2 : ℚ) / 10 ^ n) ≤
      (1 + 9 / 4 * roundoff) * (1 / 20) :=
    mul_le_mul_of_nonneg_left hhalf (by linarith)
  refine (hcnear.trans hscaled (by linarith)).mono ?_ ?_ (by positivity)
  · linarith
  · linarith [thousand_roundoff_le]

/-- A power of two compares with a power of ten as their roots do. -/
theorem pow_le_pow_ten {k m root : Nat} (hk : k ≤ 228 * root) (hm : 69 * root ≤ m) :
    2 ^ k ≤ 10 ^ m := by
  have hroot : 2 ^ 228 ≤ 10 ^ 69 := by decide
  calc
    2 ^ k ≤ 2 ^ (228 * root) := Nat.pow_le_pow_right (by decide) hk
    _ = (2 ^ 228) ^ root := Nat.pow_mul 2 228 root
    _ ≤ (10 ^ 69) ^ root := Nat.pow_le_pow_left hroot root
    _ = 10 ^ (69 * root) := (Nat.pow_mul 10 69 root).symm
    _ ≤ 10 ^ m := Nat.pow_le_pow_right (by decide) hm

/-- The units of a power of two compare with a power of ten in the same way. -/
theorem unitsOfPower_le_pow_ten {exponent m root : Nat} (hexponent : exponent + 1074 ≤ 228 * root)
    (hm : 69 * root ≤ m) : unitsOfPower exponent ≤ 10 ^ m := by
  rw [unitsOfPower, Nat.pow_eq]
  exact pow_le_pow_ten hexponent hm

/-- A significand of 64 bits, divided by `10 ^ 308`, is a number of units of few digits. -/
theorem significand_div_le (ha : (a.units : ℚ) ≤ 2 ^ 65 * one) :
    (a.units : ℚ) / 10 ^ greatestPower ≤ 10 ^ 37 := by
  have hnat : 2 ^ 65 * one ≤ 10 ^ 37 * 10 ^ greatestPower := by
    have hpower : 69 * 5 ≤ 37 + greatestPower := by decide
    rw [← unitsOfPower_eq, ← Nat.pow_add]
    exact unitsOfPower_le_pow_ten (by decide) hpower
  have hcast : (2 : ℚ) ^ 65 * one ≤ 10 ^ 37 * 10 ^ greatestPower := by exact_mod_cast hnat
  rw [div_le_iff₀ (by positivity)]
  exact ha.trans hcast

/-- What a large power of ten leaves of few digits is next to nothing. -/
theorem div_pow_le {y : ℚ} (hy : y ≤ 10 ^ 38) (hn : 40 ≤ n) : y / 10 ^ n ≤ 1 / 100 := by
  have hpow : (10 : ℚ) ^ 40 ≤ 10 ^ n := pow_le_pow_right₀ (by norm_num) hn
  rw [div_le_iff₀ (by positivity)]
  have hforty : (10 : ℚ) ^ 40 = 100 * 10 ^ 38 := by norm_num
  linarith

/-- Two divisions by `10 ^ 308` leave nothing of a significand of 64 bits. -/
theorem shrink?_vanishes (ha : (a.units : ℚ) ≤ 2 ^ 65 * one) (hn : greatestPower < n) :
    ∃ b, a.shrink? (greatestPower + n) = some b ∧ b.negative = a.negative ∧ b.units = 0 := by
  obtain ⟨rest, rfl⟩ : ∃ rest, n = greatestPower + rest := ⟨n - greatestPower, by omega⟩
  have hrest : 0 < rest := by omega
  have hround := roundoff_pos
  have hsmall := thousand_roundoff_le
  obtain ⟨b, hb, hbsign, hbnear⟩ := shrink?_step a (Nat.zero_lt_of_lt hn)
  obtain ⟨c, hc, hcsign, hcnear⟩ := shrink?_step b hrest
  have hfew : (b.units : ℚ) ≤ 10 ^ 38 := by
    have hquotient := significand_div_le ha
    have hle := hbnear.le
    nlinarith
  have htiny : (b.units : ℚ) / 10 ^ greatestPower ≤ 1 / 100 := div_pow_le hfew (by decide)
  have hzero : c.units = 0 := units_eq_zero_of_near hcnear (by nlinarith)
  exact ⟨c, (hb.trans hc).trans (shrink?_of_zero hzero hrest), hcsign.trans hbsign, hzero⟩

/-- A significand of 64 bits can be divided by any power of ten, with at most four roundings that
matter. -/
theorem shrink?_near (ha : (a.units : ℚ) ≤ 2 ^ 65 * one) (hpos : 0 < n) :
    ∃ b, a.shrink? n = some b ∧ b.negative = a.negative ∧
      Near (5 * roundoff) (3 / 4) b.units (a.units / 10 ^ n) := by
  have hexact : (0 : ℚ) ≤ a.units / 10 ^ n := by positivity
  have hround := roundoff_pos
  by_cases hn : n ≤ greatestPower
  · obtain ⟨b, hb, hsign, hnear⟩ := shrink?_near_of_le a hpos hn
    exact ⟨b, hb, hsign, hnear.mono (by linarith) (by norm_num) hexact⟩
  obtain ⟨rest, rfl⟩ : ∃ rest, n = greatestPower + rest := ⟨n - greatestPower, by omega⟩
  by_cases hrest : rest ≤ greatestPower
  · exact shrink?_near_twice a (by omega) hrest
  · obtain ⟨b, hb, hsign, hzero⟩ := shrink?_vanishes ha (Nat.not_le.mp hrest)
    refine ⟨b, hb, hsign, ?_⟩
    have hlarge : 40 ≤ rest := Nat.le_trans (by decide) (Nat.not_le.mp hrest)
    have htiny : (a.units : ℚ) / 10 ^ (greatestPower + rest) ≤ 1 / 100 := by
      rw [pow_add, ← div_div]
      exact div_pow_le ((significand_div_le ha).trans (by norm_num)) hlarge
    rw [hzero, Nat.cast_zero, Near, zero_sub, abs_neg, abs_of_nonneg hexact]
    nlinarith

/-- The next power of ten is above 2^1024, also when it scales one half. -/
theorem limit_le_mul_pow (ha : one ≤ 2 * a.units) (hn : greatestPower < n) :
    limit ≤ a.units * 10 ^ n := by
  have hgreatest := greatestPower_bounds.1
  have hnext : 10 ^ greatestPower * 10 ≤ 10 ^ n := by
    rw [← Nat.pow_succ]
    exact Nat.pow_le_pow_right (by decide) hn
  rw [limit, unitsOfPower_eq]
  calc
    2 ^ 1024 * one ≤ 3 * 10 ^ greatestPower * (2 * a.units) := Nat.mul_le_mul hgreatest ha
    _ = a.units * (6 * 10 ^ greatestPower) := by ring
    _ ≤ a.units * 10 ^ n := Nat.mul_le_mul_left a.units (by omega)

/-- A product with a power of ten up to `10 ^ 308` takes two roundings. -/
theorem rounded_grow?_of_le (a : Binary64) (hn : n ≤ greatestPower) :
    Rounded (a.grow? n) a.negative (9 / 4 * roundoff) (1 / 2) (a.units * 10 ^ n) := by
  obtain ⟨p, hp, hsign, hpower⟩ := power_near hn
  have hround := roundoff_pos
  have hsquare := mul_le_mul_of_nonneg_left thousand_roundoff_le hround.le
  have hgrow : a.grow? n = a.mul? p := by
    simp only [grow?, if_pos hn, hp, Option.bind_eq_bind, Option.bind_some]
  -- The rounded power takes the place of the exact one.
  have hproduct : Near roundoff 0 (a.units * p.units / one) (a.units * 10 ^ n) := by
    have hscaled := hpower.mul (div_nonneg (Nat.cast_nonneg a.units) one_pos.le)
    have hone := one_pos.ne'
    have hfactor : (p.units : ℚ) * (a.units / one) = a.units * p.units / one := by ring
    have hpowers : (10 : ℚ) ^ n * one * (a.units / one) = a.units * 10 ^ n := by
      field_simp
    rwa [zero_mul, hfactor, hpowers] at hscaled
  have hmultiplied := (a.rounded_mul? p).trans hproduct hround.le
  rw [hsign, Bool.bne_false] at hmultiplied
  rw [hgrow]
  exact hmultiplied.mono (by linarith) (by linarith) (by positivity)

/-- A significand that is zero or not small is multiplied by any power of ten with two roundings. -/
theorem rounded_grow? (ha : a.units = 0 ∨ one ≤ 2 * a.units) (n : Nat) :
    Rounded (a.grow? n) a.negative (9 / 4 * roundoff) (1 / 2) (a.units * 10 ^ n) := by
  have hround := roundoff_pos
  by_cases hn : n ≤ greatestPower
  · exact rounded_grow?_of_le a hn
  · by_cases hzero : a.units = 0
    · have hkept : a.grow? n = some a := by rw [grow?, if_neg hn, if_pos hzero]
      refine .near hkept rfl ?_
      rw [hzero, Nat.cast_zero, zero_mul]
      exact Near.refl (by linarith) (by norm_num) le_rfl
    · have hnone : a.grow? n = none := by rw [grow?, if_neg hn, if_neg hzero]
      have hnat := limit_le_mul_pow (ha.resolve_left hzero) (Nat.not_le.mp hn)
      have hle : (limit : ℚ) ≤ a.units * 10 ^ n := by exact_mod_cast hnat
      have herrors : (0 : ℚ) ≤ 9 / 4 * roundoff * (a.units * 10 ^ n) + 1 / 2 := by positivity
      exact .tooLarge hnone (hle.trans (by linarith))

/-- A double that is near a significand of 64 bits. -/
structure OfSignificand (m : Nat) (a : Binary64) : Prop where
  /-- It has no sign. -/
  positive : a.negative = false
  /-- It was rounded once. -/
  near : Near roundoff 0 a.units (m * one)
  /-- It has hardly more than 64 bits. -/
  bits : (a.units : ℚ) ≤ 2 ^ 65 * one
  /-- It is not small, unless the significand is zero. -/
  zero_or_large : m = 0 ∧ a.units = 0 ∨ m ≠ 0 ∧ one ≤ 2 * a.units

/-- A significand of 64 bits is well below 2^1024. -/
theorem significand_le_limit {m : Nat} (hm : m < 2 ^ 64) : 3 * (m * one) ≤ 2 * limit := by
  have hbits : 3 * m ≤ 2 ^ 66 := by omega
  have hlimit : unitsOfPower 66 < limit := unitsOfPower_lt (show 66 < 1024 by decide)
  calc
    3 * (m * one) = 3 * m * one := (Nat.mul_assoc 3 m one).symm
    _ ≤ 2 ^ 66 * one := Nat.mul_le_mul_right one hbits
    _ = unitsOfPower 66 := (unitsOfPower_eq 66).symm
    _ ≤ 2 * limit := by omega

/-- A significand of 64 bits has a double near it. -/
theorem exists_ofSignificand {m : Nat} (hm : m < 2 ^ 64) :
    ∃ a, ofNat? m = some a ∧ OfSignificand m a := by
  obtain ⟨a, ha, hsign, hnear⟩ := ofNat?_near (significand_le_limit hm)
  have hmq : (m : ℚ) ≤ 2 ^ 64 := by exact_mod_cast hm.le
  have hexact : (0 : ℚ) ≤ m * one := mul_nonneg (Nat.cast_nonneg m) one_pos.le
  have hscaled := mul_le_mul_of_nonneg_right thousand_roundoff_le hexact
  refine ⟨a, ha, hsign, hnear, ?_, ?_⟩
  · have hbound : (m : ℚ) * one ≤ 2 ^ 64 * one := mul_le_mul_of_nonneg_right hmq one_pos.le
    have hrounded := hnear.le
    linarith
  · cases m with
    | zero =>
      refine .inl ⟨rfl, units_eq_zero_of_near hnear ?_⟩
      rw [Nat.cast_zero, zero_mul, mul_zero]
      norm_num
    | succ m =>
      refine .inr ⟨m.succ_ne_zero, ?_⟩
      have hone : (one : ℚ) ≤ ((m + 1 : Nat) : ℚ) * one := by
        have hfactor : (1 : ℚ) ≤ ((m + 1 : Nat) : ℚ) := by exact_mod_cast m.succ_pos
        exact le_mul_of_one_le_left one_pos.le hfactor
      have hrounded := hnear.ge
      have hle : (one : ℚ) ≤ 2 * a.units := by linarith
      exact_mod_cast hle

namespace OfSignificand

variable {m : Nat}

/-- It is zero if and only if the significand is. -/
theorem units_eq_zero_iff (h : OfSignificand m a) : a.units = 0 ↔ m = 0 := by
  have hone : 0 < one := unitsOfPower_pos 0
  rcases h.zero_or_large with ⟨hm, ha⟩ | ⟨hm, ha⟩ <;> omega

/-- It is scaled by a power of ten with at most four more roundings that matter. -/
theorem rounded_scale? (h : OfSignificand m a) (exponent : Int) :
    Rounded (a.scale? exponent) false (13 / 2 * roundoff) (3 / 4) (m * 10 ^ exponent * one) := by
  have hround := roundoff_pos
  have hsquare := mul_le_mul_of_nonneg_left thousand_roundoff_le hround.le
  have hpower : (0 : ℚ) < 10 ^ exponent := zpow_pos (by norm_num) exponent
  have hexact : (0 : ℚ) ≤ m * 10 ^ exponent * one :=
    mul_nonneg (mul_nonneg (Nat.cast_nonneg m) hpower.le) one_pos.le
  have hscaled : Near roundoff 0 (a.units * 10 ^ exponent) (m * 10 ^ exponent * one) := by
    have hmul := h.near.mul hpower.le
    rwa [zero_mul, mul_right_comm] at hmul
  generalize (m : ℚ) * 10 ^ exponent * one = y at *
  unfold scale?
  split
  · next hpositive =>
    obtain ⟨n, rfl⟩ := Int.eq_ofNat_of_zero_le hpositive
    rw [zpow_natCast] at hscaled
    have hgrown := rounded_grow? (h.zero_or_large.imp And.right And.right) n
    rw [h.positive] at hgrown
    exact (hgrown.trans hscaled (by linarith)).mono (by linarith) (by linarith) hexact
  · next hnegative =>
    obtain ⟨n, rfl⟩ : ∃ n : Nat, exponent = -n := ⟨exponent.natAbs, by omega⟩
    rw [zpow_neg, zpow_natCast, ← div_eq_mul_inv] at hscaled
    obtain ⟨b, hb, hsign, hnear⟩ := shrink?_near h.bits (n := n) (by omega)
    have hresult : a.shrink? (-(n : Int)).natAbs = some b := by
      rw [Int.natAbs_neg, Int.natAbs_natCast, hb]
    refine .near hresult (hsign.trans h.positive) ?_
    exact (hnear.trans hscaled (by linarith)).mono (by linarith) (by linarith) hexact

/-- A large exponent leaves zero as it is, and there is no double for anything else. -/
theorem scale?_of_large (h : OfSignificand m a) {exponent : Int}
    (hexponent : greatestPower < exponent) :
    a.scale? exponent = if m = 0 then some zero else none := by
  have hpositive : 0 ≤ exponent := by omega
  have hlarge : ¬exponent.toNat ≤ greatestPower := by omega
  rw [scale?, if_pos hpositive, grow?, if_neg hlarge]
  by_cases hm : m = 0
  · have hunits := h.units_eq_zero_iff.mpr hm
    have ha : a = zero := eq_of_units_eq_zero h.positive hunits rfl
    rw [if_pos hunits, if_pos hm, ha]
  · rw [if_neg (mt h.units_eq_zero_iff.mp hm), if_neg hm]

/-- A small exponent leaves nothing. -/
theorem scale?_of_small (h : OfSignificand m a) {exponent : Int}
    (hexponent : exponent < -greatestPower - greatestPower) : a.scale? exponent = some zero := by
  obtain ⟨n, hn⟩ : ∃ n : Nat, exponent = -(greatestPower + n : Nat) :=
    ⟨exponent.natAbs - greatestPower, by omega⟩
  have hnegative : ¬0 ≤ exponent := by omega
  have hlarge : greatestPower < n := by omega
  obtain ⟨b, hb, hsign, hzero⟩ := shrink?_vanishes h.bits hlarge
  rw [scale?, if_neg hnegative, hn, Int.natAbs_neg, Int.natAbs_natCast, hb]
  have heq : b = zero := eq_of_units_eq_zero (hsign.trans h.positive) hzero rfl
  rw [heq]

end OfSignificand

end LoginService.Binary64
