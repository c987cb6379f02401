import Mathlib.Algebra.Order.Field.Power
import Mathlib.Algebra.Order.Field.Rat
import Mathlib.Tactic.Positivity
import Mathlib.Tactic.Ring
import Logo.Number

/-!
# Integers as floating-point numbers

Numbers are compared as floating-point numbers, so an integer is rounded first.  A floating-point
number has a mantissa of 53 digits: from 2 ^ 53 on, the integers that have one stand further and
further apart, and an integer between two of them goes to the nearer one.  `Number.nearest` says
this in whole numbers.

The conversion itself works on residual bits, by way of a product with a power of ten, and packs its
result into bits.  `isWhole_ofInt` says that for integers of 64 bits all this is `Number.nearest`;
with that, floats that come from integers are compared like their rounded values.
-/

namespace Logo

open Float.Model UnpackedFloat

/-! ## Rounding in whole numbers -/

namespace Number

/-- The whole number nearest to `a / b`, of two equally near ones the even one. -/
def nearestQuotient (a b : Nat) : Nat :=
  if 2 * (a % b) < b ∨ 2 * (a % b) = b ∧ a / b % 2 = 0 then a / b else a / b + 1

/-- How far apart floating-point numbers of the size of a natural number stand, at least one. -/
def spacing (n : Nat) : Nat :=
  2 ^ (n.log2 - 52)

/-- The floating-point number nearest to a natural number. -/
def nearestNat (n : Nat) : Nat :=
  nearestQuotient n (spacing n) * spacing n

/-- The floating-point number nearest to an integer. -/
def nearest (n : Int) : Int :=
  n.sign * nearestNat n.natAbs

section Quotients

variable {a b c : Nat}

theorem le_nearestQuotient (a b : Nat) : a / b ≤ nearestQuotient a b := by
  unfold nearestQuotient
  split <;> omega

theorem nearestQuotient_le (a b : Nat) : nearestQuotient a b ≤ a / b + 1 := by
  unfold nearestQuotient
  split <;> omega

/-- Rounding a quotient keeps the order. -/
theorem nearestQuotient_mono (h : a ≤ c) (b : Nat) : nearestQuotient a b ≤ nearestQuotient c b := by
  rcases Nat.lt_or_eq_of_le (Nat.div_le_div_right (c := b) h) with hlt | heq
  · have hfirst := nearestQuotient_le a b
    have hsecond := le_nearestQuotient c b
    omega
  · -- With the same whole part, the greater number leaves the greater rest.
    have hrest : a % b ≤ c % b := by
      have ha := Nat.div_add_mod a b
      have hc := Nat.div_add_mod c b
      rw [← heq] at hc
      omega
    unfold nearestQuotient
    rw [← heq]
    split <;> split <;> omega

/-- A common factor does not change the rounding. -/
theorem nearestQuotient_mul_right (hc : 0 < c) :
    nearestQuotient (a * c) (b * c) = nearestQuotient a b := by
  have hdiv : a * c / (b * c) = a / b := Nat.mul_div_mul_right a b hc
  have hmod : a * c % (b * c) = a % b * c := Nat.mul_mod_mul_right c a b
  have hlt : 2 * (a % b * c) < b * c ↔ 2 * (a % b) < b := by
    rw [← Nat.mul_assoc]
    exact Nat.mul_lt_mul_right hc
  have heq : 2 * (a % b * c) = b * c ↔ 2 * (a % b) = b := by
    rw [← Nat.mul_assoc]
    exact Nat.mul_left_inj (Nat.ne_of_gt hc)
  simp only [nearestQuotient, hdiv, hmod, hlt, heq]

theorem nearestQuotient_of_dvd (hb : 0 < b) (h : b ∣ a) : nearestQuotient a b = a / b := by
  unfold nearestQuotient
  rw [Nat.mod_eq_zero_of_dvd h, if_pos (.inl hb)]

end Quotients

section Naturals

variable {m n : Nat}

theorem spacing_pos (n : Nat) : 0 < spacing n :=
  Nat.two_pow_pos _

/-- The quotient by the spacing is a mantissa of full length, or the number itself. -/
theorem div_spacing_bounds (hn : n ≠ 0) :
    2 ^ (n.log2 - (n.log2 - 52)) ≤ n / spacing n ∧
      n / spacing n < 2 ^ (n.log2 - (n.log2 - 52) + 1) := by
  have hlow : n.log2 - (n.log2 - 52) + (n.log2 - 52) = n.log2 := by omega
  have hhigh : n.log2 - (n.log2 - 52) + 1 + (n.log2 - 52) = n.log2 + 1 := by omega
  rw [spacing, Nat.le_div_iff_mul_le (Nat.two_pow_pos _), Nat.div_lt_iff_lt_mul (Nat.two_pow_pos _),
    ← Nat.pow_add, ← Nat.pow_add, hlow, hhigh]
  exact ⟨Nat.log2_self_le hn, Nat.lt_log2_self⟩

/-- Rounding does not go beyond the powers of two on either side. -/
theorem nearestNat_bounds (hn : n ≠ 0) :
    2 ^ n.log2 ≤ nearestNat n ∧ nearestNat n ≤ 2 ^ (n.log2 + 1) := by
  obtain ⟨hlow, hhigh⟩ := div_spacing_bounds hn
  have hle := le_nearestQuotient n (spacing n)
  have hge := nearestQuotient_le n (spacing n)
  have hbelow : 2 ^ n.log2 = 2 ^ (n.log2 - (n.log2 - 52)) * spacing n := by
    rw [spacing, ← Nat.pow_add]
    congr 1
    omega
  have habove : 2 ^ (n.log2 + 1) = 2 ^ (n.log2 - (n.log2 - 52) + 1) * spacing n := by
    rw [spacing, ← Nat.pow_add]
    congr 1
    omega
  rw [nearestNat, hbelow, habove]
  exact ⟨Nat.mul_le_mul_right _ (hlow.trans hle), Nat.mul_le_mul_right _ (hge.trans hhigh)⟩

@[simp] theorem nearestNat_zero : nearestNat 0 = 0 := by
  decide

theorem nearestNat_mono (h : m ≤ n) : nearestNat m ≤ nearestNat n := by
  by_cases hm : m = 0
  · simp [hm]
  have hn : n ≠ 0 := by omega
  have hlog : m.log2 ≤ n.log2 := (Nat.le_log2 hn).2 ((Nat.log2_self_le hm).trans h)
  rcases Nat.lt_or_eq_of_le hlog with hlt | heq
  · calc nearestNat m ≤ 2 ^ (m.log2 + 1) := (nearestNat_bounds hm).2
      _ ≤ 2 ^ n.log2 := Nat.pow_le_pow_right (by decide) hlt
      _ ≤ nearestNat n := (nearestNat_bounds hn).1
  · have hspacing : spacing m = spacing n := by rw [spacing, spacing, heq]
    rw [nearestNat, nearestNat, hspacing]
    exact Nat.mul_le_mul_right _ (nearestQuotient_mono h _)

/-- Below 2 ^ 53 nothing is rounded. -/
theorem nearestNat_of_lt (h : n < 2 ^ 53) : nearestNat n = n := by
  have hlog : n.log2 < 53 := by
    rcases Nat.eq_zero_or_pos n with rfl | hn
    · decide
    · exact (Nat.log2_lt (Nat.ne_of_gt hn)).2 h
  have hspacing : spacing n = 1 := by
    rw [spacing, Nat.sub_eq_zero_of_le (by omega), Nat.pow_zero]
  rw [nearestNat, hspacing, nearestQuotient_of_dvd Nat.one_pos (Nat.one_dvd n), Nat.div_one,
    Nat.mul_one]

end Naturals

section Integers

variable {m n : Int}

theorem nearest_natCast (n : Nat) : nearest n = nearestNat n := by
  rcases Nat.eq_zero_or_pos n with rfl | hn
  · rfl
  · rw [nearest, Int.sign_eq_one_of_pos (Int.natCast_pos.2 hn), Int.one_mul, Int.natAbs_natCast]

theorem nearest_neg (n : Int) : nearest (-n) = -nearest n := by
  rw [nearest, nearest, Int.sign_neg, Int.natAbs_neg, Int.neg_mul]

/-- The integers up to 2 ^ 53 are floating-point numbers themselves. -/
theorem nearest_of_natAbs_le (h : n.natAbs ≤ 2 ^ 53) : nearest n = n := by
  have hnat : nearestNat n.natAbs = n.natAbs := by
    rcases Nat.lt_or_eq_of_le h with hlt | heq
    · exact nearestNat_of_lt hlt
    · rw [heq]
      decide
  rw [nearest, hnat, Int.sign_mul_natAbs]

/-- Rounding keeps the order of integers, though it may take two for one. -/
theorem nearest_mono (h : m ≤ n) : nearest m ≤ nearest n := by
  have hnonneg : ∀ k : Nat, 0 ≤ nearest k := fun k => by
    rw [nearest_natCast]
    exact Int.natCast_nonneg _
  have hnat : ∀ {j k : Nat}, j ≤ k → nearest j ≤ nearest k := fun h => by
    rw [nearest_natCast, nearest_natCast]
    exact Int.ofNat_le.2 (nearestNat_mono h)
  obtain ⟨k, rfl | rfl⟩ := Int.eq_nat_or_neg n
  · obtain ⟨j, rfl | rfl⟩ := Int.eq_nat_or_neg m
    · exact hnat (by omega)
    · rw [nearest_neg]
      have hj := hnonneg j
      have hk := hnonneg k
      omega
  · obtain ⟨j, rfl⟩ : ∃ j : Nat, m = -j := ⟨m.natAbs, by omega⟩
    rw [nearest_neg, nearest_neg]
    exact Int.neg_le_neg (hnat (by omega))

/-- Rounding keeps the order of two integers strictly unless it takes them for one. -/
theorem nearest_le_iff (h : nearest n = nearest m → n = m) : nearest m ≤ nearest n ↔ m ≤ n := by
  refine ⟨fun hround => ?_, nearest_mono⟩
  by_contra hlt
  have hback := nearest_mono (Int.le_of_lt (Int.not_le.1 hlt))
  have hsame := h (Int.le_antisymm hback hround)
  omega

theorem nearest_eq_zero_iff : nearest n = 0 ↔ n = 0 := by
  constructor
  · intro h
    by_contra hn
    have hbounds := nearestNat_bounds (Int.natAbs_ne_zero.2 hn)
    have hpos : 0 < nearestNat n.natAbs := Nat.lt_of_lt_of_le (Nat.two_pow_pos _) hbounds.1
    rcases Int.mul_eq_zero.1 h with hsign | hzero
    · exact hn (Int.sign_eq_zero_iff_zero.1 hsign)
    · omega
  · rintro rfl
    rfl

end Integers

end Number

/-! ## Whole numbers among the floats -/

/-- The float is a whole number: a zero, or one with a mantissa of full length. -/
inductive IsWhole : UnpackedFloat → Int → Prop
  | zero (sign : Sign) : IsWhole (.zero sign) 0
  | finite {sign : Sign} {m : Nat} {e : Int} {pos : 0 < m} {n : Int}
      (full : 2 ^ 52 ≤ m ∧ m < 2 ^ 53) (small : -1074 ≤ e ∧ e ≤ 971)
      (value : (sign.apply (m : Int) : ℚ) * 2 ^ e = n) : IsWhole (.finite sign m e pos) n

/-- Of two mantissas of full length, the one with the greater exponent is the greater number. -/
theorem scaled_lt_scaled {m₁ m₂ : Nat} {e₁ e₂ : Int} (h₁ : m₁ < 2 ^ 53) (h₂ : 2 ^ 52 ≤ m₂)
    (he : e₁ < e₂) : (m₁ : ℚ) * 2 ^ e₁ < m₂ * 2 ^ e₂ := by
  have hpow : (2 : ℚ) ^ (e₁ + 1) ≤ 2 ^ e₂ := zpow_le_zpow_right₀ one_le_two he
  have hm : (m₁ : ℚ) < 2 * m₂ := by
    have hnat : m₁ < 2 * m₂ := by omega
    exact_mod_cast hnat
  calc (m₁ : ℚ) * 2 ^ e₁ < 2 * m₂ * 2 ^ e₁ := by gcongr
    _ = m₂ * 2 ^ (e₁ + 1) := by
      rw [zpow_add_one₀ two_ne_zero]
      ring
    _ ≤ m₂ * 2 ^ e₂ := by gcongr

/-- With mantissas of full length, exponents and then mantissas are compared like the values. -/
theorem compare_scaled {m₁ m₂ : Nat} {e₁ e₂ : Int} {x y : ℚ} (h₁ : 2 ^ 52 ≤ m₁ ∧ m₁ < 2 ^ 53)
    (h₂ : 2 ^ 52 ≤ m₂ ∧ m₂ < 2 ^ 53) (hx : (m₁ : ℚ) * 2 ^ e₁ = x) (hy : (m₂ : ℚ) * 2 ^ e₂ = y) :
    (compare e₁ e₂).then (compare m₁ m₂) = compare x y := by
  subst hx hy
  rcases lt_trichotomy e₁ e₂ with he | rfl | he
  · rw [compare_lt_iff_lt.2 he, compare_lt_iff_lt.2 (scaled_lt_scaled h₁.2 h₂.1 he)]
    rfl
  · -- With the same exponent the mantissas decide.
    have hmono : StrictMono fun m : Nat => (m : ℚ) * 2 ^ e₁ := fun a b hab =>
      mul_lt_mul_of_pos_right (Nat.cast_lt.2 hab) (by positivity)
    have hcmp := hmono.cmp_map_eq m₁ m₂
    rw [cmp_eq_compare, cmp_eq_compare] at hcmp
    rw [compare_eq_iff_eq.2 rfl, hcmp]
    rfl
  · rw [compare_gt_iff_gt.2 he, compare_gt_iff_gt.2 (scaled_lt_scaled h₂.2 h₁.1 he)]
    rfl

theorem compare_intCast (x y : Int) : compare (x : ℚ) (y : ℚ) = compare x y := by
  have hmono : StrictMono fun n : Int => (n : ℚ) := Int.cast_strictMono
  have hcmp := hmono.cmp_map_eq x y
  rwa [cmp_eq_compare, cmp_eq_compare] at hcmp

theorem swap_compare_neg (x y : Int) : (compare (-x) (-y)).swap = compare x y := by
  have hanti : StrictAnti fun n : Int => -n := fun _ _ => Int.neg_lt_neg
  have hcmp := hanti.cmp_map_eq y x
  rwa [cmp_eq_compare, cmp_eq_compare, ← Int.compare_swap] at hcmp

theorem sign_packComponents {spec : Format} {sign : Sign} {exponent : BitVec spec.exponentBits}
    {mantissa : BitVec spec.mantissaBitsWithoutImplicit} :
    Sign.ofBitVec (unpackSign (packComponents spec sign exponent mantissa)) = sign := by
  have hbit : unpackSign (packComponents spec sign exponent mantissa) = sign.toBitVec := by
    ext i hi
    have hfirst : i = 0 := by omega
    delta unpackSign
    simp [hfirst, packComponents, BitVec.getLsbD_append, BitVec.getElem_append]
  rw [hbit]
  cases sign <;> rfl

/-- A mantissa of full length is packed without loss. -/
theorem unpack_pack_finite {sign : Sign} {m : Nat} {e : Int} {pos : 0 < m}
    (hm : 2 ^ 52 ≤ m ∧ m < 2 ^ 53) (he : -1074 ≤ e ∧ e ≤ 971) :
    (Float.Model.pack (.finite sign m e pos)).unpack = .finite sign m e pos := by
  have hlog : m.log2 = 52 := (Nat.log2_eq_iff (by omega)).2 hm
  obtain ⟨b, hb, hlow, hhigh⟩ : ∃ b : Nat, e + 1075 = b ∧ 1 ≤ b ∧ b ≤ 2046 :=
    ⟨(e + 1075).toNat, by omega⟩
  have hbiased : (e + Format.binary64.exponentBias +
      Format.binary64.mantissaBitsWithoutImplicit).toNat = b := by
    simp only [Format.exponentBias]
    omega
  have hpack : UnpackedFloat.pack .binary64 (.finite sign m e pos) =
      packComponents .binary64 sign (BitVec.ofNat _ b) (BitVec.ofNat _ m) := by
    delta UnpackedFloat.pack
    dsimp only
    rw [hbiased, if_neg (by omega), if_pos (by rw [hlog]; rfl)]
  have hexponent : (BitVec.ofNat 11 b).toNat = b := by
    rw [BitVec.toNat_ofNat, Nat.mod_eq_of_lt (by omega)]
  have hspecial : BitVec.ofNat 11 b ≠ -1#11 := by
    rw [ne_eq, ← BitVec.toNat_inj, hexponent]
    simp
    omega
  have hsubnormal : BitVec.ofNat 11 b ≠ 0#11 := by
    rw [ne_eq, ← BitVec.toNat_inj, hexponent]
    simp
    omega
  -- The first digit of the mantissa is not stored.
  have hmantissa : (1#1 ++ BitVec.ofNat 52 m).toNat = m := by
    have hrest : m % 2 ^ 52 = m - 2 ^ 52 := by omega
    rw [BitVec.toNat_append, BitVec.toNat_ofNat, BitVec.toNat_ofNat, hrest,
      ← Nat.shiftLeft_add_eq_or_of_lt (by omega), Nat.shiftLeft_eq]
    omega
  show UnpackedFloat.unpack .binary64 (UnpackedFloat.pack .binary64 (.finite sign m e pos)) = _
  rw [hpack]
  delta UnpackedFloat.unpack
  dsimp only
  rw [if_neg (by rw [unpackExponent_packComponents]; exact hspecial),
    if_neg (by rw [unpackExponent_packComponents]; exact hsubnormal), UnpackedFloat.finite.injEq]
  refine ⟨sign_packComponents, ?_, ?_⟩
  · rw [unpackMantissa_packComponents]
    exact hmantissa
  · rw [unpackExponent_packComponents, hexponent]
    simp only [Format.exponentBias]
    omega

namespace IsWhole

variable {f g : UnpackedFloat} {m : Nat} {e x y : Int} {pos : 0 < m}

/-- A whole number among the positive floats has a mantissa of full length, and its value is
positive. -/
theorem of_positive (h : IsWhole (.finite .positive m e pos) x) :
    (2 ^ 52 ≤ m ∧ m < 2 ^ 53) ∧ (m : ℚ) * 2 ^ e = x ∧ 0 < x := by
  obtain ⟨⟩ | ⟨full, -, value⟩ := h
  have hvalue : (m : ℚ) * 2 ^ e = x := by simpa [Sign.apply] using value
  have hpos : (0 : ℚ) < x := by
    rw [← hvalue]
    positivity
  exact ⟨full, hvalue, Int.cast_pos.1 hpos⟩

theorem of_negative (h : IsWhole (.finite .negative m e pos) x) :
    (2 ^ 52 ≤ m ∧ m < 2 ^ 53) ∧ (m : ℚ) * 2 ^ e = (-x : Int) ∧ x < 0 := by
  obtain ⟨⟩ | ⟨full, -, value⟩ := h
  have hvalue : (m : ℚ) * 2 ^ e = (-x : Int) := by
    rw [Int.cast_neg, ← value]
    simp [Sign.apply]
  have hpos : (0 : ℚ) < (-x : Int) := by
    rw [← hvalue]
    positivity
  have hneg : 0 < -x := Int.cast_pos.1 hpos
  exact ⟨full, hvalue, by omega⟩

/-- Floats that are whole numbers are compared by value. -/
theorem compare_eq (hf : IsWhole f x) (hg : IsWhole g y) : f.compare g = some (compare x y) := by
  cases f with
  | notANumber | infinity => cases hf
  | zero =>
    cases hf
    cases g with
    | notANumber | infinity => cases hg
    | zero =>
      cases hg
      rfl
    | finite sign =>
      cases sign with
      | positive =>
        rw [compare_lt_iff_lt.2 hg.of_positive.2.2]
        rfl
      | negative =>
        rw [compare_gt_iff_gt.2 hg.of_negative.2.2]
        rfl
  | finite sign =>
    cases sign with
    | positive =>
      obtain ⟨hfull, hx, hxpos⟩ := hf.of_positive
      cases g with
      | notANumber | infinity => cases hg
      | zero =>
        cases hg
        rw [compare_gt_iff_gt.2 hxpos]
        rfl
      | finite sign =>
        cases sign with
        | positive =>
          obtain ⟨hfull', hy, -⟩ := hg.of_positive
          show some ((compare _ _).then (compare _ _)) = _
          rw [compare_scaled hfull hfull' hx hy, compare_intCast]
        | negative =>
          have hyneg := hg.of_negative.2.2
          rw [compare_gt_iff_gt.2 (by omega)]
          rfl
    | negative =>
      obtain ⟨hfull, hx, hxneg⟩ := hf.of_negative
      cases g with
      | notANumber | infinity => cases hg
      | zero =>
        cases hg
        rw [compare_lt_iff_lt.2 hxneg]
        rfl
      | finite sign =>
        cases sign with
        | positive =>
          have hypos := hg.of_positive.2.2
          rw [compare_lt_iff_lt.2 (by omega)]
          rfl
        | negative =>
          obtain ⟨hfull', hy, -⟩ := hg.of_negative
          show some ((compare _ _).then (compare _ _)).swap = _
          rw [compare_scaled hfull hfull' hx hy, compare_intCast, swap_compare_neg]

/-- Whole numbers are packed without loss. -/
theorem unpack_pack (h : IsWhole f x) : (Float.Model.pack f).unpack = f := by
  cases h with
  | zero sign =>
    cases sign <;> rfl
  | finite full small => exact unpack_pack_finite full small

theorem neg (h : IsWhole f x) : IsWhole f.neg (-x) := by
  cases h with
  | zero => exact .zero _
  | @finite sign _ _ _ _ full small value =>
    refine .finite full small ?_
    rw [Int.cast_neg, ← value]
    cases sign <;> simp [Sign.apply]

theorem ofNatural {n : Nat} (hfull : 2 ^ 52 ≤ m ∧ m < 2 ^ 53) (hsmall : -1074 ≤ e ∧ e ≤ 971)
    (hvalue : (m : ℚ) * 2 ^ e = n) : IsWhole (.finite .positive m e pos) n :=
  .finite hfull hsmall (by simpa [Sign.apply] using hvalue)

end IsWhole

/-! ## Rounding by residual bits -/

/-- The residual bits behind a division: whether half of the divisor is left over, and whether
anything besides. -/
def residue (a b : Nat) : ExtendedMantissa :=
  ⟨a / b, decide (b ≤ 2 * (a % b)), decide (2 * (a % b) ≠ 0 ∧ 2 * (a % b) ≠ b)⟩

/-- One more residual bit is one more division by two. -/
theorem shiftRightOne_residue (a : Nat) {b : Nat} (hb : 0 < b) :
    (residue a b).shiftRightOne = residue a (b * 2) := by
  have hrest : a % (b * 2) = a % b + b * (a / b % 2) := Nat.mod_mul
  have hlt : a % b < b := Nat.mod_lt a hb
  simp only [residue, ExtendedMantissa.shiftRightOne, hrest, Nat.div_div_eq_div_mul,
    ExtendedMantissa.mk.injEq, true_and]
  rcases Nat.mod_two_eq_zero_or_one (a / b) with hbit | hbit <;> rw [hbit] <;> constructor <;>
    rw [Bool.eq_iff_iff] <;> simp only [bne_iff_ne, Bool.or_eq_true, decide_eq_true_eq] <;> omega

theorem shiftRight_exact (a k : Nat) :
    ExtendedMantissa.ofMantissaAndAccuracy a .exact >>> k = residue a (2 ^ k) := by
  show k.repeat ExtendedMantissa.shiftRightOne _ = _
  induction k with
  | zero => simp [Nat.repeat, residue, ExtendedMantissa.ofMantissaAndAccuracy, Nat.mod_one]
  | succ k ih => rw [Nat.repeat, ih, shiftRightOne_residue a (Nat.two_pow_pos k), Nat.pow_succ]

/-- Residual bits tell on which side of the middle a quotient lies, so they round it to the nearest
one. -/
theorem roundedMantissa_residue (a : Nat) {b : Nat} (hb : 0 < b) :
    (residue a b).roundedMantissa = Number.nearestQuotient a b := by
  rw [residue, Number.nearestQuotient]
  rcases lt_trichotomy (2 * (a % b)) b with hless | hhalf | hmore
  · rw [decide_eq_false (Nat.not_le.2 hless), if_pos (.inl hless)]
    cases decide (2 * (a % b) ≠ 0 ∧ 2 * (a % b) ≠ b) <;> rfl
  · rw [decide_eq_true (Nat.le_of_eq hhalf.symm), decide_eq_false fun h => h.2 hhalf]
    show a / b + a / b % 2 = _
    split <;> omega
  · rw [decide_eq_true (Nat.le_of_lt hmore), decide_eq_true (by omega), if_neg (by omega)]
    rfl

section Mantissas

variable {m : Nat} {e : Int}

theorem targetExponent_binary64 (h : -1074 ≤ e + m.log2 - 52) :
    Format.binary64.targetExponent (totalExponent m e) = e + m.log2 - 52 := by
  have hbits : Format.binary64.mantissaBits = 53 := rfl
  simp only [Format.targetExponent, totalExponent, hbits, Format.minExponent]
  norm_num
  omega

/-- A mantissa that is too long is cut down to full length. -/
theorem shiftToTargetExponent_exact (hm : 52 ≤ m.log2) (he : -1074 ≤ e + m.log2 - 52) :
    shiftToTargetExponent .binary64 m e .exact =
      (residue m (Number.spacing m), e + (m.log2 - 52 : Nat)) := by
  have hshift : (e + m.log2 - 52 - e).toNat = m.log2 - 52 := by omega
  rw [shiftToTargetExponent, targetExponent_binary64 he, shiftToExponent, hshift, shiftRight_exact]
  rfl

/-- A long mantissa is rounded to the nearest one of full length.  If this takes a digit more, the
last one, a zero, goes over to the exponent. -/
theorem roundWithAccuracy_exact (sign : Sign) (hm : 52 ≤ m.log2) (he : -1074 ≤ e + m.log2 - 52) :
    ∃ m' e', ∃ pos, roundWithAccuracy .binary64 sign m e .exact = .finite sign m' e' pos ∧
      (2 ^ 52 ≤ m' ∧ m' < 2 ^ 53) ∧
      (e' = e + (m.log2 - 52 : Nat) ∨ e' = e + (m.log2 - 52 : Nat) + 1) ∧
      (m' : ℚ) * 2 ^ e' =
        Number.nearestQuotient m (Number.spacing m) * 2 ^ (e + (m.log2 - 52 : Nat)) := by
  have hne : m ≠ 0 := by
    rintro rfl
    simp at hm
  obtain ⟨hlow, hhigh⟩ := Number.div_spacing_bounds hne
  have hdigits : m.log2 - (m.log2 - 52) = 52 := by omega
  rw [hdigits] at hlow hhigh
  have hle := Number.le_nearestQuotient m (Number.spacing m)
  have hge := Number.nearestQuotient_le m (Number.spacing m)
  rw [roundWithAccuracy, shiftToTargetExponent_exact hm he]
  dsimp only
  rw [roundedMantissa_residue m (Number.spacing_pos m)]
  generalize Number.nearestQuotient m (Number.spacing m) = r at hle hge
  generalize ht : e + ((m.log2 - 52 : Nat) : Int) = t
  rcases Nat.lt_or_ge r (2 ^ 53) with hshort | hlong
  · have hpos : r ≠ 0 := by omega
    have hlog : r.log2 = 52 := (Nat.log2_eq_iff hpos).2 ⟨by omega, hshort⟩
    rw [shiftToTargetExponent_exact (by omega) (by omega), Number.spacing, hlog]
    have hkept : (residue r (2 ^ (52 - 52))).mantissa = r := Nat.div_one r
    refine ⟨r, t, Nat.pos_of_ne_zero hpos, ?_, ⟨by omega, hshort⟩, .inl rfl, rfl⟩
    rw [dif_neg (hkept.trans_ne hpos), UnpackedFloat.finite.injEq]
    exact ⟨rfl, hkept, Int.add_zero t⟩
  · obtain rfl : r = 2 ^ 53 := by omega
    have hlog : (2 ^ 53).log2 = 53 := Nat.log2_two_pow
    rw [shiftToTargetExponent_exact (by omega) (by omega), Number.spacing, hlog]
    have hkept : (residue (2 ^ 53) (2 ^ (53 - 52))).mantissa = 2 ^ 52 := by decide
    refine ⟨2 ^ 52, t + 1, by decide, ?_, by decide, .inr rfl, ?_⟩
    · rw [dif_neg (hkept.trans_ne (by decide)), UnpackedFloat.finite.injEq]
      exact ⟨rfl, hkept, rfl⟩
    · rw [zpow_add_one₀ two_ne_zero]
      norm_num
      ring

end Mantissas

/-! ## Integers -/

section Integers

variable {n k : Nat}

theorem log2_mul_two_pow (hn : n ≠ 0) (k : Nat) : (n * 2 ^ k).log2 = n.log2 + k := by
  have hpos : n * 2 ^ k ≠ 0 := Nat.mul_ne_zero hn (Nat.ne_of_gt (Nat.two_pow_pos k))
  rw [Nat.log2_eq_iff hpos, Nat.pow_add, Nat.add_right_comm, Nat.pow_add _ _ k]
  exact ⟨Nat.mul_le_mul_right _ (Nat.log2_self_le hn),
    Nat.mul_lt_mul_of_pos_right Nat.lt_log2_self (Nat.two_pow_pos k)⟩

/-- A natural number with zeros behind it is rounded like the number itself. -/
theorem nearestQuotient_scaled (hn : n ≠ 0) (hk : 52 ≤ n.log2 + k) :
    (Number.nearestQuotient (n * 2 ^ k) (Number.spacing (n * 2 ^ k)) : ℚ) *
      2 ^ (-(k : Int) + (n.log2 + k - 52 : Nat)) = Number.nearestNat n := by
  rw [Number.spacing, log2_mul_two_pow hn]
  rcases Nat.lt_or_ge n.log2 52 with hsmall | hlarge
  · -- Nothing but zeros is cut off.
    have hexact : Number.nearestNat n = n :=
      Number.nearestNat_of_lt
        (Nat.lt_log2_self.trans_le (Nat.pow_le_pow_right (by decide) (by omega)))
    obtain ⟨j, hj⟩ : ∃ j, k = n.log2 + k - 52 + j := ⟨52 - n.log2, by omega⟩
    have hsplit : n * 2 ^ k = n * 2 ^ j * 2 ^ (n.log2 + k - 52) := by
      rw [Nat.mul_assoc, ← Nat.pow_add, Nat.add_comm j, ← hj]
    have hexponent : -(k : Int) + (n.log2 + k - 52 : Nat) = -j := by omega
    rw [hsplit, Number.nearestQuotient_of_dvd (Nat.two_pow_pos _) (Nat.dvd_mul_left _ _),
      Nat.mul_div_cancel _ (Nat.two_pow_pos _), hexact, hexponent]
    push_cast
    rw [zpow_neg, zpow_natCast, mul_assoc, mul_inv_cancel₀ (by positivity), mul_one]
  · have hsplit : 2 ^ (n.log2 + k - 52) = Number.spacing n * 2 ^ k := by
      rw [Number.spacing, ← Nat.pow_add]
      congr 1
      omega
    have hexponent : -(k : Int) + (n.log2 + k - 52 : Nat) = (n.log2 - 52 : Nat) := by omega
    rw [hsplit, Number.nearestQuotient_mul_right (Nat.two_pow_pos k), hexponent, Number.nearestNat,
      zpow_natCast]
    simp [Number.spacing]

/-- A natural number with zeros behind it is rounded to the nearest one. -/
theorem roundWithAccuracy_natural (hn : n ≠ 0) (hk : 52 ≤ n.log2 + k) (hmax : n.log2 ≤ 64) :
    ∃ m e, ∃ pos, roundWithAccuracy .binary64 .positive (n * 2 ^ k) (-k) .exact =
      .finite .positive m e pos ∧
      (2 ^ 52 ≤ m ∧ m < 2 ^ 53) ∧ (-52 ≤ e ∧ e ≤ 13) ∧ (m : ℚ) * 2 ^ e = Number.nearestNat n := by
  have hlog := log2_mul_two_pow hn k
  obtain ⟨m, e, pos, hround, hfull, hexponent, hvalue⟩ :=
    roundWithAccuracy_exact (m := n * 2 ^ k) (e := -k) .positive (by omega) (by omega)
  refine ⟨m, e, pos, hround, hfull, by omega, ?_⟩
  rw [hvalue, hlog]
  exact nearestQuotient_scaled hn hk

/-- A number that fits into a mantissa is moved to its upper end. -/
theorem unpacked_ofNat_of_lt (hn : n ≠ 0) (h : n < 2 ^ 53) : UnpackedFloat.ofNat .binary64 n =
    roundWithAccuracy .binary64 .positive (n * 2 ^ (52 - n.log2))
      (-(52 - n.log2 : Nat)) .exact := by
  have hlog : n.log2 < 53 := (Nat.log2_lt hn).2 h
  have hpos : compare (n : Int) 0 = .gt := compare_gt_iff_gt.2 (by omega)
  have hshift : (0 - ((0 : Int) + n.log2 - 52)).toNat = 52 - n.log2 := by omega
  rw [UnpackedFloat.ofNat, UnpackedFloat.ofInt, UnpackedFloat.normalize, hpos]
  dsimp only
  rw [UnpackedFloat.round, Int.toNat_natCast, targetExponent_binary64 (by omega), decreaseExponent,
    hshift, Nat.shiftLeft_eq, Int.zero_sub]

theorem unpack_one :
    (Float.ofBits 0x3FF0000000000000).toModel.unpack = .finite .positive (2 ^ 52) (-52)
      (by decide) := by
  rfl

theorem mul_finite {spec : Format} {s t : Sign} {m n : Nat} {e e' : Int} {hm : 0 < m} {hn : 0 < n} :
    UnpackedFloat.mul spec (.finite s m e hm) (.finite t n e' hn) =
      roundWithAccuracy spec (s * t) (m * n) (e + e') .exact := rfl

/-- The short way to a float: a number that fits into a mantissa is multiplied by one. -/
theorem isWhole_ofNat_of_lt (hn : n ≠ 0) (h : n < 2 ^ 53) :
    IsWhole (Float.ofNat n).toModel.unpack (Number.nearestNat n) := by
  have hlog : n.log2 < 53 := (Nat.log2_lt hn).2 h
  obtain ⟨m, e, pos, hround, hfull, hexponent, hvalue⟩ :=
    roundWithAccuracy_natural (k := 52 - n.log2) hn (by omega) (by omega)
  have hfactor : n.toUInt64.toFloat.toModel.unpack = .finite .positive m e pos := by
    have hsize : n.toUInt64.toNat = n := by
      simp
      omega
    show (Float.Model.pack (UnpackedFloat.ofNat .binary64 n.toUInt64.toNat)).unpack = _
    rw [hsize, unpacked_ofNat_of_lt hn h, hround, unpack_pack_finite hfull (by omega)]
  have hlogm : (m * 2 ^ 52).log2 = 104 := by
    rw [log2_mul_two_pow (Nat.ne_of_gt pos), (Nat.log2_eq_iff (Nat.ne_of_gt pos)).2 hfull]
  obtain ⟨m', e', pos', hround', hfull', hexponent', hvalue'⟩ :=
    roundWithAccuracy_exact (m := m * 2 ^ 52) (e := e + -52) .positive (by omega) (by omega)
  have hproduct : (Float.ofNat n).toModel.unpack =
      (Float.Model.pack (.finite .positive m' e' pos')).unpack := by
    show (Float.ofScientific n false 0).toModel.unpack = _
    rw [Float.ofScientific, dif_pos ⟨h, by decide⟩]
    show (Float.Model.pack (UnpackedFloat.mul .binary64 n.toUInt64.toFloat.toModel.unpack
      (Float.ofBits 0x3FF0000000000000).toModel.unpack)).unpack = _
    rw [hfactor, unpack_one, mul_finite]
    exact congrArg (fun f => (Float.Model.pack f).unpack) hround'
  have hspacing : Number.spacing (m * 2 ^ 52) = 2 ^ 52 := by
    rw [Number.spacing, hlogm]
  have hsame : e + -52 + ((104 - 52 : Nat) : Int) = e := by omega
  rw [hlogm, hspacing, Number.nearestQuotient_of_dvd (Nat.two_pow_pos _) (Nat.dvd_mul_left _ _),
    Nat.mul_div_cancel _ (Nat.two_pow_pos _), hsame, hvalue] at hvalue'
  rw [hproduct, unpack_pack_finite hfull' (by omega)]
  exact .ofNatural hfull' (by omega) hvalue'

/-- The long way: a greater number gets zeros behind it, so that its mantissa is rounded. -/
theorem isWhole_ofNat_of_le (h : 2 ^ 53 ≤ n) (hmax : n.log2 ≤ 64) :
    IsWhole (Float.ofNat n).toModel.unpack (Number.nearestNat n) := by
  have hn : n ≠ 0 := by omega
  obtain ⟨m, e, pos, hround, hfull, hexponent, hvalue⟩ :=
    roundWithAccuracy_natural (k := 53) hn (by omega) hmax
  have hproduct : (Float.ofNat n).toModel.unpack =
      (Float.Model.pack (.finite .positive m e pos)).unpack := by
    show (Float.ofScientific n false 0).toModel.unpack = _
    rw [Float.ofScientific, dif_neg (by omega), ← hround]
    show (Float.Model.pack (UnpackedFloat.ofScientific .binary64 n 0)).unpack = _
    have hrange : (0 : Int) < 2 ^ Format.binary64.exponentBits := by decide
    rw [UnpackedFloat.ofScientific, dif_neg hn, if_neg (by decide), if_neg (by omega),
      if_pos (by decide), mul_finite, Nat.shiftLeft_eq, Int.toNat_zero, Nat.pow_zero, Nat.mul_one]
    rfl
  rw [hproduct, unpack_pack_finite hfull (by omega)]
  exact .ofNatural hfull (by omega) hvalue

/-- The float of a natural number is the floating-point number nearest to it. -/
theorem isWhole_ofNat (hmax : n < 2 ^ 64) :
    IsWhole (Float.ofNat n).toModel.unpack (Number.nearest n) := by
  rw [Number.nearest_natCast]
  by_cases hn : n = 0
  · subst hn
    exact .zero .positive
  rcases Nat.lt_or_ge n (2 ^ 53) with hsmall | hlarge
  · exact isWhole_ofNat_of_lt hn hsmall
  · exact isWhole_ofNat_of_le hlarge (Nat.le_of_lt ((Nat.log2_lt hn).2 hmax))

/-- The float of an integer is the floating-point number nearest to it. -/
theorem isWhole_ofInt {n : Int} (h : n.natAbs < 2 ^ 64) :
    IsWhole (Float.ofInt n).toModel.unpack (Number.nearest n) := by
  cases n with
  | ofNat n => exact isWhole_ofNat h
  | negSucc n =>
    have hneg : IsWhole (Float.ofNat (n + 1)).toModel.unpack.neg
        (Number.nearest (-(n + 1 : Nat))) := by
      rw [Number.nearest_neg]
      exact (isWhole_ofNat h).neg
    show IsWhole (Float.Model.pack (Float.ofNat (n + 1)).toModel.unpack.neg).unpack _
    rw [hneg.unpack_pack]
    exact hneg

end Integers

section Comparison

variable {x y : Float} {m n : Int}

/-- Floats that are whole numbers are equal if their values are. -/
theorem beq_iff_of_isWhole (hx : IsWhole x.toModel.unpack m) (hy : IsWhole y.toModel.unpack n) :
    (x == y) = true ↔ m = n := by
  show (x.toModel.unpack.compare y.toModel.unpack == some .eq) = true ↔ _
  rw [hx.compare_eq hy, beq_iff_eq, Option.some_inj, compare_eq_iff_eq]

theorem lt_iff_of_isWhole (hx : IsWhole x.toModel.unpack m) (hy : IsWhole y.toModel.unpack n) :
    x < y ↔ m < n := by
  refine decide_eq_true_iff.trans ?_
  show (x.toModel.unpack.compare y.toModel.unpack == some .lt) = true ↔ _
  rw [hx.compare_eq hy, beq_iff_eq, Option.some_inj, compare_lt_iff_lt]

theorem le_iff_of_isWhole (hx : IsWhole x.toModel.unpack m) (hy : IsWhole y.toModel.unpack n) :
    x ≤ y ↔ m ≤ n := by
  refine decide_eq_true_iff.trans ?_
  show (x.toModel.unpack.compare y.toModel.unpack).any (·.isLE) = true ↔ _
  rw [hx.compare_eq hy, Option.any_some, Int.isLE_compare]

end Comparison

/-- An integer as a floating-point number. -/
theorem Number.isWhole_toFloat (value : Int64) :
    IsWhole (Number.integer value).toFloat.toModel.unpack (nearest value.toInt) := by
  refine isWhole_ofInt ?_
  have hlow := Int64.le_toInt value
  have hhigh := Int64.toInt_lt value
  omega

end Logo
