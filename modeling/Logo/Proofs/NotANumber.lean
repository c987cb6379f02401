import Logo.Proofs.Words

/-!
# Words for no number

Programs compare numbers as floating-point numbers, and one of these is not equal to itself.  No
integer is turned into it and no digits are read as it, however large their exponent: the operations
on the way there never see an infinity and a zero together.  So a word is read as it only if it says
so (`Number.isNaNWord_iff`).  In all other respects equality of floating-point numbers is an
equivalence.
-/

namespace Logo

open Float.Model UnpackedFloat

/-! ## Results of operations -/

section Unpacked

variable {spec : Format} {f g : UnpackedFloat}

/-- Bits are those of a NaN if the exponent is the highest one and the mantissa is not zero. -/
theorem unpack_eq_nan_iff {b : BitVec spec.numBits} :
    unpack spec b = .notANumber ↔ unpackExponent b = -1#_ ∧ unpackMantissa b ≠ 0#_ := by
  delta UnpackedFloat.unpack
  dsimp only
  by_cases hexponent : unpackExponent b = -1#_
  · rw [if_pos hexponent]
    by_cases hmantissa : unpackMantissa b = 0#_
    · rw [if_pos hmantissa]
      exact iff_of_false UnpackedFloat.noConfusion fun h => h.2 hmantissa
    · rw [if_neg hmantissa]
      exact iff_of_true rfl ⟨hexponent, hmantissa⟩
  · rw [if_neg hexponent]
    refine iff_of_false (fun h => ?_) fun h => hexponent h.1
    obtain ⟨-, h⟩ | ⟨-, ⟨⟩⟩ := ite_eq_iff.1 h
    obtain ⟨-, ⟨⟩⟩ | ⟨-, ⟨⟩⟩ := dite_eq_iff.1 h

/-- What is packed as a number is unpacked as one. -/
theorem unpack_pack_ne_nan (h : f ≠ .notANumber) :
    unpack spec (UnpackedFloat.pack spec f) ≠ .notANumber := by
  rw [ne_eq, unpack_eq_nan_iff]
  fun_cases UnpackedFloat.pack spec f with
  | case1 => exact absurd rfl h
  | case2 s => simp [packedInfinity]
  | case3 s => simp [packedZero]
  | case4 s m e hm biasedExponent hlarge => simp [packedInfinity]
  | case5 s m e hm mantissaBits biasedExponent hsmall hnormal =>
    have hlt : biasedExponent < 2 ^ spec.exponentBits - 1 := by omega
    have hmod : biasedExponent % 2 ^ spec.exponentBits = biasedExponent :=
      Nat.mod_eq_of_lt (by omega)
    simp [BitVec.neg_one_eq_allOnes, ← BitVec.toNat_inj, hmod, Nat.ne_of_lt hlt]
  | case6 s m e hm mantissaBits biasedExponent hsmall hsubnormal => simp [Nat.ne_of_gt spec.he]

/-- Rounding gives no NaN, as it may overflow to infinity but never goes beyond. -/
theorem roundWithAccuracy_ne_nan {sign : Sign} {m : Nat} {e : Int} {accuracy : Accuracy} :
    roundWithAccuracy spec sign m e accuracy ≠ .notANumber := by
  intro h
  rw [roundWithAccuracy] at h
  obtain ⟨-, ⟨⟩⟩ | ⟨-, ⟨⟩⟩ := dite_eq_iff.1 h

theorem normalize_ne_nan {m e : Int} {sign : Sign} :
    normalize spec m e sign ≠ .notANumber := by
  unfold UnpackedFloat.normalize
  split
  · exact roundWithAccuracy_ne_nan
  · exact UnpackedFloat.noConfusion
  · exact roundWithAccuracy_ne_nan

/-- Whether the float is a number other than zero and infinity. -/
def isOrdinary : UnpackedFloat → Bool
  | .finite .. => true
  | _ => false

/-- A product with an ordinary number is no NaN, as zero and infinity do not meet in it. -/
theorem mul_ne_nan (hf : f ≠ .notANumber) (hg : isOrdinary g = true) :
    UnpackedFloat.mul spec f g ≠ .notANumber := by
  cases g with
  | notANumber | infinity | zero => cases hg
  | finite sign m e pos =>
    cases f with
    | notANumber => exact absurd rfl hf
    | infinity | zero => exact UnpackedFloat.noConfusion
    | finite => exact roundWithAccuracy_ne_nan

/-- Nor is a quotient by an ordinary number. -/
theorem div_ne_nan (hf : f ≠ .notANumber) (hg : isOrdinary g = true) :
    UnpackedFloat.div spec f g ≠ .notANumber := by
  cases g with
  | notANumber | infinity | zero => cases hg
  | finite sign m e pos =>
    cases f with
    | notANumber => exact absurd rfl hf
    | infinity | zero => exact UnpackedFloat.noConfusion
    | finite => exact roundWithAccuracy_ne_nan

theorem unpacked_ofScientific_ne_nan {m : Nat} {e : Int} :
    UnpackedFloat.ofScientific spec m e ≠ .notANumber := by
  intro h
  rw [UnpackedFloat.ofScientific] at h
  -- Zero, or too small or too large a power of ten: no product and no quotient is taken.
  obtain ⟨_, ⟨⟩⟩ | ⟨_, h⟩ := dite_eq_iff.1 h
  obtain ⟨-, ⟨⟩⟩ | ⟨-, h⟩ := ite_eq_iff.1 h
  obtain ⟨-, ⟨⟩⟩ | ⟨-, h⟩ := ite_eq_iff.1 h
  obtain ⟨-, h⟩ | ⟨-, h⟩ := ite_eq_iff.1 h
  · exact mul_ne_nan UnpackedFloat.noConfusion rfl h
  · exact div_ne_nan UnpackedFloat.noConfusion rfl h

end Unpacked

/-! ## Equality -/

section Equality

variable {f g : UnpackedFloat}

/-- The float without the sign of a zero, which comparisons do not look at. -/
def unsigned : UnpackedFloat → UnpackedFloat
  | .zero _ => .zero .positive
  | f => f

/-- Finite floats are compared by their parts. -/
theorem compare_finite_eq_iff {s t : Sign} {m n : Nat} {e e' : Int} {hm : 0 < m} {hn : 0 < n} :
    (UnpackedFloat.finite s m e hm).compare (.finite t n e' hn) = some .eq ↔
      UnpackedFloat.finite s m e hm = .finite t n e' hn := by
  have hparts : (compare e e').then (compare m n) = .eq ↔ m = n ∧ e = e' := by
    rw [Ordering.then_eq_eq, compare_eq_iff_eq, compare_eq_iff_eq, and_comm]
  rw [UnpackedFloat.finite.injEq, ← hparts]
  cases s <;> cases t
  · exact Option.some_inj.trans (Ordering.swap_eq_eq.trans (and_iff_right rfl).symm)
  · exact iff_of_false (by rintro ⟨⟩) (by rintro ⟨⟨⟩, -⟩)
  · exact iff_of_false (by rintro ⟨⟩) (by rintro ⟨⟨⟩, -⟩)
  · exact Option.some_inj.trans (and_iff_right rfl).symm

/-- Floats are equal that are the same but for the sign of a zero, and no NaN. -/
theorem unpacked_beq_iff : f.beq g = true ↔ f ≠ .notANumber ∧ unsigned f = unsigned g := by
  have hdiffer : ∀ {f g : UnpackedFloat}, f.compare g ≠ some .eq → unsigned f ≠ unsigned g →
      (f.beq g = true ↔ f ≠ .notANumber ∧ unsigned f = unsigned g) := by
    intro f g hcompare hne
    exact iff_of_false (fun h => hcompare (beq_iff_eq.1 h)) fun h => hne h.2
  cases f with
  | notANumber => exact iff_of_false Bool.noConfusion fun h => h.1 rfl
  | zero s =>
    cases g with
    | zero t => exact iff_of_true rfl ⟨UnpackedFloat.noConfusion, rfl⟩
    | infinity t | finite t => cases t <;> exact hdiffer (by rintro ⟨⟩) (by rintro ⟨⟩)
    | notANumber => exact hdiffer (by rintro ⟨⟩) (by rintro ⟨⟩)
  | infinity s =>
    cases g with
    | infinity t =>
      cases s <;> cases t <;>
        first
        | exact iff_of_true rfl ⟨UnpackedFloat.noConfusion, rfl⟩
        | exact hdiffer (by rintro ⟨⟩) (by rintro ⟨⟩)
    | _ => cases s <;> exact hdiffer (by rintro ⟨⟩) (by rintro ⟨⟩)
  | finite s m e hm =>
    cases g with
    | finite t n e' hn =>
      exact beq_iff_eq.trans
        (compare_finite_eq_iff.trans (and_iff_right UnpackedFloat.noConfusion).symm)
    | infinity t => cases s <;> cases t <;> exact hdiffer (by rintro ⟨⟩) (by rintro ⟨⟩)
    | _ => cases s <;> exact hdiffer (by rintro ⟨⟩) (by rintro ⟨⟩)

theorem ne_nan_of_unsigned_eq (hf : f ≠ .notANumber) (h : unsigned f = unsigned g) :
    g ≠ .notANumber := by
  rintro rfl
  cases f with
  | notANumber => exact hf rfl
  | infinity | zero | finite => cases h

end Equality

/-! ## Floating-point numbers -/

section Floats

variable {x : Float}

theorem isNaN_eq_false_iff : x.isNaN = false ↔ x.toModel.unpack ≠ .notANumber := by
  show x.toModel.unpack.isNaN = false ↔ _
  cases x.toModel.unpack with
  | notANumber => exact iff_of_false Bool.noConfusion (absurd rfl)
  | infinity | zero | finite => exact iff_of_true rfl UnpackedFloat.noConfusion

/-- A NaN is the one float that is not equal to itself. -/
theorem beq_self_eq_not_isNaN (x : Float) : (x == x) = !x.isNaN := by
  rw [Bool.eq_iff_iff, Bool.not_eq_true', isNaN_eq_false_iff]
  exact unpacked_beq_iff.trans (and_iff_left rfl)

/-- Equality of floats is symmetric. -/
theorem beq_float_comm (x y : Float) : (x == y) = (y == x) := by
  have hswap : ∀ {x y : Float}, (x == y) = true → (y == x) = true := by
    intro x y h
    obtain ⟨hx, hsame⟩ := unpacked_beq_iff.1 h
    exact unpacked_beq_iff.2 ⟨ne_nan_of_unsigned_eq hx hsame, hsame.symm⟩
  exact Bool.eq_iff_iff.2 ⟨hswap, hswap⟩

/-- Equality of floats is transitive. -/
theorem beq_float_trans {y z : Float} (hxy : (x == y) = true) (hyz : (y == z) = true) :
    (x == z) = true := by
  obtain ⟨hx, hsame⟩ := unpacked_beq_iff.1 hxy
  exact unpacked_beq_iff.2 ⟨hx, hsame.trans (unpacked_beq_iff.1 hyz).2⟩

theorem isNaN_ofModel_pack {f : UnpackedFloat} (h : f ≠ .notANumber) :
    (Float.ofModel (Float.Model.pack f)).isNaN = false :=
  isNaN_eq_false_iff.2 (unpack_pack_ne_nan h)

theorem isNaN_neg (x : Float) : (-x).isNaN = x.isNaN := by
  show (unpack .binary64 (UnpackedFloat.pack .binary64 x.toModel.unpack.neg)).isNaN =
    x.toModel.unpack.isNaN
  cases x.toModel.unpack with
  | notANumber => decide +kernel
  | infinity | zero | finite => exact isNaN_ofModel_pack UnpackedFloat.noConfusion

theorem isOrdinary_powerOfTen :
    ∀ x ∈ Float.exactlyRepresentablePowersOfTen, isOrdinary x.toModel.unpack = true := by
  rw [← Array.all_eq_true_iff_forall_mem]
  decide +kernel

/-- Digits and a power of ten make no NaN, however large the power is. -/
theorem isNaN_ofScientific (m : Nat) (s : Bool) (e : Nat) :
    (Float.ofScientific m s e).isNaN = false := by
  rw [Float.ofScientific]
  split
  · next hsmall =>
    -- Both factors are exact here, and the power of ten is not zero.
    have hm : m.toUInt64.toFloat.toModel.unpack ≠ .notANumber :=
      isNaN_eq_false_iff.1 (isNaN_ofModel_pack normalize_ne_nan)
    have hsize : e < Float.exactlyRepresentablePowersOfTen.size := Nat.lt_succ_of_le hsmall.2
    have hpower := isOrdinary_powerOfTen _ (Array.getElem_mem hsize)
    dsimp only
    split
    · exact isNaN_ofModel_pack (div_ne_nan hm hpower)
    · exact isNaN_ofModel_pack (mul_ne_nan hm hpower)
  · exact isNaN_ofModel_pack unpacked_ofScientific_ne_nan

/-- An integer as a floating-point number is no NaN. -/
theorem isNaN_ofInt (n : Int) : (Float.ofInt n).isNaN = false := by
  cases n with
  | ofNat n => exact isNaN_ofScientific n false 0
  | negSucc n =>
    show (-Float.ofNat n.succ).isNaN = false
    rw [isNaN_neg]
    exact isNaN_ofScientific n.succ false 0

end Floats

/-! ## Words -/

namespace Decimal

variable {cs : List Char} {s : String} {x : Float}

/-- The text is the word for a NaN, with or without a sign and in any mixture of cases. -/
def isNaNWord (s : String) : Bool :=
  (takeSign s.toList).2.map Char.toLower == ['n', 'a', 'n']

theorem isNaN_of_readMagnitude? (h : readMagnitude? cs = some x) : x.isNaN = false := by
  have hdigits : ∀ {missing : Bool} {digits places : Nat} {rest : List Char},
      (if missing then none
        else (readExponent? rest).map fun exponent => scientific digits (exponent - places)) =
        some x → x.isNaN = false := by
    intro missing digits places rest h
    split at h
    · cases h
    · obtain ⟨exponent, -, rfl⟩ := Option.map_eq_some_iff.1 h
      exact isNaN_ofScientific _ _ _
  exact hdigits h

/-- Without its sign, a text is read as a NaN if it is the word for one. -/
theorem readUnsigned?_isNaN_iff :
    (∃ x, readUnsigned? cs = some x ∧ x.isNaN = true) ↔ cs.map Char.toLower = ['n', 'a', 'n'] := by
  have hword : ∀ word : String,
      String.ofList (cs.map Char.toLower) = word ↔ cs.map Char.toLower = word.toList :=
    fun word => by rw [← String.toList_inj, String.toList_ofList]
  simp only [readUnsigned?, Bool.or_eq_true, beq_iff_eq, hword]
  split
  · next hinf =>
    refine iff_of_false ?_ fun h => ?_
    · rintro ⟨_, ⟨⟩, hnan⟩
      exact absurd hnan (by decide +kernel)
    · rw [h] at hinf
      exact absurd hinf (by decide)
  split
  · next hcs => exact iff_of_true ⟨_, rfl, by decide +kernel⟩ hcs
  · next hcs =>
    refine iff_of_false ?_ hcs
    rintro ⟨x, hx, hnan⟩
    cases (isNaN_of_readMagnitude? hx).symm.trans hnan

theorem readFloat?_isNaN_iff :
    (∃ x, readFloat? s = some x ∧ x.isNaN = true) ↔ isNaNWord s = true := by
  have hsign : ∀ (negative : Bool) (x : Float),
      (if negative = true then -x else x).isNaN = x.isNaN := by
    intro negative x
    split
    · exact isNaN_neg x
    · rfl
  rw [isNaNWord, beq_iff_eq, ← readUnsigned?_isNaN_iff]
  simp only [readFloat?, Option.map_eq_some_iff]
  constructor
  · rintro ⟨_, ⟨x, hx, rfl⟩, hnan⟩
    exact ⟨x, hx, (hsign _ x).symm.trans hnan⟩
  · rintro ⟨x, hx, hnan⟩
    exact ⟨_, ⟨x, hx, rfl⟩, (hsign _ x).trans hnan⟩

/-- The word for a NaN is no whole number. -/
theorem readInt64?_of_isNaNWord {s : String} (h : isNaNWord s = true) : readInt64? s = none := by
  rw [isNaNWord, beq_iff_eq, List.map_eq_cons_iff] at h
  obtain ⟨c, cs, htext, hc, -⟩ := h
  have hdigit : c.isDigit = false := by
    rw [← Bool.not_eq_true]
    intro hdigit
    have hall : (['0', '1', '2', '3', '4', '5', '6', '7', '8', '9'].all (·.toLower != 'n')) =
      true := by decide
    exact bne_iff_ne.1 (List.all_eq_true.1 hall c (mem_digits_of_isDigit hdigit)) hc
  have hdigits : isDigits (takeSign s.toList).2 = false := by
    rw [htext]
    simp [isDigits, hdigit]
  simp [readInt64?, readInt?, hdigits]

end Decimal

/-- A word is read as a NaN only if it says so. -/
theorem Number.isNaNWord_iff (s : String) :
    Decimal.isNaNWord s = true ↔ ∃ n, ofText? s = some n ∧ n.toFloat.isNaN = true := by
  cases hwhole : Decimal.readInt64? s with
  | some value =>
    simp only [ofText?, hwhole]
    refine iff_of_false (fun h => ?_) ?_
    · cases hwhole.symm.trans (Decimal.readInt64?_of_isNaNWord h)
    · rintro ⟨_, ⟨⟩, hnan⟩
      cases (isNaN_ofInt value.toInt).symm.trans hnan
  | none =>
    simp only [ofText?, hwhole, ← Decimal.readFloat?_isNaN_iff, Option.map_eq_some_iff]
    constructor
    · rintro ⟨x, hx, hnan⟩
      exact ⟨_, ⟨x, hx, rfl⟩, hnan⟩
    · rintro ⟨_, ⟨x, hx, rfl⟩, hnan⟩
      exact ⟨x, hx, hnan⟩

end Logo
