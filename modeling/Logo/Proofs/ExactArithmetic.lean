import Logo.Library
import Logo.Proofs.Rounding

/-!
# Exact arithmetic

Arithmetic on integers never wraps around: the result is the exact one, or it is a floating-point
number.  `Number.ExactIf` says under which condition a result is which.

A sum or product of many inputs is computed from left to right.  It leaves the integers at the first
front of the inputs whose total has more than 64 bits, and does not come back to them, even if later
totals have 64 bits again.
-/

namespace Logo

open Library

/-! ## Inputs that stand for integers -/

/-- The node stands for an integer: it is one, or a word that writes one. -/
inductive Node.StandsFor : Node → Int64 → Prop
  | integer (value : Int64) : StandsFor (.integer value) value
  | quoted {text : String} {value : Int64} (written : Decimal.readInt64? text = some value) :
      StandsFor (.quoted text) value
  | symbol {text : String} {value : Int64} (written : Decimal.readInt64? text = some value) :
      StandsFor (.symbol text) value

namespace Node.StandsFor

variable {a : Node} {x : Int64}

theorem toNumber?_eq (h : a.StandsFor x) : a.toNumber? = some (.integer x) := by
  cases h with
  | integer => rfl
  | quoted written | symbol written => rw [Node.toNumber?, Number.ofText?, written]

theorem toNumber_eq (h : a.StandsFor x) : toNumber a = .ok (.integer x) := by
  rw [toNumber, h.toNumber?_eq]

end Node.StandsFor

/-! ## Exact results -/

namespace Number

/-- The integer has 64 bits. -/
def InRange (n : Int) : Prop :=
  -2 ^ 63 ≤ n ∧ n < 2 ^ 63

instance (n : Int) : Decidable (InRange n) :=
  inferInstanceAs (Decidable (_ ∧ _))

theorem inRange_toInt (value : Int64) : InRange value.toInt :=
  ⟨Int64.le_toInt value, Int64.toInt_lt value⟩

theorem fit?_of_inRange {n : Int} (h : InRange n) : Decimal.fit? n = some (Int64.ofInt n) :=
  if_pos ⟨h.1, Int.le_of_lt_add_one h.2⟩

theorem fit?_of_not_inRange {n : Int} (h : ¬InRange n) : Decimal.fit? n = none :=
  if_neg fun hfits => h ⟨hfits.1, Int.lt_add_one_of_le hfits.2⟩

/-- The number is the integer `n` where a condition holds, and a floating-point number where it does
not. -/
inductive ExactIf (condition : Prop) (n : Int) : Number → Prop
  | integer {value : Int64} (holds : condition) (exact : value.toInt = n) :
      ExactIf condition n (.integer value)
  | float {x : Float} (fails : ¬condition) : ExactIf condition n (.float x)

section ExactIf

variable {condition : Prop} {n : Int} {exact : Int → Int → Option Int}
  {approximate : Float → Float → Float} {x y : Int64}

theorem ExactIf.congr {condition' : Prop} {n' : Int} {a : Number} (h : a.ExactIf condition n)
    (hcondition : condition ↔ condition') (hn : condition → n = n') : a.ExactIf condition' n' := by
  cases h with
  | integer holds exact => exact .integer (hcondition.1 holds) (exact.trans (hn holds))
  | float fails => exact .float fun holds => fails (hcondition.2 holds)

/-- What is made of an exact result. -/
theorem exactIf_fit? (n : Int) (x : Float) :
    ExactIf (InRange n) n
      (match Decimal.fit? n with | some value => .integer value | none => .float x) := by
  by_cases hn : InRange n
  · rw [fit?_of_inRange hn]
    exact .integer hn (Int64.toInt_ofInt_of_le hn.1 hn.2)
  · rw [fit?_of_not_inRange hn]
    exact .float hn

/-- Two integers are combined exactly if the result is in range, and in floating point otherwise. -/
theorem exactIf_combine (h : exact x.toInt y.toInt = some n) :
    (combine exact approximate (.integer x) (.integer y)).ExactIf (InRange n) n := by
  have hexactly : (exact x.toInt y.toInt >>= Decimal.fit?) = Decimal.fit? n := by
    rw [h]
    rfl
  rw [combine, hexactly]
  exact exactIf_fit? n _

/-- Without an exact result the numbers are combined in floating point. -/
theorem exactIf_combine_of_none (h : exact x.toInt y.toInt = none) (fails : ¬condition) :
    (combine exact approximate (.integer x) (.integer y)).ExactIf condition n := by
  rw [combine, h]
  exact .float fails

theorem exactIf_neg (x : Int64) : (neg (.integer x)).ExactIf (InRange (-x.toInt)) (-x.toInt) :=
  exactIf_fit? _ _

theorem exactIf_abs (x : Int64) : (abs (.integer x)).ExactIf (InRange |x.toInt|) |x.toInt| := by
  rw [abs, Int.natCast_natAbs]
  exact exactIf_fit? _ _

end ExactIf

/-! ## Division -/

section Division

variable {x y : Int64}

theorem isZero_integer (y : Int64) : (Number.integer y).isZero = true ↔ y = 0 := by
  have hzero : IsWhole (0.0 : Float).toModel.unpack 0 := .zero .positive
  rw [isZero, beq_iff_of_isWhole (isWhole_toFloat y) hzero, nearest_eq_zero_iff, ← Int64.toInt_zero,
    Int64.toInt_inj]

/-- A quotient is exact if the divisor divides the dividend and the quotient is in range. -/
theorem exactIf_div (hy : y ≠ 0) : ∃ result, div? (.integer x) (.integer y) = some result ∧
    result.ExactIf (y.toInt ∣ x.toInt ∧ InRange (x.toInt / y.toInt)) (x.toInt / y.toInt) := by
  refine ⟨_, if_neg (mt (isZero_integer y).1 hy), ?_⟩
  by_cases hdvd : y.toInt ∣ x.toInt
  · have hquotient : x.toInt.tdiv y.toInt = x.toInt / y.toInt := Int.tdiv_eq_ediv_of_dvd hdvd
    refine (exactIf_combine (if_pos (Int.tmod_eq_zero_of_dvd hdvd))).congr ?_ fun _ => hquotient
    rw [hquotient]
    exact (and_iff_right hdvd).symm
  · exact exactIf_combine_of_none (if_neg (mt Int.dvd_of_tmod_eq_zero hdvd)) fun h => hdvd h.1

/-- There is one quotient of integers of 64 bits that has more. -/
theorem inRange_tdiv_iff (x y : Int64) :
    InRange (x.toInt.tdiv y.toInt) ↔ ¬(x = Int64.minValue ∧ y = -1) := by
  constructor
  · rintro h ⟨rfl, rfl⟩
    revert h
    decide
  · intro h
    rcases not_and_or.1 h with hx | hy
    · rw [← Int64.toInt_div_of_ne_left x y hx]
      exact inRange_toInt _
    · rw [← Int64.toInt_div_of_ne_right x y hy]
      exact inRange_toInt _

/-- A remainder is no larger than the divisor, so it is in range. -/
theorem inRange_tmod (x y : Int64) : InRange (x.toInt.tmod y.toInt) := by
  rw [← Int64.toInt_mod]
  exact inRange_toInt _

/-- A remainder is exact but for that of the least integer by -1. -/
theorem exactIf_mod (hy : y ≠ 0) : ∃ result, mod? (.integer x) (.integer y) = some result ∧
    result.ExactIf (¬(x = Int64.minValue ∧ y = -1)) (x.toInt.tmod y.toInt) := by
  refine ⟨_, if_neg (mt (isZero_integer y).1 hy), ?_⟩
  rw [← inRange_tdiv_iff]
  by_cases hquotient : InRange (x.toInt.tdiv y.toInt)
  · refine (exactIf_combine (n := x.toInt.tmod y.toInt) ?_).congr ?_ fun _ => rfl
    · rw [fit?_of_inRange hquotient, Option.map_some]
    · exact iff_of_true (inRange_tmod x y) hquotient
  · refine exactIf_combine_of_none ?_ hquotient
    rw [fit?_of_not_inRange hquotient, Option.map_none]

end Division

end Number

/-! ## Many inputs -/

section Folds

variable {op : Int → Int → Int} {unit n : Int} {seen : List Int}

/-- The total of every front of the integers has 64 bits. -/
def FrontsInRange (op : Int → Int → Int) (unit : Int) (seen : List Int) : Prop :=
  ∀ front, front <+: seen → Number.InRange (front.foldl op unit)

theorem frontsInRange_concat_iff :
    FrontsInRange op unit (seen ++ [n]) ↔
      FrontsInRange op unit seen ∧ Number.InRange (op (seen.foldl op unit) n) := by
  have hlast : (seen ++ [n]).foldl op unit = op (seen.foldl op unit) n := List.foldl_concat ..
  constructor
  · intro h
    refine ⟨fun front hfront => h front (hfront.trans (List.prefix_append ..)), ?_⟩
    rw [← hlast]
    exact h _ List.prefix_rfl
  · rintro ⟨hseen, hn⟩ front hfront
    rcases List.prefix_concat_iff.1 hfront with rfl | hfront
    · rw [hlast]
      exact hn
    · exact hseen front hfront

/-- One step of a fold: a total that has left the integers does not come back. -/
theorem exactIf_fold_step (approximate : Float → Float → Float) {total : Number} (x : Int64)
    (h : total.ExactIf (FrontsInRange op unit seen) (seen.foldl op unit)) :
    (Number.combine (fun x y => some (op x y)) approximate total (.integer x)).ExactIf
      (FrontsInRange op unit (seen ++ [x.toInt])) ((seen ++ [x.toInt]).foldl op unit) := by
  rw [List.foldl_concat, frontsInRange_concat_iff]
  cases h with
  | integer holds exact =>
    refine (Number.exactIf_combine rfl).congr ?_ ?_
    · rw [exact]
      exact (and_iff_right holds).symm
    · rw [exact]
      exact fun _ => rfl
  | float fails => exact .float fun h => fails h.1

/-- The total of numbers is exact as long as every front is in range, by induction on the
numbers. -/
theorem exactIf_foldNumbers (approximate : Float → Float → Float) {nodes : List Node}
    {values : List Int64} (hnodes : List.Forall₂ Node.StandsFor nodes values) {total : Number}
    (htotal : total.ExactIf (FrontsInRange op unit seen) (seen.foldl op unit)) :
    ∃ result, foldNumbers (Number.combine (fun x y => some (op x y)) approximate) total nodes =
      .ok result ∧ result.ExactIf (FrontsInRange op unit (seen ++ values.map Int64.toInt))
        ((seen ++ values.map Int64.toInt).foldl op unit) := by
  -- By induction on the inputs that are left; the others are in `seen`.
  induction hnodes generalizing seen total with
  | nil =>
    rw [List.map_nil, List.append_nil]
    exact ⟨total, rfl, htotal⟩
  | @cons node x nodes values hnode _ ih =>
    have hstep := exactIf_fold_step approximate x htotal
    obtain ⟨result, hresult, hexact⟩ := ih hstep
    rw [List.append_assoc] at hexact
    refine ⟨result, ?_, hexact⟩
    rw [foldNumbers, hnode.toNumber_eq]
    exact hresult

/-- A fold starts with its first input, as if with the unit before it. -/
theorem exactIf_fold_start (hunit : Number.InRange unit) (hop : ∀ n, op unit n = n) (x : Int64) :
    (Number.integer x).ExactIf (FrontsInRange op unit [x.toInt]) ([x.toInt].foldl op unit) := by
  have hfirst : [x.toInt].foldl op unit = x.toInt := hop _
  refine .integer ?_ hfirst.symm
  show FrontsInRange op unit ([] ++ [x.toInt])
  refine frontsInRange_concat_iff.2 ⟨?_, ?_⟩
  · intro front hfront
    rw [List.prefix_nil.1 hfront]
    exact hunit
  · rw [List.foldl_nil, hop]
    exact Number.inRange_toInt x

end Folds

/-! ## The primitives -/

section Primitives

/-- The outcome is the integer `n` where a condition holds, and a floating-point number where it
does not.  The state stays as it is. -/
def Outcome.ExactIf (outcome : Outcome Node) (s : Interpreter) (condition : Prop) (n : Int) :
    Prop :=
  ∃ result : Number, outcome = .value (numberNode result) s ∧ result.ExactIf condition n

variable {runBlock : Node → Action Node} {s : Interpreter} {a b : Node} {x y : Int64}
  {rest : List Node} {values : List Int64}

namespace Outcome.ExactIf

variable {outcome : Outcome Node} {condition : Prop} {n : Int}

theorem integer (h : outcome.ExactIf s condition n) (holds : condition) :
    ∃ value : Int64, outcome = .value (.integer value) s ∧ value.toInt = n := by
  obtain ⟨_, rfl, hexact⟩ := h
  cases hexact with
  | integer _ exact => exact ⟨_, rfl, exact⟩
  | float fails => exact absurd holds fails

theorem float (h : outcome.ExactIf s condition n) (fails : ¬condition) :
    ∃ value : Float, outcome = .value (.float value) s := by
  obtain ⟨_, rfl, hexact⟩ := h
  cases hexact with
  | integer holds => exact absurd holds fails
  | float => exact ⟨_, rfl⟩

end Outcome.ExactIf

/-- The result of a primitive that folds all its inputs. -/
theorem exactIf_fold {op : Int → Int → Int} {unit : Int} (approximate : Float → Float → Float)
    (hunit : Number.InRange unit) (hop : ∀ n, op unit n = n) (ha : a.StandsFor x)
    (hrest : List.Forall₂ Node.StandsFor rest values) :
    (Action.ofExcept (do
      let first ← toNumber a
      let total ← foldNumbers (Number.combine (fun x y => some (op x y)) approximate) first rest
      return numberNode total) s).ExactIf s (FrontsInRange op unit ((x :: values).map Int64.toInt))
        (((x :: values).map Int64.toInt).foldl op unit) := by
  obtain ⟨total, htotal, hexact⟩ :=
    exactIf_foldNumbers approximate hrest (exactIf_fold_start hunit hop x)
  refine ⟨total, ?_, hexact⟩
  rw [ha.toNumber_eq]
  show Action.ofExcept
    (foldNumbers _ (.integer x) rest >>= fun total => .ok (numberNode total)) s = _
  rw [htotal]
  rfl

/-- Sums are exact as long as every front is in range. -/
theorem exactIf_add (ha : a.StandsFor x) (hrest : List.Forall₂ Node.StandsFor rest values) :
    let exact := (x :: values).map Int64.toInt
    (perform runBlock .add (a :: rest) s).ExactIf s
      (∀ front, front <+: exact → Number.InRange front.sum) exact.sum := by
  simp only [List.sum_eq_foldl]
  exact exactIf_fold (· + ·) (by decide) Int.zero_add ha hrest

/-- Products are exact as long as every front is in range. -/
theorem exactIf_mul (ha : a.StandsFor x) (hrest : List.Forall₂ Node.StandsFor rest values) :
    let exact := (x :: values).map Int64.toInt
    (perform runBlock .mul (a :: rest) s).ExactIf s
      (∀ front, front <+: exact → Number.InRange front.prod) exact.prod := by
  simp only [List.prod_eq_foldl]
  exact exactIf_fold (· * ·) (by decide) Int.one_mul ha hrest

/-- A difference is exact if it is in range. -/
theorem exactIf_sub (ha : a.StandsFor x) (hb : b.StandsFor y) :
    (perform runBlock .sub (a :: b :: rest) s).ExactIf s (Number.InRange (x.toInt - y.toInt))
      (x.toInt - y.toInt) := by
  refine ⟨Number.sub (.integer x) (.integer y), ?_, Number.exactIf_combine rfl⟩
  rw [perform, sub, ha.toNumber_eq, hb.toNumber_eq]
  rfl

theorem exactIf_minus (ha : a.StandsFor x) :
    (perform runBlock .minus (a :: rest) s).ExactIf s (Number.InRange (-x.toInt)) (-x.toInt) := by
  refine ⟨_, ?_, Number.exactIf_neg x⟩
  rw [perform, minus, ha.toNumber_eq]
  rfl

theorem exactIf_absolute (ha : a.StandsFor x) :
    (perform runBlock .abs (a :: rest) s).ExactIf s (Number.InRange |x.toInt|) |x.toInt| := by
  refine ⟨_, ?_, Number.exactIf_abs x⟩
  rw [perform, Library.abs, ha.toNumber_eq]
  rfl

/-- A primitive with a divisor fails for the divisor zero, and for no other. -/
theorem exactIf_divided {f : Number → Number → Option Number} {condition : Prop} {n : Int}
    (ha : a.StandsFor x) (hb : b.StandsFor y) (hzero : y = 0 → f (.integer x) (.integer y) = none)
    (hresult : y ≠ 0 → ∃ result, f (.integer x) (.integer y) = some result ∧
        result.ExactIf condition n) :
    (Action.ofExcept (divided f a b) s = .failure .divisionByZero s ↔ y = 0) ∧
      (y ≠ 0 → (Action.ofExcept (divided f a b) s).ExactIf s condition n) := by
  by_cases hy : y = 0
  · have hfails : divided f a b = .error .divisionByZero := by
      simp only [divided, ha.toNumber_eq, hb.toNumber_eq, hzero hy, bind, Except.bind]
      rfl
    rw [hfails]
    exact ⟨iff_of_true rfl hy, fun hne => absurd hy hne⟩
  · obtain ⟨result, hsome, hexact⟩ := hresult hy
    have hgives : divided f a b = .ok (numberNode result) := by
      simp only [divided, ha.toNumber_eq, hb.toNumber_eq, hsome, bind, Except.bind]
      rfl
    rw [hgives]
    exact ⟨iff_of_false nofun hy, fun _ => ⟨result, rfl, hexact⟩⟩

/-- Integer arithmetic never wraps around.  A sum or product is exact as long as the total of every
front of its inputs has 64 bits, every other result as long as it has 64 bits itself; otherwise the
result is a floating-point number.  Only the divisor zero fails. -/
theorem integer_arithmetic_never_wraps (runBlock : Node → Action Node) (s : Interpreter)
    (ha : a.StandsFor x) (hb : b.StandsFor y) (hrest : List.Forall₂ Node.StandsFor rest values) :
    let exact := (x :: y :: values).map Int64.toInt
    (perform runBlock .add (a :: b :: rest) s).ExactIf s
        (∀ front, front <+: exact → Number.InRange front.sum) exact.sum ∧
      (perform runBlock .mul (a :: b :: rest) s).ExactIf s
        (∀ front, front <+: exact → Number.InRange front.prod) exact.prod ∧
      (perform runBlock .sub (a :: b :: rest) s).ExactIf s
        (Number.InRange (x.toInt - y.toInt)) (x.toInt - y.toInt) ∧
      (perform runBlock .minus (a :: rest) s).ExactIf s (Number.InRange (-x.toInt)) (-x.toInt) ∧
      (perform runBlock .abs (a :: rest) s).ExactIf s (Number.InRange |x.toInt|) |x.toInt| ∧
      (perform runBlock .div (a :: b :: rest) s = .failure .divisionByZero s ↔ y = 0) ∧
      (y ≠ 0 → (perform runBlock .div (a :: b :: rest) s).ExactIf s
        (y.toInt ∣ x.toInt ∧ Number.InRange (x.toInt / y.toInt)) (x.toInt / y.toInt)) ∧
      (perform runBlock .mod (a :: b :: rest) s = .failure .divisionByZero s ↔ y = 0) ∧
      (y ≠ 0 → (perform runBlock .mod (a :: b :: rest) s).ExactIf s
        (¬(x = Int64.minValue ∧ y = -1)) (x.toInt.tmod y.toInt)) := by
  have hzero : y = 0 → (Number.integer y).isZero = true := (Number.isZero_integer y).2
  obtain ⟨hdivZero, hdiv⟩ :=
    exactIf_divided (f := Number.div?) (s := s) ha hb (fun h => if_pos (hzero h)) Number.exactIf_div
  obtain ⟨hmodZero, hmod⟩ :=
    exactIf_divided (f := Number.mod?) (s := s) ha hb (fun h => if_pos (hzero h)) Number.exactIf_mod
  exact ⟨exactIf_add ha (.cons hb hrest), exactIf_mul ha (.cons hb hrest), exactIf_sub ha hb,
    exactIf_minus ha,
    exactIf_absolute ha, hdivZero, hdiv, hmodZero, hmod⟩

/-- At the border: the sum leaves the integers in between, and the quotient is the one that has too
many bits. -/
theorem integer_arithmetic_never_wraps_border :
    let outcome := fun primitive => perform (fun _ => pure .none) primitive
      [.quoted "-9223372036854775808", .integer (-1), .symbol "+1"] Interpreter.initial
    (∃ value, outcome .add = .value (.float value) .initial) ∧
      (∃ value : Int64, outcome .sub = .value (.integer value) .initial ∧
      value.toInt = -9223372036854775807) ∧
      (∃ value, outcome .div = .value (.float value) .initial) ∧
      (∃ value, outcome .mod = .value (.float value) .initial) := by
  have ha : Node.StandsFor (.quoted "-9223372036854775808") Int64.minValue := .quoted (by decide)
  have hrest : List.Forall₂ Node.StandsFor [.symbol "+1"] [1] := .cons (.symbol (by decide)) .nil
  obtain ⟨hadd, -, hsub, -, -, -, hdiv, -, hmod⟩ :=
    integer_arithmetic_never_wraps (fun _ => pure .none) .initial ha (.integer (-1)) hrest
  refine ⟨hadd.float ?_, hsub.integer (by decide), (hdiv (by decide)).float (by decide),
    (hmod (by decide)).float (by decide)⟩
  intro h
  have hfront : ¬Number.InRange [Int64.minValue.toInt, -1].sum := by decide
  exact hfront (h _ ⟨[1], rfl⟩)

end Primitives

end Logo
