import Logo.Proofs.ExactArithmetic

/-!
# Comparing integers

The six comparisons turn both numbers into floating-point numbers first.  So integers are compared
by what `Number.nearest` makes of them, and two different integers that are rounded to the same
number are taken for equal.  Rounding keeps the order, so this is all that goes wrong: where the
rounded integers differ, every comparison answers as it would for the integers themselves.
-/

namespace Logo

open Library Number

/-- The primitives that compare two numbers. -/
inductive Comparison where
  | equal
  | notEqual
  | less
  | greater
  | lessEqual
  | greaterEqual

namespace Comparison

/-- The primitive that makes a comparison. -/
def primitive : Comparison → Primitive
  | equal => .equal
  | notEqual => .notEqual
  | less => .less
  | greater => .greater
  | lessEqual => .lessEqual
  | greaterEqual => .greaterEqual

/-- What a comparison says of two integers. -/
def holds : Comparison → Int → Int → Bool
  | equal, m, n => m = n
  | notEqual, m, n => m ≠ n
  | less, m, n => m < n
  | greater, m, n => n < m
  | lessEqual, m, n => m ≤ n
  | greaterEqual, m, n => n ≤ m

/-- Rounding changes no comparison of two integers unless it takes them for one. -/
theorem holds_nearest (c : Comparison) {m n : Int} (h : nearest m = nearest n → m = n) :
    c.holds (nearest m) (nearest n) = c.holds m n := by
  have hle := nearest_le_iff fun hround => (h hround.symm).symm
  have hge := nearest_le_iff h
  cases c <;> simp only [holds, decide_eq_decide] <;> omega

section Rounded

variable {runBlock : Node → Action Node} {s : Interpreter} {a b : Node} {x y : Int64}
  {rest : List Node}

theorem alike_integers (ha : a.StandsFor x) (hb : b.StandsFor y) :
    a.alike b = decide (nearest x.toInt = nearest y.toInt) := by
  have hwords : a.alike b = a.alikeWords b := by
    cases ha <;> cases hb <;> rfl
  rw [hwords, Node.alikeWords, ha.toNumber?_eq, hb.toNumber?_eq, Bool.eq_iff_iff,
    decide_eq_true_iff]
  exact beq_iff_of_isWhole (isWhole_toFloat x) (isWhole_toFloat y)

theorem compare_integers (test : Float → Float → Bool) (ha : a.StandsFor x) (hb : b.StandsFor y) :
    Library.compare test a b =
      .ok (.boolean (test (Number.integer x).toFloat (Number.integer y).toFloat)) := by
  rw [Library.compare, ha.toNumber_eq, hb.toNumber_eq]
  rfl

/-- Every comparison of integers is one of the rounded integers. -/
theorem perform_integers (c : Comparison) (ha : a.StandsFor x) (hb : b.StandsFor y) :
    perform runBlock c.primitive (a :: b :: rest) s =
      .value (.boolean (c.holds (nearest x.toInt) (nearest y.toInt))) s := by
  have hx := isWhole_toFloat x
  have hy := isWhole_toFloat y
  have hpure : ∀ {m n : Node}, m = n → Action.ofExcept (.ok m) s = .value n s := by
    rintro m _ rfl
    rfl
  cases c with
  | equal =>
    rw [primitive, perform, alike_integers ha hb]
    rfl
  | notEqual =>
    rw [primitive, perform, alike_integers ha hb, ← decide_not]
    rfl
  | less =>
    rw [primitive, perform, Library.less, compare_integers _ ha hb]
    exact hpure (congrArg _ (decide_eq_decide.2 (lt_iff_of_isWhole hx hy)))
  | greater =>
    rw [primitive, perform, Library.greater, compare_integers _ ha hb]
    exact hpure (congrArg _ (decide_eq_decide.2 (lt_iff_of_isWhole hy hx)))
  | lessEqual =>
    rw [primitive, perform, Library.lessEqual, compare_integers _ ha hb]
    exact hpure (congrArg _ (decide_eq_decide.2 (le_iff_of_isWhole hx hy)))
  | greaterEqual =>
    rw [primitive, perform, Library.greaterEqual, compare_integers _ ha hb]
    exact hpure (congrArg _ (decide_eq_decide.2 (le_iff_of_isWhole hy hx)))

/-- The comparisons of two integers go by their rounded values.  All of them answer as for the
integers themselves if and only if rounding does not take two different ones for one, and so they do
up to 2 ^ 53. -/
theorem integers_compared_by_rounded_value (runBlock : Node → Action Node) (s : Interpreter)
    (rest : List Node) (ha : a.StandsFor x) (hb : b.StandsFor y) :
    let answers := fun (c : Comparison) flag =>
      perform runBlock c.primitive (a :: b :: rest) s = .value (.boolean flag) s
    (∀ c, answers c (c.holds (nearest x.toInt) (nearest y.toInt))) ∧
      ((∀ c, answers c (c.holds x.toInt y.toInt)) ↔ (nearest x.toInt = nearest y.toInt → x = y)) ∧
      (x.toInt.natAbs ≤ 2 ^ 53 → y.toInt.natAbs ≤ 2 ^ 53 →
        ∀ c, answers c (c.holds x.toInt y.toInt)) := by
  intro answers
  have hrounded : ∀ c, answers c (c.holds (nearest x.toInt) (nearest y.toInt)) :=
    fun c => perform_integers c ha hb
  have hexact : (nearest x.toInt = nearest y.toInt → x = y) →
      ∀ c, answers c (c.holds x.toInt y.toInt) := by
    intro h c
    rw [← c.holds_nearest fun hround => congrArg Int64.toInt (h hround)]
    exact hrounded c
  refine ⟨hrounded, ⟨fun hall hround => ?_, hexact⟩, fun hx hy => hexact ?_⟩
  · have hequal : answers .equal true := by
      have h := hrounded .equal
      rwa [holds, decide_eq_true hround] at h
    have hflag : decide (x.toInt = y.toInt) = true := by
      injection (hall .equal).symm.trans hequal with hnode
      injection hnode
    exact Int64.toInt_inj.1 (of_decide_eq_true hflag)
  · rw [nearest_of_natAbs_le hx, nearest_of_natAbs_le hy, Int64.toInt_inj]
    exact id

/-- The integer behind 2 ^ 53 is rounded to it, and so taken for equal to it. -/
theorem neighbours_taken_for_equal :
    ¬ ∀ (runBlock : Node → Action Node) (s : Interpreter) (a b : Node) (x y : Int64),
      a.StandsFor x → b.StandsFor y →
      ∀ c : Comparison, perform runBlock c.primitive [a, b] s =
        .value (.boolean (c.holds x.toInt y.toInt)) s := by
  intro hall
  have hclaim := hall (fun _ => pure .none) .initial _ _ 9007199254740993 9007199254740992
    (.integer _) (.integer _) .equal
  rw [perform_integers .equal (.integer _) (.integer _)] at hclaim
  injection hclaim with hnode
  injection hnode with hflag
  revert hflag
  decide

/-- A word and a number up to 2 ^ 53 are compared as integers. -/
theorem integers_compared_by_rounded_value_small :
    perform (fun _ => pure .none) .less [.quoted "9007199254740991", .integer 9007199254740992]
      .initial = .value (.boolean true) .initial := by
  have ha : Node.StandsFor (.quoted "9007199254740991") 9007199254740991 := .quoted (by decide)
  have hb : Node.StandsFor (.integer 9007199254740992) 9007199254740992 := .integer _
  exact (integers_compared_by_rounded_value (fun _ => pure .none) .initial [] ha hb).2.2 (by decide)
    (by decide) .less

end Rounded

end Comparison

end Logo
