import Logo.Proofs.Numerals
import Logo.Proofs.TemplateSlot

/-!
# Equality is an equivalence

Two words are compared as numbers if both are numerals, and by their print forms in lower case
otherwise.  Which of the two comparisons is made could depend on the pair; what makes equality
transitive is that it does not.  The print form of a value is a numeral exactly if the value is a
number (`IsData.isNumeral_display`), and this does not depend on case, so a number and a word that
is none are never alike.
-/

namespace Logo

namespace Node

/-- A value that is no program: a number, a truth value, a word, or a list of such values. -/
inductive IsData : Node → Prop
  | integer (value : Int64) : IsData (.integer value)
  | float (value : Float) : IsData (.float value)
  | boolean (value : Bool) : IsData (.boolean value)
  | nil : IsData .nil
  | none : IsData .none
  | quoted (text : String) : IsData (.quoted text)
  | symbol (text : String) : IsData (.symbol text)
  | list {items : List Node} (each : ∀ item ∈ items, IsData item) : IsData (.list items)

/-- A word of the node is or reads as the number that is not equal to itself. -/
inductive HasNaN : Node → Prop
  | word {a : Node} {n : Number} (reads : a.toNumber? = some n) (nan : n.toFloat.isNaN = true) :
      HasNaN a
  | item {items : List Node} {item : Node} (mem : item ∈ items) (within : HasNaN item) :
      HasNaN (.list items)

/-- The node is a list. -/
def isList : Node → Bool
  | list _ => true
  | _ => false

/-! ## Words -/

section Words

variable {a b c : Node}

/-- The print form of a value tells whether it is a number. -/
theorem IsData.isNumeral_display (h : a.IsData) (hword : a.isList = false) :
    Decimal.isNumeral a.display.toList = a.toNumber?.isSome := by
  cases h with
  | integer value =>
    rw [← Decimal.isSome_ofText?]
    exact congrArg Option.isSome (toNumber?_asItem_integer value)
  | float value => exact Decimal.isNumeral_floatText value
  | boolean value => cases value <;> decide
  | nil | none => decide
  | quoted text | symbol text => exact (Decimal.isSome_ofText? text).symm
  | list => cases hword

/-- Values are alike that are equal numbers, or no numbers and the same text in lower case. -/
theorem IsData.alikeWords_iff (ha : a.IsData) (hb : b.IsData) (haw : a.isList = false)
    (hbw : b.isList = false) :
    a.alikeWords b = true ↔
      (∃ x y, a.toNumber? = some x ∧ b.toNumber? = some y ∧ (x.toFloat == y.toFloat) = true) ∨
        a.toNumber? = Option.none ∧ b.toNumber? = Option.none ∧
        Text.toLower a.display = Text.toLower b.display := by
  have hkinds : Text.toLower a.display = Text.toLower b.display →
      a.toNumber?.isSome = b.toNumber?.isSome := by
    intro hsame
    rw [← ha.isNumeral_display haw, ← hb.isNumeral_display hbw, Decimal.isNumeral_congr hsame]
  rw [alikeWords]
  cases hx : a.toNumber? with
  | none =>
    cases hy : b.toNumber? with
    | none => simp
    | some y =>
      rw [hx, hy] at hkinds
      simpa using hkinds
  | some x =>
    cases hy : b.toNumber? with
    | none =>
      rw [hx, hy] at hkinds
      simpa using hkinds
    | some y => simp

/-- Two words are compared by value, by text or not at all, and in each case either way round. -/
theorem alikeWords_comm (a b : Node) : a.alikeWords b = b.alikeWords a := by
  rw [alikeWords, alikeWords]
  cases a.toNumber? with
  | none =>
    cases b.toNumber? with
    | none | some => exact BEq.comm
  | some x =>
    cases b.toNumber? with
    | none => exact BEq.comm
    | some y => exact beq_float_comm x.toFloat y.toFloat

/-- Words that are alike to one word are alike: numbers by way of it, and texts by way of its lower
case. -/
theorem IsData.alikeWords_trans (ha : a.IsData) (hb : b.IsData) (hc : c.IsData)
    (haw : a.isList = false) (hbw : b.isList = false) (hcw : c.isList = false)
    (hab : a.alikeWords b = true) (hbc : b.alikeWords c = true) : a.alikeWords c = true := by
  rw [ha.alikeWords_iff hb haw hbw] at hab
  rw [hb.alikeWords_iff hc hbw hcw] at hbc
  rw [ha.alikeWords_iff hc haw hcw]
  rcases hab with ⟨x, y, hx, hy, hxy⟩ | ⟨hx, hy, htext⟩
  · rcases hbc with ⟨y', z, hy', hz, hyz⟩ | ⟨hy', -, -⟩
    · cases hy.symm.trans hy'
      exact .inl ⟨x, z, hx, hz, beq_float_trans hxy hyz⟩
    · cases hy.symm.trans hy'
  · rcases hbc with ⟨y', z, hy', -, -⟩ | ⟨-, hz, htext'⟩
    · cases hy.symm.trans hy'
    · exact .inr ⟨hx, hz, htext.trans htext'⟩

theorem ne_list_of_isList (h : a.isList = false) (items : List Node) : a ≠ .list items := by
  rintro rfl
  cases h

theorem alike_of_words (ha : a.isList = false) (hb : b.isList = false) :
    a.alike b = a.alikeWords b := by
  rw [alike]
  · exact ne_list_of_isList ha
  · exact ne_list_of_isList hb
  · exact fun items _ heq _ => ne_list_of_isList ha items heq

/-- A list is alike to lists only. -/
theorem isList_eq_of_alike (h : a.alike b = true) : a.isList = b.isList := by
  cases a <;> cases b <;> first | rfl | simp [alike] at h

theorem alike_comm_of_list_of_word (ha : a.isList = true) (hb : b.isList = false) :
    a.alike b = b.alike a := by
  have hne : a.isList ≠ b.isList := by
    rw [ha, hb]
    decide
  rw [Bool.eq_false_iff.2 fun h => hne (isList_eq_of_alike h),
    Bool.eq_false_iff.2 fun h => hne (isList_eq_of_alike h).symm]

end Words

/-! ## Lists -/

section Lists

variable {as bs cs : List Node}

theorem alikeEach_comm (h : ∀ a ∈ as, ∀ b, b ∈ bs → a.alike b = b.alike a) :
    alikeEach as bs = alikeEach bs as := by
  induction as generalizing bs with
  | nil => cases bs <;> rfl
  | cons a as ih =>
    cases bs with
    | nil => rfl
    | cons b bs =>
      rw [alikeEach, alikeEach, h a List.mem_cons_self b List.mem_cons_self,
        ih fun a ha b hb => h a (List.mem_cons_of_mem _ ha) b (List.mem_cons_of_mem _ hb)]

/-- Lists that are alike to one list are alike if this holds of their items. -/
theorem alikeEach_trans
    (h : ∀ a ∈ as, ∀ b ∈ bs, ∀ c ∈ cs, a.alike b = true → b.alike c = true → a.alike c = true)
    (hab : alikeEach as bs = true) (hbc : alikeEach bs cs = true) : alikeEach as cs = true := by
  induction as generalizing bs cs with
  | nil =>
    cases bs with
    | nil => exact hbc
    | cons => cases hab
  | cons a as ih =>
    cases bs with
    | nil => cases hab
    | cons b bs =>
      cases cs with
      | nil => cases hbc
      | cons c cs =>
        rw [alikeEach, Bool.and_eq_true] at hab hbc ⊢
        refine ⟨h a List.mem_cons_self b List.mem_cons_self c List.mem_cons_self hab.1 hbc.1, ?_⟩
        exact ih (fun a ha b hb c hc =>
          h a (List.mem_cons_of_mem _ ha) b (List.mem_cons_of_mem _ hb) c
          (List.mem_cons_of_mem _ hc)) hab.2 hbc.2

theorem alikeEach_self_iff : alikeEach as as = true ↔ ∀ a ∈ as, a.alike a = true := by
  induction as with
  | nil => exact iff_of_true rfl nofun
  | cons a as ih => rw [alikeEach, Bool.and_eq_true, ih, List.forall_mem_cons]

end Lists

/-! ## Values of any depth -/

section Data

variable {a b c : Node}

theorem IsData.items {items : List Node} (h : IsData (.list items)) :
    ∀ item ∈ items, item.IsData := by
  cases h with
  | list each => exact each

theorem eq_list_of_isList (h : a.isList = true) : ∃ items, a = .list items := by
  cases a with
  | list items => exact ⟨items, rfl⟩
  | _ => cases h

/-- Data that are alike to one value are alike. -/
theorem IsData.alike_trans (ha : a.IsData) (hb : b.IsData) (hc : c.IsData) (hab : a.alike b = true)
    (hbc : b.alike c = true) : a.alike c = true := by
  have hlists := isList_eq_of_alike hab
  have hlists' := isList_eq_of_alike hbc
  induction ha generalizing b c with
  | @list items each ih =>
    obtain ⟨items', rfl⟩ := eq_list_of_isList hlists.symm
    obtain ⟨items'', rfl⟩ := eq_list_of_isList hlists'.symm
    refine alikeEach_trans (fun a ha b hb' c hc' hab hbc => ?_) hab hbc
    exact ih a ha (hb.items b hb') (hc.items c hc') hab hbc (isList_eq_of_alike hab)
      (isList_eq_of_alike hbc)
  | _ =>
    rw [alike_of_words rfl hlists.symm] at hab
    rw [alike_of_words hlists.symm (hlists.trans hlists').symm] at hbc
    rw [alike_of_words rfl (hlists.trans hlists').symm]
    exact IsData.alikeWords_trans (by constructor) hb hc rfl hlists.symm
      (hlists.trans hlists').symm hab hbc

/-- Data are compared either way round. -/
theorem IsData.alike_comm (ha : a.IsData) (b : Node) : a.alike b = b.alike a := by
  induction ha generalizing b with
  | @list items each ih =>
    cases hb : b.isList with
    | true =>
      obtain ⟨items', rfl⟩ := eq_list_of_isList hb
      rw [alike, alike]
      exact alikeEach_comm fun a ha b _ => ih a ha b
    | false => exact alike_comm_of_list_of_word rfl hb
  | _ =>
    cases hb : b.isList with
    | true => exact (alike_comm_of_list_of_word hb rfl).symm
    | false => rw [alike_of_words rfl hb, alike_of_words hb rfl, alikeWords_comm]

/-- A value is alike to itself unless there is a NaN in it. -/
theorem IsData.alike_self_iff (ha : a.IsData) : a.alike a = true ↔ ¬a.HasNaN := by
  induction ha with
  | @list items each ih =>
    rw [alike, alikeEach_self_iff]
    constructor
    · intro h hhas
      cases hhas with
      | word reads => cases reads
      | item mem within => exact (ih _ mem).1 (h _ mem) within
    · exact fun h item hitem => (ih item hitem).2 fun within => h (.item hitem within)
  | _ =>
    rw [alike_of_words rfl rfl, alikeWords_self_iff]
    constructor
    · intro h hhas
      cases hhas with
      | word reads nan => cases (h _ reads).symm.trans nan
    · exact fun h n reads => Bool.eq_false_iff.2 fun nan => h (.word reads nan)

/-- Equality as programs see it is an equivalence on data, as far as it is reflexive: it is
symmetric and transitive, and a value is equal to itself if and only if there is no NaN among its
words. -/
theorem alike_equivalence :
    (∀ a b : Node, a.IsData → b.IsData → a.alike b = true → b.alike a = true) ∧
      (∀ a b c : Node, a.IsData → b.IsData → c.IsData → a.alike b = true → b.alike c = true →
        a.alike c = true) ∧
      ∀ a : Node, a.IsData → (a.alike a = true ↔ ¬a.HasNaN) :=
  ⟨fun _ b ha _ hab => (ha.alike_comm b).symm.trans hab, fun _ _ _ ha hb hc => ha.alike_trans hb hc,
    fun _ ha => ha.alike_self_iff⟩

/-- A number, a word that writes it and another one, and a truth value and its word, in lists. -/
theorem alike_equivalence_lists :
    alike (.list [.integer 1, .quoted "TRUE"]) (.list [.symbol "1.0", .boolean true]) = true ∧
      alike (.list [.symbol "1.0", .boolean true]) (.list [.quoted "1E0", .symbol "True"]) = true ∧
      alike (.list [.integer 1, .quoted "TRUE"])
        (.list [.quoted "1E0", .symbol "True"]) = true := by
  have hfirst :
      alike (.list [.integer 1, .quoted "TRUE"]) (.list [.symbol "1.0", .boolean true]) = true := by
    decide +kernel
  have hsecond : alike (.list [.symbol "1.0", .boolean true])
      (.list [.quoted "1E0", .symbol "True"]) = true := by
    decide +kernel
  have hdata : ∀ {a b : Node}, a.IsData → b.IsData → IsData (.list [a, b]) := fun ha hb =>
    .list (List.forall_mem_cons.2 ⟨ha, List.forall_mem_cons.2 ⟨hb, nofun⟩⟩)
  refine ⟨hfirst, hsecond, alike_equivalence.2.1 _ _ _ ?_ ?_ ?_ hfirst hsecond⟩
  · exact hdata (.integer 1) (.quoted _)
  · exact hdata (.symbol _) (.boolean true)
  · exact hdata (.quoted _) (.symbol _)

end Data

end Node

end Logo
