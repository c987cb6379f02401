import Logo.Library.Control
import Logo.Proofs.Numerals

/-!
# The readers of numeric texts

Three readers take a number from a text: that of programs, for which a minus is a token of its own;
that of the inputs of arithmetic, for which it is the first character of a word; and that of the
counts of repetitions, which takes integers only.  Digits, with or without a point between them and
a minus before them, mean the same number to all three (`number_readers_agree`).  So a number that
stands in a list as a raw word counts as the number that the same characters write in a program,
also where it has more than 64 bits and is a floating-point number.
-/

namespace Logo

open Library Reader TokenRule

/-! ## Numeric texts -/

namespace Decimal

/-- The text consists of digits, or of digits with a point between them. -/
inductive IsMagnitude : List Char → Prop
  | whole {digits : List Char} (isDigits : isDigits digits = true) : IsMagnitude digits
  | pointed {digits fraction : List Char} (isDigits : isDigits digits = true)
      (isFraction : Decimal.isDigits fraction = true) : IsMagnitude (digits ++ '.' :: fraction)

/-- The text is a magnitude, with or without a minus before it. -/
inductive IsNumberText : String → Prop
  | unsigned {cs : List Char} (magnitude : IsMagnitude cs) : IsNumberText (String.ofList cs)
  | negative {cs : List Char} (magnitude : IsMagnitude cs) :
      IsNumberText (String.ofList ('-' :: cs))

theorem ne_nil_of_isDigits {cs : List Char} (h : isDigits cs = true) : cs ≠ [] := by
  rintro rfl
  cases h

theorem isDigit_of_isDigits {cs : List Char} (h : isDigits cs = true) :
    ∀ c ∈ cs, c.isDigit = true := by
  rw [isDigits, Bool.and_eq_true, List.all_eq_true] at h
  exact h.2

namespace IsMagnitude

variable {cs : List Char}

/-- The rule for numbers takes a magnitude as a whole. -/
theorem exists_token (h : IsMagnitude cs) : ∃ c s, cs = c :: s ∧ WholeToken .number c s := by
  cases h with
  | whole isDigits =>
    have htoken := Spelling.exists_number isDigits (.right .empty)
    rwa [List.append_nil] at htoken
  | @pointed digits fraction isDigits isFraction =>
    refine Spelling.exists_number isDigits
      (.left (Pattern.matches_seq_iff.2 ⟨['.'], fraction, rfl, .one rfl, ?_⟩))
    exact Pattern.matches_oneOrMore_iff.2
      ⟨ne_nil_of_isDigits isFraction, isDigit_of_isDigits isFraction⟩

theorem takeSign_eq (h : IsMagnitude cs) : takeSign cs = (false, cs) := by
  obtain ⟨c, s, rfl, hdigit⟩ : ∃ c s, cs = c :: s ∧ c.isDigit = true := by
    cases h with
    | whole isDigits | pointed isDigits =>
      obtain ⟨c, s, rfl⟩ := List.exists_cons_of_ne_nil (ne_nil_of_isDigits isDigits)
      exact ⟨c, _, rfl, isDigit_of_isDigits isDigits c List.mem_cons_self⟩
  refine takeSign_of_not_sign ?_ ?_ <;> rintro rfl <;> cases hdigit

/-- A magnitude is read as a number. -/
theorem isSome_readUnsigned? (h : IsMagnitude cs) : (readUnsigned? cs).isSome = true := by
  have hread : (readMagnitude? cs).isSome = true := by
    cases h with
    | whole isDigits => exact isSome_readMagnitude?_of_isDigits isDigits
    | pointed isDigits isFraction =>
      exact IsPointed.isSome_readMagnitude?
        ⟨_, _, ne_nil_of_isDigits isDigits, isDigit_of_isDigits isDigits,
        isDigit_of_isDigits isFraction, rfl⟩
  rw [Decimal.isSome_readUnsigned?, hread, Bool.or_true]

end IsMagnitude

theorem IsNumberText.exists_number {text : String} (h : IsNumberText text) :
    ∃ number, Number.ofText? text = some number := by
  rw [← Option.isSome_iff_exists, isSome_ofText?, isNumeral]
  cases h with
  | unsigned magnitude =>
    rw [String.toList_ofList, magnitude.takeSign_eq]
    exact magnitude.isSome_readUnsigned?
  | negative magnitude =>
    rw [String.toList_ofList]
    exact magnitude.isSome_readUnsigned?

theorem isNumberText_display (value : Int64) : IsNumberText (Node.integer value).display := by
  have htext : (Node.integer value).display = String.ofList (Node.integer value).toSource.toList :=
    String.ofList_toList.symm
  rw [htext]
  rcases Node.toList_toSource_integer value with ⟨n, -, hdigits⟩ | ⟨n, -, hdigits⟩
  · rw [hdigits]
    exact .unsigned (.whole (isDigits_toDigits n))
  · rw [hdigits]
    exact .negative (.whole (isDigits_toDigits n))

/-- An integer is read back from its print form. -/
theorem ofText?_display (value : Int64) :
    Number.ofText? (Node.integer value).display = some (.integer value) := by
  apply Number.ofText?_of_readInt?
  rcases Node.toList_toSource_integer value with ⟨n, hvalue, hdigits⟩ | ⟨n, hvalue, hdigits⟩
  · exact hvalue ▸ hdigits ▸ readInt?_toDigits n
  · exact hvalue ▸ hdigits ▸ readInt?_minus_toDigits n

end Decimal

open Decimal

/-! ## The three readers -/

/-- The readers of numeric texts take the text for the number.  A count of a repetition is an
integer and changes nothing in the interpreter. -/
structure Library.ReadAs (text : String) (number : Number) : Prop where
  literal : ∀ keep table, readText keep table text = (.ok [numberNode number], table)
  literalValue : toNumber (numberNode number) = .ok number
  wordValue : ∀ word ∈ [Node.symbol text, .quoted text], toNumber word = .ok number
  count : ∀ word ∈ [Node.symbol text, .quoted text], ∀ runBlock s value t,
    controlInteger runBlock word s = .value value t ↔ number = .integer value ∧ t = s

section Readers

variable {text : String} {number : Number}

/-- The reader of literals reads every number text as the number that words are read as. -/
theorem Reader.number_of_ofText? (h : Number.ofText? text = some number) (token : Token) :
    Reader.number token text = .ok (numberNode number) := by
  rw [number_eq, h]
  cases number <;> rfl

/-- The number of a word is an integer where the reader of integers takes the word. -/
theorem ofText?_eq_integer_iff (h : Number.ofText? text = some number) {value : Int64} :
    readInt64? text = some value ↔ number = .integer value := by
  rw [Number.ofText?] at h
  cases hwhole : readInt64? text with
  | some read =>
    rw [hwhole] at h
    cases h
    simp
  | none =>
    rw [hwhole] at h
    obtain ⟨x, -, rfl⟩ := Option.map_eq_some_iff.1 h
    simp

/-- A number text is a program with that number as its only node. -/
theorem readText_of_ofText? (h : IsNumberText text) (hnumber : Number.ofText? text = some number)
    (keep : Bool) (table : ProcedureTable) :
    readText keep table text = (.ok [numberNode number], table) := by
  cases h with
  | unsigned magnitude =>
    obtain ⟨c, s, rfl, htoken⟩ := magnitude.exists_token
    obtain ⟨ls, hspelling⟩ := Spelling.ofNumber htoken (number_of_ofText? hnumber)
    exact hspelling.readText_eq keep
  | negative magnitude =>
    obtain ⟨c, s, rfl, htoken⟩ := magnitude.exists_token
    have htext : String.ofList ('-' :: c :: s) = "-" ++ String.ofList (c :: s) := by
      simp
    obtain ⟨ls, hspelling⟩ := Spelling.ofSigned htoken (number_of_ofText? (htext ▸ hnumber))
    exact hspelling.readText_eq keep

/-- A word gives a count where it writes an integer. -/
theorem controlInteger_eq_value_iff {word : Node} (hword : word.wordText? = some text)
    {runBlock : Node → Action Node} {s t : Interpreter} {value : Int64} :
    controlInteger runBlock word s = .value value t ↔ readInt64? text = some value ∧ t = s := by
  cases hread : readInt64? text with
  | some count =>
    have hcount : controlInteger runBlock word s = .value count s := by
      rw [controlInteger, hword, Option.bind_some, hread]
      rfl
    simp [hcount, eq_comm]
  | none =>
    have hfails : controlInteger runBlock word s = .failure (.mismatch word [.integer]) s := by
      rw [controlInteger, hword, Option.bind_some, hread]
      cases word <;> first | rfl | cases hword
    simp [hfails]

theorem readAs_of_ofText? (h : IsNumberText text) (hnumber : Number.ofText? text = some number) :
    ReadAs text number where
  literal := readText_of_ofText? h hnumber
  literalValue := by cases number <;> rfl
  wordValue word hword := by
    rw [toNumber]
    rcases List.mem_pair.1 hword with rfl | rfl <;> rw [Node.toNumber?, hnumber]
  count word hword runBlock s value t := by
    have hwordText : word.wordText? = some text := by
      rcases List.mem_pair.1 hword with rfl | rfl <;> rfl
    rw [controlInteger_eq_value_iff hwordText, ofText?_eq_integer_iff hnumber]

end Readers

/-- The three readers take every numeric text for the same number, and read back every integer from
its print form. -/
theorem number_readers_agree :
    (∀ text, IsNumberText text → ∃ number, ReadAs text number) ∧
      ∀ value : Int64, IsNumberText (Node.integer value).display ∧
        ReadAs (Node.integer value).display (.integer value) := by
  refine ⟨fun text htext => ?_, fun value => ?_⟩
  · obtain ⟨number, hnumber⟩ := htext.exists_number
    exact ⟨number, readAs_of_ofText? htext hnumber⟩
  · have htext := isNumberText_display value
    exact ⟨htext, readAs_of_ofText? htext (ofText?_display value)⟩

/-- The least integer has no positive counterpart, and the whole number below it is none of the
integers. -/
theorem number_readers_agree_border :
    ReadAs "-9223372036854775808" (.integer Int64.minValue) ∧
      ∃ value, ReadAs "-9223372036854775809" (.float value) := by
  refine ⟨(number_readers_agree.2 Int64.minValue).2, ?_⟩
  have htext : IsNumberText "-9223372036854775809" :=
    @IsNumberText.negative "9223372036854775809".toList (.whole (by decide))
  obtain ⟨number, hread⟩ := number_readers_agree.1 _ htext
  cases number with
  | float value => exact ⟨value, hread⟩
  | integer value =>
    have hcount := (hread.count _ List.mem_cons_self pure .initial value .initial).2 ⟨rfl, rfl⟩
    have hwhole := (controlInteger_eq_value_iff rfl).1 hcount
    have hnone : readInt64? "-9223372036854775809" = none := by decide
    rw [hnone] at hwhole
    cases hwhole.1

end Logo
