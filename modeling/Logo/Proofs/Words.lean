import Logo.Node.Print
import Logo.Proofs.Spelling
import Mathlib.Data.Nat.Digits.Defs

/-!
# Spellings of words

The words of a program are one token each, apart from a negative number, which is a minus and a
number.  A mark or a digit at the start of a word leaves a single rule besides that for stray
characters, so it is enough that this rule matches the whole word (`TokenRule.longest_of_starting`).
The digits of a number are read back as its value (`Decimal.readInt?_toDigits`).
-/

namespace Logo

open TokenRule Token Lexeme Reader Pattern

/-! ## Tokens that take a whole text -/

/-- A pattern that matches a whole text takes it. -/
theorem Pattern.munch_of_matches {p : Pattern} {cs : List Char} (h : Matches p cs) :
    p.munch cs = cs.length := by
  refine munch_eq_iff.2 ⟨Nat.le_refl _, fun _ => ?_, fun m hlt hle => ?_⟩
  · rwa [List.take_length]
  · exact absurd hlt (Nat.not_lt.2 hle)

/-- With the rule for stray characters as its only rival, a match of the whole text wins. -/
theorem TokenRule.longest_of_starting {kind : TokenClass} {p : Pattern} {c : Char} {s : List Char}
    (hrules : starting c code = [⟨kind, p⟩, ⟨.stray, one (· != '\n')⟩]) (h : Matches p (c :: s)) :
    longest code (c :: s) = (kind, s.length + 1) := by
  have hmunch : p.munch (c :: s) = s.length + 1 := munch_of_matches h
  rw [longest_starting, hrules]
  simp only [longest, List.foldl_cons, List.foldl_nil, hmunch, munch_one,
    if_pos (Nat.succ_pos s.length)]
  rw [if_neg]
  split <;> omega

/-- Behind a quotation mark the lexer takes all that does not end a word. -/
theorem longest_quote {s : List Char} (h : ∀ c ∈ s, endsWord c = false) :
    longest code ('"' :: s) = (.quote, s.length + 1) := by
  refine longest_of_starting (p := seq (one (· == '"')) (many (one (!endsWord ·)))) rfl ?_
  refine matches_seq_iff.2 ⟨['"'], s, rfl, .one rfl, matches_many_one_iff.2 fun c hc => ?_⟩
  rw [h c hc]
  rfl

/-- Behind a colon it takes all that does not end a reference. -/
theorem longest_reference {s : List Char} (hne : s ≠ []) (h : ∀ c ∈ s, endsReference c = false) :
    longest code (':' :: s) = (.reference, s.length + 1) := by
  refine longest_of_starting (p := seq (one (· == ':')) (oneOrMore (!endsReference ·))) rfl ?_
  refine matches_seq_iff.2 ⟨[':'], s, rfl, .one rfl, matches_oneOrMore_iff.2 ⟨hne, fun c hc => ?_⟩⟩
  rw [h c hc]
  rfl

theorem mem_digits_of_isDigit {c : Char} (h : c.isDigit = true) :
    c ∈ ['0', '1', '2', '3', '4', '5', '6', '7', '8', '9'] := by
  have hmem : c.toNat - 48 < 10 ∧ c = Char.ofNat (48 + (c.toNat - 48)) := by
    simp only [Char.isDigit, Bool.and_eq_true, decide_eq_true_eq, ge_iff_le,
      UInt32.le_iff_toNat_le] at h
    have hlow : 48 ≤ c.toNat := h.1
    have hhigh : c.toNat ≤ 57 := h.2
    rw [Nat.add_sub_cancel' hlow, Char.ofNat_toNat]
    exact ⟨by omega, rfl⟩
  rw [hmem.2]
  generalize c.toNat - 48 = d at hmem
  have hall : ∀ d < 10,
      Char.ofNat (48 + d) ∈ ['0', '1', '2', '3', '4', '5', '6', '7', '8', '9'] := by
    decide
  exact hall d hmem.1

/-- Digits are a number, alone or with a point and more digits behind them. -/
theorem longest_number {c : Char} {s fraction : List Char} (h : ∀ d ∈ c :: s, d.isDigit = true)
    (hfraction :
      Matches (Pattern.optional (seq (one (· == '.')) (oneOrMore Char.isDigit))) fraction) :
    longest code (c :: (s ++ fraction)) = (.number, (s ++ fraction).length + 1) := by
  have hc := mem_digits_of_isDigit (h c List.mem_cons_self)
  simp only [List.mem_cons, List.not_mem_nil, or_false] at hc
  refine longest_of_starting (p := seq (oneOrMore Char.isDigit)
    (Pattern.optional (seq (one (· == '.')) (oneOrMore Char.isDigit)))) ?_ ?_
  · rcases hc with rfl | rfl | rfl | rfl | rfl | rfl | rfl | rfl | rfl | rfl <;> rfl
  · refine matches_seq_iff.2 ⟨c :: s, fraction, rfl, ?_, hfraction⟩
    exact matches_oneOrMore_iff.2 ⟨List.cons_ne_nil _ _, h⟩

/-! ## Numbers -/

namespace Decimal

/-- Digits have the value that they were written for. -/
theorem digitsValue_toDigits (n : Nat) : digitsValue (Nat.toDigits 10 n) = n :=
  Nat.ofDigitChars_toDigits (by decide) (by decide)

theorem isDigits_toDigits (n : Nat) : isDigits (Nat.toDigits 10 n) = true := by
  rw [isDigits, Bool.and_eq_true, Bool.not_eq_true', List.isEmpty_eq_false_iff, List.all_eq_true]
  exact ⟨Nat.toDigits_ne_nil, fun c hc => Nat.isDigit_of_mem_toDigits (by decide) (by decide) hc⟩

theorem fit?_toInt (value : Int64) : fit? value.toInt = some value := by
  rw [fit?, if_pos ⟨Int64.minValue_le_toInt value, Int64.toInt_le value⟩, Int64.ofInt_toInt]

theorem takeSign_toDigits (n : Nat) :
    takeSign (Nat.toDigits 10 n) = (false, Nat.toDigits 10 n) := by
  cases htext : Nat.toDigits 10 n with
  | nil => rfl
  | cons c s =>
    have hdigit : c.isDigit = true :=
      Nat.isDigit_of_mem_toDigits (by decide) (by decide) (htext ▸ List.mem_cons_self)
    unfold takeSign
    split
    · next heq =>
      cases heq
      exact absurd hdigit (by decide)
    · next heq =>
      cases heq
      exact absurd hdigit (by decide)
    · rfl

/-- A natural number is read back from its digits. -/
theorem readInt?_toDigits (n : Nat) : readInt? (Nat.toDigits 10 n) = some (n : Int) := by
  simp [readInt?, takeSign_toDigits, isDigits_toDigits, digitsValue_toDigits]

/-- A negative one is read back from the digits behind a minus. -/
theorem readInt?_minus_toDigits (n : Nat) :
    readInt? ('-' :: Nat.toDigits 10 n) = some (-(n : Int)) := by
  simp [readInt?, takeSign, isDigits_toDigits, digitsValue_toDigits]

theorem readInt?_of_point {cs : List Char} (h : '.' ∈ cs) : readInt? cs = none := by
  have hrest : '.' ∈ (takeSign cs).2 := by
    unfold takeSign
    split
    · exact List.mem_of_ne_of_mem (by decide) h
    · exact List.mem_of_ne_of_mem (by decide) h
    · exact h
  have hdigits : isDigits (takeSign cs).2 = false := by
    rw [isDigits, List.all_eq_false.2 ⟨'.', hrest, by decide⟩, Bool.and_false]
  simp [readInt?, hdigits]

end Decimal

/-- A 64-bit integer is read back from its digits and their sign. -/
theorem Number.ofText?_of_readInt? {text : String} {value : Int64}
    (h : Decimal.readInt? text.toList = some value.toInt) :
    Number.ofText? text = some (.integer value) := by
  have hread : Decimal.readInt64? text = some value := by
    rw [Decimal.readInt64?, h]
    exact Decimal.fit?_toInt value
  rw [Number.ofText?, hread]

/-- The reader passes over whole numbers at a point, where no word writes one either. -/
theorem Reader.number_eq (token : Token) (text : String) :
    number token text =
      match Number.ofText? text with
      | some (.integer value) => .ok (.integer value)
      | some (.float value) => .ok (.float value)
      | none => .error (.unexpectedToken token) := by
  have hwhole : (if '.' ∈ text.toList then none else Decimal.readInt64? text) =
      Decimal.readInt64? text := by
    split
    · next hpoint =>
        rw [Decimal.readInt64?, Decimal.readInt?_of_point hpoint, Option.bind_eq_bind,
          Option.bind_none]
    · rfl
  rw [number, hwhole, Number.ofText?]
  cases Decimal.readInt64? text with
  | some value => rfl
  | none => cases Decimal.readFloat? text <;> rfl

/-- The text of an integer is a number token with that integer. -/
theorem Reader.number_of_readInt? {text : String} {value : Int64} (token : Token)
    (h : Decimal.readInt? text.toList = some value.toInt) :
    number token text = .ok (.integer value) := by
  rw [number_eq, Number.ofText?_of_readInt? h]

/-! ## Spellings of words -/

theorem Node.toList_toSource_quoted (text : String) :
    (quoted text).toSource.toList = '"' :: text.toList := by
  simp [toSource, String.toList_append]

theorem Node.toList_toSource_reference (name : String) :
    (reference name).toSource.toList = ':' :: name.toList := by
  simp [toSource, display, String.toList_append]

/-- An integer is written with its digits, and a minus before them if it is negative. -/
theorem Node.toList_toSource_integer (value : Int64) :
    (∃ n : Nat, value.toInt = n ∧ (integer value).toSource.toList = Nat.toDigits 10 n) ∨
      ∃ n : Nat, value.toInt = -(n : Int) ∧
        (integer value).toSource.toList = '-' :: Nat.toDigits 10 n := by
  have htext : (integer value).toSource = value.toInt.repr := by
    simp [toSource, display, Int.toString_eq_repr]
  rw [htext]
  cases value.toInt with
  | ofNat n => exact .inl ⟨n, rfl, Nat.toList_repr⟩
  | negSucc n => exact .inr ⟨n + 1, rfl, by simp [Int.repr, String.toList_append]⟩

/-- The text is one token of a program. -/
def IsToken (kind : TokenClass) (text : String) : Prop :=
  scan 0 .start text.toList = [⟨kind, text, .start⟩]

/-- A symbol starts with a letter or a mark that is neither blank nor opens a comment. -/
theorem starts_of_longest_symbol {c : Char} {s : List Char} {n : Nat}
    (h : longest code (c :: s) = (.symbol, n)) : c ≠ ';' ∧ Text.isBlank c = false := by
  have hmatch := matches_of_longest rfl (by decide) h
  obtain ⟨s₁, s₂, heq, hfirst, -⟩ := matches_seq_iff.1 hmatch
  obtain ⟨d, rfl, hd⟩ := matches_one_iff.1 hfirst
  cases heq
  refine ⟨?_, ?_⟩
  · rintro rfl
    exact absurd hd (by decide)
  · rw [← Bool.not_eq_true]
    intro hblank
    have hall : (wordEnds.all fun d => !startsSymbol d) = true := by decide
    have hc := of_endsWord hall (endsWord_of_isBlank hblank)
    rw [hd] at hc
    exact Bool.false_ne_true hc

/-- A symbol is one whole token of code. -/
theorem IsToken.exists_symbol {text : String} (h : IsToken .symbol text) :
    ∃ c s, text = String.ofList (c :: s) ∧ WholeToken .symbol c s := by
  have hpieces : pieces 0 text.toList = [⟨.symbol, text⟩] := by
    rw [pieces, h]
    rfl
  cases htext : text.toList with
  | nil =>
    rw [htext, pieces_nil] at hpieces
    cases hpieces
  | cons c s =>
    obtain ⟨kind, n, hlongest⟩ : ∃ kind n, longest code (c :: s) = (kind, n) := ⟨_, _, rfl⟩
    rw [htext, pieces_cons 0 hlongest] at hpieces
    obtain ⟨rfl, hwhole⟩ := Piece.mk.inj (List.cons.inj hpieces).1
    obtain ⟨hcomment, hblank⟩ := starts_of_longest_symbol hlongest
    -- The token takes the whole text, so its length is that of the text.
    have htake : s.take (n - 1) = s := by
      rw [← String.toList_inj, String.toList_ofList, htext] at hwhole
      exact (List.cons.inj hwhole).2
    have hle : s.length ≤ n - 1 := by
      rw [← htake, List.length_take]
      exact Nat.min_le_left _ _
    have hn : n ≤ s.length + 1 := by
      have := longest_le code (c :: s)
      rwa [hlongest] at this
    have hpos : 0 < n := by
      rcases longest_cases code (c :: s) with hnone | ⟨rule, -, hpos, hwin⟩
      · cases hlongest.symm.trans hnone
      · rwa [(Prod.mk.inj (hlongest.symm.trans hwin)).2]
    have hlen : n = s.length + 1 := by omega
    refine ⟨c, s, ?_, hcomment, hblank, hlen ▸ hlongest⟩
    rw [← String.toList_inj, String.toList_ofList, htext]

/-- A word that a rule takes as a whole is a token. -/
theorem IsToken.of_longest {kind : TokenClass} {c : Char} {s : List Char}
    (h : longest code (c :: s) = (kind, s.length + 1)) : IsToken kind (String.ofList (c :: s)) := by
  have hpieces : pieces 0 (c :: s) = [⟨kind, String.ofList (c :: s)⟩] := by
    rw [pieces_cons 0 h, Nat.add_sub_cancel, List.take_length, List.drop_length, pieces_nil]
  rw [IsToken, scan_eq_place, String.toList_ofList, hpieces]
  rfl

theorem IsToken.newline_notMem {text : String} (h : IsToken .symbol text) : '\n' ∉ text.toList := by
  obtain ⟨c, s, rfl, htoken⟩ := h.exists_symbol
  rw [String.toList_ofList]
  exact htoken.newline_notMem

namespace Spelling

variable {table : ProcedureTable}

theorem ofBoolean (value : Bool) :
    ∃ ls, Spelling table (Node.boolean value).toSource.toList (.boolean value) ls := by
  cases value with
  | true =>
    have htrue : longest code ['t', 'r', 'u', 'e'] = (.trueWord, 4) := by decide +kernel
    exact ⟨_, .ofToken ⟨by decide, rfl, htrue⟩ rfl (by simp) fun _ _ _ => rfl⟩
  | false =>
    have hfalse : longest code ['f', 'a', 'l', 's', 'e'] = (.falseWord, 5) := by decide +kernel
    exact ⟨_, .ofToken ⟨by decide, rfl, hfalse⟩ rfl (by simp) fun _ _ _ => rfl⟩

theorem ofNil : ∃ ls, Spelling table Node.nil.toSource.toList .nil ls := by
  have hnil : longest code ['n', 'i', 'l'] = (.nilWord, 3) := by decide +kernel
  exact ⟨_, .ofToken ⟨by decide, rfl, hnil⟩ rfl (by simp) fun _ _ _ => rfl⟩

theorem ofQuoted {text : String} (h : ∀ c ∈ text.toList, endsWord c = false) :
    ∃ ls, Spelling table (Node.quoted text).toSource.toList (.quoted text) ls := by
  rw [Node.toList_toSource_quoted]
  refine ⟨_, .ofToken ⟨by decide, rfl, longest_quote h⟩ rfl (by simp) fun n inner rest => ?_⟩
  have hword : (plain .quote (String.ofList ('"' :: text.toList))).token.unmarked = text := by
    simp [plain, Token.unmarked]
  simp only [primary, kind_plain, hword]

theorem ofReference {name : String} (hne : name ≠ "")
    (h : ∀ c ∈ name.toList, endsReference c = false) :
    ∃ ls, Spelling table (Node.reference name).toSource.toList (.reference name) ls := by
  have hne' : name.toList ≠ [] := by simpa using hne
  rw [Node.toList_toSource_reference]
  refine ⟨_, .ofToken ⟨by decide, rfl, longest_reference hne' h⟩ rfl (by simp)
    fun n inner rest => ?_⟩
  have hname : (plain .reference (String.ofList (':' :: name.toList))).token.unmarked = name := by
    simp [plain, Token.unmarked]
  simp only [primary, kind_plain, hname]

/-- A symbol that is no procedure and makes no alias is spelled as itself. -/
theorem ofSymbol {text : String} (h : IsToken .symbol text)
    (hundefined : table.defines text = false) (halias : isAliasWord text = false) :
    ∃ ls, Spelling table (Node.symbol text).toSource.toList (.symbol text) ls := by
  obtain ⟨c, s, rfl, hwhole⟩ := h.exists_symbol
  have htext : (Node.symbol (String.ofList (c :: s))).toSource.toList = c :: s := by
    simp [Node.toSource, Node.display]
  have harity : table.arity? (String.ofList (c :: s)) = none := by
    rw [ProcedureTable.defines, Option.isSome_eq_false_iff, Option.isNone_iff_eq_none] at hundefined
    rw [ProcedureTable.arity?, hundefined, Option.map_none]
  rw [htext]
  refine ⟨_, .ofToken hwhole rfl (fun _ => halias) fun n inner rest => ?_⟩
  have htoken : (plain .symbol (String.ofList (c :: s))).token.text = String.ofList (c :: s) := rfl
  simp only [primary, kind_plain, htoken, harity]

/-- Digits are a token, also with a point and more digits behind them. -/
theorem exists_number {whole fraction : List Char} (h : Decimal.isDigits whole = true)
    (hfraction :
      Matches (Pattern.optional (seq (one (· == '.')) (oneOrMore Char.isDigit))) fraction) :
    ∃ c s, whole ++ fraction = c :: s ∧ WholeToken .number c s := by
  rw [Decimal.isDigits, Bool.and_eq_true, Bool.not_eq_true', List.isEmpty_eq_false_iff,
    List.all_eq_true] at h
  obtain ⟨c, s, rfl⟩ := List.exists_cons_of_ne_nil h.1
  have hall : (['0', '1', '2', '3', '4', '5', '6', '7', '8', '9'].all fun d =>
      d != ';' && !Text.isBlank d) = true := by decide
  have hc := List.all_eq_true.1 hall c (mem_digits_of_isDigit (h.2 c List.mem_cons_self))
  simp only [Bool.and_eq_true, bne_iff_ne, Bool.not_eq_true'] at hc
  exact ⟨c, s ++ fraction, rfl, hc.1, hc.2, longest_number h.2 hfraction⟩

theorem exists_digits (n : Nat) : ∃ c s, Nat.toDigits 10 n = c :: s ∧ WholeToken .number c s := by
  have h := exists_number (Decimal.isDigits_toDigits n) (.right .empty)
  rwa [List.append_nil] at h

/-- The digits of a number are a token that is read as the number. -/
theorem exists_natural {value : Int64} {n : Nat} (hvalue : value.toInt = n) :
    ∃ c s, Nat.toDigits 10 n = c :: s ∧ WholeToken .number c s ∧
      ∀ token, number token (String.ofList (c :: s)) = .ok (.integer value) := by
  obtain ⟨c, s, htext, hwhole⟩ := exists_digits n
  have hread : Decimal.readInt? (String.ofList (c :: s)).toList = some value.toInt := by
    rw [String.toList_ofList, ← htext, Decimal.readInt?_toDigits, hvalue]
  exact ⟨c, s, htext, hwhole, fun token => number_of_readInt? token hread⟩

/-- Behind a minus they are read as the negative number. -/
theorem exists_negative {value : Int64} {n : Nat} (hvalue : value.toInt = -(n : Int)) :
    ∃ c s, Nat.toDigits 10 n = c :: s ∧ WholeToken .number c s ∧
      ∀ token, number token ("-" ++ String.ofList (c :: s)) = .ok (.integer value) := by
  obtain ⟨c, s, htext, hwhole⟩ := exists_digits n
  have hread : Decimal.readInt? ("-" ++ String.ofList (c :: s)).toList = some value.toInt := by
    rw [String.toList_append, String.toList_ofList (l := c :: s), ← htext, hvalue]
    exact Decimal.readInt?_minus_toDigits n
  exact ⟨c, s, htext, hwhole, fun token => number_of_readInt? token hread⟩

/-- A number token is spelled by its text. -/
theorem ofNumber {c : Char} {s : List Char} {node : Node} (h : WholeToken .number c s)
    (hnumber : ∀ token, number token (String.ofList (c :: s)) = .ok node) :
    ∃ ls, Spelling table (c :: s) node ls := by
  refine ⟨_, .ofToken h rfl (by simp) fun n inner rest => ?_⟩
  have htoken : (plain .number (String.ofList (c :: s))).token.text = String.ofList (c :: s) := rfl
  simp only [primary, kind_plain, htoken, hnumber]
  rfl

/-- A negative number is a minus that touches a number, and nothing before it. -/
theorem ofSigned {c : Char} {s : List Char} {node : Node} (h : WholeToken .number c s)
    (hnumber : ∀ token, number token ("-" ++ String.ofList (c :: s)) = .ok node) :
    ∃ ls, Spelling table ('-' :: c :: s) node ls := by
  refine ⟨[⟨⟨.minus, "-", .start⟩, true⟩, plain .number (String.ofList (c :: s))], ?_⟩
  refine ⟨⟨'-', c :: s, rfl, rfl⟩, ?_, fun rest hrest => ?_, ⟨_, _, rfl, rfl⟩, ?_, ?_⟩
  · rw [List.mem_cons, not_or]
    exact ⟨by decide, h.newline_notMem⟩
  · rw [List.cons_append, List.cons_append, pieces_code_minus, pieces_code_token h hrest]
    rfl
  · exact .cons (by decide) (by decide) (.cons (by simp) (by simp) .nil)
  · intro bound rest hbound hrest
    obtain ⟨n, rfl⟩ : ∃ n, bound = n + 1 :=
      ⟨bound - 1, (Nat.sub_add_cancel (Nat.le_of_lt hbound)).symm⟩
    refine expression_of_primary ?_ hrest
    have hkind : (Lexeme.mk ⟨.minus, "-", .start⟩ true).kind = .minus := rfl
    have hexpect : expect .number (plain .number (String.ofList (c :: s)) :: rest) =
        .ok (⟨.number, String.ofList (c :: s), .start⟩, rest) := rfl
    simp only [List.cons_append, List.nil_append, primary, hkind, hexpect, bind, Except.bind,
      hnumber]
    rfl

theorem ofInteger (value : Int64) :
    ∃ ls, Spelling table (Node.integer value).toSource.toList (.integer value) ls := by
  rcases Node.toList_toSource_integer value with ⟨n, hvalue, htext⟩ | ⟨n, hvalue, htext⟩
  · obtain ⟨c, s, hdigits, hwhole, hnumber⟩ := exists_natural hvalue
    rw [htext, hdigits]
    exact ofNumber hwhole hnumber
  · obtain ⟨c, s, hdigits, hwhole, hnumber⟩ := exists_negative hvalue
    rw [htext, hdigits]
    exact ofSigned hwhole hnumber

end Spelling

end Logo
