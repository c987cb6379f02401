import Logo.Number
import Logo.Proofs.Definitions
import Logo.Proofs.LowerCase
import Logo.Proofs.Words

/-!
# Numerals

A numeral is a text that is read as a number: digits with a sign, a point and an exponent, or one of
the words for infinity and not-a-number.  Whether a text is one does not depend on the case of its
letters (`Decimal.isNumeral_congr`).  Among letters that are not plain this is a fact about the
table of cases: the Kelvin sign is the only one with a plain lower case, and that is a `k`, which no
numeral has.

Every number is written as a numeral, the words for infinity and not-a-number included
(`Decimal.isNumeral_floatText`).
-/

namespace Logo

/-! ## Plain characters -/

namespace Text

/-- One of the first 128 characters. -/
def isPlain (c : Char) : Bool :=
  c.toNat < 0x80

/-- Lowering plain characters does not look at what stands around them. -/
theorem lowerOnto_of_plain {cs : List Char} (h : ∀ c ∈ cs, isPlain c = true)
    (after lowered : List Char) :
    lowerOnto after lowered cs = (cs.map Char.toLower).reverse ++ lowered := by
  induction cs generalizing after lowered with
  | nil => rfl
  | cons c cs ih =>
    rw [List.forall_mem_cons] at h
    have hlt : c.toNat < 0x80 := of_decide_eq_true h.1
    have hsigma : (c == 'Σ') = false := by
      rw [beq_eq_false_iff_ne]
      rintro rfl
      exact absurd hlt (by decide)
    rw [lowerOnto, ih h.2, hsigma, lowerChar, if_pos hlt]
    simp

/-- The lower case of a plain text is that of its characters. -/
theorem toLower_of_plain {s : String} (h : ∀ c ∈ s.toList, isPlain c = true) :
    toLower s = String.ofList (s.toList.map Char.toLower) := by
  have hreverse : ∀ c ∈ s.toList.reverse, isPlain c = true :=
    fun c hc => h c (List.mem_reverse.1 hc)
  rw [toLower, lowerOnto_of_plain hreverse, List.append_nil, List.map_reverse, List.reverse_reverse]

theorem isPlain_of_insideSymbol {c : Char} (h : TokenRule.insideSymbol c = true) :
    isPlain c = true := by
  -- Letters and digits are ranges of characters that end before the bound.
  have hrange : ∀ last : UInt32, last.toNat < 0x80 → c.val ≤ last → isPlain c = true :=
    fun last hlast hle =>
      decide_eq_true (Nat.lt_of_le_of_lt (UInt32.le_iff_toNat_le.1 hle) hlast)
  simp only [TokenRule.insideSymbol, TokenRule.startsSymbol, Bool.or_eq_true, beq_iff_eq] at h
  rcases h with ((((hletter | rfl) | rfl) | rfl) | hdigit) | rfl
  · rcases Bool.or_eq_true_iff.1 hletter with hupper | hlower
    · have hbounds : c.val ≥ 'A'.val ∧ c.val ≤ 'Z'.val := of_decide_eq_true hupper
      exact hrange 'Z'.val (by decide) hbounds.2
    · exact hrange 'z'.val (by decide) (of_decide_eq_true (Bool.and_eq_true_iff.1 hlower).2)
  · decide
  · decide
  · decide
  · exact hrange '9'.val (by decide) (of_decide_eq_true (Bool.and_eq_true_iff.1 hdigit).2)
  · decide

/-- Outside of the plain characters the one-character lower case does nothing. -/
theorem toLower_of_not_plain {c : Char} (h : isPlain c = false) : c.toLower = c := by
  refine dif_neg fun hupper => ?_
  have hle : c.toNat ≤ 90 := UInt32.le_iff_toNat_le.1 hupper.2
  have hge : ¬c.toNat < 0x80 := of_decide_eq_false h
  omega

/-- What is the same for the plain characters and their lower case is the same for all
characters. -/
theorem apply_toLower {α : Type} {f : Char → α}
    (h : ∀ n < 0x80, f (Char.ofNat n).toLower = f (Char.ofNat n)) (c : Char) :
    f c.toLower = f c := by
  cases hplain : isPlain c with
  | true =>
    have hc := h c.toNat (of_decide_eq_true hplain)
    rwa [Char.ofNat_toNat] at hc
  | false => rw [toLower_of_not_plain hplain]

theorem isDigit_toLower (c : Char) : c.toLower.isDigit = c.isDigit :=
  apply_toLower (by decide) c

/-- The one-character lower case does not lead out of the plain characters. -/
theorem isPlain_toLower (c : Char) : isPlain c.toLower = isPlain c :=
  apply_toLower (by decide) c

theorem toLower_toLower_char (c : Char) : c.toLower.toLower = c.toLower :=
  apply_toLower (by decide) c

end Text

namespace Decimal

/-! ## The parts of a numeral -/

section Parts

variable {c : Char} {cs : List Char}

theorem takeSign_of_not_sign (hminus : c ≠ '-') (hplus : c ≠ '+') :
    takeSign (c :: cs) = (false, c :: cs) := by
  rw [takeSign]
  · intro _ heq
    cases heq
    exact hminus rfl
  · intro _ heq
    cases heq
    exact hplus rfl

theorem takeSign_lowered (cs : List Char) :
    takeSign (cs.map Char.toLower) = ((takeSign cs).1, (takeSign cs).2.map Char.toLower) := by
  cases cs with
  | nil => rfl
  | cons c cs =>
    by_cases hminus : c = '-'
    · subst hminus
      rfl
    by_cases hplus : c = '+'
    · subst hplus
      rfl
    have hminus' : c.toLower ≠ '-' := Text.apply_toLower (f := (· ≠ '-')) (by decide) c ▸ hminus
    have hplus' : c.toLower ≠ '+' := Text.apply_toLower (f := (· ≠ '+')) (by decide) c ▸ hplus
    rw [List.map_cons, takeSign_of_not_sign hminus' hplus', takeSign_of_not_sign hminus hplus,
      List.map_cons]

theorem isDigits_lowered (cs : List Char) : isDigits (cs.map Char.toLower) = isDigits cs := by
  simp [isDigits, Function.comp_def, Text.isDigit_toLower]

theorem isSome_readInt? (cs : List Char) : (readInt? cs).isSome = isDigits (takeSign cs).2 := by
  rw [readInt?]
  cases h : isDigits (takeSign cs).2 <;> simp [h]

theorem isSome_readExponent?_cons (c : Char) (cs : List Char) :
    (readExponent? (c :: cs)).isSome = ((c == 'e' || c == 'E') && isDigits (takeSign cs).2) := by
  rw [readExponent?, ← isSome_readInt?]
  cases c == 'e' || c == 'E' <;> rfl

/-- An exponent may be marked by a letter of either case. -/
theorem isSome_readExponent?_lowered (cs : List Char) :
    (readExponent? (cs.map Char.toLower)).isSome = (readExponent? cs).isSome := by
  cases cs with
  | nil => rfl
  | cons c cs =>
    have hmark : (c.toLower == 'e' || c.toLower == 'E') = (c == 'e' || c == 'E') :=
      Text.apply_toLower (f := fun c => c == 'e' || c == 'E') (by decide) c
    rw [List.map_cons, isSome_readExponent?_cons, isSome_readExponent?_cons, hmark,
      takeSign_lowered, isDigits_lowered]

/-- Takes a point and the digits behind it off a text. -/
def takePoint (cs : List Char) : List Char × List Char :=
  match cs with
  | '.' :: more => (more.takeWhile Char.isDigit, more.dropWhile Char.isDigit)
  | _ => ([], cs)

theorem takePoint_of_not_point (h : c ≠ '.') : takePoint (c :: cs) = ([], c :: cs) := by
  unfold takePoint
  split
  · next heq =>
    cases heq
    exact absurd rfl h
  · rfl

/-- The digits in front are the same before and behind lowering. -/
theorem digits_lowered (cs : List Char) :
    (cs.map Char.toLower).takeWhile Char.isDigit = (cs.takeWhile Char.isDigit).map Char.toLower ∧
      (cs.map Char.toLower).dropWhile Char.isDigit =
      (cs.dropWhile Char.isDigit).map Char.toLower := by
  have hdigit : Char.isDigit ∘ Char.toLower = Char.isDigit := funext Text.isDigit_toLower
  rw [List.takeWhile_map, List.dropWhile_map, hdigit]
  exact ⟨rfl, rfl⟩

theorem takePoint_lowered (cs : List Char) :
    takePoint (cs.map Char.toLower) =
      ((takePoint cs).1.map Char.toLower, (takePoint cs).2.map Char.toLower) := by
  cases cs with
  | nil => rfl
  | cons c cs =>
    by_cases hpoint : c = '.'
    · subst hpoint
      exact Prod.ext (digits_lowered cs).1 (digits_lowered cs).2
    · have hpoint' : c.toLower ≠ '.' := Text.apply_toLower (f := (· ≠ '.')) (by decide) c ▸ hpoint
      rw [List.map_cons, takePoint_of_not_point hpoint', takePoint_of_not_point hpoint]
      rfl

/-- A magnitude has digits before or behind the point, and ends or goes on with an exponent. -/
theorem isSome_readMagnitude? (cs : List Char) :
    (readMagnitude? cs).isSome =
      (!((cs.takeWhile Char.isDigit).isEmpty &&
      (takePoint (cs.dropWhile Char.isDigit)).1.isEmpty) &&
        (readExponent? (takePoint (cs.dropWhile Char.isDigit)).2).isSome) := by
  have hif : ∀ {missing : Bool} {exponent : Option Int} {f : Int → Float},
      (if missing then none else exponent.map f).isSome = (!missing && exponent.isSome) := by
    intro missing exponent f
    cases missing <;> simp
  exact hif

/-- Whether a text is a magnitude does not depend on the case of its letters. -/
theorem isSome_readMagnitude?_lowered (cs : List Char) :
    (readMagnitude? (cs.map Char.toLower)).isSome = (readMagnitude? cs).isSome := by
  rw [isSome_readMagnitude?, isSome_readMagnitude?, (digits_lowered cs).1, (digits_lowered cs).2,
    takePoint_lowered, isSome_readExponent?_lowered, List.isEmpty_map, List.isEmpty_map]

/-- A word for infinity or not-a-number, in lower case. -/
def numberWords : List (List Char) :=
  ["inf".toList, "infinity".toList, "nan".toList]

/-- A text without a sign is one of the words, or a magnitude. -/
theorem isSome_readUnsigned? (cs : List Char) :
    (readUnsigned? cs).isSome =
      (numberWords.contains (cs.map Char.toLower) || (readMagnitude? cs).isSome) := by
  have hword : ∀ word : String,
      (String.ofList (cs.map Char.toLower) == word) = (cs.map Char.toLower == word.toList) := by
    intro word
    rw [Bool.eq_iff_iff, beq_iff_eq, beq_iff_eq, ← String.toList_inj, String.toList_ofList]
  simp only [readUnsigned?, hword, numberWords, List.contains_cons, List.contains_nil,
    Bool.or_false]
  cases cs.map Char.toLower == "inf".toList <;> cases cs.map Char.toLower == "infinity".toList <;>
    cases cs.map Char.toLower == "nan".toList <;> rfl

end Parts

/-! ## Numerals and the texts of numbers -/

/-- The text is read as a number. -/
def isNumeral (cs : List Char) : Bool :=
  (readUnsigned? (takeSign cs).2).isSome

theorem isNumeral_lowered (cs : List Char) : isNumeral (cs.map Char.toLower) = isNumeral cs := by
  have htwice : Char.toLower ∘ Char.toLower = Char.toLower := funext Text.toLower_toLower_char
  rw [isNumeral, isNumeral, takeSign_lowered, isSome_readUnsigned?, isSome_readUnsigned?,
    List.map_map, htwice, isSome_readMagnitude?_lowered]

theorem isSome_readMagnitude?_of_isDigits {cs : List Char} (h : isDigits cs = true) :
    (readMagnitude? cs).isSome = true := by
  rw [isDigits, Bool.and_eq_true, List.all_eq_true] at h
  rw [isSome_readMagnitude?, List.takeWhile_eq_self_iff.2 h.2, List.dropWhile_eq_nil_iff.2 h.2]
  simpa [takePoint, readExponent?] using h.1

/-- Every whole number is a numeral, so numerals are the texts of numbers. -/
theorem isSome_ofText? (s : String) : (Number.ofText? s).isSome = isNumeral s.toList := by
  have hfloat : (readFloat? s).isSome = isNumeral s.toList := Option.isSome_map
  rw [Number.ofText?]
  cases hwhole : readInt64? s with
  | none => exact Option.isSome_map.trans hfloat
  | some value =>
    obtain ⟨n, hn, -⟩ := Option.bind_eq_some_iff.1 hwhole
    have hdigits : isDigits (takeSign s.toList).2 = true := by
      rw [← isSome_readInt?, hn]
      rfl
    rw [isNumeral, isSome_readUnsigned?, isSome_readMagnitude?_of_isDigits hdigits, Bool.or_true]
    rfl

/-! ## The characters of numerals -/

/-- The character occurs in numerals, possibly as a capital letter. -/
def isNumeralChar (c : Char) : Bool :=
  c.isDigit || "+-.einftya".toList.contains c.toLower

section Characters

variable {c : Char} {cs : List Char}

/-- The characters of numerals are plain, and none of them comes from the Kelvin sign. -/
theorem isPlain_of_isNumeralChar (h : isNumeralChar c = true) :
    Text.isPlain c = true ∧ c.toLower ≠ 'k' := by
  rw [isNumeralChar, Bool.or_eq_true, List.contains_iff_mem] at h
  rcases h with hdigit | hmem
  · have hall : (['0', '1', '2', '3', '4', '5', '6', '7', '8', '9'].all fun d =>
        Text.isPlain d && d.toLower != 'k') = true := by decide
    have hc := List.all_eq_true.1 hall c (mem_digits_of_isDigit hdigit)
    rwa [Bool.and_eq_true, bne_iff_ne] at hc
  · have hall : ("+-.einftya".toList.all fun d => Text.isPlain d && d != 'k') = true := by decide
    simp only [List.all_eq_true, Bool.and_eq_true, bne_iff_ne] at hall
    refine ⟨?_, (hall _ hmem).2⟩
    cases hplain : Text.isPlain c with
    | true => rfl
    | false =>
      rw [Text.toLower_of_not_plain hplain] at hmem
      rw [← hplain, (hall c hmem).1]

theorem isNumeralChar_of_isDigit (h : c.isDigit = true) : isNumeralChar c = true := by
  rw [isNumeralChar, h, Bool.true_or]

theorem isNumeralChar_of_isDigits (h : isDigits cs = true) : ∀ c ∈ cs, isNumeralChar c = true := by
  rw [isDigits, Bool.and_eq_true, List.all_eq_true] at h
  exact fun c hc => isNumeralChar_of_isDigit (h.2 c hc)

theorem isNumeralChar_of_takeSign (h : ∀ c ∈ (takeSign cs).2, isNumeralChar c = true) :
    ∀ c ∈ cs, isNumeralChar c = true := by
  cases cs with
  | nil => exact h
  | cons c cs =>
    by_cases hminus : c = '-'
    · subst hminus
      exact List.forall_mem_cons.2 ⟨by decide, h⟩
    by_cases hplus : c = '+'
    · subst hplus
      exact List.forall_mem_cons.2 ⟨by decide, h⟩
    rwa [takeSign_of_not_sign hminus hplus] at h

theorem isNumeralChar_of_takeWhile (h : ∀ c ∈ cs.dropWhile Char.isDigit, isNumeralChar c = true) :
    ∀ c ∈ cs, isNumeralChar c = true := by
  rw [← List.takeWhile_append_dropWhile (p := Char.isDigit) (l := cs)]
  exact List.forall_mem_append.2
    ⟨fun c hc => isNumeralChar_of_isDigit (List.mem_takeWhile_imp hc), h⟩

theorem isNumeralChar_of_takePoint (h : ∀ c ∈ (takePoint cs).2, isNumeralChar c = true) :
    ∀ c ∈ cs, isNumeralChar c = true := by
  cases cs with
  | nil => exact h
  | cons c cs =>
    by_cases hpoint : c = '.'
    · subst hpoint
      exact List.forall_mem_cons.2 ⟨by decide, isNumeralChar_of_takeWhile h⟩
    · rwa [takePoint_of_not_point hpoint] at h

theorem isNumeralChar_of_readExponent? (h : (readExponent? cs).isSome = true) :
    ∀ c ∈ cs, isNumeralChar c = true := by
  cases cs with
  | nil => exact nofun
  | cons c cs =>
    rw [isSome_readExponent?_cons, Bool.and_eq_true, Bool.or_eq_true, beq_iff_eq, beq_iff_eq] at h
    refine List.forall_mem_cons.2 ⟨?_, isNumeralChar_of_takeSign (isNumeralChar_of_isDigits h.2)⟩
    rcases h.1 with rfl | rfl <;> decide

/-- All characters of a magnitude occur in numerals. -/
theorem isNumeralChar_of_readMagnitude? (h : (readMagnitude? cs).isSome = true) :
    ∀ c ∈ cs, isNumeralChar c = true := by
  rw [isSome_readMagnitude?, Bool.and_eq_true] at h
  exact isNumeralChar_of_takeWhile (isNumeralChar_of_takePoint (isNumeralChar_of_readExponent? h.2))

theorem isNumeralChar_of_isNumeral (h : isNumeral cs = true) :
    ∀ c ∈ cs, isNumeralChar c = true := by
  apply isNumeralChar_of_takeSign
  rw [isNumeral, isSome_readUnsigned?, Bool.or_eq_true, List.contains_iff_mem] at h
  rcases h with hword | hmagnitude
  · intro c hc
    have hall : (numberWords.all (·.all fun d => "+-.einftya".toList.contains d)) = true := by
      decide
    have hletters := List.all_eq_true.1 (List.all_eq_true.1 hall _ hword)
    rw [isNumeralChar, hletters _ (List.mem_map_of_mem hc), Bool.or_true]
  · exact isNumeralChar_of_readMagnitude? hmagnitude

end Characters

end Decimal

/-! ## Letters with a plain lower case -/

namespace Text

/-- The runs of the table that start behind the plain characters end up behind them, but for that of
the Kelvin sign. -/
theorem lower_image_plain :
    (CaseData.lower.all fun run => run.last < 0x80 || 0x80 ≤ run.shifted run.first ||
    run.shifted run.first == 0x6b && run.first == run.last) = true := by
  decide +kernel

/-- What the table makes of a character that is not plain is not plain, or it is `k`. -/
theorem image_not_plain {n m : Nat} (h : CaseData.lower.findSome? (·.image? n) = some m)
    (hn : 0x80 ≤ n) : isPlain (Char.ofNat m) = false ∨ Char.ofNat m = 'k' := by
  obtain ⟨run, hrun, himage⟩ := List.exists_of_findSome?_eq_some h
  have hplain := List.all_eq_true.1 lower_image_plain run hrun
  simp only [Bool.and_eq_true, Bool.or_eq_true, decide_eq_true_eq, beq_iff_eq] at hplain
  obtain ⟨⟨hfirst, hlast, -⟩, hshifted⟩ := CaseRun.image?_eq_some_iff.1 himage
  simp only [CaseRun.shifted] at hplain hshifted
  rcases hplain with (hlow | hhigh) | ⟨hkelvin, hsingle⟩
  · omega
  · left
    rw [isPlain, toNat_image hrun himage, decide_eq_false_iff_not]
    omega
  · right
    have hm : m = 0x6b := by omega
    rw [hm]

/-- The lower case of a character that is not plain is not plain either, unless it is the Kelvin
sign. -/
theorem lowerChar_not_plain {c : Char} (h : isPlain c = false) :
    ∃ d ∈ lowerChar c, isPlain d = false ∨ d = 'k' := by
  have hge : ¬c.toNat < 0x80 := of_decide_eq_false h
  simp only [lowerChar, if_neg hge]
  split
  · exact ⟨Char.ofNat 0x307, by decide, .inl (by decide)⟩
  split
  · next m hm => exact ⟨_, List.mem_singleton_self _, image_not_plain hm (Nat.not_lt.1 hge)⟩
  · exact ⟨c, List.mem_singleton_self c, .inl h⟩

theorem mem_lowerOnto {d : Char} {after lowered cs : List Char} (h : d ∈ lowered) :
    d ∈ lowerOnto after lowered cs := by
  induction cs generalizing after lowered with
  | nil => exact h
  | cons c before ih => exact ih (List.mem_append_right _ h)

/-- Lowering a text keeps it from being plain if one of its characters was not, but for the Kelvin
sign. -/
theorem lowerOnto_not_plain {c : Char} {after lowered cs : List Char} (hc : c ∈ cs)
    (h : isPlain c = false) : ∃ d ∈ lowerOnto after lowered cs, isPlain d = false ∨ d = 'k' := by
  induction cs generalizing after lowered with
  | nil => cases hc
  | cons first before ih =>
    rcases List.mem_cons.1 hc with rfl | hc
    · have himage : ∃ d ∈ if c == 'Σ' then [lowerSigma before after] else lowerChar c,
          isPlain d = false ∨ d = 'k' := by
        split
        · refine ⟨_, List.mem_singleton_self _, .inl ?_⟩
          rw [lowerSigma]
          split <;> decide
        · exact lowerChar_not_plain h
      obtain ⟨d, hd, hdplain⟩ := himage
      refine ⟨d, ?_, hdplain⟩
      rw [lowerOnto]
      exact mem_lowerOnto (List.mem_append_left _ hd)
    · exact ih hc

/-- A text whose lower case is plain and has no `k` is plain itself. -/
theorem plain_of_toLower {s : String} (h : ∀ d ∈ (toLower s).toList, isPlain d = true ∧ d ≠ 'k') :
    ∀ c ∈ s.toList, isPlain c = true := by
  intro c hc
  cases hplain : isPlain c with
  | true => rfl
  | false =>
    rw [toLower, String.toList_ofList] at h
    obtain ⟨d, hd, hnot | hk⟩ := lowerOnto_not_plain (List.mem_reverse.2 hc) hplain
    · rw [← hnot, (h d hd).1]
    · exact absurd hk (h d hd).2

end Text

/-! ## Numerals in any case -/

namespace Decimal

/-- A numeral stays one if it is written with other cases, however the text is lowered. -/
theorem isNumeral_of_toLower_eq {s t : String} (h : Text.toLower s = Text.toLower t)
    (hs : isNumeral s.toList = true) : isNumeral t.toList = true := by
  have hchars : ∀ c ∈ s.toList, Text.isPlain c = true ∧ c.toLower ≠ 'k' := fun c hc =>
    isPlain_of_isNumeralChar (isNumeralChar_of_isNumeral hs c hc)
  have hslow : Text.toLower s = String.ofList (s.toList.map Char.toLower) :=
    Text.toLower_of_plain fun c hc => (hchars c hc).1
  have htplain : ∀ c ∈ t.toList, Text.isPlain c = true := by
    apply Text.plain_of_toLower
    rw [← h, hslow, String.toList_ofList]
    intro d hd
    obtain ⟨c, hc, rfl⟩ := List.mem_map.1 hd
    exact ⟨(Text.isPlain_toLower c).trans (hchars c hc).1, (hchars c hc).2⟩
  have hsame : s.toList.map Char.toLower = t.toList.map Char.toLower := by
    rw [hslow, Text.toLower_of_plain htplain, ← String.toList_inj, String.toList_ofList,
      String.toList_ofList] at h
    exact h
  rw [← isNumeral_lowered, ← hsame, isNumeral_lowered]
  exact hs

/-- Texts that differ in case only are both numerals or neither of them is. -/
theorem isNumeral_congr {s t : String} (h : Text.toLower s = Text.toLower t) :
    isNumeral s.toList = isNumeral t.toList :=
  Bool.eq_iff_iff.2 ⟨isNumeral_of_toLower_eq h, isNumeral_of_toLower_eq h.symm⟩

/-! ## Numbers are written as numerals -/

/-- The text consists of digits, a point and more digits. -/
def IsPointed (cs : List Char) : Prop :=
  ∃ whole fraction, whole ≠ [] ∧ (∀ c ∈ whole, c.isDigit = true) ∧
    (∀ c ∈ fraction, c.isDigit = true) ∧ cs = whole ++ '.' :: fraction

/-- Digits with a point put between them are written with digits on both sides. -/
theorem isPointed_withPoint (digits places : Nat) : IsPointed (withPoint digits places).toList := by
  let padded :=
    List.replicate (places + 1 - (Nat.toDigits 10 digits).length) '0' ++ Nat.toDigits 10 digits
  have hpadded : ∀ c ∈ padded, c.isDigit = true := by
    refine List.forall_mem_append.2 ⟨fun c hc => ?_, fun c hc => ?_⟩
    · rw [List.eq_of_mem_replicate hc]
      rfl
    · exact Nat.isDigit_of_mem_toDigits (by decide) (by decide) hc
  have hlength : places < padded.length := by
    simp only [padded, List.length_append, List.length_replicate]
    omega
  refine ⟨padded.take (padded.length - places), padded.drop (padded.length - places), ?_,
    fun c hc => hpadded c (List.mem_of_mem_take hc),
    fun c hc => hpadded c (List.mem_of_mem_drop hc), ?_⟩
  · rw [ne_eq, List.take_eq_nil_iff]
    rintro (hzero | hnil)
    · omega
    · rw [hnil] at hlength
      exact Nat.not_lt_zero _ hlength
  · simp [withPoint, padded]

/-- Whatever its exponent, a magnitude is printed with a point. -/
theorem isPointed_magnitudeText (m : Nat) (q : Int) : IsPointed (magnitudeText m q).toList := by
  have hwhole : ∀ n : Nat, IsPointed (toString n ++ ".0").toList := by
    intro n
    refine ⟨Nat.toDigits 10 n, ['0'], Nat.toDigits_ne_nil, ?_, List.forall_mem_singleton.2 rfl, ?_⟩
    · exact fun c hc => Nat.isDigit_of_mem_toDigits (by decide) (by decide) hc
    · rw [String.toList_append, Nat.toString_eq_repr, Nat.toList_repr]
      rfl
  rw [magnitudeText]
  dsimp only
  split
  · exact hwhole _
  · exact isPointed_withPoint _ _

/-- What is printed with a point is read as a magnitude. -/
theorem IsPointed.isSome_readMagnitude? {cs : List Char} (h : IsPointed cs) :
    (readMagnitude? cs).isSome = true := by
  obtain ⟨whole, fraction, hne, hwhole, hfraction, rfl⟩ := h
  have htake : (whole ++ '.' :: fraction).takeWhile Char.isDigit = whole := by
    rw [List.takeWhile_append_of_pos hwhole]
    simp
  have hdrop : (whole ++ '.' :: fraction).dropWhile Char.isDigit = '.' :: fraction := by
    rw [List.dropWhile_append_of_pos hwhole]
    simp
  have hpoint : takePoint ('.' :: fraction) = (fraction, []) := by
    rw [takePoint, List.takeWhile_eq_self_iff.2 hfraction, List.dropWhile_eq_nil_iff.2 hfraction]
  rw [Decimal.isSome_readMagnitude?, htake, hdrop, hpoint]
  simp [hne, readExponent?]

theorem IsPointed.takeSign_eq {cs : List Char} (h : IsPointed cs) : takeSign cs = (false, cs) := by
  obtain ⟨whole, fraction, hne, hwhole, -, rfl⟩ := h
  cases whole with
  | nil => exact absurd rfl hne
  | cons c whole =>
    have hdigit := hwhole c List.mem_cons_self
    refine takeSign_of_not_sign ?_ ?_
    · rintro rfl
      exact absurd hdigit (by decide)
    · rintro rfl
      exact absurd hdigit (by decide)

theorem IsPointed.isNumeral_sign {cs : List Char} (h : IsPointed cs)
    (sign : Float.Model.UnpackedFloat.Sign) : isNumeral ((signText sign).toList ++ cs) = true := by
  have hrest : (takeSign ((signText sign).toList ++ cs)).2 = cs := by
    cases sign with
    | negative => rfl
    | positive => exact congrArg Prod.snd h.takeSign_eq
  rw [isNumeral, hrest, isSome_readUnsigned?, h.isSome_readMagnitude?, Bool.or_true]

/-- The text of a floating-point number is a numeral. -/
theorem isNumeral_floatText (x : Float) : isNumeral (floatText x).toList = true := by
  rw [floatText]
  generalize x.toModel.unpack = f
  cases f with
  | notANumber => decide
  | infinity sign | zero sign => cases sign <;> decide
  | finite sign m q =>
    rw [String.toList_append]
    exact (isPointed_magnitudeText m q).isNumeral_sign sign

end Decimal

end Logo
