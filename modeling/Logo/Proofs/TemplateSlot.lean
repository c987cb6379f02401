import Logo.Library.Template
import Logo.Node.Alike
import Logo.Proofs.BlockExit
import Logo.Proofs.Library
import Logo.Proofs.NotANumber
import Logo.Proofs.RawList

/-!
# The slot of a template

The shortest template is a slot and nothing else.  To run it on a value is to write out the value
and to read the text again, in a program for a word and between brackets for the items of a list.
In a program every word is read as what it was.  Between brackets all words are symbols, and the
mark of a quoted word becomes part of its text: a list comes back with the same words only if there
is no quoted one in it.
-/

namespace Logo

open TokenRule

namespace Text

/-- The number of characters in the lower case of a character. -/
def lowerWidth (c : Char) : Nat :=
  if c == 'Σ' then 1 else (lowerChar c).length

/-- How long a text is in lower case does not depend on where its letters stand. -/
theorem length_lowerOnto (after lowered cs : List Char) :
    (lowerOnto after lowered cs).length = lowered.length + (cs.map lowerWidth).sum := by
  induction cs generalizing after lowered with
  | nil => rfl
  | cons c cs ih =>
    rw [lowerOnto, ih, List.length_append, List.map_cons, List.sum_cons]
    have himage : (if c == 'Σ' then [lowerSigma cs after] else lowerChar c).length =
        lowerWidth c := by
      rw [lowerWidth]
      split <;> rfl
    rw [himage]
    omega

/-- A text and the text behind a mark are different also in lower case. -/
theorem toLower_mark_ne (s : String) : toLower ("\"" ++ s) ≠ toLower s := by
  intro heq
  have hlength := congrArg (·.toList.length) heq
  have hmark : lowerWidth '"' = 1 := by decide
  simp [toLower, length_lowerOnto, List.sum_append, hmark] at hlength

end Text

/-- A mark is no part of a number. -/
theorem Decimal.readUnsigned?_mark (cs : List Char) : readUnsigned? ('"' :: cs) = none := by
  have hword : ∀ word : String, word.toList.head? ≠ some '"' →
      String.ofList (('"' :: cs).map Char.toLower) ≠ word := by
    rintro word hhead rfl
    rw [String.toList_ofList] at hhead
    exact hhead rfl
  have hmagnitude : readMagnitude? ('"' :: cs) = none := rfl
  simp only [readUnsigned?, beq_eq_false_iff_ne.2 (hword "inf" (by decide)),
    beq_eq_false_iff_ne.2 (hword "infinity" (by decide)),
    beq_eq_false_iff_ne.2 (hword "nan" (by decide)),
    Bool.or_self, Bool.false_eq_true, if_false, hmagnitude]

namespace Node

/-- A number, a truth value, a quoted word that a program can spell, or a list of such values. -/
inductive Datum : Node → Prop
  | integer (value : Int64) : Datum (.integer value)
  | boolean (value : Bool) : Datum (.boolean value)
  | quoted {text : String} (solid : ∀ c ∈ text.toList, endsWord c = false) : Datum (.quoted text)
  | list {items : List Node} (each : ∀ item ∈ items, Datum item) : Datum (.list items)

mutual

/-- The node that the source form of an item is read as. -/
def asItem : Node → Node
  | list items => list (asItems items)
  | other => symbol other.toSource

/-- The nodes that the source forms of items are read as. -/
def asItems : List Node → List Node
  | [] => []
  | n :: ns => n.asItem :: asItems ns

end

theorem asItems_eq_map (ns : List Node) : asItems ns = ns.map asItem := by
  induction ns with
  | nil => rfl
  | cons n ns ih => rw [asItems, ih, List.map_cons]

/-- The node that the source form of a value is read as in a program. -/
def reread : Node → Node
  | list items => (list items).asItem
  | other => other

/-- There is a quoted word in the node, at whatever depth. -/
inductive HasQuoted : Node → Prop
  | word {text : String} : HasQuoted (.quoted text)
  | item {items : List Node} {item : Node} (mem : item ∈ items) (within : HasQuoted item) :
      HasQuoted (.list items)

variable {v : Node}

/-! ## Source forms -/

theorem Datum.toSource_asItem (h : v.Datum) : v.asItem.toSource = v.toSource := by
  induction h with
  | integer | boolean | quoted => rfl
  | @list items _ ih =>
    have heach : (items.map asItem).map toSource = items.map toSource := by
      rw [List.map_map]
      exact List.map_congr_left ih
    rw [asItem, toSource, toSource, sourceEach_eq_map, sourceEach_eq_map, asItems_eq_map, heach]

/-- Digits are no marks of a list. -/
theorem endsListWord_of_isDigit {c : Char} (h : c.isDigit = true) : endsListWord c = false := by
  have hall : (['0', '1', '2', '3', '4', '5', '6', '7', '8', '9'].all (!endsListWord ·)) =
    true := by decide
  exact Bool.eq_false_of_not_eq_true' (List.all_eq_true.1 hall c (mem_digits_of_isDigit h))

theorem isListWord_toDigits (n : Nat) : IsListWord (Nat.toDigits 10 n) :=
  ⟨Nat.toDigits_ne_nil, fun _ hc =>
    endsListWord_of_isDigit (Nat.isDigit_of_mem_toDigits (by decide) (by decide) hc)⟩

theorem isListWord_cons {c : Char} {w : List Char} (hc : endsListWord c = false)
    (hw : ∀ d ∈ w, endsListWord d = false) : IsListWord (c :: w) :=
  ⟨List.cons_ne_nil c w, List.forall_mem_cons.2 ⟨hc, hw⟩⟩

theorem Datum.raw_asItem (h : v.Datum) : v.asItem.Raw := by
  induction h with
  | integer value =>
    refine .symbol ?_
    rcases toList_toSource_integer value with ⟨n, -, htext⟩ | ⟨n, -, htext⟩
    · rw [htext]
      exact isListWord_toDigits n
    · rw [htext]
      exact isListWord_cons rfl (isListWord_toDigits n).solid
  | boolean value => cases value <;> exact .symbol (by decide)
  | @quoted text solid =>
    refine .symbol ?_
    rw [toList_toSource_quoted]
    refine isListWord_cons rfl fun c hc => Bool.eq_false_iff.2 fun hends => ?_
    exact Bool.false_ne_true ((solid c hc).symm.trans (endsWord_of_endsListWord hends))
  | @list items _ ih =>
    rw [asItem, asItems_eq_map]
    refine .list fun item hitem => ?_
    obtain ⟨n, hn, rfl⟩ := List.mem_map.1 hitem
    exact ih n hn

theorem Datum.exists_spelling (h : v.Datum) (table : ProcedureTable) :
    ∃ ls, Spelling table v.toSource.toList v.reread ls := by
  cases h with
  | integer value => exact Spelling.ofInteger value
  | boolean value => exact Spelling.ofBoolean value
  | quoted solid => exact Spelling.ofQuoted solid
  | @list items each =>
    have hdatum : (Node.list items).Datum := .list each
    have hraw := hdatum.raw_asItem
    rw [← hdatum.toSource_asItem]
    exact ⟨_, .ofRawList hraw.items⟩

/-! ## Alike nodes -/

/-- A word is alike to itself unless it is read as a NaN. -/
theorem alikeWords_self_iff :
    v.alikeWords v = true ↔ ∀ n, v.toNumber? = some n → n.toFloat.isNaN = false := by
  rw [alikeWords]
  cases v.toNumber? with
  | some n => simp only [beq_self_eq_not_isNaN, Bool.not_eq_true', Option.some.injEq, forall_eq']
  | none => simp

theorem toNumber?_asItem_integer (value : Int64) :
    (integer value).asItem.toNumber? = some (.integer value) := by
  refine Number.ofText?_of_readInt? ?_
  rcases toList_toSource_integer value with ⟨n, hvalue, htext⟩ | ⟨n, hvalue, htext⟩
  · rw [htext, hvalue, Decimal.readInt?_toDigits]
  · rw [htext, hvalue, Decimal.readInt?_minus_toDigits]

theorem toNumber?_asItem_quoted (text : String) : (quoted text).asItem.toNumber? = Option.none := by
  have htext : (quoted text).toSource.toList = '"' :: text.toList := toList_toSource_quoted text
  have hwhole : Decimal.readInt64? (quoted text).toSource = Option.none := by
    rw [Decimal.readInt64?, htext]
    rfl
  have hfloat : Decimal.readFloat? (quoted text).toSource = Option.none := by
    rw [Decimal.readFloat?, htext]
    exact congrArg (Option.map _) (Decimal.readUnsigned?_mark text.toList)
  show Number.ofText? (quoted text).toSource = Option.none
  rw [Number.ofText?, hwhole, hfloat]
  rfl

theorem alikeEach_asItems (items : List Node) :
    alikeEach (asItems items) items = true ↔ ∀ item ∈ items, item.asItem.alike item = true := by
  induction items with
  | nil => simp [asItems, alikeEach]
  | cons n ns ih => rw [asItems, alikeEach, Bool.and_eq_true, ih, List.forall_mem_cons]

/-- Between brackets the quoted words are lost, and only these. -/
theorem Datum.alike_asItem_iff (h : v.Datum) : v.asItem.alike v = true ↔ ¬ v.HasQuoted := by
  induction h with
  | integer value =>
    refine iff_of_true ?_ nofun
    show alikeWords _ _ = true
    rw [alikeWords, toNumber?_asItem_integer]
    show (Float.ofInt value.toInt == Float.ofInt value.toInt) = true
    rw [beq_self_eq_not_isNaN, isNaN_ofInt]
    rfl
  | boolean value => exact iff_of_true (by cases value <;> decide) nofun
  | @quoted text =>
    refine iff_of_false ?_ fun h => h .word
    show ¬ alikeWords _ _ = true
    rw [alikeWords, toNumber?_asItem_quoted]
    exact fun h => Text.toLower_mark_ne text (beq_iff_eq.1 h)
  | @list items each ih =>
    rw [asItem, alike, alikeEach_asItems]
    constructor
    · intro hall hquoted
      cases hquoted with
      | item mem within => exact (ih _ mem).1 (hall _ mem) within
    · intro h item hitem
      exact (ih item hitem).2 fun hquoted => h (.item hitem hquoted)

/-- The value comes back from its source form as one that is alike: a list has to be free of quoted
words, and a quoted word must not stand for a NaN, as that is not even alike to itself. -/
def Survives : Node → Prop
  | list items => ¬ (list items).HasQuoted
  | quoted text => Decimal.isNaNWord text = false
  | _ => True

theorem Datum.alike_reread_iff (h : v.Datum) : v.reread.alike v = true ↔ v.Survives := by
  cases h with
  | integer value =>
    refine iff_of_true ?_ trivial
    show alikeWords (.integer value) (.integer value) = true
    rw [alikeWords_self_iff]
    rintro _ ⟨⟩
    exact isNaN_ofInt value.toInt
  | boolean value => exact iff_of_true (by cases value <;> decide) trivial
  | @quoted text solid =>
    refine alikeWords_self_iff.trans ?_
    rw [Survives, ← Bool.not_eq_true, Number.isNaNWord_iff]
    constructor
    · rintro h ⟨n, hn, hnan⟩
      cases (h n hn).symm.trans hnan
    · intro h n hn
      exact Bool.eq_false_iff.2 fun hnan => h ⟨n, hn, hnan⟩
  | list each => exact (Datum.list each).alike_asItem_iff

end Node

namespace Evaluate

open Logo.Action Library

variable {v : Node}

theorem node_reread (h : v.Datum) (apply : String → List Node → Action Node) (s : Interpreter) :
    node apply v.reread s = .value v.reread s := by
  cases h with
  | integer | boolean | quoted | list => rfl

/-- The value of a block with one statement that changes nothing. -/
theorem statements_singleton {apply : String → List Node → Action Node} {s : Interpreter}
    {statement w last : Node} (h : node apply statement s = .value w s) :
    statements apply [statement] last s = .value w s := by
  cases hexit : s.exitRequested with
  | true => exact statements_of_exit h hexit
  | false => exact statements_of_value h hexit

/-- A slot is filled with a value, and gives what the source form of the value is read as. -/
theorem runTemplate_slot (h : v.Datum) (apply : String → List Node → Action Node)
    (s : Interpreter) :
    runTemplate (block apply) (.list [.symbol "?"]) v s = .value v.reread s := by
  obtain ⟨ls, hspelling⟩ := h.exists_spelling s.procedures
  have hfilled : fill v (.list [.symbol "?"]) = .list [v] := by
    simp [fill, fillEach]
  have htext : String.ofList v.toSource.toList = Node.renderBlock [v] := by
    rw [String.ofList_toList, ← String.toList_inj, toList_renderBlock_singleton]
  have hread := hspelling.readText_eq false
  rw [htext] at hread
  rw [runTemplate, hfilled, block_of_read (read_of_ok hread)]
  exact statements_singleton (node_reread h apply s)

/-- Whatever the interpreter knows, a slot filled with a value gives a value and changes nothing.
What it gives is alike to the value for all words but those for a NaN, and for the lists that have
no quoted word in them. -/
theorem template_slot_faithful_iff (hv : v.Datum) (apply : String → List Node → Action Node)
    (s : Interpreter) :
    runTemplate (block apply) (.list [.symbol "?"]) v s = .value v.reread s ∧
      (v.reread.alike v = true ↔ v.Survives) :=
  ⟨runTemplate_slot hv apply s, hv.alike_reread_iff⟩

/-- A list of a number and a list with a truth value. -/
def plainList : Node :=
  .list [.integer (-7), .list [.boolean true]]

theorem datum_plainList : plainList.Datum := by
  refine .list ?_
  rw [List.forall_mem_cons, List.forall_mem_singleton]
  refine ⟨.integer _, .list ?_⟩
  rw [List.forall_mem_singleton]
  exact .boolean true

theorem survives_plainList : plainList.Survives := by
  intro h
  rcases h with _ | ⟨hmem, hwithin⟩
  simp only [List.mem_cons, List.not_mem_nil, or_false] at hmem
  rcases hmem with rfl | rfl
  · cases hwithin
  · rcases hwithin with _ | ⟨hmem, hwithin⟩
    rw [List.mem_singleton] at hmem
    subst hmem
    cases hwithin

theorem template_slot_faithful_iff_plain : plainList.Datum ∧
    runTemplate (block (Evaluate.apply 0)) (.list [.symbol "?"]) plainList (.standard []) =
      .value (.list [.symbol "-7", .list [.symbol "true"]]) (.standard []) ∧
    (Node.list [.symbol "-7", .list [.symbol "true"]]).alike plainList = true := by
  obtain ⟨hrun, halike⟩ :=
    template_slot_faithful_iff datum_plainList (Evaluate.apply 0) (.standard [])
  have hreread : plainList.reread = .list [.symbol "-7", .list [.symbol "true"]] := rfl
  rw [hreread] at hrun halike
  exact ⟨datum_plainList, hrun, halike.2 survives_plainList⟩

/-- It is not so that a slot stands for every value: a list with a quoted word comes back with the
mark of the word in its text. -/
theorem template_slot_loses_marks :
    ¬ ∀ (n : Nat) (s : Interpreter) (v : Node), s.HasLibrary → v.Datum →
      ∃ r t, runTemplate (block (Evaluate.apply n)) (.list [.symbol "?"]) v s = .value r t ∧
      r.alike v = true := by
  intro hall
  have hdatum : (Node.list [.quoted "a"]).Datum := by
    refine .list ?_
    rw [List.forall_mem_singleton]
    refine .quoted fun c hc => ?_
    obtain rfl : c = 'a' := by simpa using hc
    rfl
  obtain ⟨r, t, hrun, halike⟩ :=
    hall 0 (.standard []) (.list [.quoted "a"]) (Interpreter.hasLibrary_standard []) hdatum
  rw [runTemplate_slot hdatum] at hrun
  cases hrun
  exact hdatum.alike_reread_iff.1 halike (.item List.mem_cons_self .word)

end Evaluate

end Logo
