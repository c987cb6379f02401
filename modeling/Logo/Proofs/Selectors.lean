import Logo.Proofs.ExactArithmetic
import Mathlib.Order.Bounds.Basic

/-!
# Selectors and constructors

Selectors look at a list and at a word alike, as a sequence of elements, and what they give depends
on that sequence only.  A step of `butfirst` takes the first element off the sequence, whatever sort
of word it was made from (`exists_behind`).  So an element is the first one behind the elements
before it, and there are as many elements as steps to an empty sequence.

The constructors put together again what the selectors take apart, item by item and character by
character.
-/

namespace Logo

open Library

/-- The node has a text that selectors take apart. -/
def Node.isWord : Node → Bool
  | .quoted _ | .symbol _ | .integer _ | .float _ | .boolean _ => true
  | _ => false

/-- The node is a list or a word. -/
def Node.isSequence : Node → Bool
  | .list _ => true
  | other => other.isWord

/-! ## Sequences -/

namespace Library.Sequence

variable {thing : Node} {sequence : Sequence}

theorem ofNode_of_isWord {w : Node} (h : w.isWord = true) :
    ofNode w = .ok (characters w.display.toList) := by
  cases w with
  | quoted | symbol | integer | float | boolean => rfl
  | _ => cases h

theorem exists_ofNode (h : thing.isSequence = true) : ∃ sequence, ofNode thing = .ok sequence := by
  cases thing with
  | list items => exact ⟨_, rfl⟩
  | _ => exact ⟨_, ofNode_of_isWord h⟩

theorem ofNode_toNode (sequence : Sequence) : ofNode sequence.toNode = .ok sequence := by
  cases sequence with
  | items nodes => rfl
  | characters chars =>
    show Except.ok (characters (String.ofList chars).toList) = _
    rw [String.toList_ofList]

theorem toList_tail (sequence : Sequence) : sequence.tail.toList = sequence.toList.tail := by
  cases sequence with
  | items nodes => rfl
  | characters chars => exact List.map_tail

theorem length_toList (sequence : Sequence) : sequence.toList.length = sequence.length := by
  cases sequence with
  | items nodes => rfl
  | characters chars => exact List.length_map _

/-- Only the sequence without elements counts as empty. -/
theorem isEmpty_of_ofNode (h : ofNode thing = .ok sequence) :
    Library.isEmpty thing = .ok (.boolean sequence.toList.isEmpty) := by
  have hword : ∀ text : String, text.isEmpty = (text.toList.map charNode).isEmpty := by
    intro text
    rw [List.isEmpty_map, Bool.eq_iff_iff, List.isEmpty_iff, String.isEmpty_iff,
      String.toList_eq_nil_iff]
  cases thing with
  | list items =>
    cases h
    rfl
  | quoted | symbol | integer | float | boolean =>
    cases h
    exact congrArg (Except.ok <| Node.boolean ·) (hword _)
  | nil | none | reference | call | procedure => cases h

end Library.Sequence

/-! ## Steps -/

section Steps

variable (runBlock : Node → Action Node)

/-- Takes the first element off a number of times. -/
def Library.behind : Nat → Node → Action Node
  | 0, thing => pure thing
  | n + 1, thing => perform runBlock .butFirst [thing] >>= behind n

variable {runBlock} {s : Interpreter} {thing : Node} {sequence : Sequence}

theorem perform_first (h : Sequence.ofNode thing = .ok sequence) :
    perform runBlock .first [thing] s = .value (sequence.toList.head?.getD .nil) s := by
  rw [perform, Library.first, h]
  rfl

theorem perform_butFirst (h : Sequence.ofNode thing = .ok sequence) :
    perform runBlock .butFirst [thing] s = .value sequence.tail.toNode s := by
  rw [perform, Library.butFirst, h]
  rfl

theorem perform_isEmpty (h : Sequence.ofNode thing = .ok sequence) :
    perform runBlock .isEmpty [thing] s = .value (.boolean sequence.toList.isEmpty) s := by
  rw [perform, Sequence.isEmpty_of_ofNode h]
  rfl

variable (runBlock s) in
/-- Steps take as many elements off the front. -/
theorem exists_behind (h : Sequence.ofNode thing = .ok sequence) (n : Nat) :
    ∃ rest left, behind runBlock n thing s = .value rest s ∧ Sequence.ofNode rest = .ok left ∧
      left.toList = sequence.toList.drop n := by
  induction n generalizing thing sequence with
  | zero => exact ⟨thing, sequence, rfl, h, rfl⟩
  | succ n ih =>
    obtain ⟨rest, left, hbehind, hrest, hleft⟩ := ih sequence.tail.ofNode_toNode
    refine ⟨rest, left, ?_, hrest, ?_⟩
    · rw [behind, Action.bind_of_value (perform_butFirst h)]
      exact hbehind
    · rw [hleft, Sequence.toList_tail, List.drop_tail]

/-- The steps behind which nothing is left. -/
theorem isEmpty_behind_iff (h : Sequence.ofNode thing = .ok sequence) (n : Nat) :
    (∃ rest, behind runBlock n thing s = .value rest s ∧
      perform runBlock .isEmpty [rest] s = .value (.boolean true) s) ↔ sequence.length ≤ n := by
  obtain ⟨rest, left, hbehind, hrest, hleft⟩ := exists_behind runBlock s h n
  have hempty : perform runBlock .isEmpty [rest] s = _ := perform_isEmpty hrest
  rw [hleft] at hempty
  rw [← Sequence.length_toList, ← List.drop_eq_nil_iff, ← List.isEmpty_iff]
  constructor
  · rintro ⟨other, hother, htrue⟩
    rw [hbehind] at hother
    cases hother
    rw [hempty] at htrue
    injection htrue with hnode
    injection hnode
  · intro hnil
    rw [hnil] at hempty
    exact ⟨rest, hbehind, hempty⟩

/-- The first element behind some steps. -/
theorem first_behind (h : Sequence.ofNode thing = .ok sequence) (n : Nat) :
    (behind runBlock n thing >>= fun rest => perform runBlock .first [rest]) s =
      .value (sequence.toList[n]?.getD .nil) s := by
  obtain ⟨rest, left, hbehind, hrest, hleft⟩ := exists_behind runBlock s h n
  rw [Action.bind_of_value hbehind, perform_first hrest, hleft, List.head?_drop]

theorem perform_item {index : Node} {k : Int64} (hindex : index.StandsFor k) (hk : 1 ≤ k.toInt)
    (h : Sequence.ofNode thing = .ok sequence) :
    perform runBlock .item [index, thing] s =
      .value (sequence.toList[k.toInt.toNat - 1]?.getD .nil) s := by
  have hitem : item index thing = .ok (sequence.toList[k.toInt.toNat - 1]?.getD .nil) := by
    simp only [item, hindex.toNumber_eq, bind, Except.bind, if_pos hk, h]
    rfl
  rw [perform, hitem]
  rfl

end Steps

/-! ## Putting together what was taken apart -/

section Parts

variable {runBlock : Node → Action Node} {s : Interpreter} {w : Node} {c : Char} {chars : List Char}

theorem perform_last {thing : Node} {sequence : Sequence}
    (h : Sequence.ofNode thing = .ok sequence) :
    perform runBlock .last [thing] s = .value (sequence.toList.getLast?.getD .nil) s := by
  rw [perform, Library.last, h]
  rfl

theorem perform_butLast {thing : Node} {sequence : Sequence}
    (h : Sequence.ofNode thing = .ok sequence) :
    perform runBlock .butLast [thing] s = .value sequence.dropLast.toNode s := by
  rw [perform, Library.butLast, h]
  rfl

theorem perform_word (a b : String) :
    perform runBlock .word [.quoted a, .quoted b] s = .value (.quoted (a ++ b)) s := by
  have hjoin : String.join [a, b] = a ++ b := by
    rw [String.join_cons, String.join_cons, String.join_nil, String.append_empty]
  rw [← hjoin]
  rfl

/-- A word is made of its first character and the others. -/
theorem word_of_first (hw : w.isWord = true) (htext : w.display.toList = c :: chars) :
    perform runBlock .first [w] s = .value (.quoted (String.singleton c)) s ∧
      perform runBlock .butFirst [w] s = .value (.quoted (String.ofList chars)) s ∧
      perform runBlock .word [.quoted (String.singleton c), .quoted (String.ofList chars)] s =
        .value (.quoted w.display) s := by
  have hsequence := Sequence.ofNode_of_isWord hw
  rw [htext] at hsequence
  refine ⟨perform_first hsequence, perform_butFirst hsequence, ?_⟩
  have hjoin : String.singleton c ++ String.ofList chars = w.display := by
    rw [← String.toList_inj, String.toList_append, htext, String.toList_ofList,
      String.toList_singleton]
    rfl
  rw [perform_word, hjoin]

/-- A word is made of the others and its last character. -/
theorem word_of_last (hw : w.isWord = true) (htext : w.display.toList = chars ++ [c]) :
    perform runBlock .last [w] s = .value (.quoted (String.singleton c)) s ∧
      perform runBlock .butLast [w] s = .value (.quoted (String.ofList chars)) s ∧
      perform runBlock .word [.quoted (String.ofList chars), .quoted (String.singleton c)] s =
        .value (.quoted w.display) s := by
  have hsequence := Sequence.ofNode_of_isWord hw
  rw [htext] at hsequence
  refine ⟨?_, ?_, ?_⟩
  · rw [perform_last hsequence, Sequence.toList, List.map_append, List.map_singleton,
      List.getLast?_concat]
    rfl
  · rw [perform_butLast hsequence, Sequence.dropLast, List.dropLast_concat]
    rfl
  · have hjoin : String.ofList chars ++ String.singleton c = w.display := by
      rw [← String.toList_inj, String.toList_append, htext, String.toList_ofList,
        String.toList_singleton]
    rw [perform_word, hjoin]

/-- The item at a position is the first one behind the elements before it, `nil` beyond the end, and
the count is the least number of steps behind which nothing is left (a sequence has fewer than 2 ^
63 elements, as long as it fits into a memory).  A list or a word that is not empty is put together
from its first element and the others, and from the others and its last element. -/
theorem selectors_fit_together (runBlock : Node → Action Node) (s : Interpreter) :
    (∀ thing : Node, thing.isSequence = true → ∃ steps : Nat,
      perform runBlock .count [thing] s = .value (.integer (Int64.ofNat steps)) s ∧
      (steps < 2 ^ 63 → (Int64.ofNat steps).toInt = steps) ∧
      IsLeast {n | ∃ rest, behind runBlock n thing s = .value rest s ∧
        perform runBlock .isEmpty [rest] s = .value (.boolean true) s} steps ∧
      ∀ (index : Node) (k : Int64), index.StandsFor k → 1 ≤ k.toInt → ∃ element,
        perform runBlock .item [index, thing] s = .value element s ∧
        (behind runBlock (k.toInt.toNat - 1) thing >>=
          fun rest => perform runBlock .first [rest]) s =
          .value element s ∧
        (steps < k.toInt → element = .nil)) ∧
    (∀ items : List Node, items ≠ [] →
      (∃ element others, items = element :: others ∧
        perform runBlock .first [.list items] s = .value element s ∧
        perform runBlock .butFirst [.list items] s = .value (.list others) s ∧
        perform runBlock .fput [element, .list others] s = .value (.list items) s) ∧
      (∃ element others, items = others ++ [element] ∧
        perform runBlock .last [.list items] s = .value element s ∧
        perform runBlock .butLast [.list items] s = .value (.list others) s ∧
        perform runBlock .lput [element, .list others] s = .value (.list items) s)) ∧
    (∀ w : Node, w.isWord = true → w.display ≠ "" →
      (∃ c chars, w.display.toList = c :: chars ∧
        perform runBlock .first [w] s = .value (.quoted (String.singleton c)) s ∧
        perform runBlock .butFirst [w] s = .value (.quoted (String.ofList chars)) s ∧
        perform runBlock .word [.quoted (String.singleton c), .quoted (String.ofList chars)] s =
          .value (.quoted w.display) s) ∧
      (∃ c chars, w.display.toList = chars ++ [c] ∧
        perform runBlock .last [w] s = .value (.quoted (String.singleton c)) s ∧
        perform runBlock .butLast [w] s = .value (.quoted (String.ofList chars)) s ∧
        perform runBlock .word [.quoted (String.ofList chars), .quoted (String.singleton c)] s =
          .value (.quoted w.display) s)) := by
  refine ⟨fun thing hthing => ?_, fun items hitems => ?_, fun w hw hne => ?_⟩
  · obtain ⟨sequence, hsequence⟩ := Sequence.exists_ofNode hthing
    refine ⟨sequence.length, ?_, Int64.toInt_ofNat_of_lt, ?_, fun index k hindex hk => ?_⟩
    · rw [perform, Library.count, hsequence]
      rfl
    · have hsteps : {n | ∃ rest, behind runBlock n thing s = .value rest s ∧
          perform runBlock .isEmpty [rest] s = .value (.boolean true) s} =
          Set.Ici sequence.length :=
        Set.ext fun n => isEmpty_behind_iff hsequence n
      rw [hsteps]
      exact isLeast_Ici
    · refine ⟨_, perform_item hindex hk hsequence, first_behind hsequence _, fun hbeyond => ?_⟩
      rw [List.getElem?_eq_none, Option.getD_none]
      rw [Sequence.length_toList]
      omega
  · constructor
    · obtain ⟨element, others, rfl⟩ := List.exists_cons_of_ne_nil hitems
      exact ⟨element, others, rfl, rfl, rfl, rfl⟩
    · obtain ⟨others, element, rfl⟩ : ∃ others element, items = others ++ [element] :=
        ⟨_, _, (List.dropLast_concat_getLast hitems).symm⟩
      refine ⟨element, others, rfl, ?_, ?_, rfl⟩
      · rw [perform_last rfl, Sequence.toList, List.getLast?_concat, Option.getD_some]
      · rw [perform_butLast rfl, Sequence.dropLast, List.dropLast_concat, Sequence.toNode]
  · have htext : w.display.toList ≠ [] := mt String.toList_eq_nil_iff.1 hne
    constructor
    · obtain ⟨c, chars, hchars⟩ := List.exists_cons_of_ne_nil htext
      exact ⟨c, chars, hchars, word_of_first hw hchars⟩
    · have hchars := (List.dropLast_concat_getLast htext).symm
      exact ⟨_, _, hchars, word_of_last hw hchars⟩

/-- The third character of a number is a word behind two steps, and a word of three characters has
more bytes. -/
theorem selectors_fit_together_words :
    let step := perform (fun _ => pure .none)
    step .item [.quoted "3", .integer (-15)] .initial = .value (.quoted "5") .initial ∧
      step .item [.integer 4, .integer (-15)] .initial = .value .nil .initial ∧
      (∃ c chars, (Node.symbol "é€𝄞").display.toList = c :: chars ∧
        step .word [.quoted (String.singleton c), .quoted (String.ofList chars)] .initial =
          .value (.quoted "é€𝄞") .initial) := by
  obtain ⟨hselect, -, hwords⟩ := selectors_fit_together (fun _ => pure .none) .initial
  obtain ⟨steps, hcount, -, -, hitem⟩ := hselect (.integer (-15)) rfl
  obtain ⟨third, hthird, hfirst, -⟩ := hitem (.quoted "3") 3 (.quoted (by decide)) (by decide)
  obtain ⟨fourth, hfourth, hlast, -⟩ := hitem (.integer 4) 4 (.integer 4) (by decide)
  obtain ⟨⟨c, chars, hchars, -, -, hjoin⟩, -⟩ := hwords (.symbol "é€𝄞") rfl (by decide)
  cases hfirst
  cases hlast
  exact ⟨hthird, hfourth, c, chars, hchars, hjoin⟩

end Parts

end Logo
