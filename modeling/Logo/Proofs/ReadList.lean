import Logo.Proofs.BlockText
import Mathlib.Order.Minimal

/-!
# The grammar of a list

A line is read as the inside of a list, with a bracket added at its end.  The list ends at the first
bracket that was not opened, so it may end before the line does; and if the line leaves brackets
open, the added one is not enough and the list does not end at all.

Both can be told by counting.  The list is what stands before the end of the shortest front that
closes a bracket more than it opens (`FirstClosed.balanced`), and its items are those that the text
there writes (`Spells`).  If there is no such front the reader runs out of lexemes
(`listItems_unclosed`).
-/

namespace Logo

open TokenRule Token

/-! ## Counting brackets -/

/-- The text closes a bracket more than it opens. -/
def Overclosed (s : List Char) : Prop :=
  s.count '[' < s.count ']'

instance (s : List Char) : Decidable (Overclosed s) :=
  inferInstanceAs (Decidable (_ < _))

/-- The front is the shortest one that closes a bracket more than it opens. -/
structure FirstClosed (front cs : List Char) : Prop where
  isFront : front <+: cs
  overclosed : Overclosed front
  shortest : ∀ other, other <+: cs → Overclosed other → front.length ≤ other.length

theorem exists_firstClosed {cs : List Char} (h : ∃ front, front <+: cs ∧ Overclosed front) :
    ∃ front, FirstClosed front cs := by
  obtain ⟨front, ⟨hfront, hover⟩, hmin⟩ :=
    exists_minimalFor_of_wellFoundedLT (fun front => front <+: cs ∧ Overclosed front) List.length h
  refine ⟨front, hfront, hover, fun other hother hclosed => ?_⟩
  exact (Nat.le_total front.length other.length).elim id (hmin ⟨hother, hclosed⟩)

/-- The front ends with the bracket that closes too much, and before it all brackets are matched. -/
theorem FirstClosed.balanced {front cs : List Char} (h : FirstClosed front cs) :
    ∃ inside, front = inside ++ [']'] ∧ Balanced 0 inside := by
  have hover := h.overclosed
  rw [Overclosed] at hover
  rcases List.eq_nil_or_concat front with rfl | ⟨inside, last, rfl⟩
  · exact absurd hover (Nat.lt_irrefl 0)
  rw [List.concat_eq_append] at h hover ⊢
  -- Whatever is shorter does not close too much.
  have hopened : ∀ other, other <+: inside → other.count ']' ≤ 0 + other.count '[' := by
    intro other hother
    rw [Nat.zero_add, ← Nat.not_lt]
    intro hclosed
    have hle := h.shortest other (hother.trans ((List.prefix_append _ _).trans h.isFront)) hclosed
    rw [List.length_append, List.length_singleton] at hle
    exact absurd hother.length_le (Nat.not_le.2 hle)
  have hinside := hopened inside (List.prefix_refl inside)
  rw [List.count_append, List.count_append] at hover
  by_cases hlast : last = ']'
  · subst hlast
    refine ⟨inside, rfl, hopened, ?_⟩
    have hcounts : [']'].count '[' = 0 ∧ [']'].count ']' = 1 := by decide
    omega
  · have hcount : [last].count ']' = 0 :=
      List.count_eq_zero_of_not_mem (by simpa using Ne.symm hlast)
    omega

/-- Behind characters that are no brackets, as many are open as before them. -/
theorem opened_of_append {depth : Nat} {s cs : List Char} (hleft : '[' ∉ s) (hright : ']' ∉ s)
    (h : ∀ front, front <+: s ++ cs → front.count ']' ≤ depth + front.count '[') :
    ∀ front, front <+: cs → front.count ']' ≤ depth + front.count '[' := by
  intro front hfront
  have hle := h (s ++ front) ((List.prefix_append_right_inj s).2 hfront)
  rwa [List.count_append, List.count_append, List.count_eq_zero.2 hleft,
    List.count_eq_zero.2 hright, Nat.zero_add, Nat.zero_add] at hle

/-! ## Reading to the end of the list -/

namespace Reader

/-- The lexemes are those of the text below a number of open brackets. -/
def CutFrom (depth : Nat) (cs : List Char) (ls : List Lexeme) : Prop :=
  ls.map (·.token.piece) = (pieces depth cs).filter (!·.isIdle) ++ [⟨.eof, ""⟩]

/-- What holds at the front of a text, and of a bracket, holds at the front of the text before the
bracket. -/
theorem head_before_rightBracket {q : Char → Bool} {b : Bool} {after rest : List Char}
    (hbracket : q ']' = b) (h : ∀ c, after.head? = some c → q c = b) :
    ∀ c, (after ++ ']' :: rest).head? = some c → q c = b := by
  intro c hc
  cases after with
  | nil =>
    cases hc
    exact hbracket
  | cons d after => exact h c hc

/-- Items are taken one after the other, up to the bracket behind them. -/
theorem listItems_of_spells {s : List Char} {items : List Node} (h : Spells s items) :
    ∀ {depth : Nat} {rest : List Char} {ls : List Lexeme},
      CutFrom (depth + 1) (s ++ ']' :: rest) ls →
      ∃ l others, l.kind = .rightBracket ∧ CutFrom depth rest others ∧
        ∀ outer taken, listItems outer taken ls =
          listItems outer (items.reverse ++ taken) (l :: others) := by
  induction h with
  | nil =>
    intro depth rest ls hls
    rw [CutFrom, List.nil_append, pieces_list_rightBracket] at hls
    obtain ⟨position, isSign, others, rfl, hothers⟩ := exists_of_map_piece hls
    exact ⟨_, others, rfl, hothers, fun outer taken => rfl⟩
  | blanks hne hblank hstop _ ih =>
    intro depth rest ls hls
    rw [CutFrom, List.append_assoc,
      pieces_list_blank hne hblank (head_before_rightBracket rfl hstop)] at hls
    exact ih hls
  | word hword hstop _ ih =>
    intro depth rest ls hls
    rw [CutFrom, List.append_assoc,
      pieces_list_word hword (head_before_rightBracket rfl hstop)] at hls
    obtain ⟨position, isSign, behind, rfl, hbehind⟩ := exists_of_map_piece hls
    obtain ⟨l, others, hl, hothers, hread⟩ := ih hbehind
    refine ⟨l, others, hl, hothers, fun outer taken => ?_⟩
    rw [List.reverse_cons, List.append_assoc]
    exact hread outer (_ :: taken)
  | @list s after inner items _ _ ihInner ih =>
    intro depth rest ls hls
    have htext : '[' :: (s ++ ']' :: after) ++ ']' :: rest =
        '[' :: (s ++ ']' :: (after ++ ']' :: rest)) := by
      simp
    rw [CutFrom, htext, pieces_list_leftBracket] at hls
    obtain ⟨position, isSign, within, rfl, hwithin⟩ := exists_of_map_piece hls
    obtain ⟨m, behind, hm, hbehind, hinner⟩ := ihInner hwithin
    obtain ⟨l, others, hl, hothers, hread⟩ := ih hbehind
    refine ⟨l, others, hl, hothers, fun outer taken => ?_⟩
    -- The inner list is closed by its own bracket and becomes an item of the list around it.
    have hopen : listItems outer taken (⟨⟨.leftBracket, "[", position⟩, isSign⟩ :: within) =
        listItems (taken :: outer) [] within := rfl
    have hclose : listItems (taken :: outer) (inner.reverse ++ []) (m :: behind) =
        listItems outer (.list inner :: taken) behind := by
      simp only [listItems, hm, List.append_nil, List.reverse_reverse]
    rw [hopen, hinner, hclose, hread, List.reverse_cons, List.append_assoc]
    rfl

/-- A list that no bracket closes is read until the lexemes are used up. -/
theorem listItems_unclosed (cs : List Char) :
    ∀ (outer : List (List Node)) (taken : List Node) {ls : List Lexeme},
      CutFrom (outer.length + 1) cs ls →
      (∀ front, front <+: cs → front.count ']' ≤ outer.length + front.count '[') →
      ∃ position, listItems outer taken ls =
        .error (.unexpectedClass .rightBracket .eof position) := by
  -- There are as many brackets open as lists around the one that is being read, and one more.
  induction cs using listText_induction with
  | nil =>
    intro outer taken ls hls _
    rw [CutFrom, pieces_nil] at hls
    obtain ⟨position, isSign, ls, rfl, -⟩ := exists_of_map_piece hls
    exact ⟨position, rfl⟩
  | leftBracket cs ih =>
    intro outer taken ls hls hopened
    rw [CutFrom, pieces_list_leftBracket] at hls
    obtain ⟨position, isSign, ls, rfl, hafter⟩ := exists_of_map_piece hls
    refine ih (taken :: outer) [] hafter fun front hfront => ?_
    have hle := hopened ('[' :: front) (List.cons_prefix_cons.2 ⟨rfl, hfront⟩)
    rw [List.count_cons_self, List.count_cons_of_ne (by decide)] at hle
    rw [List.length_cons]
    omega
  | rightBracket cs ih =>
    intro outer taken ls hls hopened
    rw [CutFrom, pieces_list_rightBracket] at hls
    obtain ⟨position, isSign, ls, rfl, hafter⟩ := exists_of_map_piece hls
    cases outer with
    | nil =>
      have hle := hopened [']'] (List.cons_prefix_cons.2 ⟨rfl, List.nil_prefix⟩)
      exact absurd hle (by decide)
    | cons around outer =>
      refine ih outer _ hafter fun front hfront => ?_
      have hle := hopened (']' :: front) (List.cons_prefix_cons.2 ⟨rfl, hfront⟩)
      rw [List.count_cons_self, List.count_cons_of_ne (by decide), List.length_cons] at hle
      omega
  | blanks s cs hne hblank hstop ih =>
    intro outer taken ls hls hopened
    have hleft : '[' ∉ s := fun hmem => absurd (hblank _ hmem) (by decide)
    have hright : ']' ∉ s := fun hmem => absurd (hblank _ hmem) (by decide)
    rw [CutFrom, pieces_list_blank hne hblank hstop] at hls
    exact ih outer taken hls (opened_of_append hleft hright hopened)
  | word w cs hword hstop ih =>
    intro outer taken ls hls hopened
    have hleft : '[' ∉ w := fun hmem => absurd (hword.solid _ hmem) (by decide)
    have hright : ']' ∉ w := fun hmem => absurd (hword.solid _ hmem) (by decide)
    rw [CutFrom, pieces_list_word hword hstop] at hls
    obtain ⟨position, isSign, ls, rfl, hafter⟩ := exists_of_map_piece hls
    exact ih outer (.symbol (String.ofList w) :: taken) hafter
      (opened_of_append hleft hright hopened)

/-- The list ends at its bracket, whatever follows. -/
theorem readList_of_spells_append {text : String} {s rest : List Char} {items : List Node}
    (h : Spells s items) (htext : text.toList ++ [']'] = s ++ ']' :: rest) :
    readList text = .ok (.list items) := by
  obtain ⟨ls, hls, hread⟩ := exists_readList_eq text
  rw [htext] at hls
  obtain ⟨l, others, hl, -, hitems⟩ := listItems_of_spells h hls
  have hclose : listItems [] (items.reverse ++ []) (l :: others) = .ok (.list items, others) := by
    simp only [listItems, hl, List.append_nil, List.reverse_reverse]
  rw [hread, hitems, hclose]
  rfl

/-- A text writes its items in one way only. -/
theorem spells_unique {s : List Char} {items others : List Node} (h : Spells s items)
    (h' : Spells s others) : items = others := by
  have htext : (String.ofList s).toList ++ [']'] = s ++ ']' :: [] := by rw [String.toList_ofList]
  have hread := readList_of_spells_append h htext
  rw [readList_of_spells_append h' htext] at hread
  cases hread
  rfl

theorem exists_items_of_firstClosed {text : String} {front : List Char}
    (h : FirstClosed front (text.toList ++ [']'])) :
    ∃ inside items, front = inside ++ [']'] ∧ Spells inside items ∧
      readList text = .ok (.list items) := by
  obtain ⟨inside, rfl, hbalanced⟩ := h.balanced
  obtain ⟨items, hspells⟩ := exists_spells hbalanced
  obtain ⟨rest, hrest⟩ := h.isFront
  rw [List.append_assoc, List.singleton_append] at hrest
  exact ⟨inside, items, rfl, hspells, readList_of_spells_append hspells hrest.symm⟩

/-- A line is read as a list if and only if, with a bracket behind it, some front of it closes a
bracket more than it opens.  The list has the items that are written before the last bracket of the
shortest such front, and nothing behind that front matters.  Otherwise a closing bracket is missed
at the end. -/
theorem readList_bracket_grammar (text : String) :
    ((∃ node, readList text = .ok node) ↔
      ∃ front, front <+: text.toList ++ [']'] ∧ Overclosed front) ∧
    (∀ front, FirstClosed front (text.toList ++ [']']) →
      ∃ inside items, front = inside ++ [']'] ∧ Spells inside items ∧
        (∀ others, Spells inside others → others = items) ∧ readList text = .ok (.list items)) ∧
    (∀ front other, FirstClosed front (text.toList ++ [']']) →
      FirstClosed front (other.toList ++ [']']) →
      readList other = readList text) ∧
    ((¬ ∃ front, front <+: text.toList ++ [']'] ∧ Overclosed front) →
      ∃ position, readList text = .error (.unexpectedClass .rightBracket .eof position)) := by
  have hfails : (¬ ∃ front, front <+: text.toList ++ [']'] ∧ Overclosed front) →
      ∃ position, readList text = .error (.unexpectedClass .rightBracket .eof position) := by
    intro hnone
    obtain ⟨ls, hls, hread⟩ := exists_readList_eq text
    have hopened : ∀ front, front <+: text.toList ++ [']'] →
        front.count ']' ≤ 0 + front.count '[' := by
      intro front hfront
      rw [Nat.zero_add, ← Nat.not_lt]
      exact fun hover => hnone ⟨front, hfront, hover⟩
    obtain ⟨position, herror⟩ := listItems_unclosed _ [] [] hls hopened
    exact ⟨position, by rw [hread, herror]; rfl⟩
  refine ⟨⟨fun ⟨node, hnode⟩ => ?_, fun h => ?_⟩, fun front h => ?_,
    fun front other h hother => ?_, hfails⟩
  · by_contra hnone
    obtain ⟨position, herror⟩ := hfails hnone
    rw [herror] at hnode
    cases hnode
  · obtain ⟨front, hfirst⟩ := exists_firstClosed h
    obtain ⟨inside, items, -, -, hread⟩ := exists_items_of_firstClosed hfirst
    exact ⟨_, hread⟩
  · obtain ⟨inside, items, hfront, hspells, hread⟩ := exists_items_of_firstClosed h
    exact ⟨inside, items, hfront, hspells,
      fun others hothers => spells_unique hothers hspells, hread⟩
  · obtain ⟨inside, items, hfront, hspells, hread⟩ := exists_items_of_firstClosed h
    obtain ⟨inside', items', hfront', hspells', hread'⟩ := exists_items_of_firstClosed hother
    have hinside : inside' = inside := (List.append_inj' (hfront'.symm.trans hfront) rfl).1
    subst hinside
    rw [hread, hread', spells_unique hspells' hspells]

/-- A list that ends before its line does, and a line that leaves a bracket open. -/
theorem readList_bracket_grammar_early :
    readList "a] b" = .ok (.list [.symbol "a"]) ∧
      ∃ position, readList "[a" = .error (.unexpectedClass .rightBracket .eof position) := by
  have hshortest : ∀ other ∈ ("a] b".toList ++ [']']).inits, Overclosed other →
    2 ≤ other.length := by decide
  have hfirst : FirstClosed ['a', ']'] ("a] b".toList ++ [']']) :=
    ⟨⟨[' ', 'b', ']'], rfl⟩, by decide,
      fun other hother => hshortest other ((List.mem_inits _ _).2 hother)⟩
  have hword : Spells (['a'] ++ []) [.symbol (String.ofList ['a'])] :=
    .word (by decide) (by simp) .nil
  have hunclosed : ∀ front ∈ ("[a".toList ++ [']']).inits, ¬ Overclosed front := by decide
  obtain ⟨-, hlist, -, -⟩ := readList_bracket_grammar "a] b"
  obtain ⟨-, -, -, hfails⟩ := readList_bracket_grammar "[a"
  obtain ⟨inside, items, hfront, -, hunique, hread⟩ := hlist _ hfirst
  have hsplit : ['a'] ++ [']'] = inside ++ [']'] := hfront
  obtain rfl : ['a'] = inside := (List.append_inj' hsplit rfl).1
  rw [hread, hunique _ hword]
  exact ⟨rfl, hfails fun ⟨front, hfront, hover⟩ =>
    hunclosed front ((List.mem_inits _ _).2 hfront) hover⟩

end Reader

end Logo
