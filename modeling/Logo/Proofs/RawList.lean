import Logo.Node.Print
import Logo.Proofs.Spelling
import Mathlib.Data.List.TakeWhile

/-!
# Raw lists

Inside brackets a text is only cut into words and lists.  `Spells s items` says that the text `s`
writes `items` there, with any blanks between them; the text of a block, with its single spaces, is
one spelling among others (`spells_renderBlock`).

However the items are spelled, the reader gets the same lexemes (`Spells.ofPieces`) and takes the
items back from them (`readList_of_spells`).  What it takes from any text is raw
(`raw_of_readList`).
-/

namespace Logo

open TokenRule

/-! ## Raw nodes -/

/-- A word without blanks and brackets, or a list of raw nodes. -/
inductive Node.Raw : Node → Prop
  | symbol {text : String} : IsListWord text.toList → Raw (.symbol text)
  | list {items : List Node} : (∀ item ∈ items, Raw item) → Raw (.list items)

theorem Node.Raw.items {items : List Node} (h : (Node.list items).Raw) :
    ∀ item ∈ items, item.Raw := by
  cases h with
  | list h => exact h

/-- Without quoted words the two texts of a node agree. -/
theorem Node.Raw.display_eq {node : Node} (h : node.Raw) : node.display = node.toSource := by
  induction h with
  | symbol => rfl
  | @list items _ ih =>
    have heach : displayEach items = sourceEach items := by
      rw [displayEach_eq_map, sourceEach_eq_map]
      exact List.map_congr_left ih
    rw [display, toSource, heach]

theorem TokenRule.IsListWord.head {w : List Char} (h : IsListWord w) :
    ∃ c s, w = c :: s ∧ Text.isBlank c = false := by
  obtain ⟨c, s, rfl⟩ := List.exists_cons_of_ne_nil h.ne_nil
  have hc := h.solid c List.mem_cons_self
  simp only [endsListWord, Bool.or_eq_false_iff] at hc
  exact ⟨c, s, rfl, hc.1.1⟩

/-- A text is a sequence of brackets, runs of blanks and words. -/
@[elab_as_elim]
theorem listText_induction {motive : List Char → Prop} (cs : List Char)
    (nil : motive [])
    (leftBracket : ∀ rest, motive rest → motive ('[' :: rest))
    (rightBracket : ∀ rest, motive rest → motive (']' :: rest))
    (blanks : ∀ s rest, s ≠ [] → (∀ c ∈ s, Text.isBlank c = true) →
      (∀ c, rest.head? = some c → Text.isBlank c = false) → motive rest → motive (s ++ rest))
    (word : ∀ w rest, IsListWord w → (∀ c, rest.head? = some c → endsListWord c = true) →
      motive rest → motive (w ++ rest)) : motive cs := by
  induction hlen : cs.length using Nat.strongRecOn generalizing cs with
  | ind len ih =>
    cases cs with
    | nil => exact nil
    | cons c cs =>
      have hshorter : ∀ rest : List Char, rest <:+ cs → motive rest := by
        intro rest hrest
        refine ih _ ?_ _ rfl
        rw [← hlen, List.length_cons]
        exact Nat.lt_succ_of_le hrest.length_le
      -- A run of characters goes as far as it can.
      have hrun : ∀ q : Char → Bool, q c = true → ∃ s rest, c :: cs = s ++ rest ∧
          s ≠ [] ∧ motive rest ∧ (∀ d ∈ s, q d = true) ∧
          ∀ d, rest.head? = some d → q d = false := by
        intro q hq
        refine ⟨(c :: cs).takeWhile q, (c :: cs).dropWhile q, List.takeWhile_append_dropWhile.symm,
          ?_, hshorter _ ?_, fun d hd => List.mem_takeWhile_imp hd, fun d hd => ?_⟩
        · rw [List.takeWhile_cons_of_pos hq]
          exact List.cons_ne_nil _ _
        · rw [List.dropWhile_cons_of_pos hq]
          exact List.dropWhile_suffix _
        · have hnot := List.head?_dropWhile_not q (c :: cs)
          rwa [hd] at hnot
      by_cases hbracket : c = '[' ∨ c = ']'
      · rcases hbracket with rfl | rfl
        · exact leftBracket cs (hshorter cs List.suffix_rfl)
        · exact rightBracket cs (hshorter cs List.suffix_rfl)
      · by_cases hblank : Text.isBlank c = true
        · obtain ⟨s, rest, heq, hne, hrest, hall, hstop⟩ := hrun Text.isBlank hblank
          rw [heq]
          exact blanks s rest hne hall hstop hrest
        · have hword : (!endsListWord c) = true := by
            rw [not_or] at hbracket
            simp [endsListWord, hblank, hbracket]
          obtain ⟨s, rest, heq, hne, hrest, hall, hstop⟩ := hrun (!endsListWord ·) hword
          rw [heq]
          refine word s rest ⟨hne, fun d hd => ?_⟩ (fun d hd => ?_) hrest
          · simpa using hall d hd
          · simpa using hstop d hd

/-! ## Spellings -/

/-- The text writes the items, each set off from the next one by a bracket or a blank. -/
inductive Spells : List Char → List Node → Prop
  | nil : Spells [] []
  | blanks {s rest : List Char} {items : List Node} (ne_nil : s ≠ [])
      (blank : ∀ c ∈ s, Text.isBlank c = true)
      (stop : ∀ c, rest.head? = some c → Text.isBlank c = false) :
      Spells rest items → Spells (s ++ rest) items
  | word {w rest : List Char} {items : List Node} (word : IsListWord w)
      (stop : ∀ c, rest.head? = some c → endsListWord c = true) :
      Spells rest items → Spells (w ++ rest) (.symbol (String.ofList w) :: items)
  | list {s rest : List Char} {inner items : List Node} :
      Spells s inner → Spells rest items → Spells ('[' :: (s ++ ']' :: rest)) (.list inner :: items)

theorem Spells.raw {s : List Char} {items : List Node} (h : Spells s items) :
    ∀ item ∈ items, item.Raw := by
  induction h with
  | nil => exact fun item hitem => absurd hitem List.not_mem_nil
  | blanks _ _ _ _ ih => exact ih
  | word hword _ _ ih =>
    refine List.forall_mem_cons.2 ⟨.symbol ?_, ih⟩
    rwa [String.toList_ofList]
  | list _ _ ihInner ih => exact List.forall_mem_cons.2 ⟨.list ihInner, ih⟩

section Render

open Node

theorem toList_renderBlock_singleton (n : Node) : (renderBlock [n]).toList = n.toSource.toList := by
  simp [renderBlock, sourceEach, spaced]

theorem toList_renderBlock_cons_cons (n m : Node) (ns : List Node) :
    (renderBlock (n :: m :: ns)).toList =
      n.toSource.toList ++ ' ' :: (renderBlock (m :: ns)).toList := by
  simp [renderBlock, sourceEach, spaced, String.intercalate_cons_cons]

theorem toList_toSource_list (items : List Node) :
    (Node.list items).toSource.toList = '[' :: ((renderBlock items).toList ++ [']']) := by
  simp [toSource, renderBlock, String.toList_append]

theorem Node.Raw.head_toSource {n : Node} (h : n.Raw) :
    ∃ c s, n.toSource.toList = c :: s ∧ Text.isBlank c = false := by
  cases h with
  | symbol hword => exact hword.head
  | @list items _ => exact ⟨'[', _, toList_toSource_list items, rfl⟩

theorem head_renderBlock {n : Node} (h : n.Raw) (ns : List Node) :
    ∀ c, (renderBlock (n :: ns)).toList.head? = some c → Text.isBlank c = false := by
  obtain ⟨d, s, heq, hd⟩ := h.head_toSource
  intro c hc
  cases ns with
  | nil =>
    rw [toList_renderBlock_singleton, heq] at hc
    cases hc
    exact hd
  | cons m ns =>
    rw [toList_renderBlock_cons_cons, heq] at hc
    cases hc
    exact hd

theorem spells_renderBlock_of_items {items : List Node} (hraw : ∀ item ∈ items, item.Raw)
    (h : ∀ item ∈ items, ∀ rest others, (∀ c, rest.head? = some c → endsListWord c = true) →
      Spells rest others → Spells (item.toSource.toList ++ rest) (item :: others)) :
    Spells (renderBlock items).toList items := by
  induction items with
  | nil => exact .nil
  | cons n ns ih =>
    rw [List.forall_mem_cons] at h hraw
    have hrest := ih hraw.2 h.2
    cases ns with
    | nil =>
      rw [toList_renderBlock_singleton, ← List.append_nil n.toSource.toList]
      exact h.1 [] [] (by simp) .nil
    | cons m ns =>
      rw [toList_renderBlock_cons_cons]
      refine h.1 _ _ ?_ (.blanks (List.cons_ne_nil ' ' []) ?_ ?_ hrest)
      · rintro c ⟨⟩
        rfl
      · rintro c hc
        rw [List.mem_singleton.1 hc]
        rfl
      · exact head_renderBlock (hraw.2 m List.mem_cons_self) ns

theorem Node.Raw.spells {n : Node} (h : n.Raw) :
    ∀ rest others, (∀ c, rest.head? = some c → endsListWord c = true) → Spells rest others →
      Spells (n.toSource.toList ++ rest) (n :: others) := by
  induction h with
  | @symbol text hword =>
    intro rest others hstop hrest
    have hspells := Spells.word hword hstop hrest
    rwa [String.ofList_toList] at hspells
  | @list items hitems ih =>
    intro rest others _ hrest
    rw [toList_toSource_list, List.cons_append, List.append_assoc]
    exact .list (spells_renderBlock_of_items hitems ih) hrest

/-- The text of a block writes its items. -/
theorem spells_renderBlock {items : List Node} (h : ∀ item ∈ items, item.Raw) :
    Spells (renderBlock items).toList items :=
  spells_renderBlock_of_items h fun item hitem => (h item hitem).spells

theorem mem_renderBlock {items : List Node} {c : Char} (h : c ∈ (renderBlock items).toList) :
    c = ' ' ∨ ∃ item ∈ items, c ∈ item.toSource.toList := by
  induction items with
  | nil => cases h
  | cons n ns ih =>
    cases ns with
    | nil =>
      rw [toList_renderBlock_singleton] at h
      exact .inr ⟨n, List.mem_cons_self, h⟩
    | cons m ns =>
      rw [toList_renderBlock_cons_cons, List.mem_append, List.mem_cons] at h
      rcases h with h | h | h
      · exact .inr ⟨n, List.mem_cons_self, h⟩
      · exact .inl h
      · exact (ih h).imp_right fun ⟨item, hitem, hc⟩ => ⟨item, List.mem_cons_of_mem _ hitem, hc⟩

/-- The only blanks in the text of a raw node are the spaces between items. -/
theorem Node.Raw.eq_space {n : Node} (h : n.Raw) :
    ∀ c ∈ n.toSource.toList, Text.isBlank c = true → c = ' ' := by
  induction h with
  | symbol hword =>
    intro c hc hblank
    have hsolid := hword.solid c hc
    simp [endsListWord, hblank] at hsolid
  | @list items _ ih =>
    intro c hc hblank
    rw [toList_toSource_list, List.mem_cons, List.mem_append, List.mem_singleton] at hc
    rcases hc with rfl | hc | rfl
    · exact absurd hblank (by decide)
    · rcases mem_renderBlock hc with hspace | ⟨item, hitem, hc⟩
      · exact hspace
      · exact ih item hitem c hc hblank
    · exact absurd hblank (by decide)

theorem newline_notMem_renderBlock {items : List Node} (h : ∀ item ∈ items, item.Raw) :
    '\n' ∉ (renderBlock items).toList := by
  intro hmem
  rcases mem_renderBlock hmem with hspace | ⟨item, hitem, hc⟩
  · exact absurd hspace (by decide)
  · exact absurd ((h item hitem).eq_space _ hc rfl) (by decide)

end Render

/-! ## Lexemes of a list -/

mutual

/-- The lexemes of a raw node inside brackets. -/
def Node.rawLexemes : Node → List Lexeme
  | .symbol text => [.plain .symbol text]
  | .list items => .plain .leftBracket "[" :: (rawLexemesEach items ++ [.plain .rightBracket "]"])
  | _ => []

/-- The lexemes of raw nodes inside brackets. -/
def Node.rawLexemesEach : List Node → List Lexeme
  | [] => []
  | n :: ns => n.rawLexemes ++ rawLexemesEach ns

end

theorem Node.rawLexemesEach_eq_flatMap (ns : List Node) :
    rawLexemesEach ns = ns.flatMap rawLexemes := by
  induction ns with
  | nil => rfl
  | cons n ns ih => rw [rawLexemesEach, ih, List.flatMap_cons]

open Token Lexeme

/-- The lexemes inside brackets do not depend on how the items are spelled. -/
theorem Spells.ofPieces {s : List Char} {items : List Node} (h : Spells s items) :
    ∀ depth touching rest, ofPieces touching (pieces (depth + 1) (s ++ ']' :: rest)) =
      Node.rawLexemesEach items ++
        plain .rightBracket "]" :: ofPieces true (pieces depth rest) := by
  induction h with
  | nil =>
    intro depth touching rest
    rw [List.nil_append, pieces_list_rightBracket]
    exact ofPieces_cons rfl rfl
  | @blanks s after items hne hblank hstop _ ih =>
    intro depth touching rest
    have hstop' : ∀ c, (after ++ ']' :: rest).head? = some c → Text.isBlank c = false := by
      intro c hc
      cases after with
      | nil =>
        cases hc
        rfl
      | cons d after => exact hstop c hc
    rw [List.append_assoc, pieces_list_blank hne hblank hstop']
    exact ih depth false rest
  | @word w after items hword hstop _ ih =>
    intro depth touching rest
    have hstop' : ∀ c, (after ++ ']' :: rest).head? = some c → endsListWord c = true := by
      intro c hc
      cases after with
      | nil =>
        cases hc
        rfl
      | cons d after => exact hstop c hc
    rw [List.append_assoc, pieces_list_word hword hstop', ofPieces_cons rfl rfl, ih depth true rest]
    rfl
  | @list s after inner items _ _ ihInner ih =>
    intro depth touching rest
    have htext : '[' :: (s ++ ']' :: after) ++ ']' :: rest =
        '[' :: (s ++ ']' :: (after ++ ']' :: rest)) := by
      simp
    rw [htext, pieces_list_leftBracket, ofPieces_cons rfl rfl, ihInner, ih, Node.rawLexemesEach,
      Node.rawLexemes]
    simp

theorem Spells.ofPieces_code {s : List Char} {items : List Node} (h : Spells s items)
    (touching : Bool) (rest : List Char) :
    Lexeme.ofPieces touching (pieces 0 ('[' :: (s ++ ']' :: rest))) =
      (Node.list items).rawLexemes ++ Lexeme.ofPieces true (pieces 0 rest) := by
  rw [pieces_code_leftBracket, ofPieces_cons rfl rfl, h.ofPieces, Node.rawLexemes]
  simp

/-! ## Reading lists -/

namespace Reader

theorem listItems_rawLexemesEach {items : List Node}
    (h : ∀ item ∈ items, ∀ outer taken rest,
      listItems outer taken (item.rawLexemes ++ rest) = listItems outer (item :: taken) rest)
    (outer : List (List Node)) (taken : List Node) (rest : List Lexeme) :
    listItems outer taken (Node.rawLexemesEach items ++ rest) =
      listItems outer (items.reverse ++ taken) rest := by
  induction items generalizing taken with
  | nil => rfl
  | cons n ns ih =>
    rw [List.forall_mem_cons] at h
    rw [Node.rawLexemesEach, List.append_assoc, h.1, ih h.2]
    simp

theorem listItems_rawLexemes {n : Node} (h : n.Raw) :
    ∀ outer taken rest,
      listItems outer taken (n.rawLexemes ++ rest) = listItems outer (n :: taken) rest := by
  induction h with
  | symbol => exact fun outer taken rest => rfl
  | @list items _ ih =>
    intro outer taken rest
    have hopen : listItems outer taken ((Node.list items).rawLexemes ++ rest) =
        listItems (taken :: outer) []
          (Node.rawLexemesEach items ++ plain .rightBracket "]" :: rest) := by
      rw [Node.rawLexemes, List.cons_append, List.append_assoc]
      rfl
    have hclose : listItems (taken :: outer) items.reverse (plain .rightBracket "]" :: rest) =
        listItems outer (.list items.reverse.reverse :: taken) rest := rfl
    rw [hopen, listItems_rawLexemesEach ih, List.append_nil, hclose, List.reverse_reverse]

/-- A list is taken up to its bracket. -/
theorem listItems_rawList {items : List Node} (h : ∀ item ∈ items, item.Raw) (rest : List Lexeme) :
    listItems [] [] (Node.rawLexemesEach items ++ plain .rightBracket "]" :: rest) =
      .ok (.list items, rest) := by
  have hclose : listItems [] items.reverse (plain .rightBracket "]" :: rest) =
      .ok (.list items.reverse.reverse, rest) := rfl
  rw [listItems_rawLexemesEach fun item hitem => listItems_rawLexemes (h item hitem),
    List.append_nil, hclose, List.reverse_reverse]

/-- A text on one line that writes items is read as the list of them. -/
theorem readList_of_spells {text : String} {items : List Node} (h : Spells text.toList items)
    (hline : '\n' ∉ text.toList) : readList text = .ok (.list items) := by
  have hlexemes : (Node.list items).rawLexemes ++ Lexeme.ofPieces true [] ++ [Lexeme.closing] =
      plain .leftBracket "[" ::
        (Node.rawLexemesEach items ++ plain .rightBracket "]" :: [Lexeme.closing]) := by
    simp [Node.rawLexemes, Lexeme.ofPieces]
  have hlist : list ((Node.list items).rawLexemes ++ Lexeme.ofPieces true [] ++ [Lexeme.closing]) =
      .ok (.list items, [Lexeme.closing]) := by
    rw [hlexemes]
    exact listItems_rawList h.raw _
  rw [← pieces_nil, ← h.ofPieces_code false []] at hlist
  exact readList_eq_ok hline hlist

theorem exists_of_map_piece {ls : List Lexeme} {p : Piece} {ps : List Piece}
    (h : ls.map (·.token.piece) = p :: ps) :
    ∃ position isSign rest, ls = ⟨⟨p.kind, p.text, position⟩, isSign⟩ :: rest ∧
      rest.map (·.token.piece) = ps := by
  obtain ⟨⟨⟨kind, text, position⟩, isSign⟩, rest, rfl, hp, hps⟩ := List.map_eq_cons_iff.1 h
  subst hp
  exact ⟨position, isSign, rest, rfl, hps⟩

/-- Whatever the text, the items taken from it inside brackets are raw. -/
theorem raw_of_listItems (cs : List Char) :
    ∀ {outer : List (List Node)} {taken : List Node} {ls rest : List Lexeme} {node : Node},
      (∀ items ∈ outer, ∀ item ∈ items, item.Raw) → (∀ item ∈ taken, item.Raw) →
      ls.map (·.token.piece) = (pieces (outer.length + 1) cs).filter (!·.isIdle) ++ [⟨.eof, ""⟩] →
      listItems outer taken ls = .ok (node, rest) →
      ∃ items, node = .list items ∧ ∀ item ∈ items, item.Raw := by
  -- There are as many brackets open as lists around the one that is being read, and one more.
  induction cs using listText_induction with
  | nil =>
    intro outer taken ls rest node _ _ hls hread
    rw [pieces_nil] at hls
    obtain ⟨position, isSign, ls, rfl, -⟩ := exists_of_map_piece hls
    cases hread
  | leftBracket cs ih =>
    intro outer taken ls rest node houter htaken hls hread
    rw [pieces_list_leftBracket] at hls
    obtain ⟨position, isSign, ls, rfl, hafter⟩ := exists_of_map_piece hls
    refine ih (List.forall_mem_cons.2 ⟨htaken, houter⟩) (fun item hitem => ?_) hafter hread
    cases hitem
  | rightBracket cs ih =>
    intro outer taken ls rest node houter htaken hls hread
    rw [pieces_list_rightBracket] at hls
    obtain ⟨position, isSign, ls, rfl, hafter⟩ := exists_of_map_piece hls
    have hreverse : ∀ item ∈ taken.reverse, item.Raw :=
      fun item hitem => htaken item (List.mem_reverse.1 hitem)
    cases outer with
    | nil =>
      cases hread
      exact ⟨taken.reverse, rfl, hreverse⟩
    | cons around outer =>
      rw [List.forall_mem_cons] at houter
      exact ih houter.2 (List.forall_mem_cons.2 ⟨.list hreverse, houter.1⟩) hafter hread
  | blanks s cs hne hblank hstop ih =>
    intro outer taken ls rest node houter htaken hls hread
    rw [pieces_list_blank hne hblank hstop] at hls
    exact ih houter htaken hls hread
  | word w cs hword hstop ih =>
    intro outer taken ls rest node houter htaken hls hread
    rw [pieces_list_word hword hstop] at hls
    obtain ⟨position, isSign, ls, rfl, hafter⟩ := exists_of_map_piece hls
    refine ih houter (List.forall_mem_cons.2 ⟨.symbol ?_, htaken⟩) hafter hread
    rwa [String.toList_ofList]

/-- The lexemes behind the bracket that opens the list. -/
theorem exists_readList_eq (text : String) :
    ∃ ls, ls.map (·.token.piece) = (pieces 1 (text.toList ++ [']'])).filter (!·.isIdle) ++
      [⟨.eof, ""⟩] ∧ readList text = (listItems [] [] ls).map (·.1) := by
  have htext : ("[" ++ text ++ "]").toList = '[' :: (text.toList ++ [']']) := by
    simp [String.toList_append]
  have hpieces := map_piece_ofText ("[" ++ text ++ "]")
  rw [htext, pieces_code_leftBracket] at hpieces
  obtain ⟨position, isSign, ls, hls, hafter⟩ := exists_of_map_piece hpieces
  refine ⟨ls, hafter, ?_⟩
  rw [readList, hls]
  rfl

theorem raw_of_readList {text : String} {node : Node} (h : readList text = .ok node) :
    ∃ items, node = .list items ∧ ∀ item ∈ items, item.Raw := by
  obtain ⟨ls, hls, hlist⟩ := exists_readList_eq text
  rw [hlist] at h
  cases hread : listItems [] [] ls with
  | error e =>
    rw [hread] at h
    cases h
  | ok r =>
    rw [hread] at h
    cases h
    refine raw_of_listItems (text.toList ++ [']']) ?_ ?_ hls hread <;> simp

end Reader

/-! ## Lists in a program -/

open Reader

theorem Node.Raw.kind_rawLexemes {n : Node} (h : n.Raw) :
    ∀ l ∈ n.rawLexemes, l.kind ≠ .toWord ∧ l.kind ≠ .quote := by
  induction h with
  | symbol =>
    intro l hl
    rw [Node.rawLexemes, List.mem_singleton] at hl
    simp [hl]
  | @list items _ ih =>
    intro l hl
    rw [Node.rawLexemes, List.mem_cons, List.mem_append, List.mem_singleton,
      rawLexemesEach_eq_flatMap, List.mem_flatMap] at hl
    rcases hl with rfl | ⟨item, hitem, hl⟩ | rfl
    · simp
    · exact ih item hitem l hl
    · simp

/-- The first passes find nothing in lexemes without quoted words, because what makes an alias
stands before quoted words. -/
theorem Reader.Quiet.of_unquoted {ls : List Lexeme}
    (h : ∀ l ∈ ls, l.kind ≠ .toWord ∧ l.kind ≠ .quote) :
    Quiet (ls ++ [plain .rightBracket "]"]) := by
  induction ls with
  | nil => exact .cons (by simp) (by simp) .nil
  | cons l ls ih =>
    rw [List.forall_mem_cons] at h
    have hls := ih h.2
    refine ⟨fun table rest => ?_, fun table rest => ?_⟩
    · rw [List.cons_append, List.cons_append, enterHeaders, if_neg h.1.1, hls.headers]
    · have hsecond : aliasDirective? (l :: (ls ++ [plain .rightBracket "]"] ++ rest)) = none := by
        cases ls with
        | nil => exact aliasDirective?_of_second (by simp) _ _
        | cons m ls => exact aliasDirective?_of_second (h.2 m List.mem_cons_self).2 _ _
      rw [List.cons_append, List.cons_append, enterAliases_cons hsecond, hls.aliases]

/-- The text of a raw list spells it. -/
theorem Spelling.ofRawList {table : ProcedureTable} {items : List Node}
    (h : ∀ item ∈ items, item.Raw) :
    Spelling table (Node.list items).toSource.toList (.list items)
      (Node.list items).rawLexemes where
  starts := (Node.Raw.list h).head_toSource
  unbroken hmem := absurd ((Node.Raw.list h).eq_space _ hmem rfl) (by decide)
  lexed rest _ := by
    rw [toList_toSource_list, List.cons_append, List.append_assoc]
    exact (spells_renderBlock h).ofPieces_code false rest
  opens := ⟨_, _, by rw [Node.rawLexemes], rfl⟩
  quiet := by
    have hkinds := (Node.Raw.list h).kind_rawLexemes
    rw [Node.rawLexemes, ← List.cons_append] at hkinds ⊢
    exact .of_unquoted fun l hl => hkinds l (List.mem_append_left _ hl)
  read bound rest hbound hrest := by
    rw [Node.rawLexemes, List.length_cons] at hbound
    obtain ⟨n, rfl⟩ : ∃ n, bound = n + 1 := ⟨bound - 1, by omega⟩
    refine expression_of_primary ?_ hrest
    rw [Node.rawLexemes, List.cons_append, List.append_assoc]
    exact listItems_rawList h rest

/-- Raw lists survive writing and reading, between the brackets of a list as well as in a program;
and all that is read between brackets is raw, so writing it and reading it again changes nothing. -/
theorem raw_lists_survive :
    (∀ items, (Node.list items).Raw →
      readList (Node.renderBlock items) = .ok (.list items) ∧
      (Node.list items).display = (Node.list items).toSource ∧
      ∀ keep table, readText keep table (Node.list items).toSource = (.ok [.list items], table)) ∧
    ∀ text node, readList text = .ok node →
      ∃ items, node = .list items ∧ node.Raw ∧ readList (Node.renderBlock items) = .ok node := by
  have hlist : ∀ items, (Node.list items).Raw →
      readList (Node.renderBlock items) = .ok (.list items) :=
    fun items h =>
      readList_of_spells (spells_renderBlock h.items) (newline_notMem_renderBlock h.items)
  refine ⟨fun items h => ⟨hlist items h, h.display_eq, fun keep table => ?_⟩,
    fun text node hread => ?_⟩
  · have hspelling : Spelling table _ _ _ := .ofRawList h.items
    have hprogram := hspelling.readText_eq keep
    rwa [String.ofList_toList] at hprogram
  · obtain ⟨items, rfl, hraw⟩ := raw_of_readList hread
    exact ⟨items, rfl, .list hraw, hlist items (.list hraw)⟩

/-- Marks that mean something in a program are part of a raw word. -/
theorem raw_lists_survive_marks :
    (Node.list [.symbol "say", .list [.symbol "\"x;(-1"]]).Raw ∧
      readList "say [\"x;(-1]" = .ok (.list [.symbol "say", .list [.symbol "\"x;(-1"]]) ∧
      ∃ items, Node.list [.symbol "say", .list [.symbol "\"x;(-1"]] = .list items ∧
        readList (Node.renderBlock items) = .ok (.list items) := by
  have hraw : (Node.list [.symbol "say", .list [.symbol "\"x;(-1"]]).Raw := by
    refine .list ?_
    rw [List.forall_mem_cons, List.forall_mem_singleton]
    refine ⟨.symbol (by decide), .list ?_⟩
    rw [List.forall_mem_singleton]
    exact .symbol (by decide)
  have hread := (raw_lists_survive.1 _ hraw).1
  obtain ⟨items, heq, -, hagain⟩ := raw_lists_survive.2 _ _ hread
  exact ⟨hraw, hread, items, heq, heq ▸ hagain⟩

end Logo
