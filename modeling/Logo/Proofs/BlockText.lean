import Logo.Proofs.RawList
import Mathlib.Data.List.Infix

/-!
# Blocks and their texts

A block is kept as raw words and lists and written out again when it is run.  `block_reads_as_text`
says that nothing is lost on the way: what is read when the block is run is what would be read from
the text between its brackets, up to the columns in errors.

The first half is that every balanced text writes some items (`exists_spells`).  For the second
half, `Typed` says what a program sees of such a text: lists are lexed as they are inside brackets,
each word is lexed by itself, and of the blanks it only matters that a word may not touch the
bracket before it if it starts with a minus.  The text as typed and the text as written out are two
such texts of the same items, so they have the same lexemes (`Typed.ofPieces`).
-/

namespace Logo

open TokenRule Token Lexeme Reader Node

/-! ## Balanced texts -/

/-- Behind a number of open brackets, no bracket closes that was not opened, and in the end all are
closed. -/
structure Balanced (depth : Nat) (cs : List Char) : Prop where
  opened : ∀ front, front <+: cs → front.count ']' ≤ depth + front.count '['
  closed : cs.count ']' = depth + cs.count '['

namespace Balanced

variable {depth : Nat} {s rest : List Char}

theorem leftBracket (h : Balanced depth ('[' :: rest)) : Balanced (depth + 1) rest := by
  refine ⟨fun front hfront => ?_, ?_⟩
  · have := h.opened ('[' :: front) (List.cons_prefix_cons.2 ⟨rfl, hfront⟩)
    simp only [List.count_cons_self, List.count_cons_of_ne (show '[' ≠ ']' by decide)] at this
    omega
  · have := h.closed
    simp only [List.count_cons_self, List.count_cons_of_ne (show '[' ≠ ']' by decide)] at this
    omega

theorem rightBracket (h : Balanced depth (']' :: rest)) :
    ∃ outer, depth = outer + 1 ∧ Balanced outer rest := by
  have hone : 1 ≤ depth := by
    have := h.opened [']'] (List.cons_prefix_cons.2 ⟨rfl, List.nil_prefix⟩)
    simpa using this
  obtain ⟨outer, rfl⟩ : ∃ outer, depth = outer + 1 := ⟨depth - 1, by omega⟩
  refine ⟨outer, rfl, fun front hfront => ?_, ?_⟩
  · have := h.opened (']' :: front) (List.cons_prefix_cons.2 ⟨rfl, hfront⟩)
    simp only [List.count_cons_self, List.count_cons_of_ne (show ']' ≠ '[' by decide)] at this
    omega
  · have := h.closed
    simp only [List.count_cons_self, List.count_cons_of_ne (show ']' ≠ '[' by decide)] at this
    omega

theorem append (hleft : '[' ∉ s) (hright : ']' ∉ s) (h : Balanced depth (s ++ rest)) :
    Balanced depth rest := by
  have hcount : ∀ front,
      (s ++ front).count ']' = front.count ']' ∧ (s ++ front).count '[' = front.count '[' := by
    intro front
    rw [List.count_append, List.count_append, List.count_eq_zero.2 hleft,
      List.count_eq_zero.2 hright]
    omega
  refine ⟨fun front hfront => ?_, ?_⟩
  · have := h.opened (s ++ front) ((List.prefix_append_right_inj s).2 hfront)
    rwa [(hcount front).1, (hcount front).2] at this
  · have := h.closed
    rwa [(hcount rest).1, (hcount rest).2] at this

end Balanced

/-- The text closes the open brackets, with items before and behind each of them. -/
def Closes : Nat → List Char → Prop
  | 0, cs => ∃ items, Spells cs items
  | depth + 1, cs => ∃ s items rest, cs = s ++ ']' :: rest ∧ Spells s items ∧ Closes depth rest

/-- What may stand before items may stand before a text that starts with them. -/
theorem Closes.prepend {depth : Nat} {cs : List Char} (h : Closes depth cs) (front : List Char)
    (more : List Node → List Node)
    (hfront : ∀ s items, (∀ c, s.head? = some c → cs.head? = some c) → Spells s items →
      Spells (front ++ s) (more items)) : Closes depth (front ++ cs) := by
  cases depth with
  | zero =>
    obtain ⟨items, hitems⟩ := h
    exact ⟨more items, hfront cs items (fun c hc => hc) hitems⟩
  | succ depth =>
    obtain ⟨s, items, rest, rfl, hitems, hrest⟩ := h
    refine ⟨front ++ s, more items, rest, by simp, hfront s items (fun c hc => ?_) hitems, hrest⟩
    rw [List.head?_append, hc]
    rfl

theorem closes_of_balanced (cs : List Char) : ∀ depth, Balanced depth cs → Closes depth cs := by
  -- From the end of the text to its start: a bracket that opens takes the next one that closes.
  induction cs using listText_induction with
  | nil =>
    intro depth h
    have hdepth : 0 = depth := by simpa using h.closed
    subst hdepth
    exact ⟨[], .nil⟩
  | leftBracket rest ih =>
    intro depth h
    obtain ⟨s, inner, after, rfl, hinner, hafter⟩ := ih _ h.leftBracket
    have hlist := hafter.prepend ('[' :: (s ++ [']'])) (.list inner :: ·) fun t items _ hitems => by
      simpa using Spells.list hinner hitems
    simpa using hlist
  | rightBracket rest ih =>
    intro depth h
    obtain ⟨outer, rfl, hrest⟩ := h.rightBracket
    exact ⟨[], [], rest, rfl, .nil, ih _ hrest⟩
  | blanks s rest hne hblank hstop ih =>
    intro depth h
    have hleft : '[' ∉ s := fun hmem => absurd (hblank _ hmem) (by decide)
    have hright : ']' ∉ s := fun hmem => absurd (hblank _ hmem) (by decide)
    exact (ih depth (h.append hleft hright)).prepend s id fun t items hhead hitems =>
      .blanks hne hblank (fun c hc => hstop c (hhead c hc)) hitems
  | word w rest hword hstop ih =>
    intro depth h
    have hleft : '[' ∉ w := fun hmem => absurd (hword.solid _ hmem) (by decide)
    have hright : ']' ∉ w := fun hmem => absurd (hword.solid _ hmem) (by decide)
    exact (ih depth (h.append hleft hright)).prepend w _ fun t items hhead hitems =>
      .word hword (fun c hc => hstop c (hhead c hc)) hitems

/-- A balanced text writes some items. -/
theorem exists_spells {cs : List Char} (h : Balanced 0 cs) : ∃ items, Spells cs items :=
  closes_of_balanced cs 0 h

/-! ## Items in a program -/

/-- The text writes the items on one line of a program.  Where it touches the lexeme before it, it
does not start with a minus. -/
inductive Typed : Bool → List Char → List Node → Prop
  | nil {touching : Bool} : Typed touching [] []
  | blanks {touching : Bool} {s rest : List Char} {items : List Node} (ne_nil : s ≠ [])
      (blank : ∀ c ∈ s, isCodeBlank c = true)
      (stop : ∀ c, rest.head? = some c → Text.isBlank c = false) :
      Typed false rest items → Typed touching (s ++ rest) items
  | word {touching : Bool} {w rest : List Char} {items : List Node} (word : IsListWord w)
      (no_comment : ';' ∉ w) (apart : touching = true → w.head? ≠ some '-')
      (stop : ∀ c, rest.head? = some c → endsListWord c = true) :
      Typed true rest items → Typed touching (w ++ rest) (.symbol (String.ofList w) :: items)
  | list {touching : Bool} {s rest : List Char} {inner items : List Node} :
      Spells s inner → Typed true rest items →
        Typed touching ('[' :: (s ++ ']' :: rest)) (.list inner :: items)

/-- The lexemes of an item in a program. -/
def Node.itemLexemes : Node → List Lexeme
  | .symbol text => ofPieces false (pieces 0 text.toList)
  | other => other.rawLexemes

/-- What stands behind a word starts with neither a minus nor a number. -/
theorem head_pieces_of_endsListWord {cs : List Char}
    (h : ∀ c, cs.head? = some c → endsListWord c = true) :
    ∀ p, (pieces 0 cs).head? = some p → p.kind ≠ .minus ∧ p.kind ≠ .number := by
  intro p hp
  cases cs with
  | nil =>
    rw [pieces_nil] at hp
    cases hp
  | cons c cs =>
    have hall : (wordEnds.all fun d => d != '-' && !d.isDigit) = true := by decide
    have hc := of_endsWord hall (endsWord_of_endsListWord (h c rfl))
    simp only [Bool.and_eq_true, bne_iff_ne, Bool.not_eq_true'] at hc
    refine ⟨fun hkind => hc.1 ((head_pieces hp).1 hkind), fun hkind => ?_⟩
    rw [(head_pieces hp).2 hkind] at hc
    exact Bool.false_ne_true hc.2.symm

/-- What a program sees of the text depends on the items alone. -/
theorem Typed.ofPieces {touching : Bool} {cs : List Char} {items : List Node}
    (h : Typed touching cs items) :
    ofPieces touching (pieces 0 cs) = items.flatMap itemLexemes := by
  induction h with
  | nil =>
    rw [pieces_nil]
    rfl
  | blanks hne hblank hstop _ ih =>
    rw [pieces_code_blank hne hblank fun c hc => not_isCodeBlank (hstop c hc)]
    exact ih
  | @word touching w rest items hword hcomment hapart hstop _ ih =>
    have hsolid : ∀ c ∈ w, endsListWord c = false ∧ c ≠ ';' :=
      fun c hc => ⟨hword.solid c hc, fun heq => hcomment (heq ▸ hc)⟩
    have hrest := head_pieces_of_endsListWord hstop
    -- A word that starts with a minus does not touch what stands before it.
    have hfirst : Lexeme.ofPieces touching (pieces 0 w) = Lexeme.ofPieces false (pieces 0 w) := by
      cases touching with
      | false => rfl
      | true =>
        obtain ⟨c, s, rfl, -⟩ := hword.head
        refine ofPieces_congr (fun p hp hminus => hapart rfl ?_) _ _
        rw [(head_pieces hp).1 hminus, List.head?_cons]
    rw [pieces_word_append hsolid hstop, ofPieces_append hrest, hfirst,
      ofPieces_congr (fun p hp => (hrest p hp).1) false true, ih, List.flatMap_cons, itemLexemes,
      String.toList_ofList]
  | list hinner _ ih =>
    rw [hinner.ofPieces_code, ih, List.flatMap_cons]
    rfl

/-- A text on one line, without comments and without a minus that touches a bracket before it. -/
structure PlainLine (cs : List Char) : Prop where
  code_blank : ∀ c ∈ cs, Text.isBlank c = true → isCodeBlank c = true
  no_comment : ';' ∉ cs
  no_joint : ¬ [']', '-'] <:+: cs

theorem PlainLine.suffix {cs rest : List Char} (h : PlainLine cs) (hsuffix : rest <:+ cs) :
    PlainLine rest where
  code_blank c hc := h.code_blank c (hsuffix.subset hc)
  no_comment hmem := h.no_comment (hsuffix.subset hmem)
  no_joint hjoint := h.no_joint (hjoint.trans hsuffix.isInfix)

theorem Spells.typed {cs : List Char} {items : List Node} (h : Spells cs items) :
    ∀ {touching : Bool}, PlainLine cs → (touching = true → cs.head? ≠ some '-') →
      Typed touching cs items := by
  induction h with
  | nil => exact fun _ _ => .nil
  | @blanks s rest items hne hblank hstop _ ih =>
    intro touching hplain _
    refine .blanks hne (fun c hc => ?_) hstop (ih (hplain.suffix (List.suffix_append s rest)) nofun)
    exact hplain.code_blank c (List.mem_append_left _ hc) (hblank c hc)
  | @word w rest items hword hstop _ ih =>
    intro touching hplain htouching
    refine .word hword ?_ (fun heq => ?_) hstop (ih (hplain.suffix (List.suffix_append w rest)) ?_)
    · exact fun hmem => hplain.no_comment (List.mem_append_left _ hmem)
    · obtain ⟨c, s, rfl, -⟩ := hword.head
      exact htouching heq
    · exact fun _ hhead => absurd (hstop '-' hhead) (by decide)
  | @list s rest inner items hinner _ _ ih =>
    intro touching hplain _
    have hsuffix : ']' :: rest <:+ '[' :: (s ++ ']' :: rest) :=
      (List.suffix_append s (']' :: rest)).trans (List.suffix_cons _ _)
    refine .list hinner
      (ih (hplain.suffix ((List.suffix_cons _ _).trans hsuffix)) fun _ hhead => ?_)
    -- A minus right behind the list would touch its bracket.
    obtain ⟨after, rfl⟩ := List.head?_eq_some_iff.1 hhead
    exact (hplain.suffix hsuffix).no_joint (List.prefix_append [']', '-'] after).isInfix

/-- An item that a program can hold on one line: raw, and no comment. -/
def IsItem (node : Node) : Prop :=
  node.Raw ∧ ∀ text, node = .symbol text → ';' ∉ text.toList

theorem Typed.isItem {touching : Bool} {cs : List Char} {items : List Node}
    (h : Typed touching cs items) :
    ∀ item ∈ items, IsItem item := by
  induction h with
  | nil => exact fun item hitem => absurd hitem List.not_mem_nil
  | blanks _ _ _ _ ih => exact ih
  | @word _ w _ _ hword hcomment _ _ _ ih =>
    refine List.forall_mem_cons.2 ⟨⟨.symbol (by rwa [String.toList_ofList]), ?_⟩, ih⟩
    rintro text ⟨⟩
    rwa [String.toList_ofList]
  | list hinner _ ih => exact List.forall_mem_cons.2 ⟨⟨.list hinner.raw, nofun⟩, ih⟩

theorem IsItem.typed {node : Node} (h : IsItem node) {rest : List Char} {items : List Node}
    (hstop : ∀ c, rest.head? = some c → endsListWord c = true) (hrest : Typed true rest items) :
    Typed false (node.toSource.toList ++ rest) (node :: items) := by
  obtain ⟨hraw, hcomment⟩ := h
  cases hraw with
  | @symbol text hword =>
    have htyped :=
      Typed.word hword (hcomment text rfl) (fun h => absurd h Bool.false_ne_true) hstop hrest
    rwa [String.ofList_toList] at htyped
  | @list inner hinner =>
    rw [toList_toSource_list, List.cons_append, List.append_assoc]
    exact .list (spells_renderBlock hinner) hrest

/-- The text of a block is typed in a program as it stands. -/
theorem typed_renderBlock {items : List Node} (h : ∀ item ∈ items, IsItem item) :
    Typed false (renderBlock items).toList items := by
  induction items with
  | nil => exact .nil
  | cons n ns ih =>
    rw [List.forall_mem_cons] at h
    have hrest := ih h.2
    cases ns with
    | nil =>
      rw [toList_renderBlock_singleton, ← List.append_nil n.toSource.toList]
      exact h.1.typed (by simp) .nil
    | cons m ns =>
      rw [toList_renderBlock_cons_cons]
      refine h.1.typed ?_
        (.blanks (List.cons_ne_nil ' ' []) (List.forall_mem_singleton.2 rfl) ?_ hrest)
      · rintro c ⟨⟩
        rfl
      · exact head_renderBlock (h.2 m List.mem_cons_self).1 ns

/-- Reading the text of a block is reading what stands between its brackets: the same statements or
the same error, up to the column, and the same procedure table.  The text is on one line, as the end
of a line is a blank. -/
theorem block_reads_as_text (text : String)
    (hblank : ∀ c ∈ text.toList, Text.isBlank c = true → c = ' ' ∨ c = '\t' ∨ c = '\r')
    (hcomment : ';' ∉ text.toList) (hbalanced : Balanced 0 text.toList)
    (hjoin : ¬ [']', '-'] <:+: text.toList) :
    ∃ items, readList text = .ok (.list items) ∧ ∀ keep table,
      withoutColumns (readText keep table text) =
        withoutColumns (readText keep table (renderBlock items)) := by
  have hline : '\n' ∉ text.toList := fun hmem => absurd (hblank _ hmem rfl) (by decide)
  have hplain : PlainLine text.toList := by
    refine ⟨fun c hc hisBlank => ?_, hcomment, hjoin⟩
    rcases hblank c hc hisBlank with rfl | rfl | rfl <;> rfl
  obtain ⟨items, hspells⟩ := exists_spells hbalanced
  have htyped : Typed false text.toList items := hspells.typed hplain nofun
  refine ⟨items, readList_of_spells hspells hline, fun keep table => ?_⟩
  rw [withoutColumns_readText hline,
    withoutColumns_readText (newline_notMem_renderBlock hspells.raw),
    htyped.ofPieces, (typed_renderBlock htyped.isItem).ofPieces]

/-- A list that touches the words around it, and a sign behind a tab. -/
theorem block_reads_as_text_touching :
    ∃ items, readList "fd 10[rt\t-90]  \"a(b-1" = .ok (.list items) ∧ ∀ keep table,
      withoutColumns (readText keep table "fd 10[rt\t-90]  \"a(b-1") =
        withoutColumns (readText keep table (renderBlock items)) := by
  have hblanks : ("fd 10[rt\t-90]  \"a(b-1".toList.all fun c =>
      !Text.isBlank c || c == ' ' || c == '\t' || c == '\r') = true := by decide
  have hopened : ∀ front ∈ "fd 10[rt\t-90]  \"a(b-1".toList.inits,
      front.count ']' ≤ 0 + front.count '[' := by decide
  refine block_reads_as_text _ (fun c hc hblank => ?_) (by decide)
    ⟨fun front hfront => ?_, by decide⟩ (by decide)
  · simpa [hblank, or_assoc] using List.all_eq_true.1 hblanks c hc
  · exact hopened front ((List.mem_inits _ _).2 hfront)

end Logo
