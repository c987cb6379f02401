import Logo.Proofs.LastPass
import Logo.Proofs.RawList

/-!
# Brackets in the lexemes of a text

The lexer counts brackets, and the reader matches them.  In the lexemes of a text (`lexed_ofText`)
words are raw below an open bracket, and outside of brackets each lexeme is a token by itself.
Every phrase that is read closes the brackets it opens (`Reads.crosses`), so that the reader is
outside of brackets whenever the lexer was: what it takes for a list is raw, and a word `to` is
never taken for anything but the start of a definition (`Run.openings_perm`).
-/

namespace Logo

open TokenRule Token

namespace TokenRule

variable {rules : List TokenRule} {rule : TokenRule} {c : Char} {cs : List Char}

theorem munch_oneOrMore_pos {q : Char → Bool} (h : q c = true) (cs : List Char) :
    0 < (Pattern.oneOrMore q).munch (c :: cs) := by
  rw [Nat.pos_iff_ne_zero]
  intro hzero
  have hlong :=
    (Pattern.munch_longest (Pattern.oneOrMore q) (c :: cs)).longest 1 (by omega) (by simp)
  refine hlong (Pattern.matches_oneOrMore_iff.2 ⟨List.cons_ne_nil _ _, ?_⟩)
  simpa using h

/-- Inside brackets every character is part of a bracket, a blank or a word. -/
theorem kind_of_longest_list {kind : TokenClass} {n : Nat}
    (h : longest list (c :: cs) = (kind, n)) :
    kind = .leftBracket ∨ kind = .rightBracket ∨ kind = .blank ∨ kind = .symbol := by
  rcases longest_cases list (c :: cs) with hnone | ⟨rule, hmem, -, hwin⟩
  · have hzero : ∀ rule ∈ list, rule.pattern.munch (c :: cs) = 0 := fun rule hrule => by
      have hle := munch_le_longest hrule (c :: cs)
      rw [hnone] at hle
      exact Nat.le_zero.1 hle
    by_cases hends : endsListWord c = true
    · simp only [endsListWord, Bool.or_eq_true, beq_iff_eq] at hends
      rcases hends with (hblank | rfl) | rfl
      · have hpos := munch_oneOrMore_pos hblank cs
        rw [hzero ⟨.blank, Pattern.oneOrMore Text.isBlank⟩ (by simp [list])] at hpos
        exact absurd hpos (Nat.lt_irrefl 0)
      · rw [longest_list_leftBracket] at hnone
        cases hnone
      · rw [longest_list_rightBracket] at hnone
        cases hnone
    · have hword : (!endsListWord c) = true := by simpa using hends
      have hpos := munch_oneOrMore_pos (q := (!endsListWord ·)) hword cs
      rw [hzero ⟨.symbol, Pattern.oneOrMore (!endsListWord ·)⟩ (by simp [list])] at hpos
      exact absurd hpos (Nat.lt_irrefl 0)
  · have hkind : kind = rule.kind := congrArg Prod.fst (h.symm.trans hwin)
    simp only [list, List.mem_cons, List.not_mem_nil, or_false] at hmem
    rcases hmem with rfl | rfl | rfl | rfl <;> simp [hkind]

theorem isListWord_of_longest {n : Nat} (h : longest list (c :: cs) = (.symbol, n)) :
    IsListWord (c :: cs.take (n - 1)) := by
  obtain ⟨hne, hall⟩ := Pattern.matches_oneOrMore_iff.1 (matches_of_longest rfl (by decide) h)
  exact ⟨hne, fun d hd => by simpa using hall d hd⟩

theorem insideSymbol_of_longest {n : Nat} (h : longest code (c :: cs) = (.symbol, n)) :
    ∀ d ∈ c :: cs.take (n - 1), insideSymbol d = true := by
  intro d hd
  have hcontain := (matches_of_longest rfl (by decide) h).mayContain d hd
  simp only [Pattern.mayContain, Bool.or_eq_true] at hcontain
  rcases hcontain with hd | hd
  · simp only [insideSymbol, hd, Bool.true_or]
  · exact hd

theorem kind_ne_eof_of_longest {n : Nat} : longest code (c :: cs) ≠ (.eof, n) := by
  intro h
  rcases longest_cases code (c :: cs) with hnone | ⟨rule, hmem, -, hwin⟩
  · cases h.symm.trans hnone
  · have hkind : rule.kind = .eof := (congrArg Prod.fst (h.symm.trans hwin)).symm
    have hall : (code.all fun rule => rule.kind != .eof) = true := rfl
    have hne := List.all_eq_true.1 hall rule hmem
    rw [hkind] at hne
    cases hne

end TokenRule

/-! ## The lexemes of a text -/

/-- A bracket or a raw word. -/
def Lexeme.IsListed (l : Lexeme) : Prop :=
  (l.kind = .leftBracket ∧ l.token.text = "[") ∨ (l.kind = .rightBracket ∧ l.token.text = "]") ∨
    (l.kind = .symbol ∧ IsListWord l.token.text.toList)

/-- The text of the lexeme is one token of code. -/
def Lexeme.IsWhole (l : Lexeme) : Prop :=
  ∃ c s, l.token.text = String.ofList (c :: s) ∧ WholeToken l.kind c s

/-- Whether lexemes of the kind can be part of a statement. -/
def isReadable : TokenClass → Bool
  | .comment | .blank | .stray | .eof => false
  | _ => true

/-- Lexemes as they are cut from a text below a number of open brackets. -/
inductive Lexed : Nat → List Lexeme → Prop
  | nil {depth : Nat} : Lexed depth []
  | closing {depth : Nat} {l : Lexeme} (eof : l.kind = .eof) : Lexed depth [l]
  | code {l : Lexeme} {ls : List Lexeme} (not_eof : l.kind ≠ .eof)
      (whole : l.kind = .newline ∨ l.kind = .stray ∨ l.IsWhole)
      (others : Lexed (depthAfter 0 l.kind) ls) : Lexed 0 (l :: ls)
  | list {depth : Nat} {l : Lexeme} {ls : List Lexeme} (listed : l.IsListed)
      (others : Lexed (depthAfter (depth + 1) l.kind) ls) : Lexed (depth + 1) (l :: ls)

theorem Lexeme.IsListed.isReadable {l : Lexeme} (h : l.IsListed) :
    Logo.isReadable l.kind = true := by
  rcases h with ⟨hkind, -⟩ | ⟨hkind, -⟩ | ⟨hkind, -⟩ <;> rw [hkind] <;> rfl

theorem depthAfter_of_isIdle {p : Piece} (h : p.isIdle = true) (depth : Nat) :
    depthAfter depth p.kind = depth := by
  simp only [Piece.isIdle, Bool.or_eq_true, beq_iff_eq] at h
  rcases h with h | h <;> rw [h] <;> rfl

/-- What the lexer cuts from characters below some open brackets is lexed at that depth. -/
theorem lexed_of_map_piece (cs : List Char) : ∀ {depth : Nat} {ls : List Lexeme},
    ls.map (·.token.piece) = (pieces depth cs).filter (!·.isIdle) ++ [⟨.eof, ""⟩] →
    Lexed depth ls := by
  -- A piece takes its first character in any case, so what is left is shorter.
  induction hlen : cs.length using Nat.strongRecOn generalizing cs with
  | ind len ih =>
    intro depth ls hls
    cases cs with
    | nil =>
      rw [pieces_nil] at hls
      obtain ⟨position, isSign, ls, rfl, hnil⟩ := Reader.exists_of_map_piece hls
      cases List.map_eq_nil_iff.1 hnil
      exact .closing rfl
    | cons c cs =>
      obtain ⟨kind, n, hlongest⟩ : ∃ kind n, longest (atDepth depth) (c :: cs) = (kind, n) :=
        ⟨_, _, rfl⟩
      rw [pieces_cons depth hlongest, List.filter_cons] at hls
      have hothers : ∀ {ls : List Lexeme}, ls.map (·.token.piece) =
          (pieces (depthAfter depth kind) (cs.drop (n - 1))).filter (!·.isIdle) ++ [⟨.eof, ""⟩] →
          Lexed (depthAfter depth kind) ls := by
        refine ih _ ?_ _ rfl
        rw [← hlen, List.length_drop, List.length_cons]
        omega
      split at hls
      · next hkept =>
        obtain ⟨position, isSign, ls, rfl, hafter⟩ := Reader.exists_of_map_piece hls
        have hrest := hothers hafter
        cases depth with
        | zero =>
          refine .code ?_ ?_ hrest
          · rintro rfl
            exact kind_ne_eof_of_longest hlongest
          · rcases wholeToken_of_longest hlongest (by rintro rfl; cases hkept)
              (by rintro rfl; cases hkept) with hnewline | hstray | hwhole
            · exact .inl hnewline
            · exact .inr (.inl hstray)
            · exact .inr (.inr ⟨c, _, rfl, hwhole⟩)
        | succ depth =>
          refine .list ?_ hrest
          rcases kind_of_longest_list hlongest with rfl | rfl | rfl | rfl
          · refine .inl ⟨rfl, congrArg String.ofList ?_⟩
            exact Pattern.matches_text_iff.1 (matches_of_longest rfl (by decide) hlongest)
          · refine .inr (.inl ⟨rfl, congrArg String.ofList ?_⟩)
            exact Pattern.matches_text_iff.1 (matches_of_longest rfl (by decide) hlongest)
          · cases hkept
          · refine .inr (.inr ⟨rfl, ?_⟩)
            rw [String.toList_ofList]
            exact isListWord_of_longest hlongest
      · next hidle =>
        have hdepth := depthAfter_of_isIdle (by simpa using hidle) depth
        rw [hdepth] at hls hothers
        exact hothers hls

/-- The lexemes of a text are lexed from outside of brackets on. -/
theorem lexed_ofText (text : String) : Lexed 0 (Lexeme.ofText text) :=
  lexed_of_map_piece text.toList (Lexeme.map_piece_ofText text)

/-- `scan` for at most `n` characters, in a form that evaluates. -/
def Token.scanUpTo : Nat → Nat → Position → List Char → List Token
  | 0, _, _, _ => []
  | _ + 1, _, _, [] => []
  | n + 1, depth, position, c :: rest =>
    let (kind, length) := longest (atDepth depth) (c :: rest)
    let text := c :: rest.take (length - 1)
    { kind, text := String.ofList text, position } ::
      scanUpTo n (depthAfter depth kind) (position.advance text) (rest.drop (length - 1))

theorem Token.scan_eq_scanUpTo {n : Nat} {cs : List Char} (h : cs.length ≤ n) (depth : Nat)
    (position : Position) : scan depth position cs = scanUpTo n depth position cs := by
  induction n generalizing depth position cs with
  | zero => rw [List.length_eq_zero_iff.1 (Nat.le_zero.1 h), scan, scanUpTo]
  | succ n ih =>
    cases cs with
    | nil => rw [scan, scanUpTo]
    | cons c cs =>
      rw [scan, scanUpTo]
      dsimp only
      rw [ih]
      rw [List.length_drop]
      rw [List.length_cons] at h
      omega

theorem Lexeme.ofText_eq (text : String) : Lexeme.ofText text =
    let tokens := (scanUpTo text.length 0 .start text.toList).filter (!·.isIdle)
    Lexeme.ofTokens (tokens ++ [Token.closing tokens]) := by
  rw [ofText, tokenize, ← scan_eq_scanUpTo (Nat.le_of_eq String.length_toList)]
  rfl

/-- The number of open brackets behind lexemes. -/
def depthBehind (depth : Nat) (ls : List Lexeme) : Nat :=
  ls.foldl (fun depth l => depthAfter depth l.kind) depth

theorem depthBehind_append {depth : Nat} {ls ms : List Lexeme} :
    depthBehind depth (ls ++ ms) = depthBehind (depthBehind depth ls) ms :=
  List.foldl_append

/-- Behind a lexeme the others are lexed at the depth that it leaves. -/
theorem Lexed.tail {depth : Nat} {l : Lexeme} {ls : List Lexeme} (h : Lexed depth (l :: ls)) :
    Lexed (depthAfter depth l.kind) ls := by
  cases h with
  | closing => exact .nil
  | code _ _ others | list _ others => exact others

/-- Outside of brackets, symbols are plain names. -/
theorem Lexed.insideSymbol {l : Lexeme} {ls : List Lexeme} (h : Lexed 0 (l :: ls))
    (hkind : l.kind = .symbol) : ∀ c ∈ l.token.text.toList, TokenRule.insideSymbol c = true := by
  cases h with
  | closing eof => cases hkind.symm.trans eof
  | code _ whole =>
    rcases whole with hnewline | hstray | ⟨c, s, htext, hwhole⟩
    · cases hkind.symm.trans hnewline
    · cases hkind.symm.trans hstray
    · have hlongest := hwhole.longest_eq
      rw [hkind] at hlongest
      have hinside := insideSymbol_of_longest hlongest
      rw [Nat.add_sub_cancel, List.take_length] at hinside
      rwa [htext, String.toList_ofList]

/-- Nothing stands behind the closing lexeme. -/
theorem Lexed.eq_nil {depth : Nat} {l : Lexeme} {ls : List Lexeme} (h : Lexed depth (l :: ls))
    (heof : l.kind = .eof) : ls = [] := by
  cases h with
  | closing => rfl
  | code not_eof => exact absurd heof not_eof
  | list listed => simp [Lexeme.IsListed, heof] at listed

theorem Lexed.append {depth : Nat} {used rest : List Lexeme} (h : Lexed depth (used ++ rest)) :
    Lexed (depthBehind depth used) rest := by
  induction used generalizing depth with
  | nil => exact h
  | cons l used ih => exact ih h.tail

namespace Reader

variable {table table' : ProcedureTable} {phrase : Phrase} {ls mid rest : List Lexeme} {node : Node}
  {nodes : List Node} {steps log : List Step} {l : Lexeme}

/-! ## Lists -/

/-- A list is taken up to the bracket that closes it, and holds raw nodes. -/
theorem listItems_lexed {outer : List (List Node)} {items : List Node}
    (houter : ∀ items ∈ outer, ∀ item ∈ items, item.Raw) (hitems : ∀ item ∈ items, item.Raw)
    (hls : Lexed (outer.length + 1) ls) (h : listItems outer items ls = .ok (node, rest)) :
    (∃ items, node = .list items ∧ ∀ item ∈ items, item.Raw) ∧
      ∃ used, ls = used ++ rest ∧ depthBehind (outer.length + 1) used = 0 ∧
        ∀ l ∈ used, l.IsListed := by
  induction ls generalizing outer items with
  | nil => cases h
  | cons l ls ih =>
    cases hls with
    | closing eof =>
      simp only [listItems, eof] at h
      cases h
    | list listed others =>
      -- The depth behind the lexeme is the number of lists around what follows, and one.
      have hused : ∀ {used : List Lexeme}, (∀ m ∈ used, m.IsListed) → ∀ m ∈ l :: used, m.IsListed :=
        fun hused => List.forall_mem_cons.2 ⟨listed, hused⟩
      rcases listed with ⟨hkind, -⟩ | ⟨hkind, -⟩ | ⟨hkind, hword⟩
      · simp only [listItems, hkind] at h
        rw [hkind] at others
        obtain ⟨hraw, used, rfl, hdepth, hlisted⟩ :=
          ih (List.forall_mem_cons.2 ⟨hitems, houter⟩) (fun _ hitem => by cases hitem) others h
        refine ⟨hraw, l :: used, rfl, ?_, hused hlisted⟩
        rw [depthBehind, List.foldl_cons, hkind]
        exact hdepth
      · have hraw : ∀ item ∈ items.reverse, item.Raw :=
          fun item hitem => hitems item (List.mem_reverse.1 hitem)
        simp only [listItems, hkind] at h
        rw [hkind] at others
        cases outer with
        | nil =>
          cases h
          refine ⟨⟨_, rfl, hraw⟩, [l], rfl, ?_, hused (List.forall_mem_nil _)⟩
          rw [depthBehind, List.foldl_cons, hkind]
          rfl
        | cons around outer =>
          rw [List.forall_mem_cons] at houter
          obtain ⟨hnode, used, rfl, hdepth, hlisted⟩ :=
            ih houter.2 (List.forall_mem_cons.2 ⟨.list hraw, houter.1⟩) others h
          refine ⟨hnode, l :: used, rfl, ?_, hused hlisted⟩
          rw [depthBehind, List.foldl_cons, hkind]
          exact hdepth
      · simp only [listItems, hkind] at h
        rw [hkind] at others
        obtain ⟨hraw, used, rfl, hdepth, hlisted⟩ :=
          ih houter (List.forall_mem_cons.2 ⟨.symbol hword, hitems⟩) others h
        refine ⟨hraw, l :: used, rfl, ?_, hused hlisted⟩
        rw [depthBehind, List.foldl_cons, hkind]
        exact hdepth

/-! ## Phrases -/

/-- Outside of brackets, what stands between leaves the lexer there and can be read, and the
definitions that it opens are those that start with `starts`. -/
structure Crosses (ls : List Lexeme) (starts : List (List Lexeme)) (rest : List Lexeme) : Prop where
  depth : ∃ used, ls = used ++ rest ∧ depthBehind 0 used = 0 ∧ ∀ l ∈ used, isReadable l.kind = true
  openings_perm : (openings ls).Perm (starts ++ openings rest)

namespace Crosses

variable {starts starts₁ starts₂ : List (List Lexeme)}

theorem refl : Crosses ls [] ls :=
  ⟨⟨[], rfl, rfl, nofun⟩, .refl _⟩

/-- Crossings follow one another, and the definitions they open are collected in order. -/
theorem trans (h₁ : Crosses ls starts₁ mid) (h₂ : Crosses mid starts₂ rest) :
    Crosses ls (starts₁ ++ starts₂) rest := by
  obtain ⟨⟨used, rfl, hused, hreadable⟩, hopenings⟩ := h₁
  obtain ⟨⟨more, rfl, hmore, hreadable'⟩, hopenings'⟩ := h₂
  refine ⟨⟨used ++ more, (List.append_assoc _ _ _).symm, ?_,
    List.forall_mem_append.2 ⟨hreadable, hreadable'⟩⟩, hopenings.trans ?_⟩
  · rw [depthBehind_append, hused, hmore]
  · rw [List.append_assoc]
    exact hopenings'.append_left starts₁

/-- The order in which definitions are told does not matter. -/
theorem perm (h : Crosses ls starts₁ rest) (hstarts : starts₁.Perm starts₂) :
    Crosses ls starts₂ rest :=
  ⟨h.depth, h.openings_perm.trans (hstarts.append_right _)⟩

/-- A single lexeme is crossed that opens no bracket and no definition. -/
theorem cons {kind : TokenClass} (hl : l.kind = kind)
    (hkind : kind ≠ .leftBracket ∧ kind ≠ .toWord ∧ isReadable kind = true) (ls : List Lexeme) :
    Crosses (l :: ls) [] ls := by
  subst hl
  obtain ⟨hbracket, hto, hreadable⟩ := hkind
  refine ⟨⟨[l], rfl, ?_, List.forall_mem_singleton.2 hreadable⟩, ?_⟩
  · show depthAfter 0 l.kind = 0
    cases hkind : l.kind with
    | leftBracket => exact absurd hkind hbracket
    | _ => rfl
  · rw [openings_cons_of_ne hto]
    exact .refl _

theorem lexed (h : Crosses ls starts rest) (hls : Lexed 0 ls) : Lexed 0 rest := by
  obtain ⟨used, rfl, hused, -⟩ := h.depth
  have hrest := hls.append
  rwa [hused] at hrest

end Crosses

/-- A list is crossed up to the bracket that closes it, and holds raw nodes. -/
theorem crosses_list (hl : l.kind = .leftBracket) (hls : Lexed 0 (l :: ls))
    (h : listItems [] [] ls = .ok (node, rest)) :
    (∃ items, node = .list items ∧ ∀ item ∈ items, item.Raw) ∧ Crosses (l :: ls) [] rest := by
  have hinside : Lexed 1 ls := by
    have htail := hls.tail
    rwa [hl] at htail
  have houter : ∀ items ∈ ([] : List (List Node)), ∀ item ∈ items, item.Raw := by simp
  obtain ⟨hraw, used, rfl, hdepth, hlisted⟩ :=
    listItems_lexed houter (fun _ hitem => by cases hitem) hinside h
  refine ⟨hraw, ⟨l :: used, rfl, ?_, ?_⟩, ?_⟩
  · rw [depthBehind, List.foldl_cons, hl]
    exact hdepth
  · exact List.forall_mem_cons.2 ⟨by rw [hl]; rfl, fun m hm => (hlisted m hm).isReadable⟩
  · have hnone : ∀ m ∈ used, m.kind ≠ .toWord := fun m hm hto => by
      have hlisted := hlisted m hm
      simp [Lexeme.IsListed, hto] at hlisted
    rw [openings_cons_of_ne (by rw [hl]; decide), openings_append_of_forall_ne hnone]
    exact .refl _

theorem crosses_literal (h : literal? l = some node) : Crosses (l :: ls) [] ls := by
  rw [literal?] at h
  cases hkind : l.kind with
  | leftBracket | toWord | comment | blank | stray | eof => simp [hkind] at h
  | _ => exact .cons hkind (by decide) ls

theorem crosses_operator {operators : Operators} {name : String}
    (hoperators : operators ∈ precedence) (h : operator? operators (l :: ls) = some name) :
    Crosses (l :: ls) [] ls := by
  have hoperator := (infix_of_operator? hoperators h).1
  cases hkind : l.kind with
  | leftBracket | toWord | comment | blank | stray | eof =>
    rw [hkind] at hoperator
    cases hoperator
  | _ => exact .cons hkind (by decide) ls

/-- Phrases close the brackets that they open. -/
theorem Reads.crosses (h : Reads table phrase ls nodes rest) (hlevels : phrase.levels ⊆ precedence)
    (hls : Lexed 0 ls) : Crosses ls [] rest := by
  induction h with
  | literal word => exact crosses_literal word
  | signed minus digits =>
    exact (Crosses.cons minus (by decide) _).trans (.cons digits (by decide) _)
  | list bracket items => exact (crosses_list bracket hls items).2
  | symbol name => exact .cons name (by decide) _
  | @call _ ls _ _ _ name _ _ ih =>
    have hname := Crosses.cons name (by decide) ls
    exact hname.trans (ih (List.nil_subset _) (hname.lexed hls))
  | @parenCall _ _ _ ls _ _ _ left name _ _ right ih =>
    have hopen :=
      (Crosses.cons left (by decide) _).trans (.cons name (by decide) ls)
    have hinputs := hopen.trans (ih (List.nil_subset _) (hopen.lexed hls))
    exact hinputs.trans (.cons right (by decide) _)
  | @group _ _ ls _ _ left _ _ right ih =>
    have hopen := Crosses.cons left (by decide) ls
    have hinner := hopen.trans (ih (List.Subset.refl _) (hopen.lexed hls))
    exact hinner.trans (.cons right (by decide) _)
  | level _ _ ihFirst ihOthers =>
    have hfirst := ihFirst (List.subset_of_cons_subset hlevels) hls
    exact hfirst.trans (ihOthers hlevels (hfirst.lexed hls))
  | chainStep operator _ _ ihNext ihOthers =>
    have hoperator := crosses_operator (hlevels List.mem_cons_self) operator
    have hnext :=
      hoperator.trans (ihNext (List.subset_of_cons_subset hlevels) (hoperator.lexed hls))
    exact hnext.trans (ihOthers hlevels (hnext.lexed hls))
  | input _ _ ihFirst ihOthers | parenInput _ _ ihFirst ihOthers =>
    have hfirst := ihFirst (List.Subset.refl _) hls
    exact hfirst.trans (ihOthers (List.nil_subset _) (hfirst.lexed hls))
  | chainEnd | noInput | parenEnd => exact .refl
  | @parenLine _ ls _ _ newline _ ih =>
    have hline := Crosses.cons newline (by decide) ls
    exact hline.trans (ih (List.nil_subset _) (hline.lexed hls))

/-! ## Runs -/

/-- Where the statement starts, if it is a definition. -/
def Step.opening? (step : Step) : Option (List Lexeme) :=
  step.procedure?.map fun _ => step.start

/-- A header is crossed, and opens the one definition it heads. -/
theorem crosses_headerLine {h : Header} {line : Nat}
    (hread : headerLine ls = .ok ((h, line), rest)) : Crosses ls [ls] rest := by
  obtain ⟨o, name, params, newline, rfl, hto, hname, hparams, hnewline, -, -⟩ :=
    headerLine_eq_ok_iff.1 hread
  have hopening : Crosses (o :: name :: (params ++ newline :: rest))
      [o :: name :: (params ++ newline :: rest)] (name :: (params ++ newline :: rest)) := by
    refine ⟨⟨[o], rfl, ?_, List.forall_mem_singleton.2 (by rw [hto]; rfl)⟩, ?_⟩
    · rw [depthBehind, List.foldl_cons, hto]
      rfl
    · rw [openings, if_pos hto]
      exact .refl _
  have hparameters : Crosses (params ++ newline :: rest) [] (newline :: rest) := by
    clear hopening hread
    induction params with
    | nil => exact .refl
    | cons p params ih =>
      rw [List.forall_mem_cons] at hparams
      exact (Crosses.cons hparams.1 (by decide) _).trans (ih hparams.2)
  exact ((hopening.trans (.cons hname (by decide) _)).trans hparameters).trans
    (.cons hnewline (by decide) _)

/-- The words `to` that a run passes are those that the definitions of its log start with. -/
theorem Run.crosses (h : Run table ls steps log table' rest) (hls : Lexed 0 ls) :
    Crosses ls (log.filterMap Step.opening?) rest := by
  induction h with
  | done => exact .refl
  | @blank _ _ _ ls _ _ _ newline _ ih =>
    have hline := Crosses.cons newline (by decide) ls
    exact hline.trans (ih (hline.lexed hls))
  | expression first _ ih =>
    have hfirst := first.crosses (List.Subset.refl _) hls
    exact hfirst.trans (ih (hfirst.lexed hls))
  | @definition _ _ _ e ls inner mid rest _ _ p _ bodyLog _ log opening _ closing _ _ ihBody ih =>
    have hopen := crosses_headerLine opening
    have hbody := hopen.trans (ihBody (hopen.lexed hls))
    have hclosed := hbody.trans (.cons closing (by decide) mid)
    refine (hclosed.trans (ih (hclosed.lexed hls))).perm ?_
    have hstep : Step.opening? ⟨ls, .definition p, mid⟩ = some ls := rfl
    rw [List.filterMap_append, List.filterMap_cons_some hstep, List.append_nil, List.append_assoc,
      List.singleton_append]
    exact List.perm_middle.symm

/-- Every statement of a run starts outside of brackets. -/
theorem Run.lexed_of_mem_log (h : Run table ls steps log table' rest) (hls : Lexed 0 ls) :
    ∀ step ∈ log, Lexed 0 step.start := by
  induction h with
  | done => exact fun step hstep => absurd hstep List.not_mem_nil
  | @blank _ _ _ ls _ _ _ newline _ ih =>
    exact List.forall_mem_cons.2 ⟨hls, ih ((Crosses.cons newline (by decide) ls).lexed hls)⟩
  | expression first _ ih =>
    exact List.forall_mem_cons.2 ⟨hls, ih ((first.crosses (List.Subset.refl _) hls).lexed hls)⟩
  | @definition _ _ _ _ _ _ mid _ _ _ _ _ _ _ _ opening body closing _ _ ihBody ih =>
    have hinner := (crosses_headerLine opening).lexed hls
    have hmid := (Crosses.cons closing (by decide) mid).lexed ((body.crosses hinner).lexed hinner)
    exact List.forall_mem_append.2 ⟨ihBody hinner, List.forall_mem_cons.2 ⟨hls, ih hmid⟩⟩

/-- At the end of a program no definition opens. -/
theorem openings_eq_nil {depth : Nat} (h : Lexed depth ls) (heof : (ahead ls).kind = .eof) :
    openings ls = [] := by
  cases ls with
  | nil => rfl
  | cons l ls =>
    have hkind : l.kind = .eof := heof
    rw [h.eq_nil hkind, openings_cons_of_ne (by rw [hkind]; decide), openings]

/-- Every word `to` of a program starts one of the definitions that are read. -/
theorem Run.openings_perm (h : Run table ls steps log table' rest) (hls : Lexed 0 ls)
    (heof : (ahead rest).kind = .eof) : (log.filterMap Step.opening?).Perm (openings ls) := by
  have hcross := h.crosses hls
  have hperm := hcross.openings_perm
  rw [openings_eq_nil (hcross.lexed hls) heof, List.append_nil] at hperm
  exact hperm.symm

end Reader

end Logo
