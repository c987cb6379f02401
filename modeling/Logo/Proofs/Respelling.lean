import Logo.Proofs.WholeLines

/-!
# The text of a definition

A procedure is recorded with the text of its definition, which is put together from the lexemes:
each line has its own, with one space between them.  A lexeme that was read is a token by itself,
and behind it stands what ends every token, so the lexer cuts the text into the same lexemes again
(`alike_ofText_definitionText`).

The one thing that spaces do not keep is what stood without a space.  A minus is the sign of a
number if it touches it, and in the text of a definition nothing touches anything.
-/

namespace Logo

/-- The lexeme as it stands in the text of a definition: between spaces, where no minus is a sign.
-/
def Lexeme.respelled (l : Lexeme) : Lexeme :=
  ⟨⟨l.kind, if l.kind = .newline then "\n" else l.token.text, l.token.position⟩, false⟩

theorem Lexeme.respelled_of_newline {l : Lexeme} (h : l.kind = .newline) :
    l.respelled = ⟨⟨.newline, "\n", l.token.position⟩, false⟩ := by
  rw [respelled, h]
  rfl

theorem Lexeme.respelled_of_ne {l : Lexeme} (h : l.kind ≠ .newline) :
    l.respelled = ⟨l.token, false⟩ := by
  rw [respelled, if_neg h]
  rfl

namespace Token

open TokenRule

variable {depth : Nat} {rest : List Char}

theorem pieces_newline (rest : List Char) :
    pieces 0 ('\n' :: rest) = ⟨.newline, "\n"⟩ :: pieces 0 rest := by
  have hown : longest code ['\n'] = (.newline, 1) := by decide +kernel
  have hlines : WholeLines ['\n'] := by decide
  have hlongest := longest_code_append_lines hlines rest
  rw [hown] at hlongest
  exact pieces_append_of_longest (List.cons_ne_nil '\n' []) hlongest

/-- There are no newlines inside of brackets. -/
theorem depth_eq_zero_of_newline {l : Lexeme} {more : List Lexeme} (h : Lexed depth (l :: more))
    (hnewline : l.kind = .newline) : depth = 0 := by
  cases h with
  | closing eof => cases hnewline.symm.trans eof
  | code => rfl
  | list listed => simp [Lexeme.IsListed, hnewline] at listed

/-- Before a space or a newline a lexeme is cut off as it is. -/
theorem pieces_lexeme {l : Lexeme} {more : List Lexeme} (h : Lexed depth (l :: more))
    (hreadable : isReadable l.kind = true) (hnewline : l.kind ≠ .newline)
    (hrest : ∀ d, rest.head? = some d → d = ' ' ∨ d = '\n') :
    (∃ c s, l.token.text.toList = c :: s ∧ Text.isBlank c = false) ∧
      pieces depth (l.token.text.toList ++ rest) =
        l.token.piece :: pieces (depthAfter depth l.kind) rest := by
  have hblank : ∀ d, rest.head? = some d → Text.isBlank d = true := by
    intro d hd
    rcases hrest d hd with rfl | rfl <;> decide
  cases h with
  | closing eof =>
    rw [eof] at hreadable
    cases hreadable
  | code _ whole =>
    rcases whole with hkind | hkind | ⟨c, s, htext, hwhole⟩
    · exact absurd hkind hnewline
    · rw [hkind] at hreadable
      cases hreadable
    · rw [Token.piece, htext, String.toList_ofList]
      exact ⟨⟨c, s, rfl, hwhole.not_blank⟩,
        pieces_code_token hwhole fun d hd => endsWord_of_isBlank (hblank d hd)⟩
  | list listed =>
    rcases listed with ⟨hkind, htext⟩ | ⟨hkind, htext⟩ | ⟨hkind, hword⟩
    · rw [Token.piece, show l.token.kind = .leftBracket from hkind, hkind, htext]
      exact ⟨⟨'[', [], rfl, by decide⟩, pieces_list_leftBracket⟩
    · rw [Token.piece, show l.token.kind = .rightBracket from hkind, hkind, htext]
      exact ⟨⟨']', [], rfl, by decide⟩, pieces_list_rightBracket⟩
    · rw [Token.piece, show l.token.kind = .symbol from hkind, hkind]
      obtain ⟨c, s, hcs⟩ := List.exists_cons_of_ne_nil hword.ne_nil
      refine ⟨⟨c, s, hcs, ?_⟩, ?_⟩
      · have hc := hword.solid c (by rw [hcs]; exact List.mem_cons_self)
        simp only [endsListWord, Bool.or_eq_false_iff] at hc
        exact hc.1.1
      · have hends : ∀ d, rest.head? = some d → endsListWord d = true := by
          intro d hd
          rw [endsListWord, hblank d hd]
          rfl
        exact (pieces_list_word hword hends).trans (by rw [String.ofList_toList]; rfl)

end Token

namespace Reader

open Token Lexeme

variable {depth : Nat} {ls rest : List Lexeme} {atLineStart : Bool}

/-! ## Cutting the text -/

/-- The pieces of the text of a definition. -/
def spacedPieces (atLineStart : Bool) : List Lexeme → List Piece
  | [] => []
  | l :: ls =>
    if l.kind = .newline then ⟨.newline, "\n"⟩ :: spacedPieces true ls
    else (if atLineStart then [] else [⟨.blank, " "⟩]) ++ l.token.piece :: spacedPieces false ls

/-- A recorded text starts with a space or a newline where it does not start a line. -/
theorem head?_definitionText (ls : List Lexeme) :
    ∀ d, (definitionText false ls).toList.head? = some d → d = ' ' ∨ d = '\n' := by
  intro d hd
  cases ls with
  | nil => cases hd
  | cons l ls =>
    rw [definitionText] at hd
    split at hd
    · rw [String.toList_append] at hd
      cases hd
      exact .inr rfl
    · rw [String.toList_append, String.toList_append] at hd
      cases hd
      exact .inl rfl

/-- A recorded text is lexed into the tokens of its lexemes, with spaces in between. -/
theorem pieces_definitionText (h : Lexed depth (ls ++ rest))
    (hreadable : ∀ l ∈ ls, isReadable l.kind = true) (atLineStart : Bool) :
    pieces depth (definitionText atLineStart ls).toList = spacedPieces atLineStart ls := by
  induction ls generalizing depth atLineStart with
  | nil => exact pieces_nil
  | cons l ls ih =>
    rw [List.forall_mem_cons] at hreadable
    have htail := h.tail
    have hothers := ih htail hreadable.2
    rw [definitionText, spacedPieces]
    by_cases hnewline : l.kind = .newline
    · cases depth_eq_zero_of_newline h hnewline
      rw [hnewline] at hothers
      rw [if_pos hnewline, if_pos hnewline, String.toList_append]
      exact (pieces_newline _).trans (congrArg _ (hothers true))
    · obtain ⟨⟨c, s, hcs, hblank⟩, hpieces⟩ :=
        pieces_lexeme h hreadable.1 hnewline (head?_definitionText ls)
      rw [if_neg hnewline, if_neg hnewline, String.toList_append, String.toList_append,
        List.append_assoc]
      rw [hothers false] at hpieces
      cases atLineStart with
      | true => exact hpieces
      | false =>
        refine (pieces_space fun d hd => ?_).trans (congrArg _ hpieces)
        rw [hcs] at hd
        cases hd
        exact hblank

/-! ## Lexemes between spaces -/

/-- A minus outside of brackets is written as one. -/
theorem text_of_minus_lexeme {l : Lexeme} (h : Lexed depth (l :: ls)) (hkind : l.kind = .minus) :
    l.token.text = "-" := by
  cases h with
  | closing eof => cases hkind.symm.trans eof
  | code _ whole =>
    rcases whole with hnewline | hstray | ⟨c, s, htext, hwhole⟩
    · cases hkind.symm.trans hnewline
    · cases hkind.symm.trans hstray
    · have hlongest := hwhole.longest_eq
      rw [hkind] at hlongest
      have hmatch :=
        Pattern.matches_text_iff.1 (TokenRule.matches_of_longest rfl (by decide) hlongest)
      rw [Nat.add_sub_cancel, List.take_length] at hmatch
      rw [htext, hmatch]
  | list listed => simp [Lexeme.IsListed, hkind] at listed

theorem isIdle_of_isReadable {t : Token} (h : isReadable t.kind = true) : t.isIdle = false := by
  rw [Token.isIdle]
  cases hkind : t.kind with
  | blank | comment =>
    rw [hkind] at h
    cases h
  | _ => rfl

/-- The tokens that readers see in the text of a definition. -/
def spacedTokens (atLineStart : Bool) (position : Position) (ls : List Lexeme) : List Token :=
  (place position (spacedPieces atLineStart ls)).filter (!·.isIdle)

theorem spacedTokens_newline {l : Lexeme} (h : l.kind = .newline) (atLineStart : Bool)
    (position : Position) :
    spacedTokens atLineStart position (l :: ls) =
      ⟨.newline, "\n", position⟩ :: spacedTokens true (position.next '\n') ls := by
  rw [spacedTokens, spacedPieces, if_pos h]
  rfl

theorem spacedTokens_cons {l : Lexeme} (hnewline : l.kind ≠ .newline)
    (hreadable : isReadable l.kind = true) (atLineStart : Bool) (position : Position)
    (ls : List Lexeme) :
    ∃ start, (atLineStart = false → start = position.next ' ') ∧
      spacedTokens atLineStart position (l :: ls) =
      ⟨l.kind, l.token.text, start⟩ ::
        spacedTokens false (start.advance l.token.text.toList) ls := by
  have hkept : ∀ start, (!Token.isIdle ⟨l.kind, l.token.text, start⟩) = true := fun start => by
    rw [isIdle_of_isReadable (t := ⟨l.kind, l.token.text, start⟩) hreadable]
    rfl
  rw [spacedTokens, spacedPieces, if_neg hnewline]
  cases atLineStart with
  | true =>
    exact ⟨position, nofun,
      List.filter_cons_of_pos (p := fun t : Token => !t.isIdle) (hkept position)⟩
  | false =>
    refine ⟨position.next ' ', fun _ => rfl, ?_⟩
    have hblank : ¬ (!Token.isIdle ⟨.blank, " ", position⟩) = true := by simp [Token.isIdle]
    exact (List.filter_cons_of_neg (p := fun t : Token => !t.isIdle) hblank).trans
      (List.filter_cons_of_pos (p := fun t : Token => !t.isIdle) (hkept _))

/-- Between spaces no token is the sign of a number. -/
theorem any_touchesNumber_spacedTokens {t : Token} (htext : t.kind = .minus → t.text = "-")
    (hreadable : ∀ l ∈ ls, isReadable l.kind = true) :
    (spacedTokens false (t.position.advance t.text.toList) ls).head?.any
      (touchesNumber t) = false := by
  cases ls with
  | nil => rfl
  | cons l ls =>
    rw [← Bool.not_eq_true]
    intro htouches
    by_cases hnewline : l.kind = .newline
    · rw [spacedTokens_newline hnewline] at htouches
      simp [touchesNumber] at htouches
    · obtain ⟨start, hstart, htokens⟩ :=
        spacedTokens_cons hnewline (hreadable l List.mem_cons_self) false
        (t.position.advance t.text.toList) ls
      rw [htokens] at htouches
      simp only [List.head?_cons, Option.any_some, touchesNumber, Bool.and_eq_true,
        beq_iff_eq] at htouches
      obtain ⟨⟨⟨hminus, -⟩, -⟩, hcolumn⟩ := htouches
      -- The space is one more column.
      have hspace : ((t.position.advance "-".toList).next ' ').column = t.position.column + 2 := rfl
      rw [hstart rfl, htext hminus] at hcolumn
      omega

theorem signs_eq_false {before after : Option Token} {t : Token}
    (h : after.any (touchesNumber t) = false) : signs before t after = false := by
  rw [signs, h]
  rfl

/-- The lexemes of a recorded text are those of the definition, but for their places and signs. -/
theorem map_unplaced_spacedTokens (h : Lexed depth (ls ++ rest))
    (hreadable : ∀ l ∈ ls, isReadable l.kind = true) (before : Option Token) (atLineStart : Bool)
    (position : Position) :
    (ofTokensAfter before (spacedTokens atLineStart position ls)).map unplaced =
      (ls.map respelled).map unplaced := by
  induction ls generalizing depth before atLineStart position with
  | nil => rfl
  | cons l ls ih =>
    rw [List.forall_mem_cons] at hreadable
    have hothers := ih h.tail hreadable.2
    by_cases hnewline : l.kind = .newline
    · have hsign : (spacedTokens true (position.next '\n') ls).head?.any
          (touchesNumber ⟨.newline, "\n", position⟩) = false := by
        cases (spacedTokens true (position.next '\n') ls).head? <;> rfl
      rw [spacedTokens_newline hnewline, ofTokensAfter, signs_eq_false hsign, List.map_cons,
        List.map_cons, List.map_cons, hothers, respelled_of_newline hnewline]
      rfl
    · obtain ⟨start, -, htokens⟩ :=
        spacedTokens_cons hnewline hreadable.1 atLineStart position ls
      have hsign := any_touchesNumber_spacedTokens (t := ⟨l.kind, l.token.text, start⟩)
        (fun hminus => text_of_minus_lexeme h hminus) hreadable.2
      rw [htokens, ofTokensAfter, signs_eq_false hsign, List.map_cons, List.map_cons, List.map_cons,
        hothers, respelled_of_ne hnewline]
      rfl

/-- The text of a definition has the lexemes of the definition, and no minus in it is a sign. -/
theorem alike_ofText_definitionText (h : Lexed 0 (ls ++ rest))
    (hreadable : ∀ l ∈ ls, isReadable l.kind = true) :
    Alike (ofText (definitionText true ls)) (ls.map respelled ++ [Lexeme.closing]) := by
  have hkept : keptTokens (definitionText true ls) = spacedTokens true .start ls := by
    rw [keptTokens, scan_eq_place, pieces_definitionText h hreadable, spacedTokens]
  rw [Alike, ofText_eq_inText, inText, hkept, List.map_append, List.map_append,
    map_unplaced_spacedTokens h hreadable, List.map_singleton, ClosedLines.unplaced_closing]
  rfl

end Reader

end Logo
