import Logo.Proofs.Columns
import Logo.Proofs.Pieces

/-!
# Texts on one line

On a single line the lexemes can be told from the pieces alone: a minus is a sign if a number
follows it and the piece before it, if there is one, was left out (`Lexeme.ofPieces`).  The places
of the tokens, from which this is decided in general, only repeat what the pieces say, because on a
line the places grow with the texts (`Token.Follows`).

With the columns gone, a text on one line is read from its pieces (`withoutColumns_readText`).
-/

namespace Logo

/-! ## Places on a line -/

theorem Position.advance_of_notMem {p : Position} {cs : List Char} (h : '\n' ∉ cs) :
    p.advance cs = ⟨p.line, p.column + (String.ofList cs).utf8ByteSize⟩ := by
  induction cs generalizing p with
  | nil => rfl
  | cons c cs ih =>
    rw [List.mem_cons, not_or] at h
    have hstep : p.advance (c :: cs) = (p.next c).advance cs := rfl
    rw [hstep, ih h.2, next, if_neg (Ne.symm h.1), String.ofList_cons]
    simp [Nat.add_assoc]

/-- A piece that no reader needs. -/
def Piece.isIdle (p : Piece) : Bool :=
  p.kind == .blank || p.kind == .comment

/-- What holds of the pieces of a text on one line. -/
structure Piece.OnLine (p : Piece) : Prop where
  ne_empty : p.text ≠ ""
  unbroken : '\n' ∉ p.text.toList
  minus : p.kind = .minus → p.text = "-"

theorem Piece.OnLine.size_pos {p : Piece} (h : p.OnLine) : 0 < p.text.utf8ByteSize := by
  rw [Nat.pos_iff_ne_zero, ne_eq, String.utf8ByteSize_eq_zero_iff]
  exact h.ne_empty

namespace Token

open TokenRule

variable {position : Position} {ps : List Piece} {cs : List Char}

/-- The tokens of pieces that follow each other from a place on. -/
def place (position : Position) : List Piece → List Token
  | [] => []
  | p :: ps => ⟨p.kind, p.text, position⟩ :: place (position.advance p.text.toList) ps

/-- The places of tokens are counted from their texts. -/
theorem scan_eq_place (depth : Nat) (position : Position) (cs : List Char) :
    scan depth position cs = place position (pieces depth cs) := by
  rw [← map_piece_scan depth position cs]
  fun_induction scan depth position cs with
  | case1 => rfl
  | case2 depth position c rest kind length hlongest text ih =>
    rw [List.map_cons, place]
    simp only [piece, String.toList_ofList]
    exact congrArg (_ :: ·) ih

/-- A minus in code is just that character; inside brackets there is none. -/
theorem text_of_minus {depth n : Nat} {c : Char}
    (h : longest (atDepth depth) (c :: cs) = (.minus, n)) : c :: cs.take (n - 1) = ['-'] := by
  cases depth with
  | zero => exact Pattern.matches_text_iff.1 (matches_of_longest rfl (by decide) h)
  | succ depth =>
    rcases longest_cases TokenRule.list (c :: cs) with hnone | ⟨rule, hmem, -, hwin⟩
    · have hkind : TokenClass.minus = .stray := congrArg Prod.fst (h.symm.trans hnone)
      cases hkind
    · have hkind : TokenClass.minus = rule.kind := congrArg Prod.fst (h.symm.trans hwin)
      simp only [TokenRule.list, List.mem_cons, List.not_mem_nil, or_false] at hmem
      rcases hmem with rfl | rfl | rfl | rfl <;> cases hkind

theorem pieces_onLine (depth : Nat) (h : '\n' ∉ cs) : ∀ p ∈ pieces depth cs, p.OnLine := by
  -- A piece takes its first character in any case, so what is left is shorter.
  induction hlen : cs.length using Nat.strongRecOn generalizing depth cs with
  | ind len ih =>
    cases cs with
    | nil =>
      rw [pieces_nil]
      exact fun p hp => absurd hp List.not_mem_nil
    | cons c cs =>
      obtain ⟨kind, n, hlongest⟩ : ∃ kind n, longest (atDepth depth) (c :: cs) = (kind, n) :=
        ⟨_, _, rfl⟩
      rw [pieces_cons depth hlongest, List.forall_mem_cons]
      constructor
      · refine ⟨?_, ?_, ?_⟩
        · simp [← String.toList_inj]
        · rw [String.toList_ofList]
          exact fun hmem => h (List.cons_subset_cons c (List.take_subset _ _) hmem)
        · rintro rfl
          rw [text_of_minus hlongest]
      · refine ih _ ?_ _ (fun hmem => h (List.mem_cons_of_mem _ (List.mem_of_mem_drop hmem))) rfl
        rw [← hlen, List.length_drop, List.length_cons]
        omega

theorem column_le_of_mem_place (hps : ∀ p ∈ ps, p.OnLine) :
    ∀ t ∈ place position ps, t.position.line = position.line ∧
      position.column ≤ t.position.column := by
  induction ps generalizing position with
  | nil => exact fun t ht => absurd ht List.not_mem_nil
  | cons p ps ih =>
    rw [List.forall_mem_cons] at hps
    rw [place, List.forall_mem_cons, Position.advance_of_notMem hps.1.unbroken]
    refine ⟨⟨rfl, Nat.le_refl _⟩, fun t ht => ?_⟩
    obtain ⟨hline, hcolumn⟩ := ih hps.2 t ht
    exact ⟨hline, Nat.le_trans (Nat.le_add_right _ _) hcolumn⟩

/-- Where a place on a line stands to the token before it.  There need not be one. -/
structure Follows (before : Option Token) (touching : Bool) (position : Position) : Prop where
  line : ∀ b ∈ before, b.position.line = position.line
  column : ∀ b ∈ before, b.endColumn ≤ position.column
  touching_iff : touching = true ↔ ∃ b ∈ before, b.endColumn = position.column

theorem Follows.none : Follows none false position :=
  ⟨by simp, by simp, by simp⟩

theorem Follows.behind {p : Piece} (hp : p.OnLine) :
    Follows (some ⟨p.kind, p.text, position⟩) true (position.advance p.text.toList) := by
  rw [Position.advance_of_notMem hp.unbroken, String.ofList_toList]
  refine ⟨?_, ?_, ?_⟩ <;> simp [endColumn]

/-- Behind a piece that was left out, the place touches nothing. -/
theorem Follows.skip {before : Option Token} {touching : Bool} {p : Piece} (hp : p.OnLine)
    (h : Follows before touching position) :
    Follows before false (position.advance p.text.toList) := by
  have hpos := hp.size_pos
  rw [Position.advance_of_notMem hp.unbroken, String.ofList_toList]
  refine ⟨h.line, fun b hb => ?_, ?_⟩
  · exact Nat.le_trans (h.column b hb) (Nat.le_add_right _ _)
  · refine ⟨fun hfalse => absurd hfalse Bool.false_ne_true, ?_⟩
    rintro ⟨b, hb, heq⟩
    have hle := h.column b hb
    dsimp only at heq
    omega

theorem Follows.all_apart {before : Option Token} {touching : Bool}
    (h : Follows before touching position) (kind : TokenClass) (text : String) :
    before.all (Lexeme.apart · ⟨kind, text, position⟩) = !touching := by
  have htouching := h.touching_iff
  cases before with
  | none => simpa using htouching
  | some b =>
    have hline := h.line b rfl
    have hcolumn := h.column b rfl
    simp only [Option.mem_def, Option.some.injEq, exists_eq_left'] at htouching
    rw [Option.all_some, Lexeme.apart, hline, Bool.eq_iff_iff]
    simp only [bne_self_eq_false, Bool.false_or, decide_eq_true_eq, Bool.not_eq_true',
      ← Bool.not_eq_true, htouching]
    omega

/-- The next token in use is a number that touches the place only if the next piece is a number. -/
theorem head?_place_filter (hps : ∀ p ∈ ps, p.OnLine) {last : Token} (hlast : last.kind = .eof) :
    ((place position ps).filter (!·.isIdle) ++ [last]).head?.any
        (fun t => t.kind == .number && t.position.line == position.line &&
          t.position.column == position.column) =
      ps.head?.any (·.kind == .number) := by
  cases ps with
  | nil => simp [place, hlast]
  | cons p ps =>
    rw [List.forall_mem_cons] at hps
    rw [place, List.filter_cons]
    by_cases hidle : p.isIdle
    · -- The tokens behind a piece that is left out start further on.
      have hnumber : (p.kind == .number) = false := by
        simp only [Piece.isIdle, Bool.or_eq_true, beq_iff_eq] at hidle
        rcases hidle with h | h <;> rw [h] <;> rfl
      have htoken : (Token.mk p.kind p.text position).isIdle = true := hidle
      rw [htoken, Bool.not_true, if_neg Bool.false_ne_true, List.head?_cons, Option.any_some,
        hnumber, Option.any_eq_false]
      intro t ht
      rcases List.mem_append.1 (List.mem_of_head? ht) with hmem | hmem
      · have hcolumn := (column_le_of_mem_place hps.2 t (List.mem_filter.1 hmem).1).2
        rw [Position.advance_of_notMem hps.1.unbroken, String.ofList_toList] at hcolumn
        have hpos := hps.1.size_pos
        have hne : (t.position.column == position.column) = false := by
          rw [beq_eq_false_iff_ne]
          dsimp only at hcolumn
          omega
        rw [hne, Bool.and_false]
      · rw [List.mem_singleton.1 hmem, hlast]
        rfl
    · have htoken : (Token.mk p.kind p.text position).isIdle = false := Bool.not_eq_true _ ▸ hidle
      simp [htoken]

end Token

/-! ## Lexemes on a line -/

namespace Lexeme

open Token

variable {ps qs : List Piece} {touching : Bool}

/-- A lexeme at the start of the first line that is no sign. -/
def plain (kind : TokenClass) (text : String) : Lexeme := ⟨⟨kind, text, .start⟩, false⟩

@[simp] theorem kind_plain (kind : TokenClass) (text : String) :
    (plain kind text).kind = kind := rfl

/-- The lexeme that closes a text. -/
def closing : Lexeme := plain .eof ""

/-- The lexemes of pieces on the first line, all at its start.  `touching` says that a lexeme
reaches up to the first piece. -/
def ofPieces (touching : Bool) : List Piece → List Lexeme
  | [] => []
  | p :: ps =>
    if p.isIdle then ofPieces false ps
    else
      ⟨⟨p.kind, p.text, .start⟩,
        p.kind == .minus && ps.head?.any (·.kind == .number) && !touching⟩ :: ofPieces true ps

/-- On a line, signs can be told from the pieces. -/
theorem signs_eq {position : Position} {before : Option Token} {p : Piece} {last : Token}
    (hp : p.OnLine) (hps : ∀ p ∈ ps, p.OnLine) (hbefore : Follows before touching position)
    (hlast : last.kind = .eof) :
    signs before ⟨p.kind, p.text, position⟩
        ((place (position.advance p.text.toList) ps).filter (!·.isIdle) ++ [last]).head? =
      (p.kind == .minus && ps.head?.any (·.kind == .number) && !touching) := by
  rw [signs, hbefore.all_apart]
  congr 1
  cases hminus : p.kind == .minus with
  | false =>
    rw [Bool.false_and, Option.any_eq_false]
    intro t _
    simp [touchesNumber, hminus]
  | true =>
    -- A minus is one byte long, so what touches it starts one column on.
    have hadvance : position.advance p.text.toList = ⟨position.line, position.column + 1⟩ := by
      rw [Position.advance_of_notMem hp.unbroken, hp.minus (beq_iff_eq.1 hminus)]
      rfl
    rw [Bool.true_and, ← head?_place_filter hps hlast, hadvance]
    congr 1
    funext t
    simp [touchesNumber, hminus]

theorem map_atLineStart_ofTokensAfter {position : Position} {before : Option Token} {last : Token}
    (hps : ∀ p ∈ ps, p.OnLine) (hline : position.line = 1)
    (hbefore : Follows before touching position) (hlast : last.kind = .eof) :
    (ofTokensAfter before ((place position ps).filter (!·.isIdle) ++ [last])).map atLineStart =
      ofPieces touching ps ++ [⟨last.atLineStart, false⟩] := by
  -- Behind a lexeme the next piece touches it; behind a piece that is left out it touches nothing.
  induction ps generalizing position before touching with
  | nil => rfl
  | cons p ps ih =>
    rw [List.forall_mem_cons] at hps
    have hadvance : (position.advance p.text.toList).line = 1 := by
      rw [Position.advance_of_notMem hps.1.unbroken]
      exact hline
    rw [place, List.filter_cons, ofPieces]
    by_cases hidle : p.isIdle
    · have htoken : (Token.mk p.kind p.text position).isIdle = true := hidle
      rw [htoken, if_pos hidle, Bool.not_true, if_neg Bool.false_ne_true]
      exact ih hps.2 hadvance (hbefore.skip hps.1)
    · have htoken : (Token.mk p.kind p.text position).isIdle = false := Bool.not_eq_true _ ▸ hidle
      rw [htoken, if_neg hidle, Bool.not_false, if_pos rfl, List.cons_append, ofTokensAfter,
        List.map_cons, ih hps.2 hadvance (.behind hps.1), signs_eq hps.1 hps.2 hbefore hlast,
        List.cons_append]
      congr 1
      simp [atLineStart, Token.atLineStart, Position.lineStart, Position.start, hline]

theorem closing_tokens_atLineStart (hps : ∀ p ∈ ps, p.OnLine) :
    (Token.closing ((place .start ps).filter (!·.isIdle))).atLineStart = closing.token := by
  rw [Token.closing]
  cases hlast : ((place .start ps).filter (!·.isIdle)).getLast? with
  | none => rfl
  | some t =>
    have hmem : t ∈ place .start ps := (List.mem_filter.1 (List.mem_of_getLast? hlast)).1
    have hline := (column_le_of_mem_place hps t hmem).1
    simp only [Token.atLineStart, Position.lineStart, hline]
    rfl

/-- The lexemes of a text on one line, apart from columns. -/
theorem map_atLineStart_ofText {text : String} (h : '\n' ∉ text.toList) :
    (ofText text).map atLineStart = ofPieces false (pieces 0 text.toList) ++ [closing] := by
  have hps := pieces_onLine 0 h
  have hclosing := closing_tokens_atLineStart hps
  rw [ofText, ofTokens, tokenize]
  simp only [Bool.not_true, Bool.false_or, scan_eq_place]
  rw [map_atLineStart_ofTokensAfter hps rfl .none, hclosing]
  · rfl
  · rw [Token.closing]
    split <;> rfl

theorem map_token_ofTokensAfter (before : Option Token) (ts : List Token) :
    (ofTokensAfter before ts).map (·.token) = ts := by
  induction ts generalizing before with
  | nil => rfl
  | cons t ts ih => rw [ofTokensAfter, List.map_cons, ih]

theorem map_piece_ofText (text : String) :
    (ofText text).map (·.token.piece) =
      (pieces 0 text.toList).filter (!·.isIdle) ++ [⟨.eof, ""⟩] := by
  have hmap : (ofText text).map (·.token.piece) = ((ofText text).map (·.token)).map piece := by
    rw [List.map_map]
    rfl
  have hclosing : ∀ ts, (Token.closing ts).piece = ⟨.eof, ""⟩ := by
    intro ts
    rw [Token.closing]
    split <;> rfl
  rw [hmap, ofText, ofTokens, map_token_ofTokensAfter, tokenize]
  simp only [Bool.not_true, Bool.false_or, List.map_append, List.map_cons, List.map_nil, hclosing]
  rw [pieces, List.filter_map]
  rfl

/-! ### Putting lexemes together -/

/-- What is neither left out nor a minus is a lexeme whatever stands around it. -/
theorem ofPieces_cons {kind : TokenClass} {text : String}
    (hidle : (Piece.mk kind text).isIdle = false) (hminus : (kind == .minus) = false) :
    ofPieces touching (⟨kind, text⟩ :: ps) = plain kind text :: ofPieces true ps := by
  simp [ofPieces, hidle, hminus, plain]

/-- Unless a minus comes first, it does not matter what the pieces touch. -/
theorem ofPieces_congr (h : ∀ p, ps.head? = some p → p.kind ≠ .minus) (touching other : Bool) :
    ofPieces touching ps = ofPieces other ps := by
  cases ps with
  | nil => rfl
  | cons p ps =>
    have hminus : (p.kind == .minus) = false := beq_eq_false_iff_ne.2 (h p rfl)
    simp only [ofPieces, hminus, Bool.false_and]

/-- Pieces may be turned into lexemes one text after the other if the second one starts with neither
a minus nor a number. -/
theorem ofPieces_append (h : ∀ p, qs.head? = some p → p.kind ≠ .minus ∧ p.kind ≠ .number) :
    ofPieces touching (ps ++ qs) = ofPieces touching ps ++ ofPieces false qs := by
  induction ps generalizing touching with
  | nil => exact ofPieces_congr (fun p hp => (h p hp).1) _ _
  | cons p ps ih =>
    have hnumber : (ps ++ qs).head?.any (·.kind == .number) = ps.head?.any (·.kind == .number) := by
      cases ps with
      | cons => rfl
      | nil =>
        rw [List.nil_append, List.head?_nil, Option.any_none, Option.any_eq_false]
        intro q hq
        simpa using (h q hq).2
    rw [List.cons_append, ofPieces, ofPieces, hnumber, ih, ih]
    split <;> rfl

end Lexeme

/-! ## Reading a line -/

namespace Reader

variable {α : Type}

theorem eq_of_withoutColumns_eq_ok {r : Reading α} {a : α} {table : ProcedureTable}
    (h : withoutColumns r = (.ok a, table)) : r = (.ok a, table) := by
  obtain ⟨e | b, table'⟩ := r
  · cases congrArg Prod.fst h
  · exact h

/-- Apart from the column of an error, a text on one line is read from its pieces. -/
theorem withoutColumns_readText {text : String} (h : '\n' ∉ text.toList) (keep : Bool)
    (table : ProcedureTable) :
    withoutColumns (readText keep table text) =
      program keep table
      (Lexeme.ofPieces false (Token.pieces 0 text.toList) ++ [Lexeme.closing]) := by
  rw [readText, ← program_map, Lexeme.map_atLineStart_ofText h]

theorem readList_eq_ok {text : String} (h : '\n' ∉ text.toList) {node : Node} {rest : List Lexeme}
    (hlist : list (Lexeme.ofPieces false (Token.pieces 0 ('[' :: (text.toList ++ [']']))) ++
      [Lexeme.closing]) = .ok (node, rest)) :
    readList text = .ok node := by
  have htext : ("[" ++ text ++ "]").toList = '[' :: (text.toList ++ [']']) := by
    simp [String.toList_append]
  have hline : '\n' ∉ ("[" ++ text ++ "]").toList := by
    rw [htext]
    simp [h]
  have hblind := list_blind (Lexeme.ofText ("[" ++ text ++ "]"))
  rw [Lexeme.map_atLineStart_ofText hline, htext, hlist] at hblind
  rw [readList]
  cases hread : list (Lexeme.ofText ("[" ++ text ++ "]")) with
  | error e =>
    rw [hread] at hblind
    cases hblind
  | ok r =>
    rw [hread] at hblind
    cases hblind
    rfl

end Reader

end Logo
