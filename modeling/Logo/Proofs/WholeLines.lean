import Logo.Proofs.BracketDepth
import Logo.Proofs.Places

/-!
# Texts made of whole lines

No token goes on behind the end of a line, except for the blanks inside of brackets.  So the tokens
of a text that starts with whole lines are those of the lines and those of what follows
(`Token.pieces_append_lines`), and outside of brackets the two parts are cut independently of each
other.  A sign is decided on its own line.  Apart from their places, then, the lexemes of such a
text are those of its parts, one after the other (`ClosedLines.alike_ofText_append`).
-/

namespace Logo

/-- Every line of the text ends. -/
def WholeLines (cs : List Char) : Prop :=
  ∀ c ∈ cs.getLast?, c = '\n'

instance (cs : List Char) : Decidable (WholeLines cs) :=
  Option.decidableForallMem cs.getLast?

namespace WholeLines

variable {cs ds : List Char}

theorem exists_append (h : WholeLines cs) (hne : cs ≠ []) : ∃ front, cs = front ++ ['\n'] := by
  rcases List.eq_nil_or_concat cs with rfl | ⟨front, last, rfl⟩
  · exact absurd rfl hne
  · rw [h last (by simp)]
    exact ⟨front, List.concat_eq_append⟩

/-- Whole lines are left when characters are taken off in front. -/
theorem drop (h : WholeLines cs) (n : Nat) : WholeLines (cs.drop n) := by
  intro c hc
  rw [List.getLast?_drop] at hc
  split at hc
  · cases hc
  · exact h c hc

theorem drop_tail {c : Char} (h : WholeLines (c :: cs)) (n : Nat) : WholeLines (cs.drop n) :=
  h.drop (n + 1)

theorem newline_mem (h : WholeLines cs) (hne : cs ≠ []) : '\n' ∈ cs := by
  obtain ⟨front, rfl⟩ := h.exists_append hne
  simp

/-- Whole lines behind whole lines are whole lines. -/
theorem append (h : WholeLines cs) (h' : WholeLines ds) : WholeLines (cs ++ ds) := by
  intro c hc
  rw [List.getLast?_append, Option.mem_def, Option.or_eq_some_iff] at hc
  rcases hc with hc | ⟨-, hc⟩
  · exact h' c hc
  · exact h c hc

end WholeLines

/-! ## Longest matches in whole lines -/

namespace TokenRule

open Pattern

variable {rule : TokenRule} {c : Char} {s u v cs : List Char}

/-- The rule for newlines, the only one in code whose texts may hold a newline. -/
theorem eq_newline_of_mem_code (hrule : rule ∈ code) (h : rule.pattern.mayContain '\n' = true) :
    rule = ⟨.newline, seq (optional (one (· == '\r'))) (one (· == '\n'))⟩ := by
  have hmem : rule ∈ code.filter (·.pattern.mayContain '\n') := List.mem_filter.2 ⟨hrule, h⟩
  have hfilter : code.filter (·.pattern.mayContain '\n') =
    [⟨.newline, seq (optional (one (· == '\r'))) (one (· == '\n'))⟩] := rfl
  rw [hfilter] at hmem
  exact List.mem_singleton.1 hmem

/-- In code a newline ends its token. -/
theorem newline_last (hrule : rule ∈ code) (h : Matches rule.pattern (u ++ '\n' :: v)) :
    v = [] := by
  have hrule := eq_newline_of_mem_code hrule (h.mayContain '\n' (by simp))
  subst hrule
  obtain ⟨s, t, heq, hs, ht⟩ := matches_seq_iff.1 h
  obtain ⟨d, rfl, -⟩ := matches_one_iff.1 ht
  have hnot : '\n' ∉ s := by
    intro hmem
    have hcontain := hs.mayContain '\n' hmem
    simp [Pattern.mayContain, Pattern.optional] at hcontain
  rcases List.append_eq_append_iff.1 heq with ⟨w, rfl, hw⟩ | ⟨w, rfl, hw⟩
  · cases w with
    | nil =>
      rw [List.nil_append] at hw
      exact (List.cons.inj hw).2
    | cons a w =>
      cases hw
      exact absurd (by simp) hnot
  · cases w with
    | nil => exact (List.cons.inj hw).2.symm
    | cons a w => simp at hw

/-- In whole lines the lexer takes the same token whatever follows them. -/
theorem longest_code_append_lines (h : WholeLines (c :: cs)) (rest : List Char) :
    longest code (c :: cs ++ rest) = longest code (c :: cs) := by
  obtain ⟨front, hfront⟩ := h.exists_append (List.cons_ne_nil _ _)
  refine longest_congr fun rule hrule => munch_append_of_forall fun v hv _ hmatch => hv ?_
  rw [hfront, List.append_assoc] at hmatch
  exact newline_last hrule hmatch

/-- Inside of brackets a token that holds a newline is blank. -/
theorem not_matches_list (hrule : rule ∈ list) (hnewline : '\n' ∈ s)
    (hsolid : ∃ d ∈ s, Text.isBlank d = false) : ¬ Matches rule.pattern s := by
  intro hmatch
  have hcontain := hmatch.mayContain '\n' hnewline
  simp only [list, List.mem_cons, List.not_mem_nil, or_false] at hrule
  rcases hrule with rfl | rfl | rfl | rfl
  · exact absurd hcontain (by decide)
  · exact absurd hcontain (by decide)
  · obtain ⟨d, hd, hsolid⟩ := hsolid
    have hblank := (matches_oneOrMore_iff.1 hmatch).2 d hd
    rw [hsolid] at hblank
    cases hblank
  · exact absurd hcontain (by decide)

/-- Inside of brackets lines are cut like this unless they are blank. -/
theorem longest_list_append_lines (h : WholeLines (c :: cs))
    (hsolid : ∃ d ∈ c :: cs, Text.isBlank d = false) (rest : List Char) :
    longest list (c :: cs ++ rest) = longest list (c :: cs) := by
  have hnewline := h.newline_mem (List.cons_ne_nil _ _)
  obtain ⟨d, hd, hsolid⟩ := hsolid
  exact longest_congr fun rule hrule => munch_append_of_forall fun v _ _ =>
    not_matches_list hrule (List.mem_append_left _ hnewline) ⟨d, List.mem_append_left _ hd, hsolid⟩

end TokenRule

/-! ## Pieces of whole lines -/

namespace Token

open TokenRule

variable {depth n : Nat} {kind : TokenClass} {c : Char} {cs front back : List Char}
  {ps qs : List Piece}

/-- The number of open brackets behind pieces. -/
def depthBehindPieces (depth : Nat) (ps : List Piece) : Nat :=
  ps.foldl (fun depth p => depthAfter depth p.kind) depth

theorem depthBehindPieces_cons {p : Piece} :
    depthBehindPieces depth (p :: ps) = depthBehindPieces (depthAfter depth p.kind) ps := rfl

theorem depthBehindPieces_append :
    depthBehindPieces depth (ps ++ qs) = depthBehindPieces (depthBehindPieces depth ps) qs :=
  List.foldl_append

/-- Pieces that no reader needs leave the depth as it is. -/
theorem depthBehindPieces_filter :
    depthBehindPieces depth (ps.filter (!·.isIdle)) = depthBehindPieces depth ps := by
  induction ps generalizing depth with
  | nil => rfl
  | cons p ps ih =>
    rw [List.filter_cons]
    split
    · exact ih
    · next hidle =>
      rw [ih, depthBehindPieces_cons, depthAfter_of_isIdle (by simpa using hidle)]

/-- A piece that is cut alike before another text is cut alike with all that is behind it. -/
theorem pieces_cons_append (h : longest (atDepth depth) (c :: cs) = (kind, n))
    (happend : longest (atDepth depth) (c :: cs ++ back) = longest (atDepth depth) (c :: cs)) :
    pieces depth (c :: cs ++ back) = ⟨kind, String.ofList (c :: cs.take (n - 1))⟩ ::
      pieces (depthAfter depth kind) (cs.drop (n - 1) ++ back) := by
  have hle : n - 1 ≤ cs.length := by
    have := longest_le (atDepth depth) (c :: cs)
    rw [h, List.length_cons] at this
    omega
  rw [h, List.cons_append] at happend
  rw [List.cons_append, pieces_cons depth happend, List.take_append_of_le_length hle,
    List.drop_append_of_le_length hle]

theorem filter_pieces_blank (hs : front ≠ []) (hall : ∀ c ∈ front, Text.isBlank c = true) :
    (pieces (depth + 1) (front ++ back)).filter (!·.isIdle) =
      (pieces (depth + 1) back).filter (!·.isIdle) := by
  have hsplit : back = back.takeWhile Text.isBlank ++ back.dropWhile Text.isBlank :=
    List.takeWhile_append_dropWhile.symm
  have hstop : ∀ c, (back.dropWhile Text.isBlank).head? = some c → Text.isBlank c = false := by
    intro c hc
    have hnot := List.head?_dropWhile_not Text.isBlank back
    rw [hc] at hnot
    exact hnot
  have hblank : ∀ c ∈ back.takeWhile Text.isBlank, Text.isBlank c = true :=
    fun c hc => List.mem_takeWhile_imp hc
  generalize back.takeWhile Text.isBlank = s at hsplit hblank
  generalize back.dropWhile Text.isBlank = rest at hsplit hstop
  subst hsplit
  rw [← List.append_assoc, pieces_list_blank (List.append_ne_nil_of_left_ne_nil hs s)
    (List.forall_mem_append.2 ⟨hall, hblank⟩) hstop]
  cases s with
  | nil => rfl
  | cons d s =>
    rw [pieces_list_blank (List.cons_ne_nil d s) hblank hstop]
    rfl

/-- The tokens of whole lines are the same whatever follows; outside of brackets they are cut off.
-/
theorem pieces_append_lines (depth : Nat) (h : WholeLines front) (back : List Char) :
    (pieces depth (front ++ back)).filter (!·.isIdle) = (pieces depth front).filter (!·.isIdle) ++
        (pieces (depthBehindPieces depth (pieces depth front)) back).filter (!·.isIdle) ∧
      (depthBehindPieces depth (pieces depth front) = 0 →
        pieces depth (front ++ back) = pieces depth front ++ pieces 0 back) := by
  -- A piece takes its first character in any case, so what is left is shorter.
  induction hlen : front.length using Nat.strongRecOn generalizing front depth with
  | ind len ih =>
    cases front with
    | nil =>
      rw [pieces_nil]
      refine ⟨rfl, fun hdepth => ?_⟩
      rw [show depth = 0 from hdepth]
      rfl
    | cons c cs =>
      obtain ⟨kind, n, hlongest⟩ : ∃ kind n, longest (atDepth depth) (c :: cs) = (kind, n) :=
        ⟨_, _, rfl⟩
      have hcut : longest (atDepth depth) (c :: cs ++ back) = longest (atDepth depth) (c :: cs) →
          (pieces depth (c :: cs ++ back)).filter (!·.isIdle) =
          (pieces depth (c :: cs)).filter (!·.isIdle) ++
              (pieces (depthBehindPieces depth (pieces depth (c :: cs))) back).filter (!·.isIdle) ∧
            (depthBehindPieces depth (pieces depth (c :: cs)) = 0 →
              pieces depth (c :: cs ++ back) = pieces depth (c :: cs) ++ pieces 0 back) := by
        intro happend
        have hshorter : (cs.drop (n - 1)).length < len := by
          rw [← hlen, List.length_drop, List.length_cons]
          omega
        obtain ⟨hfilter, hexact⟩ :=
          ih _ hshorter (depthAfter depth kind) (h.drop_tail _) rfl
        rw [pieces_cons_append hlongest happend, pieces_cons depth hlongest, depthBehindPieces_cons]
        refine ⟨?_, fun hdepth => ?_⟩
        · rw [List.filter_cons, List.filter_cons, hfilter]
          split <;> rfl
        · rw [hexact hdepth]
          rfl
      cases depth with
      | zero => exact hcut (longest_code_append_lines h back)
      | succ depth =>
        by_cases hsolid : ∃ d ∈ c :: cs, Text.isBlank d = false
        · exact hcut (longest_list_append_lines h hsolid back)
        · have hall : ∀ d ∈ c :: cs, Text.isBlank d = true := fun d hd => by
            rw [← Bool.not_eq_false]
            exact fun hfalse => hsolid ⟨d, hd, hfalse⟩
          have hown : pieces (depth + 1) (c :: cs ++ []) =
              ⟨.blank, String.ofList (c :: cs)⟩ :: pieces (depth + 1) [] :=
            pieces_list_blank (List.cons_ne_nil c cs) hall nofun
          rw [List.append_nil, pieces_nil] at hown
          rw [filter_pieces_blank (List.cons_ne_nil c cs) hall, hown]
          exact ⟨rfl, nofun⟩

/-- The pieces of a text make it up. -/
theorem flatMap_pieces (depth : Nat) (cs : List Char) :
    (pieces depth cs).flatMap (·.text.toList) = cs := by
  induction hlen : cs.length using Nat.strongRecOn generalizing cs depth with
  | ind len ih =>
    cases cs with
    | nil => simp
    | cons c cs =>
      obtain ⟨kind, n, hlongest⟩ : ∃ kind n, longest (atDepth depth) (c :: cs) = (kind, n) :=
        ⟨_, _, rfl⟩
      rw [pieces_cons depth hlongest, List.flatMap_cons, ih _ ?_ _ _ rfl, String.toList_ofList,
        List.cons_append, List.take_append_drop]
      rw [← hlen, List.length_drop, List.length_cons]
      omega

/-- Whole lines that leave no bracket open end with a newline, even where a comment was cut last. -/
theorem kind_of_longest_lines (h : WholeLines (c :: cs))
    (hlongest : longest (atDepth depth) (c :: cs) = (kind, n)) (hall : cs.drop (n - 1) = [])
    (hdepth : depthAfter depth kind = 0) : kind = .newline := by
  have hnewline := h.newline_mem (List.cons_ne_nil _ _)
  have htext : cs.take (n - 1) = cs := List.take_of_length_le (List.drop_eq_nil_iff.1 hall)
  cases depth with
  | zero =>
    rcases longest_cases code (c :: cs) with hnone | ⟨rule, hmem, hpos, hwin⟩
    · -- A newline by itself is a token.
      cases hlongest.symm.trans hnone
      rw [Nat.zero_sub, List.drop_zero] at hall
      subst hall
      cases h c rfl
      exact absurd hnone (by decide +kernel)
    · cases hlongest.symm.trans hwin
      have hmatched := (Pattern.munch_longest rule.pattern (c :: cs)).matched hpos
      obtain ⟨m, hm⟩ : ∃ m, rule.pattern.munch (c :: cs) = m + 1 :=
        ⟨_ - 1, (Nat.sub_add_cancel hpos).symm⟩
      rw [hm, Nat.add_sub_cancel] at htext
      rw [hm, List.take_succ_cons, htext] at hmatched
      rw [eq_newline_of_mem_code hmem (hmatched.mayContain _ hnewline)]
  | succ depth =>
    -- Only a bracket would lead out of the brackets.
    cases kind with
    | rightBracket =>
      have hmatched := matches_of_longest rfl (by decide) hlongest
      rw [htext, Pattern.matches_text_iff] at hmatched
      rw [hmatched] at hnewline
      exact absurd hnewline (by decide)
    | _ => cases hdepth

/-- Outside of brackets, whole lines end with a newline. -/
theorem newline_of_getLast?_pieces (h : WholeLines cs)
    (hdepth : depthBehindPieces depth (pieces depth cs) = 0) :
    ∀ p ∈ (pieces depth cs).getLast?, p.kind = .newline ∧ '\n' ∈ p.text.toList := by
  induction hlen : cs.length using Nat.strongRecOn generalizing cs depth with
  | ind len ih =>
    cases cs with
    | nil =>
      rw [pieces_nil]
      nofun
    | cons c cs =>
      obtain ⟨kind, n, hlongest⟩ : ∃ kind n, longest (atDepth depth) (c :: cs) = (kind, n) :=
        ⟨_, _, rfl⟩
      have hshorter : (cs.drop (n - 1)).length < len := by
        rw [← hlen, List.length_drop, List.length_cons]
        omega
      rw [pieces_cons depth hlongest] at hdepth ⊢
      rw [depthBehindPieces_cons] at hdepth
      have hothers := ih _ hshorter (h.drop_tail _) hdepth rfl
      cases hlast : (pieces (depthAfter depth kind) (cs.drop (n - 1))).getLast? with
      | none =>
        have hnil : cs.drop (n - 1) = [] := by
          rw [← flatMap_pieces (depthAfter depth kind) (cs.drop (n - 1)),
            List.getLast?_eq_none_iff.1 hlast, List.flatMap_nil]
        rw [List.getLast?_cons, hlast]
        rintro p ⟨⟩
        rw [hnil, pieces_nil] at hdepth
        refine ⟨kind_of_longest_lines h hlongest hnil hdepth, ?_⟩
        rw [Option.getD_none, String.toList_ofList,
          List.take_of_length_le (List.drop_eq_nil_iff.1 hnil)]
        exact h.newline_mem (List.cons_ne_nil _ _)
      | some q =>
        rw [List.getLast?_cons, hlast]
        rintro p ⟨⟩
        exact hothers _ hlast

end Token

/-! ## Places further down -/

/-- The place some lines further down. -/
def Position.down (lines : Nat) (p : Position) : Position :=
  ⟨p.line + lines, p.column⟩

/-- The token some lines further down. -/
def Token.down (lines : Nat) (t : Token) : Token :=
  { t with position := t.position.down lines }

namespace Position

variable {p : Position} {cs ds : List Char} {lines : Nat}

/-- The position behind two texts is that of the second one from behind the first. -/
theorem advance_append : p.advance (cs ++ ds) = (p.advance cs).advance ds :=
  List.foldl_append

theorem advance_down : (p.down lines).advance cs = (p.advance cs).down lines := by
  induction cs generalizing p with
  | nil => rfl
  | cons c cs ih =>
    have hnext : (p.down lines).next c = (p.next c).down lines := by
      by_cases hc : c = '\n'
      · simp [next, down, hc, Nat.add_right_comm]
      · simp [next, down, hc]
    have hstep : (p.down lines).advance (c :: cs) = ((p.down lines).next c).advance cs := rfl
    rw [hstep, hnext, ih]
    rfl

theorem line_le_advance (p : Position) (cs : List Char) : p.line ≤ (p.advance cs).line := by
  induction cs generalizing p with
  | nil => exact Nat.le_refl _
  | cons c cs ih =>
    have hnext : p.line ≤ (p.next c).line := by
      rw [next]
      split
      · exact Nat.le_succ _
      · exact Nat.le_refl _
    exact Nat.le_trans hnext (ih (p.next c))

/-- A newline leads to a further line. -/
theorem line_lt_advance (p : Position) (h : '\n' ∈ cs) : p.line < (p.advance cs).line := by
  obtain ⟨front, back, rfl⟩ := List.append_of_mem h
  have hfront := line_le_advance p front
  have hback := line_le_advance ((p.advance front).next '\n') back
  rw [advance_append]
  exact Nat.lt_of_lt_of_le (Nat.lt_succ_of_le hfront) hback

/-- Behind whole lines a new line starts. -/
theorem advance_of_wholeLines (h : WholeLines cs) :
    ∃ lines, start.advance cs = start.down lines := by
  by_cases hne : cs = []
  · subst hne
    exact ⟨0, rfl⟩
  · obtain ⟨front, rfl⟩ := h.exists_append hne
    refine ⟨(start.advance front).line, ?_⟩
    rw [advance_append, start, down, Nat.add_comm]
    rfl

end Position

namespace Token

variable {position : Position} {ps qs : List Piece} {lines : Nat}

theorem place_append (position : Position) (ps qs : List Piece) : place position (ps ++ qs) =
    place position ps ++ place (position.advance (ps.flatMap (·.text.toList))) qs := by
  induction ps generalizing position with
  | nil => rfl
  | cons p ps ih =>
    rw [List.cons_append, place, place, ih, List.flatMap_cons, Position.advance_append,
      List.cons_append]

/-- Pieces that start further down stand further down, each at the same column. -/
theorem place_down : place (position.down lines) ps = (place position ps).map (down lines) := by
  induction ps generalizing position with
  | nil => rfl
  | cons p ps ih =>
    rw [place, Position.advance_down, ih]
    rfl

theorem line_le_of_mem_place : ∀ t ∈ place position ps, position.line ≤ t.position.line := by
  induction ps generalizing position with
  | nil => exact fun t ht => absurd ht List.not_mem_nil
  | cons p ps ih =>
    rw [place, List.forall_mem_cons]
    exact ⟨Nat.le_refl _, fun t ht => Nat.le_trans (Position.line_le_advance _ _) (ih t ht)⟩

end Token

/-! ## Lexemes of whole lines -/

namespace Lexeme

open Token

variable {before : Option Token} {ts us : List Token} {lines : Nat}

theorem signs_down (before : Option Token) (t : Token) (after : Option Token) :
    signs (before.map (Token.down lines)) (t.down lines) (after.map (Token.down lines)) =
      signs before t after := by
  have hline : ∀ m n : Nat, (m + lines == n + lines) = (m == n) := fun m n => by
    rw [Bool.eq_iff_iff]
    simp
  have htouches : ∀ u, touchesNumber (t.down lines) (u.down lines) = touchesNumber t u := fun u =>
    congrArg (fun same => t.kind == .minus && u.kind == .number && same && _) (hline _ _)
  have hapart : ∀ b, apart (b.down lines) (t.down lines) = apart b t := fun b =>
    congrArg (fun same => !same || _) (hline _ _)
  simp only [signs, Option.any_map, Option.all_map, htouches, hapart]

/-- Lines in front of tokens change their places and nothing else. -/
theorem map_unplaced_ofTokensAfter_down (before : Option Token) (ts : List Token) :
    (ofTokensAfter (before.map (Token.down lines)) (ts.map (Token.down lines))).map unplaced =
      (ofTokensAfter before ts).map unplaced := by
  induction ts generalizing before with
  | nil => rfl
  | cons t ts ih =>
    rw [List.map_cons, ofTokensAfter, ofTokensAfter, List.map_cons, List.map_cons, List.head?_map,
      signs_down]
    exact congrArg (_ :: ·) (ih (some t))

/-- Lexemes can be made one sequence after the other where no number follows a minus. -/
theorem ofTokensAfter_append (h : ∀ t ∈ ts.getLast?, ∀ u ∈ us.head?, touchesNumber t u = false) :
    ofTokensAfter before (ts ++ us) =
      ofTokensAfter before ts ++ ofTokensAfter (ts.getLast?.or before) us := by
  induction ts generalizing before with
  | nil => rfl
  | cons t ts ih =>
    cases ts with
    | nil =>
      have hsigns : signs before t us.head? = signs before t none := by
        cases hhead : us.head? with
        | none => rfl
        | some u => simp [signs, h t rfl u hhead]
      rw [List.singleton_append, ofTokensAfter, hsigns]
      rfl
    | cons u ts =>
      rw [List.getLast?_cons_cons] at h ⊢
      have hothers : ofTokensAfter (some t) (u :: ts ++ us) = _ := ih h
      obtain ⟨last, hlast⟩ : ∃ last, (u :: ts).getLast? = some last := ⟨_, List.getLast?_cons⟩
      rw [List.cons_append, ofTokensAfter, hothers, hlast]
      rfl

/-- The tokens of a text that readers see, without the closing one. -/
def keptTokens (text : String) : List Token :=
  (scan 0 .start text.toList).filter (!·.isIdle)

/-- The lexemes of a text without the closing one. -/
def inText (text : String) : List Lexeme :=
  ofTokensAfter none (keptTokens text)

theorem kind_closing (ts : List Token) : (Token.closing ts).kind = .eof := by
  rw [Token.closing]
  split <;> rfl

/-- The lexemes of a text are those in it, and one that closes the program. -/
theorem ofText_eq_inText (text : String) :
    ofText text = inText text ++ [⟨Token.closing (keptTokens text), false⟩] := by
  have htokens : tokenize text true = keptTokens text ++ [Token.closing (keptTokens text)] := rfl
  rw [ofText, ofTokens, htokens, ofTokensAfter_append]
  · rfl
  · rintro t - u ⟨⟩
    simp [touchesNumber, kind_closing]

theorem map_piece_inText (text : String) :
    (inText text).map (·.token.piece) = (pieces 0 text.toList).filter (!·.isIdle) := by
  have hmap := map_piece_ofText text
  rw [ofText_eq_inText, List.map_append] at hmap
  exact List.append_inj_left' hmap rfl

theorem depthBehindPieces_map_piece (ls : List Lexeme) :
    depthBehindPieces 0 (ls.map (·.token.piece)) = depthBehind 0 ls := by
  rw [depthBehindPieces, List.foldl_map]
  rfl

theorem depthBehindPieces_pieces (text : String) :
    depthBehindPieces 0 (pieces 0 text.toList) = depthBehind 0 (inText text) := by
  rw [← depthBehindPieces_map_piece, map_piece_inText, depthBehindPieces_filter]

end Lexeme

/-- Whole lines that close the brackets they open. -/
structure ClosedLines (text : String) : Prop where
  lines : WholeLines text.toList
  depth : Token.depthBehindPieces 0 (Token.pieces 0 text.toList) = 0

namespace ClosedLines

open Token Lexeme

variable {text back : String}

/-- Behind closed lines a text has its own tokens, only further down. -/
theorem keptTokens_append (h : ClosedLines text) (back : String) : ∃ lines,
    keptTokens (text ++ back) = keptTokens text ++ (keptTokens back).map (Token.down lines) ∧
      ∀ t ∈ (keptTokens text).getLast?, t.kind = .newline ∧
        ∀ u ∈ (keptTokens back).map (Token.down lines), t.position.line < u.position.line := by
  obtain ⟨lines, hlines⟩ := Position.advance_of_wholeLines h.lines
  have hpieces := (pieces_append_lines 0 h.lines back.toList).2 h.depth
  have htext : (pieces 0 text.toList).flatMap (·.text.toList) = text.toList := flatMap_pieces 0 _
  have hdown : (keptTokens back).map (Token.down lines) =
      ((place .start (pieces 0 back.toList)).map (Token.down lines)).filter (!·.isIdle) := by
    rw [keptTokens, scan_eq_place, List.filter_map]
    rfl
  refine ⟨lines, ?_, fun t ht => ?_⟩
  · rw [keptTokens, String.toList_append, scan_eq_place, hpieces, place_append, htext, hlines,
      place_down, List.filter_append, hdown, keptTokens, scan_eq_place]
  · rcases List.eq_nil_or_concat (pieces 0 text.toList) with hnil | ⟨front, p, hfront⟩
    · rw [keptTokens, scan_eq_place, hnil] at ht
      cases ht
    · rw [List.concat_eq_append] at hfront
      obtain ⟨hkind, hnewline⟩ :=
        newline_of_getLast?_pieces h.lines h.depth p (by rw [hfront]; simp)
      rw [hfront, List.flatMap_append, List.flatMap_singleton] at htext
      have hlast : keptTokens text = (place .start front).filter (!·.isIdle) ++
          [⟨p.kind, p.text, Position.start.advance (front.flatMap (·.text.toList))⟩] := by
        rw [keptTokens, scan_eq_place, hfront, place_append, List.filter_append]
        congr 1
        simp [place, Token.isIdle, hkind]
      rw [hlast, List.getLast?_concat] at ht
      cases ht
      refine ⟨hkind, fun u hu => ?_⟩
      rw [hdown] at hu
      have hline :=
        line_le_of_mem_place u (by rw [← place_down] at hu; exact (List.mem_filter.1 hu).1)
      rw [← hlines, ← htext, Position.advance_append] at hline
      exact Nat.lt_of_lt_of_le (Position.line_lt_advance _ hnewline) hline

/-- Lexemes of closed lines, and what follows them, apart from places. -/
theorem alike_inText_append (h : ClosedLines text) (back : String) :
    Alike (inText (text ++ back)) (inText text ++ inText back) := by
  obtain ⟨lines, htokens, hlast⟩ := h.keptTokens_append back
  rw [Alike, inText, htokens, ofTokensAfter_append, List.map_append, List.map_append]
  · congr 1
    have hfirst : ofTokensAfter ((keptTokens text).getLast?.or none)
      ((keptTokens back).map (Token.down lines)) =
        ofTokensAfter none ((keptTokens back).map (Token.down lines)) := by
      rw [Option.or_none]
      cases hbefore : (keptTokens text).getLast? with
      | none => rfl
      | some t =>
        cases hafter : (keptTokens back).map (Token.down lines) with
        | nil => rfl
        | cons u us =>
          have hline := (hlast t hbefore).2 u (by rw [hafter]; exact List.mem_cons_self)
          have hapart : apart t u = true := by
            simp [apart, Nat.ne_of_lt hline]
          simp [ofTokensAfter, signs, hapart]
    rw [hfirst]
    exact map_unplaced_ofTokensAfter_down none (keptTokens back)
  · intro t ht u _
    simp [touchesNumber, (hlast t ht).1]

theorem unplaced_closing (ts : List Token) :
    Lexeme.unplaced ⟨Token.closing ts, false⟩ = Lexeme.closing := by
  rw [Token.closing]
  split <;> rfl

/-- A text behind closed lines is lexed as it is alone. -/
theorem alike_ofText_append (h : ClosedLines text) (back : String) :
    Alike (ofText (text ++ back)) (inText text ++ ofText back) := by
  have hinText := h.alike_inText_append back
  rw [Alike, List.map_append] at hinText
  rw [Alike, ofText_eq_inText, ofText_eq_inText back, List.map_append, List.map_append,
    List.map_append, hinText, List.map_singleton, List.map_singleton, unplaced_closing,
    unplaced_closing, List.append_assoc]

/-- The lexemes of closed lines end with a newline. -/
theorem newline_of_getLast? (h : ClosedLines text) :
    ∀ l ∈ (inText text).getLast?, l.kind = .newline := by
  obtain ⟨lines, -, hlast⟩ := h.keptTokens_append ""
  intro l hl
  refine (hlast l.token ?_).1
  rw [← map_token_ofTokensAfter none (keptTokens text), List.getLast?_map]
  exact Option.mem_map_of_mem _ hl

theorem append (h : ClosedLines text) (h' : ClosedLines back) : ClosedLines (text ++ back) := by
  refine ⟨?_, ?_⟩
  · rw [String.toList_append]
    exact h.lines.append h'.lines
  · rw [String.toList_append, (pieces_append_lines 0 h.lines _).2 h.depth, depthBehindPieces_append,
      h.depth, h'.depth]

/-- Behind closed lines, more lines are closed if all of them together are. -/
theorem of_append (h : ClosedLines text) (hback : WholeLines back.toList)
    (hall : ClosedLines (text ++ back)) : ClosedLines back := by
  refine ⟨hback, ?_⟩
  have hdepth := hall.depth
  rwa [String.toList_append, (pieces_append_lines 0 h.lines _).2 h.depth, depthBehindPieces_append,
    h.depth] at hdepth

/-- Lines are closed if the reader is outside of brackets behind their lexemes. -/
theorem of_depthBehind {used rest : List Lexeme} (hlines : WholeLines text.toList)
    (hused : ofText (text ++ back) = used ++ rest) (hlength : used.length = (inText text).length)
    (hdepth : depthBehind 0 used = 0) : ClosedLines text := by
  refine ⟨hlines, ?_⟩
  have hpieces := map_piece_ofText (text ++ back)
  rw [hused, String.toList_append, (pieces_append_lines 0 hlines _).1, ← map_piece_inText,
    List.map_append, List.append_assoc] at hpieces
  have hsame : used.map (·.token.piece) = (inText text).map (·.token.piece) :=
    List.append_inj_left hpieces (by simp [hlength])
  rwa [← depthBehindPieces_map_piece, hsame, depthBehindPieces_map_piece,
    ← depthBehindPieces_pieces] at hdepth

end ClosedLines

end Logo
