import Logo.Proofs.LongestMatch
import Logo.Token.Lexer

/-!
# Texts in pieces

A piece is a token without its place.  The pieces of a text do not depend on where the text starts,
so they can be put together: if a longest match takes the front of a text, the pieces are the front
and the pieces of what is left (`pieces_append_of_longest`).

Inside brackets the pieces are brackets, blanks and words; a word reaches up to the next blank or
bracket.  In code the rules are many, but none of them, that for comments apart, goes past a blank,
a bracket or a parenthesis (`endsWord_tail`).  So the pieces of a word are the same whatever follows
it (`pieces_word_append`).
-/

namespace Logo

/-- A token without its place. -/
structure Piece where
  kind : TokenClass
  text : String
deriving DecidableEq, Repr

/-! ## What ends a word -/

namespace Text

/-- The codes of the characters that separate words. -/
def blankCodes : List Nat :=
  [9, 10, 11, 12, 13, 0x20, 0x85, 0xa0, 0x1680, 0x2000, 0x2001, 0x2002, 0x2003, 0x2004, 0x2005,
    0x2006, 0x2007, 0x2008, 0x2009, 0x200a, 0x2028, 0x2029, 0x202f, 0x205f, 0x3000]

theorem isBlank_iff_mem {c : Char} : isBlank c = true ↔ c.toNat ∈ blankCodes := by
  simp only [isBlank, blankCodes, Bool.or_eq_true, Bool.and_eq_true, decide_eq_true_eq, beq_iff_eq,
    List.mem_cons, List.not_mem_nil, or_false]
  omega

end Text

namespace TokenRule

open Pattern

variable {c d : Char} {s t cs rest : List Char}

/-- The characters that end every word of a program. -/
def wordEnds : List Char :=
  Text.blankCodes.map Char.ofNat ++ ['[', ']', '(', ')']

/-- Characters that end words are blank, or one of a few. -/
theorem mem_wordEnds_of_endsWord (h : endsWord d = true) : d ∈ wordEnds := by
  simp only [endsWord, Bool.or_eq_true, beq_iff_eq, Text.isBlank_iff_mem] at h
  rw [wordEnds, List.mem_append]
  rcases h with (((h | h) | h) | h) | h
  · exact .inl (List.mem_map.2 ⟨d.toNat, h, Char.ofNat_toNat d⟩)
  all_goals
    subst h
    exact .inr (by decide)

/-- What holds of the characters in the list holds of each one that ends words. -/
theorem of_endsWord {q : Char → Bool} (hall : wordEnds.all q = true) (h : endsWord d = true) :
    q d = true :=
  List.all_eq_true.1 hall d (mem_wordEnds_of_endsWord h)

theorem endsWord_of_endsListWord (h : endsListWord c = true) : endsWord c = true := by
  simp only [endsListWord, Bool.or_eq_true] at h
  simp only [endsWord, Bool.or_eq_true]
  exact .inl (.inl h)

theorem endsWord_of_isBlank (h : Text.isBlank c = true) : endsWord c = true := by
  simp only [endsWord, h, Bool.true_or]

/-- Whether no text of the rule holds a character that ends words. -/
def isConfined (rule : TokenRule) : Bool :=
  wordEnds.all fun d => !rule.pattern.mayContain d

theorem filter_not_isConfined_code : code.filter (!·.isConfined) = [
    ⟨.leftBracket, text ['[']⟩, ⟨.rightBracket, text [']']⟩, ⟨.leftParen, text ['(']⟩,
    ⟨.rightParen, text [')']⟩, ⟨.newline, seq (optional (one (· == '\r'))) (one (· == '\n'))⟩,
    ⟨.comment, seq (one (· == ';')) (many (one (· != '\n')))⟩,
    ⟨.blank, oneOrMore fun c => c == ' ' || c == '\t' || c == '\r'⟩, ⟨.stray, one (· != '\n')⟩] :=
  rfl

/-- Behind its first character, a token of code holds nothing that ends words, unless it is a
comment or starts with a blank. -/
theorem endsWord_tail {rule : TokenRule} (hrule : rule ∈ code) (hcomment : c ≠ ';')
    (hblank : Text.isBlank c = false) (h : Matches rule.pattern (c :: t)) :
    ∀ d ∈ t, endsWord d = false := by
  cases hconfined : rule.isConfined with
  | true =>
    intro d hd
    rw [← Bool.not_eq_true]
    intro hends
    have hcontain := h.mayContain d (List.mem_cons_of_mem _ hd)
    have hnot := of_endsWord hconfined hends
    rw [hcontain] at hnot
    exact Bool.false_ne_true hnot
  | false =>
    have hsingle : ∀ {q : Char → Bool}, Matches (one q) (c :: t) → ∀ d ∈ t, endsWord d = false := by
      intro q hq
      obtain ⟨_, heq, -⟩ := matches_one_iff.1 hq
      cases heq
      exact fun d hd => absurd hd List.not_mem_nil
    have hmem : rule ∈ code.filter (!·.isConfined) :=
      List.mem_filter.2 ⟨hrule, by rw [hconfined]; rfl⟩
    rw [filter_not_isConfined_code] at hmem
    simp only [List.mem_cons, List.not_mem_nil, or_false] at hmem
    rcases hmem with rfl | rfl | rfl | rfl | rfl | rfl | rfl | rfl
    · exact hsingle h
    · exact hsingle h
    · exact hsingle h
    · exact hsingle h
    · -- A newline starts with a blank.
      have hstart : c = '\r' ∨ c = '\n' := by
        simpa [Pattern.mayContain, Pattern.optional] using h.mayContain c List.mem_cons_self
      rcases hstart with rfl | rfl <;> exact absurd hblank (by decide)
    · -- Only a comment starts with a semicolon.
      obtain ⟨s₁, s₂, heq, h₁, -⟩ := matches_seq_iff.1 h
      obtain ⟨d, rfl, hd⟩ := matches_one_iff.1 h₁
      cases heq
      exact absurd (beq_iff_eq.1 hd) hcomment
    · have hstart := (matches_oneOrMore_iff.1 h).2 c List.mem_cons_self
      simp only [Bool.or_eq_true, beq_iff_eq] at hstart
      rcases hstart with (rfl | rfl) | rfl <;> exact absurd hblank (by decide)
    · exact hsingle h

/-- What follows a token of code is cut off by a blank, a bracket or a parenthesis. -/
theorem longest_code_append (hcomment : c ≠ ';') (hblank : Text.isBlank c = false)
    (hrest : ∀ d, rest.head? = some d → endsWord d = true) :
    longest code (c :: (s ++ rest)) = longest code (c :: s) :=
  longest_congr fun _ hrule =>
    munch_append (fun _ h => endsWord_tail hrule hcomment hblank h) hrest

/-- The text is one token of code, neither blank nor a comment. -/
structure WholeToken (kind : TokenClass) (c : Char) (s : List Char) : Prop where
  not_comment : c ≠ ';'
  not_blank : Text.isBlank c = false
  longest_eq : longest code (c :: s) = (kind, s.length + 1)

/-- A whole token holds no newline. -/
theorem WholeToken.newline_notMem {kind : TokenClass} (h : WholeToken kind c s) :
    '\n' ∉ c :: s := by
  have hlongest := h.longest_eq
  rcases longest_cases code (c :: s) with hnone | ⟨rule, hmem, hpos, hwin⟩
  · have hzero : s.length + 1 = 0 := congrArg Prod.snd (hlongest.symm.trans hnone)
    exact absurd hzero (Nat.succ_ne_zero _)
  · have hlen : s.length + 1 = rule.pattern.munch (c :: s) :=
      congrArg Prod.snd (hlongest.symm.trans hwin)
    have hmatched := (munch_longest rule.pattern (c :: s)).matched hpos
    rw [← hlen, List.take_succ_cons, List.take_length] at hmatched
    rw [List.mem_cons, not_or]
    refine ⟨?_, fun hin => ?_⟩
    · rintro rfl
      exact absurd h.not_blank (by decide)
    · exact absurd (endsWord_tail hmem h.not_comment h.not_blank hmatched _ hin) (by decide)

/-! ## Tokens by their first character -/

/-- A mark that starts no longer token is a token. -/
theorem longest_of_mark {kind : TokenClass}
    (hrules : starting c code = [⟨kind, text [c]⟩, ⟨.stray, one (· != '\n')⟩]) :
    longest code (c :: rest) = (kind, 1) := by
  have hmunch : (text [c]).munch (c :: rest) = 1 := by
    rw [text, munch_one, beq_self_eq_true, if_pos rfl]
  rw [longest_starting, hrules]
  simp only [longest, List.foldl_cons, List.foldl_nil, hmunch, munch_one, if_pos Nat.one_pos]
  rw [if_neg]
  split <;> omega

theorem munch_newline_of_head (h : ∀ c, cs.head? = some c → c ≠ '\n') :
    (seq (optional (one (· == '\r'))) (one (· == '\n'))).munch ('\r' :: cs) = 0 := by
  cases cs with
  | nil => rfl
  | cons c cs =>
    have hc : (c == '\n') = false := beq_eq_false_iff_ne.2 (h c rfl)
    show (one (· == '\n')).munchFrom 1 0 (c :: cs) = 0
    rw [munchFrom, after, hc]
    rfl

/-- A blank of program text, other than the end of a line. -/
def isCodeBlank (c : Char) : Bool :=
  c == ' ' || c == '\t' || c == '\r'

theorem not_isCodeBlank (h : Text.isBlank c = false) : isCodeBlank c = false ∧ c ≠ '\n' := by
  refine ⟨?_, ?_⟩
  · rw [← Bool.not_eq_true]
    intro hblank
    simp only [isCodeBlank, Bool.or_eq_true, beq_iff_eq] at hblank
    rcases hblank with (rfl | rfl) | rfl <;> exact absurd h (by decide)
  · rintro rfl
    exact absurd h (by decide)

/-- Blanks of program text form one token, unless a line ends behind them. -/
theorem longest_code_blank (hs : s ≠ []) (hall : ∀ c ∈ s, isCodeBlank c = true)
    (hrest : ∀ c, rest.head? = some c → isCodeBlank c = false ∧ c ≠ '\n') :
    longest code (s ++ rest) = (.blank, s.length) := by
  have hmunch : (oneOrMore isCodeBlank).munch (s ++ rest) = s.length :=
    munch_oneOrMore hs hall fun c hc => (hrest c hc).1
  obtain ⟨c, s, rfl⟩ : ∃ c t, s = c :: t := List.exists_cons_of_ne_nil hs
  rw [List.cons_append] at hmunch ⊢
  rw [longest_starting]
  have hc := hall c List.mem_cons_self
  simp only [isCodeBlank, Bool.or_eq_true, beq_iff_eq] at hc
  have hpos : 0 < s.length + 1 := Nat.succ_pos _
  rcases hc with (rfl | rfl) | rfl
  · have hrules : starting ' ' code =
        [⟨.blank, oneOrMore isCodeBlank⟩, ⟨.stray, one (· != '\n')⟩] := rfl
    simp [hrules, longest, hmunch, munch_one]
  · have hrules : starting '\t' code =
        [⟨.blank, oneOrMore isCodeBlank⟩, ⟨.stray, one (· != '\n')⟩] := rfl
    simp [hrules, longest, hmunch, munch_one]
  · -- A carriage return may start a newline, but no line ends here.
    have hnewline :
        (seq (optional (one (· == '\r'))) (one (· == '\n'))).munch ('\r' :: (s ++ rest)) = 0 := by
      refine munch_newline_of_head ?_
      cases s with
      | nil => exact fun c hc => (hrest c hc).2
      | cons d s =>
        rintro c ⟨⟩ rfl
        exact absurd (hall '\n' (by simp)) (by decide)
    have hrules : starting '\r' code = [
        ⟨.newline, seq (optional (one (· == '\r'))) (one (· == '\n'))⟩,
        ⟨.blank, oneOrMore isCodeBlank⟩, ⟨.stray, one (· != '\n')⟩] := rfl
    simp [hrules, longest, hmunch, hnewline, munch_one]

/-- Some kinds of tokens in code tell their first character. -/
theorem head_of_longest_code {kind : TokenClass} {n : Nat}
    (h : longest code (c :: cs) = (kind, n)) :
    (kind = .leftBracket → c = '[') ∧ (kind = .minus → c = '-') ∧
      (kind = .number → c.isDigit = true) := by
  refine ⟨?_, ?_, ?_⟩
  · rintro rfl
    have ht := matches_of_longest rfl (by decide) h
    exact (List.cons.inj (matches_text_iff.1 ht)).1
  · rintro rfl
    have ht := matches_of_longest rfl (by decide) h
    exact (List.cons.inj (matches_text_iff.1 ht)).1
  · rintro rfl
    have ht := matches_of_longest rfl (by decide) h
    obtain ⟨s₁, s₂, heq, hdigits, -⟩ := matches_seq_iff.1 ht
    obtain ⟨hne, hall⟩ := matches_oneOrMore_iff.1 hdigits
    obtain ⟨d, s₁, rfl⟩ := List.exists_cons_of_ne_nil hne
    rw [(List.cons.inj heq).1]
    exact hall d List.mem_cons_self

/-- From a semicolon on the lexer takes a comment, or what cannot be read. -/
theorem kind_of_longest_semicolon {kind : TokenClass} {n : Nat}
    (h : longest code (';' :: cs) = (kind, n)) : kind = .comment ∨ kind = .stray := by
  have hrules : starting ';' code =
      [⟨.comment, seq (one (· == ';')) (many (one (· != '\n')))⟩, ⟨.stray, one (· != '\n')⟩] := rfl
  rw [longest_starting, hrules] at h
  rcases longest_cases
    [⟨.comment, seq (one (· == ';')) (many (one (· != '\n')))⟩, ⟨.stray, one (· != '\n')⟩]
    (';' :: cs) with hnone | ⟨rule, hmem, -, hwin⟩
  · exact .inr (congrArg Prod.fst (h.symm.trans hnone))
  · have hkind : kind = rule.kind := congrArg Prod.fst (h.symm.trans hwin)
    simp only [List.mem_cons, List.not_mem_nil, or_false] at hmem
    rcases hmem with rfl | rfl
    · exact .inl hkind
    · exact .inr hkind

theorem kind_of_longest_blank {kind : TokenClass} {n : Nat} (h : longest code (c :: cs) = (kind, n))
    (hblank : Text.isBlank c = true) : kind = .newline ∨ kind = .blank ∨ kind = .stray := by
  rcases longest_cases code (c :: cs) with hnone | ⟨rule, hmem, hpos, hwin⟩
  · exact .inr (.inr (congrArg Prod.fst (h.symm.trans hnone)))
  · have hkind : kind = rule.kind := congrArg Prod.fst (h.symm.trans hwin)
    have hmatched := (munch_longest rule.pattern (c :: cs)).matched hpos
    obtain ⟨m, hm⟩ : ∃ m, rule.pattern.munch (c :: cs) = m + 1 :=
      ⟨_, (Nat.succ_pred_eq_of_pos hpos).symm⟩
    rw [hm, List.take_succ_cons] at hmatched
    have hcontain := hmatched.mayContain c List.mem_cons_self
    have hloose : rule ∈ code.filter (!·.isConfined) := by
      refine List.mem_filter.2 ⟨hmem, ?_⟩
      rw [Bool.not_eq_true', ← Bool.not_eq_true]
      intro hconfined
      have hnot := of_endsWord hconfined (endsWord_of_isBlank hblank)
      rw [hcontain] at hnot
      cases hnot
    rw [filter_not_isConfined_code] at hloose
    simp only [List.mem_cons, List.not_mem_nil, or_false] at hloose
    rcases hloose with rfl | rfl | rfl | rfl | rfl | rfl | rfl | rfl
    any_goals
      rw [eq_of_beq hcontain] at hblank
      exact absurd hblank (by decide)
    · exact .inl hkind
    · -- Only a comment starts with a semicolon.
      obtain ⟨s₁, s₂, heq, h₁, -⟩ := matches_seq_iff.1 hmatched
      obtain ⟨d, rfl, hd⟩ := matches_one_iff.1 h₁
      rw [(List.cons.inj heq).1, eq_of_beq hd] at hblank
      exact absurd hblank (by decide)
    · exact .inr (.inl hkind)
    · exact .inr (.inr hkind)

/-- A token of code that is neither idle nor stray nor a newline is a token by itself. -/
theorem wholeToken_of_longest {kind : TokenClass} {n : Nat} (h : longest code (c :: cs) = (kind, n))
    (hblank : kind ≠ .blank) (hcomment : kind ≠ .comment) :
    kind = .newline ∨ kind = .stray ∨ WholeToken kind c (cs.take (n - 1)) := by
  by_cases hnewline : kind = .newline
  · exact .inl hnewline
  by_cases hstray : kind = .stray
  · exact .inr (.inl hstray)
  refine .inr (.inr ⟨?_, ?_, ?_⟩)
  · rintro rfl
    rcases kind_of_longest_semicolon h with hkind | hkind
    · exact hcomment hkind
    · exact hstray hkind
  · rw [← Bool.not_eq_true]
    intro hc
    rcases kind_of_longest_blank h hc with hkind | hkind | hkind
    · exact hnewline hkind
    · exact hblank hkind
    · exact hstray hkind
  · have hpos : 0 < n := by
      rcases longest_cases code (c :: cs) with hnone | ⟨rule, -, hpos, hwin⟩
      · exact absurd (congrArg Prod.fst (h.symm.trans hnone)) hstray
      · have hn : n = rule.pattern.munch (c :: cs) := congrArg Prod.snd (h.symm.trans hwin)
        rwa [hn]
    have hle := longest_le code (c :: cs)
    rw [h, List.length_cons] at hle
    have hlength : (c :: cs.take (n - 1)).length = n := by
      rw [List.length_cons, List.length_take]
      omega
    have hsplit : c :: cs.take (n - 1) ++ cs.drop (n - 1) = c :: cs := by
      rw [List.cons_append, List.take_append_drop]
    have hfront : longest code (c :: cs.take (n - 1) ++ cs.drop (n - 1)) =
        (kind, (c :: cs.take (n - 1)).length) := by
      rw [hsplit, hlength, h]
    exact longest_of_append hfront

theorem longest_list_leftBracket : longest list ('[' :: rest) = (.leftBracket, 1) := by
  have hrules : starting '[' list = [⟨.leftBracket, text ['[']⟩] := rfl
  rw [longest_starting, hrules]
  simp [longest, text, munch_one]

theorem longest_list_rightBracket : longest list (']' :: rest) = (.rightBracket, 1) := by
  have hrules : starting ']' list = [⟨.rightBracket, text [']']⟩] := rfl
  rw [longest_starting, hrules]
  simp [longest, text, munch_one]

/-- Inside brackets, all blanks that follow each other form one token. -/
theorem longest_list_blank (hs : s ≠ []) (hall : ∀ c ∈ s, Text.isBlank c = true)
    (hrest : ∀ c, rest.head? = some c → Text.isBlank c = false) :
    longest list (s ++ rest) = (.blank, s.length) := by
  have hmunch : (oneOrMore Text.isBlank).munch (s ++ rest) = s.length :=
    munch_oneOrMore hs hall hrest
  obtain ⟨c, s, rfl⟩ : ∃ c t, s = c :: t := List.exists_cons_of_ne_nil hs
  have hc := hall c List.mem_cons_self
  have hleft : (c == '[') = false :=
    beq_eq_false_iff_ne.2 (by rintro rfl; exact absurd hc (by decide))
  have hright : (c == ']') = false :=
    beq_eq_false_iff_ne.2 (by rintro rfl; exact absurd hc (by decide))
  have hword : (oneOrMore (!endsListWord ·)).munch (c :: (s ++ rest)) = 0 :=
    munch_oneOrMore_of_head (by simp [endsListWord, hc])
  rw [List.cons_append] at hmunch ⊢
  simp [longest, list, text, munch_one, hleft, hright, hmunch, hword]

/-- The characters make up one word inside brackets. -/
structure IsListWord (w : List Char) : Prop where
  ne_nil : w ≠ []
  solid : ∀ c ∈ w, endsListWord c = false

theorem isListWord_iff : IsListWord s ↔ s ≠ [] ∧ (s.all fun c => !endsListWord c) = true := by
  simp only [List.all_eq_true, Bool.not_eq_true']
  exact ⟨fun h => ⟨h.ne_nil, h.solid⟩, fun h => ⟨h.1, h.2⟩⟩

instance : Decidable (IsListWord s) :=
  decidable_of_iff' _ isListWord_iff

/-- Inside brackets, a word reaches up to the next blank or bracket. -/
theorem longest_list_word (hw : IsListWord s)
    (hrest : ∀ c, rest.head? = some c → endsListWord c = true) :
    longest list (s ++ rest) = (.symbol, s.length) := by
  have hmunch : (oneOrMore (!endsListWord ·)).munch (s ++ rest) = s.length := by
    refine munch_oneOrMore hw.ne_nil (fun c hc => ?_) (fun c hc => ?_)
    · rw [hw.solid c hc]
      rfl
    · rw [hrest c hc]
      rfl
  obtain ⟨c, s, rfl⟩ : ∃ c t, s = c :: t := List.exists_cons_of_ne_nil hw.ne_nil
  have hc := hw.solid c List.mem_cons_self
  simp only [endsListWord, Bool.or_eq_false_iff] at hc
  rw [List.cons_append] at hmunch ⊢
  simp [longest, list, text, munch_one, hc, hmunch, munch_oneOrMore_of_head hc.1.1]

end TokenRule

/-! ## The pieces of a text -/

namespace Token

open TokenRule

variable {depth n : Nat} {kind : TokenClass} {c : Char} {s cs rest : List Char}

/-- The token without its place. -/
def piece (t : Token) : Piece := ⟨t.kind, t.text⟩

/-- The pieces of a text below a number of open brackets. -/
def pieces (depth : Nat) (cs : List Char) : List Piece :=
  (scan depth .start cs).map piece

theorem map_piece_scan (depth : Nat) (position : Position) (cs : List Char) :
    (scan depth position cs).map piece = pieces depth cs := by
  have hany : ∀ other, (scan depth position cs).map piece = (scan depth other cs).map piece := by
    fun_induction scan depth position cs with
    | case1 =>
      intro other
      rw [scan]
    | case2 depth position c rest kind length hlongest text ih =>
      intro other
      rw [scan.eq_def depth other, List.map_cons]
      simp only [hlongest, List.map_cons]
      rw [ih]
      rfl
  exact hany .start

@[simp] theorem pieces_nil : pieces depth [] = [] := by
  rw [pieces, scan, List.map_nil]

/-- Pieces are cut one after the other, each at the depth that those before it leave. -/
theorem pieces_cons (depth : Nat) (h : longest (atDepth depth) (c :: cs) = (kind, n)) :
    pieces depth (c :: cs) =
      ⟨kind, String.ofList (c :: cs.take (n - 1))⟩ ::
        pieces (depthAfter depth kind) (cs.drop (n - 1)) := by
  rw [pieces, scan]
  simp only [h, List.map_cons, map_piece_scan]
  rfl

/-- A longest match at the front is the first piece. -/
theorem pieces_append_of_longest (hs : s ≠ [])
    (h : longest (atDepth depth) (s ++ rest) = (kind, s.length)) :
    pieces depth (s ++ rest) = ⟨kind, String.ofList s⟩ :: pieces (depthAfter depth kind) rest := by
  obtain ⟨c, s, rfl⟩ : ∃ c t, s = c :: t := List.exists_cons_of_ne_nil hs
  rw [List.cons_append] at h ⊢
  rw [pieces_cons depth h, List.length_cons, Nat.add_sub_cancel, List.take_left, List.drop_left]

/-! ### Inside brackets -/

theorem pieces_list_leftBracket :
    pieces (depth + 1) ('[' :: rest) = ⟨.leftBracket, "["⟩ :: pieces (depth + 2) rest :=
  pieces_append_of_longest (List.cons_ne_nil '[' []) longest_list_leftBracket

theorem pieces_list_rightBracket :
    pieces (depth + 1) (']' :: rest) = ⟨.rightBracket, "]"⟩ :: pieces depth rest :=
  pieces_append_of_longest (List.cons_ne_nil ']' []) longest_list_rightBracket

/-- In brackets a word is cut up to a bracket, a blank or the end. -/
theorem pieces_list_word (hw : IsListWord s)
    (hrest : ∀ c, rest.head? = some c → endsListWord c = true) :
    pieces (depth + 1) (s ++ rest) = ⟨.symbol, String.ofList s⟩ :: pieces (depth + 1) rest :=
  pieces_append_of_longest hw.ne_nil (longest_list_word hw hrest)

theorem pieces_list_blank (hs : s ≠ []) (hall : ∀ c ∈ s, Text.isBlank c = true)
    (hrest : ∀ c, rest.head? = some c → Text.isBlank c = false) :
    pieces (depth + 1) (s ++ rest) = ⟨.blank, String.ofList s⟩ :: pieces (depth + 1) rest :=
  pieces_append_of_longest hs (longest_list_blank hs hall hrest)

/-! ### In code -/

theorem pieces_code_leftBracket :
    pieces 0 ('[' :: rest) = ⟨.leftBracket, "["⟩ :: pieces 1 rest :=
  pieces_append_of_longest (List.cons_ne_nil '[' []) (longest_of_mark rfl)

theorem pieces_code_leftParen :
    pieces 0 ('(' :: rest) = ⟨.leftParen, "("⟩ :: pieces 0 rest :=
  pieces_append_of_longest (List.cons_ne_nil '(' []) (longest_of_mark rfl)

theorem pieces_code_rightParen :
    pieces 0 (')' :: rest) = ⟨.rightParen, ")"⟩ :: pieces 0 rest :=
  pieces_append_of_longest (List.cons_ne_nil ')' []) (longest_of_mark rfl)

theorem pieces_code_minus : pieces 0 ('-' :: rest) = ⟨.minus, "-"⟩ :: pieces 0 rest :=
  pieces_append_of_longest (List.cons_ne_nil '-' []) (longest_of_mark rfl)

/-- Outside of brackets blanks in a line are one piece. -/
theorem pieces_code_blank (hs : s ≠ []) (hall : ∀ c ∈ s, isCodeBlank c = true)
    (hrest : ∀ c, rest.head? = some c → isCodeBlank c = false ∧ c ≠ '\n') :
    pieces 0 (s ++ rest) = ⟨.blank, String.ofList s⟩ :: pieces 0 rest :=
  pieces_append_of_longest hs (longest_code_blank hs hall hrest)

/-- A space before what is not blank is a piece of its own, in code and inside brackets. -/
theorem pieces_space (h : ∀ c, rest.head? = some c → Text.isBlank c = false) :
    pieces depth (' ' :: rest) = ⟨.blank, " "⟩ :: pieces depth rest := by
  cases depth with
  | zero =>
    exact pieces_code_blank (List.cons_ne_nil ' ' []) (List.forall_mem_singleton.2 rfl) fun c hc =>
      not_isCodeBlank (h c hc)
  | succ depth =>
    exact pieces_list_blank (List.cons_ne_nil ' ' []) (List.forall_mem_singleton.2 rfl) h

theorem head_pieces {p : Piece} (h : (pieces 0 (c :: cs)).head? = some p) :
    (p.kind = .minus → c = '-') ∧ (p.kind = .number → c.isDigit = true) := by
  obtain ⟨kind, n, hlongest⟩ : ∃ kind n, longest code (c :: cs) = (kind, n) := ⟨_, _, rfl⟩
  rw [pieces_cons 0 hlongest] at h
  cases h
  exact (head_of_longest_code hlongest).2

/-- A token that takes a whole word by itself takes it before whatever ends words. -/
theorem pieces_code_token (h : WholeToken kind c s)
    (hrest : ∀ d, rest.head? = some d → endsWord d = true) :
    pieces 0 (c :: (s ++ rest)) =
      ⟨kind, String.ofList (c :: s)⟩ :: pieces (depthAfter 0 kind) rest := by
  have hlongest := h.longest_eq
  rw [← longest_code_append h.not_comment h.not_blank hrest] at hlongest
  exact pieces_append_of_longest (List.cons_ne_nil c s) hlongest

/-- The pieces of a word without a comment are the same whatever follows it. -/
theorem pieces_word_append (hword : ∀ c ∈ s, endsListWord c = false ∧ c ≠ ';')
    (hrest : ∀ c, rest.head? = some c → endsListWord c = true) :
    pieces 0 (s ++ rest) = pieces 0 s ++ pieces 0 rest := by
  -- The induction is on the length, because a token may take several characters.
  induction hlen : s.length using Nat.strongRecOn generalizing s with
  | ind len ih =>
    cases s with
    | nil => simp
    | cons c s =>
      obtain ⟨hc, hcomment⟩ := hword c List.mem_cons_self
      have hblank : Text.isBlank c = false := by
        simp only [endsListWord, Bool.or_eq_false_iff] at hc
        exact hc.1.1
      have happend : longest code (c :: (s ++ rest)) = longest code (c :: s) :=
        longest_code_append hcomment hblank fun d hd => endsWord_of_endsListWord (hrest d hd)
      obtain ⟨kind, n, hlongest⟩ : ∃ kind n, longest code (c :: s) = (kind, n) := ⟨_, _, rfl⟩
      rw [hlongest] at happend
      -- No bracket is among the characters, so the tokens stay in code.
      have hdepth : depthAfter 0 kind = 0 := by
        have hbracket : kind ≠ .leftBracket := by
          intro hkind
          have hleft := (head_of_longest_code hlongest).1 hkind
          rw [hleft] at hc
          exact absurd hc (by decide)
        cases kind with
        | leftBracket => exact absurd rfl hbracket
        | _ => rfl
      have hle : n - 1 ≤ s.length := by
        have := longest_le code (c :: s)
        rw [hlongest, List.length_cons] at this
        omega
      rw [List.cons_append, pieces_cons 0 happend, pieces_cons 0 hlongest, hdepth,
        List.take_append_of_le_length hle, List.drop_append_of_le_length hle, List.cons_append]
      congr 1
      refine ih (s.drop (n - 1)).length ?_ (fun d hd => ?_) rfl
      · rw [← hlen, List.length_drop, List.length_cons]
        omega
      · exact hword d (List.mem_cons_of_mem _ (List.mem_of_mem_drop hd))

end Token

end Logo
