import Logo.Proofs.Positions

/-!
# What a token takes

`Munches rules cs kind s` says, without any search, what the rules take from a text: the longest
front that one of their patterns matches, under the kind of the first rule that matches it.  The
competition of the rules finds just that (`longest_munches`), as long as a rule matches at all, and
outside as well as inside of brackets one always does (`longest_pos`).

So every token of a text is the longest one possible at its place, by the rules that the brackets
before it put into force (`Token.tokenize_munches`).
-/

namespace Logo

namespace TokenRule

open Pattern

variable {rules : List TokenRule} {kind : TokenClass} {cs s : List Char} {n : Nat}

/-- The kind is that of the first rule that matches the text. -/
def Names (rules : List TokenRule) (kind : TokenClass) (s : List Char) : Prop :=
  ∃ front rule others, rules = front ++ rule :: others ∧ rule.kind = kind ∧ Matches rule.pattern s ∧
    ∀ earlier ∈ front, ¬ Matches earlier.pattern s

/-- The text is the longest front that a rule matches, and the kind that of the first rule to match
it. -/
structure Munches (rules : List TokenRule) (cs : List Char) (kind : TokenClass) (s : List Char) :
    Prop where
  front : s <+: cs
  longest : ∀ other, other <+: cs → (∃ rule ∈ rules, Matches rule.pattern other) →
    other.length ≤ s.length
  named : Names rules kind s

/-! ## The winner of the competition -/

/-- The competition goes to the first of the rules with the longest match, unless none of them gets
further than the best one so far. -/
theorem foldl_better_cases (rules : List TokenRule) (cs : List Char) (best : TokenClass × Nat) :
    (rules.foldl (better cs) best = best ∧ ∀ rule ∈ rules, rule.pattern.munch cs ≤ best.2) ∨
      ∃ front rule others, rules = front ++ rule :: others ∧ best.2 < rule.pattern.munch cs ∧
        rules.foldl (better cs) best = (rule.kind, rule.pattern.munch cs) ∧
        ∀ earlier ∈ front, earlier.pattern.munch cs < rule.pattern.munch cs := by
  induction rules generalizing best with
  | nil => exact .inl ⟨rfl, fun rule hrule => absurd hrule List.not_mem_nil⟩
  | cons first rules ih =>
    rw [List.foldl_cons]
    by_cases hfirst : best.2 < first.pattern.munch cs
    · have hbetter : better cs best first = (first.kind, first.pattern.munch cs) := if_pos hfirst
      rw [hbetter]
      rcases ih (first.kind, first.pattern.munch cs) with
        ⟨hfold, -⟩ | ⟨front, rule, others, rfl, hlt, hfold, hfront⟩
      · exact .inr ⟨[], first, rules, rfl, hfirst, hfold, fun earlier h =>
          absurd h List.not_mem_nil⟩
      · exact .inr ⟨first :: front, rule, others, rfl, Nat.lt_trans hfirst hlt, hfold,
          List.forall_mem_cons.2 ⟨hlt, hfront⟩⟩
    · have hbetter : better cs best first = best := if_neg hfirst
      rw [hbetter]
      rcases ih best with ⟨hfold, hall⟩ | ⟨front, rule, others, rfl, hlt, hfold, hfront⟩
      · exact .inl ⟨hfold, List.forall_mem_cons.2 ⟨Nat.le_of_not_lt hfirst, hall⟩⟩
      · exact .inr ⟨first :: front, rule, others, rfl, hlt, hfold,
          List.forall_mem_cons.2 ⟨Nat.lt_of_le_of_lt (Nat.le_of_not_lt hfirst) hlt, hfront⟩⟩

/-- Where a rule matches, the competition finds what the rules take. -/
theorem longest_munches (hpos : 0 < n) (h : longest rules cs = (kind, n)) :
    Munches rules cs kind (cs.take n) := by
  have hle : n ≤ cs.length := by
    have hle := longest_le rules cs
    rwa [h] at hle
  have hlength : (cs.take n).length = n := List.length_take_of_le hle
  refine ⟨List.take_prefix n cs, ?_, ?_⟩
  · rintro other hother ⟨rule, hrule, hmatch⟩
    rw [hlength]
    by_contra hlonger
    -- The front is longer than the longest match of its rule.
    have hbound : rule.pattern.munch cs ≤ n := by
      have hbound := munch_le_longest hrule cs
      rwa [h] at hbound
    refine (munch_longest rule.pattern cs).longest other.length (by omega) hother.length_le ?_
    rwa [← List.prefix_iff_eq_take.1 hother]
  · rcases foldl_better_cases rules cs (.stray, 0) with
      ⟨hfold, -⟩ | ⟨front, rule, others, heq, hwin, hfold, hfront⟩
    · have hzero : n = 0 := congrArg Prod.snd (h.symm.trans hfold)
      omega
    · obtain ⟨hkind, hn⟩ := Prod.mk.inj (h.symm.trans hfold)
      refine ⟨front, rule, others, heq, hkind.symm, ?_, fun earlier hearlier => ?_⟩
      · rw [hn]
        exact (munch_longest rule.pattern cs).matched hwin
      · have hshorter := hfront earlier hearlier
        rw [← hn] at hshorter
        exact (munch_longest earlier.pattern cs).longest n hshorter hle

/-! ## There is always a winner -/

theorem longest_pos_of_matches {rule : TokenRule} {c : Char} (hrule : rule ∈ rules)
    (h : Matches rule.pattern [c]) (cs : List Char) : 0 < (longest rules (c :: cs)).2 := by
  have hmunch : 0 < rule.pattern.munch (c :: cs) := by
    rw [Nat.pos_iff_ne_zero]
    intro hzero
    exact (munch_longest rule.pattern (c :: cs)).longest 1 (by omega) (by simp) h
  exact Nat.lt_of_lt_of_le hmunch (munch_le_longest hrule (c :: cs))

/-- Outside of brackets, the end of a line is a newline and any other character may be stray. -/
theorem longest_code_pos (c : Char) (cs : List Char) : 0 < (longest code (c :: cs)).2 := by
  by_cases hc : c = '\n'
  · have hrule : ⟨.newline, seq (optional (one (· == '\r'))) (one (· == '\n'))⟩ ∈ code := by
      simp [code]
    refine longest_pos_of_matches hrule ?_ cs
    subst hc
    exact .seq (s := []) (.right .empty) (.one rfl)
  · have hrule : ⟨.stray, one (· != '\n')⟩ ∈ code := by simp [code]
    exact longest_pos_of_matches hrule (.one (bne_iff_ne.2 hc)) cs

/-- Inside of brackets, what is neither blank nor a bracket is part of a word. -/
theorem longest_list_pos (c : Char) (cs : List Char) : 0 < (longest list (c :: cs)).2 := by
  rcases longest_cases list (c :: cs) with hnone | ⟨rule, -, hpos, hwin⟩
  · rcases kind_of_longest_list hnone with hkind | hkind | hkind | hkind <;> cases hkind
  · rwa [hwin]

theorem longest_pos (depth : Nat) (c : Char) (cs : List Char) :
    0 < (longest (atDepth depth) (c :: cs)).2 := by
  cases depth with
  | zero => exact longest_code_pos c cs
  | succ depth => exact longest_list_pos c cs

end TokenRule

/-! ## Tokens -/

namespace Token

open TokenRule

variable {depth : Nat} {position : Position} {cs : List Char} {before after : List Token}
  {t : Token}

/-- The number of open brackets behind tokens: one more for each that opens, one less for each that
closes, and never below none. -/
def openBehind (depth : Nat) (ts : List Token) : Nat :=
  ts.foldl (fun depth t => depthAfter depth t.kind) depth

/-- Each token that is cut from a text is what the rules in force at its place take from there. -/
theorem munches_of_scan_eq (h : scan depth position cs = before ++ t :: after) :
    Munches (atDepth (openBehind depth before)) (t.text.toList ++ after.flatMap (·.text.toList))
      t.kind t.text.toList := by
  induction before generalizing depth position cs with
  | nil =>
    have hchars := flatMap_text_scan depth position cs
    rw [h, List.nil_append, List.flatMap_cons] at hchars
    rw [hchars]
    cases cs with
    | nil =>
      rw [scan] at h
      cases h
    | cons c rest =>
      obtain ⟨kind, n, hlongest⟩ : ∃ kind n, longest (atDepth depth) (c :: rest) = (kind, n) :=
        ⟨_, _, rfl⟩
      have hpos : 0 < n := by
        have hpos := longest_pos depth c rest
        rwa [hlongest] at hpos
      rw [scan] at h
      simp only [hlongest] at h
      obtain ⟨rfl, -⟩ := List.cons.inj h
      -- The first character is taken in any case, and so it is here.
      have htake : c :: rest.take (n - 1) = (c :: rest).take n := by
        obtain ⟨m, rfl⟩ : ∃ m, n = m + 1 := ⟨n - 1, by omega⟩
        rfl
      rw [String.toList_ofList, htake]
      exact longest_munches hpos hlongest
  | cons b before ih =>
    cases cs with
    | nil =>
      rw [scan] at h
      cases h
    | cons c rest =>
      rw [scan] at h
      obtain ⟨rfl, hrest⟩ := List.cons.inj h
      exact ih hrest

/-- A token that does not close the text stands among those that were cut from it. -/
theorem exists_scan_eq {text : String} (h : tokenize text false = before ++ t :: after)
    (hkind : t.kind ≠ .eof) : ∃ others, scan 0 .start text.toList = before ++ t :: others := by
  rw [tokenize_false] at h
  rcases List.eq_nil_or_concat after with rfl | ⟨others, last, rfl⟩
  · have hlast : closing (scan 0 .start text.toList) = t :=
      List.singleton_inj.1 (List.append_inj' h rfl).2
    rw [← hlast, Lexeme.kind_closing] at hkind
    exact absurd rfl hkind
  · rw [List.concat_eq_append, ← List.cons_append, ← List.append_assoc] at h
    exact ⟨others, (List.append_inj' h rfl).1⟩

/-- Every token of a text, the closing one apart, is the longest front of what is left of the text
there that a rule in force matches, and has the kind of the first rule that matches it.  The rules
for lists are in force when a bracket is open behind the tokens before it, those for code
otherwise. -/
theorem tokenize_munches (text : String) (before after : List Token) (t : Token)
    (h : tokenize text false = before ++ t :: after) (hkind : t.kind ≠ .eof) :
    ∃ ahead, text.toList = before.flatMap (·.text.toList) ++ ahead ∧
      Munches (if 0 < openBehind 0 before then TokenRule.list else TokenRule.code) ahead t.kind
        t.text.toList := by
  obtain ⟨others, hscan⟩ := exists_scan_eq h hkind
  have hchars := flatMap_text_scan 0 .start text.toList
  rw [hscan, List.flatMap_append, List.flatMap_cons] at hchars
  have hrules : atDepth (openBehind 0 before) =
      if 0 < openBehind 0 before then TokenRule.list else TokenRule.code := by
    cases openBehind 0 before with
    | zero => rfl
    | succ depth => exact (if_pos (Nat.succ_pos depth)).symm
  refine ⟨_, hchars.symm, ?_⟩
  rw [← hrules]
  exact munches_of_scan_eq hscan

/-- Below an open bracket `to==` is one word; outside of brackets it is a keyword before an
operator. -/
theorem tokenize_munches_keyword :
    tokenize "[to==]to==" false = [⟨.leftBracket, "[", ⟨1, 0⟩⟩, ⟨.symbol, "to==", ⟨1, 1⟩⟩,
        ⟨.rightBracket, "]", ⟨1, 5⟩⟩, ⟨.toWord, "to", ⟨1, 6⟩⟩, ⟨.equalEqual, "==", ⟨1, 8⟩⟩,
        ⟨.eof, "", ⟨1, 10⟩⟩] ∧
      (∃ ahead, "[to==]to==".toList = ['['] ++ ahead ∧
        Munches TokenRule.list ahead .symbol ['t', 'o', '=', '=']) ∧
      ∃ ahead, "[to==]to==".toList = ['[', 't', 'o', '=', '=', ']'] ++ ahead ∧
        Munches TokenRule.code ahead .toWord ['t', 'o'] := by
  have htokens : tokenize "[to==]to==" false = [⟨.leftBracket, "[", ⟨1, 0⟩⟩,
      ⟨.symbol, "to==", ⟨1, 1⟩⟩, ⟨.rightBracket, "]", ⟨1, 5⟩⟩, ⟨.toWord, "to", ⟨1, 6⟩⟩,
      ⟨.equalEqual, "==", ⟨1, 8⟩⟩, ⟨.eof, "", ⟨1, 10⟩⟩] := by
    rw [tokenize_false, scan_eq_scanUpTo (Nat.le_refl _)]
    decide +kernel
  exact ⟨htokens, tokenize_munches _ [_] _ _ htokens (by decide),
    tokenize_munches _ [_, _, _] _ _ htokens (by decide)⟩

end Token

end Logo
