import Logo.Token.Rule

/-!
# Longest matches

`LongestMatch p cs n` says that the first `n` characters of `cs` are the longest prefix that the
pattern matches, zero standing for none.  The derivatives find just that (`munch_eq_iff`).

Two consequences carry the theory of tokens.  A rule takes part in the competition of `longest` only
if its pattern can go on after the first character (`longest_starting`), so for a given first
character few rules are left.  And a match ends before a character that the pattern cannot contain
(`munch_append`), so what comes behind a word does not change the tokens in it.
-/

namespace Logo

namespace Pattern

variable {p : Pattern} {q : Char → Bool} {c : Char} {s cs rest : List Char} {n : Nat}

/-! ## What patterns match -/

theorem matches_one_iff : Matches (one q) s ↔ ∃ c, s = [c] ∧ q c = true := by
  constructor
  · rintro (_ | h)
    exact ⟨_, rfl, h⟩
  · rintro ⟨c, rfl, h⟩
    exact .one h

theorem matches_many_one_iff : Matches (many (one q)) s ↔ ∀ c ∈ s, q c = true := by
  induction s with
  | nil =>
    refine ⟨fun _ c hc => ?_, fun _ => .manyNil⟩
    cases hc
  | cons c s ih =>
    rw [matches_many_cons_iff, List.forall_mem_cons, ← ih]
    constructor
    · rintro ⟨s₁, s₂, rfl, h₁, h₂⟩
      obtain ⟨d, hd, hq⟩ := matches_one_iff.1 h₁
      cases hd
      exact ⟨hq, h₂⟩
    · rintro ⟨hq, h⟩
      exact ⟨[], s, rfl, .one hq, h⟩

theorem matches_oneOrMore_iff : Matches (oneOrMore q) s ↔ s ≠ [] ∧ ∀ c ∈ s, q c = true := by
  rw [oneOrMore, matches_seq_iff]
  constructor
  · rintro ⟨s₁, s₂, rfl, h₁, h₂⟩
    obtain ⟨d, rfl, hq⟩ := matches_one_iff.1 h₁
    refine ⟨List.cons_ne_nil _ _, List.forall_mem_cons.2 ⟨hq, ?_⟩⟩
    exact matches_many_one_iff.1 h₂
  · rintro ⟨hne, h⟩
    cases s with
    | nil => exact absurd rfl hne
    | cons d s =>
      rw [List.forall_mem_cons] at h
      exact ⟨[d], s, rfl, .one h.1, matches_many_one_iff.2 h.2⟩

theorem matches_text_iff {t : List Char} : Matches (text t) s ↔ s = t := by
  induction t generalizing s with
  | nil => exact matches_empty_iff
  | cons c t ih =>
    have hone : ∀ {u}, Matches (one (· == c)) u ↔ u = [c] := by
      intro u
      rw [matches_one_iff]
      constructor
      · rintro ⟨d, rfl, h⟩
        rw [beq_iff_eq.1 h]
      · rintro rfl
        exact ⟨c, rfl, beq_self_eq_true c⟩
    cases t with
    | nil => exact hone
    | cons d t =>
      show Matches (seq (one (· == c)) (text (d :: t))) s ↔ s = c :: d :: t
      rw [matches_seq_iff]
      constructor
      · rintro ⟨s₁, s₂, rfl, h₁, h₂⟩
        rw [hone.1 h₁, ih.1 h₂]
        rfl
      · rintro rfl
        exact ⟨[c], d :: t, rfl, hone.2 rfl, ih.2 rfl⟩

/-- Whether a character can occur in a text of the pattern; a pattern that matches nothing may have
characters all the same. -/
def mayContain (d : Char) : Pattern → Bool
  | never => false
  | empty => false
  | one q => q d
  | seq a b => a.mayContain d || b.mayContain d
  | either a b => a.mayContain d || b.mayContain d
  | many a => a.mayContain d

theorem Matches.mayContain (h : Matches p s) : ∀ d ∈ s, p.mayContain d = true := by
  induction h with
  | empty => exact fun d hd => absurd hd List.not_mem_nil
  | one hq =>
    intro d hd
    rwa [List.mem_singleton.1 hd]
  | seq _ _ ihs iht =>
    intro d hd
    rw [Pattern.mayContain, Bool.or_eq_true]
    exact (List.mem_append.1 hd).imp (ihs d) (iht d)
  | left _ ih => exact fun d hd => Bool.or_eq_true _ _ ▸ .inl (ih d hd)
  | right _ ih => exact fun d hd => Bool.or_eq_true _ _ ▸ .inr (ih d hd)
  | manyNil => exact fun d hd => absurd hd List.not_mem_nil
  | manyCons _ _ ihs iht => exact fun d hd => (List.mem_append.1 hd).elim (ihs d) (iht d)

/-! ## The longest match -/

/-- The first `n` characters are the longest prefix that the pattern matches, or there is none and
`n` is zero. -/
structure LongestMatch (p : Pattern) (cs : List Char) (n : Nat) : Prop where
  within : n ≤ cs.length
  matched : 0 < n → Matches p (cs.take n)
  longest : ∀ m, n < m → m ≤ cs.length → ¬ Matches p (cs.take m)

theorem LongestMatch.unique {m : Nat} (hn : LongestMatch p cs n) (hm : LongestMatch p cs m) :
    n = m := by
  rcases Nat.lt_trichotomy n m with hlt | heq | hlt
  · exact absurd (hm.matched (by omega)) (hn.longest m hlt hm.within)
  · exact heq
  · exact absurd (hn.matched (by omega)) (hm.longest n hlt hn.within)

/-- What a search finds that has read some characters already: a longer match if there is one,
otherwise the best one so far. -/
theorem munchFrom_cases (p : Pattern) (read best : Nat) (cs : List Char) :
    (p.munchFrom read best cs = best ∧ ∀ k, 0 < k → k ≤ cs.length → ¬ Matches p (cs.take k)) ∨
      ∃ k, 0 < k ∧ LongestMatch p cs k ∧ p.munchFrom read best cs = read + k := by
  induction cs generalizing p read best with
  | nil =>
    refine .inl ⟨rfl, fun k hpos hle => ?_⟩
    exact absurd hpos (by simpa using hle)
  | cons c cs ih =>
    -- A prefix of `c :: cs` matches when the rest of it matches the derivative.
    have hstep : ∀ k, Matches p ((c :: cs).take (k + 1)) ↔ Matches (p.after c) (cs.take k) := by
      intro k
      rw [List.take_succ_cons, matches_after_iff]
    have hshift : ∀ k, LongestMatch (p.after c) cs k → (0 < k ∨ Matches (p.after c) []) →
        LongestMatch p (c :: cs) (k + 1) := by
      intro k h hmatched
      refine ⟨Nat.succ_le_succ h.within, fun _ => (hstep k).2 ?_, fun m hlt hle => ?_⟩
      · rcases Nat.eq_zero_or_pos k with rfl | hpos
        · exact hmatched.resolve_left (Nat.lt_irrefl 0)
        · exact h.matched hpos
      · obtain ⟨m, rfl⟩ : ∃ m', m = m' + 1 := ⟨m - 1, by omega⟩
        rw [hstep]
        exact h.longest m (by omega) (by simpa using hle)
    rw [munchFrom]
    split
    · next hnever =>
      refine .inl ⟨rfl, fun k hpos hle => ?_⟩
      obtain ⟨k, rfl⟩ : ∃ k', k = k' + 1 := ⟨k - 1, by omega⟩
      rw [hstep, hnever]
      exact not_matches_never
    · rcases ih (p.after c) (read + 1) (if (p.after c).acceptsEmpty then read + 1 else best) with
        ⟨heq, hnone⟩ | ⟨k, hpos, hlong, heq⟩
      · have hzero : LongestMatch (p.after c) cs 0 :=
          ⟨Nat.zero_le _, fun h => absurd h (Nat.lt_irrefl 0), hnone⟩
        rw [heq]
        by_cases hempty : (p.after c).acceptsEmpty
        · rw [if_pos hempty]
          exact .inr ⟨1, Nat.one_pos, hshift 0 hzero (.inr (matches_nil_iff.2 hempty)), rfl⟩
        · rw [if_neg hempty]
          refine .inl ⟨rfl, fun k hpos hle => ?_⟩
          obtain ⟨k, rfl⟩ : ∃ k', k = k' + 1 := ⟨k - 1, by omega⟩
          rw [hstep]
          rcases Nat.eq_zero_or_pos k with rfl | hpos
          · rw [List.take_zero, matches_nil_iff]
            exact hempty
          · exact hnone k hpos (by simpa using hle)
      · exact .inr ⟨k + 1, Nat.succ_pos k, hshift k hlong (.inl hpos), by omega⟩

/-- The derivatives find the longest match. -/
theorem munch_longest (p : Pattern) (cs : List Char) : LongestMatch p cs (p.munch cs) := by
  rcases munchFrom_cases p 0 0 cs with ⟨heq, hnone⟩ | ⟨k, -, hlong, heq⟩
  · rw [munch, heq]
    exact ⟨Nat.zero_le _, fun h => absurd h (Nat.lt_irrefl 0), hnone⟩
  · rw [munch, heq, Nat.zero_add]
    exact hlong

theorem munch_eq_iff : p.munch cs = n ↔ LongestMatch p cs n := by
  constructor
  · rintro rfl
    exact munch_longest p cs
  · exact (munch_longest p cs).unique

theorem munch_le (p : Pattern) (cs : List Char) : p.munch cs ≤ cs.length :=
  (munch_longest p cs).within

theorem munch_of_after_eq_never (h : p.after c = never) : p.munch (c :: cs) = 0 := by
  rw [munch, munchFrom]
  split
  · rfl
  · next hne => exact absurd h hne

/-- One character and no more. -/
theorem munch_one (q : Char → Bool) (c : Char) (cs : List Char) :
    (one q).munch (c :: cs) = if q c then 1 else 0 := by
  rw [munch, munchFrom]
  by_cases hq : q c
  · cases cs <;> simp [after, hq, munchFrom, acceptsEmpty]
  · simp [after, hq]

theorem munch_oneOrMore_of_head (h : q c = false) : (oneOrMore q).munch (c :: cs) = 0 :=
  munch_of_after_eq_never (by simp [oneOrMore, after, acceptsEmpty, followedBy, h])

theorem munch_oneOrMore (hne : s ≠ []) (hall : ∀ c ∈ s, q c = true)
    (hstop : ∀ c, rest.head? = some c → q c = false) :
    (oneOrMore q).munch (s ++ rest) = s.length := by
  refine munch_eq_iff.2 ⟨?_, fun _ => ?_, fun m hlt hle hmatch => ?_⟩
  · rw [List.length_append]
    exact Nat.le_add_right _ _
  · rw [List.take_left, matches_oneOrMore_iff]
    exact ⟨hne, hall⟩
  · -- A longer match would hold the character behind the run.
    cases rest with
    | nil => exact absurd hle (by simpa using hlt)
    | cons c rest =>
      obtain ⟨k, rfl⟩ : ∃ k, m = s.length + (k + 1) := ⟨m - s.length - 1, by omega⟩
      rw [List.take_length_add_append, List.take_succ_cons, matches_oneOrMore_iff] at hmatch
      have hc : q c = true := hmatch.2 c (List.mem_append_right _ List.mem_cons_self)
      rw [hstop c rfl] at hc
      exact Bool.false_ne_true hc

/-- A match is the same before what it cannot reach into. -/
theorem munch_append_of_forall {s : List Char}
    (h : ∀ v, v ≠ [] → v <+: rest → ¬ Matches p (s ++ v)) : p.munch (s ++ rest) = p.munch s := by
  have hown := munch_longest p s
  refine munch_eq_iff.2 ⟨?_, fun hpos => ?_, fun m hlt hle hm => ?_⟩
  · rw [List.length_append]
    exact Nat.le_trans hown.within (Nat.le_add_right _ _)
  · rw [List.take_append_of_le_length hown.within]
    exact hown.matched hpos
  · by_cases hshort : m ≤ s.length
    · rw [List.take_append_of_le_length hshort] at hm
      exact hown.longest m hlt hshort hm
    · obtain ⟨k, rfl⟩ : ∃ k, m = s.length + k := ⟨m - s.length, by omega⟩
      rw [List.take_length_add_append] at hm
      refine h _ ?_ (List.take_prefix k rest) hm
      rw [List.length_append] at hle
      rw [ne_eq, List.take_eq_nil_iff, not_or]
      exact ⟨by omega, by rintro rfl; simp at hle; omega⟩

/-- A match cannot reach past a character that it cannot contain. -/
theorem munch_append {stop : Char → Bool}
    (htail : ∀ t, Matches p (c :: t) → ∀ d ∈ t, stop d = false)
    (hrest : ∀ d, rest.head? = some d → stop d = true) :
    p.munch (c :: (s ++ rest)) = p.munch (c :: s) := by
  refine munch_append_of_forall (s := c :: s) fun v hv hrest' hmatch => ?_
  obtain ⟨d, v, rfl⟩ := List.exists_cons_of_ne_nil hv
  have hd : rest.head? = some d := by
    obtain ⟨more, rfl⟩ := hrest'
    rfl
  have hgoes := htail _ hmatch d (List.mem_append_right _ List.mem_cons_self)
  rw [hrest d hd] at hgoes
  exact Bool.false_ne_true hgoes.symm

/-- Whether the pattern is the dead one. -/
def isNever : Pattern → Bool
  | never => true
  | _ => false

theorem eq_never_of_isNever (h : p.isNever = true) : p = never := by
  cases p with
  | never => rfl
  | _ => cases h

end Pattern

/-! ## The competition of rules -/

namespace TokenRule

open Pattern

variable {rules : List TokenRule} {rule : TokenRule} {c : Char} {cs ds : List Char}

/-- One step of the competition. -/
def better (cs : List Char) (best : TokenClass × Nat) (rule : TokenRule) : TokenClass × Nat :=
  if best.2 < rule.pattern.munch cs then (rule.kind, rule.pattern.munch cs) else best

theorem foldl_better_congr (h : ∀ rule ∈ rules, rule.pattern.munch cs = rule.pattern.munch ds)
    (best : TokenClass × Nat) : rules.foldl (better cs) best = rules.foldl (better ds) best := by
  induction rules generalizing best with
  | nil => rfl
  | cons rule rules ih =>
    have hrule : better cs best rule = better ds best rule := by
      rw [better, better, h rule List.mem_cons_self]
    rw [List.foldl_cons, List.foldl_cons, hrule]
    exact ih (fun rule hmem => h rule (List.mem_cons_of_mem _ hmem)) _

/-- Rules that match equally far in two texts give the same token in both. -/
theorem longest_congr (h : ∀ rule ∈ rules, rule.pattern.munch cs = rule.pattern.munch ds) :
    longest rules cs = longest rules ds :=
  foldl_better_congr h _

/-- The winner is one of the rules that match, with the length of its match. -/
theorem longest_cases (rules : List TokenRule) (cs : List Char) :
    longest rules cs = (.stray, 0) ∨
      ∃ rule ∈ rules, 0 < rule.pattern.munch cs ∧
        longest rules cs = (rule.kind, rule.pattern.munch cs) := by
  have hfold : ∀ best, rules.foldl (better cs) best = best ∨
      ∃ rule ∈ rules, 0 < rule.pattern.munch cs ∧
        rules.foldl (better cs) best = (rule.kind, rule.pattern.munch cs) := by
    induction rules with
    | nil => exact fun best => .inl rfl
    | cons rule rules ih =>
      intro best
      rw [List.foldl_cons]
      rcases ih (better cs best rule) with h | ⟨other, hmem, hpos, h⟩
      · rw [h, better]
        split
        · next hlt => exact .inr ⟨rule, List.mem_cons_self, Nat.zero_lt_of_lt hlt, rfl⟩
        · exact .inl rfl
      · exact .inr ⟨other, List.mem_cons_of_mem _ hmem, hpos, h⟩
  exact hfold (.stray, 0)

theorem longest_le (rules : List TokenRule) (cs : List Char) :
    (longest rules cs).2 ≤ cs.length := by
  rcases longest_cases rules cs with h | ⟨rule, -, -, h⟩
  · rw [h]
    exact Nat.zero_le _
  · rw [h]
    exact munch_le _ _

theorem munch_le_longest (h : rule ∈ rules) (cs : List Char) :
    rule.pattern.munch cs ≤ (longest rules cs).2 := by
  have hfold : ∀ best, best.2 ≤ (rules.foldl (better cs) best).2 ∧
      ∀ rule ∈ rules, rule.pattern.munch cs ≤ (rules.foldl (better cs) best).2 := by
    clear h
    induction rules with
    | nil => exact fun best => ⟨Nat.le_refl _, nofun⟩
    | cons first rules ih =>
      intro best
      obtain ⟨hbest, hothers⟩ := ih (better cs best first)
      have hfirst : best.2 ≤ (better cs best first).2 ∧
          first.pattern.munch cs ≤ (better cs best first).2 := by
        rw [better]
        split <;> omega
      rw [List.foldl_cons]
      exact ⟨Nat.le_trans hfirst.1 hbest,
        List.forall_mem_cons.2 ⟨Nat.le_trans hfirst.2 hbest, hothers⟩⟩
  exact (hfold (.stray, 0)).2 rule h

/-- A token is cut off from a text as it is by itself. -/
theorem longest_of_append {kind : TokenClass} {s rest : List Char}
    (h : longest rules (s ++ rest) = (kind, s.length)) : longest rules s = (kind, s.length) := by
  rw [← h]
  refine (longest_congr fun rule hrule => munch_append_of_forall fun v hv hpart hmatch => ?_).symm
  -- A rule that goes further would have won.
  obtain ⟨more, rfl⟩ := hpart
  have hle := munch_le_longest hrule (s ++ (v ++ more))
  have hpos := List.length_pos_iff.2 hv
  rw [h] at hle
  refine (munch_longest rule.pattern (s ++ (v ++ more))).longest (s.length + v.length) (by omega)
    (by simp only [List.length_append]; omega) ?_
  rwa [List.take_length_add_append, List.take_left]

/-- A kind that one rule alone has tells what the token matches. -/
theorem matches_of_longest {kind : TokenClass} {p : Pattern} {n : Nat}
    (hrule : rules.filter (·.kind == kind) = [⟨kind, p⟩]) (hstray : kind ≠ .stray)
    (h : longest rules (c :: cs) = (kind, n)) : Matches p (c :: cs.take (n - 1)) := by
  rcases longest_cases rules (c :: cs) with hnone | ⟨rule, hmem, hpos, hwin⟩
  · rw [h] at hnone
    exact absurd (congrArg Prod.fst hnone) hstray
  · rw [h] at hwin
    have hkind : kind = rule.kind := congrArg Prod.fst hwin
    have hfiltered : rule ∈ rules.filter (·.kind == kind) :=
      List.mem_filter.2 ⟨hmem, beq_iff_eq.2 hkind.symm⟩
    rw [hrule, List.mem_singleton] at hfiltered
    subst hfiltered
    have hmatched := (munch_longest p (c :: cs)).matched hpos
    obtain ⟨m, hm⟩ : ∃ m, p.munch (c :: cs) = m + 1 := ⟨_, (Nat.succ_pred_eq_of_pos hpos).symm⟩
    have hn : n = m + 1 := (congrArg Prod.snd hwin).trans hm
    rw [hm, List.take_succ_cons] at hmatched
    rwa [hn, Nat.add_sub_cancel]

/-- The rules whose patterns can go on after a character. -/
def starting (c : Char) (rules : List TokenRule) : List TokenRule :=
  rules.filter fun rule => !(rule.pattern.after c).isNever

/-- Only the rules that can start with the first character compete. -/
theorem longest_starting : longest rules (c :: cs) = longest (starting c rules) (c :: cs) := by
  have hfold : ∀ best, rules.foldl (better (c :: cs)) best =
      (starting c rules).foldl (better (c :: cs)) best := by
    induction rules with
    | nil => exact fun best => rfl
    | cons rule rules ih =>
      intro best
      rw [List.foldl_cons, ih]
      cases hnever : (rule.pattern.after c).isNever with
      | false =>
        simp only [starting, List.filter_cons, hnever, Bool.not_false, if_true, List.foldl_cons]
      | true =>
        have hzero : rule.pattern.munch (c :: cs) = 0 :=
          munch_of_after_eq_never (eq_never_of_isNever hnever)
        rw [better, hzero, if_neg (Nat.not_lt_zero _)]
        simp only [starting, List.filter_cons, hnever, Bool.not_true, Bool.false_eq_true, if_false]
  exact hfold (.stray, 0)

end TokenRule

end Logo
