/-!
# Patterns over characters

A pattern describes a set of texts.  `Matches` says which; `munch` finds how far into a text the
longest match reaches, by taking the pattern's derivative character after character.  The smart
constructors `followedBy` and `orElse` drop the parts that can no longer match, so a derivative of
the patterns used for tokens stays small and a dead pattern is recognised at once.

Main statements: `matches_after_iff` (the derivative removes one character) and `matches_nil_iff`
(an accepting pattern matches the empty text).
-/

namespace Logo

/-- A set of texts, built from single characters. -/
inductive Pattern where
  /-- No text at all. -/
  | never
  /-- The empty text. -/
  | empty
  /-- One character with the property. -/
  | one (p : Char → Bool)
  /-- A text of the first pattern, then one of the second. -/
  | seq (first second : Pattern)
  /-- A text of either pattern. -/
  | either (left right : Pattern)
  /-- Any number of texts of the pattern. -/
  | many (item : Pattern)

namespace Pattern

/-- The texts that a pattern describes. -/
inductive Matches : Pattern → List Char → Prop where
  | empty : Matches .empty []
  | one {p : Char → Bool} {c : Char} (h : p c = true) : Matches (.one p) [c]
  | seq {a b : Pattern} {s t : List Char} (hs : Matches a s) (ht : Matches b t) :
      Matches (.seq a b) (s ++ t)
  | left {a b : Pattern} {s : List Char} (h : Matches a s) : Matches (.either a b) s
  | right {a b : Pattern} {s : List Char} (h : Matches b s) : Matches (.either a b) s
  | manyNil {a : Pattern} : Matches (.many a) []
  | manyCons {a : Pattern} {s t : List Char} (hs : Matches a s) (ht : Matches (.many a) t) :
      Matches (.many a) (s ++ t)

/-- Whether the pattern matches the empty text. -/
def acceptsEmpty : Pattern → Bool
  | never => false
  | empty => true
  | one _ => false
  | seq a b => a.acceptsEmpty && b.acceptsEmpty
  | either a b => a.acceptsEmpty || b.acceptsEmpty
  | many _ => true

/-- Sequence that drops a dead or an empty first part. -/
def followedBy : Pattern → Pattern → Pattern
  | never, _ => never
  | empty, b => b
  | a, b => seq a b

/-- Choice that drops a dead side. -/
def orElse : Pattern → Pattern → Pattern
  | never, b => b
  | a, never => a
  | a, b => either a b

/-- What may follow the character `c` in a text of the pattern. -/
def after (c : Char) : Pattern → Pattern
  | never => never
  | empty => never
  | one p => if p c then empty else never
  | seq a b =>
    if a.acceptsEmpty then ((a.after c).followedBy b).orElse (b.after c)
    else (a.after c).followedBy b
  | either a b => (a.after c).orElse (b.after c)
  | many a => (a.after c).followedBy (many a)

/-- The length of the longest match in a text of which `read` characters have been read already, the
pattern being what may follow them; `best` is the length of the longest match among those. -/
def munchFrom (p : Pattern) (read best : Nat) : List Char → Nat
  | [] => best
  | c :: cs =>
    match p.after c with
    | never => best
    | q => q.munchFrom (read + 1) (if q.acceptsEmpty then read + 1 else best) cs

/-- The number of characters in the longest non-empty prefix that the pattern matches, zero if
there is none. -/
def munch (p : Pattern) (cs : List Char) : Nat :=
  p.munchFrom 0 0 cs

/-- The pattern of one given text. -/
def text : List Char → Pattern
  | [] => empty
  | [c] => one (· == c)
  | c :: cs => seq (one (· == c)) (text cs)

/-- At least one character with the property. -/
def oneOrMore (p : Char → Bool) : Pattern :=
  seq (one p) (many (one p))

/-- The pattern or nothing. -/
def optional (p : Pattern) : Pattern :=
  either p empty

theorem not_matches_never {s : List Char} : ¬ Matches never s := nofun

theorem matches_empty_iff {s : List Char} : Matches empty s ↔ s = [] :=
  ⟨fun h => by cases h; rfl, fun h => h ▸ .empty⟩

theorem matches_seq_iff {a b : Pattern} {s : List Char} :
    Matches (seq a b) s ↔ ∃ s₁ s₂, s = s₁ ++ s₂ ∧ Matches a s₁ ∧ Matches b s₂ :=
  ⟨fun | .seq hs ht => ⟨_, _, rfl, hs, ht⟩, fun ⟨_, _, h, hs, ht⟩ => h ▸ .seq hs ht⟩

theorem matches_either_iff {a b : Pattern} {s : List Char} :
    Matches (either a b) s ↔ Matches a s ∨ Matches b s :=
  ⟨fun | .left h => .inl h | .right h => .inr h, fun h => h.elim .left .right⟩

theorem matches_followedBy_iff {a b : Pattern} {s : List Char} :
    Matches (a.followedBy b) s ↔ Matches (seq a b) s := by
  unfold followedBy
  split
  · simp [matches_seq_iff, not_matches_never]
  · simp only [matches_seq_iff, matches_empty_iff]
    exact ⟨fun h => ⟨[], s, rfl, rfl, h⟩, fun ⟨_, _, h, h₁, h₂⟩ => by simpa [h, h₁] using h₂⟩
  · rfl

theorem matches_orElse_iff {a b : Pattern} {s : List Char} :
    Matches (a.orElse b) s ↔ Matches a s ∨ Matches b s := by
  unfold orElse
  split
  · simp [not_matches_never]
  · simp [not_matches_never]
  · exact matches_either_iff

/-- A pattern accepts the empty text exactly when it matches it. -/
theorem matches_nil_iff {p : Pattern} : Matches p [] ↔ p.acceptsEmpty = true := by
  induction p with
  | never => simp [acceptsEmpty, not_matches_never]
  | empty => simp [acceptsEmpty, matches_empty_iff]
  | one p => exact ⟨nofun, nofun⟩
  | seq a b iha ihb =>
    simp only [matches_seq_iff, acceptsEmpty, Bool.and_eq_true, ← iha, ← ihb]
    constructor
    · rintro ⟨s₁, s₂, h, h₁, h₂⟩
      obtain ⟨rfl, rfl⟩ := List.append_eq_nil_iff.1 h.symm
      exact ⟨h₁, h₂⟩
    · exact fun ⟨h₁, h₂⟩ => ⟨[], [], rfl, h₁, h₂⟩
  | either a b iha ihb => simp [matches_either_iff, acceptsEmpty, iha, ihb]
  | many a => exact ⟨fun _ => rfl, fun _ => .manyNil⟩

/-- A non-empty text of a repetition starts with a non-empty text of its item. -/
theorem matches_many_cons_iff {a : Pattern} {c : Char} {s : List Char} :
    Matches (many a) (c :: s) ↔
      ∃ s₁ s₂, s = s₁ ++ s₂ ∧ Matches a (c :: s₁) ∧ Matches (many a) s₂ := by
  constructor
  · generalize hp : many a = p
    generalize ht : c :: s = t
    intro h
    induction h with
    | manyNil => cases ht
    | @manyCons b u v hu hv _ ih =>
      cases hp
      cases u with
      | nil => exact ih rfl ht
      | cons d u =>
        obtain ⟨rfl, rfl⟩ := List.cons.inj ht
        exact ⟨u, v, rfl, hu, hv⟩
    | _ => cases hp
  · rintro ⟨s₁, s₂, rfl, h₁, h₂⟩
    exact .manyCons h₁ h₂

/-- The derivative by `c` matches exactly the texts that `c` completes. -/
theorem matches_after_iff {p : Pattern} {c : Char} {s : List Char} :
    Matches (p.after c) s ↔ Matches p (c :: s) := by
  induction p generalizing s with
  | never => simp [after, not_matches_never]
  | empty => simp [after, not_matches_never, matches_empty_iff]
  | one p =>
    by_cases hp : p c
    · simp only [after, hp, if_true, matches_empty_iff]
      exact ⟨fun h => h ▸ .one hp, fun h => by cases h; rfl⟩
    · simp only [after, hp, if_false, not_matches_never, false_iff, Bool.false_eq_true]
      intro h
      cases h
      contradiction
  | either a b iha ihb => simp [after, matches_orElse_iff, matches_either_iff, iha, ihb]
  | many a ih =>
    simp only [after, matches_followedBy_iff, matches_seq_iff, matches_many_cons_iff, ih]
  | seq a b iha ihb =>
    have split : Matches (seq a b) (c :: s) ↔
        (∃ s₁ s₂, s = s₁ ++ s₂ ∧ Matches a (c :: s₁) ∧ Matches b s₂) ∨
          (Matches a [] ∧ Matches b (c :: s)) := by
      rw [matches_seq_iff]
      constructor
      · rintro ⟨s₁, s₂, h, h₁, h₂⟩
        cases s₁ with
        | nil => exact .inr ⟨h₁, by simpa using h ▸ h₂⟩
        | cons d s₁ =>
          obtain ⟨rfl, rfl⟩ := List.cons.inj h
          exact .inl ⟨s₁, s₂, rfl, h₁, h₂⟩
      · rintro (⟨s₁, s₂, rfl, h₁, h₂⟩ | ⟨h₁, h₂⟩)
        · exact ⟨c :: s₁, s₂, rfl, h₁, h₂⟩
        · exact ⟨[], c :: s, rfl, h₁, h₂⟩
    rw [split, matches_nil_iff]
    by_cases ha : a.acceptsEmpty <;>
      simp [after, ha, matches_orElse_iff, matches_followedBy_iff, matches_seq_iff, iha, ihb]

end Pattern

end Logo
