import Logo.Proofs.BracketDepth

/-!
# Delimiters

Parentheses, brackets and the words `to` and `end` delimit parts of a program.  `WellNested` goes
through the kinds of tokens with a stack of the delimiters that are due: an opening one puts its
partner on top, and a closing one has to be on top.

Whatever is read leaves the stack as it was (`Reads.nests`, `Run.nests`).  Inside brackets this
rests on the lexer, which finds nothing but words and brackets there; the reader itself would take
any token for an item.
-/

namespace Logo

open TokenRule Token

/-- The kind that closes what the kind opens. -/
def closer? : TokenClass → Option TokenClass
  | .leftParen => some .rightParen
  | .leftBracket => some .rightBracket
  | .toWord => some .endWord
  | _ => none

/-- Whether the kind closes something. -/
def isCloser : TokenClass → Bool
  | .rightParen | .rightBracket | .endWord => true
  | _ => false

/-- What is due behind a token, the next first; nothing if the token closes what is not due next. -/
def dueAfter (due : List TokenClass) (kind : TokenClass) : Option (List TokenClass) :=
  match closer? kind with
  | some closer => some (closer :: due)
  | none =>
    if isCloser kind then if due.head? = some kind then some due.tail else none else some due

/-- Every delimiter has a partner, and those in between have theirs in between. -/
def WellNested (kinds : List TokenClass) : Prop :=
  kinds.foldlM dueAfter [] = some []

instance (kinds : List TokenClass) : Decidable (WellNested kinds) :=
  inferInstanceAs (Decidable (_ = _))

/-- Whether tokens of the kind stand inside brackets. -/
def isListed : TokenClass → Bool
  | .symbol | .leftBracket | .rightBracket => true
  | _ => false

theorem Lexeme.IsListed.isListed_kind {l : Lexeme} (h : l.IsListed) : isListed l.kind = true := by
  rcases h with ⟨hkind, -⟩ | ⟨hkind, -⟩ | ⟨hkind, -⟩ <;> rw [hkind] <;> rfl

/-- The lexer has not lost sight of a bracket that is open. -/
theorem count_le_depthBehind (depth : Nat) (ls : List Lexeme) :
    depth + (ls.map Lexeme.kind).count .leftBracket ≤
      depthBehind depth ls + (ls.map Lexeme.kind).count .rightBracket := by
  induction ls generalizing depth with
  | nil => exact Nat.le_refl _
  | cons l ls ih =>
    have hrest := ih (depthAfter depth l.kind)
    have hstep : depth + (if l.kind == .leftBracket then 1 else 0) ≤
        depthAfter depth l.kind + (if l.kind == .rightBracket then 1 else 0) := by
      cases l.kind with
      | rightBracket => exact Nat.le_succ_of_pred_le (Nat.le_refl _)
      | _ => exact Nat.le_refl _
    have hcons : depthBehind depth (l :: ls) = depthBehind (depthAfter depth l.kind) ls := rfl
    rw [List.map_cons, List.count_cons, List.count_cons, hcons]
    omega

/-- Where more brackets have opened than closed, a word or a bracket stands. -/
theorem Lexed.isListed_of_count {before after : List Lexeme} {l : Lexeme}
    (h : Lexed 0 (before ++ l :: after))
    (hopen : (before.map Lexeme.kind).count .rightBracket <
        (before.map Lexeme.kind).count .leftBracket) :
    l.kind = .eof ∨ isListed l.kind = true := by
  have hcount := count_le_depthBehind 0 before
  have hlexed := h.append
  generalize depthBehind 0 before = depth at hcount hlexed
  cases hlexed with
  | closing eof => exact .inl eof
  | code => omega
  | list listed => exact .inr listed.isListed_kind

namespace Reader

variable {table table' : ProcedureTable} {phrase : Phrase} {ls mid rest : List Lexeme} {node : Node}
  {nodes : List Node} {steps log : List Step} {l : Lexeme}

/-- What is due behind the first lexeme is due before the others. -/
theorem foldlM_dueAfter_cons {due due' : List TokenClass} (h : dueAfter due l.kind = some due')
    (ls : List Lexeme) : ((l :: ls).map Lexeme.kind).foldlM dueAfter due =
      (ls.map Lexeme.kind).foldlM dueAfter due' := by
  rw [List.map_cons, List.foldlM_cons, h]
  rfl

/-- What stands before the rest closes what it opens, and nothing else. -/
def Nests (ls rest : List Lexeme) : Prop :=
  ∃ used, ls = used ++ rest ∧ ∀ due, (used.map Lexeme.kind).foldlM dueAfter due = some due

namespace Nests

theorem refl : Nests ls ls :=
  ⟨[], rfl, fun _ => rfl⟩

theorem trans (h : Nests ls mid) (h' : Nests mid rest) : Nests ls rest := by
  obtain ⟨used, rfl, hused⟩ := h
  obtain ⟨more, rfl, hmore⟩ := h'
  refine ⟨used ++ more, (List.append_assoc _ _ _).symm, fun due => ?_⟩
  rw [List.map_append, List.foldlM_append, hused]
  exact hmore due

theorem cons {kind : TokenClass} (hl : l.kind = kind)
    (hkind : closer? kind = none ∧ isCloser kind = false) (ls : List Lexeme) :
    Nests (l :: ls) ls := by
  refine ⟨[l], rfl, fun due => foldlM_dueAfter_cons ?_ []⟩
  rw [hl, dueAfter, hkind.1, hkind.2]
  rfl

/-- A delimiter and its partner stand around what nests. -/
theorem between {o c : Lexeme} {opener closer : TokenClass} (ho : o.kind = opener)
    (hc : c.kind = closer) (hopener : closer? opener = some closer)
    (hcloser : closer? closer = none ∧ isCloser closer = true) (h : Nests ls (c :: rest)) :
    Nests (o :: ls) rest := by
  obtain ⟨used, rfl, hused⟩ := h
  refine ⟨o :: (used ++ [c]), by simp, fun due => ?_⟩
  have hopen : dueAfter due o.kind = some (closer :: due) := by
    rw [ho, dueAfter, hopener]
  have hclose : dueAfter (closer :: due) c.kind = some due := by
    rw [hc, dueAfter, hcloser.1, hcloser.2]
    simp
  rw [foldlM_dueAfter_cons hopen, List.map_append, List.foldlM_append, hused]
  exact foldlM_dueAfter_cons hclose []

end Nests

/-! ## Phrases -/

/-- Behind the items of a list stands its closing bracket; the brackets of the lists around it are
closed among the items. -/
theorem listItems_closes {outer : List (List Node)} {items : List Node}
    (hls : Lexed (outer.length + 1) ls) (h : listItems outer items ls = .ok (node, rest)) :
    ∃ used r, ls = used ++ r :: rest ∧ r.kind = .rightBracket ∧ (∀ m ∈ used, m.IsListed) ∧
      ∀ due, (used.map Lexeme.kind).foldlM dueAfter
      (List.replicate outer.length .rightBracket ++ due) =
        some due := by
  induction ls generalizing outer items with
  | nil => cases h
  | cons l ls ih =>
    cases hls with
    | closing eof =>
      simp only [listItems, eof] at h
      cases h
    | list listed others =>
      -- The lists around the next lexeme are those whose brackets are due there.
      have hstep : ∀ {outer' : List (List Node)} {items' : List Node},
          Lexed (outer'.length + 1) ls → listItems outer' items' ls = .ok (node, rest) →
          (∀ due, dueAfter (List.replicate outer.length .rightBracket ++ due) l.kind =
            some (List.replicate outer'.length .rightBracket ++ due)) →
          ∃ used r, l :: ls = used ++ r :: rest ∧ r.kind = .rightBracket ∧
          (∀ m ∈ used, m.IsListed) ∧
            ∀ due, (used.map Lexeme.kind).foldlM dueAfter
              (List.replicate outer.length .rightBracket ++ due) = some due := by
        intro outer' items' hls hitems hdue
        obtain ⟨used, r, rfl, hr, hlisted, hused⟩ := ih hls hitems
        refine ⟨l :: used, r, rfl, hr, List.forall_mem_cons.2 ⟨listed, hlisted⟩, fun due => ?_⟩
        exact (foldlM_dueAfter_cons (hdue due) used).trans (hused due)
      rcases listed with ⟨hkind, -⟩ | ⟨hkind, -⟩ | ⟨hkind, -⟩
      all_goals
        simp only [listItems, hkind] at h
        rw [hkind] at others hstep
      · exact @hstep (items :: outer) [] others h fun _ => rfl
      · cases outer with
        | nil =>
          cases h
          exact ⟨[], l, rfl, hkind, List.forall_mem_nil _, fun _ => rfl⟩
        | cons around outer => exact hstep others h fun _ => rfl
      · exact hstep others h fun _ => rfl

/-- Between its brackets, a list holds words and lists. -/
theorem nests_items (hl : l.kind = .leftBracket) (hls : Lexed 0 (l :: ls))
    (h : listItems [] [] ls = .ok (node, rest)) :
    ∃ used r, ls = used ++ r :: rest ∧ r.kind = .rightBracket ∧ (∀ m ∈ used, m.IsListed) ∧
      ∀ due, (used.map Lexeme.kind).foldlM dueAfter due = some due := by
  have hinside : Lexed (([] : List (List Node)).length + 1) ls := by
    have htail := hls.tail
    rwa [hl] at htail
  exact listItems_closes hinside h

theorem nests_list (hl : l.kind = .leftBracket) (hls : Lexed 0 (l :: ls))
    (h : listItems [] [] ls = .ok (node, rest)) : Nests (l :: ls) rest := by
  obtain ⟨used, r, rfl, hr, -, hused⟩ := nests_items hl hls h
  exact Nests.between hl hr rfl (by decide) ⟨used, rfl, hused⟩

theorem nests_literal (h : literal? l = some node) : Nests (l :: ls) ls := by
  rw [literal?] at h
  cases hkind : l.kind with
  | leftParen | rightParen | leftBracket | rightBracket | toWord | endWord => simp [hkind] at h
  | _ => exact .cons hkind (by decide) ls

theorem nests_operator {operators : Operators} {name : String} (hoperators : operators ∈ precedence)
    (h : operator? operators (l :: ls) = some name) : Nests (l :: ls) ls := by
  have hoperator := (infix_of_operator? hoperators h).1
  cases hkind : l.kind with
  | leftParen | rightParen | leftBracket | rightBracket | toWord | endWord =>
    rw [hkind] at hoperator
    cases hoperator
  | _ => exact .cons hkind (by decide) ls

/-- Phrases close what they open. -/
theorem Reads.nests (h : Reads table phrase ls nodes rest) (hlevels : phrase.levels ⊆ precedence)
    (hls : Lexed 0 ls) : Nests ls rest := by
  induction h with
  | literal word => exact nests_literal word
  | signed minus digits => exact (Nests.cons minus (by decide) _).trans (.cons digits (by decide) _)
  | list bracket items => exact nests_list bracket hls items
  | symbol name => exact .cons name (by decide) _
  | @call _ ls _ _ _ name _ _ ih =>
    have hinside := (Crosses.cons name (by decide) ls).lexed hls
    exact (Nests.cons name (by decide) ls).trans (ih (List.nil_subset _) hinside)
  | @parenCall _ m _ ls _ _ _ left name _ _ right ih =>
    have hinside :=
      ((Crosses.cons left (by decide) (m :: ls)).trans (.cons name (by decide) ls)).lexed hls
    exact ((Nests.cons name (by decide) ls).trans (ih (List.nil_subset _) hinside)).between left
      right rfl (by decide)
  | @group _ _ ls _ _ left _ _ right ih =>
    have hinside := (Crosses.cons left (by decide) ls).lexed hls
    exact (ih (List.Subset.refl _) hinside).between left right rfl (by decide)
  | level first _ ihFirst ihOthers =>
    have hsub := List.subset_of_cons_subset hlevels
    exact (ihFirst hsub hls).trans (ihOthers hlevels ((first.crosses hsub hls).lexed hls))
  | chainStep operator next _ ihNext ihOthers =>
    have hsub := List.subset_of_cons_subset hlevels
    have hmem := hlevels List.mem_cons_self
    have hinside := (crosses_operator hmem operator).lexed hls
    have hnext := (nests_operator hmem operator).trans (ihNext hsub hinside)
    exact hnext.trans (ihOthers hlevels ((next.crosses hsub hinside).lexed hinside))
  | input first _ ihFirst ihOthers | parenInput first _ ihFirst ihOthers =>
    have hmid := (first.crosses (List.Subset.refl _) hls).lexed hls
    exact (ihFirst (List.Subset.refl _) hls).trans (ihOthers (List.nil_subset _) hmid)
  | chainEnd | noInput | parenEnd => exact .refl
  | @parenLine _ ls _ _ newline _ ih =>
    have hinside := (Crosses.cons newline (by decide) ls).lexed hls
    exact (Nests.cons newline (by decide) ls).trans (ih (List.nil_subset _) hinside)

/-! ## Runs -/

theorem nests_references {params : List Lexeme} (h : ∀ p ∈ params, p.kind = .reference) :
    Nests (params ++ rest) rest := by
  induction params with
  | nil => exact .refl
  | cons p params ih =>
    rw [List.forall_mem_cons] at h
    exact (Nests.cons h.1 (by decide) _).trans (ih h.2)

/-- Statements close what they open. -/
theorem Run.nests (h : Run table ls steps log table' rest) (hls : Lexed 0 ls) : Nests ls rest := by
  induction h with
  | done => exact .refl
  | @blank _ _ _ ls _ _ _ newline _ ih =>
    exact (Nests.cons newline (by decide) ls).trans
      (ih ((Crosses.cons newline (by decide) ls).lexed hls))
  | expression first _ ih =>
    have hmid := (first.crosses (List.Subset.refl _) hls).lexed hls
    exact (first.nests (List.Subset.refl _) hls).trans (ih hmid)
  | @definition _ _ _ _ _ inner mid _ _ _ _ _ _ _ _ opening body closing _ _ ihBody ih =>
    have hinner := (crosses_headerLine opening).lexed hls
    have hmid := (Crosses.cons closing (by decide) mid).lexed ((body.crosses hinner).lexed hinner)
    obtain ⟨o, name, params, newline, rfl, hto, hname, hparams, hnewline, -, -⟩ :=
      headerLine_eq_ok_iff.1 opening
    have hheader := ((Nests.cons hname (by decide) _).trans (nests_references hparams)).trans
      (.cons hnewline (by decide) inner)
    exact ((hheader.trans (ihBody hinner)).between hto closing rfl (by decide)).trans (ih hmid)

end Reader

end Logo
