import Logo.Interpreter
import Logo.Proofs.Numerals
import Logo.Proofs.Operation
import Logo.Proofs.Shape
import Logo.Proofs.TreeLines
import Mathlib.Data.List.Basic

/-!
# Trees

The lines of a tree determine its nodes, up to what no line shows (`Node.outline`): what belongs to
a node is what is deeper, down to the closing word of a definition.  The induction takes along the
lines behind a node, which may start at its own depth (`Node.Legible.determined`).

All nodes that are read from a text are legible, if no floating-point number is among them
(`readText_legible`).  So two texts have the same tree print-out just if they are read as the same
nodes, up to what the print-out leaves out (`pretty_unambiguous`).
-/

namespace Logo

open TokenRule Token Lexeme Reader

/-! ## Outlines -/

mutual

/-- The node without what a tree does not show: the parentheses of calls, and the text and the line
of definitions. -/
def Node.outline : Node → Node
  | .call name arity inputs _ => .call name arity (outlineEach inputs) false
  | .procedure ⟨name, params, .user statements, _, _⟩ =>
    .procedure ⟨name, params, .user (outlineEach statements), Option.none, Option.none⟩
  | .procedure ⟨name, params, .host way function, _, _⟩ =>
    .procedure ⟨name, params, .host way function, Option.none, Option.none⟩
  | other => other

/-- The outlines of a sequence of nodes. -/
def Node.outlineEach : List Node → List Node
  | [] => []
  | n :: ns => n.outline :: outlineEach ns

end

theorem Node.outlineEach_eq_map (ns : List Node) : outlineEach ns = ns.map outline := by
  induction ns with
  | nil => rfl
  | cons n ns ih => rw [outlineEach, ih, List.map_cons]

/-! ## Legible nodes -/

/-- The nodes that a program can write without floating-point numbers. -/
inductive Node.Legible : Node → Prop
  | leaf {node : Node} (isLeaf : node.IsLeaf) : Legible node
  | call {name : String} {arity : Nat} {inputs : List Node} {parenthesized : Bool}
      (isName : IsName name) (inputs_legible : ∀ input ∈ inputs, Legible input) :
      Legible (.call name arity inputs parenthesized)
  | procedure {name : String} {params : List String} {statements : List Node}
      {source : Option String} {line : Option Nat} (isName : IsName name)
      (solid : ∀ param ∈ params, ∀ c ∈ param.toList, endsReference c = false)
      (statements_legible : ∀ statement ∈ statements, Legible statement) :
      Legible (.procedure ⟨name, params, .user statements, source, line⟩)

/-! ## The lines of nodes -/

mutual

/-- The lines of the tree of a node at a depth. -/
def Node.linesAt (depth : Nat) : Node → List (Nat × TreeLine)
  | .call name arity inputs _ => (depth, .call name arity) :: linesEachAt (depth + 1) inputs
  | .procedure ⟨name, params, .user statements, _, _⟩ =>
    (depth, .header name params) :: (linesEachAt (depth + 1) statements ++ [(depth, .close)])
  | .procedure ⟨name, params, .host .., _, _⟩ => [(depth, .header name params), (depth, .close)]
  | other => [(depth, .leaf other)]

/-- The lines of the trees of a sequence of nodes. -/
def Node.linesEachAt (depth : Nat) : List Node → List (Nat × TreeLine)
  | [] => []
  | n :: ns => n.linesAt depth ++ linesEachAt depth ns

end

namespace Node

variable {node a : Node} {depth : Nat}

theorem linesEachAt_eq_flatMap (depth : Nat) (ns : List Node) :
    linesEachAt depth ns = ns.flatMap (linesAt depth) := by
  induction ns with
  | nil => rfl
  | cons n ns ih => rw [linesEachAt, ih, List.flatMap_cons]

theorem IsLeaf.linesAt_eq (h : node.IsLeaf) (depth : Nat) :
    node.linesAt depth = [(depth, .leaf node)] := by
  cases h <;> rfl

theorem IsLeaf.outline_eq (h : node.IsLeaf) : node.outline = node := by
  cases h <;> rfl

/-- The lines of a legible node are legible. -/
theorem Legible.legible_linesAt (h : node.Legible) (depth : Nat) :
    ∀ line ∈ node.linesAt depth, line.2.Legible := by
  induction h generalizing depth with
  | leaf isLeaf =>
    rw [isLeaf.linesAt_eq]
    exact List.forall_mem_singleton.2 (.leaf isLeaf)
  | call isName _ ih =>
    rw [linesAt, linesEachAt_eq_flatMap]
    refine List.forall_mem_cons.2 ⟨.call isName, List.forall_mem_flatMap.2 fun input hinput => ?_⟩
    exact ih input hinput (depth + 1)
  | procedure isName solid _ ih =>
    rw [linesAt, linesEachAt_eq_flatMap]
    refine List.forall_mem_cons.2 ⟨.header isName solid, List.forall_mem_append.2 ⟨?_, ?_⟩⟩
    · exact List.forall_mem_flatMap.2 fun statement hstatement =>
        ih statement hstatement (depth + 1)
    · exact List.forall_mem_singleton.2 .close

/-! ### Trees as texts of lines -/

theorem toList_treeLine (depth : Nat) (line : TreeLine) :
    (treeLine depth line.text).toList = TreeLine.chars (depth, line) := by
  simp [treeLine, indent, TreeLine.chars, String.toList_append]

theorem toList_treeEachAt (depth : Nat) (ns : List Node) :
    (treeEachAt depth ns).toList = ns.flatMap fun n => (n.treeAt depth).toList := by
  induction ns with
  | nil => rfl
  | cons n ns ih => rw [treeEachAt, String.toList_append, ih, List.flatMap_cons]

theorem IsLeaf.treeAt_eq (h : node.IsLeaf) (depth : Nat) :
    node.treeAt depth = treeLine depth (TreeLine.leaf node).text := by
  cases h <;> rfl

/-- A tree is the text of its lines. -/
theorem Legible.toList_treeAt (h : node.Legible) (depth : Nat) :
    (node.treeAt depth).toList = (node.linesAt depth).flatMap TreeLine.chars := by
  induction h generalizing depth with
  | leaf isLeaf => rw [isLeaf.treeAt_eq, isLeaf.linesAt_eq, toList_treeLine, List.flatMap_singleton]
  | @call name arity inputs _ _ _ ih =>
    have hline : name ++ "/" ++ toString arity ++ " =>" = (TreeLine.call name arity).text := rfl
    rw [treeAt, String.toList_append, hline, toList_treeLine, toList_treeEachAt, linesAt,
      linesEachAt_eq_flatMap, List.flatMap_cons, List.flatMap_assoc]
    exact congrArg _ (List.flatMap_congr fun input hinput => ih input hinput (depth + 1))
  | @procedure name params statements source line _ _ _ ih =>
    have hline : Procedure.header ⟨name, params, .user [], source, line⟩ =
      (TreeLine.header name params).text := rfl
    have hclose : "end" = TreeLine.close.text := rfl
    rw [treeAt, String.toList_append, String.toList_append, hline, hclose, toList_treeLine,
      toList_treeLine, toList_treeEachAt, linesAt, linesEachAt_eq_flatMap, List.flatMap_cons,
      List.flatMap_append, List.flatMap_assoc, List.flatMap_singleton, List.append_assoc]
    congr 2
    exact List.flatMap_congr fun statement hstatement => ih statement hstatement (depth + 1)

/-- The lines show no more than the outline. -/
theorem Legible.linesAt_outline (h : node.Legible) (depth : Nat) :
    node.outline.linesAt depth = node.linesAt depth := by
  induction h generalizing depth with
  | leaf isLeaf => rw [isLeaf.outline_eq]
  | call _ _ ih =>
    rw [outline, linesAt, linesAt, linesEachAt_eq_flatMap, linesEachAt_eq_flatMap,
      outlineEach_eq_map, List.flatMap_map]
    exact congrArg _ (List.flatMap_congr fun input hinput => ih input hinput (depth + 1))
  | procedure _ _ _ ih =>
    rw [outline, linesAt, linesAt, linesEachAt_eq_flatMap, linesEachAt_eq_flatMap,
      outlineEach_eq_map, List.flatMap_map]
    congr 2
    exact List.flatMap_congr fun statement hstatement => ih statement hstatement (depth + 1)

/-! ### Nodes from lines -/

/-- The first of the lines, if there is one, is above the depth. -/
def StartsAbove (depth : Nat) (lines : List (Nat × TreeLine)) : Prop :=
  ∀ line, lines.head? = some line → line.1 < depth

/-- The first line of a node has its depth. -/
theorem Legible.exists_linesAt_eq (h : node.Legible) (depth : Nat) :
    ∃ line more, node.linesAt depth = (depth, line) :: more := by
  cases h with
  | leaf isLeaf => exact ⟨_, _, isLeaf.linesAt_eq depth⟩
  | call => exact ⟨_, _, linesAt.eq_1 ..⟩
  | procedure => exact ⟨_, _, linesAt.eq_2 ..⟩

/-- The lines of the children stand below their parent. -/
theorem startsAbove_linesEachAt {ns : List Node} (hns : ∀ n ∈ ns, n.Legible)
    {rest : List (Nat × TreeLine)} (hrest : StartsAbove depth rest) :
    StartsAbove (depth + 1) (linesEachAt depth ns ++ rest) := by
  intro line hline
  cases ns with
  | nil => exact Nat.lt_succ_of_lt (hrest line hline)
  | cons n ns =>
    obtain ⟨first, more, hlines⟩ := (hns n List.mem_cons_self).exists_linesAt_eq depth
    rw [linesEachAt, hlines] at hline
    cases hline
    exact Nat.lt_succ_self depth

/-- The lines of the node are those of no other outline, whatever follows that is not deeper. -/
def Determined (a : Node) : Prop :=
  ∀ (b : Node) (depth : Nat) (rest rest' : List (Nat × TreeLine)), b.Legible →
    StartsAbove (depth + 1) rest →
    StartsAbove (depth + 1) rest' → a.linesAt depth ++ rest = b.linesAt depth ++ rest' →
    a.outline = b.outline ∧ rest = rest'

/-- The lines of a sequence of nodes end where a line is above them. -/
theorem linesEachAt_inj {as bs : List Node} (has : ∀ a ∈ as, a.Legible ∧ a.Determined)
    (hbs : ∀ b ∈ bs, b.Legible) {rest rest' : List (Nat × TreeLine)}
    (hrest : StartsAbove depth rest) (hrest' : StartsAbove depth rest')
    (h : linesEachAt depth as ++ rest = linesEachAt depth bs ++ rest') :
    outlineEach as = outlineEach bs ∧ rest = rest' := by
  -- A line at the depth itself starts a node, so it is no line of what follows.
  have hends : ∀ {n : Node} {ns : List Node} {rest rest' : List (Nat × TreeLine)}, n.Legible →
      StartsAbove depth rest → rest ≠ linesEachAt depth (n :: ns) ++ rest' := by
    rintro n ns rest rest' hn hrest rfl
    obtain ⟨line, more, hlines⟩ := hn.exists_linesAt_eq depth
    rw [linesEachAt, hlines] at hrest
    exact Nat.lt_irrefl depth (hrest (depth, line) rfl)
  induction as generalizing bs with
  | nil =>
    cases bs with
    | nil => exact ⟨rfl, h⟩
    | cons b bs => exact absurd h (hends (hbs b List.mem_cons_self) hrest)
  | cons a as ih =>
    cases bs with
    | nil => exact absurd h.symm (hends (has a List.mem_cons_self).1 hrest')
    | cons b bs =>
      rw [List.forall_mem_cons] at has hbs
      rw [linesEachAt, linesEachAt, List.append_assoc, List.append_assoc] at h
      obtain ⟨hfirst, hothers⟩ := has.1.2 b depth _ _ hbs.1
        (startsAbove_linesEachAt (fun n hn => (has.2 n hn).1) hrest)
          (startsAbove_linesEachAt hbs.2 hrest') h
      obtain ⟨houtlines, hrests⟩ := ih has.2 hbs.2 hothers
      rw [outlineEach, outlineEach, hfirst, houtlines]
      exact ⟨rfl, hrests⟩

/-- The lines of a legible node determine its outline. -/
theorem Legible.determined (h : a.Legible) : a.Determined := by
  induction h with
  | @leaf a isLeaf =>
    intro b depth rest rest' hb hrest hrest' heq
    rw [isLeaf.linesAt_eq] at heq
    cases hb with
    | leaf isLeaf' =>
      rw [isLeaf'.linesAt_eq] at heq
      cases heq
      exact ⟨rfl, rfl⟩
    | call | procedure =>
      rw [linesAt] at heq
      cases heq
  | @call name arity inputs _ _ inputs_legible ih =>
    intro b depth rest rest' hb hrest hrest' heq
    rw [linesAt] at heq
    cases hb with
    | leaf isLeaf' =>
      rw [isLeaf'.linesAt_eq] at heq
      cases heq
    | procedure =>
      rw [linesAt] at heq
      cases heq
    | call _ inputs_legible' =>
      rw [linesAt, List.cons_append, List.cons_append] at heq
      injection heq with hline hmore
      cases hline
      obtain ⟨hinputs, hends⟩ :=
        linesEachAt_inj (fun input hinput => ⟨inputs_legible input hinput, ih input hinput⟩)
        inputs_legible' hrest hrest' hmore
      rw [outline, outline, hinputs]
      exact ⟨rfl, hends⟩
  | @procedure name params statements _ _ _ _ statements_legible ih =>
    intro b depth rest rest' hb hrest hrest' heq
    rw [linesAt] at heq
    cases hb with
    | leaf isLeaf' =>
      rw [isLeaf'.linesAt_eq] at heq
      cases heq
    | call =>
      rw [linesAt] at heq
      cases heq
    | procedure _ _ statements_legible' =>
      rw [linesAt, List.cons_append, List.cons_append, List.append_assoc, List.append_assoc] at heq
      injection heq with hline hmore
      cases hline
      have hclose : ∀ rest : List (Nat × TreeLine),
          StartsAbove (depth + 1) ([(depth, .close)] ++ rest) := by
        rintro rest line ⟨⟩
        exact Nat.lt_succ_self depth
      obtain ⟨hstatements, hends⟩ := linesEachAt_inj
        (fun statement hstatement =>
          ⟨statements_legible statement hstatement, ih statement hstatement⟩)
        statements_legible' (hclose rest) (hclose rest') hmore
      rw [outline, outline, hstatements]
      exact ⟨rfl, List.append_cancel_left hends⟩

/-- Trees of legible nodes are the same text just if the outlines are the same. -/
theorem join_tree_eq_iff {as bs : List Node} (has : ∀ a ∈ as, a.Legible)
    (hbs : ∀ b ∈ bs, b.Legible) :
    String.join (as.map tree) = String.join (bs.map tree) ↔ as.map outline = bs.map outline := by
  have hchars : ∀ {ns : List Node}, (∀ n ∈ ns, n.Legible) →
      (String.join (ns.map tree)).toList = (linesEachAt 0 ns).flatMap TreeLine.chars := by
    intro ns hns
    rw [String.toList_join, List.flatMap_map, linesEachAt_eq_flatMap, List.flatMap_assoc]
    exact List.flatMap_congr fun n hn => (hns n hn).toList_treeAt 0
  have hlegible : ∀ {ns : List Node}, (∀ n ∈ ns, n.Legible) →
      ∀ line ∈ linesEachAt 0 ns, line.2.Legible := by
    intro ns hns
    rw [linesEachAt_eq_flatMap]
    exact List.forall_mem_flatMap.2 fun n hn => (hns n hn).legible_linesAt 0
  have hlines : ∀ {ns : List Node}, (∀ n ∈ ns, n.Legible) →
      linesEachAt 0 ns = (ns.map outline).flatMap (linesAt 0) := by
    intro ns hns
    rw [linesEachAt_eq_flatMap, List.flatMap_map]
    exact List.flatMap_congr fun n hn => ((hns n hn).linesAt_outline 0).symm
  rw [← String.toList_inj, hchars has, hchars hbs]
  constructor
  · intro h
    have hnil : StartsAbove 0 [] := by rintro line ⟨⟩
    have heq := congrArg (· ++ []) (TreeLine.flatMap_chars_inj (hlegible has) (hlegible hbs) h)
    rw [← outlineEach_eq_map, ← outlineEach_eq_map]
    exact (linesEachAt_inj (fun a ha => ⟨has a ha, (has a ha).determined⟩) hbs hnil hnil heq).1
  · intro h
    rw [hlines has, hlines hbs, h]

end Node

/-! ## What is read is legible -/

mutual

/-- Whether a floating-point number occurs in the node. -/
def Node.hasFloat : Node → Bool
  | .float _ => true
  | .list items => hasFloatEach items
  | .call _ _ inputs _ => hasFloatEach inputs
  | .procedure ⟨_, _, .user statements, _, _⟩ => hasFloatEach statements
  | _ => false

/-- Whether a floating-point number occurs in one of the nodes. -/
def Node.hasFloatEach : List Node → Bool
  | [] => false
  | n :: ns => n.hasFloat || hasFloatEach ns

end

theorem Node.hasFloatEach_eq_false_iff {ns : List Node} :
    hasFloatEach ns = false ↔ ∀ n ∈ ns, n.hasFloat = false := by
  induction ns with
  | nil => simp [hasFloatEach]
  | cons n ns ih => rw [hasFloatEach, Bool.or_eq_false_iff, ih, List.forall_mem_cons]

namespace Reader

variable {t table table' : ProcedureTable} {phrase : Phrase} {l : Lexeme} {ls rest : List Lexeme}
  {node : Node} {nodes : List Node}

/-! ### Lexemes -/

/-- A lexeme outside of brackets holds one whole token, but for newlines and what cannot be read. -/
theorem exists_wholeToken {kind : TokenClass} (h : Lexed 0 (l :: ls)) (hkind : l.kind = kind)
    (hwhole : kind ≠ .newline ∧ kind ≠ .stray ∧ kind ≠ .eof) :
    ∃ c s, l.token.text = String.ofList (c :: s) ∧ WholeToken kind c s := by
  subst hkind
  obtain ⟨hnewline, hstray, heof⟩ := hwhole
  cases h with
  | closing eof => exact absurd eof heof
  | code _ whole => exact (whole.resolve_left hnewline).resolve_left hstray

/-- What follows the mark of a quoted word or a reference. -/
theorem matches_unmarked {kind : TokenClass} {mark : Char → Bool} {tail : Pattern}
    (h : Lexed 0 (l :: ls)) (hkind : l.kind = kind)
    (hwhole : kind ≠ .newline ∧ kind ≠ .stray ∧ kind ≠ .eof)
    (hrule : code.filter (·.kind == kind) = [⟨kind, .seq (.one mark) tail⟩]) :
    Pattern.Matches tail l.token.unmarked.toList := by
  obtain ⟨c, s, htext, htoken⟩ := exists_wholeToken h hkind hwhole
  have hmatch := matches_of_longest hrule hwhole.2.1 htoken.longest_eq
  rw [Nat.add_sub_cancel, List.take_length] at hmatch
  obtain ⟨s₁, s₂, heq, hfirst, htail⟩ := Pattern.matches_seq_iff.1 hmatch
  obtain ⟨d, rfl, -⟩ := Pattern.matches_one_iff.1 hfirst
  cases heq
  rwa [Token.unmarked, htext, String.toList_ofList, String.toList_ofList, List.tail_cons]

theorem solid_of_quote (h : Lexed 0 (l :: ls)) (hkind : l.kind = .quote) :
    ∀ c ∈ l.token.unmarked.toList, endsWord c = false := by
  intro c hc
  have hmatch := matches_unmarked h hkind (by decide) rfl
  simpa using Pattern.matches_many_one_iff.1 hmatch c hc

theorem solid_of_reference (h : Lexed 0 (l :: ls)) (hkind : l.kind = .reference) :
    l.token.unmarked ≠ "" ∧ ∀ c ∈ l.token.unmarked.toList, endsReference c = false := by
  obtain ⟨hne, hall⟩ := Pattern.matches_oneOrMore_iff.1 (matches_unmarked h hkind (by decide) rfl)
  refine ⟨?_, fun c hc => by simpa using hall c hc⟩
  intro hempty
  rw [hempty] at hne
  exact hne rfl

theorem isToken_of_symbol (h : Lexed 0 (l :: ls)) (hkind : l.kind = .symbol) :
    IsToken .symbol l.token.text := by
  obtain ⟨c, s, htext, htoken⟩ := exists_wholeToken h hkind (by decide)
  rw [htext]
  exact .of_longest htoken.longest_eq

/-- A symbol in lower case is a name. -/
theorem isName_of_symbol (h : Lexed 0 (l :: ls)) (hkind : l.kind = .symbol) :
    IsName (Text.toLower l.token.text) := by
  have hinside := h.insideSymbol hkind
  have hlower := Text.toLower_of_plain fun c hc => Text.isPlain_of_insideSymbol (hinside c hc)
  refine ⟨?_, fun c hc => ?_⟩
  · obtain ⟨c, s, htext, htoken⟩ := exists_wholeToken h hkind (by decide)
    obtain ⟨s₁, s₂, heq, hfirst, -⟩ :=
      Pattern.matches_seq_iff.1 (matches_of_longest rfl (by decide) htoken.longest_eq)
    obtain ⟨d, rfl, hd⟩ := Pattern.matches_one_iff.1 hfirst
    cases heq
    rw [hlower, String.toList_ofList, htext, String.toList_ofList]
    exact (Text.apply_toLower (by decide) c).trans hd
  · rw [hlower, String.toList_ofList] at hc
    obtain ⟨d, hd, rfl⟩ := List.mem_map.1 hc
    exact (Text.apply_toLower (by decide) d).trans (hinside d hd)

theorem isName_of_mem_infixNames {name : String} (h : name ∈ infixNames) :
    IsName (Text.toLower name) := by
  have hall : (infixNames.all fun name =>
      name.toList.head?.any startsSymbol && name.toList.all insideSymbol) = true := by decide
  have hname := List.all_eq_true.1 hall name h
  rw [Bool.and_eq_true, List.all_eq_true] at hname
  rw [toLower_of_mem_infixNames h]
  exact ⟨hname.1, hname.2⟩

/-! ### Expressions -/

theorem isLeaf_of_number {token : Token} {text : String} (h : number token text = .ok node)
    (hfloat : node.hasFloat = false) : node.IsLeaf := by
  obtain ⟨value, rfl⟩ | ⟨value, rfl⟩ := number_cases h
  · exact .integer value
  · cases hfloat

theorem isLeaf_of_literal? (h : literal? l = some node) (hls : Lexed 0 (l :: ls))
    (hfloat : node.hasFloat = false) : node.IsLeaf := by
  cases hkind : l.kind with
  | trueWord | falseWord | nilWord =>
    simp only [literal?, hkind, Option.some.injEq] at h
    subst h
    constructor
  | quote =>
    simp only [literal?, hkind, Option.some.injEq] at h
    subst h
    exact .quoted (solid_of_quote hls hkind)
  | reference =>
    simp only [literal?, hkind, Option.some.injEq] at h
    subst h
    obtain ⟨hne, hsolid⟩ := solid_of_reference hls hkind
    exact .reference hne hsolid
  | number => exact isLeaf_of_number (number_of_literal? h hkind) hfloat
  | _ => simp [literal?, hkind] at h

/-- The expressions that are read without floating-point numbers are legible. -/
theorem Reads.legible (h : Reads t phrase ls nodes rest) (hlevels : phrase.levels ⊆ precedence)
    (hls : Lexed 0 ls)
    (hleft : ∀ left, phrase.left? = some left → left.hasFloat = false → left.Legible) :
    ∀ node ∈ nodes, node.hasFloat = false → node.Legible := by
  induction h with
  | literal word =>
    exact List.forall_mem_singleton.2 fun hfloat => .leaf (isLeaf_of_literal? word hls hfloat)
  | signed _ _ value =>
    exact List.forall_mem_singleton.2 fun hfloat => .leaf (isLeaf_of_number value hfloat)
  | list bracket items =>
    obtain ⟨⟨items, rfl, hraw⟩, -⟩ := crosses_list bracket hls items
    exact List.forall_mem_singleton.2 fun _ => .leaf (.list hraw)
  | symbol name =>
    exact List.forall_mem_singleton.2 fun _ => .leaf (.symbol (isToken_of_symbol hls name))
  | @call l ls _ _ _ name _ _ ih =>
    have hinside := (Crosses.cons name (by decide) ls).lexed hls
    refine List.forall_mem_singleton.2 fun hfloat =>
      .call (isName_of_symbol hls name) fun input hinput => ?_
    exact ih (List.nil_subset _) hinside nofun input hinput
      (Node.hasFloatEach_eq_false_iff.1 hfloat input hinput)
  | @parenCall l m _ ls _ _ _ left name _ _ _ ih =>
    have hopen := (Crosses.cons left (by decide) (m :: ls)).lexed hls
    have hinside := (Crosses.cons name (by decide) ls).lexed hopen
    refine List.forall_mem_singleton.2 fun hfloat =>
      .call (isName_of_symbol hopen name) fun input hinput => ?_
    exact ih (List.nil_subset _) hinside nofun input hinput
      (Node.hasFloatEach_eq_false_iff.1 hfloat input hinput)
  | @group _ _ ls _ _ left _ _ _ ih =>
    have hinside := (Crosses.cons left (by decide) ls).lexed hls
    exact ih (List.Subset.refl _) hinside nofun
  | @level _ _ ls mid _ left _ first _ ihFirst ihOthers =>
    have hsub := List.subset_of_cons_subset hlevels
    have hfirst := List.forall_mem_singleton.1 (ihFirst hsub hls nofun)
    refine ihOthers hlevels ((first.crosses hsub hls).lexed hls) ?_
    rintro _ ⟨⟩
    exact hfirst
  | chainEnd => exact List.forall_mem_singleton.2 (hleft _ rfl)
  | @chainStep operators levels l ls mid rest left right node name operator next _
      ihNext ihOthers =>
    have hsub := List.subset_of_cons_subset hlevels
    have hmem : operators ∈ precedence := hlevels List.mem_cons_self
    have hls' := (crosses_operator hmem operator).lexed hls
    have hright := List.forall_mem_singleton.1 (ihNext hsub hls' nofun)
    refine ihOthers hlevels ((next.crosses hsub hls').lexed hls') ?_
    rintro _ ⟨⟩ hfloat
    have hfloats := Node.hasFloatEach_eq_false_iff.1 hfloat
    rw [List.forall_mem_cons, List.forall_mem_singleton] at hfloats
    refine .call (isName_of_mem_infixNames (infix_of_operator? hmem operator).2) ?_
    rw [List.forall_mem_cons, List.forall_mem_singleton]
    exact ⟨hleft _ rfl hfloats.1, hright hfloats.2⟩
  | noInput | parenEnd => exact fun node hnode => absurd hnode List.not_mem_nil
  | input first _ ihFirst ihOthers | parenInput first _ ihFirst ihOthers =>
    have hfirst := List.forall_mem_singleton.1 (ihFirst (List.Subset.refl _) hls nofun)
    have hmid := (first.crosses (List.Subset.refl _) hls).lexed hls
    exact List.forall_mem_cons.2 ⟨hfirst, ihOthers (List.nil_subset _) hmid nofun⟩
  | @parenLine _ ls _ _ newline _ ih =>
    have hinside := (Crosses.cons newline (by decide) ls).lexed hls
    exact ih (List.nil_subset _) hinside nofun

/-! ### Programs -/

/-- The parameters of a header end where their lexemes do. -/
theorem solid_of_params {params : List Lexeme} (hls : Lexed 0 (params ++ rest))
    (hparams : ∀ p ∈ params, p.kind = .reference) :
    ∀ param ∈ params.map (·.token.unmarked), ∀ c ∈ param.toList, endsReference c = false := by
  induction params with
  | nil => exact fun param hparam => absurd hparam List.not_mem_nil
  | cons p params ih =>
    rw [List.forall_mem_cons] at hparams
    have hothers := (Crosses.cons hparams.1 (by decide) (params ++ rest)).lexed hls
    exact List.forall_mem_cons.2 ⟨(solid_of_reference hls hparams.1).2, ih hothers hparams.2⟩

/-- What a header names can be told in a print-out. -/
theorem legible_of_headerLine {h : Header} {line : Nat} (hls : Lexed 0 ls)
    (hread : headerLine ls = .ok ((h, line), rest)) :
    IsName (Text.toLower h.name) ∧ ∀ param ∈ h.params, ∀ c ∈ param.toList,
      endsReference c = false := by
  obtain ⟨o, name, params, newline, rfl, hto, hname, hparams, -, rfl, -⟩ :=
    headerLine_eq_ok_iff.1 hread
  have hopened : Lexed 0 (name :: (params ++ newline :: rest)) := by
    have htail := hls.tail
    rwa [hto] at htail
  have hinside := (Crosses.cons hname (by decide) (params ++ newline :: rest)).lexed hopened
  exact ⟨isName_of_symbol hopened hname, solid_of_params hinside hparams⟩

/-- The statements and definitions that are read without floating-point numbers are legible. -/
theorem readText_legible {keep : Bool} {text : String}
    (h : readText keep table text = (.ok nodes, table')) :
    ∀ node ∈ nodes, node.hasFloat = false → node.Legible := by
  obtain ⟨entered, steps, log, rest, -, hrun, -, rfl⟩ := program_eq_ok_iff.1 h
  have hlexed := hrun.lexed_of_mem_log (lexed_ofText text)
  obtain ⟨-, hmade⟩ := hrun.made (fun _ => True) (fun _ _ _ _ _ _ _ => trivial) trivial
  have hexpressions : ∀ step ∈ log, ∀ node, step.expression? = some node → node.hasFloat = false →
      node.Legible := by
    intro step hstep node hnode
    obtain ⟨t, -, hreads⟩ := (hmade step hstep).reads hnode
    exact List.forall_mem_singleton.1
      (hreads.legible (List.Subset.refl _) (hlexed step hstep) nofun)
  intro node hnode hfloat
  obtain ⟨step, hstep, hnode⟩ := List.mem_filterMap.1 hnode
  have hlog := hrun.steps_subset step hstep
  rcases Step.cases_node? hnode with hexpression | ⟨-, p, hp, rfl⟩
  · exact hexpressions step hlog node hexpression hfloat
  · obtain ⟨body, hbody, hstatements⟩ := (hmade step hlog).body hp
    obtain ⟨h, line, inner, _, _, _, _, _, hheader, -, -, rfl⟩ := (hmade step hlog).completes hp
    obtain ⟨isName, hsolid⟩ := legible_of_headerLine (hlexed step hlog) hheader
    cases hbody
    refine .procedure isName hsolid fun statement hstatement => ?_
    obtain ⟨inside, hinside, hexpression⟩ := hstatements statement hstatement
    have hfloats := Node.hasFloatEach_eq_false_iff.1 hfloat
    exact hexpressions inside hinside statement hexpression (hfloats statement hstatement)

end Reader

/-! ## Tree print-outs -/

/-- A print-out is that of the nodes of the text. -/
theorem exists_of_pretty_eq_value {text tree : String} {s t : Interpreter}
    (h : Interpreter.pretty text s = .value tree t) :
    ∃ nodes, readText true s.procedures text = (.ok nodes, t.procedures) ∧
      tree = String.join (nodes.map Node.tree) := by
  obtain ⟨nodes, u, hread, htree⟩ := Action.bind_eq_value_iff.1 h
  cases htree
  unfold Evaluate.read at hread
  split at hread
  · next hok =>
    cases hread
    exact ⟨nodes, hok, rfl⟩
  · cases hread

/-- Texts have the same tree print-out just if they are read as the same statements and definitions,
up to what it leaves out. -/
theorem pretty_unambiguous {text text' tree tree' : String} {s s' t t' : Interpreter}
    (h : Interpreter.pretty text s = .value tree t)
    (h' : Interpreter.pretty text' s' = .value tree' t') :
    ∃ nodes nodes', (readText true s.procedures text).1 = .ok nodes ∧
      (readText true s'.procedures text').1 = .ok nodes' ∧
      ((∀ node ∈ nodes ++ nodes', node.hasFloat = false) →
        (tree = tree' ↔ nodes.map Node.outline = nodes'.map Node.outline)) := by
  obtain ⟨nodes, hread, rfl⟩ := exists_of_pretty_eq_value h
  obtain ⟨nodes', hread', rfl⟩ := exists_of_pretty_eq_value h'
  refine ⟨nodes, nodes', congrArg Prod.fst hread, congrArg Prod.fst hread', fun hfloats => ?_⟩
  rw [List.forall_mem_append] at hfloats
  refine Node.join_tree_eq_iff (fun node hnode => ?_) fun node hnode => ?_
  · exact readText_legible hread node hnode (hfloats.1 node hnode)
  · exact readText_legible hread' node hnode (hfloats.2 node hnode)

/-- A definition, calls in parentheses and a list that looks like other lines. -/
def groupedText : String :=
  "to f :x\nf (f -1)\nend\n(f [end f/1 =>])"

/-- The same without parentheses, on other lines and with capital letters. -/
def ungroupedText : String :=
  "; f\nTo F :x\nF f -1\nEND\n\nf [end f/1 =>]"

theorem pretty_unambiguous_grouped :
    ∃ tree t t' nodes nodes', Interpreter.pretty groupedText .initial = .value tree t ∧
      Interpreter.pretty ungroupedText .initial = .value tree t' ∧
      (readText true .empty groupedText).1 = .ok nodes ∧
      (readText true .empty ungroupedText).1 = .ok nodes' ∧
      nodes.map Node.outline = nodes'.map Node.outline := by
  have hok : (readText true .empty groupedText).1.isOk = true := by
    rw [readText, Lexeme.ofText_eq]
    decide +kernel
  have hok' : (readText true .empty ungroupedText).1.isOk = true := by
    rw [readText, Lexeme.ofText_eq]
    decide +kernel
  have htree :
      (readText true .empty groupedText).1.toOption.map
          (fun nodes => String.join (nodes.map Node.tree)) =
        (readText true .empty ungroupedText).1.toOption.map
          (fun nodes => String.join (nodes.map Node.tree)) := by
    rw [readText, readText, Lexeme.ofText_eq, Lexeme.ofText_eq]
    decide +kernel
  have hfloats : (readText true .empty groupedText).1.toOption.map Node.hasFloatEach = some false ∧
      (readText true .empty ungroupedText).1.toOption.map Node.hasFloatEach = some false := by
    rw [readText, readText, Lexeme.ofText_eq, Lexeme.ofText_eq]
    decide +kernel
  obtain ⟨nodes, table, hread⟩ := exists_of_isOk hok
  obtain ⟨nodes', table', hread'⟩ := exists_of_isOk hok'
  rw [hread, hread'] at htree hfloats
  have hpretty : Interpreter.pretty groupedText .initial =
      .value (String.join (nodes.map Node.tree)) _ :=
    Action.bind_of_value (Evaluate.read_of_ok hread)
  have hpretty' : Interpreter.pretty ungroupedText .initial =
      .value (String.join (nodes'.map Node.tree)) _ :=
    Action.bind_of_value (Evaluate.read_of_ok hread')
  obtain ⟨ns, ns', hns, hns', hsame⟩ := pretty_unambiguous hpretty hpretty'
  cases (congrArg Prod.fst hread).symm.trans hns
  cases (congrArg Prod.fst hread').symm.trans hns'
  have htrees : String.join (nodes.map Node.tree) = String.join (nodes'.map Node.tree) :=
    Option.some.inj htree
  have hfree := Node.hasFloatEach_eq_false_iff.1 (Option.some.inj hfloats.1)
  have hfree' := Node.hasFloatEach_eq_false_iff.1 (Option.some.inj hfloats.2)
  rw [← htrees] at hpretty'
  refine ⟨_, _, _, nodes, nodes', hpretty, hpretty', hns, hns', ?_⟩
  exact (hsame (List.forall_mem_append.2 ⟨hfree, hfree'⟩)).1 htrees

end Logo
