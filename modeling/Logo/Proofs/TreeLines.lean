import Logo.Node.Tree
import Logo.Proofs.BracketDepth
import Logo.Proofs.Words

/-!
# The lines of a tree

A tree print-out is a sequence of lines, each at a depth.  There are four forms of lines: a call,
the header of a definition, the word that closes it, and a word or a list in source form.  Of what a
program can write none is spelled like a line of another form (`TreeLine.Legible.form_text`), and
lines of one form can be told apart (`TreeLine.Legible.text_inj`): names and parameters end at marks
that they cannot contain, and words and lists are read back from their texts.  So the lines and
their depths can be told from the whole text (`TreeLine.flatMap_chars_inj`).
-/

namespace Logo

open TokenRule Token Lexeme Reader

/-! ## Names, words and lists -/

/-- The text is a name as programs write them. -/
structure IsName (name : String) : Prop where
  starts : name.toList.head?.any startsSymbol = true
  inside : ∀ c ∈ name.toList, insideSymbol c = true

section Names

variable {name : String}

theorem IsName.exists_cons (h : IsName name) :
    ∃ c s, name.toList = c :: s ∧ startsSymbol c = true := by
  have hstarts := h.starts
  cases htext : name.toList with
  | nil =>
    rw [htext] at hstarts
    cases hstarts
  | cons c s =>
    rw [htext] at hstarts
    exact ⟨c, s, rfl, hstarts⟩

theorem IsName.notMem (h : IsName name) {c : Char} (hc : insideSymbol c = false) :
    c ∉ name.toList := by
  intro hmem
  rw [h.inside c hmem] at hc
  cases hc

end Names

/-- The nodes that a program writes with words and lists, but for floating-point numbers. -/
inductive Node.IsLeaf : Node → Prop
  | integer (value : Int64) : IsLeaf (.integer value)
  | boolean (value : Bool) : IsLeaf (.boolean value)
  | nil : IsLeaf .nil
  | quoted {text : String} (solid : ∀ c ∈ text.toList, endsWord c = false) : IsLeaf (.quoted text)
  | reference {name : String} (ne_empty : name ≠ "")
      (solid : ∀ c ∈ name.toList, endsReference c = false) : IsLeaf (.reference name)
  | symbol {text : String} (token : IsToken .symbol text) : IsLeaf (.symbol text)
  | list {items : List Node} (raw : ∀ item ∈ items, item.Raw) : IsLeaf (.list items)

/-! ## The texts of words and lists -/

theorem Node.toList_toSource_symbol (text : String) : (symbol text).toSource.toList = text.toList :=
  rfl

section Leaves

variable {node a b : Node}

namespace Node.IsLeaf

/-- A symbol is a token by itself, and the text of any other leaf spells it. -/
theorem symbol_or_spelling (h : node.IsLeaf) :
    (∃ c s, node = .symbol (String.ofList (c :: s)) ∧ WholeToken .symbol c s) ∨
      ∃ ls, Spelling .empty node.toSource.toList node ls := by
  cases h with
  | symbol token =>
    obtain ⟨c, s, rfl, hwhole⟩ := token.exists_symbol
    exact .inl ⟨c, s, rfl, hwhole⟩
  | integer value => exact .inr (Spelling.ofInteger value)
  | boolean value => exact .inr (Spelling.ofBoolean value)
  | nil => exact .inr Spelling.ofNil
  | quoted solid => exact .inr (Spelling.ofQuoted solid)
  | reference ne_empty solid => exact .inr (Spelling.ofReference ne_empty solid)
  | list raw => exact .inr ⟨_, .ofRawList raw⟩

theorem starts (h : node.IsLeaf) :
    ∃ c s, node.toSource.toList = c :: s ∧ Text.isBlank c = false := by
  rcases h.symbol_or_spelling with ⟨c, s, rfl, hwhole⟩ | ⟨ls, hspelling⟩
  · exact ⟨c, s, (toList_toSource_symbol _).trans String.toList_ofList, hwhole.not_blank⟩
  · exact hspelling.starts

theorem newline_notMem (h : node.IsLeaf) : '\n' ∉ node.toSource.toList := by
  rcases h.symbol_or_spelling with ⟨c, s, rfl, hwhole⟩ | ⟨ls, hspelling⟩
  · rw [toList_toSource_symbol, String.toList_ofList]
    exact hwhole.newline_notMem
  · exact hspelling.unbroken

/-- The lexemes of the text are read as the node.  The table is empty, so no name is called. -/
theorem read_eq (h : node.IsLeaf) :
    let ls := ofPieces false (pieces 0 node.toSource.toList)
    expression .empty (ls.length + 1) (ls ++ [Lexeme.closing]) = .ok (node, [Lexeme.closing]) := by
  have hfree : OperatorFree [Lexeme.closing] := operatorFree_plain rfl rfl rfl rfl
  rcases h.symbol_or_spelling with ⟨c, s, rfl, hwhole⟩ | ⟨ls, hspelling⟩
  · have hlexed : ofPieces false (pieces 0 (c :: s)) =
        [plain .symbol (String.ofList (c :: s))] := by
      have hpieces : pieces 0 (c :: (s ++ [])) = _ := pieces_code_token hwhole (by simp)
      rw [List.append_nil] at hpieces
      rw [hpieces, ofPieces_cons_of_isWord rfl, depthAfter_of_isWord rfl, pieces_nil, ofPieces]
    rw [toList_toSource_symbol, String.toList_ofList, hlexed]
    exact expression_of_primary rfl hfree
  · have hlexed := hspelling.lexed [] (by simp)
    rw [pieces_nil, ofPieces, List.append_nil, List.append_nil] at hlexed
    rw [hlexed]
    exact hspelling.read _ _ (Nat.le_succ _) hfree

/-- Words and lists can be told from their texts. -/
theorem eq_of_toSource_eq (ha : a.IsLeaf) (hb : b.IsLeaf)
    (h : a.toSource.toList = b.toSource.toList) : a = b := by
  have hread := ha.read_eq
  rw [h] at hread
  exact congrArg Prod.fst (Except.ok.inj (hread.symm.trans hb.read_eq))

/-- A leaf starts with a mark or a digit, or it is a word without marks inside that is not the
closing word. -/
theorem marked_or_word (h : node.IsLeaf) :
    (∃ c s, node.toSource.toList = c :: s ∧ startsSymbol c = false) ∨
      (∀ c ∈ node.toSource.toList, insideSymbol c = true) ∧
      node.toSource.toList ≠ "end".toList := by
  have hword : ∀ word ∈ ["true", "false", "nil"],
      (∀ c ∈ word.toList, insideSymbol c = true) ∧ word.toList ≠ "end".toList := by
    intro word hword
    have hall : (["true", "false", "nil"].all fun word =>
        word.toList.all insideSymbol && word.toList != "end".toList) = true := by decide
    have hchecked := List.all_eq_true.1 hall word hword
    rwa [Bool.and_eq_true, List.all_eq_true, bne_iff_ne] at hchecked
  cases h with
  | integer value =>
    rcases toList_toSource_integer value with ⟨n, -, htext⟩ | ⟨n, -, htext⟩
    · obtain ⟨c, s, hdigits⟩ := List.exists_cons_of_ne_nil (Nat.toDigits_ne_nil (n := n) (b := 10))
      have hc : c.isDigit = true :=
        Nat.isDigit_of_mem_toDigits (by decide) (by decide) (hdigits ▸ List.mem_cons_self)
      have hall : (['0', '1', '2', '3', '4', '5', '6', '7', '8', '9'].all fun d =>
          !startsSymbol d) = true := by
        decide
      refine .inl ⟨c, s, htext.trans hdigits, ?_⟩
      simpa using List.all_eq_true.1 hall c (mem_digits_of_isDigit hc)
    · exact .inl ⟨'-', _, htext, rfl⟩
  | boolean value => cases value <;> exact .inr (hword _ (by simp [toSource, display]))
  | nil => exact .inr (hword _ (by simp [toSource, display]))
  | quoted => exact .inl ⟨'"', _, toList_toSource_quoted _, rfl⟩
  | reference => exact .inl ⟨':', _, toList_toSource_reference _, rfl⟩
  | list => exact .inl ⟨'[', _, toList_toSource_list _, rfl⟩
  | symbol token =>
    obtain ⟨c, s, rfl, hwhole⟩ := token.exists_symbol
    have hinside := insideSymbol_of_longest hwhole.longest_eq
    rw [Nat.add_sub_cancel, List.take_length] at hinside
    rw [toList_toSource_symbol, String.toList_ofList]
    refine .inr ⟨hinside, fun hend => ?_⟩
    have hlongest := hwhole.longest_eq
    have hclose : longest code "end".toList = (.endWord, 3) := by decide +kernel
    rw [hend, hclose] at hlongest
    cases hlongest

end Node.IsLeaf

end Leaves

/-! ## Lines -/

/-- A line of a tree, without its indentation. -/
inductive TreeLine where
  | call (name : String) (arity : Nat)
  | header (name : String) (params : List String)
  | close
  | leaf (node : Node)

namespace TreeLine

/-- The text of a line. -/
def text : TreeLine → String
  | call name arity => name ++ "/" ++ toString arity ++ " =>"
  | header name params => "to " ++ name ++ String.join (params.map (" :" ++ ·))
  | close => "end"
  | leaf node => node.toSource

/-- The line is one that the tree of a legible node can have. -/
inductive Legible : TreeLine → Prop
  | call {name : String} {arity : Nat} (isName : IsName name) : Legible (.call name arity)
  | header {name : String} {params : List String} (isName : IsName name)
      (solid : ∀ param ∈ params, ∀ c ∈ param.toList, endsReference c = false) :
      Legible (.header name params)
  | close : Legible .close
  | leaf {node : Node} (isLeaf : node.IsLeaf) : Legible (.leaf node)

variable {line line' : TreeLine}

theorem toList_text_call (name : String) (arity : Nat) :
    (call name arity).text.toList =
      name.toList ++ '/' :: (Nat.toDigits 10 arity ++ " =>".toList) := by
  simp [text, String.toList_append, Nat.toString_eq_repr, Nat.toList_repr]

/-- The parameters as they stand in a header. -/
def paramChars (params : List String) : List Char :=
  params.flatMap fun param => ' ' :: ':' :: param.toList

theorem toList_text_header (name : String) (params : List String) :
    (header name params).text.toList =
      't' :: 'o' :: ' ' :: (name.toList ++ paramChars params) := by
  simp [text, paramChars, String.toList_append, String.toList_join, List.flatMap_map]

/-- A mark that ends names and parameters is not in a header. -/
theorem notMem_text_header {name : String} {params : List String} (isName : IsName name)
    (solid : ∀ param ∈ params, ∀ c ∈ param.toList, endsReference c = false) {c : Char}
    (hc : c ∉ "to :".toList ∧ insideSymbol c = false ∧ endsReference c = true) :
    c ∉ (header name params).text.toList := by
  obtain ⟨hword, hname, hparam⟩ := hc
  have hword' : c ≠ 't' ∧ c ≠ 'o' ∧ c ≠ ' ' ∧ c ≠ ':' := by simpa using hword
  obtain ⟨ht, ho, hspace, hcolon⟩ := hword'
  rw [toList_text_header, paramChars]
  simp only [List.mem_cons, List.mem_append, List.mem_flatMap, not_or, not_exists, not_and]
  refine ⟨ht, ho, hspace, isName.notMem hname, fun param hmem => ⟨hspace, hcolon, fun hchar => ?_⟩⟩
  rw [solid param hmem c hchar] at hparam
  cases hparam

/-! ### The form of a line -/

/-- The forms of lines. -/
inductive Form where
  | call
  | header
  | close
  | leaf

/-- The form of the line. -/
def form : TreeLine → Form
  | call .. => .call
  | header .. => .header
  | close => .close
  | leaf _ => .leaf

/-- The form of a line, told from its characters. -/
def Form.ofText (text : List Char) : Form :=
  if text.head?.any startsSymbol then
    if '/' ∈ text then .call
    else if ' ' ∈ text then .header
    else if text = "end".toList then .close
    else .leaf
  else .leaf

/-- No line is spelled like a line of another form. -/
theorem Legible.form_text (h : line.Legible) : Form.ofText line.text.toList = line.form := by
  unfold Form.ofText
  cases h with
  | @call name arity isName =>
    obtain ⟨c, s, hname, hc⟩ := isName.exists_cons
    rw [toList_text_call, hname]
    simp [hc, form]
  | @header name params isName solid =>
    rw [if_neg (notMem_text_header isName solid (by decide)), toList_text_header]
    simp [form]
    decide
  | close => rfl
  | @leaf node isLeaf =>
    have hleaf : (TreeLine.leaf node).text = node.toSource := rfl
    rw [hleaf]
    rcases isLeaf.marked_or_word with ⟨c, s, htext, hc⟩ | ⟨hinside, hend⟩
    · simp [htext, hc, form]
    · have hslash : '/' ∉ node.toSource.toList := fun hmem => absurd (hinside _ hmem) (by decide)
      have hspace : ' ' ∉ node.toSource.toList := fun hmem => absurd (hinside _ hmem) (by decide)
      rw [if_neg hslash, if_neg hspace, if_neg hend, ite_self]
      rfl

/-! ### Telling lines from their characters -/

section Marks

variable {mark : Char} {xs ys s t : List Char}

/-- A text is cut in one way only before its first mark. -/
theorem append_inj_of_mark (hxs : mark ∉ xs) (hys : mark ∉ ys)
    (hs : ∀ c, s.head? = some c → c = mark) (ht : ∀ c, t.head? = some c → c = mark)
    (h : xs ++ s = ys ++ t) : xs = ys ∧ s = t := by
  have hfront : ∀ {front rest : List Char}, mark ∉ front → (∀ c, rest.head? = some c → c = mark) →
      (front ++ rest).takeWhile (· != mark) = front := by
    intro front rest hfront hrest
    rw [List.takeWhile_append_of_pos fun c hc => bne_iff_ne.2 (ne_of_mem_of_not_mem hc hfront)]
    cases rest with
    | nil => simp
    | cons c rest => simp [hrest c rfl]
  have hxy : xs = ys := by rw [← hfront hxs hs, h, hfront hys ht]
  subst hxy
  exact ⟨rfl, List.append_cancel_left h⟩

end Marks

theorem head_paramChars (params : List String) (c : Char) (h : (paramChars params).head? = some c) :
    c = ' ' := by
  cases params with
  | nil => cases h
  | cons param params =>
    cases h
    rfl

theorem paramChars_inj {params params' : List String}
    (hsolid : ∀ param ∈ params, ∀ c ∈ param.toList, endsReference c = false)
    (hsolid' : ∀ param ∈ params', ∀ c ∈ param.toList, endsReference c = false)
    (h : paramChars params = paramChars params') : params = params' := by
  have hspace : ∀ {param : String}, (∀ c ∈ param.toList, endsReference c = false) →
      ' ' ∉ param.toList :=
    fun hparam hmem => absurd (hparam _ hmem) (by decide)
  induction params generalizing params' with
  | nil =>
    cases params' with
    | nil => rfl
    | cons => cases h
  | cons param params ih =>
    cases params' with
    | nil => cases h
    | cons param' params' =>
      rw [List.forall_mem_cons] at hsolid hsolid'
      have hmore : param.toList ++ paramChars params = param'.toList ++ paramChars params' :=
        (List.cons.inj (List.cons.inj h).2).2
      obtain ⟨hparam, hothers⟩ := append_inj_of_mark (hspace hsolid.1) (hspace hsolid'.1)
        (head_paramChars params) (head_paramChars params') hmore
      rw [String.toList_inj.1 hparam, ih hsolid.2 hsolid'.2 hothers]

/-- The characters of a legible line determine it. -/
theorem Legible.text_inj (h : line.Legible) (h' : line'.Legible)
    (htext : line.text.toList = line'.text.toList) : line = line' := by
  have hform := h.form_text
  rw [htext, h'.form_text] at hform
  cases h with
  | @call name arity isName =>
    cases h' with
    | @call name' arity' isName' =>
      rw [toList_text_call, toList_text_call] at htext
      have hslash : ∀ {name : String}, IsName name → '/' ∉ name.toList :=
        fun isName => isName.notMem (by decide)
      have hspace : ∀ n, ' ' ∉ Nat.toDigits 10 n := fun n hmem =>
        absurd (Nat.isDigit_of_mem_toDigits (by decide) (by decide) hmem) (by decide)
      obtain ⟨hname, harities⟩ :=
        append_inj_of_mark (hslash isName) (hslash isName') (by simp) (by simp) htext
      obtain ⟨harity, -⟩ := append_inj_of_mark (hspace arity) (hspace arity') (by simp) (by simp)
        (List.cons.inj harities).2
      rw [String.toList_inj.1 hname, ← Decimal.digitsValue_toDigits arity, harity,
        Decimal.digitsValue_toDigits]
    | header | close | leaf => cases hform
  | @header name params isName solid =>
    cases h' with
    | @header name' params' isName' solid' =>
      rw [toList_text_header, toList_text_header] at htext
      simp only [List.cons.injEq, true_and] at htext
      obtain ⟨hname, hparams⟩ :=
        append_inj_of_mark (isName.notMem (by decide)) (isName'.notMem (by decide))
        (head_paramChars params) (head_paramChars params') htext
      rw [String.toList_inj.1 hname, paramChars_inj solid solid' hparams]
    | call | close | leaf => cases hform
  | close =>
    cases h' with
    | close => rfl
    | call | header | leaf => cases hform
  | leaf isLeaf =>
    cases h' with
    | leaf isLeaf' => exact congrArg TreeLine.leaf (isLeaf.eq_of_toSource_eq isLeaf' htext)
    | call | header | close => cases hform

/-! ### Lines at their depths -/

theorem Legible.starts (h : line.Legible) : ∃ c s, line.text.toList = c :: s ∧ c ≠ ' ' := by
  cases h with
  | @call name arity isName =>
    obtain ⟨c, s, hname, hc⟩ := isName.exists_cons
    refine ⟨c, s ++ '/' :: (Nat.toDigits 10 arity ++ " =>".toList), ?_, ?_⟩
    · rw [toList_text_call, hname, List.cons_append]
    · rintro rfl
      exact absurd hc (by decide)
  | @header name params => exact ⟨'t', _, toList_text_header name params, by decide⟩
  | close => exact ⟨'e', ['n', 'd'], rfl, by decide⟩
  | leaf isLeaf =>
    obtain ⟨c, s, htext, hc⟩ := isLeaf.starts
    refine ⟨c, s, htext, ?_⟩
    rintro rfl
    exact absurd hc (by decide)

theorem Legible.newline_notMem (h : line.Legible) : '\n' ∉ line.text.toList := by
  cases h with
  | @call name arity isName =>
    rw [toList_text_call, List.mem_append, List.mem_cons, List.mem_append]
    rintro (hmem | hmem | hmem | hmem)
    · exact isName.notMem (by decide) hmem
    · exact absurd hmem (by decide)
    · exact absurd (Nat.isDigit_of_mem_toDigits (by decide) (by decide) hmem) (by decide)
    · exact absurd hmem (by decide)
  | header isName solid => exact notMem_text_header isName solid (by decide)
  | close => decide
  | leaf isLeaf => exact isLeaf.newline_notMem

/-- The characters of a line at a depth. -/
def chars (line : Nat × TreeLine) : List Char :=
  List.replicate (2 * line.1) ' ' ++ (line.2.text.toList ++ ['\n'])

theorem takeWhile_chars {first : Nat × TreeLine} (h : first.2.Legible) (s : List Char) :
    (chars first ++ s).takeWhile (· == ' ') = List.replicate (2 * first.1) ' ' := by
  obtain ⟨c, more, htext, hc⟩ := h.starts
  rw [chars, htext, List.append_assoc,
    List.takeWhile_append_of_pos fun d hd => beq_iff_eq.2 (List.eq_of_mem_replicate hd)]
  simp [hc]

/-- The indentation and the end of a line can be told from what stands between them. -/
theorem chars_append_inj {first first' : Nat × TreeLine} (h : first.2.Legible)
    (h' : first'.2.Legible) {s t : List Char} (heq : chars first ++ s = chars first' ++ t) :
    first = first' ∧ s = t := by
  have hdepth : first.1 = first'.1 := by
    have hindent := takeWhile_chars h s
    rw [heq, takeWhile_chars h' t] at hindent
    have hlength := congrArg List.length hindent
    simp only [List.length_replicate] at hlength
    omega
  simp only [chars, hdepth, List.append_assoc, List.append_cancel_left_eq] at heq
  obtain ⟨htext, hrest⟩ :=
    append_inj_of_mark h.newline_notMem h'.newline_notMem (by simp) (by simp) heq
  exact ⟨Prod.ext hdepth (h.text_inj h' htext), List.append_cancel_left hrest⟩

/-- The lines can be told from the text. -/
theorem flatMap_chars_inj {lines lines' : List (Nat × TreeLine)}
    (h : ∀ line ∈ lines, line.2.Legible) (h' : ∀ line ∈ lines', line.2.Legible)
    (heq : lines.flatMap chars = lines'.flatMap chars) : lines = lines' := by
  have hne : ∀ {first : Nat × TreeLine} {others : List (Nat × TreeLine)},
      (first :: others).flatMap chars ≠ [] := by
    simp [chars]
  induction lines generalizing lines' with
  | nil =>
    cases lines' with
    | nil => rfl
    | cons => exact absurd heq.symm hne
  | cons first others ih =>
    cases lines' with
    | nil => exact absurd heq hne
    | cons first' others' =>
      rw [List.forall_mem_cons] at h h'
      rw [List.flatMap_cons, List.flatMap_cons] at heq
      obtain ⟨rfl, hothers⟩ := chars_append_inj h.1 h'.1 heq
      rw [ih h.2 h'.2 hothers]

end TreeLine

end Logo
