import Logo.Proofs.Definitions
import Logo.Proofs.Places

/-!
# The shape of what is read

Whether a word is a call, and how many inputs the call has, is decided by a table that changes while
the program is read.  But the headers and aliases have settled which names are taken before the
first statement is read (`Run.made_sameNames`); and if every header has its own number of inputs
there, they have settled the numbers of inputs as well (`Run.made_sameArities`).  So the nodes of a
program can be judged by the table that is left at the end (`readText_shaped`).
-/

namespace Logo

namespace ProcedureTable

/-- The tables know procedures under the same names. -/
def SameNames (table table' : ProcedureTable) : Prop :=
  ∀ key, (table.entries.get? key).isSome = (table'.entries.get? key).isSome

variable {table table' : ProcedureTable} {p : Procedure} {name : String}

theorem SameNames.defines_eq (h : SameNames table table') (name : String) :
    table.defines name = table'.defines name :=
  h (Text.toLower name)

/-- Defining a procedure under a known key keeps the names the same. -/
theorem SameNames.define (h : SameNames table table')
    (hkey : (table'.entries.get? p.key).isSome = true) : SameNames (table.define p) table' := by
  intro key
  rw [get?_define]
  split
  · next heq =>
    rw [heq, hkey]
    rfl
  · exact h key

/-- Storing a procedure with as many inputs as the other table has under its key keeps the arities
the same. -/
theorem SameArities.define_left (h : SameArities table table')
    (hkey : (table'.entries.get? p.key).map Procedure.arity = some p.arity) :
    SameArities (table.define p) table' := by
  intro key
  rw [get?_define]
  split
  · next heq =>
    rw [heq, hkey]
    rfl
  · exact h key

theorem SameArities.symm (h : SameArities table table') : SameArities table' table :=
  fun key => (h key).symm

theorem SameArities.trans {table'' : ProcedureTable} (h : SameArities table table')
    (h' : SameArities table' table'') : SameArities table table'' :=
  fun key => (h key).trans (h' key)

theorem arity?_isSome (table : ProcedureTable) (name : String) :
    (table.arity? name).isSome = table.defines name :=
  Option.isSome_map

end ProcedureTable

/-- A node as it is read, judged by a table: calls without parentheses have all their inputs, names
are called just if they are taken, and what stands in lists is raw.  With `exact`, the calls made
from names have the number of inputs that the table says. -/
inductive Node.Shaped (table : ProcedureTable) (exact : Bool) : Node → Prop
  | integer {value : Int64} : Shaped table exact (.integer value)
  | float {value : Float} : Shaped table exact (.float value)
  | boolean {value : Bool} : Shaped table exact (.boolean value)
  | nil : Shaped table exact .nil
  | quoted {text : String} : Shaped table exact (.quoted text)
  | reference {name : String} : Shaped table exact (.reference name)
  | symbol {text : String} (undefined : table.defines text = false) :
      Shaped table exact (.symbol text)
  | list {items : List Node} (raw : ∀ item ∈ items, item.Raw) : Shaped table exact (.list items)
  | operation {name : String} {left right : Node} (operator : name ∈ Reader.infixNames)
      (left_shaped : Shaped table exact left) (right_shaped : Shaped table exact right) :
      Shaped table exact (.call name 2 [left, right] false)
  | call {name : String} {arity : Nat} {inputs : List Node} {parenthesized : Bool}
      (defined : table.defines name = true)
      (arity_eq : exact = true → table.arity? name = some arity)
      (length_eq : parenthesized = false → inputs.length = arity)
      (inputs_shaped : ∀ input ∈ inputs, Shaped table exact input) :
      Shaped table exact (.call name arity inputs parenthesized)

theorem Node.Shaped.type_ne {table : ProcedureTable} {exact : Bool} {node : Node}
    (h : node.Shaped table exact) : node.type ≠ .procedure := by
  cases h <;> exact nofun

namespace Reader

variable {table table' t entered : ProcedureTable} {phrase : Phrase} {exact : Bool} {l : Lexeme}
  {ls mid rest : List Lexeme} {node : Node} {nodes : List Node} {steps log : List Step} {n : Nat}

/-! ## Phrases -/

theorem number_cases {token : Token} {text : String} (h : number token text = .ok node) :
    (∃ value, node = .integer value) ∨ ∃ value, node = .float value := by
  rw [number] at h
  split at h
  · cases h
    exact .inl ⟨_, rfl⟩
  · split at h <;> cases h
    exact .inr ⟨_, rfl⟩

theorem shaped_of_number {token : Token} {text : String} (h : number token text = .ok node) :
    node.Shaped table exact := by
  obtain ⟨value, rfl⟩ | ⟨value, rfl⟩ := number_cases h <;> constructor

theorem number_of_literal? (h : literal? l = some node) (hkind : l.kind = .number) :
    number l.token l.token.text = .ok node := by
  simp only [literal?, hkind] at h
  cases hnumber : number l.token l.token.text with
  | error e => simp [hnumber, Except.toOption] at h
  | ok read => simpa [hnumber, Except.toOption] using h

/-- A literal has the shape of a leaf. -/
theorem shaped_of_literal? (h : literal? l = some node) : node.Shaped table exact := by
  cases hkind : l.kind with
  | trueWord | falseWord | nilWord | quote | reference =>
    simp only [literal?, hkind, Option.some.injEq] at h
    subst h
    constructor
  | number => exact shaped_of_number (number_of_literal? h hkind)
  | _ => simp [literal?, hkind] at h

theorem toLower_of_mem_infixNames {name : String} (h : name ∈ infixNames) :
    Text.toLower name = name := by
  have hall : (infixNames.all fun name => Text.toLower name == name) = true := by decide +kernel
  exact beq_iff_eq.1 (List.all_eq_true.1 hall name h)

/-- A phrase of inputs has as many nodes as the procedure asks for. -/
theorem Reads.length_inputs (h : Reads table phrase ls nodes rest) :
    phrase = .inputs n → nodes.length = n := by
  induction h generalizing n with
  | noInput =>
    rintro ⟨⟩
    rfl
  | input _ _ _ ih =>
    rintro ⟨⟩
    rw [List.length_cons, ih rfl]
  | _ => exact nofun

/-- The operand that stands before a phrase. -/
def Phrase.left? : Phrase → Option Node
  | .chain _ _ left => some left
  | _ => none

/-- A name that is called is taken, also when it is looked up in lower case. -/
theorem called_of_arity? {l : Lexeme} {arity : Nat} (defined : t.arity? l.token.text = some arity)
    (hnames : t.SameNames table) (hexact : exact = true → t.SameArities table) :
    table.defines (Text.toLower l.token.text) = true ∧
      (exact = true → table.arity? (Text.toLower l.token.text) = some arity) := by
  have hlower := Text.toLower_toLower l.token.text
  constructor
  · rw [ProcedureTable.defines, ProcedureTable.lookup?, hlower, ← hnames]
    exact (t.arity?_isSome _).symm.trans (by rw [defined]; rfl)
  · intro hex
    rw [ProcedureTable.arity?, ProcedureTable.lookup?, hlower, ← hexact hex]
    exact defined

/-- What is read is judged alike by every table with the same names. -/
theorem Reads.shaped (h : Reads t phrase ls nodes rest) (hlevels : phrase.levels ⊆ precedence)
    (hls : Lexed 0 ls) (hnames : t.SameNames table) (hexact : exact = true → t.SameArities table)
    (hleft : ∀ left, phrase.left? = some left → left.Shaped table exact) :
    ∀ node ∈ nodes, node.Shaped table exact := by
  induction h with
  | literal word => exact List.forall_mem_singleton.2 (shaped_of_literal? word)
  | signed _ _ value => exact List.forall_mem_singleton.2 (shaped_of_number value)
  | list bracket items =>
    obtain ⟨⟨items, rfl, hraw⟩, -⟩ := crosses_list bracket hls items
    exact List.forall_mem_singleton.2 (.list hraw)
  | @symbol l _ _ undefined =>
    refine List.forall_mem_singleton.2 (.symbol ?_)
    rw [← hnames.defines_eq, ← t.arity?_isSome, undefined]
    rfl
  | @call l ls _ _ _ name defined inputs_read ih =>
    obtain ⟨hdefined, harity⟩ := called_of_arity? defined hnames hexact
    have hinside := (Crosses.cons name (by decide) ls).lexed hls
    refine List.forall_mem_singleton.2
      (.call hdefined harity (fun _ => inputs_read.length_inputs rfl) ?_)
    exact ih (List.nil_subset _) hinside nofun
  | @parenCall l m _ ls _ _ _ left name defined _ _ ih =>
    have hopen := (Crosses.cons left (by decide) (m :: ls)).lexed hls
    have hinside := (Crosses.cons name (by decide) ls).lexed hopen
    obtain ⟨hdefined, harity⟩ := called_of_arity? defined hnames hexact
    refine List.forall_mem_singleton.2 (.call hdefined harity nofun ?_)
    exact ih (List.nil_subset _) hinside nofun
  | @group _ _ ls _ _ left _ _ _ ih =>
    have hinside := (Crosses.cons left (by decide) ls).lexed hls
    exact ih (List.Subset.refl _) hinside nofun
  | @level _ _ ls mid _ left _ first _ ihFirst ihOthers =>
    have hsub := List.subset_of_cons_subset hlevels
    have hfirst := List.forall_mem_singleton.1 (ihFirst hsub hls nofun)
    refine ihOthers hlevels ((first.crosses hsub hls).lexed hls) ?_
    rintro _ ⟨⟩
    exact hfirst
  | chainEnd => exact List.forall_mem_singleton.2 (hleft _ rfl)
  | @chainStep operators levels l ls mid rest left right node name operator next _
      ihNext ihOthers =>
    have hsub := List.subset_of_cons_subset hlevels
    have hmem : operators ∈ precedence := hlevels List.mem_cons_self
    have hls' := (crosses_operator hmem operator).lexed hls
    have hright := List.forall_mem_singleton.1 (ihNext hsub hls' nofun)
    refine ihOthers hlevels ((next.crosses hsub hls').lexed hls') ?_
    rintro _ ⟨⟩
    have hinfix := (infix_of_operator? hmem operator).2
    rw [Node.plainCall, toLower_of_mem_infixNames hinfix]
    exact .operation hinfix (hleft _ rfl) hright
  | noInput | parenEnd => exact fun node hnode => absurd hnode List.not_mem_nil
  | input first _ ihFirst ihOthers | parenInput first _ ihFirst ihOthers =>
    have hfirst := List.forall_mem_singleton.1 (ihFirst (List.Subset.refl _) hls nofun)
    have hmid := (first.crosses (List.Subset.refl _) hls).lexed hls
    exact List.forall_mem_cons.2 ⟨hfirst, ihOthers (List.nil_subset _) hmid nofun⟩
  | @parenLine _ ls _ _ newline _ ih =>
    have hinside := (Crosses.cons newline (by decide) ls).lexed hls
    exact ih (List.nil_subset _) hinside nofun

/-! ## Programs -/

/-- Every header of the text has an entry behind the two passes. -/
theorem Entered.isSome_get? {heading : Procedure} (h : Entered table ls entered)
    (hheading : heading ∈ headings ls) : (entered.entries.get? heading.key).isSome = true := by
  obtain ⟨_, p, _, -, -, -, hget⟩ :=
    ProcedureTable.exists_last_defineAll table ⟨heading, hheading, rfl⟩
  refine ProcedureTable.isSome_get?_addAliases h.2 ?_
  rw [hget]
  rfl

/-- The last pass takes no name that was not taken before it. -/
theorem Run.made_sameNames (hrun : Run entered ls steps log table' rest)
    (h : Entered table ls entered) :
    table'.SameNames entered ∧ ∀ step ∈ log, step.Made (·.SameNames entered) log := by
  refine hrun.made (·.SameNames entered) (fun heading hheading t p hkey _ ht => ht.define ?_)
    (fun _ => rfl)
  rw [hkey]
  exact h.isSome_get? hheading

/-- Every header finds its own number of inputs under its name. -/
def Settled (entered : ProcedureTable) (ls : List Lexeme) : Prop :=
  ∀ heading ∈ headings ls, entered.arity? heading.name = some heading.arity

/-- The last pass changes no number of inputs that is right before it. -/
theorem Run.made_sameArities (hrun : Run entered ls steps log table' rest)
    (hsettled : Settled entered ls) :
    table'.SameArities entered ∧ ∀ step ∈ log, step.Made (·.SameArities entered) log := by
  refine hrun.made (·.SameArities entered) (fun heading hheading t p hkey hparams ht => ?_)
    (fun _ => rfl)
  refine ht.define_left ?_
  rw [hkey, Procedure.arity, hparams]
  exact hsettled heading hheading

/-- An expression that was made in a run was read with some table that is stable. -/
theorem Step.Made.reads {Stable : ProcedureTable → Prop} {step : Step}
    (hmade : step.Made Stable log) (hnode : step.expression? = some node) :
    ∃ t, Stable t ∧ Reads t (.operand precedence) step.start [node] step.rest := by
  obtain ⟨t, inside, t', ht, hrun, -⟩ := hmade
  obtain ⟨start, s, rest⟩ := step
  cases hrun with
  | blank | definition => cases hnode
  | expression first others =>
    cases hnode
    cases others
    exact ⟨t, ht, first⟩

/-- The statements of a body are in the log. -/
theorem Step.Made.body {Stable : ProcedureTable → Prop} {step : Step} {p : Procedure}
    (hmade : step.Made Stable log) (hp : step.procedure? = some p) :
    ∃ body, p.body = .user body ∧ ∀ node ∈ body, ∃ s ∈ log, s.expression? = some node := by
  obtain ⟨t, inside, t', -, hrun, hinside⟩ := hmade
  obtain ⟨start, s, rest⟩ := step
  cases hrun with
  | blank | expression => cases hp
  | definition opening body closing complete_eq others =>
    cases hp
    refine ⟨_, congrArg Procedure.body complete_eq, fun node hnode => ?_⟩
    obtain ⟨s, hs, hexpression⟩ := List.mem_filterMap.1 hnode
    exact ⟨s, hinside (List.mem_append_left _ (body.steps_subset s hs)), hexpression⟩

theorem Step.cases_node? {keep : Bool} {step : Step} (h : step.node? keep = some node) :
    step.expression? = some node ∨ keep = true ∧ ∃ p, step.procedure? = some p ∧
      node = .procedure p := by
  obtain ⟨start, s, rest⟩ := step
  cases s with
  | blank => cases h
  | expression => exact .inl h
  | definition p =>
    cases keep with
    | false => cases h
    | true => exact .inr ⟨rfl, p, rfl, (Option.some.inj h).symm⟩

/-- Every call made from a name is one that the table at the end asks for. -/
theorem Run.reads_of_settled (hrun : Run entered ls steps log table' rest)
    (hsettled : Settled entered ls) :
    ∀ step ∈ log, ∀ node, step.expression? = some node →
      Reads table' (.operand precedence) step.start [node] step.rest := by
  obtain ⟨harities, hmade⟩ := hrun.made_sameArities hsettled
  intro step hstep node hnode
  obtain ⟨t, ht, hreads⟩ := (hmade step hstep).reads hnode
  exact hreads.congr (List.Subset.refl _) (ht.trans harities.symm)

/-- Whatever expression a run leaves is shaped with regard to the table at its end. -/
theorem Run.shaped (hrun : Run entered ls steps log table' rest)
    (hentered : Entered table ls entered) (hls : Lexed 0 ls)
    (hexact : exact = true → Settled entered ls) :
    ∀ step ∈ log, ∀ node, step.expression? = some node → node.Shaped table' exact := by
  obtain ⟨hnames, hmade⟩ := hrun.made_sameNames hentered
  intro step hstep node hnode
  have hstart := hrun.lexed_of_mem_log hls step hstep
  cases exact with
  | true =>
    have hreads := hrun.reads_of_settled (hexact rfl) step hstep node hnode
    exact List.forall_mem_singleton.1
      (hreads.shaped (List.Subset.refl _) hstart (fun _ => rfl) (fun _ _ => rfl) nofun)
  | false =>
    obtain ⟨t, ht, hreads⟩ := (hmade step hstep).reads hnode
    have hsame : t.SameNames table' := fun key => (ht key).trans (hnames key).symm
    exact List.forall_mem_singleton.1 (hreads.shaped (List.Subset.refl _) hstart hsame nofun nofun)

/-- Whatever is read has the shape of a program, judged by the table that is left. -/
theorem readText_shaped {keep : Bool} {text : String} {nodes : List Node}
    (hread : readText keep table text = (.ok nodes, table')) :
    ∃ entered steps log rest, Entered table (Lexeme.ofText text) entered ∧
      Run entered (Lexeme.ofText text) steps log table' rest ∧ (ahead rest).kind = .eof ∧
      nodes = steps.filterMap (Step.node? keep) ∧
      (∀ exact, (exact = true → Settled entered (Lexeme.ofText text)) →
        (∀ node ∈ nodes, node.Shaped table' exact ∨
          keep = true ∧ ∃ p ∈ log.filterMap Step.procedure?, node = .procedure p) ∧
        ∀ p ∈ log.filterMap Step.procedure?,
          ∃ body, p.body = .user body ∧ ∀ node ∈ body, node.Shaped table' exact) ∧
      (Settled entered (Lexeme.ofText text) → ∀ step ∈ log, ∀ node, step.expression? = some node →
        Reads table' (.operand precedence) step.start [node] step.rest) := by
  obtain ⟨entered, steps, log, rest, hentered, hrun, heof, rfl⟩ := program_eq_ok_iff.1 hread
  refine ⟨entered, steps, log, rest, hentered, hrun, heof, rfl, fun exact hexact => ?_,
    hrun.reads_of_settled⟩
  have hshaped := hrun.shaped hentered (lexed_ofText text) hexact
  constructor
  · intro node hnode
    obtain ⟨step, hstep, hnode⟩ := List.mem_filterMap.1 hnode
    have hlog := hrun.steps_subset step hstep
    rcases Step.cases_node? hnode with hexpression | ⟨hkeep, p, hp, rfl⟩
    · exact .inl (hshaped step hlog node hexpression)
    · exact .inr ⟨hkeep, p, List.mem_filterMap.2 ⟨step, hlog, hp⟩, rfl⟩
  · intro p hp
    obtain ⟨step, hstep, hp⟩ := List.mem_filterMap.1 hp
    obtain ⟨-, hmade⟩ := hrun.made_sameNames hentered
    obtain ⟨body, hbody, hnodes⟩ := (hmade step hstep).body hp
    refine ⟨body, hbody, fun node hnode => ?_⟩
    obtain ⟨s, hs, hexpression⟩ := hnodes node hnode
    exact hshaped s hs node hexpression

/-- A call before the definition of the procedure, an operator, a list and a word that names
nothing. -/
def forwardText : String :=
  "to f :x\nG :x [p (q]\nend\nto g :a :b\nend\nf 2 + 1 word\n"

theorem readText_shaped_forward :
    ∃ nodes table', readText false .empty forwardText = (.ok nodes, table') ∧ nodes.length = 2 ∧
      table'.arity? "G" = some 2 ∧ ∀ node ∈ nodes, node.Shaped table' true := by
  have hok : (readText false .empty forwardText).1.isOk = true := by
    rw [readText, Lexeme.ofText_eq]
    decide +kernel
  have hlength : (readText false .empty forwardText).1.toOption.map List.length = some 2 := by
    rw [readText, Lexeme.ofText_eq]
    decide +kernel
  have harity : (readText false .empty forwardText).2.arity? "G" = some 2 := by
    rw [readText, Lexeme.ofText_eq]
    decide +kernel
  have hdirectives : directives (Lexeme.ofText forwardText) = [] := by
    rw [Lexeme.ofText_eq]
    decide +kernel
  have hheadings : ((headings (Lexeme.ofText forwardText)).all fun heading =>
      (ProcedureTable.empty.defineAll (headings (Lexeme.ofText forwardText))).arity? heading.name ==
        some heading.arity) = true := by
    rw [Lexeme.ofText_eq]
    decide +kernel
  obtain ⟨nodes, table', hread⟩ := exists_of_isOk hok
  rw [hread] at hlength harity
  obtain ⟨entered, _, _, _, ⟨-, haliases⟩, -, -, -, hshaped, -⟩ := readText_shaped hread
  rw [hdirectives] at haliases
  cases haliases
  have hsettled : Settled _ (Lexeme.ofText forwardText) := fun heading hheading =>
    beq_iff_eq.1 (List.all_eq_true.1 hheadings heading hheading)
  refine ⟨nodes, table', hread, Option.some.inj hlength, harity, fun node hnode => ?_⟩
  rcases (hshaped true fun _ => hsettled).1 node hnode with h | ⟨⟨⟩, -⟩
  exact h

end Reader

end Logo
