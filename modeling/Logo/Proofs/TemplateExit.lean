import Logo.Proofs.BlockExit
import Logo.Proofs.Canonical
import Logo.Proofs.Library

/-!
# Exits from templates

The procedures that run a template on one element after the other look at what each run gives, and
not at the flag.  So an exit inside of a template ends the run on one element only.  The iteration
goes on with the value of the exit in the place of a result (`Stage.resume`), and the body around it
ends behind the iteration, with whatever the iteration makes of its results
(`apply_of_exitsTemplate`).
-/

namespace Logo

open Library

/-- The procedures that run a template on the elements of a sequence. -/
inductive Iteration where
  | map
  | filter
  | find

namespace Iteration

/-- The primitive that iterates. -/
def primitive : Iteration → Primitive
  | map => .map
  | filter => .filter
  | find => .find

/-- The iteration goes on behind a run of the template that gives this result. -/
def GoesOn : Iteration → Node → Prop
  | map, _ => True
  | filter, result => ∃ keep, result = .boolean keep
  | find, result => result = .boolean false

end Iteration

namespace Library.Sequence

/-- The result of a map: the texts as a list of words or as one word. -/
def collect : Sequence → List String → Node
  | items _, texts => .list (texts.map .symbol)
  | characters _, texts => .quoted (String.join texts)

/-- The result of a filter: what is kept, as a list or as a word. -/
def keep : Sequence → List Node → Node
  | items _, kept => .list kept
  | characters _, kept => .quoted (String.join (kept.map Node.display))

end Library.Sequence

/-- An iteration at one of its elements. -/
structure Stage where
  iteration : Iteration
  template : List Node
  sequence : Sequence
  /-- The elements before, each with the result of the template for it. -/
  earlier : List (Node × Node)
  element : Node
  later : List Node
  elements : sequence.toList = earlier.map Prod.fst ++ element :: later

/-- The elements with the result true. -/
def keptOf : List (Node × Node) → List Node
  | [] => []
  | (element, .boolean true) :: others => element :: keptOf others
  | _ :: others => keptOf others

/-- What is left of the iteration when the template has given `v` for the element. -/
def Stage.resume (stage : Stage) (runBlock : Node → Action Node) (v : Node) : Action Node :=
  match stage.iteration with
  | .map => do
    let texts ← resultTexts runBlock (.list stage.template) stage.later
    return stage.sequence.collect (stage.earlier.map (·.2.display) ++ v.display :: texts)
  | .filter => do
    let holds ← .ofExcept (toBool v)
    let others ← selected runBlock (.list stage.template) stage.later
    return stage.sequence.keep
      (keptOf stage.earlier ++ if holds then stage.element :: others else others)
  | .find => do
    let holds ← .ofExcept (toBool v)
    if holds then return stage.element
    return (← firstSelected runBlock (.list stage.template) stage.later).getD .nil

/-! ## The iteration goes on -/

namespace Action

variable {α β : Type}

/-- What follows an action depends only on how the action ends. -/
theorem bind_congr_at {x y : Action α} {s t : Interpreter} (h : x s = y t) (f : α → Action β) :
    (x >>= f) s = (y >>= f) t := by
  show Action.bind x f s = Action.bind y f t
  rw [Action.bind, Action.bind, h]

end Action

open Logo.Action

/-- The runs of the template on the earlier elements of an iteration, from the first to the last. -/
inductive Passes (runBlock : Node → Action Node) (iteration : Iteration) (template : List Node) :
    List (Node × Node) → Interpreter → Interpreter → Prop
  | nil {s : Interpreter} : Passes runBlock iteration template [] s s
  | cons {element result : Node} {others : List (Node × Node)} {s u t : Interpreter}
      (ran : runTemplate runBlock (.list template) element s = .value result u)
      (goesOn : iteration.GoesOn result) (rest : Passes runBlock iteration template others u t) :
      Passes runBlock iteration template ((element, result) :: others) s t

section Loops

variable {runBlock : Node → Action Node} {template : List Node} {element v : Node}
  {later : List Node} {earlier : List (Node × Node)} {s t u : Interpreter}

theorem holds_of_value (h : runTemplate runBlock (.list template) element s = .value v u) :
    holds runBlock (.list template) element s = ofExcept (toBool v) u :=
  bind_of_value h

/-- Behind elements whose templates gave values, `map` goes on with the later ones. -/
theorem resultTexts_append (h : Passes runBlock .map template earlier s t) :
    resultTexts runBlock (.list template) (earlier.map Prod.fst ++ later) s =
      (do
        let texts ← resultTexts runBlock (.list template) later
        return earlier.map (fun e : Node × Node => e.2.display) ++ texts) t := by
  induction h with
  | nil => simp
  | @cons element result others s u t ran goesOn rest ih =>
    rw [List.map_cons, List.cons_append, resultTexts, bind_of_value ran, bind_congr_at ih]
    simp

/-- Behind elements that were decided `filter` goes on, and keeps those that were selected. -/
theorem selected_append (h : Passes runBlock .filter template earlier s t) :
    selected runBlock (.list template) (earlier.map Prod.fst ++ later) s =
      (do
        let others ← selected runBlock (.list template) later
        return keptOf earlier ++ others) t := by
  induction h with
  | nil => simp [keptOf]
  | @cons element result others s u t ran goesOn rest ih =>
    obtain ⟨keep, rfl⟩ := goesOn
    have hholds : holds runBlock (.list template) element s = .value keep u := holds_of_value ran
    rw [List.map_cons, List.cons_append, selected, bind_of_value hholds, bind_congr_at ih]
    cases keep <;> simp [keptOf]

/-- Behind elements that were not selected `find` goes on. -/
theorem firstSelected_append (h : Passes runBlock .find template earlier s t) :
    firstSelected runBlock (.list template) (earlier.map Prod.fst ++ later) s =
      firstSelected runBlock (.list template) later t := by
  induction h with
  | nil => rfl
  | @cons element result others s u t ran goesOn rest ih =>
    cases goesOn
    have hholds : holds runBlock (.list template) element s = .value false u := holds_of_value ran
    rw [List.map_cons, List.cons_append, firstSelected, bind_of_value hholds]
    exact ih

theorem map_eq (template values : Node) :
    map runBlock template values = (do
      let sequence ← ofExcept (templateInputs template values)
      let texts ← resultTexts runBlock template sequence.toList
      return sequence.collect texts) := by
  unfold map
  congr
  funext sequence
  cases sequence <;> rfl

theorem filter_eq (template values : Node) :
    filter runBlock template values = (do
      let sequence ← ofExcept (templateInputs template values)
      let kept ← selected runBlock template sequence.toList
      return sequence.keep kept) := by
  unfold filter
  congr
  funext sequence
  cases sequence <;> rfl

end Loops

/-- When the earlier elements are passed and the template has given a value for the next one, the
iteration does what is left of it. -/
theorem Stage.perform_eq (stage : Stage) {runBlock : Node → Action Node} {values v : Node}
    {others : List Node} {s t u : Interpreter}
    (hsequence : templateInputs (.list stage.template) values = .ok stage.sequence)
    (hpasses : Passes runBlock stage.iteration stage.template stage.earlier s u)
    (hran : runTemplate runBlock (.list stage.template) stage.element u = .value v t) :
    perform runBlock stage.iteration.primitive (.list stage.template :: values :: others) s =
      stage.resume runBlock v t := by
  obtain ⟨iteration, template, sequence, earlier, element, later, helements⟩ := stage
  dsimp only at hsequence hpasses hran ⊢
  have hinputs : ∀ s, ofExcept (templateInputs (.list template) values) s = .value sequence s := by
    intro s
    rw [hsequence]
    rfl
  cases iteration with
  | map =>
    show map runBlock (.list template) values s = _
    rw [map_eq, bind_of_value (hinputs s), helements, bind_congr_at (resultTexts_append hpasses),
      resultTexts]
    simp only [bind_assoc, pure_bind]
    rw [bind_of_value hran]
    rfl
  | filter =>
    show filter runBlock (.list template) values s = _
    rw [filter_eq, bind_of_value (hinputs s), helements, bind_congr_at (selected_append hpasses),
      selected, holds]
    simp only [bind_assoc, pure_bind]
    rw [bind_of_value hran]
    rfl
  | find =>
    show find runBlock (.list template) values s = _
    rw [find, bind_of_value (hinputs s), helements, bind_congr_at (firstSelected_append hpasses),
      firstSelected, holds]
    simp only [bind_assoc]
    rw [bind_of_value hran]
    refine congrArg (fun rest => (ofExcept (toBool v) >>= rest) t) (funext fun found => ?_)
    cases found <;> rfl

/-! ## When the exit ends the iteration -/

theorem length_le_length_spaced {text : String} {texts : List String} (h : text ∈ texts) :
    text.length ≤ (spaced texts).length := by
  induction texts with
  | nil => cases h
  | cons first rest ih =>
    cases rest with
    | nil =>
      cases List.mem_singleton.1 h
      rw [spaced, String.intercalate_singleton]
    | cons second rest =>
      have hlength : (spaced (first :: second :: rest)).length =
          first.length + 1 + (spaced (second :: rest)).length := by
        rw [spaced, String.intercalate_cons_cons, String.length_append, String.length_append]
        rfl
      rcases List.mem_cons.1 h with rfl | hrest
      · omega
      · have hle := ih hrest
        omega

/-- No list has its own print form among its words, because the print form is longer. -/
theorem Node.symbol_display_notMem {items : List Node} :
    .symbol (Node.list items).display ∉ items := by
  intro h
  have hmem : (Node.list items).display ∈ displayEach items := by
    rw [displayEach_eq_map]
    exact List.mem_map.2 ⟨_, h, rfl⟩
  have hle := length_le_length_spaced hmem
  have hlength : (Node.list items).display.length =
      1 + (spaced (displayEach items)).length + 1 := by
    rw [display, String.length_append, String.length_append]
    rfl
  omega

theorem join_eq_empty_iff {texts : List String} :
    String.join texts = "" ↔ ∀ text ∈ texts, text = "" := by
  induction texts with
  | nil => simp
  | cons text texts ih => simp [String.join_cons, String.append_eq_empty_iff, ih]

/-- A map gives the last of its results only if that is all of a word. -/
theorem Library.Sequence.collect_display_eq_iff {sequence : Sequence} {texts : List String}
    {v : Node} :
    sequence.collect (texts ++ [v.display]) = v ↔
      (∃ chars, sequence = .characters chars) ∧ (∃ text, v = .quoted text) ∧
        ∀ text ∈ texts, text = "" := by
  constructor
  · intro h
    cases sequence with
    | items nodes =>
      have hmem : .symbol v.display ∈ (texts ++ [v.display]).map Node.symbol := by simp
      rw [collect] at h
      generalize (texts ++ [v.display]).map Node.symbol = words at h hmem
      subst h
      exact absurd hmem Node.symbol_display_notMem
    | characters chars =>
      refine ⟨⟨chars, rfl⟩, ⟨_, h.symm⟩, ?_⟩
      have htext : String.join texts ++ v.display = v.display :=
        calc String.join texts ++ v.display
            = ((characters chars).collect (texts ++ [v.display])).display := by
              simp [collect, Node.display, String.join_append, String.join_cons]
          _ = v.display := congrArg Node.display h
      exact join_eq_empty_iff.1 (String.append_eq_right_iff.1 htext)
  · rintro ⟨⟨chars, rfl⟩, ⟨text, rfl⟩, hempty⟩
    rw [collect, String.join_append, join_eq_empty_iff.2 hempty]
    simp [Node.display, String.join_cons]

namespace Stage

variable {stage : Stage} {v : Node} {t : Interpreter}

/-- A way to run blocks that always fails: where it makes no difference, no block is run. -/
def breaking (_ : Node) : Action Node :=
  fail .divisionByZero

theorem resume_map_eq_value_iff (hmap : stage.iteration = .map) :
    (∀ runBlock, stage.resume runBlock v t = .value v t) ↔
      stage.later = [] ∧ (∃ chars, stage.sequence = .characters chars) ∧
        (∃ text, v = .quoted text) ∧ ∀ e ∈ stage.earlier, e.2.display = "" := by
  have hresume : ∀ runBlock, stage.resume runBlock v =
      (do
        let texts ← resultTexts runBlock (.list stage.template) stage.later
        return stage.sequence.collect (stage.earlier.map (·.2.display) ++ v.display :: texts)) := by
    intro runBlock
    rw [resume, hmap]
  simp only [hresume]
  cases hlater : stage.later with
  | nil =>
    have hcollect : (∀ _ : Node → Action Node, Outcome.value (stage.sequence.collect
        (stage.earlier.map (·.2.display) ++ [v.display])) t = .value v t) ↔
        stage.sequence.collect (stage.earlier.map (·.2.display) ++ [v.display]) = v :=
      ⟨fun h => (Outcome.value.inj (h breaking)).1, fun h _ => by rw [h]⟩
    rw [← List.forall_mem_map (P := (· = "")), ← Sequence.collect_display_eq_iff, ← hcollect]
    simp only [true_and]
    exact Iff.rfl
  | cons next later =>
    refine ⟨fun h => ?_, fun h => absurd h.1 (List.cons_ne_nil next later)⟩
    cases h breaking

theorem resume_filter_ne_value (hfilter : stage.iteration = .filter) :
    ¬ ∀ runBlock, stage.resume runBlock v t = .value v t := by
  intro h
  have hbreaking := h breaking
  rw [resume, hfilter] at hbreaking
  cases v with
  | boolean holds =>
    cases hlater : stage.later with
    | nil =>
      rw [hlater] at hbreaking
      cases hsequence : stage.sequence <;> rw [hsequence] at hbreaking <;> cases hbreaking
    | cons next later =>
      rw [hlater] at hbreaking
      cases hbreaking
  | _ => cases hbreaking

theorem resume_find_eq_value_iff (hfind : stage.iteration = .find) :
    (∀ runBlock, stage.resume runBlock v t = .value v t) ↔
      v = .boolean true ∧ stage.element = .boolean true := by
  constructor
  · intro h
    have hbreaking := h breaking
    rw [resume, hfind] at hbreaking
    cases v with
    | boolean holds =>
      cases holds with
      | true =>
        have hvalue : Outcome.value stage.element t = .value (.boolean true) t := hbreaking
        exact ⟨rfl, (Outcome.value.inj hvalue).1⟩
      | false =>
        cases hlater : stage.later with
        | nil =>
          rw [hlater] at hbreaking
          cases hbreaking
        | cons next later =>
          rw [hlater] at hbreaking
          cases hbreaking
    | _ => cases hbreaking
  · rintro ⟨rfl, helement⟩ runBlock
    rw [resume, hfind]
    exact congrArg (Outcome.value · t) helement

/-- What is left of an iteration gives the value of the exit, whatever were run on later elements,
in two cases only. -/
theorem resume_eq_value_iff :
    (∀ runBlock, stage.resume runBlock v t = .value v t) ↔
      (stage.iteration = .find ∧ v = .boolean true ∧ stage.element = .boolean true) ∨
      (stage.iteration = .map ∧ stage.later = [] ∧ (∃ chars, stage.sequence = .characters chars) ∧
        (∃ text, v = .quoted text) ∧ ∀ e ∈ stage.earlier, e.2.display = "") := by
  cases hiteration : stage.iteration with
  | map => simp [resume_map_eq_value_iff hiteration]
  | filter => simp [resume_filter_ne_value hiteration]
  | find => simp [resume_find_eq_value_iff hiteration]

end Stage

/-! ## The body ends behind the iteration -/

open Evaluate

/-- The runs of a template on earlier elements close the bodies that they open. -/
theorem Passes.activeBodies {n : Nat} {iteration : Iteration} {template : List Node}
    {earlier : List (Node × Node)} {s t : Interpreter}
    (h : Passes (block (Evaluate.apply n)) iteration template earlier s t) :
    t.activeBodies = s.activeBodies := by
  induction h with
  | nil => rfl
  | cons ran _ _ ih => exact ih.trans (activeBodies_of_value (block_effective n _) ran)

/-- Going on behind an element is effective. -/
theorem Stage.resume_effective (stage : Stage) (n : Nat) (v : Node) :
    (stage.resume (block (Evaluate.apply n)) v).Effective := by
  have hholds := (ofExcept_steady (toBool_fits v)).effective
  have hrun := block_effective n
  generalize block (Evaluate.apply n) = runBlock at hrun
  unfold Stage.resume
  split
  · exact .bind (@resultTexts_congr _ .effective runBlock runBlock hrun _ _) fun _ => .pure _
  · exact .bind hholds fun _ =>
      .bind (@selected_congr _ .effective runBlock runBlock hrun _ _) fun _ => .pure _
  · refine .bind hholds fun found => ?_
    split
    · exact .pure _
    · exact .bind (@firstSelected_congr _ .effective runBlock runBlock hrun _ _) fun _ => .pure _

namespace Evaluate

/-- `ExitsTemplate n nodes s stage v t`: run from `s`, a body with the statements `nodes` comes to a
call that iterates, and there to the stage.  The run of the template on its element comes to an exit
with the value `v`, and `t` is the state right behind that. -/
inductive ExitsTemplate (n : Nat) (nodes : List Node) (s : Interpreter) (stage : Stage) (v : Node)
    (t : Interpreter) : Prop
  | intro {arity : Nat} {name : String} {inputs rest others : List Node} {parenthesized : Bool}
      {p : Procedure} {values : Node} {s₁ s₂ s₃ : Interpreter}
      (reaches : Reaches (n + 1) nodes s (.call name arity inputs parenthesized) rest s₁)
      (applies : Applies (n + 1) name inputs s₁ p (.list stage.template :: values :: others) s₂)
      (own : p.Is .native stage.iteration.primitive)
      (enough : p.arity ≤ (.list stage.template :: values :: others : List Node).length)
      (room : s₂.callDepth < s₂.limit)
      (sequence : templateInputs (.list stage.template) values = .ok stage.sequence)
      (passes : Passes (block (Evaluate.apply n)) stage.iteration stage.template stage.earlier
        ((s₂.pushFrame p.name).record (.entered ((s₂.pushFrame p.name).dispatchOf p.name
        (.list stage.template :: values :: others : List Node).length))) s₃)
      (exits : Exits n (.block (fillEach stage.element stage.template)) s₃ v t) :
      ExitsTemplate n nodes s stage v t

/-- An exit inside of a template does not end the iteration.  What is left of it is done from the
state behind the exit on; the body around it ends behind the iteration, in the same way as the
iteration does. -/
theorem apply_of_exitsTemplate {n : Nat} {s t : Interpreter} {name : String} {p : Procedure}
    {nodes inputs : List Node} {stage : Stage} {v : Node} (hp : s.procedures.lookup? name = some p)
    (hbody : p.body = .user nodes) (hle : p.arity ≤ inputs.length) (hroom : s.callDepth < s.limit)
    (h : ExitsTemplate n nodes (bodyStart (s.pushFrame p.name) p inputs) stage v t) :
    Evaluate.apply (n + 2) name inputs s = (stage.resume (block (Evaluate.apply n)) v t).mapState
      fun t' => (t'.popFrame.leaveBody s.exitRequested).popFrame := by
  obtain @⟨arity, callee, args, rest, others, parenthesized, q, values, s₁, s₂, s₃, reaches,
    applies, own, enough, room, sequence, passes, exits⟩ := h
  have hactive := activeBodies_bodyStart_pos (s.pushFrame p.name) p inputs
  rw [← reaches.activeBodies, ← applies.activeBodies] at hactive
  obtain ⟨hran, hexit⟩ :=
    exits.run_eq (by rwa [passes.activeBodies, Interpreter.activeBodies_record])
  have htemplate : runTemplate (block (Evaluate.apply n)) (.list stage.template) stage.element s₃ =
      .value v t := by
    rw [runTemplate, fill]
    exact hran .nil
  have hcall : node (Evaluate.apply (n + 1)) (.call callee arity args parenthesized) s₁ =
      (stage.resume (block (Evaluate.apply n)) v t).mapState (·.popFrame) := by
    rw [applies.node_eq, apply_succ, applyStep_native applies.found own enough room,
      stage.perform_eq sequence passes htemplate]
  -- The flag stays up in all that is left, so the body does not go on behind the call.
  have hraised : ∀ w t', node (Evaluate.apply (n + 1)) (.call callee arity args parenthesized) s₁ =
    .value w t' →
      t'.exitRequested = true := by
    intro w t' h
    have hleaves := leaves_of_value h
    rw [Leaves, hcall] at hleaves
    obtain ⟨u, hu, rfl⟩ := state?_mapState_eq_some_iff.1 hleaves
    exact (stage.resume_effective n v t u hu).exitKept.requested hexit
  rw [apply_succ, applyStep_user hp hbody hle hroom, reaches.bodyStatements_eq hraised, hcall]
  cases stage.resume (block (Evaluate.apply n)) v t <;> rfl

/-- An exit inside of a template ends neither the iteration nor, with its value, the body.  What is
left of the iteration is done behind the exit, and the body ends there, as the iteration does.  The
call gives the value of the exit without a run of the template on later elements in two cases only:
a find whose exit is true comes from an element that is true, and a map over a word has come to the
last character, with a word as the value of the exit and nothing but empty results before it. -/
theorem template_exit_resumed {n : Nat} {s t : Interpreter} {name : String} {p : Procedure}
    {nodes inputs : List Node} {stage : Stage} {v : Node} (hp : s.procedures.lookup? name = some p)
    (hbody : p.body = .user nodes) (hle : p.arity ≤ inputs.length) (hroom : s.callDepth < s.limit)
    (h : ExitsTemplate n nodes (bodyStart (s.pushFrame p.name) p inputs) stage v t) :
    Evaluate.apply (n + 2) name inputs s = (stage.resume (block (Evaluate.apply n)) v t).mapState
      (fun t' => (t'.popFrame.leaveBody s.exitRequested).popFrame) ∧
    ((∀ runBlock, stage.resume runBlock v t = .value v t) ↔
      (stage.iteration = .find ∧ v = .boolean true ∧ stage.element = .boolean true) ∨
      (stage.iteration = .map ∧ stage.later = [] ∧ (∃ chars, stage.sequence = .characters chars) ∧
        (∃ text, v = .quoted text) ∧ ∀ e ∈ stage.earlier, e.2.display = "")) :=
  ⟨apply_of_exitsTemplate hp hbody hle hroom h, Stage.resume_eq_value_iff⟩

/-! ## A map over a list -/

def mapBody : List Node :=
  [.plainCall "map" 2 [.list [.symbol "output", .symbol "?"], .list [.symbol "1", .symbol "2"]]]

def mapper : Procedure :=
  { Procedure.ofHeader "p" [] 1 with body := .user mapBody }

/-- An interpreter with the library and a procedure that maps two numbers to exits. -/
def mapping : Interpreter :=
  (Interpreter.standard []).define mapper

/-- The iteration at the first of the two numbers. -/
def mapStage : Stage :=
  ⟨.map, [.symbol "output", .symbol "?"], .items [.symbol "1", .symbol "2"], [], .symbol "1",
    [.symbol "2"], rfl⟩

theorem hasLibrary_mapping : mapping.HasLibrary := by
  intro q hq
  have hother : Text.toLower q.name ≠ Text.toLower mapper.name := by
    have hall : ∀ q ∈ standard, Text.toLower q.name ≠ Text.toLower mapper.name := by decide +kernel
    exact hall q hq
  exact (ProcedureTable.lookup?_define.trans (if_neg hother)).trans
    (Interpreter.hasLibrary_standard [] q hq)

theorem lookup?_mapping_map :
    mapping.procedures.lookup? "map" = some (native "map" ["template", "values"] .map) :=
  hasLibrary_mapping (native "map" ["template", "values"] .map) (by simp [standard, core])

theorem lookup?_mapping_output :
    mapping.procedures.lookup? "output" = some (native "output" ["value"] .output) :=
  hasLibrary_mapping (native "output" ["value"] .output) (by simp [standard, core])

/-- An exit with a number as its value. -/
def numberExit (value : Int64) : Node :=
  .call "output" 1 [.integer value] false

theorem readText_numberExit {table : ProcedureTable} {value : Int64}
    (houtput : table.lookup? "output" = some (native "output" ["value"] .output)) :
    Reader.readText false table (numberExit value).canonical = (.ok [numberExit value], table) := by
  have hlongest : TokenRule.longest TokenRule.code "output".toList = (.symbol, 6) := by
    decide +kernel
  have harity : table.arity? "output" = some 1 := by
    rw [ProcedureTable.arity?, houtput]
    rfl
  have hwellFormed : (numberExit value).WellFormed table := by
    refine .plainCall (.of_longest hlongest) (by decide) (by decide) harity rfl ?_
    rw [List.forall_mem_singleton]
    exact .integer value
  obtain ⟨ls, hls⟩ := hwellFormed.exists_spelling
  have hread := hls.readText_eq false
  rwa [String.ofList_toList] at hread

/-- The state behind an exit with a value. -/
def exited (s : Interpreter) (value : Node) : Interpreter :=
  let called := (s.make "value" value).pushFrame "output"
  (called.record (.entered (called.dispatchOf "output" 1))).requestExit.popFrame

theorem exits_numberExit {s : Interpreter} {items : List Node} {value : Int64}
    (houtput : s.procedures.lookup? "output" = some (native "output" ["value"] .output))
    (hroom : (s.make "value" (.integer value)).callDepth < s.limit)
    (htext : Node.renderBlock items = (numberExit value).canonical) :
    Exits 1 (.block items) s (.integer value) (exited s (.integer value)) := by
  have hread : read false (Node.renderBlock items) s = .value [numberExit value] s := by
    rw [htext]
    exact read_of_ok (readText_numberExit houtput)
  have happlies : Applies 1 "output" [.integer value] s (native "output" ["value"] .output)
      [.integer value] (s.make "value" (.integer value)) := ⟨⟨_, houtput, rfl⟩, houtput⟩
  have hexecuted : Evaluate.apply 1 "output" [.integer value] (s.make "value" (.integer value)) =
      .value (.integer value) (exited s (.integer value)) := by
    have henough : (native "output" ["value"] .output).arity ≤ [Node.integer value].length :=
      Nat.le_refl 1
    rw [apply_succ, applyStep_native happlies.found ⟨0, rfl⟩ henough hroom]
    rfl
  exact .block hread (.here (.output happlies ⟨0, rfl⟩ hexecuted))

/-- The template exits on the first number, and with the flag raised on the second one too. -/
theorem mapping_exits :
    ∃ t u, 0 < t.activeBodies ∧
      ExitsTemplate 1 mapBody (bodyStart (mapping.pushFrame "p") mapper []) mapStage
        (.integer 1) t ∧
      Exits 1 (.block (fillEach (.symbol "2") mapStage.template)) t (.integer 2) u :=
  ⟨_, _, by decide,
    .intro .here ⟨⟨_, lookup?_mapping_map, rfl⟩, lookup?_mapping_map⟩ ⟨0, rfl⟩ (Nat.le_refl 2)
      (by decide) rfl .nil
      (exits_numberExit lookup?_mapping_output (by decide) (by decide)),
    exits_numberExit lookup?_mapping_output (by decide) (by decide)⟩

theorem resume_mapStage {t u : Interpreter} (hactive : 0 < t.activeBodies)
    (h : Exits 1 (.block (fillEach (.symbol "2") mapStage.template)) t (.integer 2) u) :
    mapStage.resume (block (Evaluate.apply 1)) (.integer 1) t =
      .value (.list [.symbol "1", .symbol "2"]) u := by
  have hrun : runTemplate (block (Evaluate.apply 1)) (.list mapStage.template) (.symbol "2") t =
      .value (.integer 2) u := (h.run_eq hactive).1 .nil
  have htexts : resultTexts (block (Evaluate.apply 1)) (.list mapStage.template) [.symbol "2"] t =
      .value ["2"] u := bind_of_value hrun
  exact bind_of_value htexts

theorem lookup?_mapping : mapping.procedures.lookup? "p" = some mapper :=
  ProcedureTable.lookup?_define.trans (if_pos rfl)

/-- It is not so that an exit inside of a template gives the call its value: a map over a list gives
the list of all the exits. -/
theorem template_exit_not_handed_on :
    ¬ ∀ (n : Nat) (s t : Interpreter) (name : String) (p : Procedure) (nodes inputs : List Node)
      (stage : Stage) (v : Node),
      s.HasLibrary → s.procedures.lookup? name = some p → p.body = .user nodes →
      p.arity ≤ inputs.length → s.callDepth < s.limit →
      ExitsTemplate n nodes (bodyStart (s.pushFrame p.name) p inputs) stage v t →
      ∃ t', Evaluate.apply (n + 2) name inputs s = .value v t' := by
  intro hall
  obtain ⟨t, u, hactive, ht, hu⟩ := mapping_exits
  obtain ⟨t', hvalue⟩ :=
    hall 1 mapping t "p" mapper mapBody [] mapStage (.integer 1) hasLibrary_mapping
    lookup?_mapping rfl (Nat.zero_le _) (by decide) ht
  rw [apply_of_exitsTemplate lookup?_mapping rfl (Nat.zero_le _) (by decide) ht,
    resume_mapStage hactive hu] at hvalue
  cases hvalue

/-- The template is run on both numbers, and the call gives the list of the two exits. -/
theorem template_exit_resumed_mapping :
    ∃ t u, ExitsTemplate 1 mapBody (bodyStart (mapping.pushFrame "p") mapper []) mapStage
      (.integer 1) t ∧
      Exits 1 (.block (fillEach (.symbol "2") mapStage.template)) t (.integer 2) u ∧
      Evaluate.apply 3 "p" [] mapping =
        .value (.list [.symbol "1", .symbol "2"]) (u.popFrame.leaveBody false).popFrame := by
  obtain ⟨t, u, hactive, ht, hu⟩ := mapping_exits
  refine ⟨t, u, ht, hu, ?_⟩
  rw [(template_exit_resumed lookup?_mapping rfl (Nat.zero_le _) (by decide) ht).1,
    resume_mapStage hactive hu]
  rfl

end Evaluate

end Logo
