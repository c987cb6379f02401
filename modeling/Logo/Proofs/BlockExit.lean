import Logo.Proofs.BracketDepth
import Logo.Proofs.ExitRequest

/-!
# Exits from blocks

Nothing is thrown when a program executes `output` or `stop`: the value is handed back as the value
of the statement, and the flag that is raised with it has to be looked at behind every statement, in
three different loops.  `Exits` says that a run comes to such a statement, through any nesting of
the procedures that run blocks in the frame of their caller; its rules follow the run up to that
statement and no further.  Each of them is a step that hands the value and the state on
(`Exits.run_eq`).  So the body that runs ends with this value, in the state right behind the
statement (`exit_ends_body`).
-/

namespace Logo

/-- The procedure stands for a primitive. -/
def Procedure.Is (p : Procedure) (kind : HostKind) (primitive : Primitive) : Prop :=
  ∃ handle, p.body = .host kind ⟨primitive, handle⟩

namespace Evaluate

open Logo.Action

/-! ## Steps of a run -/

section Steps

variable {apply : String → List Node → Action Node} {s t u : Interpreter}
  {statement v w last : Node} {rest : List Node}

/-- Statements end behind one that requests an exit, with its value. -/
theorem statements_of_exit (h : node apply statement s = .value v t)
    (hexit : t.exitRequested = true) :
    statements apply (statement :: rest) last s = .value v t := by
  rw [statements, bind_of_value h, view_bind, if_pos hexit]
  rfl

theorem statements_of_value (h : node apply statement s = .value w u)
    (hexit : u.exitRequested = false) :
    statements apply (statement :: rest) last s = statements apply rest w u := by
  rw [statements, bind_of_value h, view_bind, if_neg (by simp [hexit])]

/-- A repetition ends behind a run that requests an exit, with its value. -/
theorem repeatBlock_of_exit {runBlock : Node → Action Node} {block : Node} {k : Nat}
    (h : runBlock block s = .value v t) (hexit : t.exitRequested = true) :
    Library.repeatBlock runBlock block (k + 1) last s = .value v t := by
  rw [Library.repeatBlock, bind_of_value h, view_bind, if_pos hexit]
  rfl

theorem repeatBlock_of_value {runBlock : Node → Action Node} {block : Node} {k : Nat}
    (h : runBlock block s = .value w u) (hexit : u.exitRequested = false) :
    Library.repeatBlock runBlock block (k + 1) last s =
      Library.repeatBlock runBlock block k w u := by
  rw [Library.repeatBlock, bind_of_value h, view_bind, if_neg (by simp [hexit])]

section Body

variable {name : String} {arity : Nat} {inputs : List Node} {parenthesized : Bool}

/-- A body ends behind a statement that cannot give a value without a request to exit, as the
statement does. -/
theorem bodyStatements_of_exit
    (hexit : ∀ v t, node apply (.call name arity inputs parenthesized) s = .value v t →
        t.exitRequested = true) :
    bodyStatements apply (.call name arity inputs parenthesized :: rest) last s =
      node apply (.call name arity inputs parenthesized) s := by
  rw [bodyStatements]
  cases h : node apply (.call name arity inputs parenthesized) s with
  | value v t =>
    rw [bind_of_value h]
    split
    · rfl
    · rw [view_bind, if_pos (hexit v t h)]
      rfl
  | failure e t => exact bind_of_failure h
  | interrupted i => exact bind_of_interrupted h

/-- A body goes on behind a call that is no exit and requests none. -/
theorem bodyStatements_of_value (hname : name ≠ "output" ∧ name ≠ "stop")
    (h : node apply (.call name arity inputs parenthesized) s = .value w u)
    (hexit : u.exitRequested = false) :
    bodyStatements apply (.call name arity inputs parenthesized :: rest) last s =
      bodyStatements apply rest w u := by
  rw [bodyStatements, bind_of_value h, if_neg (by simp [hname]), view_bind,
    if_neg (by simp [hexit])]

end Body

/-- A block that can be read is run as its statements. -/
theorem block_of_read {items nodes : List Node}
    (h : read false (Node.renderBlock items) s = .value nodes u) :
    block apply (.list items) s = statements apply nodes .none u :=
  bind_of_value h

/-- A primitive in the frame of its caller is performed where it is called. -/
theorem applyStep_inline {name : String} {p : Procedure} {primitive : Primitive}
    {values : List Node} (hp : s.procedures.lookup? name = some p) (hown : p.Is .inline primitive)
    (hle : p.arity ≤ values.length) :
    applyStep apply name values s = Library.perform (block apply) primitive values
      (s.record (.entered (s.dispatchOf p.name values.length))) := by
  obtain ⟨handle, hbody⟩ := hown
  have hinline : p.isInline = true := by rw [Procedure.isInline, hbody]
  rw [applyStep_known hp, if_neg (Nat.not_lt.2 hle), if_pos hinline, dispatch_host hbody]

/-- A primitive in a frame of its own is performed in it, and the frame is closed behind it. -/
theorem applyStep_native {name : String} {p : Procedure} {primitive : Primitive}
    {values : List Node} (hp : s.procedures.lookup? name = some p) (hown : p.Is .native primitive)
    (hle : p.arity ≤ values.length) (hroom : s.callDepth < s.limit) :
    applyStep apply name values s = (Library.perform (block apply) primitive values
      ((s.pushFrame p.name).record (.entered ((s.pushFrame p.name).dispatchOf p.name
        values.length)))).mapState (·.popFrame) := by
  obtain ⟨handle, hbody⟩ := hown
  have hinline : p.isInline = false := by rw [Procedure.isInline, hbody]
  rw [applyStep_known hp, if_neg (Nat.not_lt.2 hle), hinline, if_neg Bool.false_ne_true,
    if_neg (Nat.not_le.2 hroom), dispatch_host hbody]

theorem activeBodies_bodyStart_pos (s : Interpreter) (p : Procedure) (values : List Node) :
    0 < (bodyStart s p values).activeBodies := by
  rw [bodyStart, Interpreter.activeBodies_record]
  exact Nat.succ_pos _

/-- The call of a procedure with a body that has enough inputs and room. -/
theorem applyStep_user {name : String} {p : Procedure} {nodes values : List Node}
    (hp : s.procedures.lookup? name = some p) (hbody : p.body = .user nodes)
    (hle : p.arity ≤ values.length) (hroom : s.callDepth < s.limit) :
    applyStep apply name values s =
      (bodyStatements apply nodes .nil (bodyStart (s.pushFrame p.name) p values)).mapState
        fun t => (t.leaveBody s.exitRequested).popFrame := by
  have hinline : p.isInline = false := by rw [Procedure.isInline, hbody]
  rw [applyStep_known hp, if_neg (Nat.not_lt.2 hle), hinline, if_neg Bool.false_ne_true,
    if_neg (Nat.not_le.2 hroom), dispatch_user hbody]
  cases bodyStatements apply nodes .nil (bodyStart (s.pushFrame p.name) p values) <;> rfl

end Steps

/-! ## Runs that come to an exit -/

/-- The inputs of a call give `values`, and behind them, in `u`, its name is that of `p`. -/
structure Applies (n : Nat) (name : String) (inputs : List Node) (s : Interpreter) (p : Procedure)
    (values : List Node) (u : Interpreter) : Prop where
  evaluated : ∃ q, s.procedures.lookup? name = some q ∧
    inputsFor (Evaluate.apply n) q.params inputs s = .value values u
  found : u.procedures.lookup? name = some p

/-- `Reaches n nodes s statement rest t`: run from `s`, a body with the statements `nodes` comes to
`statement`, with `rest` behind it, in the state `t`. -/
inductive Reaches (n : Nat) : List Node → Interpreter → Node → List Node → Interpreter → Prop
  | here {arity : Nat} {name : String} {inputs rest : List Node} {parenthesized : Bool}
      {s : Interpreter} :
      Reaches n (.call name arity inputs parenthesized :: rest) s
        (.call name arity inputs parenthesized) rest s
  | later {arity : Nat} {name : String} {inputs nodes rest : List Node} {parenthesized : Bool}
      {s u t : Interpreter} {statement w : Node} (other : name ≠ "output" ∧ name ≠ "stop")
      (before : node (Evaluate.apply n) (.call name arity inputs parenthesized) s = .value w u)
      (calm : u.exitRequested = false) (later : Reaches n nodes u statement rest t) :
      Reaches n (.call name arity inputs parenthesized :: nodes) s statement rest t

/-- What is left to run in a program. -/
inductive Place where
  | statement (n : Node)
  | statements (nodes : List Node)
  | block (items : List Node)
  /-- A block that is to run a number of times. -/
  | times (items : List Node) (count : Nat)
  /-- A primitive with the values of its inputs. -/
  | primitive (primitive : Primitive) (values : List Node)
  /-- The statements of a body. -/
  | body (nodes : List Node)

/-- Runs a place.  `last` is the value of what has run there before. -/
def Place.run (apply : String → List Node → Action Node) (last : Node) : Place → Action Node
  | .statement n => node apply n
  | .statements nodes => Evaluate.statements apply nodes last
  | .block items => Evaluate.block apply (.list items)
  | .times items count => Library.repeatBlock (Evaluate.block apply) (.list items) count last
  | .primitive f values => Library.perform (Evaluate.block apply) f values
  | .body nodes => bodyStatements apply nodes last

/-- `Exits n place s v t`: run from `s`, with applications nested at most as deep as `n`, the place
comes to a statement `output` or `stop` that is executed.  Its value is `v`, and `t` is the state
right behind it. -/
inductive Exits : Nat → Place → Interpreter → Node → Interpreter → Prop
  | output {n arity : Nat} {name : String} {inputs rest : List Node} {parenthesized : Bool}
      {p : Procedure} {kind : HostKind} {s u t : Interpreter} {v w : Node}
      (applies : Applies (n + 1) name inputs s p (v :: rest) u)
      (own : p.Is kind .output)
      (executed : Evaluate.apply (n + 1) name (v :: rest) u = .value w t) :
      Exits (n + 1) (.statement (.call name arity inputs parenthesized)) s v t
  | stop {n arity : Nat} {name : String} {inputs values : List Node} {parenthesized : Bool}
      {p : Procedure} {kind : HostKind} {s u t : Interpreter} {w : Node}
      (applies : Applies (n + 1) name inputs s p values u)
      (own : p.Is kind .stop) (executed : Evaluate.apply (n + 1) name values u = .value w t) :
      Exits (n + 1) (.statement (.call name arity inputs parenthesized)) s .nil t
  /-- A call of a procedure that runs blocks, with enough inputs. -/
  | call {n arity : Nat} {name : String} {inputs values : List Node} {parenthesized : Bool}
      {p : Procedure} {primitive : Primitive} {s u t : Interpreter} {v : Node}
      (applies : Applies (n + 1) name inputs s p values u)
      (own : p.Is .inline primitive) (enough : p.arity ≤ values.length)
      (inside : Exits n (.primitive primitive values)
        (u.record (.entered (u.dispatchOf p.name values.length))) v t) :
      Exits (n + 1) (.statement (.call name arity inputs parenthesized)) s v t
  | run {n : Nat} {items rest : List Node} {s t : Interpreter} {v : Node}
      (inside : Exits n (.block items) s v t) :
      Exits n (.primitive .run (.list items :: rest)) s v t
  | when {n : Nat} {test : Node} {items rest : List Node} {s u t : Interpreter} {v : Node}
      (holds : Library.condition (block (Evaluate.apply n)) test s = .value true u)
      (inside : Exits n (.block items) u v t) :
      Exits n (.primitive .when (test :: .list items :: rest)) s v t
  | choose {n : Nat} {test branch otherwise : Node} {items rest : List Node} {s u t : Interpreter}
      {v : Node} {holds : Bool}
      (tested : Library.condition (block (Evaluate.apply n)) test s = .value holds u)
      (chosen : (if holds then branch else otherwise) = .list items)
      (inside : Exits n (.block items) u v t) :
      Exits n (.primitive .choose (test :: branch :: otherwise :: rest)) s v t
  | repetition {n count : Nat} {control : Node} {items rest : List Node} {s u t : Interpreter}
      {v : Node}
      (counted : Library.repetitionCount (block (Evaluate.apply n)) control s = .value count u)
      (inside : Exits n (.times items count) u v t) :
      Exits n (.primitive .repetition (control :: .list items :: rest)) s v t
  | now {n k : Nat} {items : List Node} {s t : Interpreter} {v : Node}
      (inside : Exits n (.block items) s v t) : Exits n (.times items (k + 1)) s v t
  | again {n k : Nat} {items : List Node} {s u t : Interpreter} {v w : Node}
      (before : block (Evaluate.apply n) (.list items) s = .value w u)
      (calm : u.exitRequested = false)
      (later : Exits n (.times items k) u v t) : Exits n (.times items (k + 1)) s v t
  | block {n : Nat} {items nodes : List Node} {s u t : Interpreter} {v : Node}
      (read : Evaluate.read false (Node.renderBlock items) s = .value nodes u)
      (inside : Exits n (.statements nodes) u v t) : Exits n (.block items) s v t
  | here {n : Nat} {first : Node} {rest : List Node} {s t : Interpreter} {v : Node}
      (inside : Exits n (.statement first) s v t) : Exits n (.statements (first :: rest)) s v t
  | later {n : Nat} {first : Node} {rest : List Node} {s u t : Interpreter} {v w : Node}
      (before : node (Evaluate.apply n) first s = .value w u) (calm : u.exitRequested = false)
      (later : Exits n (.statements rest) u v t) : Exits n (.statements (first :: rest)) s v t
  | body {n : Nat} {nodes rest : List Node} {statement : Node} {s u t : Interpreter} {v : Node}
      (reaches : Reaches n nodes s statement rest u)
      (inside : Exits n (.statement statement) u v t) : Exits n (.body nodes) s v t

/-! ## The value is handed on -/

section HandOn

variable {n : Nat} {s t u : Interpreter} {name : String} {p : Procedure} {inputs values : List Node}

/-- Effective actions close the bodies that they open. -/
theorem activeBodies_of_value {α : Type} {x : Action α} {a : α} (hx : x.Effective)
    (h : x s = .value a t) : t.activeBodies = s.activeBodies :=
  (hx s t (leaves_of_value h)).exitKept.activeBodies

theorem block_effective (n : Nat) (b : Node) : (block (Evaluate.apply n) b).Effective :=
  @block_congr _ (Evaluate.apply n) (Evaluate.apply n) .effective (apply_effective n) b

theorem node_effective (n : Nat) (statement : Node) :
    (node (Evaluate.apply n) statement).Effective :=
  @node_congr _ (Evaluate.apply n) (Evaluate.apply n) .effective (apply_effective n) statement

theorem condition_effective (n : Nat) (test : Node) :
    (Library.condition (block (Evaluate.apply n)) test).Effective :=
  @Library.condition_congr _ .effective (block (Evaluate.apply n)) (block (Evaluate.apply n))
    (block_effective n) test

theorem repetitionCount_effective (n : Nat) (control : Node) :
    (Library.repetitionCount (block (Evaluate.apply n)) control).Effective :=
  @Library.repetitionCount_congr _ .effective (block (Evaluate.apply n)) (block (Evaluate.apply n))
    (block_effective n) control

/-- A call whose inputs are evaluated applies its procedure. -/
theorem Applies.node_eq (h : Applies n name inputs s p values u) (arity : Nat)
    (parenthesized : Bool) :
    node (Evaluate.apply n) (.call name arity inputs parenthesized) s =
      Evaluate.apply n name values u := by
  obtain ⟨⟨q, hq, hinputs⟩, -⟩ := h
  rw [node, bind_of_value (lookup_of_some hq), bind_of_value hinputs]

theorem Applies.activeBodies (h : Applies n name inputs s p values u) :
    u.activeBodies = s.activeBodies := by
  obtain ⟨⟨q, -, hinputs⟩, -⟩ := h
  have heffective : (inputsFor (Evaluate.apply n) q.params inputs).Effective :=
    @inputsFor_congr _ (Evaluate.apply n) (Evaluate.apply n) .effective (apply_effective n)
      q.params inputs
  exact activeBodies_of_value heffective hinputs

theorem Reaches.activeBodies {nodes rest : List Node} {statement : Node}
    (h : Reaches n nodes s statement rest t) : t.activeBodies = s.activeBodies := by
  induction h with
  | here => rfl
  | later _ before _ _ ih => exact ih.trans (activeBodies_of_value (node_effective _ _) before)

/-- If the statement that is reached cannot give a value without a request to exit, nothing behind
it is run: the body ends as the statement does. -/
theorem Reaches.bodyStatements_eq {nodes rest : List Node} {statement : Node}
    (h : Reaches n nodes s statement rest t)
    (hexit : ∀ v t', node (Evaluate.apply n) statement t = .value v t' → t'.exitRequested = true)
    (last : Node) :
    bodyStatements (Evaluate.apply n) nodes last s = node (Evaluate.apply n) statement t := by
  induction h generalizing last with
  | here => exact bodyStatements_of_exit hexit
  | later other before calm _ ih =>
    rw [bodyStatements_of_value other before calm]
    exact ih hexit _

/-- A primitive that does nothing but request an exit gives its value, and raises the flag of the
body that runs. -/
theorem apply_requestExit {kind : HostKind} {primitive : Primitive} {v w : Node}
    (hp : s.procedures.lookup? name = some p) (hown : p.Is kind primitive)
    (hperform : ∀ runBlock, Library.perform runBlock primitive values = Library.output v)
    (hactive : 0 < s.activeBodies) (h : Evaluate.apply (n + 1) name values s = .value w t) :
    w = v ∧ t.exitRequested = true := by
  obtain ⟨handle, hbody⟩ := hown
  have hdispatch : ∀ u : Interpreter, u.activeBodies = s.activeBodies →
      ∃ t', dispatch (Evaluate.apply n) p values u = .value v t' ∧ t'.exitRequested = true := by
    intro u hu
    rw [dispatch_host hbody, hperform]
    have hactive' : 0 < (u.record (.entered (u.dispatchOf p.name values.length))).activeBodies := by
      rw [Interpreter.activeBodies_record]
      omega
    refine ⟨_, rfl, ?_⟩
    simp only [Interpreter.requestExit, if_pos hactive']
  rw [apply_succ, applyStep_known hp] at h
  split at h
  · cases h
  · split at h
    · obtain ⟨t', ht', hexit⟩ := hdispatch s rfl
      rw [ht'] at h
      cases h
      exact ⟨rfl, hexit⟩
    · split at h
      · cases h
      · obtain ⟨t', ht', hexit⟩ := hdispatch (s.pushFrame p.name) rfl
        rw [ht'] at h
        cases h
        exact ⟨rfl, hexit⟩

/-- Where a run comes to an exit while a body runs, it ends there: with the value of the exit, in
the state behind it, and with the flag raised. -/
theorem Exits.run_eq {place : Place} {v : Node} (h : Exits n place s v t)
    (hactive : 0 < s.activeBodies) :
    (∀ last, place.run (Evaluate.apply n) last s = .value v t) ∧ t.exitRequested = true := by
  induction h with
  | output applies own executed =>
    rw [← applies.activeBodies] at hactive
    obtain ⟨rfl, hexit⟩ := apply_requestExit applies.found own (fun _ => rfl) hactive executed
    refine ⟨fun _ => ?_, hexit⟩
    rw [Place.run, applies.node_eq]
    exact executed
  | stop applies own executed =>
    rw [← applies.activeBodies] at hactive
    obtain ⟨rfl, hexit⟩ := apply_requestExit applies.found own (fun _ => rfl) hactive executed
    refine ⟨fun _ => ?_, hexit⟩
    rw [Place.run, applies.node_eq]
    exact executed
  | call applies own enough _ ih =>
    rw [← applies.activeBodies] at hactive
    obtain ⟨hrun, hexit⟩ := ih (by rwa [Interpreter.activeBodies_record])
    refine ⟨fun last => ?_, hexit⟩
    rw [Place.run, applies.node_eq, apply_succ, applyStep_inline applies.found own enough]
    exact hrun last
  | run _ ih => exact ih hactive
  | when holds _ ih =>
    rw [← activeBodies_of_value (condition_effective _ _) holds] at hactive
    obtain ⟨hrun, hexit⟩ := ih hactive
    exact ⟨fun last => (bind_of_value holds).trans (hrun last), hexit⟩
  | choose tested chosen _ ih =>
    rw [← activeBodies_of_value (condition_effective _ _) tested] at hactive
    obtain ⟨hrun, hexit⟩ := ih hactive
    refine ⟨fun last => (bind_of_value tested).trans ?_, hexit⟩
    rw [← hrun last, Place.run, ← chosen]
    split <;> rfl
  | repetition counted _ ih =>
    rw [← activeBodies_of_value (repetitionCount_effective _ _) counted] at hactive
    obtain ⟨hrun, hexit⟩ := ih hactive
    exact ⟨fun _ => (bind_of_value counted).trans (hrun .nil), hexit⟩
  | now _ ih =>
    obtain ⟨hrun, hexit⟩ := ih hactive
    refine ⟨fun last => ?_, hexit⟩
    rw [Place.run]
    exact repeatBlock_of_exit (hrun last) hexit
  | again before calm _ ih =>
    rw [← activeBodies_of_value (block_effective _ _) before] at hactive
    obtain ⟨hrun, hexit⟩ := ih hactive
    refine ⟨fun last => ?_, hexit⟩
    rw [Place.run, repeatBlock_of_value before calm]
    exact hrun _
  | block read _ ih =>
    rw [← activeBodies_of_value (read_steady _ _).effective read] at hactive
    obtain ⟨hrun, hexit⟩ := ih hactive
    exact ⟨fun _ => (block_of_read read).trans (hrun _), hexit⟩
  | here _ ih =>
    obtain ⟨hrun, hexit⟩ := ih hactive
    refine ⟨fun last => ?_, hexit⟩
    rw [Place.run]
    exact statements_of_exit (hrun last) hexit
  | later before calm _ ih =>
    rw [← activeBodies_of_value (node_effective _ _) before] at hactive
    obtain ⟨hrun, hexit⟩ := ih hactive
    refine ⟨fun last => ?_, hexit⟩
    rw [Place.run, statements_of_value before calm]
    exact hrun _
  | body reaches _ ih =>
    rw [← reaches.activeBodies] at hactive
    obtain ⟨hrun, hexit⟩ := ih hactive
    refine ⟨fun last => ?_, hexit⟩
    rw [Place.run, reaches.bodyStatements_eq _ last]
    · exact hrun last
    · intro v' t' h
      cases (hrun last).symm.trans h
      exact hexit

end HandOn

/-! ## The end of the invocation -/

/-- An exit from inside of blocks ends the body around them.  When the body of a procedure comes to
a statement `output` or `stop`, through any nesting of the procedures that run blocks, the call
gives the value of the statement, and it leaves the state right behind the statement, but for
closing the body and its frame: nothing is run in between.  The flag is what it was before. -/
theorem exit_ends_body {n : Nat} {s t : Interpreter} {name : String} {p : Procedure}
    {nodes inputs : List Node} {v : Node} (hp : s.procedures.lookup? name = some p)
    (hbody : p.body = .user nodes) (hle : p.arity ≤ inputs.length) (hroom : s.callDepth < s.limit)
    (h : Exits n (.body nodes) (bodyStart (s.pushFrame p.name) p inputs) v t) :
    Evaluate.apply (n + 1) name inputs s = .value v (t.leaveBody s.exitRequested).popFrame ∧
      (t.leaveBody s.exitRequested).popFrame.exitRequested = s.exitRequested := by
  have hrun := (h.run_eq (activeBodies_bodyStart_pos _ p inputs)).1 .nil
  refine ⟨?_, rfl⟩
  rw [Place.run] at hrun
  rw [apply_succ, applyStep_user hp hbody hle hroom, hrun]
  rfl

/-! ## A repetition -/

/-- A branch with an exit, in the block of a repetition, with a statement behind each of them. -/
def searchBody : List Node := [
  .plainCall "repeat" 2 [.integer 10,
    .list [.symbol "print", .symbol "1", .symbol "if", .symbol "true",
      .list [.symbol "output", .symbol "\"done"], .symbol "print", .symbol "2"]],
  .plainCall "print" 1 [.quoted "unreachable"]]

def search : Procedure :=
  { Procedure.ofHeader "search" [] 1 with body := .user searchBody }

/-- An interpreter with the procedures that the search uses. -/
def searching : Interpreter :=
  (Interpreter.initial.load [
    Library.inline "repeat" ["control", "block"] .repetition,
    Library.native "output" ["value"] .output,
    Library.inline "if" ["condition", "iftrue"] .when,
    Library.native "print" ["output"] .print]).define search

theorem readText_searchBlock :
    Reader.readText false searching.procedures "print 1 if true [output \"done] print 2" =
      (.ok [.plainCall "print" 1 [.integer 1],
        .plainCall "if" 2 [.boolean true, .list [.symbol "output", .symbol "\"done"]],
        .plainCall "print" 1 [.integer 2]], searching.procedures) := by
  have htokens : Lexeme.ofText "print 1 if true [output \"done] print 2" = Lexeme.ofTokens [
      ⟨.symbol, "print", ⟨1, 0⟩⟩, ⟨.number, "1", ⟨1, 6⟩⟩, ⟨.symbol, "if", ⟨1, 8⟩⟩,
      ⟨.trueWord, "true", ⟨1, 11⟩⟩, ⟨.leftBracket, "[", ⟨1, 16⟩⟩, ⟨.symbol, "output", ⟨1, 17⟩⟩,
      ⟨.symbol, "\"done", ⟨1, 24⟩⟩, ⟨.rightBracket, "]", ⟨1, 29⟩⟩, ⟨.symbol, "print", ⟨1, 31⟩⟩,
      ⟨.number, "2", ⟨1, 37⟩⟩, ⟨.eof, "", ⟨1, 38⟩⟩] := by
    rw [Lexeme.ofText_eq]
    decide +kernel
  rw [Reader.readText, htokens]
  rfl

theorem readText_searchBranch :
    Reader.readText false searching.procedures "output \"done" =
      (.ok [.plainCall "output" 1 [.quoted "done"]], searching.procedures) := by
  have htokens : Lexeme.ofText "output \"done" = Lexeme.ofTokens [
      ⟨.symbol, "output", ⟨1, 0⟩⟩, ⟨.quote, "\"done", ⟨1, 7⟩⟩, ⟨.eof, "", ⟨1, 12⟩⟩] := by
    rw [Lexeme.ofText_eq]
    decide +kernel
  rw [Reader.readText, htokens]
  rfl

/-- The exit in the first round ends all ten of them and the body, when only one line has been
written. -/
theorem exit_ends_body_search :
    ∃ t, Exits 4 (.body searchBody) (bodyStart (searching.pushFrame "search") search [])
      (.quoted "done") t ∧ t.output = ["1\n"] ∧
      Evaluate.apply 5 "search" [] searching =
        .value (.quoted "done") (t.leaveBody false).popFrame := by
  have hexits : ∃ t, Exits 4 (.body searchBody) (bodyStart (searching.pushFrame "search") search [])
      (.quoted "done") t ∧ t.output = ["1\n"] :=
    ⟨_, .body .here (.call ⟨⟨_, rfl, rfl⟩, rfl⟩ ⟨0, rfl⟩ (Nat.le_refl 2)
      (.repetition rfl (.now (.block (read_of_ok readText_searchBlock)
        (.later rfl rfl (.here (.call ⟨⟨_, rfl, rfl⟩, rfl⟩ ⟨0, rfl⟩ (Nat.le_refl 2)
          (.when rfl (.block (read_of_ok readText_searchBranch)
            (.here (.output ⟨⟨_, rfl, rfl⟩, rfl⟩ ⟨0, rfl⟩ rfl))))))))))), rfl⟩
  obtain ⟨t, ht, hwritten⟩ := hexits
  have hfound : searching.procedures.lookup? "search" = some search := rfl
  have hbody : search.body = .user searchBody := rfl
  exact ⟨t, ht, hwritten, (exit_ends_body hfound hbody (Nat.zero_le _) (by decide) ht).1⟩

end Evaluate

end Logo
