import Logo.Proofs.Operation
import Logo.Proofs.Scopes

/-!
# What a body sees of the inputs

A call assigns each input to its parameter as soon as it is evaluated, by an assignment in the
scopes of the caller.  The body finds the parameters there.  An input that is evaluated later may
have assigned an earlier parameter again, for instance because it calls the same procedure: then the
body sees the later value (`parameters_overwritten`).  `parameters_faithful_iff` says exactly when
it does not.
-/

namespace Logo

namespace Evaluate

open Logo.Action

variable {apply : String → List Node → Action Node} {s t : Interpreter}

/-! ## Inputs one after the other -/

/-- Inputs are evaluated and assigned in two runs as in one. -/
theorem inputsFor_append (params : List String) (front back : List Node) :
    inputsFor apply params (front ++ back) = (do
      let values ← inputsFor apply params front
      let others ← inputsFor apply (params.drop front.length) back
      return values ++ others) := by
  induction front generalizing params with
  | nil => simp [inputsFor]
  | cons input front ih =>
    have hdrop : params.tail.drop front.length = params.drop (front.length + 1) := by
      rw [← List.drop_one, List.drop_drop, Nat.add_comm]
    simp [inputsFor, ih, hdrop]

theorem length_inputsFor {params : List String} {inputs values : List Node}
    (h : inputsFor apply params inputs s = .value values t) : values.length = inputs.length := by
  induction inputs generalizing params values s with
  | nil =>
    cases h
    rfl
  | cons input inputs ih =>
    rw [inputsFor] at h
    obtain ⟨value, s₁, -, h⟩ := bind_eq_value_iff.1 h
    obtain ⟨_, s₂, -, h⟩ := bind_eq_value_iff.1 h
    obtain ⟨rest, s₃, hrest, h⟩ := bind_eq_value_iff.1 h
    cases h
    rw [List.length_cons, List.length_cons, ih hrest]

/-- Evaluates inputs as a call does, but leaves the last one unassigned. -/
def pendingInputs (apply : String → List Node → Action Node) (params : List String)
    (inputs : List Node) : Action (List Node) := do
  let values ← inputsFor apply params inputs.dropLast
  match inputs.getLast? with
  | some input => return values ++ [← node apply input]
  | none => return values

theorem inputsFor_snoc {params : List String} {param : String} {front values : List Node}
    {input : Node} (hlen : params.length = front.length)
    (h : inputsFor apply (params ++ [param]) (front ++ [input]) s = .value values t) :
    ∃ u initial last,
      pendingInputs apply (params ++ [param]) (front ++ [input]) s = .value (initial ++ [last]) u ∧
      values = initial ++ [last] ∧ initial.length = front.length ∧ t = u.make param last := by
  rw [inputsFor_append, ← hlen, List.drop_left] at h
  obtain ⟨initial, s₁, hfront, h⟩ := bind_eq_value_iff.1 h
  obtain ⟨others, s₂, hlast, h⟩ := bind_eq_value_iff.1 h
  cases h
  rw [inputsFor] at hlast
  obtain ⟨last, u, hinput, hlast⟩ := bind_eq_value_iff.1 hlast
  cases hlast
  refine ⟨u, initial, last, ?_, rfl, length_inputsFor hfront, rfl⟩
  rw [pendingInputs, List.dropLast_concat, bind_of_value hfront]
  simp only [List.getLast?_concat]
  rw [bind_of_value hinput]
  rfl

/-- An assignment is seen under its own name, and under no name that differs in more than case. -/
theorem map_resolve_make {params : List String} {param : String} {value : Node}
    (hnew : Text.toLower param ∉ params.map Text.toLower) :
    (params ++ [param]).map (s.make param value).scopes.resolve =
      params.map s.scopes.resolve ++ [value] := by
  have hself : (s.make param value).scopes.resolve param = value := by
    rw [Interpreter.scopes_make, Scopes.resolve_make, if_pos rfl]
  have hothers : ∀ other ∈ params,
      (s.make param value).scopes.resolve other = s.scopes.resolve other := by
    intro other hother
    rw [Interpreter.scopes_make, Scopes.resolve_make, if_neg]
    intro hkey
    exact hnew (hkey ▸ List.mem_map_of_mem hother)
  rw [List.map_append, List.map_cons, List.map_nil, hself, List.map_congr_left hothers]

/-! ## Inputs that call nothing -/

theorem node_of_type_ne_call (apply : String → List Node → Action Node) {input : Node}
    (h : input.type ≠ .call) (s : Interpreter) :
    ∃ value, node apply input s = .value value s := by
  cases input with
  | call => exact absurd rfl h
  | _ => exact ⟨_, rfl⟩

theorem inputsFor_cons {params : List String} {param : String} {input : Node}
    {inputs values : List Node}
    (h : inputsFor apply (param :: params) (input :: inputs) s = .value values t) :
    ∃ value u rest, node apply input s = .value value u ∧ values = value :: rest ∧
      inputsFor apply params inputs (u.make param value) = .value rest t := by
  rw [inputsFor] at h
  obtain ⟨value, u, hinput, h⟩ := bind_eq_value_iff.1 h
  obtain ⟨_, s₁, hbind, h⟩ := bind_eq_value_iff.1 h
  cases hbind
  obtain ⟨rest, s₂, hrest, h⟩ := bind_eq_value_iff.1 h
  cases h
  exact ⟨value, u, rest, hinput, rfl, hrest⟩

/-- Inputs that call nothing assign nothing but their own parameters. -/
theorem resolve_inputsFor {params : List String} {inputs values : List Node}
    (hlen : params.length = inputs.length) (hsimple : ∀ input ∈ inputs, input.type ≠ .call)
    (h : inputsFor apply params inputs s = .value values t) {other : String}
    (hother : Text.toLower other ∉ params.map Text.toLower) :
    t.scopes.resolve other = s.scopes.resolve other := by
  induction inputs generalizing params values s with
  | nil =>
    cases h
    rfl
  | cons input inputs ih =>
    cases params with
    | nil => simp at hlen
    | cons param params =>
      obtain ⟨value, u, rest, hinput, -, hrest⟩ := inputsFor_cons h
      obtain ⟨value', hsame⟩ :=
        node_of_type_ne_call apply (hsimple input List.mem_cons_self) s
      obtain ⟨rfl, rfl⟩ := Outcome.value.inj (hsame.symm.trans hinput)
      rw [List.map_cons, List.mem_cons, not_or] at hother
      have hlen' : params.length = inputs.length := by simpa using hlen
      have hsimple' : ∀ input ∈ inputs, input.type ≠ .call :=
        fun input hmem => hsimple input (List.mem_cons_of_mem _ hmem)
      rw [ih hlen' hsimple' hrest hother.2, Interpreter.scopes_make, Scopes.resolve_make,
        if_neg hother.1]

/-- If no input but the first calls anything, every parameter ends up with its input. -/
theorem map_resolve_inputsFor {params : List String} {inputs values : List Node}
    (hlen : params.length = inputs.length) (hdistinct : (params.map Text.toLower).Nodup)
    (hsimple : ∀ input ∈ inputs.tail, input.type ≠ .call)
    (h : inputsFor apply params inputs s = .value values t) :
    params.map t.scopes.resolve = values := by
  induction inputs generalizing params values s with
  | nil =>
    obtain rfl : params = [] := List.eq_nil_of_length_eq_zero hlen
    cases h
    rfl
  | cons input inputs ih =>
    cases params with
    | nil => simp at hlen
    | cons param params =>
      obtain ⟨value, u, rest, -, rfl, hrest⟩ := inputsFor_cons h
      have hlen' : params.length = inputs.length := by simpa using hlen
      rw [List.map_cons, List.nodup_cons] at hdistinct
      have hsimple' : ∀ input ∈ inputs, input.type ≠ .call := hsimple
      have hvalue : t.scopes.resolve param = value := by
        rw [resolve_inputsFor hlen' hsimple' hrest hdistinct.1, Interpreter.scopes_make,
          Scopes.resolve_make, if_pos rfl]
      have hothers := ih hlen' hdistinct.2
        (fun input hmem => hsimple' input (List.mem_of_mem_tail hmem)) hrest
      rw [List.map_cons, hvalue, hothers]

/-! ## The body of a call -/

/-- A call of a user's procedure, started in `s`, whose inputs have all been evaluated and assigned
in `t`: the parameters differ in more than case, there is one input for each, and evaluating them
has left the procedure alone. -/
structure BoundCall (apply : String → List Node → Action Node) (name : String) (p : Procedure)
    (body inputs values : List Node) (s t : Interpreter) : Prop where
  procedure : s.procedures.lookup? name = some p
  user : p.body = .user body
  distinct : (p.params.map Text.toLower).Nodup
  count : inputs.length = p.arity
  evaluated : inputsFor apply p.params inputs s = .value values t
  unchanged : t.procedures.lookup? name = some p

/-- The state in which the body of a call starts whose inputs have been assigned in `t`. -/
def calleeStart (t : Interpreter) (p : Procedure) (values : List Node) : Interpreter :=
  bodyStart (t.pushFrame p.name) p values

@[simp] theorem resolve_calleeStart (p : Procedure) (values : List Node) (name : String) :
    (calleeStart t p values).scopes.resolve name = t.scopes.resolve name := by
  unfold calleeStart bodyStart
  rw [Interpreter.scopes_record]
  rfl

namespace BoundCall

variable {n : Nat} {name : String} {p : Procedure} {body inputs values : List Node}

/-- Within the limit on nesting, such a call runs the body from `calleeStart`. -/
theorem node_call (h : BoundCall (Evaluate.apply (n + 1)) name p body inputs values s t)
    (hroom : t.callDepth < t.limit) (arity : Nat) (parenthesized : Bool) :
    node (Evaluate.apply (n + 1)) (.call name arity inputs parenthesized) s =
      (bodyStatements (Evaluate.apply n) body .nil (calleeStart t p values)).mapState
        fun u => (u.leaveBody t.exitRequested).popFrame := by
  have hcount : values.length = p.arity := (length_inputsFor h.evaluated).trans h.count
  have hinline : p.isInline = false := by rw [Procedure.isInline, h.user]
  rw [node, bind_of_value (lookup_of_some h.procedure), bind_of_value h.evaluated, apply_succ,
    applyStep_known h.unchanged, if_neg (by omega), hinline, if_neg Bool.false_ne_true,
    if_neg (Nat.not_le_of_lt hroom), dispatch_user h.user]
  show _ = Outcome.mapState _ (bodyStatements _ body .nil (bodyStart (t.pushFrame p.name) p values))
  generalize bodyStatements (Evaluate.apply n) body .nil _ = outcome
  cases outcome <;> rfl

/-- The body sees the last parameter as it was assigned, and the others as they were once the last
input had been evaluated. -/
theorem exists_pending (h : BoundCall apply name p body inputs values s t) :
    ∃ u, pendingInputs apply p.params inputs s = .value values u ∧
      p.params.map (calleeStart t p values).scopes.resolve =
        p.params.dropLast.map u.scopes.resolve ++ values.getLast?.toList := by
  have hlen : p.params.length = inputs.length := h.count.symm
  have heval := h.evaluated
  have hdistinct := h.distinct
  rw [funext (resolve_calleeStart p values)]
  generalize p.params = params at hlen heval hdistinct
  -- The last input is the pending one; without inputs there is none.
  rcases List.eq_nil_or_concat inputs with rfl | ⟨front, input, hinputs⟩
  · obtain rfl : params = [] := List.eq_nil_of_length_eq_zero hlen
    cases heval
    exact ⟨s, rfl, rfl⟩
  · rcases List.eq_nil_or_concat params with rfl | ⟨initialParams, param, hparams⟩
    · simp [hinputs] at hlen
    · rw [List.concat_eq_append] at hinputs hparams
      subst hinputs hparams
      have hlen' : initialParams.length = front.length := by simpa using hlen
      obtain ⟨u, initial, last, hpending, rfl, -, rfl⟩ := inputsFor_snoc hlen' heval
      refine ⟨u, hpending, ?_⟩
      rw [List.map_append, List.nodup_append] at hdistinct
      have hnew : Text.toLower param ∉ initialParams.map Text.toLower := by
        intro hmem
        exact hdistinct.2.2 _ hmem _ List.mem_cons_self rfl
      rw [map_resolve_make hnew, List.dropLast_concat, List.getLast?_concat]
      rfl

end BoundCall

/-- A body sees each parameter with the value of its input exactly when all but the last one still
had theirs once the last input had been evaluated.  This is so in every call that has no further
call among its inputs, the first one apart. -/
theorem parameters_faithful_iff {n : Nat} {name : String} {p : Procedure}
    {body inputs values : List Node}
    (h : BoundCall (Evaluate.apply (n + 1)) name p body inputs values s t) :
    (∀ arity parenthesized, t.callDepth < t.limit →
      node (Evaluate.apply (n + 1)) (.call name arity inputs parenthesized) s =
        (bodyStatements (Evaluate.apply n) body .nil (calleeStart t p values)).mapState
          fun u => (u.leaveBody t.exitRequested).popFrame) ∧
    (∃ u, pendingInputs (Evaluate.apply (n + 1)) p.params inputs s = .value values u ∧
      (p.params.map (calleeStart t p values).scopes.resolve = values ↔
        p.params.dropLast.map u.scopes.resolve = values.dropLast)) ∧
    ((∀ input ∈ inputs.tail, input.type ≠ .call) →
      p.params.map (calleeStart t p values).scopes.resolve = values) := by
  refine ⟨fun arity parenthesized hroom => h.node_call hroom arity parenthesized, ?_, ?_⟩
  · obtain ⟨u, hpending, hseen⟩ := h.exists_pending
    refine ⟨u, hpending, ?_⟩
    have hvalues : values.dropLast ++ values.getLast?.toList = values := by
      by_cases hnil : values = []
      · rw [hnil]
        rfl
      · rw [List.getLast?_eq_some_getLast hnil]
        exact List.dropLast_concat_getLast hnil
    rw [hseen]
    constructor
    · intro heq
      exact List.append_cancel_right (heq.trans hvalues.symm)
    · intro heq
      rw [heq, hvalues]
  · intro hsimple
    rw [funext (resolve_calleeStart p values)]
    exact map_resolve_inputsFor h.count.symm h.distinct hsimple h.evaluated

/-- A procedure that gives its first input, under the given names. -/
def firstInput (name : String) (params : List String) : Procedure :=
  { Procedure.ofHeader name params 1 with
    body := .user [.plainCall "output" 1 [.reference (params.headD "")]] }

/-- An interpreter that knows `output` and two procedures that give their first inputs. -/
def firstInputs : Interpreter :=
  Interpreter.initial.load [Library.native "output" ["value"] .output,
    firstInput "f" ["a", "b"], firstInput "g" ["c"]]

/-- In `f 1 f 2 3` the inner call assigns `a` again, and the outer body sees 2 where it was given 1.
-/
theorem parameters_overwritten :
    ¬ ∀ (n : Nat) (name : String) (p : Procedure) (body inputs values : List Node)
      (s t : Interpreter), BoundCall (Evaluate.apply n) name p body inputs values s t →
      p.params.map (calleeStart t p values).scopes.resolve = values := by
  intro hall
  have hcall : ∃ t, BoundCall (Evaluate.apply 3) "f" (firstInput "f" ["a", "b"])
      [.plainCall "output" 1 [.reference "a"]]
      [.integer 1, .plainCall "f" 2 [.integer 2, .integer 3]] [.integer 1, .integer 2]
      firstInputs t ∧ ["a", "b"].map t.scopes.resolve = [.integer 2, .integer 2] :=
    ⟨_, ⟨rfl, rfl, by decide, rfl, rfl, rfl⟩, rfl⟩
  obtain ⟨t, hbound, hseen⟩ := hcall
  have hclaim := hall 3 _ _ _ _ _ _ _ hbound
  rw [funext (resolve_calleeStart _ _)] at hclaim
  have hvalues := hseen.symm.trans hclaim
  injection hvalues with hfirst
  injection hfirst with hint
  exact absurd hint (by decide)

/-- In `f 1 g 5` the inner call assigns a parameter of its own, and the body sees what it was given.
-/
theorem parameters_faithful_firstInputs :
    ∃ t, BoundCall (Evaluate.apply 3) "f" (firstInput "f" ["a", "b"])
        [.plainCall "output" 1 [.reference "a"]]
        [.integer 1, .plainCall "g" 1 [.integer 5]] [.integer 1, .integer 5] firstInputs t ∧
      ["a", "b"].map (calleeStart t (firstInput "f" ["a", "b"])
        [.integer 1, .integer 5]).scopes.resolve = [.integer 1, .integer 5] := by
  have hcall : ∃ t, BoundCall (Evaluate.apply 3) "f" (firstInput "f" ["a", "b"])
      [.plainCall "output" 1 [.reference "a"]]
      [.integer 1, .plainCall "g" 1 [.integer 5]] [.integer 1, .integer 5] firstInputs t :=
    ⟨_, rfl, rfl, by decide, rfl, rfl, rfl⟩
  obtain ⟨t, hbound⟩ := hcall
  obtain ⟨-, ⟨u, hpending, hiff⟩, -⟩ := parameters_faithful_iff hbound
  refine ⟨t, hbound, hiff.2 ?_⟩
  have hexplicit : ∃ u, pendingInputs (Evaluate.apply 3) ["a", "b"]
      [.integer 1, .plainCall "g" 1 [.integer 5]] firstInputs = .value [.integer 1, .integer 5] u ∧
      ["a"].map u.scopes.resolve = [.integer 1] := ⟨_, rfl, rfl⟩
  obtain ⟨u', hpending', hseen⟩ := hexplicit
  cases hpending.symm.trans hpending'
  exact hseen

end Evaluate

end Logo
