import Logo.Proofs.Composition

/-!
# Operations

What one application of a procedure does is said by one equation for each case (`applyStep_known`,
`dispatch_host`, `dispatch_user`).  From them follows that it has an effect if the applications
nested in it do (`Evaluate.applyStep_effective`), hence that every operation has one
(`Operation.effect`), whatever the bound on nesting.
-/

namespace Logo

namespace Evaluate

open Logo.Action

/-! ## One application

The equations below say all that applying a procedure can do, one for each case. -/

variable {apply : String → List Node → Action Node} {s : Interpreter} {name : String}
  {p : Procedure} {inputs : List Node}

theorem read_of_ok {keep : Bool} {source : String} {nodes : List Node} {procedures : ProcedureTable}
    (h : Reader.readText keep s.procedures source = (.ok nodes, procedures)) :
    read keep source s = .value nodes { s with procedures } := by
  rw [read, h]

/-- A host function starts in the state of its dispatch, once this is recorded. -/
theorem dispatch_host {kind : HostKind} {function : HostFunction}
    (hbody : p.body = .host kind function) :
    dispatch apply p inputs s = Library.perform (block apply) function.primitive inputs
      (s.record (.entered (s.dispatchOf p.name inputs.length))) := by
  rw [dispatch, hbody]
  rfl

/-- The state in which the statements of a body start, for a call that is dispatched in `s`. -/
def bodyStart (s : Interpreter) (p : Procedure) (inputs : List Node) : Interpreter :=
  s.enterBody.record (.entered (s.enterBody.dispatchOf p.name inputs.length))

theorem dispatch_user {nodes : List Node} (hbody : p.body = .user nodes) :
    dispatch apply p inputs s = (bodyStatements apply nodes .nil (bodyStart s p inputs)).mapState
      (·.leaveBody s.exitRequested) := by
  rw [dispatch, hbody]
  rfl

theorem applyStep_unknown (hp : s.procedures.lookup? name = none) :
    applyStep apply name inputs s = .failure (.unknownProcedure name) s :=
  bind_of_failure (lookup_of_none hp)

theorem applyStep_known (hp : s.procedures.lookup? name = some p) :
    applyStep apply name inputs s =
      if inputs.length < p.arity then
        .failure (.notEnoughInputs p.name p.arity inputs.length) s
      else if p.isInline then
        dispatch apply p inputs s
      else if s.limit ≤ s.callDepth then
        .failure (.stackExhausted s.limit)
          (s.record (.refused (s.dispatchOf p.name inputs.length)))
      else
        (dispatch apply p inputs (s.pushFrame p.name)).mapState (·.popFrame) := by
  rw [applyStep, bind_of_value (lookup_of_some hp)]
  split
  · rfl
  · split
    · rfl
    · rw [view_bind]
      by_cases hfull : s.limit ≤ s.callDepth
      · rw [if_pos (decide_eq_true hfull), if_pos hfull, refuse, modify_bind, view_bind,
          Interpreter.limit_record]
        rfl
      · rw [if_neg (by simp [hfull]), if_neg hfull]
        rfl

/-- A procedure that is not inline is refused without a change of the frames, or does all its work
in a frame of its own. -/
theorem applyStep_framed {t : Interpreter} (hp : s.procedures.lookup? name = some p)
    (hinline : p.isInline = false) (h : (applyStep apply name inputs).Leaves s t) :
    t = s ∨
      (p.arity ≤ inputs.length ∧ s.limit ≤ s.callDepth ∧
        t = s.record (.refused (s.dispatchOf p.name inputs.length))) ∨
      (p.arity ≤ inputs.length ∧ s.callDepth < s.limit ∧
        ∃ u, (dispatch apply p inputs).Leaves (s.pushFrame p.name) u ∧ t = u.popFrame) := by
  rw [Leaves, applyStep_known hp, hinline] at h
  split at h
  · cases h
    exact .inl rfl
  · next hle =>
    split at h
    · next hfalse => cases hfalse
    · split at h
      · next hfull =>
        cases h
        exact .inr (.inl ⟨Nat.le_of_not_lt hle, hfull, rfl⟩)
      · next hroom =>
        obtain ⟨u, hu, rfl⟩ := state?_mapState_eq_some_iff.1 h
        exact .inr (.inr ⟨Nat.le_of_not_lt hle, Nat.lt_of_not_le hroom, u, hu, rfl⟩)

/-! ## Every application has an effect -/

theorem dispatch_effect {t : Interpreter} (happly : ∀ name inputs, (apply name inputs).Effective)
    (hp : s.procedures.lookup? name = some p) (hle : p.arity ≤ inputs.length)
    (h : (dispatch apply p inputs).Leaves s t) : Effect s t := by
  cases hbody : p.body with
  | host kind function =>
    rw [Leaves, dispatch_host hbody] at h
    have hperform : (Library.perform (block apply) function.primitive inputs).Effective :=
      @Library.perform_congr _ .effective _ (block apply)
        (@block_congr _ apply apply .effective happly)
        function.primitive inputs fun _ => .interrupt _
    exact .trans (.enter hp hle) (hperform _ t h)
  | user nodes =>
    rw [Leaves, dispatch_user hbody, state?_mapState_eq_some_iff] at h
    obtain ⟨u, hu, rfl⟩ := h
    -- The body starts with the procedures of `s`, so its entry is recorded for `p`.
    have henter : Effect s.enterBody (bodyStart s p inputs) := .enter hp hle
    have hbody : (bodyStatements apply nodes .nil).Effective :=
      @bodyStatements_congr _ apply apply .effective happly nodes .nil
    exact .body (henter.trans (hbody _ u hu))

theorem applyStep_effective (happly : ∀ name inputs, (apply name inputs).Effective)
    (name : String) (inputs : List Node) : (applyStep apply name inputs).Effective := by
  intro s t h
  cases hp : s.procedures.lookup? name with
  | none =>
    rw [Leaves, applyStep_unknown hp] at h
    cases h
    exact .refl s
  | some p =>
    cases hinline : p.isInline with
    | false =>
      rcases applyStep_framed hp hinline h with
        rfl | ⟨hle, hfull, rfl⟩ | ⟨hle, hroom, u, hu, rfl⟩
      · exact .refl t
      · exact .refuse hp hle hfull
      · have heffect : Effect (s.pushFrame p.name) u := dispatch_effect happly hp hle hu
        exact .frame p.name hroom heffect
    | true =>
      rw [Leaves, applyStep_known hp, hinline] at h
      split at h
      · cases h
        exact .refl s
      · next hle =>
        rw [if_pos rfl] at h
        exact dispatch_effect happly hp (Nat.le_of_not_lt hle) h

/-- Whatever the bound on nesting, applying a procedure has an effect. -/
theorem apply_effective (n : Nat) (name : String) (inputs : List Node) :
    (Evaluate.apply n name inputs).Effective := by
  induction n generalizing name inputs with
  | zero =>
    rw [apply_zero]
    exact .interrupt _
  | succ n ih =>
    rw [apply_succ]
    exact applyStep_effective ih name inputs

end Evaluate

/-! ## Operations and reachable states -/

/-- The ways to start an evaluation. -/
inductive Operation where
  | eval (text : String)
  | evaluate (node : Node)
  | apply (name : String) (inputs : List Node)
  | runBlock (block : Node)
  /-- The statements of a body, one after the other. -/
  | runBody (statements : List Node)

/-- The evaluation that an operation starts, with applications nested at most as deep as the bound.
At the bound `Interpreter.depthBound` these are the actions that a host uses. -/
def Operation.run (n : Nat) : Operation → Action Node
  | .eval text => Evaluate.text (Evaluate.apply n) text
  | .evaluate node => Evaluate.node (Evaluate.apply n) node
  | .apply name inputs => Evaluate.apply n name inputs
  | .runBlock block => Evaluate.block (Evaluate.apply n) block
  | .runBody statements => Evaluate.bodyStatements (Evaluate.apply n) statements .nil

example (text : String) (n : Node) (name : String) (inputs : List Node) :
    (Operation.eval text).run Interpreter.depthBound = Interpreter.eval text ∧
      (Operation.evaluate n).run Interpreter.depthBound = Interpreter.evaluate n ∧
      (Operation.apply name inputs).run Interpreter.depthBound = Interpreter.apply name inputs ∧
      (Operation.runBlock n).run Interpreter.depthBound = Interpreter.runBlock n :=
  ⟨rfl, rfl, rfl, rfl⟩

/-- The evaluation that an operation starts, for any way to apply procedures. -/
def Operation.runWith (apply : String → List Node → Action Node) : Operation → Action Node
  | .eval text => Evaluate.text apply text
  | .evaluate node => Evaluate.node apply node
  | .apply name inputs => apply name inputs
  | .runBlock block => Evaluate.block apply block
  | .runBody statements => Evaluate.bodyStatements apply statements .nil

theorem Operation.run_eq_runWith (n : Nat) (op : Operation) :
    op.run n = op.runWith (Evaluate.apply n) := by
  cases op <;> rfl

/-- What relates two ways to apply procedures relates the evaluations that use them. -/
theorem Operation.runWith_congr {R : {α : Type} → Action α → Action α → Prop}
    (hR : Action.Congruence R) {apply apply' : String → List Node → Action Node}
    (happly : ∀ name inputs, R (apply name inputs) (apply' name inputs)) (op : Operation) :
    R (op.runWith apply) (op.runWith apply') := by
  cases op with
  | eval text => exact Evaluate.text_congr hR happly text
  | evaluate node => exact Evaluate.node_congr hR happly node
  | apply name inputs => exact happly name inputs
  | runBlock block => exact Evaluate.block_congr hR happly block
  | runBody statements => exact Evaluate.bodyStatements_congr hR happly statements .nil

/-- Every operation has an effect, whether it gives a value or fails. -/
theorem Operation.effect {n : Nat} {op : Operation} {s t : Interpreter}
    (h : (op.run n).Leaves s t) : Effect s t := by
  rw [run_eq_runWith] at h
  have hrun : (op.runWith (Evaluate.apply n)).Effective :=
    @runWith_congr _ .effective _ (Evaluate.apply n) (Evaluate.apply_effective n) op
  exact hrun s t h

/-- The states that an interpreter can be in, between operations and while one is running.  Work
that is finished has had an effect; work that is not has left frames and bodies open. -/
inductive Reachable : Interpreter → Prop
  | fresh (limit : Nat) (input : List String) (generator : StdGen) :
      Reachable { Interpreter.initial with limit, input, generator }
  | freshJournal (limit : Nat) (input : List String) (generator : StdGen) :
      Reachable { Interpreter.initial with limit, input, generator, journal := some [] }
  | define {s : Interpreter} (p : Procedure) (h : Reachable s) : Reachable (s.define p)
  | evaluated {s t : Interpreter} (h : Reachable s) (effect : Effect s t) : Reachable t
  | inFrame {s : Interpreter} (name : String) (h : Reachable s) (hroom : s.callDepth < s.limit) :
      Reachable (s.pushFrame name)
  | inBody {s : Interpreter} (h : Reachable s) : Reachable s.enterBody

end Logo
