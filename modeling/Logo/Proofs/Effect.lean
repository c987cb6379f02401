import Logo.Interpreter

/-!
# What evaluation can do to a state

`Effect s t` says that `t` can be reached from `s` by finished work: assignments, declarations,
requests to exit, use of the console, changes of the procedure table and entries of the journal, in
frames and bodies that are opened and closed again.  An action is effective if it does nothing else,
whether it gives a value or fails; sequences of effective actions are effective.  Every action of
the evaluator is, so a property of all evaluations is proved by one induction on `Effect`.
-/

namespace Logo

/-- The state that an outcome leaves behind.  An interrupted action leaves none. -/
def Outcome.state? {α : Type} : Outcome α → Option Interpreter
  | value _ s => some s
  | failure _ s => some s
  | interrupted _ => none

/-- The action, started in `s`, ends in `t`, with a value or with a failure. -/
def Action.Leaves {α : Type} (x : Action α) (s t : Interpreter) : Prop :=
  (x s).state? = some t

/-- What finished work can do to a state. -/
inductive Effect : Interpreter → Interpreter → Prop
  | refl (s : Interpreter) : Effect s s
  | trans {s t u : Interpreter} (first : Effect s t) (second : Effect t u) : Effect s u
  | make (s : Interpreter) (name : String) (value : Node) : Effect s (s.make name value)
  | declare (s : Interpreter) (name : String) : Effect s (s.declare name)
  | requestExit (s : Interpreter) : Effect s s.requestExit
  /-- Reading a line, writing a text or drawing a random number. -/
  | console (s : Interpreter) (input written : List String) (generator : StdGen) :
      Effect s { s with input, written, generator }
  /-- Reading a program enters its definitions, even when it fails. -/
  | read (s : Interpreter) (keep : Bool) (text : String) :
      Effect s { s with procedures := (Reader.readText keep s.procedures text).2 }
  | addAlias {s : Interpreter} {name newName : String} {procedures : ProcedureTable}
      (h : s.procedures.addAlias? name newName = some procedures) :
      Effect s { s with procedures }
  | enter {s : Interpreter} {name : String} {p : Procedure} {inputs : Nat}
      (hp : s.procedures.lookup? name = some p) (hle : p.arity ≤ inputs) :
      Effect s (s.record (.entered (s.dispatchOf p.name inputs)))
  | refuse {s : Interpreter} {name : String} {p : Procedure} {inputs : Nat}
      (hp : s.procedures.lookup? name = some p) (hle : p.arity ≤ inputs)
      (hfull : s.limit ≤ s.callDepth) :
      Effect s (s.record (.refused (s.dispatchOf p.name inputs)))
  /-- Work in a frame of its own, which is closed afterwards. -/
  | frame {s t : Interpreter} (name : String) (hroom : s.callDepth < s.limit)
      (inner : Effect (s.pushFrame name) t) : Effect s t.popFrame
  /-- The run of a body, behind which the request of the body around it is put back. -/
  | body {s t : Interpreter} (inner : Effect s.enterBody t) :
      Effect s (t.leaveBody s.exitRequested)

/-- The action does nothing to the state but what an effect can. -/
def Action.Effective {α : Type} (x : Action α) : Prop :=
  ∀ s t, x.Leaves s t → Effect s t

/-! ## Actions and how they end -/

namespace Action

variable {α β : Type} {s t : Interpreter}

theorem leaves_pure_iff {a : α} : (pure a : Action α).Leaves s t ↔ s = t := by
  show some s = some t ↔ s = t
  exact Option.some_inj

theorem leaves_fail_iff {e : EvalError} : (fail e : Action α).Leaves s t ↔ s = t := by
  show some s = some t ↔ s = t
  exact Option.some_inj

/-- An interrupted action leaves no state at all. -/
theorem not_leaves_interrupt {i : Interrupt} : ¬ (interrupt i : Action α).Leaves s t := by
  intro h
  cases h

/-- A sequence ends where its first action fails, or where its second one ends. -/
theorem leaves_bind_iff {x : Action α} {f : α → Action β} :
    (x >>= f).Leaves s t ↔
      (∃ e, x s = .failure e t) ∨ ∃ a u, x s = .value a u ∧ (f a).Leaves u t := by
  unfold Leaves
  cases hx : x s with
  | value a u =>
    rw [bind_of_value hx]
    constructor
    · intro h
      exact .inr ⟨a, u, rfl, h⟩
    · rintro (⟨e, h⟩ | ⟨b, v, h, hf⟩)
      · cases h
      · cases h
        exact hf
  | failure e u =>
    rw [bind_of_failure hx]
    constructor
    · intro h
      cases h
      exact .inl ⟨e, rfl⟩
    · rintro (⟨e', h⟩ | ⟨b, v, h, -⟩)
      · cases h
        rfl
      · cases h
  | interrupted i =>
    rw [bind_of_interrupted hx]
    constructor
    · intro h
      cases h
    · rintro (⟨e, h⟩ | ⟨b, v, h, -⟩) <;> cases h

theorem leaves_of_value {x : Action α} {a : α} (h : x s = .value a t) : x.Leaves s t := by
  rw [Leaves, h]
  rfl

theorem leaves_of_failure {x : Action α} {e : EvalError} (h : x s = .failure e t) :
    x.Leaves s t := by
  rw [Leaves, h]
  rfl

/-- A change behind an action is made whether the action gives a value or fails. -/
theorem state?_mapState_eq_some_iff {f : Interpreter → Interpreter} {o : Outcome α} :
    (o.mapState f).state? = some t ↔ ∃ u, o.state? = some u ∧ f u = t := by
  have hmap : (o.mapState f).state? = o.state?.map f := by cases o <;> rfl
  rw [hmap, Option.map_eq_some_iff]

/-! ### Effective actions -/

namespace Effective

@[simp] protected theorem pure (a : α) : (pure a : Action α).Effective := by
  intro s t h
  cases leaves_pure_iff.1 h
  exact .refl s

theorem fail (e : EvalError) : (fail e : Action α).Effective := by
  intro s t h
  cases leaves_fail_iff.1 h
  exact .refl s

@[simp] theorem interrupt (i : Interrupt) : (interrupt i : Action α).Effective := by
  intro s t h
  exact absurd h not_leaves_interrupt

/-- A sequence of effective actions is effective, wherever it ends. -/
protected theorem bind {x : Action α} {f : α → Action β} (hx : x.Effective)
    (hf : ∀ a, (f a).Effective) : (x >>= f).Effective := by
  intro s t h
  rcases leaves_bind_iff.1 h with ⟨e, he⟩ | ⟨a, u, hu, ht⟩
  · exact hx s t (leaves_of_failure he)
  · exact (hx s u (leaves_of_value hu)).trans (hf a u t ht)

theorem view (f : Interpreter → α) : (view f).Effective := by
  intro s t h
  cases h
  exact .refl s

/-- A change is effective if it is an effect in every state. -/
theorem modify {f : Interpreter → Interpreter} (hf : ∀ s, Effect s (f s)) :
    (modify f).Effective := by
  intro s t h
  cases h
  exact hf s

theorem update {f : Interpreter → α × Interpreter} (hf : ∀ s, Effect s (f s).2) :
    (update f).Effective := by
  intro s t h
  cases h
  exact hf s

/-- Looking up a procedure does nothing, whether it is known or not. -/
theorem lookup (name : String) : (lookup name).Effective := by
  intro s t h
  unfold Leaves Action.lookup at h
  split at h <;> cases h <;> exact .refl s

/-- Making an alias is an effect, and fails without one if the original is unknown. -/
theorem addAlias (name newName : String) : (addAlias name newName).Effective := by
  intro s t h
  unfold Leaves Action.addAlias at h
  split at h
  · next procedures hadd =>
    cases h
    exact .addAlias hadd
  · cases h
    exact .refl s

end Effective

end Action

end Logo
