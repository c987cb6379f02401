import Logo.Interpreter.Error
import Logo.Interpreter.State

/-!
# Actions

An action runs against the state of an interpreter.  It gives a value or fails, and leaves a state
in both cases: a failure undoes nothing.  Apart from that it may be interrupted, by the bound on the
depth of recursion or by a primitive that misses an input; what the interpreter would have done then
is not said.
-/

namespace Logo

/-- Why an action was cut short. -/
inductive Interrupt where
  /-- The bound on the depth of recursion was reached. -/
  | depthBound
  /-- A primitive looked for an input that it was not given. -/
  | missingInput (primitive : Primitive)
deriving DecidableEq, Repr

/-- How an action ends. -/
inductive Outcome (α : Type) where
  | value (result : α) (state : Interpreter)
  | failure (error : EvalError) (state : Interpreter)
  | interrupted (cause : Interrupt)

/-- Changes the state that an action has left. -/
@[inline] def Outcome.mapState {α : Type} (f : Interpreter → Interpreter) : Outcome α → Outcome α
  | value result state => value result (f state)
  | failure error state => failure error (f state)
  | interrupted cause => interrupted cause

/-- A step of evaluation. -/
def Action (α : Type) := Interpreter → Outcome α

namespace Action

variable {α β : Type}

/-- Gives a value and changes nothing. -/
@[inline] protected def pure (a : α) : Action α := fun s => .value a s

/-- Runs an action, then another one on its value. -/
@[inline] protected def bind (x : Action α) (f : α → Action β) : Action β := fun s =>
  match x s with
  | .value a s => f a s
  | .failure e s => .failure e s
  | .interrupted i => .interrupted i

instance : Monad Action where
  pure := Action.pure
  bind := Action.bind

instance : LawfulMonad Action :=
  LawfulMonad.mk' Action
    (fun x => funext fun s => by
      show Action.bind x (fun a => Action.pure (id a)) s = x s
      unfold Action.bind
      cases x s <;> rfl)
    (fun _ _ => rfl)
    (fun x f g => funext fun s => by
      show Action.bind (Action.bind x f) g s = Action.bind x (fun a => Action.bind (f a) g) s
      unfold Action.bind
      cases x s <;> rfl)

/-- Fails. -/
@[inline] def fail (e : EvalError) : Action α := fun s => .failure e s

/-- Cuts the run short. -/
@[inline] def interrupt (i : Interrupt) : Action α := fun _ => .interrupted i

/-- Looks at the state. -/
@[inline] def view (f : Interpreter → α) : Action α := fun s => .value (f s) s

/-- Changes the state. -/
@[inline] def modify (f : Interpreter → Interpreter) : Action Unit := fun s => .value () (f s)

/-- Gives a value and a new state. -/
@[inline] def update (f : Interpreter → α × Interpreter) : Action α := fun s =>
  let (a, s) := f s
  .value a s

/-- The result of a computation that needs no state. -/
@[inline] def ofExcept : Except EvalError α → Action α
  | .ok a => Action.pure a
  | .error e => fail e

/-- The procedure with a name. -/
def lookup (name : String) : Action Procedure := fun s =>
  match s.procedures.lookup? name with
  | some p => .value p s
  | none => .failure (.unknownProcedure name) s

/-- Gives a procedure a second name. -/
def addAlias (name newName : String) : Action Unit := fun s =>
  match s.procedures.addAlias? name newName with
  | some procedures => .value () { s with procedures }
  | none => .failure (.unknownProcedure name) s

/-- Runs an action in a frame of its own.  The frame is closed however the action ends. -/
@[inline] def inFrame (name : String) (x : Action α) : Action α := fun s =>
  (x (s.pushFrame name)).mapState (·.popFrame)

/-- Runs an action as a body.  A request to exit ends with the body. -/
@[inline] def asBody (x : Action α) : Action α := fun s =>
  (x s.enterBody).mapState (·.leaveBody s.exitRequested)

/-- Records that a procedure is entered. -/
@[inline] def enter (procedure : String) (inputs : Nat) : Action Unit :=
  modify fun s => s.record (.entered (s.dispatchOf procedure inputs))

/-- Records that a call is refused. -/
@[inline] def refuse (procedure : String) (inputs : Nat) : Action Unit :=
  modify fun s => s.record (.refused (s.dispatchOf procedure inputs))

/-! ### Running a sequence -/

section Sequence

variable {x : Action α} {f : α → Action β} {s t : Interpreter}

/-- Behind a value the sequence goes on. -/
theorem bind_of_value {a : α} (h : x s = .value a t) : (x >>= f) s = f a t := by
  show Action.bind x f s = f a t
  rw [Action.bind, h]

/-- A failure ends a sequence where it happens. -/
theorem bind_of_failure {e : EvalError} (h : x s = .failure e t) :
    (x >>= f) s = .failure e t := by
  show Action.bind x f s = .failure e t
  rw [Action.bind, h]

/-- An interrupt ends a sequence and leaves no state. -/
theorem bind_of_interrupted {i : Interrupt} (h : x s = .interrupted i) :
    (x >>= f) s = .interrupted i := by
  show Action.bind x f s = .interrupted i
  rw [Action.bind, h]

/-- A sequence gives a value when both of its actions do. -/
theorem bind_eq_value_iff {b : β} :
    (x >>= f) s = .value b t ↔ ∃ a u, x s = .value a u ∧ f a u = .value b t := by
  cases hx : x s with
  | value a u =>
    rw [bind_of_value hx]
    constructor
    · intro h
      exact ⟨a, u, rfl, h⟩
    · rintro ⟨_, _, heq, h⟩
      cases heq
      exact h
  | failure e u =>
    rw [bind_of_failure hx]
    constructor
    · intro h
      cases h
    · rintro ⟨_, _, heq, -⟩
      cases heq
  | interrupted i =>
    rw [bind_of_interrupted hx]
    constructor
    · intro h
      cases h
    · rintro ⟨_, _, heq, -⟩
      cases heq

/-- A known name is looked up without a change of the state. -/
theorem lookup_of_some {name : String} {p : Procedure} (h : s.procedures.lookup? name = some p) :
    lookup name s = .value p s := by
  rw [lookup, h]

theorem lookup_of_none {name : String} (h : s.procedures.lookup? name = none) :
    lookup name s = .failure (.unknownProcedure name) s := by
  rw [lookup, h]

theorem view_bind (g : Interpreter → α) : (view g >>= f) s = f (g s) s := rfl

theorem modify_bind (g : Interpreter → Interpreter) (f : Unit → Action β) :
    (modify g >>= f) s = f () (g s) := rfl

end Sequence

end Action

end Logo
