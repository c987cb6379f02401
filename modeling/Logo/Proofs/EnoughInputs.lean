import Logo.Proofs.Library
import Logo.Proofs.Operation
import Logo.Proofs.TableWrites

/-!
# Enough inputs

A primitive takes its inputs by their places and counts on their being there.  The one check is made
when a procedure is applied, on the entry that is found at that moment: it may be another one than
when the inputs were evaluated, or stand under another name than its own.  The check is enough
because of what the table holds: a primitive of the library stands in it only with as many
parameters as the library declares for it (`ProcedureTable.Stocked`).  Whatever a session does to
the table keeps that, for programs store procedures of their own and copies of what is there.

That no primitive is started on too few inputs is said by an evaluator which may do anything at all
where that happens (`Library.performElse`): it does not differ from the one that programs run on.
-/

namespace Logo

/-! ## What the table holds -/

/-- The primitive that a procedure stands for. -/
def Procedure.primitive? (p : Procedure) : Option Primitive :=
  match p.body with
  | .host _ function => some function.primitive
  | .user _ => none

/-- The number of parameters with which the library declares a primitive, none for one that it
lacks. -/
def Library.declared (primitive : Primitive) : Nat :=
  ((standard.find? (·.primitive? == some primitive)).map Procedure.arity).getD 0

/-- The procedure has at least the parameters that the library declares for its primitive.  This
says nothing of a procedure that is no primitive, or none of the library. -/
def Procedure.Registered (p : Procedure) : Prop :=
  ∀ primitive ∈ p.primitive?, Library.declared primitive ≤ p.arity

instance (p : Procedure) : Decidable p.Registered :=
  inferInstanceAs (Decidable (∀ primitive ∈ p.primitive?, Library.declared primitive ≤ p.arity))

theorem Procedure.registered_of_user {p : Procedure} (h : p.isHost = false) : p.Registered := by
  intro primitive hprimitive
  unfold primitive? at hprimitive
  unfold isHost at h
  split at hprimitive
  · next hbody =>
    rw [hbody] at h
    cases h
  · cases hprimitive

/-- What a primitive looks at is among what the library declares for it. -/
theorem Library.needs_le_declared (primitive : Primitive) :
    needs primitive ≤ declared primitive := by
  cases primitive with
  | probe what => exact Nat.zero_le _
  | _ => decide +kernel

theorem Library.registered_standard : ∀ p ∈ standard, p.Registered := by
  decide +kernel

namespace ProcedureTable

variable {table table' : ProcedureTable} {p : Procedure} {name newName : String}

/-- Every entry has the parameters that its primitive needs. -/
def Stocked (table : ProcedureTable) : Prop :=
  ∀ key, ∀ p ∈ table.entries.get? key, p.Registered

theorem Stocked.lookup? (h : table.Stocked) (hp : table.lookup? name = some p) : p.Registered :=
  h _ p hp

theorem Stocked.define (h : table.Stocked) (hp : p.Registered) : (table.define p).Stocked := by
  intro key q hq
  rw [get?_define] at hq
  split at hq
  · cases hq
    exact hp
  · exact h key q hq

/-- An alias is a copy of an entry. -/
theorem Stocked.addAlias (h : table.Stocked) (hadd : table.addAlias? name newName = some table') :
    table'.Stocked := by
  intro key q hq
  rw [get?_addAlias? hadd] at hq
  split at hq
  · exact h.lookup? hq
  · exact h key q hq

/-- Reading a program stores procedures of the user and copies of entries, so it keeps a table
stocked. -/
theorem Writes.stocked {named : String → Prop} (hwrites : Writes named table table')
    (h : table.Stocked) : table'.Stocked := by
  induction hwrites with
  | refl table => exact h
  | trans _ _ ih₁ ih₂ => exact ih₂ (ih₁ h)
  | define table _ huser => exact h.define (Procedure.registered_of_user huser)
  | addAlias hadd _ => exact h.addAlias hadd

end ProcedureTable

namespace Interpreter

@[simp] theorem procedures_record (s : Interpreter) (event : Event) :
    (s.record event).procedures = s.procedures := by
  unfold record
  split <;> rfl

@[simp] theorem procedures_requestExit (s : Interpreter) :
    s.requestExit.procedures = s.procedures := by
  unfold requestExit
  split <;> rfl

theorem stocked_load {s : Interpreter} {procedures : List Procedure} (h : s.procedures.Stocked)
    (hall : ∀ p ∈ procedures, p.Registered) : (s.load procedures).procedures.Stocked := by
  induction procedures generalizing s with
  | nil => exact h
  | cons p procedures ih =>
    rw [List.forall_mem_cons] at hall
    exact ih (s := s.define p) (h.define hall.1) hall.2

theorem stocked_standard : (initial.load Library.standard).procedures.Stocked :=
  stocked_load nofun Library.registered_standard

end Interpreter

/-- No evaluation takes an entry's parameters away. -/
theorem Effect.stocked {s t : Interpreter} (heffect : Effect s t) (h : s.procedures.Stocked) :
    t.procedures.Stocked := by
  induction heffect with
  | refl | make | declare | console => exact h
  | trans _ _ ih₁ ih₂ => exact ih₂ (ih₁ h)
  | requestExit s =>
    rw [Interpreter.procedures_requestExit]
    exact h
  | read s keep text => exact (Reader.program_writes keep s.procedures _).stocked h
  | addAlias hadd => exact h.addAlias hadd
  | enter | refuse =>
    rw [Interpreter.procedures_record]
    exact h
  | frame _ _ _ ih => exact ih h
  | body _ ih => exact ih h

/-! ## Other ways to perform primitives -/

namespace Evaluate

variable (perform : (Node → Action Node) → Primitive → List Node → Action Node)

/-- Runs the body of a procedure, with another way to perform primitives. -/
def dispatchBy (apply : String → List Node → Action Node) (procedure : Procedure)
    (inputs : List Node) :
    Action Node :=
  match procedure.body with
  | .host _ function => do
    .enter procedure.name inputs.length
    perform (block apply) function.primitive inputs
  | .user nodes => .asBody do
    .enter procedure.name inputs.length
    bodyStatements apply nodes .nil

/-- Applies a procedure, with another way to perform primitives. -/
def applyStepBy (apply : String → List Node → Action Node) (name : String) (inputs : List Node) :
    Action Node := do
  let procedure ← .lookup name
  if inputs.length < procedure.arity then
    .fail (.notEnoughInputs procedure.name procedure.arity inputs.length)
  else if procedure.isInline then
    dispatchBy perform apply procedure inputs
  else if ← .view fun s => decide (s.limit ≤ s.callDepth) then
    .refuse procedure.name inputs.length
    .fail (.stackExhausted (← .view (·.limit)))
  else
    .inFrame procedure.name (dispatchBy perform apply procedure inputs)

/-- Applies a procedure up to a bound on nesting, with another way to perform primitives. -/
def applyBy : Nat → String → List Node → Action Node
  | 0, _, _ => .interrupt .depthBound
  | n + 1, name, inputs => applyStepBy perform (applyBy n) name inputs

/-- With the primitives of the library this is the evaluator that programs run on. -/
theorem applyBy_perform (n : Nat) : applyBy Library.perform n = Evaluate.apply n := by
  induction n with
  | zero => rfl
  | succ n ih =>
    funext name inputs
    rw [apply_succ, ← ih]
    rfl

/-- Assigns a value to the parameter at a place, if the place is one of the parameters. -/
def assignAt (params : List String) (i : Nat) (value : Node) : Action Unit :=
  if h : i < params.length then .modify (·.make (params.get ⟨i, h⟩) value) else pure ()

/-- Evaluates inputs as `inputsFor` does, but counts them to find their parameters. -/
def inputsAt (apply : String → List Node → Action Node) (params : List String) :
    Nat → List Node → Action (List Node)
  | _, [] => pure []
  | i, input :: inputs => do
    let value ← node apply input
    assignAt params i value
    let values ← inputsAt apply params (i + 1) inputs
    return value :: values

theorem bindParam_getElem? (params : List String) (i : Nat) (value : Node) :
    bindParam params[i]? value = assignAt params i value := by
  unfold assignAt
  split
  · next h =>
    rw [List.getElem?_eq_getElem h]
    rfl
  · next h =>
    rw [List.getElem?_eq_none (Nat.le_of_not_lt h)]
    rfl

/-- Evaluating inputs with their parameters in step is evaluating them with a count. -/
theorem inputsFor_drop (apply : String → List Node → Action Node) (params : List String) (i : Nat)
    (inputs : List Node) :
    inputsFor apply (params.drop i) inputs = inputsAt apply params i inputs := by
  induction inputs generalizing i with
  | nil => rfl
  | cons input inputs ih =>
    rw [inputsFor, inputsAt, List.tail_drop, ih, List.head?_drop]
    simp only [bindParam_getElem?]

end Evaluate

/-- Performs a primitive that is given as many inputs as the library declares for it, and does
something else with fewer. -/
def Library.performElse (other : Primitive → List Node → Action Node)
    (runBlock : Node → Action Node) (primitive : Primitive) (inputs : List Node) : Action Node :=
  if declared primitive ≤ inputs.length then perform runBlock primitive inputs
  else other primitive inputs

/-! ## One application -/

/-- The outcome is not that of a primitive which misses an input. -/
def Outcome.Complete {α : Type} (o : Outcome α) : Prop :=
  ∀ primitive, o ≠ .interrupted (.missingInput primitive)

theorem Outcome.Complete.failure {α : Type} (e : EvalError) (s : Interpreter) :
    (Outcome.failure e s : Outcome α).Complete :=
  nofun

theorem Outcome.Complete.mapState {α : Type} {o : Outcome α} (h : o.Complete)
    (f : Interpreter → Interpreter) : (o.mapState f).Complete := by
  intro primitive heq
  cases o with
  | interrupted cause => exact h primitive heq
  | _ => cases heq

namespace Action

variable {α β : Type}

/-- With a table that is stocked the second action does what the first one does, and no input is
missing. -/
structure Provided (x y : Action α) : Prop where
  effective : x.Effective
  same : ∀ s : Interpreter, s.procedures.Stocked → y s = x s
  complete : ∀ s : Interpreter, s.procedures.Stocked → (x s).Complete

/-- Sequences of actions that are provided are provided, as the first one leaves the table
stocked. -/
theorem Provided.bind {x y : Action α} {f g : α → Action β} (hx : x.Provided y)
    (hf : ∀ a, (f a).Provided (g a)) : (x >>= f).Provided (y >>= g) := by
  have hrest : ∀ {s t : Interpreter} {a : α}, s.procedures.Stocked → x s = .value a t →
      t.procedures.Stocked := fun hs ha => (hx.effective _ _ (leaves_of_value ha)).stocked hs
  refine ⟨hx.effective.bind fun a => (hf a).effective, fun s hs => ?_, fun s hs => ?_⟩
  · have hsame := hx.same s hs
    cases hvalue : x s with
    | value a t =>
      rw [bind_of_value hvalue, bind_of_value (hsame.trans hvalue)]
      exact (hf a).same t (hrest hs hvalue)
    | failure e t => rw [bind_of_failure hvalue, bind_of_failure (hsame.trans hvalue)]
    | interrupted i => rw [bind_of_interrupted hvalue, bind_of_interrupted (hsame.trans hvalue)]
  · have hcomplete := hx.complete s hs
    cases hvalue : x s with
    | value a t =>
      rw [bind_of_value hvalue]
      exact (hf a).complete t (hrest hs hvalue)
    | failure e t =>
      rw [bind_of_failure hvalue]
      exact .failure _ _
    | interrupted i =>
      rw [hvalue] at hcomplete
      rw [bind_of_interrupted hvalue]
      intro primitive h
      cases h
      exact hcomplete primitive rfl

/-- Steady actions are provided, and sequences keep it. -/
theorem Congruence.provided : Congruence Provided where
  steady hx := ⟨hx.effective, fun _ _ => rfl, fun s _ _ => hx.ends s _⟩
  bind := .bind

end Action

namespace Evaluate

open Logo.Action

variable {apply apply' : String → List Node → Action Node} {s : Interpreter} {p : Procedure}
  {inputs : List Node}

/-- A procedure that has its parameters and is given enough inputs is dispatched alike, and misses
none. -/
theorem dispatch_provided (other : Primitive → List Node → Action Node)
    (happly : ∀ name inputs, (apply name inputs).Provided (apply' name inputs))
    (hs : s.procedures.Stocked) (hp : p.Registered) (hle : p.arity ≤ inputs.length) :
    dispatchBy (Library.performElse other) apply' p inputs s = dispatch apply p inputs s ∧
      (dispatch apply p inputs s).Complete := by
  cases hbody : p.body with
  | host kind function =>
    have hdeclared : Library.declared function.primitive ≤ inputs.length := by
      refine Nat.le_trans (hp function.primitive ?_) hle
      rw [Procedure.primitive?, hbody]
      rfl
    have hneeds := Library.needs_le_declared function.primitive
    have hperform :=
      Library.perform_congr .provided (block_congr .provided happly) function.primitive inputs
      fun hfew => absurd hfew (by omega)
    have hstart : (s.record (.entered (s.dispatchOf p.name inputs.length))).procedures.Stocked := by
      rw [Interpreter.procedures_record]
      exact hs
    rw [dispatch_host hbody, dispatchBy, hbody]
    refine ⟨Eq.trans ?_ (hperform.same _ hstart), hperform.complete _ hstart⟩
    exact congrFun (if_pos hdeclared) _
  | user nodes =>
    have hstatements := bodyStatements_congr .provided happly nodes .nil
    have hstart : (bodyStart s p inputs).procedures.Stocked := by
      rw [bodyStart, Interpreter.procedures_record]
      exact hs
    rw [dispatch_user hbody, dispatchBy, hbody]
    exact ⟨congrArg (Outcome.mapState _) (hstatements.same _ hstart),
      (hstatements.complete _ hstart).mapState _⟩

/-- One step of an application is provided: it has checked the number of inputs before it
dispatches. -/
theorem applyStep_provided (other : Primitive → List Node → Action Node)
    (happly : ∀ name inputs, (apply name inputs).Provided (apply' name inputs)) (name : String)
    (inputs : List Node) :
    (applyStep apply name inputs).Provided
      (applyStepBy (Library.performElse other) apply' name inputs) := by
  refine ⟨applyStep_effective (fun name inputs => (happly name inputs).effective) name inputs,
    fun s hs => ?_, fun s hs => ?_⟩
  · cases hp : s.procedures.lookup? name with
    | none =>
      rw [applyStep_unknown hp]
      exact bind_of_failure (lookup_of_none hp)
    | some p =>
      rw [applyStep, applyStepBy, bind_of_value (lookup_of_some hp),
        bind_of_value (lookup_of_some hp)]
      split
      · rfl
      · next hle =>
        have hinputs := Nat.le_of_not_lt hle
        split
        · exact (dispatch_provided other happly hs (hs.lookup? hp) hinputs).1
        · rw [view_bind, view_bind]
          split
          · rfl
          · exact congrArg (Outcome.mapState _)
              (dispatch_provided (s := s.pushFrame p.name) other happly hs (hs.lookup? hp)
                hinputs).1
  · cases hp : s.procedures.lookup? name with
    | none =>
      rw [applyStep_unknown hp]
      exact .failure _ _
    | some p =>
      rw [applyStep_known hp]
      split
      · exact .failure _ _
      · next hle =>
        have hinputs := Nat.le_of_not_lt hle
        split
        · exact (dispatch_provided other happly hs (hs.lookup? hp) hinputs).2
        · split
          · exact .failure _ _
          · exact (dispatch_provided (s := s.pushFrame p.name) other happly hs (hs.lookup? hp)
              hinputs).2.mapState _

/-- Applications are provided at every bound, by induction on the bound. -/
theorem apply_provided (other : Primitive → List Node → Action Node) (n : Nat) (name : String)
    (inputs : List Node) :
    (Evaluate.apply n name inputs).Provided
      (applyBy (Library.performElse other) n name inputs) := by
  induction n generalizing name inputs with
  | zero => exact ⟨.interrupt _, fun _ _ => rfl, fun _ _ => nofun⟩
  | succ n ih =>
    rw [apply_succ]
    exact applyStep_provided other ih name inputs

end Evaluate

/-! ## Sessions -/

/-- The interpreters that a host can come to from one with the library. -/
inductive Session : Interpreter → Prop
  | start (limit : Nat) (input : List String) (generator : StdGen) (journal : Option (List Event)) :
      Session { Interpreter.initial.load Library.standard with limit, input, generator, journal }
  /-- Any evaluation, of a text, a node, a block or a body, or the application of any name to any
  inputs. -/
  | evaluated {s t : Interpreter} (h : Session s) (n : Nat) (op : Operation)
      (leaves : (op.run n).Leaves s t) :
      Session t
  /-- Reading without evaluation. -/
  | parsed {s : Interpreter} (h : Session s) (keep : Bool) (ls : List Lexeme) :
      Session { s with procedures := (Reader.program keep s.procedures ls).2 }
  | defined {s : Interpreter} (h : Session s) (p : Procedure) (registered : p.Registered) :
      Session (s.define p)
  | aliased {s : Interpreter} (h : Session s) {name newName : String} {procedures : ProcedureTable}
      (added : s.procedures.addAlias? name newName = some procedures) :
      Session { s with procedures }
  /-- Whatever else the host changes, like variables and the limit on nesting. -/
  | changed {s t : Interpreter} (h : Session s) (same : t.procedures = s.procedures) : Session t

/-- In every session the table is stocked. -/
theorem Session.stocked {s : Interpreter} (h : Session s) : s.procedures.Stocked := by
  induction h with
  | start => exact Interpreter.stocked_standard
  | evaluated _ _ _ leaves ih => exact (Operation.effect leaves).stocked ih
  | parsed _ keep ls ih => exact (Reader.program_writes keep _ ls).stocked ih
  | defined _ p registered ih => exact ih.define registered
  | aliased _ added ih => exact ih.addAlias added
  | changed _ same ih =>
    rw [same]
    exact ih

theorem Session.standard (input : List String) : Session (Interpreter.standard input) :=
  .changed (.start 0 [] mkStdGen none) (Interpreter.procedures_standard input)

/-- In a session no primitive is started on too few inputs.  Whatever were done with fewer inputs
than the library declares for a primitive, every evaluation would go as it does; none is cut short
because a primitive looks for an input that is not there; and a parameter is looked up only at a
place where there is one. -/
theorem Session.inputs_suffice {s : Interpreter} (h : Session s) (n : Nat) (op : Operation) :
    (∀ other, op.runWith (Evaluate.applyBy (Library.performElse other) n) s = op.run n s) ∧
    (∀ primitive, op.run n s ≠ .interrupted (.missingInput primitive)) ∧
    ∀ params inputs, Evaluate.inputsFor (Evaluate.apply n) params inputs =
      Evaluate.inputsAt (Evaluate.apply n) params 0 inputs := by
  have hprovided : ∀ other, (op.run n).Provided
      (op.runWith (Evaluate.applyBy (Library.performElse other) n)) := by
    intro other
    rw [Operation.run_eq_runWith]
    exact Operation.runWith_congr .provided (Evaluate.apply_provided other n) op
  refine ⟨fun other => (hprovided other).same s h.stocked, ?_, fun params inputs => ?_⟩
  · exact (hprovided fun _ _ => pure .nil).complete s h.stocked
  · rw [← Evaluate.inputsFor_drop, List.drop_zero]

/-- A call of `thing` whose only input makes `thing` a name of `ifelse`, which takes three. -/
def renamesItself : Node :=
  .call "thing" 1 [.call "alias" 2 [.quoted "ifelse", .quoted "thing"] false] true

/-- The input is enough for the procedure under which it is evaluated.  It is refused by the one
that is found afterwards, and no branch of it is looked for. -/
theorem Session.inputs_suffice_renamesItself :
    Session (Interpreter.standard []) ∧
    (∃ t, (Operation.evaluate renamesItself).run 2 (Interpreter.standard []) =
      .failure (.notEnoughInputs "ifelse" 3 1) t) ∧
    ∀ other, (Operation.evaluate renamesItself).runWith
        (Evaluate.applyBy (Library.performElse other) 2) (Interpreter.standard []) =
      (Operation.evaluate renamesItself).run 2 (Interpreter.standard []) :=
  ⟨.standard [], ⟨_, rfl⟩, (Session.inputs_suffice (.standard []) 2 (.evaluate renamesItself)).1⟩

end Logo
