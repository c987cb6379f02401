import Logo.ProcedureTable
import Logo.Scopes

/-!
# The state of an interpreter

The procedures and variables, the bookkeeping of running calls, and the two ends of the console.  An
exit can be requested only while a body runs; the request belongs to the innermost body and is put
aside while another one runs above it.

The journal, where it is kept, records every procedure that is entered and every call that the
limit on nesting refuses.
-/

namespace Logo

/-- A call at the moment of its dispatch. -/
structure Dispatch where
  procedure : String
  inputs : Nat
  callDepth : Nat
  activeBodies : Nat
  exitRequested : Bool
deriving DecidableEq, Repr

/-- What the journal records. -/
inductive Event where
  /-- A host function or a body starts. -/
  | entered (dispatch : Dispatch)
  /-- A call would exceed the limit on nesting. -/
  | refused (dispatch : Dispatch)
deriving DecidableEq, Repr

/-- The state of an interpreter. -/
structure Interpreter where
  procedures : ProcedureTable
  scopes : Scopes
  /-- The largest number of nested frames. -/
  limit : Nat
  /-- The number of bodies that are running. -/
  activeBodies : Nat
  /-- Whether the innermost running body is to stop. -/
  exitRequested : Bool
  /-- The lines that programs have not read yet. -/
  input : List String
  /-- What programs have written, the last piece first. -/
  written : List String
  /-- The source of random numbers. -/
  generator : StdGen
  /-- What has been dispatched, the last first, if it is recorded. -/
  journal : Option (List Event)

namespace Interpreter

/-- The limit on nested frames unless another one is set. -/
def defaultLimit : Nat := 10000

/-- An interpreter that knows no procedure and no variable. -/
def initial : Interpreter where
  procedures := .empty
  scopes := .initial
  limit := defaultLimit
  activeBodies := 0
  exitRequested := false
  input := []
  written := []
  generator := mkStdGen
  journal := none

instance : Inhabited Interpreter := ⟨initial⟩

/-- The number of frames above the global one. -/
def callDepth (s : Interpreter) : Nat :=
  s.scopes.callDepth

/-- What programs have written, in order. -/
def output (s : Interpreter) : List String :=
  s.written.reverse

/-- Stores a procedure. -/
def define (s : Interpreter) (p : Procedure) : Interpreter :=
  { s with procedures := s.procedures.define p }

/-- Assigns a variable. -/
def make (s : Interpreter) (name : String) (value : Node) : Interpreter :=
  { s with scopes := s.scopes.make name value }

/-- Shadows a variable in the innermost frame. -/
def declare (s : Interpreter) (name : String) : Interpreter :=
  { s with scopes := s.scopes.declare name }

/-- Asks the innermost running body to stop after the current statement; without one, nothing
happens. -/
def requestExit (s : Interpreter) : Interpreter :=
  if 0 < s.activeBodies then { s with exitRequested := true } else s

/-- Adds a piece of output. -/
def write (s : Interpreter) (text : String) : Interpreter :=
  { s with written := text :: s.written }

/-- The next line of input, empty once there is none, and the state behind it. -/
def readLine (s : Interpreter) : String × Interpreter :=
  match s.input with
  | [] => ("", s)
  | line :: rest => (line, { s with input := rest })

/-- A number below `n`, and the state behind it. -/
def randomBelow (s : Interpreter) (n : Nat) : Nat × Interpreter :=
  let (value, generator) := randNat s.generator 0 (n - 1)
  (value % n, { s with generator })

/-- Opens a frame for a call. -/
def pushFrame (s : Interpreter) (name : String) : Interpreter :=
  { s with scopes := s.scopes.push (.named name) }

/-- Closes the frame of a call. -/
def popFrame (s : Interpreter) : Interpreter :=
  { s with scopes := s.scopes.pop }

/-- The state in which a body starts. -/
def enterBody (s : Interpreter) : Interpreter :=
  { s with activeBodies := s.activeBodies + 1, exitRequested := false }

/-- The state behind a body, with the request of the body around it put back. -/
def leaveBody (s : Interpreter) (outerRequest : Bool) : Interpreter :=
  { s with activeBodies := s.activeBodies - 1, exitRequested := outerRequest }

/-- The record of a dispatch in this state. -/
def dispatchOf (s : Interpreter) (procedure : String) (inputs : Nat) : Dispatch where
  procedure := procedure
  inputs := inputs
  callDepth := s.callDepth
  activeBodies := s.activeBodies
  exitRequested := s.exitRequested

/-- Adds an event to the journal, if one is kept. -/
def record (s : Interpreter) (event : Event) : Interpreter :=
  match s.journal with
  | none => s
  | some events => { s with journal := some (event :: events) }

/-- The recorded events, the last first. -/
def events (s : Interpreter) : List Event :=
  s.journal.getD []

section Fields

variable (s : Interpreter) (event : Event)

/-- An assignment changes the state in its scopes only. -/
@[simp] theorem scopes_make (name : String) (value : Node) :
    (s.make name value).scopes = s.scopes.make name value := rfl

@[simp] theorem scopes_declare (name : String) :
    (s.declare name).scopes = s.scopes.declare name := rfl

@[simp] theorem scopes_popFrame : s.popFrame.scopes = s.scopes.pop := rfl

/-- Requesting an exit leaves the scopes alone. -/
@[simp] theorem scopes_requestExit : s.requestExit.scopes = s.scopes := by
  unfold requestExit
  split <;> rfl

/-- A request to exit ends no body by itself. -/
@[simp] theorem activeBodies_requestExit : s.requestExit.activeBodies = s.activeBodies := by
  unfold requestExit
  split <;> rfl

@[simp] theorem events_requestExit : s.requestExit.events = s.events := by
  unfold requestExit
  split <;> rfl

@[simp] theorem scopes_record : (s.record event).scopes = s.scopes := by
  unfold record
  split <;> rfl

@[simp] theorem limit_record : (s.record event).limit = s.limit := by
  unfold record
  split <;> rfl

@[simp] theorem activeBodies_record : (s.record event).activeBodies = s.activeBodies := by
  unfold record
  split <;> rfl

@[simp] theorem exitRequested_record : (s.record event).exitRequested = s.exitRequested := by
  unfold record
  split <;> rfl

/-- Recording adds nothing but the event. -/
theorem mem_events_record {s : Interpreter} {event e : Event} (h : e ∈ (s.record event).events) :
    e = event ∨ e ∈ s.events := by
  unfold record at h
  split at h
  · exact .inr h
  · next events hjournal =>
    have hevents : s.events = events := by simp [Interpreter.events, hjournal]
    rw [hevents]
    exact List.mem_cons.1 h

end Fields

end Interpreter

end Logo
