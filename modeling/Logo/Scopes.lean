import Logo.Dict
import Logo.Node

/-!
# Dynamic scopes

A procedure that runs has a frame of variables.  Frames lie one above the other in the order of the
calls, on a global frame that is always there.  A variable is looked up, and assigned, in the
innermost frame that has it; an assignment to a variable that no frame has makes a global one.

Variables are kept under keys, their names in lower case; the operations of `Scopes` take names, and
turn them into keys once.
-/

namespace Logo

/-- The variables of one call. -/
structure Frame where
  name : String
  bindings : Dict Node

namespace Frame

/-- A frame without variables. -/
def named (name : String) : Frame := ⟨name, .empty⟩

/-- The value of the variable with a key. -/
def get? (frame : Frame) (key : String) : Option Node :=
  frame.bindings.get? key

/-- Sets the variable with a key. -/
def set (frame : Frame) (key : String) (value : Node) : Frame :=
  { frame with bindings := frame.bindings.insert key value }

/-- Sets a variable by name. -/
def define (frame : Frame) (name : String) (value : Node) : Frame :=
  frame.set (Text.toLower name) value

/-- The value of a variable by name. -/
def resolve? (frame : Frame) (name : String) : Option Node :=
  frame.get? (Text.toLower name)

end Frame

/-- The frames of the running calls, the innermost first, above the global one. -/
structure Scopes where
  calls : List Frame
  global : Frame
  /-- The number of frames above the global one, kept so that it need not be counted. -/
  callDepth : Nat
  callDepth_eq : callDepth = calls.length

namespace Scopes

/-- The global frame alone. -/
def initial : Scopes := ⟨[], .named "global", 0, rfl⟩

instance : Inhabited Scopes := ⟨initial⟩

/-- All frames, the innermost first. -/
def frames (s : Scopes) : List Frame :=
  s.calls ++ [s.global]

/-- The innermost frame. -/
def top (s : Scopes) : Frame :=
  s.calls.head?.getD s.global

/-- Opens a frame. -/
def push (s : Scopes) (frame : Frame) : Scopes :=
  ⟨frame :: s.calls, s.global, s.callDepth + 1, by simp [s.callDepth_eq]⟩

/-- Closes the innermost frame; the global frame stays. -/
def pop (s : Scopes) : Scopes :=
  ⟨s.calls.tail, s.global, s.callDepth - 1, by simp [s.callDepth_eq]⟩

/-- The value with a key in the first frame that has one. -/
def find? (key : String) : List Frame → Option Node
  | [] => none
  | frame :: frames =>
    match frame.get? key with
    | some value => some value
    | none => find? key frames

/-- Sets the variable with a key in the first frame that has it. -/
def assign (key : String) (value : Node) : List Frame → List Frame
  | [] => []
  | frame :: frames =>
    match frame.get? key with
    | some _ => frame.set key value :: frames
    | none => frame :: assign key value frames

/-- An assignment keeps the number of frames. -/
@[simp] theorem length_assign (key : String) (value : Node) (frames : List Frame) :
    (assign key value frames).length = frames.length := by
  induction frames with
  | nil => rfl
  | cons frame frames ih =>
    rw [assign]
    split
    · rfl
    · rw [List.length_cons, List.length_cons, ih]

/-- The value of a variable in the innermost frame that has it. -/
def get? (s : Scopes) (name : String) : Option Node :=
  let key := Text.toLower name
  (find? key s.calls).or (s.global.get? key)

/-- The value of a variable, `none` where no frame has it. -/
def resolve (s : Scopes) (name : String) : Node :=
  (s.get? name).getD .none

/-- Whether some frame has a variable. -/
def defines (s : Scopes) (name : String) : Bool :=
  (s.get? name).isSome

/-- Assigns a variable where it is defined, otherwise in the global frame. -/
def make (s : Scopes) (name : String) (value : Node) : Scopes :=
  let key := Text.toLower name
  match find? key s.calls with
  | some _ =>
    ⟨assign key value s.calls, s.global, s.callDepth, by simp [s.callDepth_eq]⟩
  | none => { s with global := s.global.set key value }

/-- Shadows a variable in the innermost frame; it holds `none` until it is assigned. -/
def declare (s : Scopes) (name : String) : Scopes :=
  match h : s.calls with
  | [] => { s with global := s.global.define name .none }
  | frame :: frames =>
    ⟨frame.define name .none :: frames, s.global, s.callDepth, by simp [s.callDepth_eq, h]⟩

end Scopes

end Logo
