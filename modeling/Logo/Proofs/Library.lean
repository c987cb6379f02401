import Logo.Interpreter

/-!
# The library of an interpreter

The procedures of the library have names that differ in more than case, so each of them is found
once all of them are loaded.  What is said of interpreters with the library asks for no more than
that: they may know other procedures and hold any variables.
-/

namespace Logo.Interpreter

/-- The interpreter knows the whole library under its own names. -/
def HasLibrary (s : Interpreter) : Prop :=
  ∀ p ∈ Library.standard, s.procedures.lookup? p.name = some p

/-- Loading procedures under other names keeps what a name stands for. -/
theorem lookup?_load_of_notMem {s : Interpreter} {procedures : List Procedure} {name : String}
    (h : Text.toLower name ∉ procedures.map fun p => Text.toLower p.name) :
    (s.load procedures).procedures.lookup? name = s.procedures.lookup? name := by
  induction procedures generalizing s with
  | nil => rfl
  | cons p procedures ih =>
    rw [List.map_cons, List.mem_cons, not_or] at h
    have hdefine : (s.define p).procedures.lookup? name = s.procedures.lookup? name :=
      ProcedureTable.lookup?_define.trans (if_neg h.1)
    exact (ih h.2).trans hdefine

/-- Procedures whose names differ in more than case are all found once they are loaded. -/
theorem lookup?_load {s : Interpreter} {procedures : List Procedure}
    (hdistinct : (procedures.map fun p => Text.toLower p.name).Nodup) {p : Procedure}
    (hp : p ∈ procedures) : (s.load procedures).procedures.lookup? p.name = some p := by
  induction procedures generalizing s with
  | nil => cases hp
  | cons first procedures ih =>
    rw [List.map_cons, List.nodup_cons] at hdistinct
    rcases List.mem_cons.1 hp with rfl | hp
    · have hdefine : (s.define p).procedures.lookup? p.name = some p :=
        ProcedureTable.lookup?_define.trans (if_pos rfl)
      exact (lookup?_load_of_notMem hdistinct.1).trans hdefine
    · exact ih hdistinct.2 hp

/-- No two procedures of the library share a key. -/
theorem nodup_library : (Library.standard.map fun p => Text.toLower p.name).Nodup := by
  decide +kernel

theorem procedures_standard (input : List String) :
    (standard input).procedures = (initial.load Library.standard).procedures := by
  rw [standard]

/-- The interpreter starts with every procedure of its library under its own name. -/
theorem hasLibrary_standard (input : List String) : (standard input).HasLibrary := by
  intro p hp
  rw [procedures_standard]
  exact lookup?_load nodup_library hp

end Logo.Interpreter
