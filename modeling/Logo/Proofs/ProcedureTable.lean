import Logo.ProcedureTable

/-!
# Storing procedures

What a procedure table holds after several procedures have been stored in it, one after the other
(`defineAll`): under each key the last procedure with that key, and what was there before under
every other one.  As tables with the same entries are equal, a procedure that is overwritten later
might as well not have been stored (`define_defineAll_define`).
-/

namespace Logo

/-- The key under which a procedure is stored. -/
def Procedure.key (p : Procedure) : String :=
  Text.toLower p.name

namespace ProcedureTable

variable {table table' : ProcedureTable} {p q : Procedure} {ps qs : List Procedure}
  {key name : String}

/-- A table is determined by what it holds under each key. -/
theorem ext_get? (h : ∀ key, table.entries.get? key = table'.entries.get? key) :
    table = table' := by
  obtain ⟨entries⟩ := table
  obtain ⟨entries'⟩ := table'
  exact congrArg mk (Dict.ext_get? h)

theorem get?_define :
    (table.define p).entries.get? key = if key = p.key then some p else table.entries.get? key :=
  Dict.get?_insert

/-- Stores procedures one after the other. -/
def defineAll (table : ProcedureTable) (ps : List Procedure) : ProcedureTable :=
  ps.foldl define table

theorem defineAll_cons : table.defineAll (p :: ps) = (table.define p).defineAll ps := rfl

theorem defineAll_append : table.defineAll (ps ++ qs) = (table.defineAll ps).defineAll qs :=
  List.foldl_append

theorem get?_defineAll_of_forall_ne (h : ∀ p ∈ ps, key ≠ p.key) :
    (table.defineAll ps).entries.get? key = table.entries.get? key := by
  induction ps generalizing table with
  | nil => rfl
  | cons p ps ih =>
    rw [List.forall_mem_cons] at h
    rw [defineAll_cons, ih h.2, get?_define, if_neg h.1]

/-- Under each key stands the last procedure that was stored there. -/
theorem get?_defineAll_of_last (h : ∀ q ∈ qs, p.key ≠ q.key) :
    (table.defineAll (ps ++ p :: qs)).entries.get? p.key = some p := by
  rw [defineAll_append, defineAll_cons, get?_defineAll_of_forall_ne h, get?_define, if_pos rfl]

/-- What is found under a key is the last procedure that was stored under it. -/
theorem exists_last_defineAll (table : ProcedureTable) (h : ∃ p ∈ ps, key = p.key) :
    ∃ front p back, ps = front ++ p :: back ∧ key = p.key ∧ (∀ q ∈ back, key ≠ q.key) ∧
      (table.defineAll ps).entries.get? key = some p := by
  induction ps generalizing table with
  | nil =>
    obtain ⟨p, hp, -⟩ := h
    cases hp
  | cons r ps ih =>
    by_cases hlater : ∃ p ∈ ps, key = p.key
    · obtain ⟨front, p, back, rfl, hp⟩ := ih (table.define r) hlater
      exact ⟨r :: front, p, back, rfl, hp⟩
    · have hback : ∀ p ∈ ps, key ≠ p.key := fun p hp heq => hlater ⟨p, hp, heq⟩
      obtain ⟨p, hp, rfl⟩ := h
      rcases List.mem_cons.1 hp with rfl | hp
      · refine ⟨[], p, ps, rfl, rfl, hback, ?_⟩
        rw [defineAll_cons, get?_defineAll_of_forall_ne hback, get?_define, if_pos rfl]
      · exact absurd rfl (hback p hp)

/-- Storing procedures loses no key. -/
theorem isSome_get?_defineAll (h : (table.entries.get? key).isSome) :
    ((table.defineAll ps).entries.get? key).isSome := by
  by_cases hkey : ∃ p ∈ ps, key = p.key
  · obtain ⟨_, p, _, -, -, -, hget⟩ := exists_last_defineAll table hkey
    rw [hget]
    rfl
  · rwa [get?_defineAll_of_forall_ne fun p hp heq => hkey ⟨p, hp, heq⟩]

/-- Two tables that agree under a key agree there behind the same procedures. -/
theorem get?_defineAll_congr (h : table.entries.get? key = table'.entries.get? key) :
    (table.defineAll ps).entries.get? key = (table'.defineAll ps).entries.get? key := by
  induction ps generalizing table table' with
  | nil => exact h
  | cons p ps ih =>
    refine ih ?_
    rw [get?_define, get?_define, h]

/-- What is overwritten later need not be stored. -/
theorem define_defineAll_define (h : p.key = q.key) :
    ((table.define p).defineAll ps).define q = (table.defineAll ps).define q := by
  refine ext_get? fun key => ?_
  rw [get?_define, get?_define]
  split
  · rfl
  · next hne =>
    refine get?_defineAll_congr ?_
    rw [get?_define, if_neg (h ▸ hne)]

end ProcedureTable

end Logo
