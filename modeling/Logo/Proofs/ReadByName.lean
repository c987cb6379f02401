import Logo.Proofs.BlockExit
import Logo.Proofs.CallerScope
import Logo.Proofs.NestingBound

/-!
# Reading a variable by its name

`thing "x` and `:x` read the same variable on different ways.  The reference looks it up at once.
The call assigns the word `x` to the parameter of `thing` first, in the scopes of the caller, and
looks the variable up from inside a frame of its own.

The frame is empty, so it hides nothing, and the assignment changes one variable: the one with the
name of the parameter, `name`.  So that variable is the only one that `thing` does not read as a
reference does, unless it already holds the word that names it.
-/

namespace Logo

namespace Scopes

theorem callDepth_make (s : Scopes) (name : String) (value : Node) :
    (s.make name value).callDepth = s.callDepth := by
  rw [make]
  split <;> rfl

/-- A new frame has no variable that could hide another. -/
theorem resolve_push_named (s : Scopes) (frame name : String) :
    (s.push (.named frame)).resolve name = s.resolve name := by
  have hempty : ∀ key, (Frame.named frame).get? key = none := fun _ => Dict.get?_empty
  rw [resolve, get?, push, find?, hempty]
  rfl

end Scopes

namespace Evaluate

open Logo.Action

section Thing

variable {n : Nat} {s : Interpreter} {arity : Nat} {parenthesized : Bool}

theorem lookup?_thing (hs : s.HasLibrary) :
    s.procedures.lookup? "thing" = some (Library.native "thing" ["name"] .thing) :=
  hs (Library.native "thing" ["name"] .thing) (by simp [Library.standard, Library.core])

/-- Before `thing` is applied, the word is assigned to its parameter. -/
theorem node_thing (hs : s.HasLibrary) (x : String) :
    node (Evaluate.apply (n + 1)) (.call "thing" arity [.quoted x] parenthesized) s =
      applyStep (Evaluate.apply n) "thing" [.quoted x] (s.make "name" (.quoted x)) := by
  rw [node, bind_of_value (lookup_of_some (lookup?_thing hs)), ← apply_succ]
  rfl

theorem callDepth_named (x : String) : (s.make "name" (.quoted x)).callDepth = s.callDepth :=
  Scopes.callDepth_make ..

theorem node_thing_of_room (hs : s.HasLibrary) (hroom : s.callDepth < s.limit) (x : String) :
    ∃ t, node (Evaluate.apply (n + 1)) (.call "thing" arity [.quoted x] parenthesized) s =
      .value (if Text.toLower x = "name" then .quoted x else s.scopes.resolve x) t := by
  have hroom' : (s.make "name" (.quoted x)).callDepth < (s.make "name" (.quoted x)).limit := by
    rwa [callDepth_named]
  have hstep : applyStep (Evaluate.apply n) "thing" [.quoted x] (s.make "name" (.quoted x)) = _ :=
    applyStep_native (lookup?_thing hs) ⟨0, rfl⟩ (Nat.le_refl 1) hroom'
  have hread : ∀ u, Library.perform (block (Evaluate.apply n)) .thing [.quoted x] u =
      .value (u.scopes.resolve x) u := fun _ => rfl
  rw [node_thing hs, hstep, hread, Interpreter.scopes_record]
  refine ⟨_, congrArg (Outcome.value · _) ?_⟩
  show ((s.scopes.make "name" (.quoted x)).push (.named "thing")).resolve x = _
  rw [Scopes.resolve_push_named, Scopes.resolve_make]
  rfl

theorem node_thing_of_full (hs : s.HasLibrary) (hfull : s.limit ≤ s.callDepth) (x : String) :
    ∃ t, node (Evaluate.apply (n + 1)) (.call "thing" arity [.quoted x] parenthesized) s =
      .failure (.stackExhausted s.limit) t := by
  refine ⟨_, (node_thing hs x).trans (applyStep_refused (lookup?_thing hs) rfl (Nat.le_refl 1) ?_)⟩
  rw [callDepth_named]
  exact hfull

/-- Within the limit on nesting, the call of `thing` with a word gives what the reference gives if
and only if the word is not the name of the parameter of `thing`, or the variable with that name
already holds the word.  At the limit the call fails. -/
theorem thing_reads_reference_iff (hs : s.HasLibrary) (n arity : Nat) (parenthesized : Bool)
    (x : String) :
    let call := node (Evaluate.apply (n + 1)) (.call "thing" arity [.quoted x] parenthesized) s
    let reference := node (Evaluate.apply (n + 1)) (.reference x) s
    (s.callDepth < s.limit → ∃ value read t, call = .value value t ∧ reference = .value read s ∧
      (value = read ↔ (Text.toLower x = "name" → read = .quoted x))) ∧
      (s.limit ≤ s.callDepth → ∃ t, call = .failure (.stackExhausted s.limit) t) := by
  refine ⟨fun hroom => ?_, fun hfull => node_thing_of_full hs hfull x⟩
  obtain ⟨t, hcall⟩ := node_thing_of_room hs hroom x
  refine ⟨_, s.scopes.resolve x, t, hcall, rfl, ?_⟩
  by_cases hname : Text.toLower x = "name"
  · rw [if_pos hname]
    exact ⟨fun h _ => h.symm, fun h => (h hname).symm⟩
  · rw [if_neg hname]
    exact iff_of_true rfl fun h => absurd h hname

/-- The variable `a` is read in any mixture of cases. -/
theorem thing_reads_reference_iff_variableA :
    twoVariables.HasLibrary ∧ twoVariables.callDepth < twoVariables.limit ∧
      ∃ t, node (Evaluate.apply 1) (.call "thing" 1 [.quoted "A"] false) twoVariables =
      .value (.integer 5) t := by
  have hroom : twoVariables.callDepth < twoVariables.limit := by decide
  obtain ⟨value, read, t, hcall, hreference, hsame⟩ :=
    (thing_reads_reference_iff hasLibrary_twoVariables 0 1 false "A").1 hroom
  have hvalue : value = read := hsame.2 fun h => absurd h (by decide)
  have hread : node (Evaluate.apply 1) (.reference "A") twoVariables =
    .value (.integer 5) twoVariables := rfl
  rw [hread] at hreference
  cases hreference
  exact ⟨hasLibrary_twoVariables, hroom, t, hvalue ▸ hcall⟩

end Thing

/-! ## The variable that `thing` does not read -/

/-- An interpreter with the library and the variable `name`. -/
def variableName (limit : Nat) : Interpreter :=
  { (Interpreter.standard []).make "name" (.integer 5) with limit }

theorem hasLibrary_variableName (limit : Nat) : (variableName limit).HasLibrary :=
  Interpreter.hasLibrary_standard []

/-- With 5 in the variable `name`, the call `thing "name` gives the word `name`.  Without room for a
frame it gives nothing at all, whatever the variable. -/
theorem thing_reads_its_parameter :
    (¬ ∀ (n : Nat) (s : Interpreter) (x : String), s.HasLibrary → s.callDepth < s.limit →
      ∃ value t, node (Evaluate.apply (n + 1)) (.call "thing" 1 [.quoted x] false) s =
      .value value t ∧
        node (Evaluate.apply (n + 1)) (.reference x) s = .value value s) ∧
    (¬ ∀ (n : Nat) (s : Interpreter) (x : String), s.HasLibrary → Text.toLower x ≠ "name" →
      ∃ value t, node (Evaluate.apply (n + 1)) (.call "thing" 1 [.quoted x] false) s =
      .value value t ∧
        node (Evaluate.apply (n + 1)) (.reference x) s = .value value s) := by
  constructor
  · intro hall
    have hroom : (variableName 10).callDepth < (variableName 10).limit := by decide
    obtain ⟨value, t, hcall, hreference⟩ :=
      hall 0 (variableName 10) "name" (hasLibrary_variableName 10) hroom
    obtain ⟨u, hthing⟩ := node_thing_of_room (hasLibrary_variableName 10) hroom "name"
    have hread : node (Evaluate.apply 1) (.reference "name") (variableName 10) =
      .value (.integer 5) (variableName 10) := rfl
    rw [hthing, if_pos (by decide)] at hcall
    rw [hread] at hreference
    cases hcall
    cases hreference
  · intro hall
    have hfull : (variableName 0).limit ≤ (variableName 0).callDepth := Nat.zero_le _
    obtain ⟨value, t, hcall, -⟩ :=
      hall 0 (variableName 0) "x" (hasLibrary_variableName 0) (by decide)
    obtain ⟨u, hthing⟩ := node_thing_of_full (hasLibrary_variableName 0) hfull "x"
    rw [hthing] at hcall
    cases hcall

end Evaluate

end Logo
