import Logo.Proofs.Library
import Logo.Proofs.Parameters

/-!
# Inputs in the scopes of the caller

Where no input of a call is itself a call, evaluating an input changes nothing.  What lies between
two inputs is the assignment of the first to its parameter.  It goes to the scopes of the caller, so
a reference that comes later and has the name of that parameter reads the input in place of the
caller's variable: the parameter captures the reference.

`inputs_read_in_caller_iff` says that this is the only way in which a procedure can be given
something else than what its inputs stood for when the call began.  In `sub :b :a` it happens,
because `a` is the first parameter of `sub` (`difference_captured`).
-/

namespace Logo

/-- The value of a node that calls nothing. -/
def Node.valueIn (scopes : Scopes) : Node → Node
  | .reference name => scopes.resolve name
  | .procedure _ => .none
  | other => other

/-- What a node other than a reference stands for is the same everywhere. -/
theorem Node.valueIn_congr {scopes scopes' : Scopes} {input : Node}
    (h : ∀ name, input = .reference name → scopes.resolve name = scopes'.resolve name) :
    input.valueIn scopes = input.valueIn scopes' := by
  cases input with
  | reference name => exact h name rfl
  | _ => rfl

/-! ## Assignments one after the other -/

namespace Scopes

variable {s : Scopes} {name : String}

/-- Assigns values to names, as far as both go. -/
def makeEach (s : Scopes) : List String → List Node → Scopes
  | name :: names, value :: values => (s.make name value).makeEach names values
  | _, _ => s

/-- Names that differ in more than case leave a variable alone. -/
theorem resolve_makeEach_of_fresh {names : List String} {values : List Node}
    (h : ∀ other ∈ names, Text.toLower other ≠ Text.toLower name) :
    (s.makeEach names values).resolve name = s.resolve name := by
  fun_induction makeEach s names values with
  | case1 s other names value values ih =>
    have hne := h other List.mem_cons_self
    rw [ih fun x hx => h x (List.mem_cons_of_mem _ hx), resolve_make, if_neg hne.symm]
  | case2 => rfl

/-- Of several assignments to a variable the last one counts. -/
theorem resolve_makeEach_of_last {names : List String} {values : List Node} {k : Nat}
    {param : String} {value : Node} (hparam : names[k]? = some param)
    (hvalue : values[k]? = some value) (hname : Text.toLower param = Text.toLower name)
    (hlast : ∀ other ∈ names.drop (k + 1), Text.toLower other ≠ Text.toLower name) :
    (s.makeEach names values).resolve name = value := by
  induction names generalizing s values k with
  | nil => cases hparam
  | cons first names ih =>
    cases values with
    | nil => cases hvalue
    | cons head values =>
      rw [makeEach]
      cases k with
      | zero =>
        cases hparam
        cases hvalue
        have hfresh : ∀ other ∈ names, Text.toLower other ≠ Text.toLower name := hlast
        rw [resolve_makeEach_of_fresh hfresh, resolve_make, if_pos hname.symm]
      | succ k => exact ih hparam hvalue hlast

end Scopes

/-! ## Parameters that capture references -/

namespace Evaluate

open Logo.Action

variable {apply : String → List Node → Action Node} {s t : Interpreter}

/-- A reference to `name` at position `i` reads the input at position `k`: that is the last of the
inputs before it whose parameter has the name, in any mixture of cases. -/
structure Captures (params : List String) (name : String) (i k : Nat) : Prop where
  before : k < i
  named : ∃ param, params[k]? = some param ∧ Text.toLower param = Text.toLower name
  last : ∀ other ∈ (params.take i).drop (k + 1), Text.toLower other ≠ Text.toLower name

/-- A reference is captured, or no parameter before it has its name. -/
theorem exists_captures (params : List String) (name : String) (i : Nat) :
    (∃ k, Captures params name i k) ∨
      ∀ other ∈ params.take i, Text.toLower other ≠ Text.toLower name := by
  induction i with
  | zero =>
    refine .inr fun other hother => ?_
    cases hother
  | succ i ih =>
    by_cases hlt : i < params.length
    · rw [List.take_succ_eq_append_getElem hlt]
      by_cases hname : Text.toLower params[i] = Text.toLower name
      · -- The parameter right before the reference captures it.
        refine .inl ⟨i, Nat.lt_succ_self i, ?_, ?_⟩
        · exact ⟨_, List.getElem?_eq_getElem hlt, hname⟩
        · rw [List.drop_eq_nil_of_le (List.length_take_le _ _)]
          exact fun _ h => absurd h List.not_mem_nil
      · rcases ih with ⟨k, hk⟩ | hfresh
        · refine .inl ⟨k, Nat.lt_succ_of_lt hk.before, hk.named, ?_⟩
          rw [List.take_succ_eq_append_getElem hlt, List.drop_append_of_le_length]
          · intro other hother
            rcases List.mem_append.1 hother with hother | hother
            · exact hk.last other hother
            · rwa [List.mem_singleton.1 hother]
          · rw [List.length_take_of_le (Nat.le_of_lt hlt)]
            exact hk.before
        · refine .inr fun other hother => ?_
          rcases List.mem_append.1 hother with hother | hother
          · exact hfresh other hother
          · rwa [List.mem_singleton.1 hother]
    · -- There is no further parameter.
      have hsame : params.take (i + 1) = params.take i := by
        rw [List.take_of_length_le (by omega), List.take_of_length_le (by omega)]
      rw [hsame]
      rcases ih with ⟨k, hk⟩ | hfresh
      · exact .inl ⟨k, Nat.lt_succ_of_lt hk.before, hk.named, hsame ▸ hk.last⟩
      · exact .inr hfresh

theorem node_of_plain {input : Node} (h : input.type ≠ .call) (s : Interpreter) :
    node apply input s = .value (input.valueIn s.scopes) s := by
  cases input with
  | call => exact absurd rfl h
  | _ => rfl

/-- Each input has the value that it stands for once the inputs before it have been assigned. -/
theorem inputsFor_plain {params : List String} {inputs : List Node}
    (hplain : ∀ input ∈ inputs, input.type ≠ .call) (s : Interpreter) :
    ∃ values : List Node, values.length = inputs.length ∧
      inputsFor apply params inputs s =
        .value values { s with scopes := s.scopes.makeEach params values } ∧
      ∀ (i : Nat) (input : Node), inputs[i]? = some input →
        values[i]? = some (input.valueIn (s.scopes.makeEach (params.take i) (values.take i))) := by
  induction inputs generalizing params s with
  | nil =>
    refine ⟨[], rfl, ?_, nofun⟩
    cases params <;> rfl
  | cons input inputs ih =>
    have hinput : node apply input s = .value (input.valueIn s.scopes) s :=
      node_of_plain (hplain input List.mem_cons_self) s
    have hothers : ∀ input ∈ inputs, input.type ≠ .call :=
      fun input hmem => hplain input (List.mem_cons_of_mem _ hmem)
    rw [inputsFor, bind_of_value hinput]
    cases params with
    | nil =>
      obtain ⟨values, hlen, hrest, heach⟩ := @ih [] hothers s
      refine ⟨input.valueIn s.scopes :: values, congrArg (· + 1) hlen, ?_, ?_⟩
      · show (inputsFor apply [] inputs >>= fun values => pure _) s = _
        rw [bind_of_value hrest]
        rfl
      · intro i other hother
        cases i with
        | zero =>
          cases hother
          rfl
        | succ i => simpa [Scopes.makeEach] using heach i other hother
    | cons param params =>
      obtain ⟨values, hlen, hrest, heach⟩ :=
        @ih params hothers (s.make param (input.valueIn s.scopes))
      refine ⟨input.valueIn s.scopes :: values, congrArg (· + 1) hlen, ?_, ?_⟩
      · show (inputsFor apply params inputs >>= fun values => pure _)
          (s.make param (input.valueIn s.scopes)) = _
        rw [bind_of_value hrest]
        rfl
      · intro i other hother
        cases i with
        | zero =>
          cases hother
          rfl
        | succ i => exact heach i other hother

/-- The captured reference reads the input of the parameter that captures it. -/
theorem Captures.resolve_eq {params : List String} {name : String} {i k : Nat}
    (h : Captures params name i k) {values : List Node} {value : Node}
    (hvalue : values[k]? = some value) (scopes : Scopes) :
    (scopes.makeEach (params.take i) (values.take i)).resolve name = value := by
  obtain ⟨param, hparam, hname⟩ := h.named
  refine Scopes.resolve_makeEach_of_last ?_ ?_ hname h.last
  · rw [List.getElem?_take_of_lt h.before, hparam]
  · rw [List.getElem?_take_of_lt h.before, hvalue]

/-- A procedure is given what its inputs stood for at the start exactly when each captured reference
had the value of the input that captures it. -/
theorem values_eq_map_iff {params : List String} {inputs values : List Node} {scopes : Scopes}
    (hlen : values.length = inputs.length)
    (hvalues : ∀ (i : Nat) (input : Node), inputs[i]? = some input →
      values[i]? = some (input.valueIn (scopes.makeEach (params.take i) (values.take i)))) :
    values = inputs.map (·.valueIn scopes) ↔
      ∀ (i k : Nat) (name : String) (input : Node), inputs[i]? = some (.reference name) →
        Captures params name i k → inputs[k]? = some input →
        input.valueIn scopes = scopes.resolve name := by
  constructor
  · intro heq i k name input hi hcaptures hk
    have hvalue : values[k]? = some (input.valueIn scopes) := by
      rw [heq, List.getElem?_map, hk]
      rfl
    have hread := hvalues i _ hi
    rw [heq, List.getElem?_map, hi, ← heq] at hread
    rw [← hcaptures.resolve_eq hvalue scopes]
    exact (Option.some.inj hread).symm
  · -- The values are right one after the other: each depends on those before it.
    intro hread
    have heach : ∀ i : Nat, values[i]? = (inputs.map (·.valueIn scopes))[i]? := by
      intro i
      induction i using Nat.strongRecOn with
      | ind i ih =>
        rw [List.getElem?_map]
        cases hi : inputs[i]? with
        | none =>
          rw [Option.map_none, List.getElem?_eq_none_iff, hlen, ← List.getElem?_eq_none_iff, hi]
        | some input =>
          rw [hvalues i input hi, Option.map_some]
          refine congrArg some (Node.valueIn_congr ?_)
          rintro name rfl
          rcases exists_captures params name i with ⟨k, hcaptures⟩ | hfresh
          · obtain ⟨hlt, -⟩ := List.getElem?_eq_some_iff.1 hi
            have hk := List.getElem?_eq_getElem (Nat.lt_trans hcaptures.before hlt)
            have hvalue := ih k hcaptures.before
            rw [List.getElem?_map, hk] at hvalue
            rw [hcaptures.resolve_eq hvalue]
            exact hread i k name _ hi hcaptures hk
          · exact Scopes.resolve_makeEach_of_fresh hfresh
    exact List.ext_getElem? heach

/-- The second of two inputs can be captured by the first parameter alone. -/
theorem captures_second_iff {param : String} {others : List String} {name : String} {k : Nat} :
    Captures (param :: others) name 1 k ↔ k = 0 ∧ Text.toLower param = Text.toLower name := by
  constructor
  · rintro ⟨hk, ⟨other, hother, hname⟩, -⟩
    obtain rfl : k = 0 := Nat.lt_one_iff.1 hk
    cases hother
    exact ⟨rfl, hname⟩
  · rintro ⟨rfl, hname⟩
    exact ⟨Nat.one_pos, ⟨param, rfl, hname⟩, fun _ h => absurd h List.not_mem_nil⟩

/-- Of two references, the second one alone can be captured. -/
theorem map_valueIn_pair_iff {param x y : String} {others : List String} {scopes : Scopes} :
    (∀ (i k : Nat) (name : String) (input : Node),
        [Node.reference x, .reference y][i]? = some (.reference name) →
        Captures (param :: others) name i k → [Node.reference x, .reference y][k]? = some input →
        input.valueIn scopes = scopes.resolve name) ↔
      (Text.toLower y = Text.toLower param → scopes.resolve x = scopes.resolve y) := by
  constructor
  · intro h hname
    exact h 1 0 y (.reference x) rfl (captures_second_iff.2 ⟨rfl, hname.symm⟩) rfl
  · intro h i k name input hi hcaptures hk
    match i, hi with
    | 0, _ => exact absurd hcaptures.before (Nat.not_lt_zero k)
    | 1, hi =>
      cases hi
      obtain ⟨rfl, hname⟩ := captures_second_iff.1 hcaptures
      cases hk
      exact h hname.symm

/-- The inputs of a call that has no call among them are passed on with the values they had when the
call began exactly when every reference that an earlier parameter captures had the value of that
parameter's input.  Of two references, it is the second one that the first parameter may capture. -/
theorem inputs_read_in_caller_iff {name : String} {p : Procedure} {inputs : List Node}
    (hp : s.procedures.lookup? name = some p) (hplain : ∀ input ∈ inputs, input.type ≠ .call) :
    ∃ values t, inputsFor apply p.params inputs s = .value values t ∧
      (∀ arity parenthesized,
        node apply (.call name arity inputs parenthesized) s = apply name values t) ∧
      (values = inputs.map (·.valueIn s.scopes) ↔
        ∀ (i k : Nat) (x : String) (input : Node), inputs[i]? = some (.reference x) →
          Captures p.params x i k → inputs[k]? = some input →
          input.valueIn s.scopes = s.scopes.resolve x) ∧
      (∀ x y param others, p.params = param :: others → inputs = [.reference x, .reference y] →
        (values = [s.scopes.resolve x, s.scopes.resolve y] ↔
          (Text.toLower y = Text.toLower param → s.scopes.resolve x = s.scopes.resolve y))) := by
  obtain ⟨values, hlen, heval, heach⟩ := inputsFor_plain hplain s
  have hiff := values_eq_map_iff hlen heach
  refine ⟨values, _, heval, ?_, hiff, ?_⟩
  · intro arity parenthesized
    rw [node, bind_of_value (lookup_of_some hp), bind_of_value heval]
  · rintro x y param others hparams rfl
    rw [hparams, map_valueIn_pair_iff] at hiff
    exact hiff

end Evaluate

/-! ## Differences of variables -/

namespace Evaluate

/-- An interpreter with the library and the variables `a` and `b`. -/
def twoVariables : Interpreter :=
  ((Interpreter.standard []).make "a" (.integer 5)).make "b" (.integer 7)

theorem hasLibrary_twoVariables : twoVariables.HasLibrary :=
  Interpreter.hasLibrary_standard []

theorem lookup?_twoVariables_sub :
    twoVariables.procedures.lookup? "sub" = some (Library.native "sub" ["a", "b"] .sub) :=
  hasLibrary_twoVariables (Library.native "sub" ["a", "b"] .sub)
    (by simp [Library.standard, Library.core])

/-- In `sub :b :a` the first parameter takes the place of the variable `a` before the second input
is read: with 5 in `a` and 7 in `b`, the difference is taken of 7 and 7. -/
theorem difference_captured :
    ¬ ∀ (n : Nat) (s t : Interpreter) (name : String) (p : Procedure) (inputs values : List Node),
      s.HasLibrary → s.procedures.lookup? name = some p →
      (∀ input ∈ inputs, input.type ≠ .call) →
      inputsFor (Evaluate.apply n) p.params inputs s = .value values t →
      values = inputs.map (·.valueIn s.scopes) := by
  intro hall
  have hplain : ∀ input ∈ [Node.reference "b", .reference "a"], input.type ≠ .call := by decide
  obtain ⟨values, hlen, heval, heach⟩ := inputsFor_plain hplain twoVariables
  have hclaim := hall 3 twoVariables _ "sub" _ _ _ hasLibrary_twoVariables lookup?_twoVariables_sub
    hplain heval
  have hsame := map_valueIn_pair_iff.1 ((values_eq_map_iff hlen heach).1 hclaim) rfl
  injection hsame with hsame
  exact absurd hsame (by decide)

/-- In `sub :a :b` nothing is captured, and the difference is taken of 5 and 7. -/
theorem inputs_read_in_caller_twoVariables :
    twoVariables.procedures.lookup? "sub" = some (Library.native "sub" ["a", "b"] .sub) ∧
      (∀ input ∈ [Node.reference "a", .reference "b"], input.type ≠ .call) ∧
      ∃ t, ∀ arity parenthesized,
        node (Evaluate.apply 3) (.call "sub" arity [.reference "a", .reference "b"] parenthesized)
          twoVariables = Evaluate.apply 3 "sub" [.integer 5, .integer 7] t := by
  have hplain : ∀ input ∈ [Node.reference "a", .reference "b"], input.type ≠ .call := by decide
  obtain ⟨values, t, -, hcall, -, hpair⟩ :=
    inputs_read_in_caller_iff lookup?_twoVariables_sub hplain
  have hvalues := (hpair "a" "b" "a" ["b"] rfl rfl).2 fun h => absurd h (by decide)
  have hread : [twoVariables.scopes.resolve "a", twoVariables.scopes.resolve "b"] =
      [.integer 5, .integer 7] := rfl
  rw [hread] at hvalues
  subst hvalues
  exact ⟨lookup?_twoVariables_sub, hplain, t, hcall⟩

end Evaluate

end Logo
