import Logo.Proofs.Effect

/-!
# How evaluation is put together

All that the library and the evaluator do is put together, by sequences, from two sorts of actions:
steady ones, which have nothing to do with the nesting of calls and are never cut short, and
applications of procedures.  So a relation between actions that holds of steady ones and is kept by
sequences (`Action.Congruence`) holds between two evaluations as soon as it holds between the two
ways to apply procedures that they use.  A property of evaluation is then proved of one application,
and here once for all of everything above it.
-/

namespace Logo

/-! ## Plain actions -/

/-- The state under another limit and with another journal. -/
def Interpreter.under (s : Interpreter) (limit : Nat) (journal : Option (List Event)) :
    Interpreter :=
  { s with limit, journal }

namespace Action

variable {α β : Type}

/-- The action neither looks at the limit and the journal nor changes them, and does not exhaust the
stack. -/
structure Plain (x : Action α) : Prop where
  effective : x.Effective
  blind : ∀ s limit journal, x (s.under limit journal) = (x s).mapState (·.under limit journal)
  fits : ∀ s k t, x s ≠ .failure (.stackExhausted k) t

namespace Plain

@[simp] protected theorem pure (a : α) : (pure a : Action α).Plain :=
  ⟨.pure a, fun _ _ _ => rfl, nofun⟩

/-- A plain action may fail with any error but an exhausted stack. -/
theorem fail {e : EvalError} (he : ∀ k, e ≠ .stackExhausted k) : (fail e : Action α).Plain := by
  refine ⟨.fail e, fun _ _ _ => rfl, ?_⟩
  intro s k t h
  cases h
  exact he k rfl

@[simp] theorem interrupt (i : Interrupt) : (interrupt i : Action α).Plain :=
  ⟨.interrupt i, fun _ _ _ => rfl, nofun⟩

/-- A sequence of plain actions is plain. -/
protected theorem bind {x : Action α} {f : α → Action β} (hx : x.Plain) (hf : ∀ a, (f a).Plain) :
    (x >>= f).Plain := by
  refine ⟨hx.effective.bind fun a => (hf a).effective, ?_, ?_⟩
  · intro s limit journal
    have hblind := hx.blind s limit journal
    cases hs : x s with
    | value a t =>
      rw [hs] at hblind
      rw [bind_of_value hs, bind_of_value hblind]
      exact (hf a).blind t limit journal
    | failure e t =>
      rw [hs] at hblind
      rw [bind_of_failure hs, bind_of_failure hblind]
      rfl
    | interrupted i =>
      rw [hs] at hblind
      rw [bind_of_interrupted hs, bind_of_interrupted hblind]
      rfl
  · intro s k t h
    cases hs : x s with
    | value a u =>
      rw [bind_of_value hs] at h
      exact (hf a).fits u k t h
    | failure e u =>
      rw [bind_of_failure hs] at h
      cases h
      exact hx.fits s k t hs
    | interrupted i =>
      rw [bind_of_interrupted hs] at h
      cases h

/-- Looking at a part of the state other than the limit and the journal is plain. -/
theorem view {f : Interpreter → α} (hf : ∀ s limit journal, f (s.under limit journal) = f s) :
    (view f).Plain := by
  refine ⟨.view f, ?_, nofun⟩
  intro s limit journal
  show Outcome.value (f (s.under limit journal)) (s.under limit journal) = _
  rw [hf]
  rfl

/-- A change of the state that gives a value is plain under the same conditions as one that gives
none. -/
theorem update {f : Interpreter → α × Interpreter} (heffect : ∀ s, Effect s (f s).2)
    (hf : ∀ s limit journal,
      f (s.under limit journal) = ((f s).1, (f s).2.under limit journal)) :
    (update f).Plain := by
  refine ⟨.update heffect, ?_, nofun⟩
  intro s limit journal
  show Outcome.value (f (s.under limit journal)).1 (f (s.under limit journal)).2 = _
  rw [hf]
  rfl

/-- A change of the state is plain if it is an effect and commutes with a change of limit and
journal. -/
theorem modify {f : Interpreter → Interpreter} (heffect : ∀ s, Effect s (f s))
    (hf : ∀ s limit journal, f (s.under limit journal) = (f s).under limit journal) :
    (modify f).Plain := by
  refine ⟨.modify heffect, ?_, nofun⟩
  intro s limit journal
  exact congrArg (Outcome.value ()) (hf s limit journal)

/-- Looking up a procedure is plain, as the table is neither the limit nor the journal. -/
theorem lookup (name : String) : (lookup name).Plain := by
  refine ⟨.lookup name, ?_, ?_⟩
  · intro s limit journal
    cases hp : s.procedures.lookup? name with
    | none =>
      rw [lookup_of_none hp]
      exact lookup_of_none hp
    | some p =>
      rw [lookup_of_some hp]
      exact lookup_of_some hp
  · intro s k t h
    unfold Action.lookup at h
    split at h <;> cases h

/-- Making an alias is plain, whether its original is known or not. -/
theorem addAlias (name newName : String) : (addAlias name newName).Plain := by
  refine ⟨.addAlias name newName, ?_, ?_⟩
  · intro s limit journal
    have hadd : (s.under limit journal).procedures.addAlias? name newName =
      s.procedures.addAlias? name newName := rfl
    unfold Action.addAlias
    rw [hadd]
    split <;> rfl
  · intro s k t h
    unfold Action.addAlias at h
    split at h <;> cases h

end Plain

/-- A plain action that is never cut short: it ends with a value or with a failure. -/
structure Steady (x : Action α) : Prop extends Plain x where
  ends : ∀ s i, x s ≠ .interrupted i

namespace Steady

@[simp] protected theorem pure (a : α) : (pure a : Action α).Steady :=
  ⟨.pure a, nofun⟩

theorem fail {e : EvalError} (he : ∀ k, e ≠ .stackExhausted k) : (fail e : Action α).Steady :=
  ⟨.fail he, nofun⟩

/-- A sequence of steady actions is steady. -/
protected theorem bind {x : Action α} {f : α → Action β} (hx : x.Steady) (hf : ∀ a, (f a).Steady) :
    (x >>= f).Steady := by
  refine ⟨.bind hx.toPlain fun a => (hf a).toPlain, ?_⟩
  intro s i h
  cases hs : x s with
  | value a t =>
    rw [bind_of_value hs] at h
    exact (hf a).ends t i h
  | failure e t =>
    rw [bind_of_failure hs] at h
    cases h
  | interrupted j => exact hx.ends s j hs

theorem view {f : Interpreter → α} (hf : ∀ s limit journal, f (s.under limit journal) = f s) :
    (view f).Steady :=
  ⟨.view hf, nofun⟩

theorem update {f : Interpreter → α × Interpreter} (heffect : ∀ s, Effect s (f s).2)
    (hf : ∀ s limit journal,
      f (s.under limit journal) = ((f s).1, (f s).2.under limit journal)) :
    (update f).Steady :=
  ⟨.update heffect hf, nofun⟩

theorem modify {f : Interpreter → Interpreter} (heffect : ∀ s, Effect s (f s))
    (hf : ∀ s limit journal, f (s.under limit journal) = (f s).under limit journal) :
    (modify f).Steady :=
  ⟨.modify heffect hf, nofun⟩

theorem lookup (name : String) : (lookup name).Steady := by
  refine ⟨.lookup name, ?_⟩
  intro s i h
  unfold Action.lookup at h
  split at h <;> cases h

theorem addAlias (name newName : String) : (addAlias name newName).Steady := by
  refine ⟨.addAlias name newName, ?_⟩
  intro s i h
  unfold Action.addAlias at h
  split at h <;> cases h

end Steady

/-! ### Relations that sequences keep -/

/-- The relation holds between a steady action and itself, and sequences keep it.  What is put
together from steady actions and from actions that are related is then related. -/
structure Congruence (R : {α : Type} → Action α → Action α → Prop) : Prop where
  steady {α : Type} {x : Action α} (hx : x.Steady) : R x x
  bind {α β : Type} {x y : Action α} {f g : α → Action β} (hx : R x y) (hf : ∀ a, R (f a) (g a)) :
    R (x >>= f) (y >>= g)

namespace Congruence

/-- Being effective is such a relation, though one of a single action. -/
theorem effective : Congruence fun x _ => x.Effective where
  steady hx := hx.effective
  bind hx hf := hx.bind hf

variable {R : {α : Type} → Action α → Action α → Prop} (hR : Congruence R)

include hR

protected theorem pure (a : α) : R (pure a) (pure a) :=
  hR.steady (.pure a)

omit hR in
/-- A condition that does not depend on the state may come before related actions. -/
protected theorem ite {p : Prop} [Decidable p] {x y x' y' : Action α} (hx : R x x') (hy : R y y') :
    R (if p then x else y) (if p then x' else y') := by
  split
  · exact hx
  · exact hy

/-- Whether an exit is requested may be looked at before any action. -/
theorem unlessExit {x y : Bool → Action β} (h : ∀ requested, R (x requested) (y requested)) :
    R (view (·.exitRequested) >>= x) (view (·.exitRequested) >>= y) :=
  hR.bind (hR.steady (.view fun _ _ _ => rfl)) h

end Congruence

end Action

/-! ## The library -/

namespace Library

open Logo.Action

/-- The computation does not fail as if the stack were exhausted. -/
def Fits {α : Type} (r : Except EvalError α) : Prop :=
  ∀ k, r ≠ .error (.stackExhausted k)

section Fits

variable {α β : Type}

@[simp] theorem fits_ok (a : α) : Fits (.ok a) := nofun

@[simp] theorem fits_pure (a : α) : Fits (pure a) := nofun

@[simp] theorem fits_mismatch (node : Node) (expected : List NodeType) :
    Fits (.error (.mismatch node expected) : Except EvalError α) := nofun

@[simp] theorem fits_throw_mismatch (node : Node) (expected : List NodeType) :
    Fits (throw (.mismatch node expected) : Except EvalError α) := nofun

@[simp] theorem fits_divisionByZero : Fits (throw .divisionByZero : Except EvalError α) := nofun

/-- A sequence of computations fits if each one fits with the values it can be given. -/
@[simp] theorem fits_bind_iff {r : Except EvalError α} {f : α → Except EvalError β} :
    Fits (r >>= f) ↔ Fits r ∧ ∀ a, r = .ok a → Fits (f a) := by
  cases r with
  | ok a => simp [bind, Except.bind]
  | error e => simp [bind, Except.bind, Fits]

@[simp] theorem fits_map_iff {r : Except EvalError α} {f : α → β} :
    Fits (f <$> r) ↔ Fits r := by
  cases r with
  | ok a => exact ⟨nofun, nofun⟩
  | error e => simp [Functor.map, Except.map, Fits]

/-- Computations for the items of a list, one after the other, fit if each does. -/
theorem fits_mapM {f : α → Except EvalError β} (hf : ∀ a, Fits (f a)) (as : List α) :
    Fits (as.mapM f) := by
  induction as with
  | nil => exact fits_pure _
  | cons a as ih => simp [List.mapM_cons, hf, ih]

/-- Reading a number from a node fails with a mismatch at most. -/
@[simp] theorem toNumber_fits (node : Node) : Fits (toNumber node) := by
  unfold toNumber
  split <;> simp

@[simp] theorem foldNumbers_fits (f : Number → Number → Number) (total : Number)
    (nodes : List Node) : Fits (foldNumbers f total nodes) := by
  induction nodes generalizing total with
  | nil => exact fits_ok _
  | cons node nodes ih => simp [foldNumbers, ih]

@[simp] theorem divided_fits (f : Number → Number → Option Number) (a b : Node) :
    Fits (divided f a b) := by
  unfold divided
  simp only [fits_bind_iff, toNumber_fits, true_and]
  intro x _ y _
  split <;> simp

@[simp] theorem toBool_fits (node : Node) : Fits (toBool node) := by
  unfold toBool
  split <;> simp

@[simp] theorem wordText_fits (node : Node) : Fits (wordText node) := by
  unfold wordText
  split <;> simp

@[simp] theorem toItems_fits (node : Node) : Fits (toItems node) := by
  unfold toItems
  split <;> simp

@[simp] theorem toName_fits (node : Node) : Fits (toName node) := by
  unfold toName
  split <;> simp

@[simp] theorem sequence_fits (node : Node) : Fits (Sequence.ofNode node) := by
  unfold Sequence.ofNode
  split <;> simp

@[simp] theorem randomLimit_fits (node : Node) : Fits (randomLimit node) := by
  unfold randomLimit
  simp only [fits_bind_iff, toNumber_fits, true_and]
  intro x _
  split
  · split <;> simp
  · simp

@[simp] theorem item_fits (index thing : Node) : Fits (item index thing) := by
  unfold item
  simp only [fits_bind_iff, toNumber_fits, true_and]
  intro x _
  split
  · split <;> simp
  · simp

@[simp] theorem isEmpty_fits (node : Node) : Fits (isEmpty node) := by
  unfold isEmpty
  split <;> simp

@[simp] theorem templateInputs_fits (template values : Node) :
    Fits (templateInputs template values) := by
  unfold templateInputs
  simp only [fits_bind_iff, toItems_fits, true_and]
  intro _ _
  split <;> simp

end Fits

/-- A computation without a state is steady as an action if it fits. -/
theorem ofExcept_steady {α : Type} {r : Except EvalError α} (hr : Fits r) :
    (ofExcept r).Steady := by
  cases r with
  | ok a => exact .pure a
  | error e => exact .fail fun k h => hr k (congrArg _ h)

/-- A request to exit is steady: it looks at the active bodies alone. -/
theorem requestExit_steady : (Action.modify Interpreter.requestExit).Steady := by
  refine .modify .requestExit ?_
  intro s limit journal
  unfold Interpreter.requestExit
  show (if 0 < s.activeBodies then _ else _) = _
  split <;> rfl

/-- Reading a line is steady: it takes from the input what is there. -/
theorem readLine_steady : (Action.update Interpreter.readLine).Steady := by
  refine .update ?_ ?_
  · intro s
    unfold Interpreter.readLine
    split
    · exact .refl s
    · exact .console s _ _ _
  · intro s limit journal
    have hinput : (s.under limit journal).input = s.input := rfl
    unfold Interpreter.readLine
    rw [hinput]
    split <;> rfl

/-- The primitive that makes an alias reads two names, and is steady with either result. -/
theorem addAlias_steady (name newName : Node) : (addAlias name newName).Steady :=
  .bind (ofExcept_steady (toName_fits _)) fun _ => .bind (ofExcept_steady (toName_fits _)) fun _ =>
    .bind (.addAlias _ _) fun _ => .pure _

theorem thing_steady (name : Node) : (thing name).Steady :=
  .bind (ofExcept_steady (toName_fits _)) fun _ => .view fun _ _ _ => rfl

theorem make_steady (name value : Node) : (make name value).Steady :=
  .bind (ofExcept_steady (toName_fits _)) fun _ =>
    .bind (.modify (fun s => .make s _ _) fun _ _ _ => rfl) fun _ => .pure _

theorem declare_steady (name : Node) : (declare name).Steady :=
  .bind (ofExcept_steady (toName_fits _)) fun _ =>
    .bind (.modify (fun s => .declare s _) fun _ _ _ => rfl) fun _ => .pure _

theorem declareMake_steady (name value : Node) : (declareMake name value).Steady :=
  .bind (ofExcept_steady (toName_fits _)) fun _ =>
    .bind (.modify (fun s => .trans (.declare s _) (.make _ _ _)) fun _ _ _ => rfl) fun _ => .pure _

theorem output_steady (value : Node) : (output value).Steady :=
  .bind requestExit_steady fun _ => .pure _

theorem random_steady (limit : Node) : (random limit).Steady :=
  .bind (ofExcept_steady (randomLimit_fits _)) fun _ =>
    .bind (.update (fun s => .console s _ _ _) fun _ _ _ => rfl) fun _ => .pure _

theorem write_steady (text : String) : (write text).Steady :=
  .bind (.modify (fun s => .console s _ _ _) fun _ _ _ => rfl) fun _ => .pure _

theorem readWord_steady : readWord.Steady :=
  .bind readLine_steady fun _ => .pure _

theorem readList_steady : readList.Steady := by
  refine .bind readLine_steady fun line => ?_
  split
  · exact .pure _
  · exact .fail nofun

/-- Probes report on the state and are steady, also the one that fails and the one that requests an
exit. -/
theorem probe_steady (inputs : List Node) (what : Probe) : (probe inputs what).Steady := by
  cases what with
  | scope => exact .view fun _ _ _ => rfl
  | inputs => exact .pure _
  | fail => exact .fail nofun
  | exit => exact .bind requestExit_steady fun _ => .view fun _ _ _ => rfl

/-- The number of inputs that a primitive looks at, each by its place. -/
def needs : Primitive → Nat
  | .choose => 3
  | .addAlias | .make | .declareMake | .repetition | .when | .sub | .div | .mod
  | .equal | .notEqual | .less | .greater | .lessEqual | .greaterEqual
  | .item | .fput | .lput | .map | .filter | .find => 2
  | .thing | .declare | .run | .output | .add | .mul | .random | .minus | .abs | .not
  | .first | .last | .butFirst | .butLast | .count | .isEmpty | .uppercase | .lowercase => 1
  | .stop | .and | .or | .list | .sentence | .word | .print | .display | .type
  | .readWord | .readList | .probe _ => 0

/-- Whether a primitive runs blocks. -/
def runsBlocks : Primitive → Bool
  | .repetition | .run | .when | .choose | .map | .filter | .find => true
  | _ => false

section Inputs

variable {runBlock runBlock' : Node → Action Node} {primitive : Primitive} {inputs : List Node}

theorem exists_one (h : 1 ≤ inputs.length) : ∃ a rest, inputs = a :: rest :=
  List.exists_cons_of_ne_nil (List.ne_nil_of_length_pos h)

theorem exists_two (h : 2 ≤ inputs.length) : ∃ a b rest, inputs = a :: b :: rest := by
  obtain ⟨a, rest, rfl⟩ := exists_one (Nat.le_of_succ_le h)
  obtain ⟨b, rest, rfl⟩ := exists_one (Nat.le_of_succ_le_succ h)
  exact ⟨a, b, rest, rfl⟩

theorem exists_three (h : 3 ≤ inputs.length) : ∃ a b c rest, inputs = a :: b :: c :: rest := by
  obtain ⟨a, b, rest, rfl⟩ := exists_two (Nat.le_of_succ_le h)
  obtain ⟨c, rest, rfl⟩ := exists_one (Nat.le_of_succ_le_succ (Nat.le_of_succ_le_succ h))
  exact ⟨a, b, c, rest, rfl⟩

/-- No primitive looks at more than three inputs by their place. -/
theorem needs_le_three (primitive : Primitive) : needs primitive ≤ 3 := by
  cases primitive <;> simp [needs]

/-- A primitive that is given too few inputs is cut short, whatever it would do with them. -/
theorem perform_of_short (h : inputs.length < needs primitive) :
    perform runBlock primitive inputs = interrupt (.missingInput primitive) := by
  match inputs with
  | [] | [_] | [_, _] => cases primitive <;> first | rfl | simp [needs] at h
  | _ :: _ :: _ :: _ =>
    have hle := needs_le_three primitive
    simp only [List.length_cons] at h
    omega

/-- How blocks are run is of no concern to a primitive that runs none. -/
theorem perform_of_runsBlocks_eq_false (h : runsBlocks primitive = false) :
    perform runBlock primitive inputs = perform runBlock' primitive inputs := by
  match inputs with
  | [] | [_] | _ :: _ :: _ => cases primitive <;> first | rfl | cases h

/-- A primitive that has its inputs and runs no block is steady. -/
theorem perform_steady (hinputs : needs primitive ≤ inputs.length)
    (hblocks : runsBlocks primitive = false) : (perform runBlock primitive inputs).Steady := by
  cases primitive with
  | repetition | run | when | choose | map | filter | find => cases hblocks
  -- The procedure table, the variables and the request to exit.
  | addAlias =>
    obtain ⟨name, newName, _, rfl⟩ := exists_two hinputs
    exact addAlias_steady name newName
  | thing =>
    obtain ⟨name, _, rfl⟩ := exists_one hinputs
    exact thing_steady name
  | make =>
    obtain ⟨name, value, _, rfl⟩ := exists_two hinputs
    exact make_steady name value
  | declare =>
    obtain ⟨name, _, rfl⟩ := exists_one hinputs
    exact declare_steady name
  | declareMake =>
    obtain ⟨name, value, _, rfl⟩ := exists_two hinputs
    exact declareMake_steady name value
  | output =>
    obtain ⟨value, _, rfl⟩ := exists_one hinputs
    exact output_steady value
  | stop => exact output_steady .nil
  -- Numbers.
  | add | mul =>
    obtain ⟨a, others, rfl⟩ := exists_one hinputs
    exact ofExcept_steady (by simp [add, mul])
  | sub | div | mod =>
    obtain ⟨a, b, _, rfl⟩ := exists_two hinputs
    exact ofExcept_steady (by simp [sub, div, mod])
  | minus | abs =>
    obtain ⟨a, _, rfl⟩ := exists_one hinputs
    exact ofExcept_steady (by simp [minus, abs])
  | random =>
    obtain ⟨limit, _, rfl⟩ := exists_one hinputs
    exact random_steady limit
  | less | greater | lessEqual | greaterEqual =>
    obtain ⟨a, b, _, rfl⟩ := exists_two hinputs
    exact ofExcept_steady (by simp [less, greater, lessEqual, greaterEqual, compare])
  -- Equality and truth values.
  | equal | notEqual =>
    obtain ⟨a, b, _, rfl⟩ := exists_two hinputs
    exact .pure _
  | and | or => exact ofExcept_steady (by simp [and, or, fits_mapM toBool_fits])
  | not =>
    obtain ⟨a, _, rfl⟩ := exists_one hinputs
    exact ofExcept_steady (by simp [not])
  -- Words and lists.
  | list | sentence => exact .pure _
  | word => exact ofExcept_steady (by simp [word, fits_mapM wordText_fits])
  | first | last | butFirst | butLast | count | isEmpty | uppercase | lowercase =>
    obtain ⟨a, _, rfl⟩ := exists_one hinputs
    exact ofExcept_steady
      (by simp [first, last, butFirst, butLast, count, uppercase, lowercase])
  | item =>
    obtain ⟨index, a, _, rfl⟩ := exists_two hinputs
    exact ofExcept_steady (item_fits index a)
  | fput | lput =>
    obtain ⟨a, list, _, rfl⟩ := exists_two hinputs
    exact ofExcept_steady (by simp [fput, lput])
  -- The console and the probes.
  | print | display | type => exact write_steady _
  | readWord => exact readWord_steady
  | readList => exact readList_steady
  | probe what => exact probe_steady inputs what

end Inputs

section Blocks

variable {R : {α : Type} → Action α → Action α → Prop} (hR : Congruence R)
  {runBlock runBlock' : Node → Action Node} (hrun : ∀ block, R (runBlock block) (runBlock' block))

include hR hrun

/-- A control input is related to itself, whether it is a block or a value. -/
theorem valueOf_congr (node : Node) : R (valueOf runBlock node) (valueOf runBlock' node) := by
  unfold valueOf
  split
  · exact hrun _
  · exact hR.pure _

theorem controlInteger_congr (control : Node) :
    R (controlInteger runBlock control) (controlInteger runBlock' control) := by
  refine hR.bind (valueOf_congr hR hrun _) fun value => ?_
  split
  · exact hR.pure _
  · exact hR.steady (.fail nofun)

/-- The count of a repetition is related to itself. -/
theorem repetitionCount_congr (control : Node) :
    R (repetitionCount runBlock control) (repetitionCount runBlock' control) :=
  hR.bind (controlInteger_congr hR hrun _) fun _ => hR.pure _

/-- A repetition is related to itself, by induction on the runs that are left. -/
theorem repeatBlock_congr (block : Node) (n : Nat) (result : Node) :
    R (repeatBlock runBlock block n result) (repeatBlock runBlock' block n result) := by
  induction n generalizing result with
  | zero => exact hR.pure _
  | succ n ih =>
    refine hR.bind (hrun block) fun value => hR.unlessExit fun requested => ?_
    exact Congruence.ite (hR.pure _) (ih value)

theorem repetition_congr (control block : Node) :
    R (repetition runBlock control block) (repetition runBlock' control block) :=
  hR.bind (repetitionCount_congr hR hrun _) fun _ =>
    hR.bind (hR.steady (ofExcept_steady (toItems_fits _))) fun _ => repeatBlock_congr hR hrun _ _ _

/-- The condition of a conditional is related to itself, whether it is a block or a truth value. -/
theorem condition_congr (node : Node) : R (condition runBlock node) (condition runBlock' node) :=
  hR.bind (valueOf_congr hR hrun _) fun _ => hR.steady (ofExcept_steady (toBool_fits _))

theorem when_congr (test block : Node) :
    R (when runBlock test block) (when runBlock' test block) :=
  hR.bind (condition_congr hR hrun _) fun _ => Congruence.ite (hrun _) (hR.pure _)

theorem choose_congr (test block otherwise : Node) :
    R (choose runBlock test block otherwise) (choose runBlock' test block otherwise) :=
  hR.bind (condition_congr hR hrun _) fun _ => Congruence.ite (hrun _) (hrun _)

/-- The verdict of a template on one value is related to itself. -/
theorem holds_congr (template value : Node) :
    R (holds runBlock template value) (holds runBlock' template value) :=
  hR.bind (hrun _) fun _ => hR.steady (ofExcept_steady (toBool_fits _))

/-- The results of a template are related, by induction on the values that are left. -/
theorem resultTexts_congr (template : Node) (values : List Node) :
    R (resultTexts runBlock template values) (resultTexts runBlock' template values) := by
  induction values with
  | nil => exact hR.pure _
  | cons value values ih => exact hR.bind (hrun _) fun _ => hR.bind ih fun _ => hR.pure _

theorem selected_congr (template : Node) (values : List Node) :
    R (selected runBlock template values) (selected runBlock' template values) := by
  induction values with
  | nil => exact hR.pure _
  | cons value values ih =>
    exact hR.bind (holds_congr hR hrun _ _) fun _ => hR.bind ih fun _ => hR.pure _

/-- The search for the first value that a template selects goes on the same way. -/
theorem firstSelected_congr (template : Node) (values : List Node) :
    R (firstSelected runBlock template values) (firstSelected runBlock' template values) := by
  induction values with
  | nil => exact hR.pure _
  | cons value values ih =>
    exact hR.bind (holds_congr hR hrun _ _) fun _ => Congruence.ite (hR.pure _) ih

/-- `map` is related to itself if runs of its template are. -/
theorem map_congr (template values : Node) :
    R (map runBlock template values) (map runBlock' template values) := by
  refine hR.bind (hR.steady (ofExcept_steady (templateInputs_fits _ _))) fun sequence =>
    hR.bind (resultTexts_congr hR hrun _ _) fun _ => ?_
  cases sequence <;> exact hR.pure _

theorem filter_congr (template values : Node) :
    R (filter runBlock template values) (filter runBlock' template values) := by
  refine hR.bind (hR.steady (ofExcept_steady (templateInputs_fits _ _))) fun sequence =>
    hR.bind (selected_congr hR hrun _ _) fun _ => ?_
  cases sequence <;> exact hR.pure _

/-- `find` is related to itself if runs of its template are. -/
theorem find_congr (template values : Node) :
    R (find runBlock template values) (find runBlock' template values) :=
  hR.bind (hR.steady (ofExcept_steady (templateInputs_fits _ _))) fun _ =>
    hR.bind (firstSelected_congr hR hrun _ _) fun _ => hR.pure _

/-- Every primitive is related to itself if running a block is, and being cut short where an input
is missing. -/
theorem perform_congr (primitive : Primitive) (inputs : List Node)
    (hmissing : inputs.length < needs primitive →
      R (interrupt (.missingInput primitive) : Action Node) (interrupt (.missingInput primitive))) :
    R (perform runBlock primitive inputs) (perform runBlock' primitive inputs) := by
  by_cases hshort : inputs.length < needs primitive
  · rw [perform_of_short hshort, perform_of_short hshort]
    exact hmissing hshort
  · have hinputs := Nat.le_of_not_lt hshort
    cases hblocks : runsBlocks primitive with
    | false =>
      have hsame : perform runBlock primitive inputs = perform runBlock' primitive inputs :=
        perform_of_runsBlocks_eq_false hblocks
      rw [hsame]
      exact hR.steady (perform_steady hinputs hblocks)
    | true =>
      cases primitive with
      | repetition =>
        obtain ⟨control, block, _, rfl⟩ := exists_two hinputs
        exact repetition_congr hR hrun control block
      | run =>
        obtain ⟨block, _, rfl⟩ := exists_one hinputs
        exact hrun block
      | when =>
        obtain ⟨test, block, _, rfl⟩ := exists_two hinputs
        exact when_congr hR hrun test block
      | choose =>
        obtain ⟨test, block, otherwise, _, rfl⟩ := exists_three hinputs
        exact choose_congr hR hrun test block otherwise
      | map =>
        obtain ⟨template, values, _, rfl⟩ := exists_two hinputs
        exact map_congr hR hrun template values
      | filter =>
        obtain ⟨template, values, _, rfl⟩ := exists_two hinputs
        exact filter_congr hR hrun template values
      | find =>
        obtain ⟨template, values, _, rfl⟩ := exists_two hinputs
        exact find_congr hR hrun template values
      | _ => cases hblocks

end Blocks

end Library

/-! ## Evaluation -/

namespace Evaluate

open Logo.Action

/-- Assigning an input to its parameter is steady. -/
theorem bindParam_steady (param : Option String) (value : Node) :
    (bindParam param value).Steady := by
  cases param with
  | none => exact .pure _
  | some name => exact .modify (fun s => .make s name value) fun _ _ _ => rfl

/-- Reading a program is steady: what it does to the table is an effect, and its errors are parse
errors. -/
theorem read_steady (keep : Bool) (text : String) : (read keep text).Steady := by
  refine ⟨⟨?_, ?_, ?_⟩, ?_⟩
  · intro s t h
    have hread := Effect.read s keep text
    unfold Leaves read at h
    generalize Reader.readText keep s.procedures text = result at h hread
    obtain ⟨nodes | e, procedures⟩ := result <;> cases h <;> exact hread
  · intro s limit journal
    have hprocedures : (s.under limit journal).procedures = s.procedures := rfl
    unfold read
    rw [hprocedures]
    split <;> rfl
  · intro s k t h
    unfold read at h
    split at h <;> cases h
  · intro s i h
    unfold read at h
    split at h <;> cases h

section Step

variable {R : {α : Type} → Action α → Action α → Prop}
  {apply apply' : String → List Node → Action Node}

mutual

/-- The evaluation of a node is related to itself if applications are. -/
theorem node_congr (hR : Congruence R)
    (happly : ∀ name inputs, R (apply name inputs) (apply' name inputs)) :
    ∀ n : Node, R (node apply n) (node apply' n)
  | .reference _ => hR.steady (.view fun _ _ _ => rfl)
  | .call name _ inputs _ => by
    rw [node, node]
    exact hR.bind (hR.steady (.lookup name)) fun p =>
      hR.bind (inputsFor_congr hR happly p.params inputs) fun values => happly name values
  | .procedure _ => hR.pure _
  | .integer _ | .float _ | .boolean _ | .nil | .none | .quoted _ | .symbol _ | .list _ => hR.pure _

/-- The evaluation of inputs is related to itself, with an assignment to a parameter behind each. -/
theorem inputsFor_congr (hR : Congruence R)
    (happly : ∀ name inputs, R (apply name inputs) (apply' name inputs)) (params : List String) :
    ∀ inputs : List Node, R (inputsFor apply params inputs) (inputsFor apply' params inputs)
  | [] => hR.pure _
  | input :: inputs => by
    rw [inputsFor, inputsFor]
    exact hR.bind (node_congr hR happly input) fun _ =>
      hR.bind (hR.steady (bindParam_steady _ _)) fun _ =>
        hR.bind (inputsFor_congr hR happly params.tail inputs) fun _ => hR.pure _

end

variable (hR : Congruence R) (happly : ∀ name inputs, R (apply name inputs) (apply' name inputs))

include hR happly

/-- Running statements is related to itself, by induction on the statements that are left. -/
theorem statements_congr (nodes : List Node) (result : Node) :
    R (statements apply nodes result) (statements apply' nodes result) := by
  induction nodes generalizing result with
  | nil => exact hR.pure _
  | cons statement rest ih =>
    exact hR.bind (node_congr hR happly _) fun value => hR.unlessExit fun _ =>
      Congruence.ite (hR.pure _) (ih value)

/-- So is running the statements of a body, which may end early at an output. -/
theorem bodyStatements_congr (nodes : List Node) (result : Node) :
    R (bodyStatements apply nodes result) (bodyStatements apply' nodes result) := by
  induction nodes generalizing result with
  | nil => exact hR.pure _
  | cons statement rest ih =>
    unfold bodyStatements
    split
    · exact hR.pure _
    · next h =>
      cases h
      exact hR.bind (node_congr hR happly _) fun value =>
        Congruence.ite (hR.pure _) (hR.unlessExit fun _ => Congruence.ite (hR.pure _) (ih value))
    · exact hR.steady (.fail nofun)

/-- Evaluating a text is related to itself: reading it is steady, and its statements are related. -/
theorem text_congr (source : String) : R (text apply source) (text apply' source) :=
  hR.bind (hR.steady (read_steady _ _)) fun _ => statements_congr hR happly _ _

/-- Running a block is related to itself: it is evaluated as a text, or it is no list and fails. -/
theorem block_congr (n : Node) : R (block apply n) (block apply' n) := by
  unfold block
  split
  · exact text_congr hR happly _
  · exact hR.steady (.fail nofun)

end Step

end Evaluate

end Logo
