import Logo.Proofs.Operation

/-!
# The limit on nesting

Nothing but the refusal of a call looks at the limit on nesting or writes to the journal for it.  So
an evaluation can be described by one run that starts with an empty journal: under any journal it
does the same and puts what this run records on top, and a higher limit makes no difference unless
the run exhausts the stack (`Action.Uniform`).  Raising the limit therefore changes nothing for a
program that fits (`Operation.limit_raised`).
-/

namespace Logo

namespace Interpreter

variable (s : Interpreter) (limit : Nat) (journal : Option (List Event))

/-- The state under another limit, with its events on top of another journal. -/
def onto : Interpreter :=
  s.under limit (journal.map (s.events ++ ·))

theorem under_self : s.under s.limit s.journal = s := rfl

theorem under_eq_onto {s : Interpreter} (hs : s.journal = some []) :
    s.under limit journal = s.onto limit journal := by
  have hevents : s.events = [] := by rw [events, hs]; rfl
  rw [onto, hevents]
  cases journal <;> rfl

/-- Events that are put on top of others go along with them. -/
theorem onto_onto (limit' : Nat) (events : List Event) :
    (s.onto limit' (some events)).onto limit journal =
      s.onto limit (journal.map (events ++ ·)) := by
  cases journal with
  | none => rfl
  | some below =>
    show s.under limit (some ((s.events ++ events) ++ below)) =
      s.under limit (some (s.events ++ (events ++ below)))
    rw [List.append_assoc]

/-- An event goes on top of whatever has been recorded. -/
theorem record_under {s : Interpreter} (hs : s.journal = some []) (event : Event) :
    (s.under limit journal).record event = (s.record event).onto limit journal := by
  have hrecord : s.record event = s.under s.limit (some [event]) := by
    rw [record, hs]
    rfl
  rw [hrecord]
  cases journal <;> rfl

end Interpreter

namespace Outcome

variable {α : Type} {o : Outcome α} {f g : Interpreter → Interpreter}

/-- The stack was not exhausted. -/
def Fits (o : Outcome α) : Prop :=
  ∀ k t, o ≠ .failure (.stackExhausted k) t

theorem mapState_congr (h : ∀ t, o.state? = some t → f t = g t) : o.mapState f = o.mapState g := by
  cases o with
  | value a t => exact congrArg (value a) (h t rfl)
  | failure e t => exact congrArg (failure e) (h t rfl)
  | interrupted i => rfl

theorem mapState_mapState : (o.mapState f).mapState g = o.mapState fun t => g (f t) := by
  cases o <;> rfl

theorem eq_of_eq_mapState {t : Interpreter} (h : o = o.mapState f) (ht : o.state? = some t) :
    t = f t := by
  cases o with
  | value a u =>
    cases ht
    injection h
  | failure e u =>
    cases ht
    injection h
  | interrupted i => cases ht

theorem fits_mapState_iff : (o.mapState f).Fits ↔ o.Fits := by
  cases o with
  | value a t => exact ⟨nofun, nofun⟩
  | failure e t =>
    constructor
    · intro h k u heq
      cases heq
      exact h k _ rfl
    · intro h k u heq
      cases heq
      exact h k _ rfl
  | interrupted i => exact ⟨nofun, nofun⟩

end Outcome

namespace Action

variable {α β : Type}

/-- From a state with an empty journal one can tell what the action does under any journal, with the
same limit or, unless the stack is exhausted, with a higher one. -/
def Uniform (x : Action α) : Prop :=
  ∀ s limit journal, s.journal = some [] → s.limit ≤ limit → (x s).Fits ∨ limit = s.limit →
    x (s.under limit journal) = (x s).mapState (·.onto limit journal)

namespace Uniform

/-- The state that is left has the limit of the first one, and a journal. -/
theorem eq_under {x : Action α} (hx : x.Uniform) {s t : Interpreter} (hs : s.journal = some [])
    (h : x.Leaves s t) : t = (t.under s.limit (some [])).under s.limit (some t.events) := by
  have hself := hx s s.limit s.journal hs (Nat.le_refl _) (.inr rfl)
  rw [Interpreter.under_self, hs] at hself
  have ht := Outcome.eq_of_eq_mapState hself h
  rw [Interpreter.onto, Option.map_some, List.append_nil] at ht
  exact ht

/-- A plain action is uniform, as it knows neither the limit nor the journal. -/
theorem of_plain {x : Action α} (hx : x.Plain) : x.Uniform := by
  intro s limit journal hs _ _
  rw [hx.blind]
  refine Outcome.mapState_congr fun t ht => ?_
  -- A plain action leaves the journal as it is.
  have hself := hx.blind s s.limit s.journal
  rw [Interpreter.under_self] at hself
  have ht : t = t.under s.limit s.journal := Outcome.eq_of_eq_mapState hself ht
  have hjournal : t.journal = s.journal := by rw [ht]; rfl
  exact Interpreter.under_eq_onto limit journal (hjournal.trans hs)

/-- A sequence of uniform actions is uniform: the second one starts with the events of the first
one. -/
protected theorem bind {x : Action α} {f : α → Action β} (hx : x.Uniform)
    (hf : ∀ a, (f a).Uniform) : (x >>= f).Uniform := by
  intro s limit journal hs hle hfits
  cases hvalue : x s with
  | value a t =>
    have ht := hx.eq_under hs (leaves_of_value hvalue)
    rw [bind_of_value hvalue] at hfits ⊢
    have hfirst : x (s.under limit journal) = .value a (t.onto limit journal) := by
      rw [hx s limit journal hs hle (.inl (by rw [hvalue]; exact nofun)), hvalue]
      rfl
    rw [bind_of_value hfirst]
    -- Both runs of the second action are described by its run without the events of the first.
    have hsame : f a t = (f a (t.under s.limit (some []))).mapState
        (·.onto s.limit (some t.events)) := by
      rw [← hf a (t.under s.limit (some [])) s.limit (some t.events) rfl (Nat.le_refl _) (.inr rfl)]
      exact congrArg (f a) ht
    have hother : f a (t.onto limit journal) = (f a (t.under s.limit (some []))).mapState
        (·.onto limit (journal.map (t.events ++ ·))) := by
      refine hf a (t.under s.limit (some [])) limit _ rfl hle (hfits.imp_left fun h => ?_)
      rw [hsame, Outcome.fits_mapState_iff] at h
      exact h
    rw [hother, hsame, Outcome.mapState_mapState]
    exact Outcome.mapState_congr fun u _ => (u.onto_onto limit journal s.limit t.events).symm
  | failure e t =>
    rw [bind_of_failure hvalue] at hfits ⊢
    have hfits' : (x s).Fits ∨ limit = s.limit := by
      refine hfits.imp_left fun h k u heq => ?_
      rw [hvalue] at heq
      cases heq
      exact h k _ rfl
    have hfirst := hx s limit journal hs hle hfits'
    rw [hvalue] at hfirst
    exact bind_of_failure hfirst
  | interrupted i =>
    have hfirst := hx s limit journal hs hle (by rw [hvalue]; exact .inl nofun)
    rw [hvalue] at hfirst
    rw [bind_of_interrupted hvalue]
    exact bind_of_interrupted hfirst

/-- Entering a procedure is uniform: it looks at the limit, and there is room below a higher one,
too. -/
theorem enter (procedure : String) (inputs : Nat) : (enter procedure inputs).Uniform := by
  intro s limit journal hs _ _
  exact congrArg (Outcome.value ()) (Interpreter.record_under limit journal hs _)

/-- Work that is set up and cleared away without regard to the limit and the journal. -/
theorem within {x : Action α} (hx : x.Uniform) {s : Interpreter} {limit : Nat}
    {journal : Option (List Event)} {f g : Interpreter → Interpreter} (hs : s.journal = some [])
    (hle : s.limit ≤ limit) (hfits : ((x (f s)).mapState g).Fits ∨ limit = s.limit)
    (hf : ∀ l j, f (s.under l j) = (f s).under l j)
    (hg : ∀ t, g (t.onto limit journal) = (g t).onto limit journal) :
    (x (f (s.under limit journal))).mapState g =
      ((x (f s)).mapState g).mapState (·.onto limit journal) := by
  have hself : f s = (f s).under s.limit s.journal := hf s.limit s.journal
  have hlimit : (f s).limit = s.limit := by rw [hself]; rfl
  have hjournal : (f s).journal = some [] := by rw [hself]; exact hs
  rw [Outcome.fits_mapState_iff] at hfits
  rw [hf, hx (f s) limit journal hjournal (hlimit ▸ hle) (hlimit ▸ hfits),
    Outcome.mapState_mapState, Outcome.mapState_mapState]
  exact Outcome.mapState_congr fun t _ => hg t

/-- Running a body is uniform if what runs in it is. -/
theorem asBody {x : Action α} (hx : x.Uniform) : (asBody x).Uniform := by
  intro s limit journal hs hle hfits
  exact hx.within (g := (·.leaveBody s.exitRequested)) hs hle hfits (fun _ _ => rfl) fun _ => rfl

theorem inFrame {x : Action α} (name : String) (hx : x.Uniform) : (inFrame name x).Uniform := by
  intro s limit journal hs hle hfits
  exact hx.within (f := (·.pushFrame name)) hs hle hfits (fun _ _ => rfl) fun _ => rfl

end Uniform

theorem Congruence.uniform : Congruence fun x _ => x.Uniform where
  steady hx := .of_plain hx.toPlain
  bind := .bind

end Action

namespace Evaluate

open Logo.Action

variable {apply : String → List Node → Action Node}

/-- A procedure is dispatched uniformly if it applies others uniformly. -/
theorem dispatch_uniform (happly : ∀ name inputs, (apply name inputs).Uniform) (p : Procedure)
    (inputs : List Node) : (dispatch apply p inputs).Uniform := by
  cases hbody : p.body with
  | host kind function =>
    rw [dispatch, hbody]
    have hblock := @block_congr _ apply apply .uniform happly
    exact .bind (.enter _ _) fun _ =>
      @Library.perform_congr _ .uniform _ (block apply) hblock function.primitive inputs
        fun _ => .of_plain (.interrupt _)
  | user nodes =>
    rw [dispatch, hbody]
    exact .asBody (.bind (.enter _ _) fun _ =>
      @bodyStatements_congr _ apply apply .uniform happly nodes .nil)

/-- One step of an application is uniform if the applications below it are. -/
theorem applyStep_uniform (happly : ∀ name inputs, (apply name inputs).Uniform) (name : String)
    (inputs : List Node) : (applyStep apply name inputs).Uniform := by
  intro s limit journal hs hle hfits
  cases hp : s.procedures.lookup? name with
  | none =>
    rw [applyStep_unknown hp, applyStep_unknown (s := s.under limit journal) hp,
      Interpreter.under_eq_onto limit journal hs]
    rfl
  | some p =>
    rw [applyStep_known hp] at hfits
    rw [applyStep_known hp, applyStep_known (s := s.under limit journal) hp]
    by_cases hfew : inputs.length < p.arity
    · rw [if_pos hfew, if_pos hfew, Interpreter.under_eq_onto limit journal hs]
      rfl
    rw [if_neg hfew] at hfits
    rw [if_neg hfew, if_neg hfew]
    by_cases hinline : p.isInline = true
    · rw [if_pos hinline] at hfits
      rw [if_pos hinline, if_pos hinline]
      exact dispatch_uniform happly p inputs s limit journal hs hle hfits
    rw [if_neg hinline] at hfits
    rw [if_neg hinline, if_neg hinline]
    have hdepth : (s.under limit journal).callDepth = s.callDepth := rfl
    have hlimit : (s.under limit journal).limit = limit := rfl
    by_cases hfull : s.limit ≤ s.callDepth
    · -- The stack is exhausted, so the limit is the same.
      rw [if_pos hfull] at hfits
      obtain rfl : limit = s.limit := hfits.resolve_left fun h => h _ _ rfl
      rw [if_pos hfull, if_pos (by omega)]
      exact congrArg (Outcome.failure _) (Interpreter.record_under s.limit journal hs _)
    · rw [if_neg hfull] at hfits
      rw [if_neg hfull, if_neg (by omega)]
      have hdispatch := dispatch_uniform happly p inputs
      exact hdispatch.inFrame p.name s limit journal hs hle hfits

/-- Applications are uniform at every bound, by induction on the bound. -/
theorem apply_uniform (n : Nat) (name : String) (inputs : List Node) :
    (Evaluate.apply n name inputs).Uniform := by
  induction n generalizing name inputs with
  | zero =>
    rw [apply_zero]
    exact .of_plain (.interrupt _)
  | succ n ih =>
    rw [apply_succ]
    exact applyStep_uniform ih name inputs

end Evaluate

/-- Every operation of an interpreter is uniform. -/
theorem Operation.uniform (n : Nat) (op : Operation) : (op.run n).Uniform := by
  rw [run_eq_runWith]
  exact @runWith_congr _ .uniform _ (Evaluate.apply n) (Evaluate.apply_uniform n) op

/-- Raising the limit on nesting changes nothing for an evaluation that fits.  Whether it gives a
value or fails, unless it fails for want of room, it ends the same way under a higher limit, and in
the same state but for the limit; it is interrupted under the one limit for what interrupts it under
the other. -/
theorem Operation.limit_raised {m m' : Nat} (hle : m ≤ m') (n : Nat) (op : Operation)
    (s : Interpreter) :
    (∀ v t, op.run n { s with limit := m } = .value v t →
      op.run n { s with limit := m' } = .value v { t with limit := m' }) ∧
    (∀ e t, op.run n { s with limit := m } = .failure e t → (∀ k, e ≠ .stackExhausted k) →
      op.run n { s with limit := m' } = .failure e { t with limit := m' }) ∧
    ∀ i, op.run n { s with limit := m } = .interrupted i →
      op.run n { s with limit := m' } = .interrupted i := by
  have hraise : (op.run n { s with limit := m }).Fits →
      op.run n { s with limit := m' } =
        (op.run n { s with limit := m }).mapState fun t => { t with limit := m' } := by
    intro hfits
    have huniform := op.uniform n (s.under m (some []))
    have hlow : op.run n { s with limit := m } =
        (op.run n (s.under m (some []))).mapState (·.onto m s.journal) :=
      huniform m s.journal rfl (Nat.le_refl m) (.inr rfl)
    rw [hlow, Outcome.fits_mapState_iff] at hfits
    have hhigh : op.run n { s with limit := m' } =
        (op.run n (s.under m (some []))).mapState (·.onto m' s.journal) :=
      huniform m' s.journal rfl hle (.inl hfits)
    rw [hhigh, hlow, Outcome.mapState_mapState]
    exact Outcome.mapState_congr fun _ _ => rfl
  refine ⟨?_, ?_, ?_⟩
  · intro v t h
    rw [hraise (by rw [h]; exact nofun), h]
    rfl
  · intro e t h he
    rw [hraise (by rw [h]; rintro k u ⟨⟩; exact he k rfl), h]
    rfl
  · intro i h
    rw [hraise (by rw [h]; exact nofun), h]
    rfl

/-- An interpreter whose procedure `f` writes a word and calls `g`, which divides by zero. -/
def nestedCalls : Interpreter :=
  Interpreter.initial.load [
    Library.native "type" ["output"] .type,
    Library.native "div" ["a", "b"] .div,
    { Procedure.ofHeader "g" [] 1 with
      body := .user [.plainCall "div" 2 [.integer 1, .integer 0]] },
    { Procedure.ofHeader "f" [] 1 with
      body := .user [.plainCall "type" 1 [.quoted "so far"], .plainCall "g" 0 []] }]

theorem limit_raised_nestedCalls :
    ∃ t, (Operation.apply "f" []).run 4 { nestedCalls with limit := 3 } =
        .failure .divisionByZero t ∧
      t.output = ["so far"] ∧
      (Operation.apply "f" []).run 4 { nestedCalls with limit := 10000 } =
        .failure .divisionByZero { t with limit := 10000 } := by
  have hrun : ∃ t, (Operation.apply "f" []).run 4 { nestedCalls with limit := 3 } =
      .failure .divisionByZero t ∧ t.output = ["so far"] := ⟨_, rfl, rfl⟩
  obtain ⟨t, ht, houtput⟩ := hrun
  have hraised := (Operation.limit_raised (by decide : 3 ≤ 10000) 4 (.apply "f" []) nestedCalls).2.1
  exact ⟨t, ht, houtput, hraised _ t ht nofun⟩

end Logo
