import Logo.Proofs.Operation

/-!
# Requests to exit

A request to exit is a flag of the state, and it is meant for the innermost running body.  A body
saves the flag of the body around it, clears it, and puts it back however it ends.  So the flag is
raised only while some body runs, a raised flag survives everything that runs under it, and nothing
is left of it once the outermost body has ended.

The journal takes down the flag and the number of running bodies at each dispatch; the invariant
`Interpreter.Guarded` speaks of all of them.
-/

namespace Logo

/-- The dispatch that an event is about. -/
def Event.dispatch : Event → Dispatch
  | entered d => d
  | refused d => d

/-- An exit is requested only while a body runs. -/
def Dispatch.Guarded (d : Dispatch) : Prop :=
  d.exitRequested = true → 1 ≤ d.activeBodies

/-- An exit is requested only while a body runs, now and at each recorded dispatch. -/
structure Interpreter.Guarded (s : Interpreter) : Prop where
  now : s.exitRequested = true → 1 ≤ s.activeBodies
  recorded : ∀ e ∈ s.events, e.dispatch.Guarded

/-- The running bodies are the same again, and no request is lost or comes from nowhere. -/
structure ExitKept (s t : Interpreter) : Prop where
  activeBodies : t.activeBodies = s.activeBodies
  requested : s.exitRequested = true → t.exitRequested = true
  guarded : s.Guarded → t.Guarded

namespace ExitKept

variable {s t u : Interpreter}

theorem of_eq (hbodies : t.activeBodies = s.activeBodies)
    (hrequested : t.exitRequested = s.exitRequested) (hevents : t.events = s.events) :
    ExitKept s t := by
  refine ⟨hbodies, fun h => hrequested.trans h, fun h => ⟨?_, ?_⟩⟩
  · rw [hbodies, hrequested]
    exact h.now
  · rw [hevents]
    exact h.recorded

theorem trans (h₁ : ExitKept s t) (h₂ : ExitKept t u) : ExitKept s u :=
  ⟨h₂.activeBodies.trans h₁.activeBodies, fun h => h₂.requested (h₁.requested h),
    fun h => h₂.guarded (h₁.guarded h)⟩

/-- Without a running body a request is ignored, so a request that counts is guarded. -/
theorem requestExit (s : Interpreter) : ExitKept s s.requestExit := by
  refine ⟨s.activeBodies_requestExit, ?_, fun h => ⟨?_, ?_⟩⟩
  · intro h
    unfold Interpreter.requestExit
    split
    · rfl
    · exact h
  · rw [s.activeBodies_requestExit]
    unfold Interpreter.requestExit
    split
    · next hpos => exact fun _ => hpos
    · exact h.now
  · rw [s.events_requestExit]
    exact h.recorded

theorem record {event : Event}
    (hevent : s.Guarded → event.dispatch.Guarded) : ExitKept s (s.record event) := by
  refine ⟨s.activeBodies_record event, ?_, fun h => ⟨?_, ?_⟩⟩
  · rw [s.exitRequested_record]
    exact id
  · rw [s.exitRequested_record, s.activeBodies_record]
    exact h.now
  · intro e he
    rcases Interpreter.mem_events_record he with rfl | he
    · exact hevent h
    · exact h.recorded e he

/-- A body clears the flag for itself and puts back the one that it found. -/
theorem body (h : ExitKept s.enterBody t) : ExitKept s (t.leaveBody s.exitRequested) := by
  have hbodies : t.activeBodies = s.activeBodies + 1 := h.activeBodies
  have hbodies' : (t.leaveBody s.exitRequested).activeBodies = s.activeBodies := by
    show t.activeBodies - 1 = s.activeBodies
    omega
  refine ⟨hbodies', id, fun hs => ⟨?_, ?_⟩⟩
  · rw [hbodies']
    exact hs.now
  · have henter : s.enterBody.Guarded := ⟨nofun, hs.recorded⟩
    exact (h.guarded henter).recorded

end ExitKept

theorem Effect.exitKept {s t : Interpreter} (h : Effect s t) : ExitKept s t := by
  induction h with
  | refl s => exact .of_eq rfl rfl rfl
  | trans _ _ ih₁ ih₂ => exact ih₁.trans ih₂
  | make s name value => exact .of_eq rfl rfl rfl
  | declare s name => exact .of_eq rfl rfl rfl
  | requestExit s => exact .requestExit s
  | console => exact .of_eq rfl rfl rfl
  | read => exact .of_eq rfl rfl rfl
  | addAlias => exact .of_eq rfl rfl rfl
  | enter => exact .record fun hs => hs.now
  | refuse => exact .record fun hs => hs.now
  | @frame s t name _ _ ih =>
    have hpush : ExitKept s (s.pushFrame name) := .of_eq rfl rfl rfl
    have hpop : ExitKept t t.popFrame := .of_eq rfl rfl rfl
    exact hpush.trans (ih.trans hpop)
  | body _ ih => exact ih.body

theorem Reachable.guarded {s : Interpreter} (h : Reachable s) : s.Guarded := by
  induction h with
  | fresh => exact ⟨nofun, nofun⟩
  | freshJournal => exact ⟨nofun, nofun⟩
  | define p _ ih => exact ⟨ih.now, ih.recorded⟩
  | evaluated _ effect ih => exact effect.exitKept.guarded ih
  | inFrame name _ _ ih => exact ⟨ih.now, ih.recorded⟩
  | inBody _ ih => exact ⟨nofun, ih.recorded⟩

/-- A body that has ended has put back the flag that it found. -/
theorem Evaluate.exitRequested_dispatch_user {apply : String → List Node → Action Node}
    {p : Procedure} {nodes inputs : List Node} {s t : Interpreter} (hbody : p.body = .user nodes)
    (h : (dispatch apply p inputs).Leaves s t) : t.exitRequested = s.exitRequested := by
  rw [Action.Leaves, dispatch_user hbody, Action.state?_mapState_eq_some_iff] at h
  obtain ⟨u, -, rfl⟩ := h
  rfl

theorem Evaluate.exitRequested_apply_user {n : Nat} {name : String} {p : Procedure}
    {nodes inputs : List Node} {s t : Interpreter} (hp : s.procedures.lookup? name = some p)
    (hbody : p.body = .user nodes) (h : (Evaluate.apply n name inputs).Leaves s t) :
    t.exitRequested = s.exitRequested := by
  cases n with
  | zero => exact absurd h Action.not_leaves_interrupt
  | succ n =>
    have hinline : p.isInline = false := by rw [Procedure.isInline, hbody]
    rw [apply_succ] at h
    rcases applyStep_framed hp hinline h with rfl | ⟨-, -, rfl⟩ | ⟨-, -, u, hu, rfl⟩
    · rfl
    · exact s.exitRequested_record _
    · have hframe : u.exitRequested = (s.pushFrame p.name).exitRequested :=
        exitRequested_dispatch_user hbody hu
      exact hframe

/-- The exit flag neither leaks nor is lost.  In every reachable state, and at every dispatch
recorded in one, a raised flag has a running body.  However an operation ends, as many bodies run as
before and a raised flag is still raised; the application of a user's procedure leaves the flag as
it was; and an operation that is started while no body runs ends with the flag down. -/
theorem exit_request_contained :
    (∀ s, Reachable s →
      (s.exitRequested = true → 1 ≤ s.activeBodies) ∧
        ∀ e ∈ s.events, e.dispatch.exitRequested = true → 1 ≤ e.dispatch.activeBodies) ∧
    (∀ (n : Nat) (op : Operation) (s t : Interpreter), (op.run n).Leaves s t →
      t.activeBodies = s.activeBodies ∧ (s.exitRequested = true → t.exitRequested = true)) ∧
    (∀ (n : Nat) (name : String) (inputs : List Node) (s t : Interpreter) (p : Procedure)
      (nodes : List Node), ((Operation.apply name inputs).run n).Leaves s t →
      s.procedures.lookup? name = some p → p.body = .user nodes →
      t.exitRequested = s.exitRequested) ∧
    (∀ (n : Nat) (op : Operation) (s t : Interpreter), Reachable s → s.activeBodies = 0 →
      (op.run n).Leaves s t → t.exitRequested = false) := by
  refine ⟨fun s hs => ⟨hs.guarded.now, hs.guarded.recorded⟩, ?_, ?_, ?_⟩
  · intro n op s t h
    have hkept := (Operation.effect h).exitKept
    exact ⟨hkept.activeBodies, hkept.requested⟩
  · intro n name inputs s t p nodes h hp hbody
    exact Evaluate.exitRequested_apply_user hp hbody h
  · intro n op s t hs hzero h
    have heffect := Operation.effect h
    have hnone : t.activeBodies = 0 := heffect.exitKept.activeBodies.trans hzero
    have hguarded := (hs.evaluated heffect).guarded.now
    cases hrequested : t.exitRequested with
    | false => rfl
    | true =>
      have hpos := hguarded hrequested
      omega

/-- A fresh interpreter that keeps a journal, with a procedure `f` that requests an exit and then
fails within one statement. -/
def failingExit : Interpreter :=
  { Interpreter.initial with journal := some [] }
    |>.define (Library.native "quit" [] (.probe .exit))
    |>.define (Library.native "fail" [] (.probe .fail))
    |>.define (Library.native "list" ["a", "b"] .list)
    |>.define { Procedure.ofHeader "f" [] 1 with
      body := .user [.plainCall "list" 2 [.plainCall "quit" 0 [], .plainCall "fail" 0 []]] }

theorem exit_request_contained_failingExit :
    ∃ t, (Operation.apply "f" []).run 3 failingExit = .failure .divisionByZero t ∧
      (∃ e ∈ t.events, e.dispatch.exitRequested = true) ∧
      (∀ e ∈ t.events, e.dispatch.exitRequested = true → 1 ≤ e.dispatch.activeBodies) ∧
      t.exitRequested = false := by
  have hrun : ∃ t, (Operation.apply "f" []).run 3 failingExit = .failure .divisionByZero t ∧
      ∃ e ∈ t.events, e.dispatch.exitRequested = true := ⟨_, rfl, _, .head _, rfl⟩
  obtain ⟨t, ht, hraised⟩ := hrun
  have hreachable : Reachable failingExit :=
    .define _ (.define _ (.define _ (.define _ (.freshJournal _ _ _))))
  have hleaves := Action.leaves_of_failure ht
  obtain ⟨hstates, -, -, hends⟩ := exit_request_contained
  have hafter := hreachable.evaluated (Operation.effect hleaves)
  exact ⟨t, ht, hraised, (hstates t hafter).2, hends 3 _ failingExit t hreachable rfl hleaves⟩

end Logo
