import Logo.Proofs.ExitRequest
import Logo.Proofs.Frames
import Logo.Proofs.NestingLimit

/-!
# The bound on nesting

A body runs in the frame of its call, and a frame is opened only below the limit.  So wherever a
host function or a body starts, at most as many bodies run as there are frames, and at most as many
frames are open as the limit allows.  A call that would need one frame more is refused, which ends
the evaluation: nothing catches the error, and nothing else raises it.

What happens on the way is read off the journal.  `Account` says what the events of a run and its
error have to do with each other; sequences keep accounts (`Action.Accounted`), so does one
application, and so does every operation, however deep it gets (`Evaluate.applyUpTo`).
-/

namespace Logo

/-- At most as many bodies run as frames are open, and at most as many as the limit allows. -/
structure Interpreter.Nested (s : Interpreter) : Prop where
  bodies : s.activeBodies ≤ s.callDepth
  depth : s.callDepth ≤ s.limit

/-- The error with which an action ends. -/
def Outcome.error? {α : Type} : Outcome α → Option EvalError
  | failure e _ => some e
  | value _ _ => none
  | interrupted _ => none

@[simp] theorem Outcome.error?_mapState {α : Type} (o : Outcome α)
    (f : Interpreter → Interpreter) : (o.mapState f).error? = o.error? := by
  cases o <;> rfl

/-- The call is one of a known procedure that is not inline, with enough inputs, at the limit. -/
def Dispatch.AtLimit (limit : Nat) (d : Dispatch) : Prop :=
  ∃ (s : Interpreter) (name : String) (p : Procedure) (inputs : List Node),
    s.procedures.lookup? name = some p ∧ p.isInline = false ∧ p.arity ≤ inputs.length ∧
      s.callDepth = limit ∧ s.limit = limit ∧ d = s.dispatchOf p.name inputs.length

/-- What the events of a run under a limit have to do with its error. -/
structure Account (limit : Nat) (events : List Event) (error : Option EvalError) : Prop where
  entered : ∀ d, .entered d ∈ events → d.activeBodies ≤ d.callDepth ∧ d.callDepth ≤ limit
  refused : ∀ d, .refused d ∈ events → d.AtLimit limit
  exhausted : (∃ k, error = some (.stackExhausted k)) ↔ ∃ d, .refused d ∈ events
  carried : ∀ k, error = some (.stackExhausted k) → k = limit

namespace Account

variable {limit : Nat} {events before : List Event} {error : Option EvalError}

theorem nil (h : ∀ k, error ≠ some (.stackExhausted k)) : Account limit [] error where
  entered := nofun
  refused := nofun
  exhausted := ⟨fun ⟨k, hk⟩ => absurd hk (h k), nofun⟩
  carried k hk := absurd hk (h k)

/-- The account of a run behind another one that did not fail. -/
theorem append (hbefore : Account limit before none) (h : Account limit events error) :
    Account limit (events ++ before) error where
  entered d hd := (List.mem_append.1 hd).elim (h.entered d) (hbefore.entered d)
  refused d hd := (List.mem_append.1 hd).elim (h.refused d) (hbefore.refused d)
  exhausted := by
    rw [h.exhausted]
    constructor
    · rintro ⟨d, hd⟩
      exact ⟨d, List.mem_append_left _ hd⟩
    · rintro ⟨d, hd⟩
      rcases List.mem_append.1 hd with hd | hd
      · exact ⟨d, hd⟩
      · obtain ⟨k, hk⟩ := hbefore.exhausted.2 ⟨d, hd⟩
        cases hk
  carried := h.carried

/-- An entry within the limit is accounted for. -/
theorem entry {d : Dispatch} (hbodies : d.activeBodies ≤ d.callDepth)
    (hdepth : d.callDepth ≤ limit) : Account limit [.entered d] none where
  entered e he := by
    cases List.mem_singleton.1 he
    exact ⟨hbodies, hdepth⟩
  refused e he := by cases List.mem_singleton.1 he
  exhausted := ⟨nofun, fun ⟨e, he⟩ => by cases List.mem_singleton.1 he⟩
  carried := nofun

end Account

namespace Action

variable {α β : Type}

/-- The events of a run that starts with an empty journal account for its error. -/
structure Accounted (x : Action α) : Prop where
  effective : x.Effective
  uniform : x.Uniform
  account : ∀ s t, s.journal = some [] → s.Nested → x.Leaves s t →
    Account s.limit t.events (x s).error?

namespace Accounted

/-- A plain action records nothing and exhausts no stack. -/
theorem of_plain {x : Action α} (hx : x.Plain) : x.Accounted := by
  refine ⟨hx.effective, .of_plain hx, ?_⟩
  intro s t hs _ ht
  have hjournal : t.events = [] := by
    have hself := hx.blind s s.limit s.journal
    rw [Interpreter.under_self] at hself
    rw [Outcome.eq_of_eq_mapState hself ht, hs]
    rfl
  rw [hjournal]
  refine .nil fun k hk => ?_
  cases hvalue : x s with
  | value a u =>
    rw [hvalue] at hk
    cases hk
  | failure e u =>
    rw [hvalue] at hk
    cases hk
    exact hx.fits s k u hvalue
  | interrupted i =>
    rw [hvalue] at hk
    cases hk

/-- The account of a run that starts with events recorded by others. -/
theorem account_under {x : Action α} (hx : x.Accounted) {s t : Interpreter} {before : List Event}
    (hs : s.journal = some []) (hnested : s.Nested) (hbefore : Account s.limit before none)
    (h : x.Leaves (s.under s.limit (some before)) t) :
    Account s.limit t.events (x (s.under s.limit (some before))).error? := by
  have huniform := hx.uniform s s.limit (some before) hs (Nat.le_refl _) (.inr rfl)
  rw [Leaves, huniform, state?_mapState_eq_some_iff] at h
  obtain ⟨u, hu, rfl⟩ := h
  rw [huniform, Outcome.error?_mapState]
  exact hbefore.append (hx.account s u hs hnested hu)

/-- The events of a sequence are those of its parts, and only the last one may be a refusal. -/
protected theorem bind {x : Action α} {f : α → Action β} (hx : x.Accounted)
    (hf : ∀ a, (f a).Accounted) : (x >>= f).Accounted := by
  refine ⟨hx.effective.bind fun a => (hf a).effective, hx.uniform.bind fun a => (hf a).uniform, ?_⟩
  intro s t hs hnested ht
  cases hvalue : x s with
  | value a u =>
    have hleaves := leaves_of_value hvalue
    have hbefore : Account s.limit u.events none := by
      have haccount := hx.account s u hs hnested hleaves
      rw [hvalue] at haccount
      exact haccount
    -- Behind the first action the frames and bodies are those from before.
    have heffect := hx.effective s u hleaves
    have hu := hx.uniform.eq_under hs hleaves
    have hnested' : (u.under s.limit (some [])).Nested := by
      refine ⟨?_, ?_⟩
      · show u.activeBodies ≤ u.scopes.callDepth
        rw [heffect.exitKept.activeBodies, heffect.balanced.callDepth_eq]
        exact hnested.bodies
      · show u.scopes.callDepth ≤ s.limit
        rw [heffect.balanced.callDepth_eq]
        exact hnested.depth
    rw [Leaves, bind_of_value hvalue, hu] at ht
    rw [bind_of_value hvalue, hu]
    exact (hf a).account_under rfl hnested' hbefore ht
  | failure e u =>
    have haccount := hx.account s u hs hnested (leaves_of_failure hvalue)
    rw [Leaves, bind_of_failure hvalue] at ht
    cases ht
    rw [hvalue] at haccount
    rw [bind_of_failure hvalue]
    exact haccount
  | interrupted i =>
    rw [Leaves, bind_of_interrupted hvalue] at ht
    cases ht

end Accounted

end Action

/-! ## One application -/

namespace Evaluate

open Logo.Action

variable {apply : String → List Node → Action Node} {s t : Interpreter} {p : Procedure}
  {inputs : List Node}

end Evaluate

namespace Action

variable {α β : Type}

/-- The second action does what the first one does, unless the first one reaches the bound on
nesting. -/
def Agrees (x y : Action α) : Prop :=
  ∀ s, x s = .interrupted .depthBound ∨ y s = x s

theorem Agrees.bind {x y : Action α} {f g : α → Action β} (h : x.Agrees y)
    (hf : ∀ a, (f a).Agrees (g a)) : (x >>= f).Agrees (y >>= g) := by
  intro s
  rcases h s with hbound | hsame
  · exact .inl (bind_of_interrupted hbound)
  · cases hvalue : x s with
    | value a t =>
      rw [bind_of_value hvalue, bind_of_value (hsame.trans hvalue)]
      exact hf a t
    | failure e t =>
      rw [bind_of_failure hvalue]
      exact .inr (bind_of_failure (hsame.trans hvalue))
    | interrupted i =>
      rw [bind_of_interrupted hvalue]
      exact .inr (bind_of_interrupted (hsame.trans hvalue))

/-- What is set up before two actions and cleared away behind them does not tell them apart. -/
theorem Agrees.within {x y : Action α} (h : x.Agrees y) (s : Interpreter)
    (g : Interpreter → Interpreter) :
    (x s).mapState g = .interrupted .depthBound ∨ (y s).mapState g = (x s).mapState g := by
  rcases h s with hbound | hsame
  · rw [hbound]
    exact .inl rfl
  · rw [hsame]
    exact .inr rfl

end Action

namespace Evaluate

open Logo.Action

variable {apply apply' : String → List Node → Action Node}

end Evaluate

/-! ## The bound -/

/-- The states in which an evaluation can be started: between evaluations, or by a host function
from inside a call or a body.  A host may set the limit at any time. -/
inductive Ready : Interpreter → Prop
  | fresh (input : List String) (generator : StdGen) (journal : Option (List Event)) :
      Ready { Interpreter.initial with input, generator, journal }
  | define {s : Interpreter} (p : Procedure) (h : Ready s) : Ready (s.define p)
  | setLimit {s : Interpreter} (limit : Nat) (h : Ready s) : Ready { s with limit }
  | evaluated {s t : Interpreter} (h : Ready s) (effect : Effect s t) : Ready t
  | inCall {s : Interpreter} (name : String) (h : Ready s) : Ready (s.pushFrame name)
  | inBody {s : Interpreter} (name : String) (h : Ready s) : Ready (s.pushFrame name).enterBody

theorem Ready.bodies {s : Interpreter} (h : Ready s) : s.activeBodies ≤ s.callDepth := by
  induction h with
  | fresh => exact Nat.zero_le _
  | define p _ ih => exact ih
  | setLimit limit _ ih => exact ih
  | @evaluated s t _ effect ih =>
    show t.activeBodies ≤ t.scopes.callDepth
    rw [effect.exitKept.activeBodies, effect.balanced.callDepth_eq]
    exact ih
  | inCall name _ ih => exact Nat.le_succ_of_le ih
  | inBody name _ ih => exact Nat.succ_le_succ ih

/-- A call that needs a frame beyond the limit is refused: it fails in the state it was made in, but
for the record, so it opens no frame. -/
theorem Evaluate.applyStep_refused {apply : String → List Node → Action Node} {u : Interpreter}
    {name : String} {p : Procedure} {inputs : List Node} (hp : u.procedures.lookup? name = some p)
    (hinline : p.isInline = false) (hle : p.arity ≤ inputs.length) (hfull : u.limit ≤ u.callDepth) :
    applyStep apply name inputs u = .failure (.stackExhausted u.limit)
      (u.record (.refused (u.dispatchOf p.name inputs.length))) := by
  rw [applyStep_known hp, if_neg (Nat.not_lt_of_le hle), hinline, if_neg nofun, if_pos hfull]

end Logo
