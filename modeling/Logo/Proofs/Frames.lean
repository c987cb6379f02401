import Mathlib.Data.Set.Basic
import Logo.Proofs.Operation
import Logo.Proofs.Scopes

/-!
# The frames across an evaluation

An evaluation closes every frame that it opens, also when it fails.  So the frames before and after
it correspond by position, and two things can be said of each pair.

* `Scopes.Balanced`: the frames keep their names and their variables; only the innermost frame, by a
declaration, and the global one, by an assignment to a variable that nobody has, gain variables.
* `Scopes.Shielded`: a frame that has a variable shields the frames further out.  Whatever is
assigned, they keep their own variable of that name.

Both are kept by one assignment, one declaration and by work in a frame of its own, hence by every
effect (`Effect.scopes`).
-/

namespace Logo

namespace Scopes

variable {s t u : Scopes} {name other : String} {i j : Nat}

/-- The names of the variables, in any mixture of cases, of the frame at a position. -/
def variablesAt (s : Scopes) (i : Nat) : Set String :=
  { name | (s.valueAt i name).isSome }

@[simp] theorem mem_variablesAt_iff : name ∈ s.variablesAt i ↔ (s.valueAt i name).isSome :=
  Iff.rfl

/-- The frames of `t` are those of `s`, with variables added to the innermost and the global one. -/
structure Balanced (s t : Scopes) : Prop where
  frameNames : t.frames.map Frame.name = s.frames.map Frame.name
  grows : ∀ i, s.variablesAt i ⊆ t.variablesAt i
  between : ∀ i, 0 < i → i < s.callDepth → t.variablesAt i = s.variablesAt i

namespace Balanced

theorem refl (s : Scopes) : Balanced s s :=
  ⟨rfl, fun _ _ h => h, fun _ _ _ => rfl⟩

theorem callDepth_eq (h : Balanced s t) : t.callDepth = s.callDepth := by
  have hlen := congrArg List.length h.frameNames
  rw [List.length_map, List.length_map, length_frames, length_frames] at hlen
  omega

theorem trans (h₁ : Balanced s t) (h₂ : Balanced t u) : Balanced s u := by
  refine ⟨h₂.frameNames.trans h₁.frameNames, ?_, ?_⟩
  · intro i name hname
    exact h₂.grows i (h₁.grows i hname)
  · intro i hpos hlt
    rw [h₂.between i hpos (h₁.callDepth_eq ▸ hlt), h₁.between i hpos hlt]

/-- Setting a variable leaves the names of the frames alone. -/
theorem frameNames_modify (frames : List Frame) (k : Nat) (name : String) (value : Node) :
    (frames.modify k (·.define name value)).map Frame.name = frames.map Frame.name := by
  apply List.ext_getElem?
  intro i
  rw [List.getElem?_map, List.getElem?_map, List.getElem?_modify]
  cases frames[i]? with
  | none => rfl
  | some frame => by_cases hk : k = i <;> simp [hk]

/-- An assignment adds a variable to no frame but the global one. -/
theorem make (s : Scopes) (name : String) (value : Node) : Balanced s (s.make name value) := by
  refine ⟨?_, ?_, ?_⟩
  · rw [frames_make]
    exact frameNames_modify _ _ _ _
  · intro i other hother
    rw [mem_variablesAt_iff, valueAt_make]
    split
    · rfl
    · exact hother
  · -- Short of the global frame, an assignment goes to a frame that has the variable already.
    intro i _ hlt
    ext other
    rw [mem_variablesAt_iff, mem_variablesAt_iff, valueAt_make]
    split
    · next h =>
      obtain ⟨rfl, hkey⟩ := h
      have hhas := isSome_valueAt_target hlt
      rw [valueAt_congr hkey]
      exact ⟨fun _ => hhas, fun _ => rfl⟩
    · exact Iff.rfl

/-- A declaration adds a name to the top frame. -/
theorem declare (s : Scopes) (name : String) : Balanced s (s.declare name) := by
  refine ⟨?_, ?_, ?_⟩
  · rw [frames_declare]
    exact frameNames_modify _ _ _ _
  · intro i other hother
    rw [mem_variablesAt_iff, valueAt_declare]
    split
    · rfl
    · exact hother
  · intro i hpos _
    ext other
    rw [mem_variablesAt_iff, mem_variablesAt_iff, valueAt_declare,
      if_neg fun h => Nat.ne_of_gt hpos h.1]

/-- Behind work in a frame of its own, every frame but the global one has the same variables. -/
theorem variablesAt_pop {frame : Frame} (h : Balanced (s.push frame) t) (hlt : i < s.callDepth) :
    t.pop.variablesAt i = s.variablesAt i := by
  have hdepth : t.callDepth = s.callDepth + 1 := h.callDepth_eq
  have hbetween := h.between (i + 1) (Nat.succ_pos i) (Nat.succ_lt_succ hlt)
  ext name
  rw [mem_variablesAt_iff, mem_variablesAt_iff, valueAt_pop (hdepth ▸ Nat.succ_pos _)]
  exact Set.ext_iff.1 hbetween name

/-- Work in a frame of its own is balanced around it. -/
theorem frame {frame : Frame} (h : Balanced (s.push frame) t) : Balanced s t.pop := by
  have hdepth : t.callDepth = s.callDepth + 1 := h.callDepth_eq
  have hpos : 0 < t.callDepth := hdepth ▸ Nat.succ_pos _
  refine ⟨?_, ?_, fun i _ hlt => h.variablesAt_pop hlt⟩
  · rw [frames_pop hpos, List.map_tail, h.frameNames]
    rfl
  · intro i name hname
    rw [mem_variablesAt_iff, valueAt_pop hpos]
    exact h.grows (i + 1) hname

end Balanced

/-- The frames are balanced, and what a frame has, is not changed further out. -/
structure Shielded (s t : Scopes) : Prop extends Balanced s t where
  below : ∀ {name i j}, i < j → (s.valueAt i name).isSome → t.valueAt j name = s.valueAt j name

namespace Shielded

theorem refl (s : Scopes) : Shielded s s :=
  ⟨.refl s, fun _ _ => rfl⟩

theorem trans (h₁ : Shielded s t) (h₂ : Shielded t u) : Shielded s u := by
  refine ⟨h₁.toBalanced.trans h₂.toBalanced, ?_⟩
  intro name i j hij hi
  have hi' : (t.valueAt i name).isSome := h₁.grows i hi
  rw [h₂.below hij hi', h₁.below hij hi]

/-- An assignment goes to the first frame with the name, so frames below it are shielded. -/
theorem make (s : Scopes) (name : String) (value : Node) : Shielded s (s.make name value) := by
  refine ⟨.make s name value, ?_⟩
  intro other i j hij hi
  rw [valueAt_make, if_neg]
  -- An assignment that went further out would have passed the frame that has the variable.
  rintro ⟨rfl, hkey⟩
  rw [valueAt_congr hkey] at hi
  exact Nat.not_le_of_lt hij (target_le_of_valueAt hi)

/-- A declaration goes to the top frame, which shields what is below. -/
theorem declare (s : Scopes) (name : String) : Shielded s (s.declare name) := by
  refine ⟨.declare s name, ?_⟩
  intro other i j hij _
  rw [valueAt_declare, if_neg]
  rintro ⟨rfl, -⟩
  exact Nat.not_lt_zero i hij

/-- What is shielded around an open frame is shielded when it is closed. -/
theorem frame {frame : Frame} (h : Shielded (s.push frame) t) : Shielded s t.pop := by
  have hpos : 0 < t.callDepth := h.callDepth_eq ▸ Nat.succ_pos _
  refine ⟨h.toBalanced.frame, ?_⟩
  intro name i j hij hi
  rw [valueAt_pop hpos]
  exact h.below (Nat.succ_lt_succ hij) hi

end Shielded

end Scopes

/-- What assignments, declarations and work in a frame of its own do to the scopes, every effect
does. -/
theorem Effect.scopes {R : Scopes → Scopes → Prop} (refl : ∀ s, R s s)
    (trans : ∀ {s t u}, R s t → R t u → R s u)
    (make : ∀ s name value, R s (s.make name value)) (declare : ∀ s name, R s (s.declare name))
    (frame : ∀ {s t : Scopes} {name}, R (s.push (.named name)) t → R s t.pop)
    {s t : Interpreter} (h : Effect s t) : R s.scopes t.scopes := by
  induction h with
  | refl s => exact refl _
  | trans _ _ ih₁ ih₂ => exact trans ih₁ ih₂
  | make s name value => exact make _ _ _
  | declare s name => exact declare _ _
  | requestExit s =>
    rw [Interpreter.scopes_requestExit]
    exact refl _
  | console => exact refl _
  | read => exact refl _
  | addAlias => exact refl _
  | enter =>
    rw [Interpreter.scopes_record]
    exact refl _
  | refuse =>
    rw [Interpreter.scopes_record]
    exact refl _
  | frame name _ _ ih => exact frame ih
  | body _ ih => exact ih

theorem Effect.shielded {s t : Interpreter} (h : Effect s t) : s.scopes.Shielded t.scopes :=
  h.scopes .refl .trans .make .declare .frame

/-- Whatever evaluation does, it opens and closes the same frames. -/
theorem Effect.balanced {s t : Interpreter} (h : Effect s t) : s.scopes.Balanced t.scopes :=
  h.shielded.toBalanced

/-! ## Balance -/

/-- A procedure with a frame of its own adds no variable to a frame of its callers. -/
theorem variablesAt_apply {n : Nat} {name : String} {inputs : List Node} {p : Procedure}
    {s t : Interpreter} (hp : s.procedures.lookup? name = some p) (hinline : p.isInline = false)
    (h : (Evaluate.apply n name inputs).Leaves s t) {i : Nat} (hi : i < s.callDepth) :
    t.scopes.variablesAt i = s.scopes.variablesAt i := by
  cases n with
  | zero => exact absurd h Action.not_leaves_interrupt
  | succ n =>
    rw [Evaluate.apply_succ] at h
    rcases Evaluate.applyStep_framed hp hinline h with
      rfl | ⟨-, -, rfl⟩ | ⟨hle, -, u, hu, rfl⟩
    · rfl
    · rw [Interpreter.scopes_record]
    · have heffect : Effect (s.pushFrame p.name) u :=
        Evaluate.dispatch_effect (Evaluate.apply_effective n) hp hle hu
      exact heffect.balanced.variablesAt_pop hi

/-- However an operation ends, the frames are those from before, with their names and their
variables; only the innermost and the global frame may have gained variables, and behind the
application of a procedure that is not inline only the global one. -/
theorem Operation.frames_balanced {n : Nat} {op : Operation} {s t : Interpreter}
    (h : (op.run n).Leaves s t) :
    s.scopes.Balanced t.scopes ∧
      ∀ name inputs p, op = .apply name inputs → s.procedures.lookup? name = some p →
        p.isInline = false →
        ∀ i < s.callDepth, t.scopes.variablesAt i = s.scopes.variablesAt i := by
  refine ⟨(Operation.effect h).balanced, ?_⟩
  rintro name inputs p rfl hp hinline i hi
  exact variablesAt_apply hp hinline h hi

/-- An interpreter inside a call of `caller`, with a procedure `f` that declares a variable, assigns
another one and then fails. -/
def failingCall : Interpreter :=
  (Interpreter.initial.load [
    Library.inline "local" ["name"] .declare,
    Library.inline "make" ["name", "value"] .make,
    Library.native "div" ["a", "b"] .div,
    { Procedure.ofHeader "f" [] 1 with
      body := .user [
        .plainCall "local" 1 [.quoted "x"],
        .plainCall "make" 2 [.quoted "y", .integer 1],
        .plainCall "div" 2 [.integer 1, .integer 0]] }]).pushFrame "caller"

theorem frames_balanced_failingCall :
    ∃ t, (Operation.apply "f" []).run 3 failingCall = .failure .divisionByZero t ∧
      failingCall.scopes.Balanced t.scopes ∧
      t.scopes.variablesAt 0 = failingCall.scopes.variablesAt 0 := by
  have hrun : ∃ t, (Operation.apply "f" []).run 3 failingCall = .failure .divisionByZero t :=
    ⟨_, rfl⟩
  obtain ⟨t, ht⟩ := hrun
  have hbalanced := Operation.frames_balanced (Action.leaves_of_failure ht)
  exact ⟨t, ht, hbalanced.1, hbalanced.2 "f" [] _ rfl rfl rfl 0 (by decide)⟩

/-! ## Shadowing -/

/-- What runs behind the declaration of a variable leaves the variable of the caller alone. -/
theorem Effect.get?_popFrame {name : String} {r t : Interpreter} (hpos : 0 < r.callDepth)
    (h : Effect (r.declare name) t) :
    t.popFrame.scopes.get? name = r.popFrame.scopes.get? name := by
  have hdepth : t.scopes.callDepth = r.scopes.callDepth := by
    rw [h.balanced.callDepth_eq, Interpreter.scopes_declare, Scopes.callDepth_declare]
  have hpos' : 0 < r.scopes.callDepth := hpos
  rw [Interpreter.scopes_popFrame, Interpreter.scopes_popFrame]
  apply Scopes.get?_eq_of_valueAt
  · rw [Scopes.callDepth_pop, Scopes.callDepth_pop, hdepth]
  · intro i
    have hdeclared : ((r.scopes.declare name).valueAt 0 name).isSome := by
      rw [Scopes.valueAt_declare, if_pos ⟨rfl, rfl⟩]
      rfl
    have hbelow : t.scopes.valueAt (i + 1) name = (r.scopes.declare name).valueAt (i + 1) name :=
      h.shielded.below (Nat.succ_pos i) hdeclared
    rw [Scopes.valueAt_pop (hdepth ▸ hpos'), Scopes.valueAt_pop hpos', hbelow,
      Scopes.valueAt_declare, if_neg fun hi => Nat.succ_ne_zero i hi.1]

theorem Library.effect_declare {name : String} {word : Node} {r s : Interpreter}
    (hword : word.wordText? = some name) (h : (Library.declare word).Leaves r s) :
    Effect (r.declare name) s := by
  have hname : Library.toName word = .ok name := by rw [Library.toName, hword]
  unfold Library.declare at h
  rw [hname] at h
  cases h
  exact .refl _

theorem Library.effect_declareMake {name : String} {word value : Node} {r s : Interpreter}
    (hword : word.wordText? = some name) (h : (Library.declareMake word value).Leaves r s) :
    Effect (r.declare name) s := by
  have hname : Library.toName word = .ok name := by rw [Library.toName, hword]
  unfold Library.declareMake at h
  rw [hname] at h
  cases h
  exact .make _ name value

/-- A frame that has a variable shields the frames further out: however an operation ends, they have
the variable with the same value or still lack it.  So once a call has declared a variable, with a
value or without one, nothing that it runs changes the variable of its caller. -/
theorem Operation.shadowing_airtight {n : Nat} {op : Operation} {s t : Interpreter}
    (h : (op.run n).Leaves s t) (name : String) :
    (∀ i j, i < j → (s.scopes.valueAt i name).isSome →
      t.scopes.valueAt j name = s.scopes.valueAt j name) ∧
    ∀ (r : Interpreter) (word : Node), word.wordText? = some name → 0 < r.callDepth →
      ((Library.declare word).Leaves r s ∨
        ∃ value, (Library.declareMake word value).Leaves r s) →
      t.popFrame.scopes.get? name = r.popFrame.scopes.get? name := by
  have heffect := Operation.effect h
  refine ⟨fun i j hij hi => heffect.shielded.below hij hi, ?_⟩
  rintro r word hword hpos (hdeclare | ⟨value, hdeclare⟩)
  · exact ((Library.effect_declare hword hdeclare).trans heffect).get?_popFrame hpos
  · exact ((Library.effect_declareMake hword hdeclare).trans heffect).get?_popFrame hpos

/-- An interpreter inside a call of `shadow`, over a global variable `x`. -/
def shadowCall : Interpreter :=
  ((Interpreter.initial.load [Library.inline "make" ["name", "value"] .make]).make "x"
    (.integer 20)).pushFrame "shadow"

theorem shadowing_airtight_shadowCall :
    ∃ s t, (Library.declare (.quoted "X")).Leaves shadowCall s ∧
      ((Operation.runBody [.plainCall "make" 2 [.quoted "x", .integer 10]]).run 2).Leaves s t ∧
      t.scopes.get? "X" = some (.integer 10) ∧
      t.popFrame.scopes.get? "X" = some (.integer 20) := by
  have hdeclare : (Library.declare (.quoted "X")).Leaves shadowCall (shadowCall.declare "X") := rfl
  have hrun : ∃ t,
      ((Operation.runBody [.plainCall "make" 2 [.quoted "x", .integer 10]]).run 2).Leaves
        (shadowCall.declare "X") t ∧ t.scopes.get? "X" = some (.integer 10) := ⟨_, rfl, rfl⟩
  obtain ⟨t, ht, hx⟩ := hrun
  have hcaller := (Operation.shadowing_airtight ht "X").2 shadowCall (.quoted "X") rfl
    (by decide) (.inl hdeclare)
  exact ⟨_, t, hdeclare, ht, hx, hcaller⟩

end Logo
