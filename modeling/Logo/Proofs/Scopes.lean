import Logo.Scopes

/-!
# Frames by position

The operations on scopes, said for the list of all frames, the innermost at position 0 and the
global one at position `callDepth`.  An assignment sets the variable in one frame, at the position
`target`; a declaration sets it at position 0; opening and closing a frame shift the positions by
one.

`valueAt` is what a frame holds; `get?` and `resolve` are the first such value from the inside.
-/

namespace Logo

namespace Frame

variable {frame : Frame} {name other : String} {value : Node}

@[simp] theorem name_define : (frame.define name value).name = frame.name := rfl

theorem resolve?_define :
    (frame.define name value).resolve? other =
      if Text.toLower other = Text.toLower name then some value else frame.resolve? other :=
  Dict.get?_insert

end Frame

namespace Scopes

variable {s t : Scopes} {name other : String} {value : Node} {i : Nat}

/-! ## Operations on the list of frames -/

theorem length_frames : s.frames.length = s.callDepth + 1 := by
  rw [frames, List.length_append, s.callDepth_eq]
  rfl

theorem frames_pop (h : 0 < s.callDepth) : s.pop.frames = s.frames.tail := by
  rw [s.callDepth_eq] at h
  show s.calls.tail ++ [s.global] = (s.calls ++ [s.global]).tail
  rw [List.tail_append_of_ne_nil (List.length_pos_iff.1 h)]

/-- The position of the frame to which an assignment goes: the innermost one that has the variable,
or the global one. -/
def target (s : Scopes) (name : String) : Nat :=
  s.calls.findIdx fun frame => (frame.resolve? name).isSome

/-- An assignment goes to one of the frames. -/
theorem target_le : s.target name ≤ s.callDepth := by
  rw [s.callDepth_eq]
  exact List.findIdx_le_length

/-- An assignment within the calls, or else in the global frame, sets one frame of all. -/
theorem assign_append (calls : List Frame) (global : Frame) :
    (match find? (Text.toLower name) calls with
      | some _ => assign (Text.toLower name) value calls ++ [global]
      | none => calls ++ [global.define name value]) =
    (calls ++ [global]).modify (calls.findIdx fun frame => (frame.resolve? name).isSome)
      (·.define name value) := by
  induction calls with
  | nil => rfl
  | cons frame calls ih =>
    rw [List.findIdx_cons]
    cases hframe : frame.get? (Text.toLower name) with
    | some old =>
      have hhas : (frame.resolve? name).isSome = true := by rw [Frame.resolve?, hframe]; rfl
      simp only [find?, assign, hframe, hhas, cond_true, List.cons_append, List.modify_zero_cons]
      rfl
    | none =>
      have hhas : (frame.resolve? name).isSome = false := by rw [Frame.resolve?, hframe]; rfl
      simp only [find?, assign, hframe, hhas, cond_false, List.cons_append, List.modify_succ_cons]
      rw [← ih]
      split <;> rfl

/-- An assignment changes the frame it goes to and no other. -/
theorem frames_make :
    (s.make name value).frames = s.frames.modify (s.target name) (·.define name value) := by
  rw [frames, frames, target, ← assign_append]
  dsimp only [make]
  cases find? (Text.toLower name) s.calls <;> rfl

/-- A declaration changes the top frame and no other. -/
theorem frames_declare :
    (s.declare name).frames = s.frames.modify 0 (·.define name .none) := by
  obtain ⟨calls, global, depth, hdepth⟩ := s
  cases calls <;> rfl

@[simp] theorem callDepth_pop : s.pop.callDepth = s.callDepth - 1 := rfl

@[simp] theorem callDepth_declare : (s.declare name).callDepth = s.callDepth := by
  unfold declare
  split <;> rfl

/-! ## The value in a frame -/

/-- The value of a variable in the frame at a position. -/
def valueAt (s : Scopes) (i : Nat) (name : String) : Option Node :=
  s.frames[i]?.bind (·.resolve? name)

theorem valueAt_pop (h : 0 < s.callDepth) : s.pop.valueAt i name = s.valueAt (i + 1) name := by
  rw [valueAt, valueAt, frames_pop h, List.getElem?_tail]

theorem valueAt_congr (h : Text.toLower other = Text.toLower name) :
    s.valueAt i other = s.valueAt i name := by
  simp only [valueAt, Frame.resolve?, h]

/-- What setting a variable in one frame does to the values of all. -/
theorem bind_resolve?_modify {frames : List Frame} {k : Nat} (hk : k < frames.length) :
    ((frames.modify k (·.define name value))[i]?).bind (·.resolve? other) =
      if i = k ∧ Text.toLower other = Text.toLower name then some value
      else frames[i]?.bind (·.resolve? other) := by
  by_cases hi : i = k
  · subst hi
    rw [List.getElem?_modify_eq, List.getElem?_eq_getElem hk]
    simp only [Option.map_eq_map, Option.map_some, Option.bind_some, Frame.resolve?_define,
      true_and]
  · rw [List.getElem?_modify_ne _ _ (Ne.symm hi), if_neg fun h => hi h.1]

/-- What an assignment does to each frame and each name. -/
theorem valueAt_make :
    (s.make name value).valueAt i other =
      if i = s.target name ∧ Text.toLower other = Text.toLower name then some value
      else s.valueAt i other := by
  have hk : s.target name < s.frames.length := by
    rw [length_frames]
    exact Nat.lt_succ_of_le target_le
  rw [valueAt, frames_make, bind_resolve?_modify hk, valueAt]

/-- What a declaration does to each frame and each name. -/
theorem valueAt_declare :
    (s.declare name).valueAt i other =
      if i = 0 ∧ Text.toLower other = Text.toLower name then some .none
      else s.valueAt i other := by
  have hk : 0 < s.frames.length := by
    rw [length_frames]
    exact Nat.succ_pos _
  rw [valueAt, frames_declare, bind_resolve?_modify hk, valueAt]

theorem getElem?_frames_of_lt (h : i < s.calls.length) : s.frames[i]? = s.calls[i]? :=
  List.getElem?_append_left h

/-- An assignment goes no further out than a frame that has the variable. -/
theorem target_le_of_valueAt (h : (s.valueAt i name).isSome) : s.target name ≤ i := by
  refine Nat.le_of_not_lt fun hi => ?_
  have hlen : i < s.calls.length := Nat.lt_of_lt_of_le hi List.findIdx_le_length
  rw [valueAt, getElem?_frames_of_lt hlen, List.getElem?_eq_getElem hlen, Option.bind_some] at h
  exact Bool.false_ne_true ((List.not_of_lt_findIdx hi).symm.trans h)

/-- An assignment that stays within the calls finds the variable there. -/
theorem isSome_valueAt_target (h : s.target name < s.callDepth) :
    (s.valueAt (s.target name) name).isSome := by
  have hlen : s.target name < s.calls.length := s.callDepth_eq ▸ h
  rw [valueAt, getElem?_frames_of_lt hlen, List.getElem?_eq_getElem hlen, Option.bind_some]
  exact List.findIdx_getElem (w := hlen)

/-! ## The innermost value -/

theorem find?_eq_findSome? (key : String) (frames : List Frame) :
    find? key frames = frames.findSome? (·.get? key) := by
  induction frames with
  | nil => rfl
  | cons frame frames ih =>
    rw [find?, List.findSome?_cons, ih]
    cases frame.get? key <;> rfl

/-- A name stands for its value in the first frame that has one. -/
theorem get?_eq_findSome? : s.get? name = s.frames.findSome? (·.resolve? name) := by
  rw [get?, frames, List.findSome?_append, find?_eq_findSome?]
  simp only [Frame.resolve?, List.findSome?_cons, List.findSome?_nil]
  cases s.global.get? (Text.toLower name) <;> rfl

/-- A variable that every frame holds alike is the same from the inside. -/
theorem get?_eq_of_valueAt (hdepth : t.callDepth = s.callDepth)
    (h : ∀ i, t.valueAt i name = s.valueAt i name) : t.get? name = s.get? name := by
  have hmap : t.frames.map (·.resolve? name) = s.frames.map (·.resolve? name) := by
    apply List.ext_getElem (by simp only [List.length_map, length_frames, hdepth])
    intro i hi hi'
    rw [List.length_map] at hi hi'
    have hvalue := h i
    rw [valueAt, valueAt, List.getElem?_eq_getElem hi, List.getElem?_eq_getElem hi'] at hvalue
    simpa only [List.getElem_map, Option.bind_some] using hvalue
  have hcompose : ∀ frames : List Frame,
      frames.findSome? (·.resolve? name) = (frames.map (·.resolve? name)).findSome? id := by
    intro frames
    rw [List.findSome?_map]
    rfl
  rw [get?_eq_findSome?, get?_eq_findSome?, hcompose, hmap, ← hcompose]

/-- A found value is replaced where it was found, and only for its own name. -/
theorem find?_assign {key k : String} (frames : List Frame) :
    find? k (assign key value frames) =
      if k = key then (find? key frames).map fun _ => value else find? k frames := by
  induction frames with
  | nil =>
    simp only [assign, find?, Option.map_none, ite_self]
  | cons frame frames ih =>
    rw [assign]
    cases hframe : frame.get? key with
    | some old =>
      have hset : (frame.set key value).get? k = if k = key then some value else frame.get? k :=
        Dict.get?_insert
      by_cases hk : k = key
      · subst hk
        simp [find?, hset, hframe]
      · simp [find?, hset, hk]
    | none =>
      by_cases hk : k = key
      · subst hk
        simp [find?, hframe, ih]
      · simp [find?, ih, hk]

/-- An assignment changes what one variable is from the inside, wherever it is kept. -/
theorem get?_make :
    (s.make name value).get? other =
      if Text.toLower other = Text.toLower name then some value else s.get? other := by
  dsimp only [make]
  cases hfind : find? (Text.toLower name) s.calls with
  | some old =>
    simp only [get?, find?_assign, hfind]
    split <;> simp
  | none =>
    have hset : (s.global.set (Text.toLower name) value).get? (Text.toLower other) =
        if Text.toLower other = Text.toLower name then some value
        else s.global.get? (Text.toLower other) := Dict.get?_insert
    simp only [get?, hset]
    split
    · next hkey => simp [hkey, hfind]
    · rfl

/-- What a name stands for behind an assignment. -/
theorem resolve_make :
    (s.make name value).resolve other =
      if Text.toLower other = Text.toLower name then value else s.resolve other := by
  rw [resolve, get?_make]
  split <;> rfl

end Scopes

end Logo
