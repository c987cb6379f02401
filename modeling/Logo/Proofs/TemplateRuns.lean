import Logo.Proofs.TemplateExit
import Logo.Proofs.TemplateSlot

/-!
# One run for each element

The procedures that run a template on the elements of a sequence are told apart from the runs alone.
`RunsEach` says what the runs give when every element is taken, each run starting in the state that
the one before has left.  A map writes the results down (`map_eq_value_iff`), a filter keeps the
elements with the result true (`filter_eq_value_iff`).

A find makes the same runs as a filter up to its element, and stops there.  So it is settled by the
filter where that succeeds (`firstSelected_of_runsEach`); and it fails only in a run that the filter
makes, too, where the filter fails in the same way (`selected_of_firstSelected_failure`).
-/

namespace Logo

open Library Logo.Action

/-- The runs of a template on elements from the first to the last, with their results. -/
inductive RunsEach (runBlock : Node → Action Node) (template : Node) :
    List Node → List Node → Interpreter → Interpreter → Prop
  | nil {s : Interpreter} : RunsEach runBlock template [] [] s s
  | cons {element result : Node} {elements results : List Node} {s u t : Interpreter}
      (ran : runTemplate runBlock template element s = .value result u)
      (others : RunsEach runBlock template elements results u t) :
      RunsEach runBlock template (element :: elements) (result :: results) s t

/-- The elements whose flags are up, in their order. -/
def chosen {α : Type} : List α → List Bool → List α
  | x :: xs, flag :: flags => if flag then x :: chosen xs flags else chosen xs flags
  | _, _ => []

theorem map_chosen {α β : Type} (f : α → β) (xs : List α) (flags : List Bool) :
    (chosen xs flags).map f = chosen (xs.map f) flags := by
  induction xs generalizing flags with
  | nil => rfl
  | cons x xs ih =>
    cases flags with
    | nil => rfl
    | cons flag flags =>
      cases flag with
      | true => simp [chosen, ih]
      | false => simpa [chosen] using ih flags

namespace Library.Sequence

/-- The part of the sequence whose flags are up. -/
def sift : Sequence → List Bool → Sequence
  | items nodes, flags => items (chosen nodes flags)
  | characters chars, flags => characters (chosen chars flags)

theorem toList_sift (sequence : Sequence) (flags : List Bool) :
    (sequence.sift flags).toList = chosen sequence.toList flags := by
  cases sequence with
  | items nodes => rfl
  | characters chars => exact map_chosen charNode chars flags

theorem join_display_charNode (chars : List Char) :
    String.join ((chars.map charNode).map Node.display) = String.ofList chars := by
  induction chars with
  | nil => rfl
  | cons c chars ih =>
    rw [List.map_cons, List.map_cons, String.join_cons, ih, ← String.toList_inj]
    simp [charNode, Node.display]

/-- What a filter makes of the elements that it keeps is the part of the sequence that they are. -/
theorem keep_chosen (sequence : Sequence) (flags : List Bool) :
    sequence.keep (chosen sequence.toList flags) = (sequence.sift flags).toNode := by
  cases sequence with
  | items nodes => rfl
  | characters chars =>
    rw [toList, ← map_chosen, keep, join_display_charNode]
    rfl

theorem toNode_injective {a b : Sequence} (h : a.toNode = b.toNode) : a = b := by
  cases a with
  | items nodes =>
    cases b with
    | items nodes' =>
      cases h
      rfl
    | characters chars => cases h
  | characters chars =>
    cases b with
    | items nodes => cases h
    | characters chars' =>
      rw [toNode, toNode, Node.quoted.injEq, String.ofList_inj] at h
      rw [h]

end Library.Sequence

section Loops

variable {runBlock : Node → Action Node} {template element : Node} {elements : List Node}
  {s t u : Interpreter}

theorem holds_eq_value_iff {flag : Bool} :
    holds runBlock template element s = .value flag u ↔
      runTemplate runBlock template element s = .value (.boolean flag) u := by
  rw [holds, bind_eq_value_iff]
  constructor
  · rintro ⟨result, v, hran, hbool⟩
    cases result with
    | boolean b =>
      cases hbool
      exact hran
    | _ => cases hbool
  · exact fun hran => ⟨.boolean flag, u, hran, rfl⟩

theorem selected_eq_value_iff {kept : List Node} :
    selected runBlock template elements s = .value kept t ↔
      ∃ flags, RunsEach runBlock template elements (flags.map .boolean) s t ∧
      kept = chosen elements flags := by
  induction elements generalizing s kept with
  | nil =>
    constructor
    · rintro ⟨⟩
      exact ⟨[], .nil, rfl⟩
    · rintro ⟨flags, hruns, rfl⟩
      cases flags with
      | nil =>
        cases hruns
        rfl
      | cons => cases hruns
  | cons element elements ih =>
    rw [selected, bind_eq_value_iff]
    constructor
    · rintro ⟨flag, u, hholds, hrest⟩
      obtain ⟨others, v, hothers, hkept⟩ := bind_eq_value_iff.1 hrest
      cases hkept
      obtain ⟨flags, hruns, rfl⟩ := ih.1 hothers
      exact ⟨flag :: flags, .cons (holds_eq_value_iff.1 hholds) hruns, rfl⟩
    · rintro ⟨flags, hruns, rfl⟩
      cases flags with
      | nil => cases hruns
      | cons flag flags =>
        cases hruns with
        | cons ran others =>
          refine ⟨flag, _, holds_eq_value_iff.2 ran, ?_⟩
          rw [bind_of_value (ih.2 ⟨flags, others, rfl⟩)]
          rfl

theorem resultTexts_eq_value_iff {texts : List String} :
    resultTexts runBlock template elements s = .value texts t ↔
      ∃ results, RunsEach runBlock template elements results s t ∧
      texts = results.map Node.display := by
  induction elements generalizing s texts with
  | nil =>
    constructor
    · rintro ⟨⟩
      exact ⟨[], .nil, rfl⟩
    · rintro ⟨results, hruns, rfl⟩
      cases hruns
      rfl
  | cons element elements ih =>
    rw [resultTexts, bind_eq_value_iff]
    constructor
    · rintro ⟨result, u, hran, hrest⟩
      obtain ⟨others, v, hothers, htexts⟩ := bind_eq_value_iff.1 hrest
      cases htexts
      obtain ⟨results, hruns, rfl⟩ := ih.1 hothers
      exact ⟨result :: results, .cons hran hruns, rfl⟩
    · rintro ⟨results, hruns, rfl⟩
      cases hruns with
      | cons ran others =>
        refine ⟨_, _, ran, ?_⟩
        rw [bind_of_value (ih.2 ⟨_, others, rfl⟩)]
        rfl

/-- Where all runs give truth values, the first element with the result true is found, or none if
there is none. -/
theorem firstSelected_of_runsEach {flags : List Bool}
    (h : RunsEach runBlock template elements (flags.map .boolean) s t) :
    (chosen elements flags = [] → firstSelected runBlock template elements s = .value none t) ∧
      ∀ first ∈ (chosen elements flags).head?,
        ∃ u, firstSelected runBlock template elements s = .value (some first) u := by
  induction elements generalizing s flags with
  | nil =>
    cases flags with
    | nil =>
      cases h
      exact ⟨fun _ => rfl, nofun⟩
    | cons => cases h
  | cons element elements ih =>
    cases flags with
    | nil => cases h
    | cons flag flags =>
      cases h with
      | @cons _ _ _ _ _ u _ ran others =>
        have hholds := holds_eq_value_iff.2 ran
        rw [firstSelected, bind_of_value hholds]
        cases flag with
        | true =>
          refine ⟨fun hnone => absurd hnone (List.cons_ne_nil _ _), ?_⟩
          rintro first ⟨⟩
          exact ⟨u, rfl⟩
        | false => exact ih others

/-- A run that fails before anything is found fails for all that are looked for. -/
theorem selected_of_firstSelected_failure {e : EvalError}
    (h : firstSelected runBlock template elements s = .failure e t) :
    selected runBlock template elements s = .failure e t := by
  induction elements generalizing s with
  | nil => cases h
  | cons element elements ih =>
    rw [firstSelected] at h
    rw [selected]
    cases hholds : holds runBlock template element s with
    | value flag u =>
      rw [bind_of_value hholds] at h ⊢
      cases flag with
      | true => cases h
      | false => exact bind_of_failure (ih h)
    | failure e' u =>
      rw [bind_of_failure hholds] at h ⊢
      cases h
      rfl
    | interrupted i =>
      rw [bind_of_interrupted hholds] at h
      cases h

end Loops

section Procedures

variable {runBlock : Node → Action Node} {template result : Node} {sequence : Sequence}
  {s t : Interpreter}

/-- With a list for a template, an iteration goes through the elements of its sequence. -/
theorem templateInputs_list (block : List Node) (sequence : Sequence) :
    templateInputs (.list block) sequence.toNode = .ok sequence := by
  cases sequence with
  | items nodes => rfl
  | characters chars =>
    show Except.ok (Sequence.characters (String.ofList chars).toList) = _
    rw [String.toList_ofList]

/-- With any other template it fails. -/
theorem iteration_eq_value_iff {loop : Sequence → Action Node} :
    (ofExcept (templateInputs template sequence.toNode) >>= loop) s = .value result t ↔
      (∃ block, template = .list block) ∧ loop sequence s = .value result t := by
  cases template with
  | list block =>
    rw [templateInputs_list]
    exact ⟨fun h => ⟨⟨block, rfl⟩, h⟩, fun h => h.2⟩
  | _ => exact ⟨nofun, fun ⟨⟨_, hblock⟩, _⟩ => nomatch hblock⟩

/-- A filter succeeds when the template gives a truth value for each element, and keeps those with
the value true. -/
theorem filter_eq_value_iff :
    filter runBlock template sequence.toNode s = .value result t ↔
      (∃ block, template = .list block) ∧
        ∃ flags, RunsEach runBlock template sequence.toList (flags.map .boolean) s t ∧
          result = (sequence.sift flags).toNode := by
  rw [filter_eq, iteration_eq_value_iff, bind_eq_value_iff]
  refine and_congr_right fun _ => ⟨?_, ?_⟩
  · rintro ⟨kept, u, hkept, ⟨⟩⟩
    obtain ⟨flags, hruns, rfl⟩ := selected_eq_value_iff.1 hkept
    exact ⟨flags, hruns, sequence.keep_chosen flags⟩
  · rintro ⟨flags, hruns, rfl⟩
    refine ⟨_, t, selected_eq_value_iff.2 ⟨flags, hruns, rfl⟩, ?_⟩
    rw [sequence.keep_chosen flags]
    rfl

/-- A map succeeds when the template gives a value for each element, and collects their print forms.
-/
theorem map_eq_value_iff :
    map runBlock template sequence.toNode s = .value result t ↔
      (∃ block, template = .list block) ∧
        ∃ results, RunsEach runBlock template sequence.toList results s t ∧
          result = sequence.collect (results.map Node.display) := by
  rw [map_eq, iteration_eq_value_iff, bind_eq_value_iff]
  refine and_congr_right fun _ => ⟨?_, ?_⟩
  · rintro ⟨texts, u, htexts, ⟨⟩⟩
    obtain ⟨results, hruns, rfl⟩ := resultTexts_eq_value_iff.1 htexts
    exact ⟨results, hruns, rfl⟩
  · rintro ⟨results, hruns, rfl⟩
    exact ⟨_, t, resultTexts_eq_value_iff.2 ⟨results, hruns, rfl⟩, rfl⟩

/-- Where a filter succeeds, a find gives the first element that the filter keeps; if it keeps none,
the find makes all of its runs. -/
theorem find_of_filter {kept : Sequence}
    (h : filter runBlock template sequence.toNode s = .value kept.toNode t) :
    (kept.toList = [] → find runBlock template sequence.toNode s = .value .nil t) ∧
      ∀ first ∈ kept.toList.head?, ∃ u,
        find runBlock template sequence.toNode s = .value first u := by
  obtain ⟨⟨block, rfl⟩, flags, hruns, hkept⟩ := filter_eq_value_iff.1 h
  have hfind : ∀ {found u}, firstSelected runBlock (.list block) sequence.toList s =
    .value found u →
      find runBlock (.list block) sequence.toNode s = .value (found.getD .nil) u := by
    intro found u hfound
    rw [find, templateInputs_list]
    exact bind_of_value hfound
  obtain ⟨hnone, hfirst⟩ := firstSelected_of_runsEach hruns
  rw [Sequence.toNode_injective hkept, sequence.toList_sift flags]
  refine ⟨fun hempty => hfind (hnone hempty), fun first hmem => ?_⟩
  obtain ⟨u, hfound⟩ := hfirst first hmem
  exact ⟨u, hfind hfound⟩

/-- Where a find fails, a filter fails in the same run. -/
theorem filter_of_find_failure {e : EvalError}
    (h : find runBlock template sequence.toNode s = .failure e t) :
    filter runBlock template sequence.toNode s = .failure e t := by
  rw [find] at h
  rw [filter_eq]
  cases hinputs : templateInputs template sequence.toNode with
  | error e' =>
    rw [hinputs] at h
    cases h
    rfl
  | ok values =>
    rw [hinputs] at h
    have hloop : (firstSelected runBlock template values.toList >>=
        fun found => pure (found.getD .nil)) s = .failure e t := h
    cases hfound : firstSelected runBlock template values.toList s with
    | value found u =>
      rw [bind_of_value hfound] at hloop
      cases hloop
    | failure e' u =>
      rw [bind_of_failure hfound] at hloop
      cases hloop
      show (selected runBlock template values.toList >>= fun kept => pure (values.keep kept)) s = _
      exact bind_of_failure (selected_of_firstSelected_failure hfound)
    | interrupted i =>
      rw [bind_of_interrupted hfound] at hloop
      cases hloop

end Procedures

/-- How the iterations fit together, whatever the template does to the state.  A filter succeeds
when each run of the template gives a truth value, and gives the part of the sequence with the value
true.  If that is not empty, a find from the same state gives its first element, and otherwise `nil`
in the state that the filter has left; where the find fails the filter fails with the same error in
the same state.  A map over a list gives one word for each element, the print form of its run. -/
theorem iterations_agree (runBlock : Node → Action Node) (template : Node) (sequence : Sequence)
    (s : Interpreter) :
    (∀ result t, filter runBlock template sequence.toNode s = .value result t ↔
      (∃ block, template = .list block) ∧
        ∃ flags, RunsEach runBlock template sequence.toList (flags.map .boolean) s t ∧
          result = (sequence.sift flags).toNode) ∧
    (∀ kept t, filter runBlock template sequence.toNode s = .value (Sequence.toNode kept) t →
      (kept.toList = [] → find runBlock template sequence.toNode s = .value .nil t) ∧
        ∀ first ∈ kept.toList.head?, ∃ u,
          find runBlock template sequence.toNode s = .value first u) ∧
    (∀ e t, find runBlock template sequence.toNode s = .failure e t →
      filter runBlock template sequence.toNode s = .failure e t) ∧
    ∀ items result t, map runBlock template (.list items) s = .value result t ↔
      (∃ block, template = .list block) ∧
        ∃ results, RunsEach runBlock template items results s t ∧
          result = .list (results.map (.symbol ·.display)) := by
  refine ⟨fun result t => filter_eq_value_iff, fun kept t => find_of_filter, fun e t =>
    filter_of_find_failure, fun items result t => ?_⟩
  have hmap : map runBlock template (.list items) s =
    map runBlock template (Sequence.items items).toNode s := rfl
  rw [hmap, map_eq_value_iff]
  simp only [Sequence.collect, Sequence.toList, List.map_map, Function.comp_def]

/-- A slot by itself holds for the value true: a filter keeps the second element, and a find gives
it. -/
theorem iterations_agree_slot :
    filter (Evaluate.block (Evaluate.apply 0)) (.list [.symbol "?"])
        (.list [.boolean false, .boolean true]) (.standard []) =
      .value (.list [.boolean true]) (.standard []) ∧
      ∃ u, find (Evaluate.block (Evaluate.apply 0)) (.list [.symbol "?"])
        (.list [.boolean false, .boolean true]) (.standard []) = .value (.boolean true) u := by
  have hslot : ∀ flag,
    runTemplate (Evaluate.block (Evaluate.apply 0)) (.list [.symbol "?"]) (.boolean flag)
      (.standard []) = .value (.boolean flag) (.standard []) :=
    fun flag => Evaluate.runTemplate_slot (.boolean flag) _ _
  obtain ⟨hfilter, hfind, -, -⟩ :=
    iterations_agree (Evaluate.block (Evaluate.apply 0)) (.list [.symbol "?"])
    (.items [.boolean false, .boolean true]) (.standard [])
  have hkept := (hfilter (.list [.boolean true]) (.standard [])).2
    ⟨⟨_, rfl⟩, [false, true], .cons (hslot false) (.cons (hslot true) .nil), rfl⟩
  exact ⟨hkept, (hfind (.items [.boolean true]) _ hkept).2 (.boolean true) rfl⟩

end Logo
