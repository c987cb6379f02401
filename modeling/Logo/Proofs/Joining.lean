import Logo.Proofs.Boundaries
import Logo.Proofs.ExitRequest
import Logo.Proofs.WholeLines
import Mathlib.Data.List.Basic

/-!
# Programs joined by a newline

Outside of brackets nothing reaches over a newline: no token does, no expression, no header and no
alias directive, and a minus behind it does not touch what stands before it.  A program that is read
to its end is outside of brackets there, and to the reader the end of the text and the end of a line
are the same.  So with a newline between them, two programs are read as one is read after the other
(`readText_joined`), as long as the second one has no headers and no aliases, which would be entered
before the first one is read.

The statements of the second program are then evaluated behind those of the first one.  Without a
running body nothing can stop the evaluation between them, since no exit can be requested
(`Evaluate.statements_append`).
-/

namespace Logo

/-! ## A newline behind a text -/

namespace TokenRule

open Pattern

variable {c : Char} {cs : List Char}

/-- In code a newline belongs to no token before it, except that a return before it does to its own.
-/
theorem longest_code_newline (h : c :: cs ≠ ['\r']) :
    longest code (c :: cs ++ ['\n']) = longest code (c :: cs) := by
  refine longest_congr fun rule hrule => munch_append_of_forall fun v hv hnewline hmatch => h ?_
  rcases List.prefix_cons_iff.1 hnewline with rfl | ⟨v, rfl, hnil⟩
  · exact absurd rfl hv
  rw [List.prefix_nil.1 hnil] at hmatch
  have hrule := eq_newline_of_mem_code hrule (hmatch.mayContain '\n' (by simp))
  subst hrule
  obtain ⟨s, t, heq, hs, ht⟩ := matches_seq_iff.1 hmatch
  obtain ⟨d, rfl, -⟩ := matches_one_iff.1 ht
  have hsame : c :: cs = s := (List.append_inj' heq rfl).1
  subst hsame
  rcases matches_either_iff.1 hs with hreturn | hempty
  · obtain ⟨d, heq, hd⟩ := matches_one_iff.1 hreturn
    rw [heq, beq_iff_eq.1 hd]
  · cases matches_empty_iff.1 hempty

theorem longest_list_newline (hsolid : ∃ d ∈ c :: cs, Text.isBlank d = false) :
    longest list (c :: cs ++ ['\n']) = longest list (c :: cs) := by
  obtain ⟨d, hd, hsolid⟩ := hsolid
  refine longest_congr fun rule hrule => munch_append_of_forall fun v hv hnewline => ?_
  rcases List.prefix_cons_iff.1 hnewline with rfl | ⟨v, rfl, -⟩
  · exact absurd rfl hv
  · exact not_matches_list hrule (by simp) ⟨d, List.mem_append_left _ hd, hsolid⟩

end TokenRule

namespace Token

open TokenRule

variable {depth : Nat} {cs : List Char}

/-- Outside of brackets a newline is a token of its own, but for a return before it. -/
theorem exists_pieces_newline (h : depthBehindPieces depth (pieces depth cs) = 0) :
    ∃ front back text, pieces depth cs = front ++ back ∧ (∀ p ∈ back, p.isIdle = true) ∧
      pieces depth (cs ++ ['\n']) = front ++ [⟨.newline, text⟩] := by
  induction hlen : cs.length using Nat.strongRecOn generalizing cs depth with
  | ind len ih =>
    cases cs with
    | nil =>
      rw [pieces_nil] at h
      obtain rfl : depth = 0 := h
      have hlongest : longest (atDepth 0) ['\n'] = (.newline, 1) := by decide +kernel
      refine ⟨[], [], "\n", pieces_nil, List.forall_mem_nil _, ?_⟩
      rw [List.nil_append, pieces_cons 0 hlongest, List.drop_nil, pieces_nil]
      rfl
    | cons c cs =>
      obtain ⟨kind, n, hlongest⟩ : ∃ kind n, longest (atDepth depth) (c :: cs) = (kind, n) :=
        ⟨_, _, rfl⟩
      have hcut : longest (atDepth depth) (c :: cs ++ ['\n']) = longest (atDepth depth) (c :: cs) →
          ∃ front back text, pieces depth (c :: cs) = front ++ back ∧
          (∀ p ∈ back, p.isIdle = true) ∧
            pieces depth (c :: cs ++ ['\n']) = front ++ [⟨.newline, text⟩] := by
        intro happend
        have hshorter : (cs.drop (n - 1)).length < len := by
          rw [← hlen, List.length_drop, List.length_cons]
          omega
        rw [pieces_cons depth hlongest, depthBehindPieces_cons] at h
        obtain ⟨front, back, text, hpieces, hidle, hnewline⟩ := ih _ hshorter h rfl
        refine ⟨⟨kind, String.ofList (c :: cs.take (n - 1))⟩ :: front, back, text, ?_, hidle, ?_⟩
        · rw [pieces_cons depth hlongest, hpieces]
          rfl
        · rw [pieces_cons_append hlongest happend, hnewline]
          rfl
      cases depth with
      | zero =>
        by_cases hreturn : c :: cs = ['\r']
        · have hblank : longest (atDepth 0) ['\r'] = (.blank, 1) := by decide +kernel
          have hnewline : longest (atDepth 0) ['\r', '\n'] = (.newline, 2) := by decide +kernel
          refine ⟨[], [⟨.blank, "\r"⟩], "\r\n", ?_, List.forall_mem_singleton.2 rfl, ?_⟩
          · rw [hreturn, pieces_cons 0 hblank, List.drop_nil, pieces_nil]
            rfl
          · rw [hreturn]
            exact (pieces_cons 0 hnewline).trans (by simp)
        · exact hcut (longest_code_newline hreturn)
      | succ depth =>
        by_cases hsolid : ∃ d ∈ c :: cs, Text.isBlank d = false
        · exact hcut (longest_list_newline hsolid)
        · -- A blank rest would leave the brackets open.
          have hall : ∀ d ∈ c :: cs, Text.isBlank d = true := fun d hd => by
            rw [← Bool.not_eq_false]
            exact fun hfalse => hsolid ⟨d, hd, hfalse⟩
          have hown : pieces (depth + 1) (c :: cs ++ []) =
              ⟨.blank, String.ofList (c :: cs)⟩ :: pieces (depth + 1) [] :=
            pieces_list_blank (List.cons_ne_nil c cs) hall nofun
          rw [List.append_nil, pieces_nil] at hown
          rw [hown] at h
          cases h

theorem filter_place_of_isIdle {position : Position} {ps : List Piece}
    (h : ∀ p ∈ ps, p.isIdle = true) : (place position ps).filter (!·.isIdle) = [] := by
  induction ps generalizing position with
  | nil => rfl
  | cons p ps ih =>
    rw [List.forall_mem_cons] at h
    have hidle : Token.isIdle ⟨p.kind, p.text, position⟩ = true := h.1
    rw [place, List.filter_cons, hidle]
    exact ih h.2

end Token

namespace ClosedLines

open Token Lexeme

variable {text : String}

/-- Outside of brackets, a newline behind a text is one more token. -/
theorem newline (h : depthBehindPieces 0 (pieces 0 text.toList) = 0) :
    ClosedLines (text ++ "\n") ∧
      ∃ t, t.kind = .newline ∧ keptTokens (text ++ "\n") = keptTokens text ++ [t] := by
  obtain ⟨front, back, newline, hpieces, hidle, hnewline⟩ := exists_pieces_newline h
  have hlist : (text ++ "\n").toList = text.toList ++ ['\n'] := String.toList_append
  refine ⟨⟨?_, ?_⟩,
    ⟨.newline, newline, Position.start.advance (front.flatMap (·.text.toList))⟩, rfl, ?_⟩
  · rw [hlist]
    intro c hc
    rw [List.getLast?_concat] at hc
    cases hc
    rfl
  · have hback : depthBehindPieces (depthBehindPieces 0 front) back =
        depthBehindPieces 0 front := by
      rw [← depthBehindPieces_filter, List.filter_eq_nil_iff.2 (by simpa using hidle)]
      rfl
    rw [hpieces, depthBehindPieces_append, hback] at h
    rw [hlist, hnewline, depthBehindPieces_append, h]
    rfl
  · rw [keptTokens, hlist, scan_eq_place, hnewline, place_append, List.filter_append, keptTokens,
      scan_eq_place,
      hpieces, place_append, List.filter_append, filter_place_of_isIdle hidle, List.append_nil]
    rfl

/-- The lexemes of two texts with a newline between them: those of the first one as they are, the
newline, and those of the second one further down. -/
theorem exists_ofText_joined {first : String} (h : depthBehindPieces 0 (pieces 0 first.toList) = 0)
    (second : String) :
    ∃ newline rest, ofText (first ++ "\n" ++ second) = inText first ++ newline :: rest ∧
      newline.kind = .newline ∧ Alike (ofText second) rest := by
  obtain ⟨hclosed, t, ht, htokens⟩ := newline h
  have hsplit : ∀ us, ofTokensAfter none (keptTokens first ++ (t :: us)) =
      inText first ++ ofTokensAfter ((keptTokens first).getLast?.or none) (t :: us) := by
    intro us
    refine ofTokensAfter_append ?_
    rintro b - u ⟨⟩
    simp [touchesNumber, ht]
  -- The first text keeps its places ...
  obtain ⟨more, hmore⟩ : ∃ more, ofText (first ++ "\n" ++ second) = inText first ++ more := by
    obtain ⟨lines, hjoined, -⟩ := hclosed.keptTokens_append second
    rw [ofText_eq_inText, inText, hjoined, htokens, List.append_assoc, List.singleton_append,
      hsplit, List.append_assoc]
    exact ⟨_, rfl⟩
  -- ... and what follows it is told up to places.
  have halike := hclosed.alike_ofText_append second
  rw [inText, htokens, hsplit, hmore, List.append_assoc] at halike
  have hrest : Alike more
      (ofTokensAfter ((keptTokens first).getLast?.or none) [t] ++ ofText second) := by
    rw [Alike, List.map_append, List.map_append] at halike
    exact List.append_cancel_left halike
  obtain ⟨newline, rest, rfl, hnewline, hsecond⟩ := hrest.symm.exists_cons
  exact ⟨newline, rest, hmore, (kind_eq_of_unplaced_eq hnewline).trans ht, hsecond⟩

end ClosedLines

namespace Reader

open Lexeme

variable {table table' entered : ProcedureTable} {l newline closing : Lexeme}
  {ls used rest rest' : List Lexeme} {steps log steps' log' : List Step}

/-! ## Headers and aliases across the end of a text -/

/-- No header goes on behind a lexeme that is neither a name nor a parameter. -/
theorem heading?_append (hname : (ahead rest).kind ≠ .symbol)
    (hparam : (ahead rest).kind ≠ .reference) (hname' : (ahead rest').kind ≠ .symbol)
    (hparam' : (ahead rest').kind ≠ .reference) :
    heading? (l :: (ls ++ rest')) = heading? (l :: (ls ++ rest)) := by
  have hparams : ∀ ms : List Lexeme, (ahead ms).kind ≠ .reference → ∀ ls : List Lexeme,
      (ls ++ ms).takeWhile (fun m => m.kind == .reference) =
      ls.takeWhile (fun m => m.kind == .reference) := by
    intro ms hms ls
    have hnone : ms.takeWhile (fun m => m.kind == .reference) = [] := by
      cases ms with
      | nil => rfl
      | cons m ms => exact List.takeWhile_cons_of_neg fun h => hms (beq_iff_eq.1 h)
    induction ls with
    | nil => exact hnone
    | cons m ls ih => rw [List.cons_append, List.takeWhile_cons, List.takeWhile_cons, ih]
  cases ls with
  | nil =>
    have hfails : ∀ ms : List Lexeme, (ahead ms).kind ≠ .symbol → heading? (l :: ms) = none := by
      intro ms hms
      rw [heading?, List.tail_cons, header, expect, if_neg hms]
      rfl
    rw [List.nil_append, List.nil_append, hfails rest hname, hfails rest' hname']
  | cons name ls =>
    by_cases hsymbol : name.kind = .symbol
    · simp only [heading?, List.cons_append, List.tail_cons, header, expect_cons hsymbol, bind,
        Except.bind, hparams rest hparam, hparams rest' hparam']
      rfl
    · have hfails : ∀ ms, heading? (l :: name :: ms) = none := by
        intro ms
        have hahead : (ahead (name :: ms)).kind ≠ .symbol := hsymbol
        rw [heading?, List.tail_cons, header, expect, if_neg hahead]
        rfl
      rw [List.cons_append, List.cons_append, hfails, hfails]

/-- Behind the lexemes of a text the headers are the same, whether the text ends or a line does. -/
theorem map_heading?_openings (hname : (ahead rest).kind ≠ .symbol)
    (hparam : (ahead rest).kind ≠ .reference) (hname' : (ahead rest').kind ≠ .symbol)
    (hparam' : (ahead rest').kind ≠ .reference) (hnone : openings rest = [])
    (hnone' : openings rest' = []) :
    (openings (ls ++ rest')).map heading? = (openings (ls ++ rest)).map heading? := by
  induction ls with
  | nil => rw [List.nil_append, List.nil_append, hnone, hnone']
  | cons l ls ih =>
    rw [List.cons_append, List.cons_append, openings, openings]
    split
    · rw [List.map_cons, List.map_cons, heading?_append hname hparam hname' hparam', ih]
    · exact ih

theorem directives_concat (hquote : l.kind ≠ .quote) (ls : List Lexeme) :
    directives (ls ++ [l]) = directives ls := by
  induction ls with
  | nil => rfl
  | cons m ls ih =>
    have hfirst : aliasDirective? (m :: (ls ++ [l])) = aliasDirective? (m :: ls) := by
      match ls with
      | [] => rfl
      | [_] => exact if_neg fun h => hquote h.2.2.2
      | _ :: _ :: _ => rfl
    rw [List.cons_append, directives, directives, hfirst, ih]

/-! ## Runs in front of another rest -/

/-- What depends on the statements of steps is the same for the same statements. -/
theorem filterMap_of_statement {β : Type} {f : Step → Option β}
    (hf : ∀ step step' : Step, step'.statement = step.statement → f step' = f step)
    (h : steps'.map Step.statement = steps.map Step.statement) :
    steps'.filterMap f = steps.filterMap f := by
  induction steps generalizing steps' with
  | nil => rw [List.map_eq_nil_iff.1 h]
  | cons step steps ih =>
    obtain ⟨step', steps', rfl, hstep, hsteps⟩ := List.map_eq_cons_iff.1 h
    rw [List.filterMap_cons, List.filterMap_cons, hf step step' hstep, ih hsteps]

theorem Step.expression?_of_statement {step step' : Step} (h : step'.statement = step.statement) :
    step'.expression? = step.expression? := by
  rw [expression?, h, expression?]

theorem Step.node?_of_statement (keep : Bool) {step step' : Step}
    (h : step'.statement = step.statement) : step'.node? keep = step.node? keep := by
  rw [node?, h, node?]

theorem complete_append (h : Header) (line : Nat) (nodes : List Node)
    (used rest rest' : List Lexeme) :
    complete h line nodes (used ++ rest') rest' = complete h line nodes (used ++ rest) rest := by
  simp only [complete, List.length_append, Nat.add_sub_cancel, List.take_left']

/-- A run is the same in front of anything that stops phrases alike. -/
theorem Run.extend (h : Run table ls steps log table' rest) :
    ∃ used, ls = used ++ rest ∧ ∀ rest', StopsAlike rest rest' →
      ∃ steps' log', Run table (used ++ rest') steps' log' table' rest' ∧
        steps'.map Step.statement = steps.map Step.statement := by
  induction h with
  | done => exact ⟨[], rfl, fun rest' _ => ⟨[], [], .done, rfl⟩⟩
  | @blank table table' l ls rest steps log newline _ ih =>
    obtain ⟨used, rfl, hothers⟩ := ih
    refine ⟨l :: used, rfl, fun rest' hrest => ?_⟩
    obtain ⟨steps', log', hrun, hsteps⟩ := hothers rest' hrest
    exact ⟨_, _, .blank newline hrun, congrArg (_ :: ·) hsteps⟩
  | @expression table table' ls mid rest node steps log first _ ih =>
    obtain ⟨more, rfl, hothers⟩ := ih
    obtain ⟨used, rfl, hfirst⟩ := first.transport (List.Subset.refl _) (fun _ => rfl)
    refine ⟨used ++ more, (List.append_assoc _ _ _).symm, fun rest' hrest => ?_⟩
    obtain ⟨steps', log', hrun, hsteps⟩ := hothers rest' hrest
    rw [List.append_assoc]
    exact ⟨_, _, .expression (hfirst used _ .refl (.append .refl hrest)) hrun,
      congrArg (_ :: ·) hsteps⟩
  | @definition table table₁ table' e ls inner mid rest h line p bodySteps bodyLog steps log opening
      _ closing complete_eq _ ihBody ih =>
    obtain ⟨o, name, params, newline, rfl, hopening⟩ := headerLine_eq_ok_iff.1 opening
    obtain ⟨within, rfl, hbody⟩ := ihBody
    obtain ⟨more, rfl, hothers⟩ := ih
    refine ⟨o :: name :: (params ++ newline :: (within ++ e :: more)), by simp,
      fun rest' hrest => ?_⟩
    obtain ⟨bodySteps', bodyLog', hrunBody, hbodySteps⟩ := hbody (e :: (more ++ rest')) (.cons rfl)
    obtain ⟨steps', log', hrun, hsteps⟩ := hothers rest' hrest
    have hopen : headerLine (o :: name :: (params ++ newline :: (within ++ e :: (more ++ rest')))) =
        .ok ((h, line), within ++ e :: (more ++ rest')) :=
      headerLine_eq_ok_iff.2 ⟨o, name, params, newline, rfl, hopening⟩
    have hcomplete : p = complete h line (bodySteps'.filterMap Step.expression?)
        (o :: name :: (params ++ newline :: (within ++ e :: (more ++ rest')))) (more ++ rest') := by
      have hsame := complete_append h line (bodySteps.filterMap Step.expression?)
        (o :: name :: (params ++ newline :: (within ++ [e]))) (more ++ rest) (more ++ rest')
      rw [complete_eq, filterMap_of_statement (fun _ _ => Step.expression?_of_statement) hbodySteps]
      simpa using hsame.symm
    refine ⟨_, _, by simpa using Run.definition hopen hrunBody closing hcomplete hrun, ?_⟩
    exact congrArg (_ :: ·) hsteps

/-- Without the word `to` nothing is defined. -/
theorem Run.of_forall_ne (h : Run table ls steps log table' rest)
    (hto : ∀ l ∈ ls, l.kind ≠ .toWord) :
    table' = table ∧ ∀ step ∈ steps, step.procedure? = none := by
  induction h with
  | done => exact ⟨rfl, nofun⟩
  | blank _ _ ih =>
    obtain ⟨htable, hsteps⟩ := ih (List.forall_mem_cons.1 hto).2
    exact ⟨htable, List.forall_mem_cons.2 ⟨rfl, hsteps⟩⟩
  | expression first _ ih =>
    obtain ⟨used, rfl, -⟩ := first.exists_used
    obtain ⟨htable, hsteps⟩ := ih (List.forall_mem_append.1 hto).2
    exact ⟨htable, List.forall_mem_cons.2 ⟨rfl, hsteps⟩⟩
  | definition opening =>
    obtain ⟨o, name, params, newline, rfl, hopening, -⟩ := headerLine_eq_ok_iff.1 opening
    exact absurd hopening (hto o List.mem_cons_self)

theorem forall_kind_ne_of_alike (h : Alike ls rest) {kind : TokenClass}
    (hls : ∀ l ∈ ls, l.kind ≠ kind) : ∀ l ∈ rest, l.kind ≠ kind := by
  intro l hl
  have hmem : l.unplaced ∈ ls.map unplaced := h ▸ List.mem_map_of_mem hl
  obtain ⟨m, hm, hunplaced⟩ := List.mem_map.1 hmem
  rw [kind_eq_of_unplaced_eq hunplaced]
  exact hls m hm

theorem filterMap_node?_of_forall (keep : Bool) (h : ∀ step ∈ steps, step.procedure? = none) :
    steps.filterMap (Step.node? keep) = steps.filterMap Step.expression? := by
  refine List.filterMap_congr fun step hstep => ?_
  have hnone := h step hstep
  obtain ⟨_, s, _⟩ := step
  cases s with
  | blank | expression => rfl
  | definition => cases hnone

/-- Statements without definitions are the same wherever they stand. -/
theorem Run.of_alike (h : Run table ls steps log table' rest) (heof : (ahead rest).kind = .eof)
    (hto : ∀ l ∈ ls, l.kind ≠ .toWord) (halike : Alike ls ls') :
    ∃ steps' log' rest', Run table ls' steps' log' table rest' ∧ (ahead rest').kind = .eof ∧
      ∀ keep, steps'.filterMap (Step.node? keep) = steps.filterMap (Step.node? keep) := by
  obtain ⟨-, hnone⟩ := h.of_forall_ne hto
  obtain ⟨used, rfl, hothers⟩ := h.transport
  obtain ⟨used', rest', rfl, hused, hrest⟩ := halike.exists_append
  obtain ⟨steps', log', t', hrun, hsteps, -⟩ :=
    hothers table used' rest' (fun _ => rfl) hused (.of_alike hrest)
  obtain ⟨rfl, hnone'⟩ := hrun.of_forall_ne (forall_kind_ne_of_alike halike hto)
  refine ⟨steps', log', rest', hrun, (kind_ahead_of_alike hrest).trans heof, fun keep => ?_⟩
  rw [filterMap_node?_of_forall keep hnone', filterMap_node?_of_forall keep hnone,
    filterMap_expression?_eq hsteps]

/-! ## Reading joined programs -/

theorem Entered.congr (hheadings : (openings ls').map heading? = (openings ls).map heading?)
    (hdirectives : directives ls' = directives ls) :
    Entered table ls' entered ↔ Entered table ls entered := by
  have hall : ∀ ls : List Lexeme, (∀ start ∈ openings ls, (heading? start).isSome = true) ↔
      ∀ heading ∈ (openings ls).map heading?, heading.isSome = true := fun ls => by
    rw [List.forall_mem_map]
  have hfilter (ls : List Lexeme) :
      headings ls = ((openings ls).map heading?).filterMap id := by
    rw [List.filterMap_map]
    rfl
  rw [Entered, Entered, hall, hall, hfilter, hfilter, hheadings, hdirectives]

/-- A text without headers and aliases enters nothing. -/
theorem entered_iff_eq (hto : ∀ l ∈ ls, l.kind ≠ .toWord) (halias : directives ls = []) :
    Entered table ls entered ↔ entered = table := by
  have hnone : openings ls = [] := by
    rw [← List.append_nil ls, openings_append_of_forall_ne hto]
    rfl
  rw [Entered, headings, hnone, halias]
  exact ⟨fun h => (Option.some.inj h.2).symm, fun h =>
    ⟨List.forall_mem_nil _, congrArg some h.symm⟩⟩

/-- A program that is read to its end closes the brackets it opens. -/
theorem Run.exists_eof {text : String} (h : Run table (ofText text) steps log table' rest)
    (heof : (ahead rest).kind = .eof) : ∃ closing, rest = [closing] ∧ closing.kind = .eof ∧
      ofText text = inText text ++ [closing] ∧ depthBehind 0 (inText text) = 0 := by
  have hcross := h.crosses (lexed_ofText text)
  obtain ⟨used, hused, hdepth, hreadable⟩ := hcross.depth
  obtain ⟨closing, hclosing, hlast⟩ : ∃ closing : Lexeme, closing.kind = .eof ∧
      ofText text = inText text ++ [closing] :=
    ⟨⟨Token.closing (keptTokens text), false⟩, kind_closing _, ofText_eq_inText text⟩
  have hsplit := hlast.symm.trans hused
  cases rest with
  | nil =>
    -- The closing lexeme is no part of a statement.
    rw [List.append_nil] at hsplit
    have hmem := hreadable closing (by rw [← hsplit]; simp)
    rw [hclosing] at hmem
    cases hmem
  | cons l rest =>
    cases (hcross.lexed (lexed_ofText text)).eq_nil heof
    obtain ⟨rfl, hl⟩ := List.append_inj' hsplit rfl
    cases hl
    exact ⟨closing, rfl, hclosing, hlast, hdepth⟩

section Joined

variable {keep : Bool} {first second : String} {nodes₁ : List Node}

/-- The first program is read as if it stood alone, and the second one follows behind a newline. -/
theorem exists_run_joined (hread : readText keep table first = (.ok nodes₁, table'))
    (hto : ∀ l ∈ ofText second, l.kind ≠ .toWord) (halias : directives (ofText second) = []) :
    ∃ entered steps log rest,
      (∀ {e}, Entered table (ofText (first ++ "\n" ++ second)) e ↔ e = entered) ∧
      Run entered (ofText (first ++ "\n" ++ second)) steps log table' rest ∧
      Alike (ofText second) rest ∧ nodes₁ = steps.filterMap (Step.node? keep) := by
  obtain ⟨entered, steps, log, rest, hentered, hrun, heof, rfl⟩ := program_eq_ok_iff.1 hread
  obtain ⟨closing, rfl, hclosing, hfirst, hdepth⟩ := hrun.exists_eof heof
  obtain ⟨newline, rest, hjoined, hnewline, hrest⟩ :=
    ClosedLines.exists_ofText_joined ((depthBehindPieces_pieces first).trans hdepth) second
  obtain ⟨used, hused, hextend⟩ := hrun.extend
  cases List.append_cancel_right (hfirst.symm.trans hused)
  have hstops : StopsAlike [closing] (newline :: rest) := by
    refine .of_isOperator (fun hparen => ?_) ?_
    · cases hclosing.symm.trans hparen
    · rw [show (ahead (newline :: rest)).kind = .newline from hnewline]
      rfl
  obtain ⟨steps', log', hrun', hsteps⟩ := hextend (newline :: rest) hstops
  have hblank : Run table' (newline :: rest) [⟨newline :: rest, .blank, rest⟩]
    [⟨newline :: rest, .blank, rest⟩]
      table' rest := .blank hnewline .done
  rw [hjoined]
  refine ⟨entered, _, _, rest, ?_, hrun'.append hblank, hrest, ?_⟩
  · have hnone : ∀ l ∈ newline :: rest, l.kind ≠ .toWord :=
      List.forall_mem_cons.2 ⟨by rw [hnewline]; decide, forall_kind_ne_of_alike hrest hto⟩
    have hopenings : openings (newline :: rest) = [] := by
      rw [← List.append_nil (newline :: rest), openings_append_of_forall_ne hnone]
      rfl
    have hheadings : (openings (inText first ++ newline :: rest)).map heading? =
        (openings (inText first ++ [closing])).map heading? := by
      refine map_heading?_openings ?_ ?_ ?_ ?_ ?_ hopenings
      · exact fun h => by cases hclosing.symm.trans h
      · exact fun h => by cases hclosing.symm.trans h
      · exact fun h => by cases hnewline.symm.trans h
      · exact fun h => by cases hnewline.symm.trans h
      · rw [openings_cons_of_ne (by rw [hclosing]; decide), openings]
    have hdirectives :
        directives (inText first ++ newline :: rest) = directives (inText first ++ [closing]) := by
      have hline : EndsLine (inText first ++ [newline]) := by
        intro l hl
        rw [List.getLast?_concat] at hl
        cases hl
        exact hnewline
      rw [List.append_cons, directives_append_lines hline,
        directives_concat (by rw [hnewline]; decide), directives_concat (by rw [hclosing]; decide),
        directives_of_alike hrest, halias, List.append_nil]
    intro e
    rw [Entered.congr hheadings hdirectives, ← hfirst]
    exact ⟨fun h => h.unique hentered, fun h => h ▸ hentered⟩
  · rw [List.filterMap_append,
      filterMap_of_statement (fun _ _ => Step.node?_of_statement keep) hsteps]
    simp [Step.node?]

/-- What is read of joined programs is what is read of the second one behind the first one. -/
theorem readText_joined {nodes : List Node} {t : ProcedureTable}
    (hread : readText keep table first = (.ok nodes₁, table'))
    (hto : ∀ l ∈ ofText second, l.kind ≠ .toWord) (halias : directives (ofText second) = []) :
    readText keep table (first ++ "\n" ++ second) = (.ok nodes, t) ↔
      t = table' ∧ ∃ nodes₂, readText keep table' second = (.ok nodes₂, t) ∧
      nodes = nodes₁ ++ nodes₂ := by
  obtain ⟨entered, steps₁, log₁, rest, hentered, hrun₁, hrest, rfl⟩ :=
    exists_run_joined hread hto halias
  constructor
  · intro hjoined
    obtain ⟨e, steps, log, ending, hentered', hrun, heof, rfl⟩ := program_eq_ok_iff.1 hjoined
    cases hentered.1 hentered'
    obtain ⟨steps₂, log₂, rfl, rfl, hrun₂⟩ := hrun₁.exists_others hrun fun hopens => by
      rw [heof] at hopens
      cases hopens
    have hto' := forall_kind_ne_of_alike hrest hto
    obtain ⟨rfl, -⟩ := hrun₂.of_forall_ne hto'
    obtain ⟨steps', log', ending', hrun', heof', hnodes⟩ := hrun₂.of_alike heof hto' hrest.symm
    refine ⟨rfl, _, program_eq_ok_iff.2 ⟨t, steps', log', ending', ?_, hrun', heof', rfl⟩, ?_⟩
    · exact (entered_iff_eq hto halias).2 rfl
    · rw [List.filterMap_append, hnodes]
  · rintro ⟨rfl, nodes₂, hsecond, rfl⟩
    obtain ⟨e, steps₂, log₂, ending, hentered', hrun₂, heof, rfl⟩ := program_eq_ok_iff.1 hsecond
    cases (entered_iff_eq hto halias).1 hentered'
    obtain ⟨steps', log', ending', hrun', heof', hnodes⟩ := hrun₂.of_alike heof hto hrest
    refine program_eq_ok_iff.2
      ⟨entered, _, _, ending', hentered.2 rfl, hrun₁.append hrun', heof', ?_⟩
    rw [List.filterMap_append, hnodes]

/-- A text without headers and aliases leaves the table as it is. -/
theorem table_of_readText {nodes : List Node}
    (hread : readText keep table second = (.ok nodes, table'))
    (hto : ∀ l ∈ ofText second, l.kind ≠ .toWord) (halias : directives (ofText second) = []) :
    table' = table := by
  obtain ⟨e, steps, log, rest, hentered, hrun, -, -⟩ := program_eq_ok_iff.1 hread
  cases (entered_iff_eq hto halias).1 hentered
  exact (hrun.of_forall_ne hto).1

end Joined

end Reader

/-! ## Evaluating joined programs -/

namespace Evaluate

open Logo.Action

variable {apply : String → List Node → Action Node} {s t : Interpreter}

theorem text_of_ok {source : String} {nodes : List Node} {procedures : ProcedureTable}
    (h : Reader.readText false s.procedures source = (.ok nodes, procedures)) :
    text apply source s = statements apply nodes .none { s with procedures } :=
  bind_of_value (read_of_ok h)

theorem exists_of_text_eq_value {source : String} {value : Node}
    (h : text apply source s = .value value t) :
    ∃ nodes procedures, Reader.readText false s.procedures source = (.ok nodes, procedures) := by
  obtain ⟨nodes, u, hread, -⟩ := bind_eq_value_iff.1 h
  unfold read at hread
  split at hread
  · next nodes procedures hok => exact ⟨nodes, procedures, hok⟩
  · cases hread

/-- Without a running body statements follow one another whatever they are, since none can request
an exit. -/
theorem statements_append (happly : ∀ name inputs, (apply name inputs).Effective)
    {nodes : List Node} {result value : Node} (hs : s.Guarded) (hbodies : s.activeBodies = 0)
    (h : statements apply nodes result s = .value value t) (others : List Node) :
    statements apply (nodes ++ others) result s = statements apply others value t := by
  induction nodes generalizing s result with
  | nil =>
    cases h
    rfl
  | cons statement nodes ih =>
    rw [statements] at h
    obtain ⟨first, u, hfirst, h⟩ := bind_eq_value_iff.1 h
    have hnode : (node apply statement).Effective :=
      @node_congr _ apply apply .effective happly statement
    have hkept := (hnode s u (leaves_of_value hfirst)).exitKept
    have hbodies' : u.activeBodies = 0 := hkept.activeBodies.trans hbodies
    have hdown : u.exitRequested = false := by
      rw [← Bool.not_eq_true]
      intro hraised
      have := (hkept.guarded hs).now hraised
      omega
    rw [view_bind, hdown] at h
    rw [List.cons_append, statements, bind_of_value hfirst, view_bind, hdown]
    exact ih (hkept.guarded hs) hbodies' h

/-- Behind statements that give a value, the value before them is forgotten. -/
theorem statements_of_ne_nil {nodes : List Node} (h : nodes ≠ []) (result result' : Node) :
    statements apply nodes result = statements apply nodes result' := by
  cases nodes with
  | nil => exact absurd rfl h
  | cons => rfl

/-- A program with the statements of two programs is evaluated as one after the other. -/
theorem text_joined {n : Nat} {first second joined : String} {nodes₁ nodes₂ : List Node}
    {value : Node} (hs : Reachable s) (hbodies : s.activeBodies = 0)
    (hrun : text (Evaluate.apply n) first s = .value value t)
    (hfirst : Reader.readText false s.procedures first = (.ok nodes₁, t.procedures))
    (hsecond : Reader.readText false t.procedures second = (.ok nodes₂, t.procedures))
    (hjoined : Reader.readText false s.procedures joined = (.ok (nodes₁ ++ nodes₂), t.procedures))
    (hne : nodes₂ ≠ []) : text (Evaluate.apply n) joined s = text (Evaluate.apply n) second t := by
  have hread : Effect s { s with procedures := t.procedures } := by
    have heffect := Effect.read s false first
    rwa [hfirst] at heffect
  rw [text_of_ok hfirst] at hrun
  calc text (Evaluate.apply n) joined s
      = statements (Evaluate.apply n) (nodes₁ ++ nodes₂) .none
          { s with procedures := t.procedures } :=
        text_of_ok hjoined
    _ = statements (Evaluate.apply n) nodes₂ value t :=
        statements_append (apply_effective n) (hs.evaluated hread).guarded hbodies hrun nodes₂
    _ = statements (Evaluate.apply n) nodes₂ .none t := by rw [statements_of_ne_nil hne value .none]
    _ = text (Evaluate.apply n) second t := (text_of_ok hsecond).symm

end Evaluate

open Reader Lexeme

/-- Joining programs by a newline is running them one after the other.  If the second one has no
header and no alias, the joined program can be read just when the second one can behind the first
one; its statements are those of both, and the table is that which the first one leaves.  And if no
body runs, the first program gives a value, its statements leave the table alone and the second one
has statements, then evaluating the joined program ends as evaluating the second one does in the
state that the first one leaves. -/
theorem joined_by_newline (first : String) {second : String}
    (hto : ∀ l ∈ ofText second, l.kind ≠ .toWord) (halias : directives (ofText second) = []) :
    (∀ (keep : Bool) (table table₁ : ProcedureTable) (nodes₁ : List Node),
      readText keep table first = (.ok nodes₁, table₁) →
      (readText keep table (first ++ "\n" ++ second)).1.isOk =
        (readText keep table₁ second).1.isOk ∧
      ∀ nodes₂ table₂, readText keep table₁ second = (.ok nodes₂, table₂) →
        readText keep table (first ++ "\n" ++ second) = (.ok (nodes₁ ++ nodes₂), table₁)) ∧
    ∀ (n : Nat) (s t : Interpreter) (value : Node) (nodes₂ : List Node),
      Reachable s → s.activeBodies = 0 →
      (Operation.eval first).run n s = .value value t →
      t.procedures = (readText false s.procedures first).2 →
      (readText false t.procedures second).1 = .ok nodes₂ → nodes₂ ≠ [] →
      (Operation.eval (first ++ "\n" ++ second)).run n s = (Operation.eval second).run n t := by
  have hjoin : ∀ (keep : Bool) (table table₁ table₂ : ProcedureTable) (nodes₁ nodes₂ : List Node),
      readText keep table first = (.ok nodes₁, table₁) →
      readText keep table₁ second = (.ok nodes₂, table₂) →
      table₂ = table₁ ∧
        readText keep table (first ++ "\n" ++ second) = (.ok (nodes₁ ++ nodes₂), table₁) := by
    intro keep table table₁ table₂ nodes₁ nodes₂ hfirst hsecond
    cases table_of_readText hsecond hto halias
    exact ⟨rfl, (readText_joined hfirst hto halias).2 ⟨rfl, nodes₂, hsecond, rfl⟩⟩
  constructor
  · intro keep table table₁ nodes₁ hfirst
    refine ⟨?_, fun nodes₂ table₂ hsecond =>
      (hjoin keep table table₁ table₂ nodes₁ nodes₂ hfirst hsecond).2⟩
    rw [Bool.eq_iff_iff]
    constructor
    · intro hok
      obtain ⟨nodes, t, hread⟩ := exists_of_isOk hok
      obtain ⟨rfl, nodes₂, hsecond, -⟩ := (readText_joined hfirst hto halias).1 hread
      rw [hsecond]
      rfl
    · intro hok
      obtain ⟨nodes₂, table₂, hsecond⟩ := exists_of_isOk hok
      rw [(hjoin keep table table₁ table₂ nodes₁ nodes₂ hfirst hsecond).2]
      rfl
  · intro n s t value nodes₂ hs hbodies hrun htable hsecond hne
    obtain ⟨nodes₁, table₁, hfirst⟩ := Evaluate.exists_of_text_eq_value hrun
    rw [hfirst] at htable
    obtain rfl : t.procedures = table₁ := htable
    have hsecond : readText false t.procedures second =
        (.ok nodes₂, (readText false t.procedures second).2) :=
      Prod.ext hsecond rfl
    obtain ⟨hsame, hjoined⟩ := hjoin false _ _ _ nodes₁ nodes₂ hfirst hsecond
    rw [hsame] at hsecond
    exact Evaluate.text_joined hs hbodies hrun hfirst hsecond hjoined hne

/-- The integer that a program is read as, if it is one integer. -/
def soleInteger? : Except ReadError (List Node) → Option Int64
  | .ok [.integer k] => some k
  | _ => none

theorem eq_of_soleInteger? {result : Except ReadError (List Node)} {k : Int64}
    (h : soleInteger? result = some k) : result = .ok [.integer k] := by
  unfold soleInteger? at h
  split at h
  · cases h
    rfl
  · cases h

/-- A program that ends with a comment, before one that starts with a minus. -/
def commentedText : String :=
  "to f :x\nend\n2 ; ["

def negativeText : String :=
  "-1"

theorem joined_by_newline_negative :
    ∃ table₁ t, readText false .empty commentedText = (.ok [.integer 2], table₁) ∧
      readText false .empty (commentedText ++ "\n" ++ negativeText) =
      (.ok [.integer 2, .integer (-1)], table₁) ∧
      (Operation.eval commentedText).run 0 .initial = .value (.integer 2) t ∧
      (Operation.eval (commentedText ++ "\n" ++ negativeText)).run 0 .initial =
        (Operation.eval negativeText).run 0 t := by
  have hto : ∀ l ∈ ofText negativeText, l.kind ≠ .toWord := by
    rw [Lexeme.ofText_eq]
    decide +kernel
  have halias : directives (ofText negativeText) = [] := by
    rw [Lexeme.ofText_eq]
    decide +kernel
  have hsecond : (readText false (readText false Interpreter.initial.procedures commentedText).2
    negativeText).1 =
      .ok [.integer (-1)] := by
    refine eq_of_soleInteger? ?_
    simp only [readText, Lexeme.ofText_eq]
    decide +kernel
  obtain ⟨table₁, hfirst⟩ : ∃ table₁,
      readText false Interpreter.initial.procedures commentedText = (.ok [.integer 2], table₁) := by
    refine ⟨_, Prod.ext (eq_of_soleInteger? ?_) rfl⟩
    rw [readText, Lexeme.ofText_eq]
    decide +kernel
  rw [hfirst] at hsecond
  obtain ⟨hread, heval⟩ := joined_by_newline commentedText hto halias
  have hrun : (Operation.eval commentedText).run 0 .initial =
      .value (.integer 2) { Interpreter.initial with procedures := table₁ } := by
    rw [Operation.run, Evaluate.text_of_ok hfirst]
    rfl
  exact ⟨table₁, _, hfirst, (hread false _ _ _ hfirst).2 _ _ (Prod.ext hsecond rfl), hrun,
    heval 0 _ _ _ _ (.fresh _ _ _) rfl hrun (by rw [hfirst]) hsecond
      (List.cons_ne_nil _ _)⟩

end Logo
