import Mathlib.Data.List.DropRight
import Logo.Proofs.WholeLines

/-!
# Where tokens stand

Cutting a text into tokens loses nothing: put together, the texts of the tokens are the text again
(`Token.flatMap_text_scan`).  A token knows where it stands.  Its line counts the newlines before it
and its column the bytes behind the last of them (`Position.advance_start`), however many lines a
token takes, as blanks inside of brackets may.

No token is empty, so places grow along the tokens (`Token.pairwise_tokenize`), with and without
blanks and comments.  The closing token stands on the line where the last one starts, and still
comes behind it.
-/

namespace Logo

namespace Position

variable {p q r : Position} {c : Char} {cs : List Char}

/-- The place comes first in the text. -/
def Before (p q : Position) : Prop :=
  p.line < q.line ∨ p.line = q.line ∧ p.column < q.column

instance (p q : Position) : Decidable (p.Before q) :=
  inferInstanceAs (Decidable (_ ∨ _))

theorem Before.trans (hpq : p.Before q) (hqr : q.Before r) : p.Before r := by
  unfold Before at *
  omega

theorem before_next (p : Position) (c : Char) : p.Before (p.next c) := by
  have hsize := c.utf8Size_pos
  rw [next]
  split
  · exact .inl (Nat.lt_succ_self _)
  · refine .inr ⟨rfl, ?_⟩
    dsimp only
    omega

/-- Characters lead on, whichever they are. -/
theorem before_advance (p : Position) (h : cs ≠ []) : p.Before (p.advance cs) := by
  induction cs generalizing p with
  | nil => exact absurd rfl h
  | cons c cs ih =>
    have hstep : p.advance (c :: cs) = (p.next c).advance cs := rfl
    rw [hstep]
    cases cs with
    | nil => exact before_next p c
    | cons d ds => exact (before_next p c).trans (ih (p.next c) (List.cons_ne_nil d ds))

/-- A place is told from the characters before it: the newlines among them and the bytes behind the
last one. -/
theorem advance_start (cs : List Char) : start.advance cs =
    ⟨1 + cs.count '\n', (String.ofList (cs.rtakeWhile (· != '\n'))).utf8ByteSize⟩ := by
  -- The last character decides whether the column starts again.
  induction cs using List.reverseRecOn with
  | nil => rfl
  | append_singleton cs c ih =>
    have hlast : (start.advance cs).advance [c] = (start.advance cs).next c := rfl
    rw [advance_append, hlast, ih, next, List.rtakeWhile_concat, List.count_append]
    by_cases hc : c = '\n'
    · subst hc
      rfl
    · have hcount : [c].count '\n' = 0 := List.count_eq_zero_of_not_mem (by simpa using Ne.symm hc)
      have hbne : (c != '\n') = true := by simpa using hc
      rw [if_neg hc, if_pos hbne, hcount, String.ofList_append, String.utf8ByteSize_append]
      congr 2
      simp

end Position

namespace Token

open TokenRule

variable {position : Position} {ps : List Piece} {ts before after : List Token} {t : Token}

theorem kind_ne_eof (depth : Nat) {c : Char} {cs : List Char} {n : Nat} :
    longest (atDepth depth) (c :: cs) ≠ (.eof, n) := by
  intro h
  cases depth with
  | zero => exact kind_ne_eof_of_longest h
  | succ depth => rcases kind_of_longest_list h with hkind | hkind | hkind | hkind <;> cases hkind

/-- No token but the closing one is empty or closes a text. -/
theorem of_mem_scan (depth : Nat) (position : Position) (cs : List Char) :
    ∀ t ∈ scan depth position cs, t.text ≠ "" ∧ t.kind ≠ .eof := by
  fun_induction scan depth position cs with
  | case1 => exact fun t ht => absurd ht List.not_mem_nil
  | case2 depth position c rest kind length hlongest text ih =>
    rw [List.forall_mem_cons]
    refine ⟨⟨by simp [text, ← String.toList_inj], ?_⟩, ih⟩
    rintro rfl
    exact kind_ne_eof depth hlongest

theorem pieces_ne_empty (depth : Nat) (cs : List Char) : ∀ p ∈ pieces depth cs, p.text ≠ "" := by
  intro p hp
  obtain ⟨t, ht, rfl⟩ := List.mem_map.1 hp
  exact (of_mem_scan depth .start cs t ht).1

/-- A token stands behind the texts of the tokens before it. -/
theorem position_of_place_eq (h : place position ps = before ++ t :: after) :
    t.position = position.advance (before.flatMap (·.text.toList)) := by
  induction ps generalizing position before with
  | nil => exact absurd h (by simp [place])
  | cons p ps ih =>
    cases before with
    | nil =>
      cases h
      rfl
    | cons b before =>
      rw [place, List.cons_append, List.cons.injEq] at h
      obtain ⟨rfl, hrest⟩ := h
      rw [ih hrest, List.flatMap_cons, Position.advance_append]

theorem before_of_mem_place {p : Position} (h : p.Before position) (hps : ∀ p ∈ ps, p.text ≠ "") :
    ∀ t ∈ place position ps, p.Before t.position := by
  induction ps generalizing position with
  | nil => exact fun t ht => absurd ht List.not_mem_nil
  | cons q ps ih =>
    rw [List.forall_mem_cons] at hps
    have hnext := position.before_advance (mt String.toList_eq_nil_iff.1 hps.1)
    rw [place, List.forall_mem_cons]
    exact ⟨h, ih (h.trans hnext) hps.2⟩

/-- Places grow along tokens that are not empty. -/
theorem pairwise_place (hps : ∀ p ∈ ps, p.text ≠ "") :
    (place position ps).Pairwise fun t u => t.position.Before u.position := by
  induction ps generalizing position with
  | nil => exact .nil
  | cons p ps ih =>
    rw [List.forall_mem_cons] at hps
    have hnext := position.before_advance (mt String.toList_eq_nil_iff.1 hps.1)
    exact .cons (before_of_mem_place hnext hps.2) (ih hps.2)

/-- The closing token comes behind all others, even if the last one goes on for some lines. -/
theorem before_closing (hne : ∀ t ∈ ts, t.text ≠ "")
    (hts : ts.Pairwise fun t u => t.position.Before u.position) :
    ∀ t ∈ ts, t.position.Before (closing ts).position := by
  rcases List.eq_nil_or_concat ts with rfl | ⟨front, last, rfl⟩
  · exact fun t ht => absurd ht List.not_mem_nil
  rw [List.concat_eq_append] at hne hts ⊢
  have hclosing : (closing (front ++ [last])).position = ⟨last.position.line, last.endColumn⟩ := by
    simp [closing]
  have hlast : last.position.Before (closing (front ++ [last])).position := by
    have hsize : 0 < last.text.utf8ByteSize := by
      rw [Nat.pos_iff_ne_zero, ne_eq, String.utf8ByteSize_eq_zero_iff]
      exact hne last (by simp)
    rw [hclosing]
    exact .inr ⟨rfl, Nat.lt_add_of_pos_right hsize⟩
  rw [List.pairwise_append] at hts
  intro t ht
  rcases List.mem_append.1 ht with hfront | hend
  · exact (hts.2.2 t hfront last (List.mem_singleton_self last)).trans hlast
  · rw [List.mem_singleton.1 hend]
    exact hlast

/-- Places grow strictly along the tokens of a text. -/
theorem pairwise_tokenize (text : String) (discard : Bool) :
    (tokenize text discard).Pairwise fun t u => t.position.Before u.position := by
  have hscan : (scan 0 .start text.toList).Pairwise fun t u => t.position.Before u.position := by
    rw [scan_eq_place]
    exact pairwise_place (pieces_ne_empty 0 text.toList)
  have hkept := hscan.filter fun t => !discard || !t.isIdle
  have hne : ∀ t ∈ (scan 0 .start text.toList).filter fun t => !discard || !t.isIdle, t.text ≠ "" :=
    fun t ht => (of_mem_scan 0 .start text.toList t (List.mem_filter.1 ht).1).1
  rw [tokenize]
  refine List.pairwise_append.2 ⟨hkept, List.pairwise_singleton _ _, fun t ht u hu => ?_⟩
  rw [List.mem_singleton.1 hu]
  exact before_closing hne hkept t ht

/-- Without discarding, the tokens are those that were cut and the closing one. -/
theorem tokenize_false (text : String) : tokenize text false =
    scan 0 .start text.toList ++ [closing (scan 0 .start text.toList)] := by
  simp [tokenize]

theorem text_closing (ts : List Token) : (closing ts).text = "" := by
  rw [closing]
  split <;> rfl

theorem flatMap_text_scan (depth : Nat) (position : Position) (cs : List Char) :
    (scan depth position cs).flatMap (·.text.toList) = cs := by
  have hpieces := flatMap_pieces depth cs
  rw [← map_piece_scan depth position cs, List.flatMap_map] at hpieces
  exact hpieces

theorem length_le_flatMap (hne : ∀ t ∈ ts, t.text ≠ "") :
    ts.length ≤ (ts.flatMap (·.text.toList)).length := by
  induction ts with
  | nil => exact Nat.le_refl 0
  | cons t ts ih =>
    rw [List.forall_mem_cons] at hne
    have hpos : 0 < t.text.toList.length :=
      List.length_pos_iff.2 (mt String.toList_eq_nil_iff.1 hne.1)
    have hrest := ih hne.2
    rw [List.flatMap_cons, List.length_append, List.length_cons]
    omega

/-- The number of bytes that tokens take up. -/
def byteCount : List Token → Nat
  | [] => 0
  | t :: ts => t.text.utf8ByteSize + byteCount ts

theorem byteCount_eq (ts : List Token) :
    byteCount ts = (String.ofList (ts.flatMap (·.text.toList))).utf8ByteSize := by
  induction ts with
  | nil => rfl
  | cons t ts ih =>
    rw [byteCount, ih, List.flatMap_cons, String.ofList_append, String.utf8ByteSize_append,
      String.ofList_toList]

/-- The bytes of some tokens at the front of a text end between two of its characters. -/
theorem isValid_of_flatMap_append {text : String} {rest : List Char}
    (h : ts.flatMap (·.text.toList) ++ rest = text.toList) :
    String.Pos.Raw.IsValid text ⟨byteCount ts⟩ := by
  refine String.Pos.Raw.isValid_iff_exists_append.2
    ⟨String.ofList (ts.flatMap (·.text.toList)), String.ofList rest, ?_, ?_⟩
  · rw [← String.ofList_append, h, String.ofList_toList]
  · rw [byteCount_eq]
    rfl

/-- The tokens of a text are pieces of it one after the other, none of them empty, so there are at
most as many as characters, and each one knows its place: the newlines before it and the bytes
behind the last of these.  Whether or not blanks and comments are left out, the places grow from
each token to the next, up to the closing one. -/
theorem tokenize_lossless (text : String) :
    String.join ((tokenize text false).map (·.text)) = text ∧
    (tokenize text false).length ≤ text.length + 1 ∧
    (∃ tokens last, tokenize text false = tokens ++ [last] ∧ last.kind = .eof ∧
      ∀ before t after, tokens = before ++ t :: after →
        t.kind ≠ .eof ∧ t.text ≠ "" ∧
        String.Pos.Raw.IsValid text ⟨byteCount (before ++ [t])⟩ ∧
        t.position.line = 1 + (before.flatMap (·.text.toList)).count '\n' ∧
        t.position.column =
          (String.ofList ((before.flatMap (·.text.toList)).rtakeWhile (· != '\n'))).utf8ByteSize) ∧
    ∀ discard, ∃ tokens last, tokenize text discard = tokens ++ [last] ∧ last.kind = .eof ∧
      (tokens ++ [last]).Pairwise fun t u => t.position.Before u.position := by
  have hchars := flatMap_text_scan 0 .start text.toList
  have hmem := of_mem_scan 0 .start text.toList
  refine ⟨?_, ?_, ⟨_, _, tokenize_false text, Lexeme.kind_closing _, ?_⟩,
    fun discard => ⟨_, _, rfl, Lexeme.kind_closing _, pairwise_tokenize text discard⟩⟩
  · rw [← String.toList_inj, String.toList_join, tokenize_false, List.flatMap_map,
      List.flatMap_append, hchars]
    simp [text_closing]
  · have hlength := length_le_flatMap fun t ht => (hmem t ht).1
    rw [hchars, String.length_toList] at hlength
    rw [tokenize_false, List.length_append, List.length_singleton]
    omega
  · intro before t after htokens
    obtain ⟨htext, hkind⟩ := hmem t (by rw [htokens]; simp)
    have hposition : t.position = Position.start.advance (before.flatMap (·.text.toList)) := by
      rw [scan_eq_place] at htokens
      exact position_of_place_eq htokens
    rw [Position.advance_start] at hposition
    have hsplit : (before ++ [t]).flatMap (·.text.toList) ++ after.flatMap (·.text.toList) =
        text.toList := by
      rw [← hchars, htokens, ← List.flatMap_append, List.append_assoc, List.singleton_append]
    exact ⟨hkind, htext, isValid_of_flatMap_append hsplit, by rw [hposition], by rw [hposition]⟩

-- The blank behind `é` ends a line inside of brackets; so does the last one, and the closing token
-- stays on its line.
example : (tokenize "[é \n x \n" false).map (·.position) =
    [⟨1, 0⟩, ⟨1, 1⟩, ⟨1, 3⟩, ⟨2, 1⟩, ⟨2, 2⟩, ⟨2, 4⟩] := by
  rw [tokenize_false, scan_eq_scanUpTo (Nat.le_refl _)]
  decide +kernel

end Token

end Logo
