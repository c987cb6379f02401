import Logo.Text.Case
import Mathlib.Data.List.Chain

/-!
# Lower case is reached in one step

Names are put in lower case more than once on their way into the procedure table: when a procedure
is made from its header and again when it is stored.  That makes no difference (`toLower_toLower`):
no character of a text in lower case has another lower case.

For most characters this is a fact about the table of runs: where one run ends up, no run starts.
It is checked run against run, from their ends and steps, rather than character by character.
-/

namespace Logo.Text

/-- The character is its own lower case, wherever it stands. -/
def IsLowered (c : Char) : Prop :=
  c ≠ 'Σ' ∧ lowerChar c = [c]

/-! ## Runs of the table -/

namespace CaseRun

variable {run other : CaseRun} {runs : List CaseRun} {n m : Nat}

/-- Where the shift of a run takes a code point. -/
def shifted (run : CaseRun) (n : Nat) : Nat :=
  ((n : Int) + run.shift).toNat

/-- The images of the first run lie between the steps of the second. -/
def isBetween (run other : CaseRun) : Bool :=
  (run.first == run.last || run.step % other.step == 0) &&
    ((run.shifted run.first : Int) - other.first) % other.step != 0

/-- No image of the run lies on one of the runs, which are in increasing order. -/
def missesAll (run : CaseRun) : List CaseRun → Bool
  | [] => true
  | other :: others =>
    Nat.blt (run.shifted run.last) other.first ||
      ((Nat.blt other.last (run.shifted run.first) || run.isBetween other) && run.missesAll others)

/-- The images of the run are characters, and have no lower case outside of the table. -/
def isSettled (run : CaseRun) : Bool :=
  (-(run.first : Int) ≤ run.shift) &&
    (0x130 < run.shifted run.first ||
      (0x61 ≤ run.shifted run.first && run.shifted run.last ≤ 0x7a) ||
      (0x80 ≤ run.shifted run.first && run.shifted run.last < 0x130)) &&
    (run.shifted run.last < 0xd800 ||
      (0xdfff < run.shifted run.first && run.shifted run.last < 0x110000))

/-- A run of the table has an image for the numbers that it steps through. -/
theorem image?_eq_some_iff : run.image? n = some m ↔
    (run.first ≤ n ∧ n ≤ run.last ∧ (n - run.first) % run.step = 0) ∧ run.shifted n = m := by
  simp [image?, shifted, and_assoc]

/-- Of the runs behind one that starts too late, all start too late. -/
theorem misses_of_missesAll (hsorted : runs.Pairwise fun a b => a.first ≤ b.first)
    (h : run.missesAll runs = true) : ∀ other ∈ runs, run.shifted run.last < other.first ∨
      other.last < run.shifted run.first ∨ run.isBetween other = true := by
  induction runs with
  | nil => exact nofun
  | cons first others ih =>
    rw [List.pairwise_cons] at hsorted
    rw [missesAll, Bool.or_eq_true, Bool.and_eq_true, Bool.or_eq_true, Nat.blt_eq, Nat.blt_eq] at h
    rcases h with hlate | ⟨hmissed, hothers⟩
    · refine List.forall_mem_cons.2 ⟨.inl hlate, fun other hother => .inl ?_⟩
      exact Nat.lt_of_lt_of_le hlate (hsorted.1 other hother)
    · exact List.forall_mem_cons.2 ⟨.inr hmissed, ih hsorted.2 hothers⟩

/-- What is an image in one run is not looked up in another one that misses it. -/
theorem image?_eq_none (hn : run.image? n = some m) (hpositive : -(run.first : Int) ≤ run.shift)
    (hmisses : run.shifted run.last < other.first ∨ other.last < run.shifted run.first ∨
      run.isBetween other = true) : other.image? m = none := by
  obtain ⟨⟨hfirst, hlast, hstep⟩, rfl⟩ := image?_eq_some_iff.1 hn
  rw [Option.eq_none_iff_forall_not_mem]
  intro k hk
  obtain ⟨⟨hfirst', hlast', hstep'⟩, -⟩ := image?_eq_some_iff.1 hk
  rw [isBetween, Bool.and_eq_true, Bool.or_eq_true, beq_iff_eq, beq_iff_eq, bne_iff_ne] at hmisses
  rcases hmisses with hbefore | hbehind | ⟨hsteps, hbetween⟩
  · simp only [shifted] at hbefore hfirst'
    omega
  · simp only [shifted] at hbehind hlast'
    omega
  · -- Both code points are whole steps of the second run away from the starts of their runs.
    apply hbetween
    have hwhole : (other.step : Int) ∣ (n - run.first : Nat) := by
      rcases hsteps with hsingle | hsteps
      · have hzero : n - run.first = 0 := by omega
        rw [hzero]
        exact Int.dvd_zero _
      · exact Int.natCast_dvd_natCast.2
          (Nat.dvd_trans (Nat.dvd_of_mod_eq_zero hsteps) (Nat.dvd_of_mod_eq_zero hstep))
    have hwhole' : (other.step : Int) ∣ (run.shifted n - other.first : Nat) :=
      Int.natCast_dvd_natCast.2 (Nat.dvd_of_mod_eq_zero hstep')
    have hsum : (run.shifted n - other.first : Nat) =
        ((n - run.first : Nat) : Int) + ((run.shifted run.first : Int) - other.first) := by
      simp only [shifted] at hfirst' ⊢
      omega
    rw [hsum] at hwhole'
    exact Int.emod_eq_zero_of_dvd ((Int.dvd_add_right hwhole).1 hwhole')

end CaseRun

theorem lower_sorted : CaseData.lower.Pairwise fun a b => a.first ≤ b.first := by
  have hchain : (CaseData.lower.map CaseRun.first).IsChain (· ≤ ·) := by decide +kernel
  exact List.pairwise_map.1 (List.isChain_iff_pairwise.1 hchain)

theorem lower_isSettled : CaseData.lower.all CaseRun.isSettled = true := by
  decide +kernel

theorem lower_missesAll : (CaseData.lower.all (·.missesAll CaseData.lower)) = true := by
  decide +kernel

/-! ## Characters -/

/-- The lower case of a plain character is its own lower case. -/
theorem isLowered_toLower {c : Char} (hlt : c.toNat < 0x80) : IsLowered c.toLower := by
  have hall : ((List.range 0x80).all fun n => (Char.ofNat n).toLower != 'Σ' &&
      lowerChar (Char.ofNat n).toLower == [(Char.ofNat n).toLower]) = true := by decide
  have hc := List.all_eq_true.1 hall c.toNat (List.mem_range.2 hlt)
  rwa [Char.ofNat_toNat, Bool.and_eq_true, bne_iff_ne, beq_iff_eq] at hc

/-- The images of the table are characters. -/
theorem toNat_image {run : CaseRun} (hrun : run ∈ CaseData.lower) {n m : Nat}
    (himage : run.image? n = some m) : (Char.ofNat m).toNat = m := by
  have hsettled := List.all_eq_true.1 lower_isSettled run hrun
  simp only [CaseRun.isSettled, Bool.and_eq_true, Bool.or_eq_true, decide_eq_true_eq] at hsettled
  obtain ⟨⟨hpositive, -⟩, hscalar⟩ := hsettled
  obtain ⟨⟨hfirst, hlast, -⟩, hshifted⟩ := CaseRun.image?_eq_some_iff.1 himage
  simp only [CaseRun.shifted] at hscalar hshifted
  have hvalid : m.isValidChar := by
    rw [Nat.isValidChar]
    omega
  rw [Char.ofNat, dif_pos hvalid]
  rfl

/-- Where a run of the table ends up, none starts. -/
theorem isLowered_image {n m : Nat} (h : CaseData.lower.findSome? (·.image? n) = some m) :
    IsLowered (Char.ofNat m) := by
  obtain ⟨run, hrun, himage⟩ := List.exists_of_findSome?_eq_some h
  have hsettled := List.all_eq_true.1 lower_isSettled run hrun
  have hmisses :=
    CaseRun.misses_of_missesAll lower_sorted (List.all_eq_true.1 lower_missesAll run hrun)
  simp only [CaseRun.isSettled, Bool.and_eq_true, Bool.or_eq_true, decide_eq_true_eq] at hsettled
  obtain ⟨⟨hpositive, hplace⟩, -⟩ := hsettled
  have hmissed : CaseData.lower.findSome? (·.image? m) = none := by
    refine List.findSome?_eq_none_iff.2 fun other hother => ?_
    exact CaseRun.image?_eq_none himage hpositive (hmisses other hother)
  obtain ⟨⟨hfirst, hlast, -⟩, hshifted⟩ := CaseRun.image?_eq_some_iff.1 himage
  simp only [CaseRun.shifted] at hplace hshifted
  have htoNat := toNat_image hrun himage
  by_cases hlow : m < 0x80
  · -- A small letter.
    have hsmall : ∀ k < 0x7b, 0x61 ≤ k → (Char.ofNat k).toLower = Char.ofNat k := by decide
    have hletter := isLowered_toLower (c := Char.ofNat m) (by omega)
    rwa [hsmall m (by omega) (by omega)] at hletter
  · refine ⟨fun hsigma => ?_, ?_⟩
    · -- The capital sigma lies on a run.
      have hcode : m = 0x3a3 := by rw [← htoNat, hsigma]; rfl
      rw [hcode] at hmissed
      exact absurd hmissed (by decide +kernel)
    · have hdotted : (m == 0x130) = false := by
        rw [beq_eq_false_iff_ne]
        omega
      simp only [lowerChar, htoNat, if_neg hlow, hdotted, hmissed]
      rfl

/-- What the table gives for a character is its own lower case. -/
theorem isLowered_of_mem_lowerChar {c d : Char} (hc : c ≠ 'Σ') (hd : d ∈ lowerChar c) :
    IsLowered d := by
  simp only [lowerChar] at hd
  split at hd
  · next hlt =>
    cases List.mem_singleton.1 hd
    exact isLowered_toLower hlt
  · next hge =>
    split at hd
    · have hdot : IsLowered 'i' ∧ IsLowered (Char.ofNat 0x307) := by
        refine ⟨⟨by decide, by decide⟩, by decide, by decide +kernel⟩
      rcases List.mem_cons.1 hd with rfl | hd
      · exact hdot.1
      · cases List.mem_singleton.1 hd
        exact hdot.2
    · next hdotted =>
      split at hd
      · next m hm =>
        cases List.mem_singleton.1 hd
        exact isLowered_image hm
      · next hnone =>
        cases List.mem_singleton.1 hd
        refine ⟨hc, ?_⟩
        simp only [lowerChar, if_neg hge, if_neg hdotted, hnone]

theorem isLowered_lowerSigma (before after : List Char) : IsLowered (lowerSigma before after) := by
  rw [lowerSigma]
  split <;> exact ⟨by decide, by decide +kernel⟩

/-! ## Texts -/

/-- All characters of a lowered text are their own lower case. -/
theorem isLowered_of_mem_lowerOnto {after lowered cs : List Char}
    (hlowered : ∀ d ∈ lowered, IsLowered d) : ∀ d ∈ lowerOnto after lowered cs, IsLowered d := by
  induction cs generalizing after lowered with
  | nil => exact hlowered
  | cons c before ih =>
    refine ih (List.forall_mem_append.2 ⟨fun d hd => ?_, hlowered⟩)
    split at hd
    · cases List.mem_singleton.1 hd
      exact isLowered_lowerSigma before after
    · next hsigma => exact isLowered_of_mem_lowerChar (fun heq => hsigma (beq_iff_eq.2 heq)) hd

/-- Lowering such a text changes nothing. -/
theorem lowerOnto_of_isLowered {cs : List Char} (h : ∀ c ∈ cs, IsLowered c)
    (after lowered : List Char) : lowerOnto after lowered cs = cs.reverse ++ lowered := by
  induction cs generalizing after lowered with
  | nil => rfl
  | cons c before ih =>
    rw [List.forall_mem_cons] at h
    have hsigma : (c == 'Σ') = false := beq_eq_false_iff_ne.2 h.1.1
    rw [lowerOnto, hsigma, if_neg Bool.false_ne_true, h.1.2, ih h.2, List.reverse_cons,
      List.append_assoc]

/-- A text in lower case is its own lower case. -/
theorem toLower_toLower (s : String) : toLower (toLower s) = toLower s := by
  have hlowered : ∀ c ∈ (toLower s).toList.reverse, IsLowered c := by
    intro c hc
    rw [List.mem_reverse, toLower, String.toList_ofList] at hc
    exact isLowered_of_mem_lowerOnto (fun _ hd => absurd hd List.not_mem_nil) c hc
  calc toLower (toLower s)
      = String.ofList (lowerOnto [] [] (toLower s).toList.reverse) := rfl
    _ = String.ofList (toLower s).toList := by
      rw [lowerOnto_of_isLowered hlowered, List.reverse_reverse, List.append_nil]
    _ = toLower s := String.ofList_toList

end Logo.Text
