import Logo.Text.CaseData

/-!
# Upper and lower case of whole texts

Names are compared in lower case, so the case maps are those of full Unicode text: a letter may
widen to several characters, and a capital sigma becomes the final form at the end of a word.  Both
maps work on the list of characters; `toLower` carries the characters already passed, because the
final sigma depends on what stands on either side of it.
-/

namespace Logo.Text

/-- The image of a code point that lies on the run. -/
def CaseRun.image? (run : CaseRun) (n : Nat) : Option Nat :=
  if run.first ≤ n && n ≤ run.last && (n - run.first) % run.step == 0 then
    some ((n : Int) + run.shift).toNat
  else
    none

/-- Whether one of the inclusive ranges holds the code point. -/
def inRanges (ranges : List (Nat × Nat)) (n : Nat) : Bool :=
  ranges.any fun range => range.1 ≤ n && n ≤ range.2

/-- The lower case of one character, away from any context. -/
def lowerChar (c : Char) : List Char :=
  let n := c.toNat
  if n < 0x80 then
    [c.toLower]
  else if n == 0x130 then
    ['i', Char.ofNat 0x307]
  else
    match CaseData.lower.findSome? (·.image? n) with
    | some m => [Char.ofNat m]
    | none => [c]

/-- The upper case of one character. -/
def upperChar (c : Char) : List Char :=
  let n := c.toNat
  if n < 0x80 then
    [c.toUpper]
  else
    match CaseData.widening.lookup n with
    | some ms => ms.map Char.ofNat
    | none =>
      match CaseData.upper.findSome? (·.image? n) with
      | some m => [Char.ofNat m]
      | none => [c]

/-- Whether the first character that is not skipped belongs to a cased letter. -/
def meetsCased (cs : List Char) : Bool :=
  match cs.dropWhile fun c => inRanges CaseData.ignorable c.toNat with
  | [] => false
  | c :: _ => inRanges CaseData.cased c.toNat

/-- The lower case of a capital sigma: final when a letter stands before it and none after it. -/
def lowerSigma (before after : List Char) : Char :=
  if meetsCased before && !meetsCased after then 'ς' else 'σ'

/-- Works through a text from its end.  The argument holds the characters still to come, the nearest
first; `after` holds those behind them, and `lowered` the lower case of `after`. -/
def lowerOnto (after lowered : List Char) : List Char → List Char
  | [] => lowered
  | c :: before =>
    let image := if c == 'Σ' then [lowerSigma before after] else lowerChar c
    lowerOnto (c :: after) (image ++ lowered) before

/-- The lower case of a text. -/
def toLower (s : String) : String :=
  String.ofList (lowerOnto [] [] s.toList.reverse)

/-- The upper case of a text. -/
def toUpper (s : String) : String :=
  String.ofList (s.toList.flatMap upperChar)

end Logo.Text
