/-! # Scanning a pattern for its frames

How many frames reading takes up at a place of a pattern can be told from the text before
it, without reading: a scan from the left that passes over escaped characters keeps count
of the levels that are open and of the bars on each of them. A group opens a level with its
parenthesis and releases it, with the bars on it, with the other one.
-/

namespace PatternAutomata

/-- Where a scan of a pattern stands. -/
@[ext]
structure Scan where
  /-- Whether the next character is escaped. -/
  escaped : Bool := false
  /-- The bars passed on the innermost level. -/
  bars : Nat := 0
  /-- The bars passed on the levels around it, innermost first. -/
  outer : List Nat := []
deriving DecidableEq

namespace Scan

/-- What a character makes of a scan. -/
def step (scan : Scan) (character : Char) : Scan :=
  if scan.escaped then { scan with escaped := false }
  else
    match character, scan.outer with
    | '\\', _ => { scan with escaped := true }
    | '(', outer => { scan with bars := 0, outer := scan.bars :: outer }
    | ')', bars :: outer => { scan with bars, outer }
    | '|', _ => { scan with bars := scan.bars + 1 }
    | _, _ => scan

/-- What a text makes of a scan. -/
def pass (scan : Scan) (text : List Char) : Scan :=
  text.foldl step scan

/-- The frames that are taken up: four for each group that is open, and one for each bar
passed on a level that is open. -/
def frames (scan : Scan) : Nat :=
  scan.bars + scan.outer.foldr (fun bars total => bars + 4 + total) 0

@[simp] theorem pass_nil (scan : Scan) : scan.pass [] = scan := rfl

@[simp] theorem pass_cons (scan : Scan) (character : Char) (text : List Char) :
    scan.pass (character :: text) = (scan.step character).pass text := rfl

theorem pass_append (scan : Scan) (first second : List Char) :
    scan.pass (first ++ second) = (scan.pass first).pass second :=
  List.foldl_append

theorem frames_open (bars : Nat) (outer : List Nat) (escaped escaped' : Bool) :
    frames ⟨escaped, 0, bars :: outer⟩ = frames ⟨escaped', bars, outer⟩ + 4 := by
  simp only [frames, List.foldr_cons]
  omega

theorem frames_bar (bars : Nat) (outer : List Nat) (escaped escaped' : Bool) :
    frames ⟨escaped, bars + 1, outer⟩ = frames ⟨escaped', bars, outer⟩ + 1 := by
  simp only [frames]
  omega

/-- A character takes up no more than the frames of a group. -/
theorem frames_step_le (scan : Scan) (character : Char) :
    (scan.step character).frames ≤ scan.frames + 4 := by
  obtain ⟨escaped, bars, outer⟩ := scan
  unfold step
  split
  · exact Nat.le_add_right _ _
  · split
    · exact Nat.le_add_right _ _
    · exact Nat.le_of_eq (frames_open bars outer _ _)
    · rename_i same
      cases same
      simp only [frames, List.foldr_cons]
      omega
    · simp only [frames]
      omega
    · exact Nat.le_add_right _ _

theorem frames_pass_le (scan : Scan) (text : List Char) :
    (scan.pass text).frames ≤ scan.frames + 4 * text.length := by
  induction text generalizing scan with
  | nil => exact Nat.le_refl _
  | cons character text ih =>
      have one := frames_step_le scan character
      have rest := ih (scan.step character)
      rw [pass_cons, List.length_cons]
      omega

end Scan

/-- The frames that reading takes up behind a text: four for each group that is open there,
and one for each bar passed on a level that is open there. -/
def framesBehind (text : List Char) : Nat :=
  (({} : Scan).pass text).frames

end PatternAutomata
