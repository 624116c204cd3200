import PatternAutomata.Pattern.Grammar
import PatternAutomata.Pattern.Scan

/-! # Scanning what trees write down

A scan comes out of the text of a term where it went in, and out of the text of a regex with
no more than bars added on the level (`Tree.pass_text`). At no place inside are more frames
taken up than the tree counts for its deepest one (`Tree.within_text`). Where a scan passes a
bound for the first time (`Scan.Passes`) is told from what it comes from.
-/

namespace PatternAutomata

namespace Scan

variable (bars : Nat) (outer : List Nat)

theorem step_plain {character : Char} (plain : character ∉ Tree.reserved) :
    step ⟨false, bars, outer⟩ character = ⟨false, bars, outer⟩ := by
  simp only [Tree.reserved, List.mem_cons, List.not_mem_nil, or_false, not_or] at plain
  unfold step
  split
  · rfl
  · split
    · exact absurd rfl plain.2.2.2
    · exact absurd rfl plain.1
    · exact absurd rfl plain.2.1
    · exact absurd rfl plain.2.2.1
    · rfl

theorem pass_escaped (character : Char) :
    pass ⟨false, bars, outer⟩ ['\\', character] = ⟨false, bars, outer⟩ := rfl

theorem step_open : step ⟨false, bars, outer⟩ '(' = ⟨false, 0, bars :: outer⟩ := rfl

theorem step_close (inner : Nat) :
    step ⟨false, inner, bars :: outer⟩ ')' = ⟨false, bars, outer⟩ := rfl

theorem step_bar : step ⟨false, bars, outer⟩ '|' = ⟨false, bars + 1, outer⟩ := rfl

/-- A scan of a text stays within a bound at every place of it. -/
def Within (scan : Scan) (text : List Char) (bound : Nat) : Prop :=
  ∀ place, (scan.pass (text.take place)).frames ≤ bound

variable {scan : Scan} {first second text : List Char} {bound : Nat}

theorem within_nil (begins : scan.frames ≤ bound) : scan.Within [] bound := by
  intro place
  rw [List.take_nil]
  exact begins

theorem Within.cons {character : Char} (begins : scan.frames ≤ bound)
    (within : (scan.step character).Within text bound) :
    scan.Within (character :: text) bound := by
  intro place
  cases place with
  | zero => exact begins
  | succ place => exact within place

theorem Within.append (inFirst : scan.Within first bound)
    (inSecond : (scan.pass first).Within second bound) : scan.Within (first ++ second) bound := by
  intro place
  rcases Nat.le_total place first.length with before | behind
  · rw [List.take_append_of_le_length before]
    exact inFirst place
  · rw [List.take_append, List.take_of_length_le behind, pass_append]
    exact inSecond _

theorem Within.behind (within : scan.Within text bound) : (scan.pass text).frames ≤ bound := by
  have last := within text.length
  rw [List.take_length] at last
  exact last

theorem Within.mono {more : Nat} (within : scan.Within text bound) (le : bound ≤ more) :
    scan.Within text more :=
  fun place => Nat.le_trans (within place) le

/-- A scan passes a bound behind a text, and nowhere before. The frames `around` are taken up
besides those that the scan counts, and the bound begins where the scan does. -/
structure Passes (scan : Scan) (text : List Char) (around bound : Nat) : Prop where
  behind : scan.frames + bound < (scan.pass text).frames + around
  before : ∀ place < text.length,
    (scan.pass (text.take place)).frames + around ≤ scan.frames + bound

namespace Passes

variable {around : Nat}

theorem ofFew (few : bound < around) : scan.Passes [] around bound :=
  ⟨Nat.add_lt_add_left few _, fun _ inside => absurd inside (Nat.not_lt_zero _)⟩

/-- The frames that a character takes up are around what stands behind it. -/
theorem cons {character : Char} {next : Scan} (passes : next.Passes text around bound)
    (steps : scan.step character = next) (taken : next.frames = scan.frames + around) :
    scan.Passes (character :: text) 0 bound := by
  obtain ⟨behind, before⟩ := passes
  rw [taken] at behind
  refine ⟨?_, fun place inside => ?_⟩
  · rw [pass_cons, steps]
    omega
  · cases place with
    | zero => exact Nat.le_add_right _ _
    | succ place =>
        have earlier := before place (Nat.lt_of_succ_lt_succ inside)
        rw [taken] at earlier
        rw [List.take_succ_cons, pass_cons, steps]
        omega

/-- What a text that leaves a scan as it is does not pass is passed behind it. -/
theorem append (passes : scan.Passes second 0 bound)
    (within : scan.Within first (scan.frames + bound)) (same : scan.pass first = scan) :
    scan.Passes (first ++ second) 0 bound := by
  refine ⟨?_, fun place inside => ?_⟩
  · rw [pass_append, same]
    exact passes.behind
  · rcases Nat.le_total place first.length with before | behind
    · rw [List.take_append_of_le_length before]
      exact within place
    · rw [List.length_append] at inside
      rw [List.take_append, List.take_of_length_le behind, pass_append, same]
      exact passes.before _ (by omega)

theorem shift (passes : scan.Passes text 0 bound) (more : Nat) :
    scan.Passes text more (bound + more) := by
  refine ⟨?_, fun place inside => ?_⟩
  · have behind := passes.behind
    omega
  · have before := passes.before place inside
    omega

end Passes

end Scan

namespace Tree

/-- **A scan leaves the text of a tree on the level on which it came**, with the bars of
the tree added if it is a regex. -/
theorem pass_text {rule : Rule} {tree : Tree} (fits : tree.Fits rule) (bars : Nat)
    (outer : List Nat) :
    ∃ more, (⟨false, bars, outer⟩ : Scan).pass tree.text = ⟨false, bars + more, outer⟩ ∧
      (rule ≠ .regex → more = 0) := by
  induction fits generalizing bars outer with
  | literal plain => exact ⟨0, Scan.step_plain bars outer plain, fun _ => rfl⟩
  | escaped => exact ⟨0, Scan.pass_escaped bars outer _, fun _ => rfl⟩
  | group _ ih =>
      obtain ⟨more, inside, _⟩ := ih 0 (bars :: outer)
      refine ⟨0, ?_, fun _ => rfl⟩
      rw [text, List.cons_append, Scan.pass_cons, Scan.step_open, Scan.pass_append, inside]
      rfl
  | ofBase _ ih =>
      obtain ⟨more, same, none⟩ := ih bars outer
      exact ⟨more, same, fun _ => none (by decide)⟩
  | star _ ih =>
      obtain ⟨more, same, none⟩ := ih bars outer
      refine ⟨more, ?_, fun _ => none (by decide)⟩
      rw [text, Scan.pass_append, same]
      rfl
  | ofFactor _ ih =>
      obtain ⟨more, same, none⟩ := ih bars outer
      exact ⟨more, same, fun _ => none (by decide)⟩
  | concat _ _ _ firstIH secondIH =>
      obtain ⟨_, first, none⟩ := firstIH bars outer
      cases none (by decide)
      obtain ⟨_, second, none⟩ := secondIH bars outer
      cases none (by decide)
      refine ⟨0, ?_, fun _ => rfl⟩
      rw [text, Scan.pass_append, first]
      exact second
  | ofTerm _ ih =>
      obtain ⟨more, same, _⟩ := ih bars outer
      exact ⟨more, same, fun regex => absurd rfl regex⟩
  | alt _ _ firstIH secondIH =>
      obtain ⟨_, first, none⟩ := firstIH bars outer
      cases none (by decide)
      obtain ⟨more, second, _⟩ := secondIH (bars + 1) outer
      refine ⟨1 + more, ?_, fun regex => absurd rfl regex⟩
      rw [text, Scan.pass_append, first, Nat.add_zero, Scan.pass_cons, Scan.step_bar, second,
        Nat.add_assoc]

/-- Behind any other part of the grammar a scan stands where it stood before. -/
theorem pass_text_of_ne {rule : Rule} {tree : Tree} (fits : tree.Fits rule)
    (part : rule ≠ .regex) (bars : Nat) (outer : List Nat) :
    (⟨false, bars, outer⟩ : Scan).pass tree.text = ⟨false, bars, outer⟩ := by
  obtain ⟨_, same, none⟩ := pass_text fits bars outer
  cases none part
  exact same

/-- **Nowhere in a text are more frames taken up** than the tree counts. -/
theorem within_text {rule : Rule} {tree : Tree} (fits : tree.Fits rule) (bars : Nat)
    (outer : List Nat) :
    (⟨false, bars, outer⟩ : Scan).Within tree.text
      ((⟨false, bars, outer⟩ : Scan).frames + tree.frames) := by
  induction fits generalizing bars outer with
  | literal plain =>
      refine .cons (Nat.le_add_right _ _) (Scan.within_nil ?_)
      rw [Scan.step_plain bars outer plain]
      exact Nat.le_add_right _ _
  | escaped => exact .cons (Nat.le_add_right _ _) (.cons (Nat.le_add_right _ _)
      (Scan.within_nil (Nat.le_add_right _ _)))
  | group fits ih =>
      have inside := ih 0 (bars :: outer)
      obtain ⟨more, behind, _⟩ := pass_text fits 0 (bars :: outer)
      rw [Scan.frames_open bars outer false false, Nat.add_right_comm, Nat.add_assoc] at inside
      have closing := inside.behind
      rw [behind] at closing
      rw [text, List.cons_append, frames]
      refine .cons (Nat.le_add_right _ _) (inside.append ?_)
      rw [behind]
      refine .cons closing (Scan.within_nil ?_)
      rw [Scan.step_close]
      exact Nat.le_add_right _ _
  | ofBase _ ih => exact ih bars outer
  | star fits ih =>
      refine (ih bars outer).append ?_
      rw [pass_text_of_ne fits (by decide)]
      exact .cons (Nat.le_add_right _ _) (Scan.within_nil (Nat.le_add_right _ _))
  | ofFactor _ ih => exact ih bars outer
  | concat fits _ _ firstIH secondIH =>
      refine ((firstIH bars outer).mono ?_).append ?_
      · exact Nat.add_le_add_left (Nat.le_max_left _ _) _
      · rw [pass_text_of_ne fits (by decide)]
        exact (secondIH bars outer).mono (Nat.add_le_add_left (Nat.le_max_right _ _) _)
  | ofTerm _ ih => exact ih bars outer
  | alt fits _ firstIH secondIH =>
      refine ((firstIH bars outer).mono ?_).append ?_
      · exact Nat.add_le_add_left (Nat.le_max_left _ _) _
      · have later := secondIH (bars + 1) outer
        rw [Scan.frames_bar bars outer false false, Nat.add_right_comm, Nat.add_assoc] at later
        rw [pass_text_of_ne fits (by decide)]
        refine .cons (Nat.le_add_right _ _) ?_
        rw [Scan.step_bar]
        exact later.mono (Nat.add_le_add_left (Nat.le_max_right _ _) _)

/-- What is passed behind a term that stays within the bound is passed behind it for the first
time. -/
theorem passes_behind {rule : Rule} {tree : Tree} {rest : List Char} {bars bound : Nat}
    {outer : List Nat} (passes : (⟨false, bars, outer⟩ : Scan).Passes rest 0 bound)
    (fits : tree.Fits rule) (part : rule ≠ .regex) (suffice : tree.frames ≤ bound) :
    (⟨false, bars, outer⟩ : Scan).Passes (tree.text ++ rest) 0 bound :=
  passes.append ((within_text fits bars outer).mono (Nat.add_le_add_left suffice _))
    (pass_text_of_ne fits part bars outer)

end Tree

end PatternAutomata
