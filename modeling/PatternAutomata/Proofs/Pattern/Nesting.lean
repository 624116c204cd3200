import PatternAutomata.Proofs.Pattern.Foresight

/-! # Patterns that are read

A reader returns no tree that takes up more frames than there are (`Reader.nests_regex`),
and it returns every derivation that does not. So the patterns that are read are those with
a parse tree for which the frames suffice (`readPattern_eq_ok_iff`), and a pattern with a
parse tree is read unless it nests too deeply (`Tree.Parses.readPattern_eq`).
-/

namespace PatternAutomata

namespace Reader

variable {inside further : Reader} {ahead rest : List Char} {tree before : Tree}
  {bound : Nat}

/-- A reader that leaves some frames of a bound to those around it. -/
def Nests (reader : Reader) (around bound : Nat) : Prop :=
  ∀ ⦃ahead : List Char⦄ ⦃tree : Tree⦄ ⦃rest : List Char⦄,
    reader ahead = .ok (tree, rest) → tree.frames + around ≤ bound

theorem nests_refuse (around bound : Nat) : Nests refuse around bound := by
  intro ahead tree rest read
  cases read

theorem nests_base (nests : Nests inside 4 bound) : Nests (base inside) 0 bound := by
  intro ahead tree rest read
  unfold base at read
  split at read
  · cases read
  · split at read
    · cases read
    · rename_i readInner
      cases read
      exact nests readInner
    · cases read
  · cases read
  · cases read
    exact Nat.zero_le _
  · cases read
    exact Nat.zero_le _

theorem frames_stars (tree : Tree) (ahead : List Char) :
    (stars tree ahead).1.frames = tree.frames := by
  fun_induction stars tree ahead with
  | case1 tree rest ih => exact ih
  | case2 tree ahead _ => rfl

theorem nests_factor (nests : Nests inside 4 bound) : Nests (factor inside) 0 bound := by
  intro ahead tree rest read
  unfold factor at read
  split at read
  · cases read
  · rename_i plain after readBase
    have same := frames_stars plain after
    rw [Except.ok.inj read] at same
    rw [same]
    exact nests_base nests readBase

theorem nests_allFactors (nests : Nests inside 4 bound) (faithful : Faithful inside)
    (suffice : before.frames ≤ bound) : Nests (allFactors inside before) 0 bound := by
  intro ahead tree rest
  refine allFactors_induction faithful (motive := fun before _ result =>
    before.frames ≤ bound → result = .ok (tree, rest) → tree.frames ≤ bound) ?_ ?_ ?_
    before ahead suffice
  · intro before ahead _ suffice same
    cases same
    exact suffice
  · intro before ahead failure _ _ _ same
    cases same
  · intro before ahead next after _ readFactor result later suffice
    exact later (Nat.max_le.mpr ⟨suffice, nests_factor nests readFactor⟩)

theorem nests_term (nests : Nests inside 4 bound) (faithful : Faithful inside) :
    Nests (term inside) 0 bound := by
  intro ahead tree rest read
  unfold term at read
  split at read
  · cases read
  · split at read
    · cases read
    · rename_i readFactor
      exact nests_allFactors nests faithful (nests_factor nests readFactor) read

theorem nests_alternatives (nests : Nests inside 4 bound) (faithful : Faithful inside)
    (nestsFurther : Nests further 1 bound) : Nests (alternatives inside further) 0 bound := by
  intro ahead tree rest read
  unfold alternatives at read
  split at read
  · cases read
  · rename_i readTerm
    split at read
    · cases read
    · rename_i readFurther
      cases read
      exact Nat.max_le.mpr ⟨nests_term nests faithful readTerm, nestsFurther readFurther⟩
  · rename_i readTerm
    cases read
    exact nests_term nests faithful readTerm

theorem nests_inGroup {frames : Nat}
    (smaller : ∀ fewer, fewer < frames → Nests (regex fewer) 0 fewer) :
    Nests (inGroup frames) 4 frames := by
  unfold inGroup
  split
  · intro ahead tree rest read
    exact Nat.add_le_add_right (smaller _ (by omega) read) 4
  · exact nests_refuse 4 _

theorem nests_behindBar {frames : Nat}
    (smaller : ∀ fewer, fewer < frames → Nests (regex fewer) 0 fewer) :
    Nests (behindBar frames) 1 frames := by
  unfold behindBar
  split
  · intro ahead tree rest read
    exact Nat.add_le_add_right (smaller _ (by omega) read) 1
  · exact nests_refuse 1 _

/-- A regex that is read takes up no more frames than there are. -/
theorem nests_regex (frames : Nat) : Nests (regex frames) 0 frames := by
  induction frames using Nat.strongRecOn with
  | ind frames smaller =>
      rw [regex_eq]
      exact nests_alternatives (nests_inGroup smaller) (faithful_inside frames)
        (nests_behindBar smaller)

end Reader

/-- The patterns that are read are those with a parse tree for which the frames suffice. -/
theorem readPattern_eq_ok_iff {pattern : List Char} {tree : Tree} :
    readPattern pattern = .ok tree ↔ tree.Parses pattern ∧ tree.frames ≤ frameBound := by
  constructor
  · intro read
    rw [readPattern_eq_whole] at read
    exact ⟨parses_of_readPattern read, Reader.nests_regex frameBound (Reader.ok_of_whole read)⟩
  · intro given
    obtain ⟨parses, suffice⟩ := given
    rw [readPattern_eq_whole]
    exact Reader.whole_of_ok (parses.regex_eq suffice)

/-- No beginning of a pattern that ends behind the place of a failure can be completed: a
reader with frames enough for the completed pattern would fail at the same place. -/
theorem not_parses_of_whole_error {frames : Nat} {pattern : List Char} {failure : Failure}
    (failed : Reader.whole (Reader.regex frames) pattern = .error failure)
    (shallow : failure.complaint ≠ .tooDeep) :
    ∃ front, pattern = front ++ failure.rest ∧ ∀ ⦃later : List Char⦄,
      later.head? = failure.rest.head? → ∀ tree : Tree, ¬ tree.Parses (front ++ later) := by
  obtain ⟨front, begins, _⟩ :=
    Reader.fails_whole (Reader.foresees_regex (Nat.le_refl frames)) failed shallow
  refine ⟨front, begins, fun later same tree parses => ?_⟩
  have more : Reader.Foresees (Reader.regex frames) (Reader.regex (max frames tree.frames)) :=
    Reader.foresees_regex (Nat.le_max_left _ _)
  obtain ⟨front', begins', again⟩ := Reader.fails_whole more failed shallow
  cases List.append_cancel_right (begins.symm.trans begins')
  have read := Reader.whole_of_ok (parses.regex_eq (Nat.le_max_right frames tree.frames))
  rw [again same] at read
  cases read

/-- A pattern with a parse tree is read, unless it nests too deeply. -/
theorem Tree.Parses.readPattern_eq {tree : Tree} {pattern : List Char}
    (parses : tree.Parses pattern)
    (shallow : ∀ failure, readPattern pattern = .error failure → failure.complaint ≠ .tooDeep) :
    readPattern pattern = .ok tree := by
  cases read : readPattern pattern with
  | error failure =>
      obtain ⟨front, begins, never⟩ :=
        not_parses_of_whole_error read (shallow failure read)
      exact absurd (begins ▸ parses) (never rfl tree)
  | ok other => rw [(parses_of_readPattern read).unique parses]

end PatternAutomata
