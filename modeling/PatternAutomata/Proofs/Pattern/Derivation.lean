import PatternAutomata.Pattern.Reader.Faithful

/-! # Readers return derivations

What a reader returns is a derivation of the part of the grammar that it reads, so the
tree of a whole pattern is a parse tree of it (`parses_of_readPattern`). A base by itself
takes any character; that it is plain is known from where a term asks for one, and that
no factor begins with a star from the factor before, which takes all the stars there are.
-/

namespace PatternAutomata

/-- A parse tree of a pattern: a derivation of the pattern as a regex. -/
def Tree.Parses (tree : Tree) (pattern : List Char) : Prop :=
  tree.Fits .regex ∧ tree.text = pattern

namespace Reader

/-- A reader that returns only derivations of one part of the grammar. -/
def Derives (reader : Reader) (rule : Rule) : Prop :=
  ∀ ⦃ahead : List Char⦄ ⦃tree : Tree⦄ ⦃rest : List Char⦄,
    reader ahead = .ok (tree, rest) → tree.Fits rule

variable {inside further : Reader} {ahead rest : List Char} {tree before : Tree}

theorem derives_refuse (rule : Rule) : Derives refuse rule := by
  intro ahead tree rest read
  cases read

theorem fits_base (derives : Derives inside .regex) (begins : endsTerm ahead = false)
    (read : base inside ahead = .ok (tree, rest)) : tree.Fits .base := by
  unfold base at read
  split at read
  · cases read
  · split at read
    · cases read
    · rename_i readInner
      cases read
      exact .group (derives readInner)
    · cases read
  · cases read
  · cases read
    exact .escaped
  · rename_i character rest notOpen notLast notEscape
    cases read
    have goesOn : character ≠ ')' ∧ character ≠ '|' := by
      simpa [endsTerm] using begins
    have unescaped : character ≠ '\\' := by
      intro same
      cases rest with
      | nil => exact notLast same rfl
      | cons next rest => exact notEscape next rest same rfl
    refine .literal fun reserved => ?_
    simp only [Tree.reserved, List.mem_cons, List.not_mem_nil, or_false] at reserved
    rcases reserved with opening | closing | bar | escape
    · exact notOpen opening
    · exact goesOn.1 closing
    · exact goesOn.2 bar
    · exact unescaped escape

theorem fits_stars {ahead : List Char} (fits : tree.Fits .factor) :
    (stars tree ahead).1.Fits .factor ∧ (stars tree ahead).2.head? ≠ some '*' := by
  fun_induction stars tree ahead with
  | case1 tree rest ih => exact ih (.star fits)
  | case2 tree ahead notStar =>
      refine ⟨fits, fun starts => ?_⟩
      obtain ⟨rest, same⟩ := List.head?_eq_some_iff.mp starts
      exact notStar rest same

theorem fits_factor (derives : Derives inside .regex) (begins : endsTerm ahead = false)
    (read : factor inside ahead = .ok (tree, rest)) :
    tree.Fits .factor ∧ rest.head? ≠ some '*' := by
  unfold factor at read
  split at read
  · cases read
  · rename_i plain after readBase
    have fits : (stars plain after).1.Fits .factor ∧ (stars plain after).2.head? ≠ some '*' :=
      fits_stars (.ofBase (fits_base derives begins readBase))
    rw [Except.ok.inj read] at fits
    exact fits

theorem head?_text_of_factor (faithful : Faithful inside)
    (read : factor inside ahead = .ok (tree, rest)) : tree.text.head? = ahead.head? := by
  obtain ⟨head, tail, spelled⟩ := List.exists_cons_of_ne_nil tree.text_ne_nil
  rw [faithful_factor faithful read, spelled]
  rfl

/-- Factors are put behind a term as long as none begins with a star. -/
theorem fits_factors (derives : Derives inside .regex) (faithful : Faithful inside)
    {steps : Nat} (fits : before.Fits .term) (apart : ahead.head? ≠ some '*')
    (read : factors inside steps before ahead = .ok (tree, rest)) : tree.Fits .term := by
  induction steps generalizing before ahead with
  | zero =>
      cases read
      exact fits
  | succ steps ih =>
      unfold factors at read
      split at read
      · cases read
        exact fits
      · rename_i goesOn
        split at read
        · cases read
        · rename_i next after readFactor
          have ⟨nextFits, nextApart⟩ := fits_factor derives (by simpa using goesOn) readFactor
          have begins : next.text.head? ≠ some '*' := by
            rw [head?_text_of_factor faithful readFactor]
            exact apart
          exact ih (.concat fits nextFits begins) nextApart read

theorem derives_term (derives : Derives inside .regex) (faithful : Faithful inside) :
    Derives (term inside) .term := by
  intro ahead tree rest read
  unfold term at read
  split at read
  · cases read
  · rename_i goesOn
    split at read
    · cases read
    · rename_i first after readFactor
      have ⟨fits, apart⟩ := fits_factor derives (by simpa using goesOn) readFactor
      exact fits_factors derives faithful (.ofFactor fits) apart read

theorem derives_alternatives (derives : Derives inside .regex) (faithful : Faithful inside)
    (furtherDerives : Derives further .regex) : Derives (alternatives inside further) .regex := by
  intro ahead tree rest read
  unfold alternatives at read
  split at read
  · cases read
  · rename_i first after readTerm
    split at read
    · cases read
    · rename_i second last readFurther
      cases read
      exact .alt (derives_term derives faithful readTerm) (furtherDerives readFurther)
  · rename_i first after _ readTerm
    cases read
    exact .ofTerm (derives_term derives faithful readTerm)

theorem derives_inGroup {frames : Nat}
    (smaller : ∀ fewer, fewer < frames → Derives (regex fewer) .regex) :
    Derives (inGroup frames) .regex := by
  unfold inGroup
  split
  · exact smaller _ (by omega)
  · exact derives_refuse .regex

theorem derives_behindBar {frames : Nat}
    (smaller : ∀ fewer, fewer < frames → Derives (regex fewer) .regex) :
    Derives (behindBar frames) .regex := by
  unfold behindBar
  split
  · exact smaller _ (by omega)
  · exact derives_refuse .regex

theorem derives_regex (frames : Nat) : Derives (regex frames) .regex := by
  induction frames using Nat.strongRecOn with
  | ind frames smaller =>
      rw [regex_eq]
      exact derives_alternatives (derives_inGroup smaller)
        (faithful_inGroup fun fewer _ => faithful_regex fewer) (derives_behindBar smaller)

end Reader

/-- The tree of a whole pattern is a parse tree of it. -/
theorem parses_of_readPattern {pattern : List Char} {tree : Tree}
    (read : readPattern pattern = .ok tree) : tree.Parses pattern := by
  refine ⟨?_, text_of_readPattern read⟩
  unfold readPattern at read
  split at read
  · cases read
  · rename_i readRegex
    cases read
    exact Reader.derives_regex frameBound readRegex
  · cases read

end PatternAutomata
