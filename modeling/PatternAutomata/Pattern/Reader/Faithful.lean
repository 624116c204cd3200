import PatternAutomata.Pattern.Reader

/-! # Readers take off what their trees write down

Reading loses nothing: the tree that a reader returns, written down, and the rest
make up the characters that it was given (`Rule.faithful_read`). So the tree of a
whole pattern writes down that pattern (`text_of_readPattern`).
-/

namespace PatternAutomata

namespace Reader

/-- A reader is faithful when the tree it returns, written down, and the rest make
up what it was given. -/
def Faithful (reader : Reader) : Prop :=
  ∀ ⦃ahead : List Char⦄ ⦃tree : Tree⦄ ⦃rest : List Char⦄,
    reader ahead = .ok (tree, rest) → ahead = tree.text ++ rest

theorem faithful_refuse : Faithful refuse := by
  intro ahead tree rest read
  cases read

theorem faithful_base {inside : Reader} (faithful : Faithful inside) :
    Faithful (base inside) := by
  intro ahead tree rest read
  unfold base at read
  split at read
  · cases read
  · rename_i characters
    split at read
    · cases read
    · rename_i inner after readInner
      cases read
      simp [Tree.text, faithful readInner]
    · cases read
  · cases read
  · cases read
    rfl
  · cases read
    rfl

theorem text_stars (tree : Tree) (ahead : List Char) :
    (stars tree ahead).1.text ++ (stars tree ahead).2 = tree.text ++ ahead := by
  fun_induction stars tree ahead with
  | case1 tree rest ih => simp [ih, Tree.text]
  | case2 tree ahead _ => rfl

theorem faithful_factor {inside : Reader} (faithful : Faithful inside) :
    Faithful (factor inside) := by
  intro ahead tree rest read
  unfold factor at read
  split at read
  · cases read
  · rename_i plain after readBase
    rw [faithful_base faithful readBase, ← text_stars, Except.ok.inj read]

theorem text_factors {inside : Reader} (faithful : Faithful inside) {steps : Nat}
    {before tree : Tree} {ahead rest : List Char}
    (read : factors inside steps before ahead = .ok (tree, rest)) :
    before.text ++ ahead = tree.text ++ rest := by
  induction steps generalizing before ahead with
  | zero => cases read; rfl
  | succ steps ih =>
    unfold factors at read
    split at read
    · cases read; rfl
    · split at read
      · cases read
      · rename_i next after readFactor
        rw [← ih read, faithful_factor faithful readFactor]
        simp [Tree.text]

theorem faithful_term {inside : Reader} (faithful : Faithful inside) :
    Faithful (term inside) := by
  intro ahead tree rest read
  unfold term at read
  split at read
  · cases read
  · split at read
    · cases read
    · rename_i first after readFactor
      rw [faithful_factor faithful readFactor, text_factors faithful read]

theorem faithful_alternatives {inside further : Reader} (faithful : Faithful inside)
    (furtherFaithful : Faithful further) : Faithful (alternatives inside further) := by
  intro ahead tree rest read
  unfold alternatives at read
  split at read
  · cases read
  · rename_i first after readTerm
    split at read
    · cases read
    · rename_i second last readFurther
      cases read
      rw [faithful_term faithful readTerm, furtherFaithful readFurther]
      simp [Tree.text]
  · rename_i first after _ readTerm
    cases read
    exact faithful_term faithful readTerm

theorem faithful_inGroup {frames : Nat}
    (smaller : ∀ fewer, fewer < frames → Faithful (regex fewer)) :
    Faithful (inGroup frames) := by
  unfold inGroup
  split
  · exact smaller _ (by omega)
  · exact faithful_refuse

theorem faithful_behindBar {frames : Nat}
    (smaller : ∀ fewer, fewer < frames → Faithful (regex fewer)) :
    Faithful (behindBar frames) := by
  unfold behindBar
  split
  · exact smaller _ (by omega)
  · exact faithful_refuse

theorem faithful_regex (frames : Nat) : Faithful (regex frames) := by
  induction frames using Nat.strongRecOn with
  | ind frames smaller =>
      rw [regex_eq]
      exact faithful_alternatives (faithful_inGroup smaller) (faithful_behindBar smaller)

end Reader

theorem Rule.faithful_read (rule : Rule) : Reader.Faithful rule.read := by
  have inGroup : Reader.Faithful (Reader.inGroup frameBound) :=
    Reader.faithful_inGroup fun fewer _ => Reader.faithful_regex fewer
  cases rule with
  | regex => exact Reader.faithful_regex frameBound
  | term => exact Reader.faithful_term inGroup
  | factor => exact Reader.faithful_factor inGroup
  | base => exact Reader.faithful_base inGroup

theorem text_of_readPattern {pattern : List Char} {tree : Tree}
    (read : readPattern pattern = .ok tree) : tree.text = pattern := by
  unfold readPattern at read
  split at read
  · cases read
  · rename_i readRegex
    cases read
    rw [Rule.faithful_read .regex readRegex, List.append_nil]
  · cases read

end PatternAutomata
