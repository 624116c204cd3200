import PatternAutomata.Proofs.Machine.Acceptance
import PatternAutomata.Proofs.Pattern.Unambiguity
import PatternAutomata.Proofs.Store.Compiling

/-! # What a compiled pattern accepts

The automaton of a pattern accepts exactly the words that lead through its tree. Those
are all words of the pattern's language, and no others where its stars lie apart; a star
around a body that begins or ends with a star may let more words through.
-/

namespace PatternAutomata

open scoped Computability

/-- A machine that presents a sound fragment owns its start and all targets. -/
theorem Machine.Presents.whole {machine : Machine} {fragment : Fragment}
    (presents : machine.Presents fragment) (sound : fragment.Sound) : machine.Whole where
  start := ⟨fragment.start, presents.mem_keys_iff.mpr sound.start, presents.start⟩
  targets source symbol target leads := by
    rw [presents.leads] at leads
    exact presents.mem_keys_iff.mpr (sound.within _ _ _ leads).2
  named name state found := ((presents.find?_iff name state).mp found).2

theorem Fragment.Proper.whole {fragment : Fragment} (proper : fragment.Proper)
    (alphabet : StringSet) : (fragment.machine alphabet).Whole :=
  (Fragment.presents_machine proper.distinct).whole proper.sound

namespace Tree

/-- The machine of a tree answers for every word, and accepts what leads through the
tree. -/
theorem accepts_fragment (tree : Tree) (first : Nat) (alphabet : StringSet) (word : List Char) :
    ∃ answer, ((tree.fragment first).machine alphabet).accepts word = .ok answer ∧
      (answer = true ↔ word ∈ tree.passages.through) := by
  have whole := (tree.proper_fragment first).whole alphabet
  obtain ⟨answer, answered, decides⟩ := whole.accepts_eq word
  exact ⟨answer, answered, decides.trans recognises_fragment_iff⟩

theorem accepts_fragment_iff {tree : Tree} {first : Nat} {alphabet : StringSet}
    {word : List Char} :
    ((tree.fragment first).machine alphabet).accepts word = .ok true ↔
      word ∈ tree.passages.through := by
  obtain ⟨answer, answered, decides⟩ := tree.accepts_fragment first alphabet word
  rw [answered, ← decides, Except.ok.injEq]

end Tree

/-- A store with nothing in it but a compiler at the start of a pattern. -/
def Store.reading (pattern : List Char) : Store where
  compilers := ({} : Heap Compiler).add { pattern }

namespace Action

theorem exists_run_compile {pattern : List Char} {tree : Tree}
    (read : readPattern pattern = .ok tree) :
    ∃ automaton after, (compile ⟨0⟩).run (.reading pattern) = .ok automaton after := by
  have held : (⟨0⟩ : CompilerRef) ∈ (Store.reading pattern).compilers :=
    Heap.mem_add.mpr (Or.inr rfl)
  obtain ⟨automaton, after, _, ran, _⟩ := run_compile_of_ok held read
  exact ⟨automaton, after, ran⟩

variable {store after : Store} {compiler : CompilerRef} {automaton : AutomatonRef}

/-- **What a compiled pattern accepts.** The answer for a word is whether it leads
through the tree that was read. -/
theorem compile_accepts_iff_through (held : compiler ∈ store.compilers)
    (ran : (compile compiler).run store = .ok automaton after) :
    ∃ tree : Tree, tree.Parses (store.compilers.get compiler).ahead ∧
      ∀ word, ∃ answer, (after.machine automaton).accepts word = .ok answer ∧
        (answer = true ↔ word ∈ tree.passages.through) := by
  obtain ⟨tree, read, value⟩ := machine_of_compile held ran
  refine ⟨tree, parses_of_readPattern read, fun word => ?_⟩
  rw [value]
  exact tree.accepts_fragment _ _ word

/-- Two letters lead through a repeated one. -/
theorem compile_accepts_iff_through_letter_star :
    (⟨0⟩ : CompilerRef) ∈ (Store.reading ['a', '*']).compilers ∧
      ∃ automaton after, (compile ⟨0⟩).run (.reading ['a', '*']) = .ok automaton after ∧
        ∃ answer, (after.machine automaton).accepts ['a', 'a'] = .ok answer ∧
          (answer = true ↔ ['a', 'a'] ∈ (Tree.star (.literal 'a')).passages.through) := by
  have parsed : readPattern ['a', '*'] = .ok (.star (.literal 'a')) := by decide
  have held : (⟨0⟩ : CompilerRef) ∈ (Store.reading ['a', '*']).compilers := by decide
  obtain ⟨automaton, after, ran⟩ := exists_run_compile parsed
  obtain ⟨tree, parses, answers⟩ := compile_accepts_iff_through held ran
  have same : tree = .star (.literal 'a') := parses.unique (parses_of_readPattern parsed)
  exact ⟨held, automaton, after, ran, same ▸ answers ['a', 'a']⟩

/-- **Completeness.** A compiled pattern accepts every word of its language. -/
theorem compile_accepts_of_mem_language (held : compiler ∈ store.compilers)
    (ran : (compile compiler).run store = .ok automaton after) :
    ∃ tree : Tree, tree.Parses (store.compilers.get compiler).ahead ∧
      ∀ word ∈ tree.language, (after.machine automaton).accepts word = .ok true := by
  obtain ⟨tree, read, value⟩ := machine_of_compile held ran
  refine ⟨tree, parses_of_readPattern read, fun word member => ?_⟩
  rw [value]
  exact Tree.accepts_fragment_iff.mpr (tree.language_le_through member)

theorem compile_accepts_of_mem_language_alternative :
    (⟨0⟩ : CompilerRef) ∈ (Store.reading ['a', '|', 'b']).compilers ∧
      ∃ automaton after, (compile ⟨0⟩).run (.reading ['a', '|', 'b']) = .ok automaton after ∧
        (after.machine automaton).accepts ['b'] = .ok true := by
  have parsed : readPattern ['a', '|', 'b'] = .ok (.alt (.literal 'a') (.literal 'b')) := by decide
  have held : (⟨0⟩ : CompilerRef) ∈ (Store.reading ['a', '|', 'b']).compilers := by decide
  obtain ⟨automaton, after, ran⟩ := exists_run_compile parsed
  obtain ⟨tree, parses, accepted⟩ := compile_accepts_of_mem_language held ran
  have same : tree = .alt (.literal 'a') (.literal 'b') :=
    parses.unique (parses_of_readPattern parsed)
  have member : ['b'] ∈ (Tree.alt (.literal 'a') (.literal 'b')).language := Or.inr rfl
  exact ⟨held, automaton, after, ran, accepted ['b'] (same ▸ member)⟩

/-- **Exactness where stars lie apart.** A compiled pattern accepts just its language if
the operand of every star is a star or neither begins nor ends with one. -/
theorem compile_accepts_iff_mem_language (held : compiler ∈ store.compilers)
    (ran : (compile compiler).run store = .ok automaton after) :
    ∃ tree : Tree, tree.Parses (store.compilers.get compiler).ahead ∧
      (tree.starsApart = true → ∀ word, ∃ answer,
        (after.machine automaton).accepts word = .ok answer ∧
          (answer = true ↔ word ∈ tree.language)) := by
  obtain ⟨tree, read, value⟩ := machine_of_compile held ran
  refine ⟨tree, parses_of_readPattern read, fun apart word => ?_⟩
  rw [value, ← Tree.through_eq_language apart]
  exact tree.accepts_fragment _ _ word

theorem compile_accepts_iff_mem_language_repeated_pair :
    (⟨0⟩ : CompilerRef) ∈ (Store.reading ['(', 'a', 'b', ')', '*']).compilers ∧
      ∃ automaton after,
        (compile ⟨0⟩).run (.reading ['(', 'a', 'b', ')', '*']) = .ok automaton after ∧
        (Tree.star (.group (.concat (.literal 'a') (.literal 'b')))).starsApart = true ∧
        ∃ answer, (after.machine automaton).accepts ['a', 'b', 'a'] = .ok answer ∧
          (answer = true ↔ ['a', 'b', 'a'] ∈
            (Tree.star (.group (.concat (.literal 'a') (.literal 'b')))).language) := by
  have parsed : readPattern ['(', 'a', 'b', ')', '*'] =
      .ok (.star (.group (.concat (.literal 'a') (.literal 'b')))) := by decide
  have held : (⟨0⟩ : CompilerRef) ∈ (Store.reading ['(', 'a', 'b', ')', '*']).compilers := by decide
  obtain ⟨automaton, after, ran⟩ := exists_run_compile parsed
  obtain ⟨tree, parses, answers⟩ := compile_accepts_iff_mem_language held ran
  have same : tree = .star (.group (.concat (.literal 'a') (.literal 'b'))) :=
    parses.unique (parses_of_readPattern parsed)
  subst same
  exact ⟨held, automaton, after, ran, rfl, answers rfl ['a', 'b', 'a']⟩

/-- **Where compiling is sound.** A compiled pattern accepts no word outside its language
exactly when none leads through its tree, and so it is for the pattern and all of its
parts exactly when every star at an edge of the body of a star denotes only words that
the body repeated denotes. -/
theorem compile_sound_iff (held : compiler ∈ store.compilers)
    (ran : (compile compiler).run store = .ok automaton after) :
    ∃ tree : Tree, tree.Parses (store.compilers.get compiler).ahead ∧
      ((∀ word, (after.machine automaton).accepts word = .ok true → word ∈ tree.language) ↔
        tree.passages.through ≤ tree.language) ∧
      ((∀ part ∈ tree.parts, ∀ word, part.machine.accepts word = .ok true → word ∈ part.language) ↔
        ∀ body, Tree.star body ∈ tree.parts →
          ∀ edge ∈ body.edgeStars, edge.language ≤ body.language∗) := by
  obtain ⟨tree, read, value⟩ := machine_of_compile held ran
  refine ⟨tree, parses_of_readPattern read, ?_, ?_⟩
  · rw [value]
    simp only [Tree.accepts_fragment_iff]
    rfl
  · rw [← tree.tight_parts_iff]
    simp only [Tree.machine, Tree.accepts_fragment_iff]
    rfl

theorem compile_sound_letter_star :
    (⟨0⟩ : CompilerRef) ∈ (Store.reading ['a', '*']).compilers ∧
      ∃ automaton after, (compile ⟨0⟩).run (.reading ['a', '*']) = .ok automaton after ∧
        ∀ word, (after.machine automaton).accepts word = .ok true →
          word ∈ (Tree.star (.literal 'a')).language := by
  have parsed : readPattern ['a', '*'] = .ok (.star (.literal 'a')) := by decide
  have held : (⟨0⟩ : CompilerRef) ∈ (Store.reading ['a', '*']).compilers := by decide
  obtain ⟨automaton, after, ran⟩ := exists_run_compile parsed
  obtain ⟨tree, parses, sound, _⟩ := compile_sound_iff held ran
  have same : tree = .star (.literal 'a') := parses.unique (parses_of_readPattern parsed)
  subst same
  exact ⟨held, automaton, after, ran, sound.mpr (Tree.through_eq_language rfl).le⟩

/-- A star around a body that begins with a star lets more through: the letters of the
inner star may stand without the one that has to follow them. -/
theorem compile_not_sound :
    ∃ (automaton : AutomatonRef) (after : Store) (tree : Tree),
      (compile ⟨0⟩).run (.reading ['(', '(', 'a', '|', 'b', ')', '*', 'c', ')', '*']) =
        .ok automaton after ∧
      tree.Parses ['(', '(', 'a', '|', 'b', ')', '*', 'c', ')', '*'] ∧
      (after.machine automaton).accepts ['a', 'a'] = .ok true ∧ ['a', 'a'] ∉ tree.language := by
  have parsed : readPattern ['(', '(', 'a', '|', 'b', ')', '*', 'c', ')', '*'] =
      .ok (.star (.group (.concat (.star (.group (.alt (.literal 'a') (.literal 'b'))))
        (.literal 'c')))) := by
    decide +kernel
  have held : (⟨0⟩ : CompilerRef) ∈ (Store.reading
      ['(', '(', 'a', '|', 'b', ')', '*', 'c', ')', '*']).compilers := by
    decide
  obtain ⟨automaton, after, ran⟩ := exists_run_compile parsed
  obtain ⟨tree, read, value⟩ := machine_of_compile held ran
  have same := Except.ok.inj (read.symm.trans parsed)
  refine ⟨automaton, after, tree, ran, parses_of_readPattern read, ?_, ?_⟩
  · rw [value, same]
    decide +kernel
  · rw [same]
    intro member
    obtain ⟨words, spelled, each⟩ := Language.mem_kstar.mp member
    cases words with
    | nil => cases spelled
    | cons word words =>
        obtain ⟨front, _, last, single, rfl⟩ := Language.mem_mul.mp (each word List.mem_cons_self)
        have inside : 'c' ∈ ((front ++ last) :: words).flatten := by
          rw [Set.mem_singleton_iff.mp single]
          simp
        rw [← spelled] at inside
        simp at inside

end Action

end PatternAutomata
