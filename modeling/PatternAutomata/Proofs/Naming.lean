import PatternAutomata.Proofs.Recognition
import PatternAutomata.Proofs.Store.Making
import PatternAutomata.Proofs.Store.Taking

/-! # The names of new states

What is read from a pattern is built out of new states, whose names are the next numerals.
The automaton owns each of them under its own name, and there are no other new states: none
is lost, and none is owned twice (`Store.OwnsNew`). The names are as many as two for each
literal and one for each bar that was read.
-/

namespace PatternAutomata

/-- An automaton owns all the states that were made since a store, and no others. Their names
are the numerals from one number up to another, and each is owned under its own. -/
structure Store.OwnsNew (store after : Store) (automaton : AutomatonRef) (first last : Nat) :
    Prop where
  names : (after.automata.get automaton).owned.keys.Perm
    ((List.range' first (last - first)).map Nat.repr)
  named : ∀ entry ∈ (after.automata.get automaton).owned.entries,
    (after.states.get entry.2).name = entry.1
  distinct : (after.automata.get automaton).owned.values.Nodup
  made : ∀ ref, ref ∈ (after.automata.get automaton).owned.values ↔
    ref ∈ after.states ∧ ref ∉ store.states

/-- A fragment that is held in new states, as many as were made, is held in all of them. -/
theorem Store.Holds.ownsNew {store after : Store} {automaton : AutomatonRef}
    {refs : List StateRef} {tree : Tree} {first : Nat} {alphabet : StringSet}
    (holds : after.Holds automaton refs (tree.fragment first) alphabet)
    (made : ∀ ref ∈ refs, ref ∉ store.states)
    (grown : after.states.size = store.states.size + tree.names) :
    store.OwnsNew after automaton first (first + tree.names) := by
  have distinct := holds.distinct
  have many : refs.length = tree.names := by
    have numbered := (tree.names_fragment first).length_eq
    rw [← holds.names, List.length_map, List.length_map, List.length_range'] at numbered
    exact numbered
  refine ⟨?_, fun entry member => ?_, holds.ownedValues.symm ▸ distinct, fun ref => ?_⟩
  · rw [holds.ownedKeys, Nat.add_sub_cancel_left]
    exact tree.names_fragment first
  · rw [holds.owned] at member
    obtain ⟨ref, _, rfl⟩ := List.mem_map.mp member
    rfl
  · rw [holds.ownedValues]
    exact Heap.mem_of_grown distinct made holds.refsHeld (many.symm ▸ grown) ref

namespace Action

variable {store after : Store} {compiler : CompilerRef} {automaton : AutomatonRef} {rule : Rule}
  {tree : Tree} {rest : List Char}

/-- What was read as a part of a pattern was passed over and built. -/
theorem take_of_parse (ran : (parse compiler rule).run store = .ok automaton after) :
    ∃ tree rest, rule.read (store.compilers.get compiler).ahead = .ok (tree, rest) ∧
      (take compiler tree).run store = .ok automaton after := by
  rw [run_parse] at ran
  split at ran
  · rename_i failure _
    obtain ⟨fault, left, failed⟩ := run_abandon (α := AutomatonRef) store compiler failure
    cases failed.symm.trans ran
  · rename_i tree rest read
    exact ⟨tree, rest, read, ran⟩

/-- A part that was read and built left what was not read of the pattern, and what it built
is owned. -/
theorem ownsNew_of_parse (held : compiler ∈ store.compilers)
    (ran : (parse compiler rule).run store = .ok automaton after) :
    ∃ tree, rule.read (store.compilers.get compiler).ahead =
        .ok (tree, (after.compilers.get compiler).ahead) ∧
      (after.compilers.get compiler).names =
        (store.compilers.get compiler).names + tree.names ∧
      store.OwnsNew after automaton (store.compilers.get compiler).names
        ((store.compilers.get compiler).names + tree.names) := by
  obtain ⟨tree, rest, read, taken⟩ := take_of_parse ran
  have grown : after.states.size = store.states.size + tree.names :=
    (makes_advance compiler _).before (fun _ => makes_build compiler tree) taken
  obtain ⟨_, _, refs, built, holds, spent⟩ :=
    builds compiler tree (store.move compiler tree.text.length) (Heap.mem_change.mpr held)
  rw [run_take] at taken
  cases taken.symm.trans built
  rw [Store.names_move] at holds
  rw [Store.move, Store.compilers_changeCompiler, Heap.change_change] at spent
  have content : after.compilers.get compiler = (store.compilers.get compiler).take tree :=
    (get_spent held spent).2
  refine ⟨tree, ?_, ?_, holds.holds.ownsNew holds.refsMade grown⟩
  · rw [content, Compiler.ahead_take, read, Rule.faithful_read rule read, List.drop_left]
  · rw [content]
    rfl

theorem ownsNew_of_compile (held : compiler ∈ store.compilers)
    (ran : (compile compiler).run store = .ok automaton after) :
    ∃ tree, Rule.regex.read (store.compilers.get compiler).ahead =
        .ok (tree, (after.compilers.get compiler).ahead) ∧
      (after.compilers.get compiler).names =
        (store.compilers.get compiler).names + tree.names ∧
      store.OwnsNew after automaton (store.compilers.get compiler).names
        ((store.compilers.get compiler).names + tree.names) := by
  obtain ⟨tree, _, read, _, _⟩ := holds_of_compile held ran
  obtain ⟨_, _, refs, compiled, holds, _, _, made, finished⟩ := run_compile_of_ok held read
  cases ran.symm.trans compiled
  have content : after.compilers.get compiler = (store.compilers.get compiler).finish tree :=
    (get_spent held finished).2
  rw [run_compile held, read] at ran
  have makes : Makes tree.names (do
      advance compiler (store.compilers.get compiler).ahead.length
      let automaton ← build compiler tree
      addLetters automaton (← Action.compiler compiler).literals.toList
      return automaton : Action AutomatonRef) := by
    refine (makes_advance compiler _).before fun _ => ?_
    refine (makes_build compiler tree).only fun automaton => ?_
    refine (reads_compiler compiler).makes.before fun content => ?_
    exact (makes_addLetters automaton _).before fun _ => makes_pure automaton
  have grown := makes ran
  refine ⟨tree, ?_, ?_, holds.ownsNew made grown⟩
  · rw [content, Compiler.ahead_finish]
    exact Reader.ok_of_whole (readPattern_eq_whole ▸ read)
  · rw [content]
    rfl

/-- **Names are dense and unique, and all are used.** Whatever part of a pattern is read and
built, or compiled as a whole, the automaton owns all the new states and no others, each under
its own name; the names are the numerals from the old count of names up to the new one, two
for each literal of the tree that was read and one for each of its bars. -/
theorem ownsNew_of_parse_or_compile (held : compiler ∈ store.compilers)
    (ran : (parse compiler rule).run store = .ok automaton after ∨
      rule = .regex ∧ (compile compiler).run store = .ok automaton after) :
    ∃ tree, rule.read (store.compilers.get compiler).ahead =
        .ok (tree, (after.compilers.get compiler).ahead) ∧
      (store.compilers.get compiler).ahead =
        tree.text ++ (after.compilers.get compiler).ahead ∧
      tree.text.count '|' = tree.bars + tree.literals.count '|' ∧
      (after.compilers.get compiler).names =
        (store.compilers.get compiler).names + (2 * tree.literals.length + tree.bars) ∧
      store.OwnsNew after automaton (store.compilers.get compiler).names
        (after.compilers.get compiler).names := by
  obtain ⟨tree, read, names, owns⟩ : ∃ tree, rule.read (store.compilers.get compiler).ahead =
        .ok (tree, (after.compilers.get compiler).ahead) ∧
      (after.compilers.get compiler).names =
        (store.compilers.get compiler).names + tree.names ∧
      store.OwnsNew after automaton (store.compilers.get compiler).names
        ((store.compilers.get compiler).names + tree.names) := by
    rcases ran with parsed | ⟨rfl, compiled⟩
    · exact ownsNew_of_parse held parsed
    · exact ownsNew_of_compile held compiled
  refine ⟨tree, read, Rule.faithful_read rule read, tree.count_bar_text, ?_, names ▸ owns⟩
  rw [names, tree.names_eq]

/-- A group with a bar in it, read as a factor from within a pattern when seven names have
been given out. -/
theorem ownsNew_of_parse_group :
    let store := (Store.reading ['a', '(', 'b', '|', '\\', '|', ')', 'c']).changeCompiler ⟨0⟩
      ({ · with cursor := 1, names := 7 })
    (⟨0⟩ : CompilerRef) ∈ store.compilers ∧
      ∃ automaton after, (parse ⟨0⟩ .factor).run store = .ok automaton after ∧
        (after.compilers.get ⟨0⟩).ahead = ['c'] ∧
        (after.compilers.get ⟨0⟩).names = 12 ∧
        store.OwnsNew after automaton 7 12 := by
  intro store
  have held : (⟨0⟩ : CompilerRef) ∈ store.compilers := by decide
  have read : Rule.factor.read (store.compilers.get ⟨0⟩).ahead =
      .ok (.group (.alt (.literal 'b') (.escaped '|')), ['c']) := by
    decide
  obtain ⟨automaton, after, taken⟩ :=
    exists_taken held (.group (.alt (.literal 'b') (.escaped '|')))
  have ran : (parse ⟨0⟩ .factor).run store = .ok automaton after := by
    rw [run_parse, read]
    exact taken.ran
  obtain ⟨tree, given, _, _, names, owns⟩ := ownsNew_of_parse_or_compile held (.inl ran)
  rw [read] at given
  injection given with given
  injection given with same left
  subst same
  rw [names] at owns
  exact ⟨held, automaton, after, ran, left.symm, names, owns⟩

end Action

end PatternAutomata
