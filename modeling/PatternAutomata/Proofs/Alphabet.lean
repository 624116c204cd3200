import PatternAutomata.Proofs.Liveness
import PatternAutomata.Proofs.Pattern.Labels
import PatternAutomata.Proofs.Pattern.Roles
import PatternAutomata.Proofs.Reading

/-! # Alphabets are the literals that were read

Literals are noted by a compiler while it reads, and put on transitions where automata are
built. Both come to the same: the alphabet of a compiled automaton has the literals of the text
that was read in it, and the labels of the transitions, and nothing else
(`Action.compile_alphabet`). A compiler that fails has noted the literals up to the place of the
failure. Whatever was noted by earlier readings is gone in either case.
-/

namespace PatternAutomata

/-- The labels of the transitions of owned states, but for epsilon. -/
def Machine.labels (machine : Machine) : Set String :=
  {symbol | symbol ≠ epsilon ∧ ∃ state ∈ machine.states.values, symbol ∈ state.transitions.keys}

/-- Characters as a set of symbols. -/
def symbolsOf (text : List Char) : StringSet :=
  StringSet.ofList (text.map String.singleton)

/-- The text between the cursors of a compiler at two moments. -/
def Compiler.taken (before after : Compiler) : List Char :=
  (before.pattern.take after.cursor).drop before.cursor

namespace Compiler

variable {before after : Compiler} {front rest : List Char}

/-- A compiler has taken what the cursor went past. -/
theorem taken_eq (begins : before.ahead = front ++ rest)
    (moved : after.cursor = before.cursor + front.length) : before.taken after = front := by
  unfold taken
  rw [moved, List.drop_take, Nat.add_sub_cancel_left]
  change before.ahead.take front.length = front
  rw [begins, List.take_left]

theorem taken_finish (compiler : Compiler) (tree : Tree) :
    compiler.taken (compiler.finish tree) = compiler.ahead :=
  taken_eq (List.append_nil _).symm rfl

end Compiler

/-- The symbols of a state with proper labels are those on which it leads somewhere. -/
theorem State.Labelled.mem_keys_iff {state : State} (labelled : state.Labelled) {symbol : String} :
    symbol ∈ state.transitions.keys ↔
      IsSymbol symbol ∧ ∃ target, target ∈ state.targets symbol := by
  rw [Table.mem_keys_iff]
  constructor
  · rintro ⟨targets, found⟩
    obtain ⟨proper, target, leads⟩ := labelled _ targets found
    exact ⟨proper, target, mem_targets_iff.mpr ⟨targets, found, leads⟩⟩
  · rintro ⟨_, target, leads⟩
    obtain ⟨targets, found, _⟩ := mem_targets_iff.mp leads
    exact ⟨targets, found⟩

namespace Fragment

variable {fragment : Fragment}

/-- The labels of a fragment are the characters on its transitions. -/
theorem labels_machine (labelled : fragment.Labelled) (distinct : fragment.names.Nodup)
    (alphabet : StringSet) :
    (fragment.machine alphabet).labels = String.singleton '' fragment.letters := by
  have states : (fragment.machine alphabet).states.values = fragment.states := by
    rw [Table.values, entries_machine distinct, List.map_map]
    exact List.map_id _
  ext symbol
  rw [Machine.labels, Set.mem_ofPred_eq, states]
  constructor
  · rintro ⟨loud, state, member, entry⟩
    obtain ⟨proper, target, leads⟩ := (labelled state member).mem_keys_iff.mp entry
    obtain ⟨character, rfl⟩ := exists_singleton_of_isSymbol proper loud
    exact ⟨character, ⟨state.name, target, state, member, rfl, leads⟩, rfl⟩
  · rintro ⟨character, ⟨source, target, state, member, _, leads⟩, rfl⟩
    exact ⟨singleton_ne_epsilon character, state, member,
      (labelled state member).mem_keys_iff.mpr ⟨isSymbol_singleton character, target, leads⟩⟩

end Fragment

/-- The alphabet of a tree has the labels of its fragment in it, and no other symbols. -/
theorem Tree.labels_fragment (tree : Tree) (first : Nat) :
    ((tree.fragment first).machine tree.alphabet).labels = {symbol | symbol ∈ tree.alphabet} := by
  rw [Fragment.labels_machine (tree.labelled_fragment first) (tree.nodup_names_fragment first),
    letters_fragment]
  exact Set.ext fun _ => mem_alphabet.symm

namespace Action

variable {store after : Store} {compiler : CompilerRef} {automaton : AutomatonRef}

/-- What was compiled is all that lay ahead, and the alphabet has its literals. -/
theorem alphabet_of_compile (held : compiler ∈ store.compilers)
    (ran : (compile compiler).run store = .ok automaton after) :
    ∃ tree : Tree,
      tree.Parses ((store.compilers.get compiler).taken (after.compilers.get compiler)) ∧
      after.machine automaton =
        (tree.fragment (store.compilers.get compiler).names).machine tree.alphabet := by
  obtain ⟨tree, refs, read, holds, finished⟩ := holds_of_compile held ran
  refine ⟨tree, ?_, holds.machine_eq (tree.nodup_names_fragment _)⟩
  rw [finished, Heap.get_change_self held, Compiler.taken_finish]
  exact parses_of_readPattern read

/-- A compiler that failed has noted the literals up to the place of the failure. -/
theorem literals_of_compile_error {fault : Fault} (held : compiler ∈ store.compilers)
    (ran : (compile compiler).run store = .error fault after) :
    (after.compilers.get compiler).literals = symbolsOf (Place.entry.literals
      ((store.compilers.get compiler).taken (after.compilers.get compiler))) := by
  obtain ⟨failure, read, _⟩ := failure_of_compile held ran
  rw [run_compile_of_failure held read] at ran
  cases ran
  obtain ⟨front, begins, noted⟩ := notes_of_readPattern_error read
  have moved : (({ store.compilers.get compiler with literals := ∅ } : Compiler).leave
      failure).cursor = (store.compilers.get compiler).cursor + front.length :=
    Compiler.cursor_leave begins
  rw [Store.compilers_changeCompiler, Heap.get_change_self held,
    Compiler.taken_eq begins moved, noted]
  rfl

/-- **Alphabets are the literals that were read.** Whatever a compiler had noted before, the
alphabet of what it compiles has the literals of the text that it took in it, which are the
labels of the transitions. If compiling fails, the literals of the text up to the place of the
failure are noted, and no others. -/
theorem compile_alphabet (held : compiler ∈ store.compilers) :
    (∀ automaton after, (compile compiler).run store = .ok automaton after →
      ∃ text, text = (store.compilers.get compiler).taken (after.compilers.get compiler) ∧
        (∃ tree : Tree, tree.Parses text ∧ tree.literals = Place.entry.literals text) ∧
        (after.machine automaton).alphabet = symbolsOf (Place.entry.literals text) ∧
        {symbol | symbol ∈ (after.machine automaton).alphabet} =
          (after.machine automaton).labels) ∧
      ∀ fault after, (compile compiler).run store = .error fault after →
        (after.compilers.get compiler).literals = symbolsOf (Place.entry.literals
          ((store.compilers.get compiler).taken (after.compilers.get compiler))) := by
  refine ⟨fun automaton after ran => ?_, fun fault after ran => literals_of_compile_error held ran⟩
  obtain ⟨tree, parses, value⟩ := alphabet_of_compile held ran
  have literals : tree.literals = Place.entry.literals
      ((store.compilers.get compiler).taken (after.compilers.get compiler)) := by
    rw [← parses.2, Tree.literals_text parses.1]
  refine ⟨_, rfl, ⟨tree, parses, literals⟩, ?_, ?_⟩
  · rw [value, ← literals]
    rfl
  · rw [value, tree.labels_fragment]
    rfl

/-- Behind a letter that was noted before, an escaped star and a letter make up the alphabet.
Where a bar follows the star, compiling fails with just the star noted. -/
theorem compile_alphabet_leftover :
    let store := (Store.reading ['b', '\\', '*', 'a']).changeCompiler ⟨0⟩
      ({ · with cursor := 1, names := 2, literals := symbolsOf ['b'] })
    let other := (Store.reading ['b', '\\', '*', '|']).changeCompiler ⟨0⟩
      ({ · with cursor := 1, names := 2, literals := symbolsOf ['b'] })
    (⟨0⟩ : CompilerRef) ∈ store.compilers ∧ (⟨0⟩ : CompilerRef) ∈ other.compilers ∧
      (∃ automaton after, (compile ⟨0⟩).run store = .ok automaton after ∧
        (after.machine automaton).alphabet = symbolsOf ['*', 'a'] ∧
        {symbol | symbol ∈ (after.machine automaton).alphabet} =
          (after.machine automaton).labels) ∧
      ∃ fault after, (compile ⟨0⟩).run other = .error fault after ∧
        (after.compilers.get ⟨0⟩).literals = symbolsOf ['*'] := by
  intro store other
  have held : (⟨0⟩ : CompilerRef) ∈ store.compilers := by decide
  have heldOther : (⟨0⟩ : CompilerRef) ∈ other.compilers := by decide
  have read : readPattern (store.compilers.get ⟨0⟩).ahead =
      .ok (.concat (.escaped '*') (.literal 'a')) := by
    decide
  have failed : readPattern (other.compilers.get ⟨0⟩).ahead =
      .error { complaint := .emptyTerm, rest := [], finished := [.escaped '*'] } := by
    decide
  refine ⟨held, heldOther, ?_, ?_⟩
  · obtain ⟨automaton, after, refs, ran, _, _, _, _, finished⟩ := run_compile_of_ok held read
    obtain ⟨text, taken, _, alphabet, labels⟩ := (compile_alphabet held).1 automaton after ran
    rw [finished, Heap.get_change_self held, Compiler.taken_finish] at taken
    refine ⟨automaton, after, ran, ?_, labels⟩
    rw [alphabet, taken]
    decide
  · have ran := run_compile_of_failure heldOther failed
    have noted := (compile_alphabet heldOther).2 _ _ ran
    refine ⟨_, _, ran, ?_⟩
    rw [noted]
    decide

end Action

end PatternAutomata
