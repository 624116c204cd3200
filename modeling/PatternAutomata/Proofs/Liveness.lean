import PatternAutomata.Proofs.Pattern.Liveness
import PatternAutomata.Proofs.Recognition

/-! # Compiled automata have no dead parts

In the automaton of a pattern every state is of use: it is reached from the start and leads on
to an accepting state (`Machine.Trim`). And so is every character of the alphabet: some word
that is accepted has it in it, and accepted words have no others.
-/

namespace PatternAutomata

/-- Every owned state is reached from the start, and leads on to a state that accepts. -/
structure Machine.Trim (machine : Machine) : Prop where
  reached : ∀ name ∈ machine.states.keys, ∃ start word,
    machine.start = some start ∧ machine.Path start word name
  leads : ∀ name ∈ machine.states.keys, ∃ word last state,
    machine.Path name word last ∧ machine.states.find? last = some state ∧ state.accepting = true

/-- No accepted word has another character in it than those of the alphabet, and each of
these is in some accepted word. -/
structure Machine.Spells (machine : Machine) : Prop where
  within : ∀ word, machine.accepts word = .ok true → ∀ character ∈ word,
    String.singleton character ∈ machine.alphabet
  used : ∀ symbol ∈ machine.alphabet, ∃ character word, symbol = String.singleton character ∧
    character ∈ word ∧ machine.accepts word = .ok true

theorem Tree.mem_alphabet {tree : Tree} {symbol : String} :
    symbol ∈ tree.alphabet ↔ ∃ character ∈ tree.literals, String.singleton character = symbol := by
  rw [alphabet, StringSet.mem_ofList, List.mem_map]

namespace Fragment

variable {fragment : Fragment}

theorem Live.trim (live : fragment.Live) (distinct : fragment.names.Nodup) (alphabet : StringSet) :
    (fragment.machine alphabet).Trim := by
  have path_eq : (fragment.machine alphabet).Path = fragment.moves.Path :=
    congrArg Moves.Path (leads_machine distinct)
  constructor
  · rw [keys_machine distinct]
    intro name member
    obtain ⟨word, path⟩ := live.reached name member
    exact ⟨fragment.start, word, rfl, path_eq ▸ path⟩
  · rw [keys_machine distinct]
    intro name member
    obtain ⟨word, last, exit, path⟩ := live.leads name member
    obtain ⟨state, inside, accepts, named⟩ := mem_exits.mp exit
    exact ⟨word, last, state, path_eq ▸ path, (find?_machine distinct).mpr ⟨inside, named⟩, accepts⟩

/-- A transition of a live fragment is on a path from the start to an accepting state. -/
theorem Live.exists_word (live : fragment.Live) (proper : fragment.Proper) {character : Char}
    (letter : character ∈ fragment.letters) :
    ∃ word ∈ fragment.moves.words {fragment.start} fragment.exits, character ∈ word := by
  obtain ⟨source, target, move⟩ := letter
  obtain ⟨fromOwned, toOwned⟩ := proper.within _ _ _ move
  obtain ⟨before, entered⟩ := live.reached source fromOwned
  obtain ⟨behind, last, exit, left⟩ := live.leads target toOwned
  refine ⟨before ++ character :: behind, ?_, by simp⟩
  exact ⟨fragment.start, rfl, last, exit, entered.trans (.read move left)⟩

end Fragment

namespace Tree

/-- What leads through a tree has no other characters in it than its literals, and each of
them is in something that does. -/
theorem mem_literals_iff {tree : Tree} {character : Char} :
    character ∈ tree.literals ↔ ∃ word ∈ tree.passages.through, character ∈ word := by
  have through : tree.passages.through =
      (tree.fragment 0).moves.words {(tree.fragment 0).start} (tree.fragment 0).exits := by
    rw [← tree.passages_fragment 0]
    rfl
  have letter : character ∈ tree.literals ↔ character ∈ (tree.fragment 0).letters := by
    rw [tree.letters_fragment 0]
    rfl
  rw [through, letter]
  constructor
  · exact (tree.live_fragment 0).exists_word (tree.proper_fragment 0)
  · rintro ⟨word, ⟨_, _, _, _, path⟩, member⟩
    exact path.exists_move_of_mem member

theorem spells_fragment (tree : Tree) (first : Nat) :
    ((tree.fragment first).machine tree.alphabet).Spells := by
  constructor
  · intro word accepted character member
    have through := accepts_fragment_iff.mp accepted
    exact mem_alphabet.mpr ⟨character, mem_literals_iff.mpr ⟨word, through, member⟩, rfl⟩
  · intro symbol member
    obtain ⟨character, literal, rfl⟩ := mem_alphabet.mp member
    obtain ⟨word, through, inside⟩ := mem_literals_iff.mp literal
    exact ⟨character, word, rfl, inside, accepts_fragment_iff.mpr through⟩

end Tree

namespace Action

variable {store after : Store} {compiler : CompilerRef} {automaton : AutomatonRef}

/-- **Compiled automata have no dead parts.** Every state is reached from the start and leads on
to a state that accepts; accepted words have only characters of the alphabet in them, and each
of these is in some accepted word. -/
theorem compile_trim (held : compiler ∈ store.compilers)
    (ran : (compile compiler).run store = .ok automaton after) :
    (after.machine automaton).Trim ∧ (after.machine automaton).Spells := by
  obtain ⟨tree, _, value⟩ := machine_of_compile held ran
  rw [value]
  exact ⟨(tree.live_fragment _).trim (tree.nodup_names_fragment _) _, tree.spells_fragment _⟩

/-- Of a letter and a repeated one behind it, or another letter. -/
theorem compile_trim_star_in_alternative :
    (⟨0⟩ : CompilerRef) ∈ (Store.reading ['a', 'b', '*', '|', 'c']).compilers ∧
      ∃ automaton after,
        (compile ⟨0⟩).run (.reading ['a', 'b', '*', '|', 'c']) = .ok automaton after ∧
        (after.machine automaton).Trim ∧ (after.machine automaton).Spells := by
  have parsed : readPattern ['a', 'b', '*', '|', 'c'] =
      .ok (.alt (.concat (.literal 'a') (.star (.literal 'b'))) (.literal 'c')) := by
    decide
  have held : (⟨0⟩ : CompilerRef) ∈ (Store.reading ['a', 'b', '*', '|', 'c']).compilers := by
    decide
  obtain ⟨automaton, after, ran⟩ := exists_run_compile parsed
  exact ⟨held, automaton, after, ran, compile_trim held ran⟩

end Action

end PatternAutomata
