import PatternAutomata.Proofs.Store.Building
import PatternAutomata.Store.Compilation

/-! # Compiling in a store

Compiling succeeds where reading does, and then the automaton that it gives has the
machine of the tree that was read as its value (`Action.machine_of_compile`). The states
that are shared and changed on the way do not show in it.
-/

namespace PatternAutomata

theorem Store.Holds.learnAll {store : Store} {automaton : AutomatonRef} {refs : List StateRef}
    {fragment : Fragment} {alphabet : StringSet}
    (holds : store.Holds automaton refs fragment alphabet) (symbols : List String) :
    (store.changeAutomaton automaton (·.learnAll symbols)).Holds automaton refs fragment
      (alphabet.insertAll symbols) := by
  have content : (store.automata.change automaton (·.learnAll symbols)).get automaton =
      (store.automata.get automaton).learnAll symbols :=
    Heap.get_change_self holds.held _
  refine ⟨⟨Heap.mem_change.mpr holds.held, holds.refsHeld, holds.states, ?_, ?_⟩, ?_, ?_⟩
  · rw [Store.automata_changeAutomaton, content]
    exact holds.start
  · rw [Store.automata_changeAutomaton, content]
    exact holds.owned
  · rw [Store.automata_changeAutomaton, content]
    exact holds.accepting
  · rw [Store.automata_changeAutomaton, content, Automaton.learnAll, holds.alphabet]

/-- The alphabet of a tree has nothing but characters in it. -/
theorem Tree.letter_of_mem_alphabet {tree : Tree} {symbol : String}
    (member : symbol ∈ tree.alphabet) : symbol ≠ epsilon ∧ IsSymbol symbol := by
  rw [alphabet, StringSet.mem_ofList] at member
  obtain ⟨character, _, rfl⟩ := List.mem_map.mp member
  exact ⟨singleton_ne_epsilon character, isSymbol_singleton character⟩

/-- What compiling a tree makes of a compiler. -/
def Compiler.finish (compiler : Compiler) (tree : Tree) : Compiler :=
  { compiler with
    cursor := compiler.cursor + compiler.ahead.length
    names := compiler.names + tree.names
    literals := tree.alphabet }

/-- A compiler that has compiled all that lay ahead is at the end. -/
theorem Compiler.ahead_finish (compiler : Compiler) (tree : Tree) :
    (compiler.finish tree).ahead = [] := by
  apply List.drop_eq_nil_of_le
  change compiler.pattern.length ≤ compiler.cursor + (compiler.pattern.drop compiler.cursor).length
  rw [List.length_drop]
  omega

namespace Action

variable {store after : Store} {compiler : CompilerRef} {automaton : AutomatonRef}

theorem run_advance (store : Store) (compiler : CompilerRef) (distance : Nat) :
    (advance compiler distance).run store =
      .ok () (store.changeCompiler compiler fun content =>
        { content with cursor := content.cursor + distance }) := rfl

theorem run_abandon {α : Type} (store : Store) (compiler : CompilerRef) (failure : Failure) :
    ∃ fault after, (abandon compiler failure : Action α).run store = .error fault after :=
  ⟨_, _, rfl⟩

/-- Compiling as it goes with some way to read patterns. -/
def compileBy (read : List Char → Except Failure Tree) (compiler : CompilerRef) :
    Action AutomatonRef := do
  modify (·.changeCompiler compiler ({ · with literals := ∅ }))
  let characters ← ahead compiler
  match read characters with
  | .error failure => reporting compiler (abandon compiler failure)
  | .ok tree =>
      advance compiler characters.length
      let automaton ← build compiler tree
      addLetters automaton (← Action.compiler compiler).literals.toList
      return automaton

variable {read : List Char → Except Failure Tree}

/-- Compiling clears the literals and reads what lies ahead. -/
theorem run_compileBy (read : List Char → Except Failure Tree)
    (held : compiler ∈ store.compilers) :
    (compileBy read compiler).run store =
      (match read (store.compilers.get compiler).ahead with
        | .error failure => reporting compiler (abandon compiler failure)
        | .ok tree => do
            advance compiler (store.compilers.get compiler).ahead.length
            let automaton ← build compiler tree
            addLetters automaton (← Action.compiler compiler).literals.toList
            return automaton : Action AutomatonRef).run
        (store.changeCompiler compiler ({ · with literals := ∅ })) := by
  have cleared : ((store.changeCompiler compiler ({ · with literals := ∅ })).compilers.get
      compiler).ahead = (store.compilers.get compiler).ahead := by
    rw [Store.compilers_changeCompiler, Heap.get_change_self held]
    rfl
  rw [← cleared]
  rfl

theorem run_compile (held : compiler ∈ store.compilers) :
    (compile compiler).run store =
      (match readPattern (store.compilers.get compiler).ahead with
        | .error failure => reporting compiler (abandon compiler failure)
        | .ok tree => do
            advance compiler (store.compilers.get compiler).ahead.length
            let automaton ← build compiler tree
            addLetters automaton (← Action.compiler compiler).literals.toList
            return automaton : Action AutomatonRef).run
        (store.changeCompiler compiler ({ · with literals := ∅ })) :=
  run_compileBy readPattern held

/-- A tree that is read is compiled. Its fragment is made out of new states, and nothing
that was there is changed but the compiler. -/
theorem run_compileBy_of_ok (held : compiler ∈ store.compilers) {tree : Tree}
    (given : read (store.compilers.get compiler).ahead = .ok tree) :
    ∃ automaton after refs, (compileBy read compiler).run store = .ok automaton after ∧
      after.Holds automaton refs (tree.fragment (store.compilers.get compiler).names)
        tree.alphabet ∧
      store.KeptIn after ∧ automaton ∉ store.automata ∧ (∀ ref ∈ refs, ref ∉ store.states) ∧
      after.compilers = store.compilers.change compiler (·.finish tree) := by
  rw [run_compileBy read held, given]
  generalize lies : (store.compilers.get compiler).ahead = characters
  let advanced : Store := (store.changeCompiler compiler ({ · with literals := ∅ })).changeCompiler
    compiler fun content => { content with cursor := content.cursor + characters.length }
  have advancedHeld : compiler ∈ advanced.compilers :=
    Heap.mem_change.mpr (Heap.mem_change.mpr held)
  have advancedContent : advanced.compilers.get compiler =
      { store.compilers.get compiler with
        cursor := (store.compilers.get compiler).cursor + characters.length
        literals := ∅ } := by
    rw [Store.compilers_changeCompiler, Store.compilers_changeCompiler, Heap.change_change,
      Heap.get_change_self held]
  have kept : store.KeptIn advanced :=
    ((Store.KeptIn.refl store).changeCompiler compiler _).changeCompiler compiler _
  obtain ⟨automaton, after, refs, ran, built, spent⟩ := builds compiler tree advanced advancedHeld
  have ⟨_, content⟩ := get_spent advancedHeld spent
  rw [advancedContent] at built content
  have since := built.since kept
  have literals : (after.compilers.get compiler).literals = tree.alphabet := by
    rw [content]
    rfl
  have learned : (addLetters automaton tree.alphabet.toList).run after =
      .ok () (after.changeAutomaton automaton (·.learnAll tree.alphabet.toList)) :=
    run_addLetters fun _ member => Tree.letter_of_mem_alphabet member
  have holds := since.holds.learnAll tree.alphabet.toList
  rw [← StringSet.ofList, StringSet.ofList_toList] at holds
  refine ⟨automaton, _, refs, ?_, holds, ?_, since.made, since.refsMade, ?_⟩
  · refine (run_bind_of_ok (run_advance _ compiler _)).trans ?_
    refine (run_bind_of_ok ran).trans ?_
    refine (run_bind_of_ok (run_compiler after compiler)).trans ?_
    rw [literals]
    exact run_bind_of_ok learned
  · exact ⟨since.kept.states, since.kept.automata.change since.made _, since.kept.counters⟩
  · rw [Store.compilers_changeAutomaton, spent, Store.compilers_changeCompiler,
      Store.compilers_changeCompiler, Heap.change_change, Heap.change_change]
    apply Heap.change_congr
    rw [Compiler.finish, lies]
    rfl

theorem run_compile_of_ok (held : compiler ∈ store.compilers) {tree : Tree}
    (read : readPattern (store.compilers.get compiler).ahead = .ok tree) :
    ∃ automaton after refs, (compile compiler).run store = .ok automaton after ∧
      after.Holds automaton refs (tree.fragment (store.compilers.get compiler).names)
        tree.alphabet ∧
      store.KeptIn after ∧ automaton ∉ store.automata ∧ (∀ ref ∈ refs, ref ∉ store.states) ∧
      after.compilers = store.compilers.change compiler (·.finish tree) :=
  run_compileBy_of_ok held read

/-- A reading that fails makes compiling fail. -/
theorem run_compile_of_error (held : compiler ∈ store.compilers) {failure : Failure}
    (read : readPattern (store.compilers.get compiler).ahead = .error failure) :
    ∃ fault after, (compile compiler).run store = .error fault after := by
  rw [run_compile held, read]
  obtain ⟨_, _, left⟩ := run_abandon (α := AutomatonRef) _ compiler failure
  exact ⟨_, _, run_reporting_of_error left⟩

/-- What compiling gave is the fragment of the tree that was read. -/
theorem holds_of_compile (held : compiler ∈ store.compilers)
    (ran : (compile compiler).run store = .ok automaton after) :
    ∃ tree refs, readPattern (store.compilers.get compiler).ahead = .ok tree ∧
      after.Holds automaton refs (tree.fragment (store.compilers.get compiler).names)
        tree.alphabet ∧
      after.compilers = store.compilers.change compiler (·.finish tree) := by
  cases read : readPattern (store.compilers.get compiler).ahead with
  | error failure =>
      obtain ⟨fault, left, failed⟩ := run_compile_of_error held read
      rw [failed] at ran
      cases ran
  | ok tree =>
      obtain ⟨result, final, refs, compiled, holds, _, _, _, finished⟩ :=
        run_compile_of_ok held read
      rw [compiled] at ran
      cases ran
      exact ⟨tree, refs, rfl, holds, finished⟩

/-- The automaton that compiling gives has the machine of the tree that was read as its
value. -/
theorem machine_of_compile (held : compiler ∈ store.compilers)
    (ran : (compile compiler).run store = .ok automaton after) :
    ∃ tree, readPattern (store.compilers.get compiler).ahead = .ok tree ∧
      after.machine automaton =
        (tree.fragment (store.compilers.get compiler).names).machine tree.alphabet := by
  obtain ⟨tree, refs, read, holds, _⟩ := holds_of_compile held ran
  exact ⟨tree, read, holds.machine_eq (tree.nodup_names_fragment _)⟩

end Action

end PatternAutomata
