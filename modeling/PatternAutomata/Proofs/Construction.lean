import PatternAutomata.Compiled
import PatternAutomata.Proofs.Pattern.Shape
import PatternAutomata.Proofs.Reading
import PatternAutomata.Proofs.Store.Descent
import PatternAutomata.Proofs.Store.WellFormed

/-! # What compiling builds

Compiling works on shared states, which it changes while it puts automata together. What it
gives is all the same what a construction without any state gives, in which a count of names
goes through the tree from left to right (`Tree.construct`); it depends on no more than the
shape of the tree, and it is well formed. Where there is no such result the pattern is to
blame: building itself never fails.
-/

namespace PatternAutomata

namespace Tree

/-- The fragment of a tree whose names are counted from a number on, and the count after it.
The count goes from part to part. -/
def construct : Tree → (count : Nat) → Fragment × Nat
  | literal character, count => (Fragment.literal count character, count + 2)
  | escaped character, count => (Fragment.literal count character, count + 2)
  | group inner, count => inner.construct count
  | star inner, count =>
      let (body, count) := inner.construct count
      (body.star, count)
  | concat left right, count =>
      let (first, count) := left.construct count
      let (second, count) := right.construct count
      (first.concat second, count)
  | alt left right, count =>
      let (first, count) := left.construct count
      let (second, count) := right.construct count
      (Fragment.alt count first second, count + 1)

theorem construct_eq (tree : Tree) (count : Nat) :
    tree.construct count = (tree.fragment count, count + tree.names) := by
  induction tree generalizing count with
  | literal _ => rfl
  | escaped _ => rfl
  | group _ ih => exact ih count
  | star _ ih => simp only [construct, ih, fragment, names]
  | concat _ _ leftIH rightIH =>
      simp only [construct, leftIH, rightIH, fragment, names, Nat.add_assoc]
  | alt _ _ leftIH rightIH =>
      simp only [construct, leftIH, rightIH, fragment, names, Nat.add_assoc]

end Tree

/-- The faults of a pattern that cannot be read. -/
def Fault.OfReading : Fault → Prop
  | badPattern (.unexpected _ _ _) => True
  | badPattern (.unexpectedEnd _ _ _) => True
  | badPattern (.tooDeep _ _) => True
  | _ => False

namespace Action

variable {store after : Store} {compiler : CompilerRef} {automaton : AutomatonRef}

/-- Compiling a pattern on its own comes to the same as compiling it in a store. -/
theorem compile_eq_of_unread {pattern : List Char} (held : compiler ∈ store.compilers)
    (unread : store.compilers.get compiler = { pattern }) :
    PatternAutomata.compile pattern =
      match (compile compiler).run store with
      | .ok automaton after =>
          .ok { machine := after.machine automaton
                cursor := (after.compilers.get compiler).cursor
                names := (after.compilers.get compiler).names }
      | .error fault _ => .error fault := by
  have lies : (store.compilers.get compiler).ahead = pattern := by
    rw [unread]
    rfl
  cases read : readPattern pattern with
  | ok tree =>
      rw [← lies] at read
      obtain ⟨automaton, after, _, ran, holds, _, _, _, finished⟩ := run_compile_of_ok held read
      rw [lies] at read
      simp only [ran, finished, Heap.get_change_self held]
      simp only [holds.machine_eq (tree.nodup_names_fragment _), unread, Compiler.finish,
        PatternAutomata.compile, read, Tree.machine, Nat.zero_add, Compiler.ahead, List.drop_zero]
  | error failure =>
      rw [← lies] at read
      rw [run_compile_of_failure held read]
      rw [lies] at read
      simp only [PatternAutomata.compile, read, unread]
      obtain ⟨front, _, _, begins, _⟩ := (breaks_of_readPattern_error read).completed
      have begins' : ({ pattern } : Compiler).ahead = front ++ failure.rest := begins
      rw [Compiler.ahead_leave begins']
      simp only [Compiler.leave, Compiler.ahead, List.drop_zero, Nat.zero_add]

/-- **Sharing does not show.** What compiling gives is what the construction without any
state gives for the parse tree, and the count of names is the same; and it makes no
difference whether building begins while reading goes on. -/
theorem compile_eq_construct (held : compiler ∈ store.compilers)
    (ran : (compile compiler).run store = .ok automaton after) :
    ∃ tree : Tree, tree.Parses (store.compilers.get compiler).ahead ∧
      after.machine automaton =
        (tree.construct (store.compilers.get compiler).names).1.machine tree.alphabet ∧
      (after.compilers.get compiler).names =
        (tree.construct (store.compilers.get compiler).names).2 ∧
      (Descent.compile compiler).run store = .ok automaton after := by
  obtain ⟨tree, refs, read, holds, finished⟩ := holds_of_compile held ran
  refine ⟨tree, parses_of_readPattern read, ?_, ?_, ?_⟩
  · rw [tree.construct_eq]
    exact holds.machine_eq (tree.nodup_names_fragment _)
  · rw [tree.construct_eq, finished, Heap.get_change_self held]
    rfl
  · have agree := Descent.compile_agrees held
    rw [ran] at agree
    cases descended : (Descent.compile compiler).run store with
    | ok other later =>
        rw [descended] at agree
        obtain ⟨rfl, rfl⟩ := agree
        rfl
    | error fault later =>
        rw [descended] at agree
        exact agree.elim

/-- A repeated letter and another one behind it. -/
theorem compile_eq_construct_letter_star_letter :
    (⟨0⟩ : CompilerRef) ∈ (Store.reading ['a', '*', 'b']).compilers ∧
      ∃ automaton after, (compile ⟨0⟩).run (.reading ['a', '*', 'b']) = .ok automaton after ∧
        (after.machine automaton) =
          { start := some "0"
            states := Table.ofList [
              ("0", { name := "0", transitions := Table.ofList [
                ("a", StringSet.ofList ["1"]), (epsilon, StringSet.ofList ["1"])] }),
              ("1", { name := "1", transitions := Table.ofList [
                (epsilon, StringSet.ofList ["0", "2"])] }),
              ("2", { name := "2", transitions := Table.ofList [("b", StringSet.ofList ["3"])] }),
              ("3", { name := "3", accepting := true })]
            accepting := ["3"]
            alphabet := StringSet.ofList ["a", "b"] } ∧
        (after.compilers.get ⟨0⟩).names = 4 := by
  have parsed : readPattern ['a', '*', 'b'] =
      .ok (.concat (.star (.literal 'a')) (.literal 'b')) := by
    decide
  have held : (⟨0⟩ : CompilerRef) ∈ (Store.reading ['a', '*', 'b']).compilers := by decide
  obtain ⟨automaton, after, ran⟩ := exists_run_compile parsed
  obtain ⟨tree, parses, value, names, _⟩ := compile_eq_construct held ran
  cases parses.unique (parses_of_readPattern parsed)
  refine ⟨held, automaton, after, ran, ?_, ?_⟩
  · rw [value]
    decide
  · rw [names]
    decide

/-- The parse tree of a compiled pattern gives the value of the automaton, and the number of
names that were given out. -/
theorem value_of_compile {tree : Tree} (held : compiler ∈ store.compilers)
    (parses : tree.Parses (store.compilers.get compiler).ahead)
    (ran : (compile compiler).run store = .ok automaton after) :
    after.machine automaton =
        (tree.fragment (store.compilers.get compiler).names).machine tree.alphabet ∧
      (after.compilers.get compiler).names =
        (store.compilers.get compiler).names + tree.names := by
  obtain ⟨_, refs, read, holds, finished⟩ := holds_of_compile held ran
  cases (parses_of_readPattern read).unique parses
  refine ⟨holds.machine_eq (tree.nodup_names_fragment _), ?_⟩
  rw [finished, Heap.get_change_self held, Compiler.finish]

/-- **Only the shape matters.** Patterns whose parse trees have one shape are compiled to
automata of one value, and take as many names. -/
theorem compile_eq_of_shape {store' after' : Store} {compiler' : CompilerRef}
    {automaton' : AutomatonRef} {tree tree' : Tree}
    (held : compiler ∈ store.compilers) (held' : compiler' ∈ store'.compilers)
    (parses : tree.Parses (store.compilers.get compiler).ahead)
    (parses' : tree'.Parses (store'.compilers.get compiler').ahead)
    (alike : tree.shape = tree'.shape)
    (counted : (store.compilers.get compiler).names = (store'.compilers.get compiler').names)
    (ran : (compile compiler).run store = .ok automaton after)
    (ran' : (compile compiler').run store' = .ok automaton' after') :
    after.machine automaton = after'.machine automaton' ∧
      (after.compilers.get compiler).names = (after'.compilers.get compiler').names := by
  obtain ⟨value, names⟩ := value_of_compile held parses ran
  obtain ⟨value', names'⟩ := value_of_compile held' parses' ran'
  constructor
  · rw [value, value', ← tree.fragment_shape, ← tree.alphabet_shape, alike, counted,
      tree'.fragment_shape, tree'.alphabet_shape]
  · rw [names, names', ← tree.names_shape, alike, counted, tree'.names_shape]

/-- Groups, a backslash and a second star make no difference. -/
theorem compile_eq_of_shape_regrouped :
    ∃ (tree tree' : Tree) (automaton automaton' : AutomatonRef) (after after' : Store),
      tree.Parses ['(', '(', 'a', 'b', ')', 'c', ')', '*', '*', '|', '(', 'd', '|', '\\', 'e', ')'] ∧
      tree'.Parses ['(', 'a', '(', 'b', 'c', ')', ')', '*', '|', 'd', '|', 'e'] ∧
      tree ≠ tree' ∧ tree.shape = tree'.shape ∧
      (compile ⟨0⟩).run (.reading
        ['(', '(', 'a', 'b', ')', 'c', ')', '*', '*', '|', '(', 'd', '|', '\\', 'e', ')']) =
          .ok automaton after ∧
      (compile ⟨0⟩).run (.reading ['(', 'a', '(', 'b', 'c', ')', ')', '*', '|', 'd', '|', 'e']) =
        .ok automaton' after' ∧
      after.machine automaton = after'.machine automaton' ∧
      (after.compilers.get ⟨0⟩).names = (after'.compilers.get ⟨0⟩).names := by
  have parsed : readPattern
      ['(', '(', 'a', 'b', ')', 'c', ')', '*', '*', '|', '(', 'd', '|', '\\', 'e', ')'] =
        .ok (.alt (.star (.star (.group (.concat (.group (.concat (.literal 'a') (.literal 'b')))
          (.literal 'c'))))) (.group (.alt (.literal 'd') (.escaped 'e')))) := by
    decide +kernel
  have parsed' : readPattern ['(', 'a', '(', 'b', 'c', ')', ')', '*', '|', 'd', '|', 'e'] =
      .ok (.alt (.star (.group (.concat (.literal 'a')
        (.group (.concat (.literal 'b') (.literal 'c')))))) (.alt (.literal 'd') (.literal 'e'))) := by
    decide +kernel
  have held : (⟨0⟩ : CompilerRef) ∈ (Store.reading
      ['(', '(', 'a', 'b', ')', 'c', ')', '*', '*', '|', '(', 'd', '|', '\\', 'e', ')']).compilers := by
    decide
  have held' : (⟨0⟩ : CompilerRef) ∈ (Store.reading
      ['(', 'a', '(', 'b', 'c', ')', ')', '*', '|', 'd', '|', 'e']).compilers := by
    decide
  obtain ⟨automaton, after, ran⟩ := exists_run_compile parsed
  obtain ⟨automaton', after', ran'⟩ := exists_run_compile parsed'
  have parses := parses_of_readPattern parsed
  have parses' := parses_of_readPattern parsed'
  refine ⟨_, _, automaton, automaton', after, after', parses, parses', nofun, rfl, ran, ran', ?_⟩
  exact compile_eq_of_shape held held' parses parses' rfl rfl ran ran'

/-- A complaint about a reading that failed is a fault of reading. -/
theorem ofReading_of_compile {fault : Fault} (held : compiler ∈ store.compilers)
    (ran : (compile compiler).run store = .error fault after) : fault.OfReading := by
  obtain ⟨failure, read, made⟩ := failure_of_compile held ran
  by_cases deep : failure.complaint = .tooDeep
  · rw [made, deep, Complaint.report_tooDeep]
    trivial
  · cases left : failure.rest with
    | nil =>
        obtain ⟨_, complained⟩ := run_compile_atEnd held read deep left
        rw [ran] at complained
        cases complained
        trivial
    | cons next rest =>
        obtain ⟨front, _, _, begins, _⟩ := (breaks_of_readPattern_error read).completed
        obtain ⟨_, complained⟩ := run_compile_near held read deep begins left
        rw [ran] at complained
        cases complained
        trivial

/-- **Compiling is safe.** It gives an automaton that is well formed, so that nothing that
is asked of it fails, or a complaint about the pattern. Building while reading comes to the
same, so no other fault lies behind a reading that fails. -/
theorem compile_wellFormed (held : compiler ∈ store.compilers) :
    ((∃ automaton after, (compile compiler).run store = .ok automaton after ∧
          after.WellFormed automaton ∧
          (∀ ref ∈ (after.automata.get automaton).owned.values,
            (∃ names, (after.machine automaton).closure (after.states.get ref).name = .ok names) ∧
              ∀ symbol, ∃ states,
                (after.machine automaton).moves (after.states.get ref) symbol = .ok states) ∧
          (∀ word, ∃ answer, (after.machine automaton).accepts word = .ok answer) ∧
          (after.machine automaton).print.fault = none) ∨
        ∃ fault after, (compile compiler).run store = .error fault after ∧ fault.OfReading) ∧
      Descent.Agree store ((Descent.compile compiler).run store)
        ((compile compiler).run store) := by
  refine ⟨?_, Descent.compile_agrees held⟩
  cases ran : (compile compiler).run store with
  | ok automaton after =>
      obtain ⟨tree, refs, _, holds, _⟩ := holds_of_compile held ran
      have formed := holds.wellFormed (tree.proper_fragment _) (tree.labelled_fragment _)
      exact Or.inl ⟨automaton, after, rfl, formed, formed.answers⟩
  | error fault after => exact Or.inr ⟨fault, after, rfl, ofReading_of_compile held ran⟩

theorem compile_wellFormed_letter_star :
    (⟨0⟩ : CompilerRef) ∈ (Store.reading ['a', '*']).compilers ∧
      ∃ automaton after, (compile ⟨0⟩).run (.reading ['a', '*']) = .ok automaton after ∧
        after.WellFormed automaton ∧ (after.machine automaton).print.fault = none := by
  have parsed : readPattern ['a', '*'] = .ok (.star (.literal 'a')) := by decide
  have held : (⟨0⟩ : CompilerRef) ∈ (Store.reading ['a', '*']).compilers := by decide
  obtain ⟨automaton, after, ran⟩ := exists_run_compile parsed
  rcases (compile_wellFormed held).1 with compiled | failed
  · obtain ⟨automaton, after, ran, formed, _, _, printed⟩ := compiled
    exact ⟨held, automaton, after, ran, formed, printed⟩
  · obtain ⟨fault, left, failed, _⟩ := failed
    rw [ran] at failed
    cases failed

end Action

end PatternAutomata
