import PatternAutomata.Proofs.Recognition
import PatternAutomata.Proofs.Store.Failing

/-! # Which patterns are compiled

Compiling accepts exactly the grammar: where nesting is no obstacle, a pattern is compiled
if and only if it has a parse tree, which is unique and gives the automaton. A pattern that
is not compiled is complained about at the earliest place at which this is certain, and at
its end if and only if it can still be completed.
-/

namespace PatternAutomata.Action

variable {store after : Store} {compiler : CompilerRef} {automaton : AutomatonRef}

theorem compiles_iff_readPattern (held : compiler ∈ store.compilers) :
    (∃ automaton after, (compile compiler).run store = .ok automaton after) ↔
      ∃ tree, readPattern (store.compilers.get compiler).ahead = .ok tree := by
  constructor
  · rintro ⟨automaton, after, ran⟩
    obtain ⟨tree, read, _⟩ := machine_of_compile held ran
    exact ⟨tree, read⟩
  · rintro ⟨tree, read⟩
    obtain ⟨automaton, after, _, ran, _⟩ := run_compile_of_ok held read
    exact ⟨automaton, after, ran⟩

/-- A compiler that compiled a pattern has come to the end of it. -/
theorem cursor_of_compile (held : compiler ∈ store.compilers)
    (ran : (compile compiler).run store = .ok automaton after) :
    (after.compilers.get compiler).cursor = (store.compilers.get compiler).pattern.length := by
  obtain ⟨tree, refs, read, _, finished⟩ := holds_of_compile held ran
  have spelled : tree.text = (store.compilers.get compiler).pattern.drop
      (store.compilers.get compiler).cursor := text_of_readPattern read
  have within : (store.compilers.get compiler).cursor <
      (store.compilers.get compiler).pattern.length := by
    apply Nat.lt_of_not_le
    intro beyond
    rw [List.drop_eq_nil_of_le beyond] at spelled
    exact tree.text_ne_nil spelled
  rw [finished, Heap.get_change_self held, Compiler.finish, Compiler.ahead, List.length_drop]
  exact Nat.add_sub_cancel' within.le

/-- **Exactly the grammar.** The patterns that are compiled are those with a parse tree for
which the frames suffice, and so all with a parse tree among those that do not nest too
deeply. The parse tree is the only one, and the automaton has its fragment. -/
theorem compile_iff_parses (held : compiler ∈ store.compilers) :
    ((∃ automaton after, (compile compiler).run store = .ok automaton after) ↔
        ∃ tree : Tree, tree.Parses (store.compilers.get compiler).ahead ∧
          tree.frames ≤ frameBound) ∧
      ((∀ position found after, (compile compiler).run store ≠
          .error (.badPattern (.tooDeep position found)) after) →
        ((∃ automaton after, (compile compiler).run store = .ok automaton after) ↔
          ∃ tree : Tree, tree.Parses (store.compilers.get compiler).ahead)) ∧
      ∀ automaton after, (compile compiler).run store = .ok automaton after →
        ∃ tree : Tree, tree.Parses (store.compilers.get compiler).ahead ∧
          (∀ other : Tree, other.Parses (store.compilers.get compiler).ahead → other = tree) ∧
          (after.compilers.get compiler).cursor =
            (store.compilers.get compiler).pattern.length ∧
          after.machine automaton =
            (tree.fragment (store.compilers.get compiler).names).machine tree.alphabet := by
  refine ⟨?_, fun shallow => ?_, fun automaton after ran => ?_⟩
  · simp only [compiles_iff_readPattern held, readPattern_eq_ok_iff]
  · rw [compiles_iff_readPattern held]
    constructor
    · rintro ⟨tree, read⟩
      exact ⟨tree, parses_of_readPattern read⟩
    · rintro ⟨tree, parses⟩
      refine ⟨tree, parses.readPattern_eq fun failure read deep => ?_⟩
      have failed := run_compile_of_failure held read
      rw [deep, Complaint.report_tooDeep] at failed
      exact shallow _ _ _ failed
  · obtain ⟨tree, read, value⟩ := machine_of_compile held ran
    exact ⟨tree, parses_of_readPattern read,
      fun other parses => parses.unique (parses_of_readPattern read),
      cursor_of_compile held ran, value⟩

/-- A star at the beginning is a letter, and stars behind a letter repeat it. -/
theorem compile_iff_parses_leading_star :
    (⟨0⟩ : CompilerRef) ∈ (Store.reading ['*', 'a', '*', '*', '|', 'b']).compilers ∧
      (∀ position found after, (compile ⟨0⟩).run (.reading ['*', 'a', '*', '*', '|', 'b']) ≠
        .error (.badPattern (.tooDeep position found)) after) ∧
      ∃ automaton after,
        (compile ⟨0⟩).run (.reading ['*', 'a', '*', '*', '|', 'b']) = .ok automaton after ∧
        (after.compilers.get ⟨0⟩).cursor = 6 ∧
        after.machine automaton =
          (Tree.alt (.concat (.literal '*') (.star (.star (.literal 'a')))) (.literal 'b')).machine := by
  have parsed : readPattern ['*', 'a', '*', '*', '|', 'b'] =
      .ok (.alt (.concat (.literal '*') (.star (.star (.literal 'a')))) (.literal 'b')) := by
    decide
  have held : (⟨0⟩ : CompilerRef) ∈
      (Store.reading ['*', 'a', '*', '*', '|', 'b']).compilers := by
    decide
  have shallow : ∀ position found after,
      (compile ⟨0⟩).run (.reading ['*', 'a', '*', '*', '|', 'b']) ≠
        .error (.badPattern (.tooDeep position found)) after := by
    obtain ⟨automaton, final, ran⟩ := exists_run_compile parsed
    rw [ran]
    exact nofun
  obtain ⟨_, compiles, value⟩ := compile_iff_parses held
  obtain ⟨automaton, after, ran⟩ := (compiles shallow).mpr ⟨_, parses_of_readPattern parsed⟩
  obtain ⟨tree, _, unique, cursor, machine⟩ := value automaton after ran
  cases unique _ (parses_of_readPattern parsed)
  exact ⟨held, shallow, automaton, after, ran, cursor, machine⟩

section Complaints

variable {failure : Failure} {front rest : List Char} {next : Char}

/-- A complaint at the end of the pattern. -/
theorem run_compile_atEnd (held : compiler ∈ store.compilers)
    (read : readPattern (store.compilers.get compiler).ahead = .error failure)
    (shallow : failure.complaint ≠ .tooDeep) (left : failure.rest = []) :
    ∃ after, (compile compiler).run store =
      .error (.badPattern (.unexpectedEnd failure.complaint.words
        ((store.compilers.get compiler).cursor + (store.compilers.get compiler).ahead.length : Nat)
        none)) after := by
  have begins : (store.compilers.get compiler).ahead =
      (store.compilers.get compiler).ahead ++ failure.rest := by
    rw [left, List.append_nil]
  have failed := run_compile_of_failure held read
  rw [Compiler.cursor_leave begins, Compiler.ahead_leave begins, left,
    Complaint.report_of_shallow shallow, Complaint.fault_nil shallow] at failed
  exact ⟨_, failed⟩

/-- A complaint at a character of the pattern. -/
theorem run_compile_near (held : compiler ∈ store.compilers)
    (read : readPattern (store.compilers.get compiler).ahead = .error failure)
    (shallow : failure.complaint ≠ .tooDeep)
    (begins : (store.compilers.get compiler).ahead = front ++ failure.rest)
    (left : failure.rest = next :: rest) :
    ∃ after, (compile compiler).run store =
      .error (.badPattern (.unexpected failure.complaint.words
        ((store.compilers.get compiler).cursor + front.length : Nat)
        (some (String.singleton next)))) after := by
  have known : ∀ text, failure.complaint ≠ .expected text := by
    intro text expected
    rw [(breaks_of_readPattern_error read).missing text expected] at left
    cases left
  have failed := run_compile_of_failure held read
  rw [Compiler.cursor_leave begins, Compiler.ahead_leave begins, left,
    Complaint.report_of_shallow shallow, Complaint.fault_cons shallow known] at failed
  exact ⟨_, failed⟩

/-- Patterns that share the characters up to the place of a failure, and the character at
the place, fail alike. -/
theorem readPattern_of_alike {pattern other : List Char}
    (failed : readPattern pattern = .error failure) (shallow : failure.complaint ≠ .tooDeep)
    (begins : pattern = front ++ failure.rest) (left : failure.rest = next :: rest)
    (alike : other.take (front.length + 1) = pattern.take (front.length + 1)) :
    ∃ later, other = front ++ next :: later ∧
      readPattern other = .error { failure with rest := next :: later } := by
  have taken : other.take (front.length + 1) = front ++ [next] := by
    rw [alike, begins, left, List.take_length_add_append]
    rfl
  have otherBegins : other = front ++ next :: other.drop (front.length + 1) := by
    conv_lhs => rw [← List.take_append_drop (front.length + 1) other, taken]
    rw [List.append_assoc, List.singleton_append]
  obtain ⟨front', begins', _, beyond⟩ := readPattern_error_place failed shallow
  cases List.append_cancel_right (begins.symm.trans begins')
  refine ⟨_, otherBegins, ?_⟩
  conv_lhs => rw [otherBegins]
  exact (beyond (by rw [left]; rfl)).2

/-- A complaint at a character is made about all patterns alike that share the characters up
to it. -/
theorem run_compile_of_alike {pattern other : List Char}
    (failed : readPattern pattern = .error failure) (shallow : failure.complaint ≠ .tooDeep)
    (begins : pattern = front ++ failure.rest) (left : failure.rest = next :: rest)
    (alike : other.take (front.length + 1) = pattern.take (front.length + 1))
    (held : compiler ∈ store.compilers)
    (unread : store.compilers.get compiler = { pattern := other }) :
    ∃ after, (compile compiler).run store =
      .error (.badPattern (.unexpected failure.complaint.words (front.length : Nat)
        (some (String.singleton next)))) after := by
  obtain ⟨later, otherBegins, readOther⟩ := readPattern_of_alike failed shallow begins left alike
  have lies : (store.compilers.get compiler).ahead = other := by
    rw [unread]
    rfl
  rw [← lies] at readOther otherBegins
  obtain ⟨after, complained⟩ := run_compile_near held readOther shallow otherBegins rfl
  rw [unread, Nat.zero_add] at complained
  exact ⟨after, complained⟩

end Complaints

/-- **Complaints come at the earliest place.** The complaint about a pattern is made at its
end if and only if it can be completed. Otherwise it is made at a character of the pattern,
the first with which no pattern that has a parse tree goes on, and all patterns that share
the characters up to it get the same complaint. -/
theorem compile_complains_earliest {pattern : List Char} {fault : Fault}
    (held : compiler ∈ store.compilers)
    (unread : store.compilers.get compiler = { pattern })
    (ran : (compile compiler).run store = .error fault after)
    (shallow : ∀ position found, fault ≠ .badPattern (.tooDeep position found)) :
    ((∃ what, fault = .badPattern (.unexpectedEnd what pattern.length none)) ↔
        ∃ later, ∃ tree : Tree, tree.Parses (pattern ++ later)) ∧
      ((¬ ∃ later, ∃ tree : Tree, tree.Parses (pattern ++ later)) →
        ∃ (place : Nat) (inside : place < pattern.length) (what : String),
          fault = .badPattern
            (.unexpected what place (some (String.singleton pattern[place]))) ∧
          (∃ later, ∃ tree : Tree, tree.Parses (pattern.take place ++ later)) ∧
          (∀ later, ∀ tree : Tree, ¬ tree.Parses (pattern.take (place + 1) ++ later)) ∧
          ∀ (other : List Char) (elsewhere : Store) (reader : CompilerRef),
            other.take (place + 1) = pattern.take (place + 1) →
            reader ∈ elsewhere.compilers →
            elsewhere.compilers.get reader = { pattern := other } →
              ∃ after, (compile reader).run elsewhere = .error fault after) := by
  obtain ⟨failure, read, made⟩ := failure_of_compile held ran
  have notDeep : failure.complaint ≠ .tooDeep := by
    intro deep
    rw [deep, Complaint.report_tooDeep] at made
    exact shallow _ _ made
  have lies : (store.compilers.get compiler).ahead = pattern := by
    rw [unread]
    rfl
  obtain ⟨front, begins, completed, beyond⟩ := readPattern_error_place read notDeep
  cases left : failure.rest with
  | nil =>
      obtain ⟨later, complained⟩ := run_compile_atEnd held read notDeep left
      rw [ran, lies, unread, Nat.zero_add] at complained
      cases complained
      rw [left, List.append_nil, lies] at begins
      rw [← begins] at completed
      exact ⟨⟨fun _ => completed, fun _ => ⟨_, rfl⟩⟩, fun never => absurd completed never⟩
  | cons next rest =>
      rw [lies] at read begins
      obtain ⟨later, complained⟩ :=
        run_compile_of_alike read notDeep begins left rfl held unread
      rw [ran] at complained
      cases complained
      have spelled : pattern = front ++ next :: rest := left ▸ begins
      have beyondNext (later : List Char) (tree : Tree) :
          ¬ tree.Parses (front ++ next :: later) :=
        (beyond (by rw [left]; rfl)).1 tree
      have never : ¬ ∃ later, ∃ tree : Tree, tree.Parses (pattern ++ later) := by
        rintro ⟨later, tree, parses⟩
        rw [spelled, List.append_assoc] at parses
        exact beyondNext _ tree parses
      refine ⟨⟨fun atEnd => ?_, fun completed => absurd completed never⟩, fun _ => ?_⟩
      · obtain ⟨what, same⟩ := atEnd
        cases same
      · refine ⟨front.length, ?_, failure.complaint.words, ?_, ?_, ?_, ?_⟩
        · rw [spelled, List.length_append, List.length_cons]
          omega
        · simp [spelled]
        · rw [spelled, List.take_left]
          exact completed
        · intro later tree
          rw [spelled, List.take_length_add_append, List.append_assoc]
          exact beyondNext later tree
        · intro other elsewhere reader alike heldThere unreadThere
          exact run_compile_of_alike read notDeep begins left alike heldThere unreadThere

/-- An empty alternative is complained about at the parenthesis behind it. -/
theorem compile_complains_earliest_empty_alternative :
    (⟨0⟩ : CompilerRef) ∈ (Store.reading ['(', 'a', '|', ')', 'b']).compilers ∧
      (Store.reading ['(', 'a', '|', ')', 'b']).compilers.get ⟨0⟩ =
        { pattern := ['(', 'a', '|', ')', 'b'] } ∧
      ∃ after, (compile ⟨0⟩).run (.reading ['(', 'a', '|', ')', 'b']) =
          .error (.badPattern (.unexpected "Expected a character or '('" 3 (some ")"))) after ∧
        (∃ later, ∃ tree : Tree, tree.Parses (['(', 'a', '|'] ++ later)) ∧
        ∀ later, ∀ tree : Tree, ¬ tree.Parses (['(', 'a', '|', ')'] ++ later) := by
  have read : readPattern ['(', 'a', '|', ')', 'b'] =
      .error { complaint := .emptyTerm, rest := [')', 'b'], finished := [.literal 'a'] } := by
    decide
  have held : (⟨0⟩ : CompilerRef) ∈ (Store.reading ['(', 'a', '|', ')', 'b']).compilers := by decide
  have unread : (Store.reading ['(', 'a', '|', ')', 'b']).compilers.get ⟨0⟩ =
      { pattern := ['(', 'a', '|', ')', 'b'] } := by
    decide
  have begins : ['(', 'a', '|', ')', 'b'] = ['(', 'a', '|'] ++ [')', 'b'] := rfl
  obtain ⟨after, ran⟩ := run_compile_near held read nofun begins rfl
  obtain ⟨atEnd, otherwise⟩ := compile_complains_earliest held unread ran nofun
  have never : ¬ ∃ later, ∃ tree : Tree,
      tree.Parses (['(', 'a', '|', ')', 'b'] ++ later) := by
    intro completed
    obtain ⟨what, same⟩ := atEnd.mpr completed
    cases same
  obtain ⟨place, inside, what, same, completed, beyond, _⟩ := otherwise never
  cases same
  exact ⟨held, unread, after, ran, completed, beyond⟩

end PatternAutomata.Action
