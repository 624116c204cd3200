import PatternAutomata.Proofs.Reading
import PatternAutomata.Store.Command

/-! # Compiling again

Compiling takes up the cursor. A compiler that has compiled its pattern, or has failed at
it, stands where no term can begin, and compiling fails there again and again
(`Action.perform_of_spent`). The exception is nesting that was refused: what is left then is
read as a pattern of its own, so that compiling again can give the automaton of a mere end of
the pattern (`Action.exists_run_compile_rest`).
-/

namespace PatternAutomata

/-- A compiler that stands where no term can begin. -/
def Compiler.Spent (compiler : Compiler) : Prop :=
  Reader.endsTerm compiler.ahead = true

theorem readPattern_of_endsTerm {ahead : List Char} (ends : Reader.endsTerm ahead = true) :
    readPattern ahead = .error { complaint := .emptyTerm, rest := ahead } := by
  have refused (inside : Reader) :
      Reader.term inside ahead = .error { complaint := .emptyTerm, rest := ahead } := by
    rw [Reader.term, if_pos ends]
  rw [readPattern_eq_whole, Reader.whole, Reader.regex_eq, Reader.alternatives, refused]

/-- Leaving a reading that has taken nothing changes nothing. -/
theorem Compiler.leave_of_untaken (compiler : Compiler) (complaint : Complaint) :
    compiler.leave { complaint, rest := compiler.ahead } = compiler := by
  simp [leave, Failure.names, Failure.literals]

namespace Action

variable {store : Store} {compiler : CompilerRef}

/-- A spent compiler complains at the cursor and stays where it is. -/
theorem run_compile_of_spent (held : compiler ∈ store.compilers)
    (spent : (store.compilers.get compiler).Spent) :
    (compile compiler).run store =
      .error (Complaint.emptyTerm.fault (store.compilers.get compiler).cursor
          (store.compilers.get compiler).ahead)
        (store.changeCompiler compiler ({ · with literals := ∅ })) := by
  have same (content : Compiler) := content.leave_of_untaken .emptyTerm
  have shallow : Complaint.emptyTerm ≠ .tooDeep := by decide
  rw [run_compile_of_failure held (readPattern_of_endsTerm spent), same,
    Complaint.report_of_shallow shallow, Store.changeCompiler, Store.changeCompiler]
  congr 2
  apply Heap.change_congr
  exact same { store.compilers.get compiler with literals := ∅ }

section Performing

variable {after : Store} {automaton : AutomatonRef} {fault : Fault}

theorem perform_of_run_ok (ran : (compile compiler).run store = .ok automaton after) :
    store.perform (.compile compiler) = (.ok (.automaton automaton), after) :=
  Store.perform_of_ok rfl ran

theorem perform_of_run_error (ran : (compile compiler).run store = .error fault after) :
    store.perform (.compile compiler) = (.error fault, after) :=
  Store.perform_of_error rfl ran

end Performing

/-- **A call that was not refused leaves the compiler spent.** -/
theorem spent_of_perform_compile (held : compiler ∈ store.compilers)
    (shallow : ∀ position found,
      (store.perform (.compile compiler)).1 ≠ .error (.badPattern (.tooDeep position found))) :
    compiler ∈ (store.perform (.compile compiler)).2.compilers ∧
      ((store.perform (.compile compiler)).2.compilers.get compiler).Spent := by
  cases read : readPattern (store.compilers.get compiler).ahead with
  | ok tree =>
      obtain ⟨automaton, after, _, ran, _, _, _, _, finished⟩ := run_compile_of_ok held read
      obtain ⟨heldAfter, content⟩ := get_spent held finished
      rw [perform_of_run_ok ran]
      refine ⟨heldAfter, ?_⟩
      rw [Compiler.Spent, content, Compiler.ahead_finish]
      rfl
  | error failure =>
      have ran := run_compile_of_failure held read
      rw [perform_of_run_error ran] at shallow ⊢
      have known : failure.complaint ≠ .tooDeep := by
        intro deep
        rw [deep, Complaint.report_tooDeep] at shallow
        exact shallow _ _ rfl
      have broken := breaks_of_readPattern_error read
      obtain ⟨front, _, _, begins, _⟩ := broken.completed
      have left : (({ store.compilers.get compiler with literals := ∅ } : Compiler).leave
          failure).ahead = failure.rest :=
        Compiler.ahead_leave begins
      refine ⟨Heap.mem_change.mpr held, ?_⟩
      rw [Store.compilers_changeCompiler, Heap.get_change_self held, Compiler.Spent, left]
      exact broken.stops known

/-- A call that succeeded leaves the compiler at the end of the pattern. -/
theorem atEnd_of_perform_compile {outcome : Outcome} (held : compiler ∈ store.compilers)
    (succeeded : (store.perform (.compile compiler)).1 = .ok outcome) :
    ((store.perform (.compile compiler)).2.compilers.get compiler).cursor =
        (store.compilers.get compiler).pattern.length ∧
      ((store.perform (.compile compiler)).2.compilers.get compiler).ahead = [] := by
  cases ran : (compile compiler).run store with
  | error fault after =>
      rw [perform_of_run_error ran] at succeeded
      cases succeeded
  | ok automaton after =>
      obtain ⟨tree, _, _, _, finished⟩ := holds_of_compile held ran
      rw [perform_of_run_ok ran]
      refine ⟨cursor_of_compile held ran, ?_⟩
      rw [(get_spent held finished).2, Compiler.ahead_finish]

/-- Calls on a spent compiler leave it as it is but for the literals, which are cleared. -/
theorem run_of_spent (held : compiler ∈ store.compilers)
    (spent : (store.compilers.get compiler).Spent) (calls : Nat) :
    compiler ∈ (store.run (List.replicate calls (.compile compiler))).compilers ∧
      ∃ literals, (store.run (List.replicate calls (.compile compiler))).compilers.get compiler =
        { store.compilers.get compiler with literals } := by
  induction calls generalizing store with
  | zero => exact ⟨held, _, rfl⟩
  | succ calls ih =>
      let cleared := store.changeCompiler compiler ({ · with literals := ∅ })
      have clearedHeld : compiler ∈ cleared.compilers := Heap.mem_change.mpr held
      have content : cleared.compilers.get compiler =
          { store.compilers.get compiler with literals := ∅ } :=
        Heap.get_change_self held _
      have next : (store.perform (.compile compiler)).2 = cleared := by
        rw [perform_of_run_error (run_compile_of_spent held spent)]
      have clearedSpent : (cleared.compilers.get compiler).Spent := by
        rw [content]
        exact spent
      obtain ⟨heldAfter, literals, same⟩ := ih clearedHeld clearedSpent
      rw [content] at same
      rw [List.replicate_succ, Store.run, List.foldl_cons, next]
      exact ⟨heldAfter, literals, same⟩

/-- Every call on a spent compiler makes the same complaint and takes no names. -/
theorem perform_of_spent (held : compiler ∈ store.compilers)
    (spent : (store.compilers.get compiler).Spent) (calls : Nat) :
    ((store.run (List.replicate calls (.compile compiler))).perform (.compile compiler)).1 =
        .error (Complaint.emptyTerm.fault (store.compilers.get compiler).cursor
          (store.compilers.get compiler).ahead) ∧
      (((store.run (List.replicate calls (.compile compiler))).perform
        (.compile compiler)).2.compilers.get compiler).names =
          (store.compilers.get compiler).names := by
  obtain ⟨heldLater, literals, content⟩ := run_of_spent held spent calls
  generalize store.run (List.replicate calls (.compile compiler)) = later at *
  have spentLater : (later.compilers.get compiler).Spent := by
    rw [content]
    exact spent
  rw [perform_of_run_error (run_compile_of_spent heldLater spentLater)]
  refine ⟨?_, ?_⟩
  · rw [content]
    rfl
  · rw [Store.compilers_changeCompiler, Heap.get_change_self heldLater, content]

/-- What is said of an empty term is a fault of the pattern. -/
theorem exists_fault_emptyTerm (position : Nat) (ahead : List Char) :
    ∃ error, Complaint.emptyTerm.fault position ahead = .badPattern error ∧
      error.message = "Expected a character or '('" := by
  cases ahead with
  | nil => exact ⟨_, rfl, rfl⟩
  | cons next rest => exact ⟨_, rfl, rfl⟩

/-- **A compiler serves once.** If a call was not refused for too deep nesting, then however
many calls follow it, every one of them fails with a fault of the pattern, that of an empty
term, and takes no names; behind a call that succeeded, it is the fault at the end of the
pattern. -/
theorem compile_again_fails (held : compiler ∈ store.compilers)
    (shallow : ∀ position found,
      (store.perform (.compile compiler)).1 ≠ .error (.badPattern (.tooDeep position found)))
    (calls : Nat) :
    let first := store.perform (.compile compiler)
    let again :=
      (first.2.run (List.replicate calls (.compile compiler))).perform (.compile compiler)
    (∃ error, again.1 = .error (.badPattern error) ∧
        error.message = "Expected a character or '('") ∧
      (again.2.compilers.get compiler).names = (first.2.compilers.get compiler).names ∧
      ∀ outcome, first.1 = .ok outcome →
        again.1 = .error (.badPattern (.unexpectedEnd "Expected a character or '('"
          (store.compilers.get compiler).pattern.length none)) := by
  intro first again
  obtain ⟨heldFirst, spentFirst⟩ := spent_of_perform_compile held shallow
  obtain ⟨complained, names⟩ := perform_of_spent heldFirst spentFirst calls
  refine ⟨?_, names, fun outcome succeeded => ?_⟩
  · obtain ⟨error, same, words⟩ := exists_fault_emptyTerm
      (first.2.compilers.get compiler).cursor (first.2.compilers.get compiler).ahead
    exact ⟨error, complained.trans (congrArg Except.error same), words⟩
  · obtain ⟨cursor, ahead⟩ := atEnd_of_perform_compile held succeeded
    rw [cursor, ahead] at complained
    exact complained

/-- Nothing is left of two letters for the calls behind the first. -/
theorem compile_again_fails_two_letters :
    (⟨0⟩ : CompilerRef) ∈ (Store.reading ['a', 'b']).compilers ∧
      ∃ automaton first, (Store.reading ['a', 'b']).perform (.compile ⟨0⟩) =
          (.ok (.automaton automaton), first) ∧
        ((first.run (List.replicate 2 (.compile ⟨0⟩))).perform (.compile ⟨0⟩)).1 =
          .error (.badPattern (.unexpectedEnd "Expected a character or '('" 2 none)) ∧
        (((first.run (List.replicate 2 (.compile ⟨0⟩))).perform
          (.compile ⟨0⟩)).2.compilers.get ⟨0⟩).names = (first.compilers.get ⟨0⟩).names := by
  have held : (⟨0⟩ : CompilerRef) ∈ (Store.reading ['a', 'b']).compilers := by decide
  have parsed : readPattern ['a', 'b'] = .ok (.concat (.literal 'a') (.literal 'b')) := by decide
  obtain ⟨automaton, first, ran⟩ := exists_run_compile parsed
  have performed : (Store.reading ['a', 'b']).perform (.compile ⟨0⟩) =
      (.ok (.automaton automaton), first) :=
    perform_of_run_ok ran
  have shallow : ∀ position found, ((Store.reading ['a', 'b']).perform (.compile ⟨0⟩)).1 ≠
      .error (.badPattern (.tooDeep position found)) := by
    rw [performed]
    exact nofun
  have length : (((Store.reading ['a', 'b']).compilers.get ⟨0⟩).pattern.length : Int) = 2 := rfl
  have again := compile_again_fails held shallow 2
  simp only [performed, length] at again
  obtain ⟨_, names, complained⟩ := again
  exact ⟨held, automaton, first, performed, complained _ rfl, names⟩

/-- What a refused call leaves is compiled by the next one, if it can be read as a pattern of
its own. -/
theorem exists_run_compile_rest {failure : Failure} {front : List Char} {tree : Tree}
    (held : compiler ∈ store.compilers)
    (failed : readPattern (store.compilers.get compiler).ahead = .error failure)
    (deep : failure.complaint = .tooDeep)
    (begins : (store.compilers.get compiler).ahead = front ++ failure.rest)
    (read : readPattern failure.rest = .ok tree) :
    ∃ refused automaton after, (compile compiler).run store =
        .error (.badPattern (.tooDeep ((store.compilers.get compiler).cursor + front.length : Nat)
          (failure.rest.head?.map String.singleton))) refused ∧
      (compile compiler).run refused = .ok automaton after := by
  obtain ⟨refused, ran, refusedHeld, _, ahead⟩ :=
    run_compileBy_of_refusal held failed deep begins
  obtain ⟨automaton, after, _, compiled, _⟩ := run_compile_of_ok refusedHeld (ahead.symm ▸ read)
  exact ⟨refused, automaton, after, ran, compiled⟩

/-- Nesting is refused when 247 of 300 parentheses are open, before the next one. The others are
as many as are closed, so the next call takes the rest for a pattern of its own. -/
theorem compile_again_after_refusal :
    ∃ refused automaton after,
      (compile ⟨0⟩).run (.reading ('a' :: '|' ::
        (List.replicate 300 '(' ++ 'b' :: List.replicate 53 ')'))) =
          .error (.badPattern (.tooDeep 249 (some "("))) refused ∧
      (compile ⟨0⟩).run refused = .ok automaton after := by
  let failure : Failure :=
    { complaint := .tooDeep
      rest := List.replicate 53 '(' ++ 'b' :: List.replicate 53 ')'
      finished := [.literal 'a'] }
  have failed : readPattern ('a' :: '|' ::
      (List.replicate 300 '(' ++ 'b' :: List.replicate 53 ')')) = .error failure := by
    decide +kernel
  have read : readPattern failure.rest = .ok (Nat.repeat Tree.group 53 (.literal 'b')) := by
    decide +kernel
  let front := 'a' :: '|' :: List.replicate 247 '('
  have begins : 'a' :: '|' :: (List.replicate 300 '(' ++ 'b' :: List.replicate 53 ')') =
      front ++ failure.rest := by
    decide +kernel
  have length : front.length = 249 := congrArg (· + 2) List.length_replicate
  have near : failure.rest.head?.map String.singleton = some "(" := by decide
  generalize 'a' :: '|' :: (List.replicate 300 '(' ++ 'b' :: List.replicate 53 ')') = pattern at *
  have held : (⟨0⟩ : CompilerRef) ∈ (Store.reading pattern).compilers := Nat.zero_lt_one
  have refused := exists_run_compile_rest held failed rfl begins read
  rw [length, near] at refused
  exact refused

end Action

end PatternAutomata
