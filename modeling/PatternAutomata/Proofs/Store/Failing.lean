import PatternAutomata.Proofs.Pattern.Refusal
import PatternAutomata.Proofs.Store.Compiling

/-! # Compiling what cannot be read

Compiling a pattern that cannot be read changes nothing but the compiler, which is left at
the place of the failure, and the complaint is made there (`Action.run_compile_of_failure`).
Nothing else makes compiling fail (`Action.failure_of_compile`).
-/

namespace PatternAutomata

/-- What a failed reading makes of a compiler. -/
def Compiler.leave (compiler : Compiler) (failure : Failure) : Compiler :=
  { compiler with
    cursor := compiler.cursor + (compiler.ahead.length - failure.rest.length)
    names := compiler.names + failure.names
    literals := compiler.literals.insertAll (failure.literals.map String.singleton) }

namespace Complaint

variable {complaint : Complaint} {position : Nat}

theorem fault_eq_tooDeep_iff {ahead : List Char} :
    complaint.fault position ahead = .tooDeep ↔ complaint = .tooDeep := by
  constructor
  · intro same
    unfold fault at same
    split at same
    · rfl
    · cases same
    · cases same
    · cases same
  · rintro rfl
    rfl

theorem fault_nil (shallow : complaint ≠ .tooDeep) :
    complaint.fault position [] =
      .badPattern (.unexpectedEnd complaint.words position none) := by
  cases complaint with
  | tooDeep => exact absurd rfl shallow
  | _ => rfl

theorem fault_cons (shallow : complaint ≠ .tooDeep) (known : ∀ text, complaint ≠ .expected text)
    (next : Char) (rest : List Char) :
    complaint.fault position (next :: rest) =
      .badPattern (.unexpected complaint.words position (some (String.singleton next))) := by
  cases complaint with
  | tooDeep => exact absurd rfl shallow
  | expected text => exact absurd rfl (known text)
  | _ => rfl

theorem report_tooDeep (position : Nat) (ahead : List Char) :
    tooDeep.report position ahead =
      .badPattern (.tooDeep position (ahead.head?.map String.singleton)) := rfl

/-- What is no refusal is reported as it is. -/
theorem report_of_shallow (shallow : complaint ≠ .tooDeep) (ahead : List Char) :
    complaint.report position ahead = complaint.fault position ahead := by
  unfold report Fault.reported
  split
  · rename_i deep
    exact absurd (fault_eq_tooDeep_iff.mp deep) shallow
  · rfl

/-- A refusal is reported for no other complaint. -/
theorem eq_tooDeep_of_report {ahead : List Char} {place : Int} {found : Option String}
    (refused : complaint.report position ahead = .badPattern (.tooDeep place found)) :
    complaint = .tooDeep := by
  refine Classical.byContradiction fun shallow => ?_
  rw [report_of_shallow shallow] at refused
  unfold fault at refused
  split at refused <;> cases refused

end Complaint

section Leaving

variable {compiler : Compiler} {failure : Failure} {front : List Char}

theorem Compiler.cursor_leave (begins : compiler.ahead = front ++ failure.rest) :
    (compiler.leave failure).cursor = compiler.cursor + front.length := by
  rw [leave, begins, List.length_append, Nat.add_sub_cancel]

/-- Where a failure leaves the end of what lay ahead, this is what lies ahead then. -/
theorem Compiler.ahead_leave (begins : compiler.ahead = front ++ failure.rest) :
    (compiler.leave failure).ahead = failure.rest := by
  rw [ahead, cursor_leave begins]
  change compiler.pattern.drop _ = _
  rw [← List.drop_drop]
  change compiler.ahead.drop _ = _
  rw [begins, List.drop_left]

end Leaving

namespace Action

variable {store : Store} {compiler : CompilerRef} {failure : Failure}

theorem run_abandon_eq {α : Type} (held : compiler ∈ store.compilers) (failure : Failure) :
    (abandon compiler failure : Action α).run store =
      .error (failure.complaint.fault ((store.compilers.get compiler).leave failure).cursor
          ((store.compilers.get compiler).leave failure).ahead)
        (store.changeCompiler compiler (·.leave failure)) := by
  rw [← Heap.get_change_self held (·.leave failure)]
  rfl

/-- Leaving a failed reading is reported at the place of the failure. -/
theorem run_reporting_abandon {α : Type} (held : compiler ∈ store.compilers)
    (failure : Failure) :
    (reporting compiler (abandon compiler failure : Action α)).run store =
      .error (failure.complaint.report ((store.compilers.get compiler).leave failure).cursor
          ((store.compilers.get compiler).leave failure).ahead)
        (store.changeCompiler compiler (·.leave failure)) := by
  rw [run_reporting_of_error (run_abandon_eq held failure), Store.compilers_changeCompiler,
    Heap.get_change_self held]
  rfl

theorem run_reporting_abandon_of_shallow {α : Type} (held : compiler ∈ store.compilers)
    (shallow : failure.complaint ≠ .tooDeep) :
    (reporting compiler (abandon compiler failure : Action α)).run store =
      (abandon compiler failure : Action α).run store := by
  rw [run_reporting_abandon held, run_abandon_eq held, Complaint.report_of_shallow shallow]

/-- A reading that fails leaves the compiler at its place, and compiling fails with the
complaint, which is reported there. -/
theorem run_compileBy_of_failure {read : List Char → Except Failure Tree}
    (held : compiler ∈ store.compilers)
    (failed : read (store.compilers.get compiler).ahead = .error failure) :
    (compileBy read compiler).run store =
      .error (failure.complaint.report ((store.compilers.get compiler).leave failure).cursor
          ((store.compilers.get compiler).leave failure).ahead)
        (store.changeCompiler compiler fun content =>
          ({ content with literals := ∅ } : Compiler).leave failure) := by
  have heldStill :
      compiler ∈ (store.changeCompiler compiler ({ · with literals := ∅ })).compilers :=
    Heap.mem_change.mpr held
  rw [run_compileBy read held, failed]
  change (reporting compiler (abandon compiler failure)).run _ = _
  rw [run_reporting_abandon heldStill, Store.compilers_changeCompiler, Heap.get_change_self held,
    Store.changeCompiler, Store.changeCompiler, Heap.change_change]
  rfl

theorem run_compile_of_failure (held : compiler ∈ store.compilers)
    (read : readPattern (store.compilers.get compiler).ahead = .error failure) :
    (compile compiler).run store =
      .error (failure.complaint.report ((store.compilers.get compiler).leave failure).cursor
          ((store.compilers.get compiler).leave failure).ahead)
        (store.changeCompiler compiler fun content =>
          ({ content with literals := ∅ } : Compiler).leave failure) :=
  run_compileBy_of_failure held read

/-- A refusal is reported where reading was refused, and that is where the compiler is left. -/
theorem run_compileBy_of_refusal {read : List Char → Except Failure Tree} {front : List Char}
    (held : compiler ∈ store.compilers)
    (failed : read (store.compilers.get compiler).ahead = .error failure)
    (deep : failure.complaint = .tooDeep)
    (begins : (store.compilers.get compiler).ahead = front ++ failure.rest) :
    ∃ refused, (compileBy read compiler).run store =
        .error (.badPattern (.tooDeep ((store.compilers.get compiler).cursor + front.length : Nat)
          (failure.rest.head?.map String.singleton))) refused ∧
      compiler ∈ refused.compilers ∧
      (refused.compilers.get compiler).cursor =
        (store.compilers.get compiler).cursor + front.length ∧
      (refused.compilers.get compiler).ahead = failure.rest := by
  have ran := run_compileBy_of_failure held failed
  rw [deep, Complaint.report_tooDeep, Compiler.cursor_leave begins,
    Compiler.ahead_leave begins] at ran
  refine ⟨_, ran, Heap.mem_change.mpr held, ?_, ?_⟩
  · rw [Store.compilers_changeCompiler, Heap.get_change_self held]
    exact Compiler.cursor_leave begins
  · rw [Store.compilers_changeCompiler, Heap.get_change_self held]
    exact Compiler.ahead_leave begins

/-- Compiling fails only where reading does. -/
theorem failure_of_compile {fault : Fault} {after : Store} (held : compiler ∈ store.compilers)
    (ran : (compile compiler).run store = .error fault after) :
    ∃ failure, readPattern (store.compilers.get compiler).ahead = .error failure ∧
      fault = failure.complaint.report ((store.compilers.get compiler).leave failure).cursor
        ((store.compilers.get compiler).leave failure).ahead := by
  cases read : readPattern (store.compilers.get compiler).ahead with
  | error failure =>
      rw [run_compile_of_failure held read] at ran
      cases ran
      exact ⟨failure, rfl, rfl⟩
  | ok tree =>
      obtain ⟨automaton, final, _, compiled, _⟩ := run_compile_of_ok held read
      rw [compiled] at ran
      cases ran

end Action

end PatternAutomata
