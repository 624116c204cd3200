import PatternAutomata.Proofs.Pattern.Bounds
import PatternAutomata.Proofs.Recognition
import PatternAutomata.Proofs.Store.Failing

/-! # What the bound on nesting does

The bound on nesting is felt only where it is passed: compiling with a bound is refused if a
scan of the pattern passes the bound before the first error, at the first place where it does,
and is the same as compiling without a bound otherwise, in all that it gives and in all that it
leaves behind.
-/

namespace PatternAutomata.Action

/-- Compiling with a bound on the frames that the pattern may take up. -/
def compileWithin (bound : Nat) : CompilerRef → Action AutomatonRef :=
  compileBy (Reader.whole (Reader.regex bound))

/-- Compiling without a bound, by the grammar that `Reader.unbounded_eq` gives. -/
def compileUnbounded : CompilerRef → Action AutomatonRef :=
  compileBy (Reader.whole Reader.unbounded)

variable {store : Store} {compiler : CompilerRef} {read read' : List Char → Except Failure Tree}

/-- Compiling is refused exactly if reading is. -/
theorem run_compileBy_tooDeep_iff (held : compiler ∈ store.compilers) :
    (∃ position found after, (compileBy read compiler).run store =
        .error (.badPattern (.tooDeep position found)) after) ↔
      ∃ failure, read (store.compilers.get compiler).ahead = .error failure ∧
        failure.complaint = .tooDeep := by
  constructor
  · rintro ⟨position, found, after, ran⟩
    cases given : read (store.compilers.get compiler).ahead with
    | ok tree =>
        obtain ⟨automaton, final, _, compiled, _⟩ := run_compileBy_of_ok held given
        rw [compiled] at ran
        cases ran
    | error failure =>
        rw [run_compileBy_of_failure held given] at ran
        injection ran with refused
        exact ⟨failure, rfl, Complaint.eq_tooDeep_of_report refused⟩
  · rintro ⟨failure, failed, deep⟩
    rw [run_compileBy_of_failure held failed, deep]
    exact ⟨_, _, _, rfl⟩

theorem run_compileBy_congr (held : compiler ∈ store.compilers)
    (same : read (store.compilers.get compiler).ahead =
      read' (store.compilers.get compiler).ahead) :
    (compileBy read compiler).run store = (compileBy read' compiler).run store := by
  rw [run_compileBy read held, run_compileBy read' held, same]

/-- **The bound on nesting changes nothing but for patterns that pass it.** Compiling with a
bound is refused exactly if the frames that are taken up pass the bound at a place that
reading without a bound comes to before its first error, and the first such place is the one
that is reported, with the character there, and at which the cursor is left; in all other cases
it is the same as compiling without a bound, which follows the same grammar and is never
refused. -/
theorem compileWithin_refuses_iff_passes (held : compiler ∈ store.compilers) :
    compile compiler = compileWithin frameBound compiler ∧
      Reader.unbounded = Reader.alternatives Reader.unbounded Reader.unbounded ∧
      (∀ position found after, (compileUnbounded compiler).run store ≠
        .error (.badPattern (.tooDeep position found)) after) ∧
      ∀ bound,
        ((∃ position found after, (compileWithin bound compiler).run store =
            .error (.badPattern (.tooDeep position found)) after) ↔
          ∃ place ≤ Reader.reach (store.compilers.get compiler).ahead,
            bound < framesBehind ((store.compilers.get compiler).ahead.take place)) ∧
        (∀ place ≤ Reader.reach (store.compilers.get compiler).ahead,
          bound < framesBehind ((store.compilers.get compiler).ahead.take place) →
          (∀ before < place,
            framesBehind ((store.compilers.get compiler).ahead.take before) ≤ bound) →
          ∃ after, (compileWithin bound compiler).run store =
              .error (.badPattern (.tooDeep
                ((store.compilers.get compiler).cursor + place : Nat)
                (((store.compilers.get compiler).ahead.drop place).head?.map
                  String.singleton))) after ∧
            (after.compilers.get compiler).cursor =
              (store.compilers.get compiler).cursor + place) ∧
        ((¬ ∃ place ≤ Reader.reach (store.compilers.get compiler).ahead,
            bound < framesBehind ((store.compilers.get compiler).ahead.take place)) →
          (compileWithin bound compiler).run store = (compileUnbounded compiler).run store) := by
  refine ⟨rfl, Reader.unbounded_eq, fun position found after refused => ?_,
    fun bound => ⟨?_, fun place reached passed first => ?_, fun shallow => ?_⟩⟩
  · have failed := (run_compileBy_tooDeep_iff held).mp ⟨position, found, after, refused⟩
    exact Reader.not_refused_unbounded _ (Reader.refused_whole_iff.mp failed)
  · rw [compileWithin, run_compileBy_tooDeep_iff held, Reader.refused_whole_iff,
      Reader.refused_iff_passes]
  · obtain ⟨failure, failed, deep⟩ := Reader.refused_iff_passes.mpr ⟨place, reached, passed⟩
    obtain ⟨front, begins, same⟩ := Reader.place_of_refusal failed deep passed first
    have left : failure.rest = (store.compilers.get compiler).ahead.drop place := by
      rw [begins, ← same, List.drop_left]
    obtain ⟨refused, ran, _, cursor, _⟩ :=
      run_compileBy_of_refusal held (Reader.whole_of_error failed) deep begins
    rw [← left, ← same]
    exact ⟨refused, ran, cursor⟩
  · rw [← Reader.refused_iff_passes] at shallow
    exact run_compileBy_congr held (Reader.whole_eq_unbounded shallow)

/-- A group takes up four frames and the bar in it a fifth, so with four frames reading is refused
behind the bar. -/
theorem compileWithin_refuses_bar_in_group :
    (⟨0⟩ : CompilerRef) ∈ (Store.reading ['(', 'a', '|', 'b', ')']).compilers ∧
      (∃ after, (compileWithin 4 ⟨0⟩).run (.reading ['(', 'a', '|', 'b', ')']) =
          .error (.badPattern (.tooDeep 3 (some "b"))) after ∧
        (after.compilers.get ⟨0⟩).cursor = 3) ∧
      (compileWithin 5 ⟨0⟩).run (.reading ['(', 'a', '|', 'b', ')']) =
        (compileUnbounded ⟨0⟩).run (.reading ['(', 'a', '|', 'b', ')']) ∧
      ∀ position found after, (compileUnbounded ⟨0⟩).run (.reading ['(', 'a', '|', 'b', ')']) ≠
        .error (.badPattern (.tooDeep position found)) after := by
  have held : (⟨0⟩ : CompilerRef) ∈ (Store.reading ['(', 'a', '|', 'b', ')']).compilers := by
    decide
  have reached : Reader.reach ['(', 'a', '|', 'b', ')'] = 5 := by decide
  obtain ⟨_, _, never, limits⟩ := compileWithin_refuses_iff_passes held
  refine ⟨held, (limits 4).2.1 3 ?_ ?_ ?_, (limits 5).2.2 ?_, never⟩
  · exact (by decide : 3 ≤ 5).trans reached.ge
  · decide
  · decide
  · change ¬ ∃ place ≤ Reader.reach ['(', 'a', '|', 'b', ')'], _
    rw [reached]
    decide

end PatternAutomata.Action
