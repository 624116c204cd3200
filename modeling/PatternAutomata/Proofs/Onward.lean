import PatternAutomata.Proofs.Calls
import PatternAutomata.Proofs.Pattern.Renaming

/-! # Reading further on

What lies behind the cursor, the names that were given out and the literals that were noted
have no part in what a call of a compiler comes to, but that positions are counted from the
start of the pattern and names from those given out. So a call further on in a longer pattern
comes to the same as a call at the start of a pattern with nothing but the rest in it, with
positions and names raised (`Call.outcome_onward`).
-/

namespace PatternAutomata

/-- The error at a place that is further on. -/
def SyntaxError.onward (distance : Nat) : SyntaxError → SyntaxError
  | unexpected what position found => unexpected what (position + distance) found
  | unexpectedEnd what position found => unexpectedEnd what (position + distance) found
  | mismatch expected found position => mismatch expected found (position + distance)
  | tooDeep position found => tooDeep (position + distance) found

/-- The fault at a place that is further on; only the faults of a pattern have a place. -/
def Fault.onward (distance : Nat) : Fault → Fault
  | badPattern error => badPattern (error.onward distance)
  | fault => fault

theorem Complaint.fault_add (complaint : Complaint) (position distance : Nat)
    (ahead : List Char) : complaint.fault (position + distance) ahead =
      (complaint.fault position ahead).onward distance := by
  unfold fault
  split
  · rfl
  · simp only [Fault.onward, SyntaxError.onward, Int.natCast_add]
  · simp only [Fault.onward, SyntaxError.onward, Int.natCast_add]
  · simp only [Fault.onward, SyntaxError.onward, Int.natCast_add]

theorem Fault.reported_onward (fault : Fault) (position distance : Nat) (ahead : List Char) :
    (fault.onward distance).reported (position + distance) ahead =
      (fault.reported position ahead).onward distance := by
  cases fault with
  | tooDeep => simp only [onward, reported, SyntaxError.onward, Int.natCast_add]
  | _ => rfl

theorem Call.fault_add (call : Call) (complaint : Complaint) (position distance : Nat)
    (ahead : List Char) : call.fault complaint (position + distance) ahead =
      (call.fault complaint position ahead).onward distance := by
  have reports : complaint.report (position + distance) ahead =
      (complaint.report position ahead).onward distance := by
    rw [Complaint.report, complaint.fault_add, Fault.reported_onward]
    rfl
  cases call with
  | parse _ => exact complaint.fault_add position distance ahead
  | compile => exact reports
  | parseAlong _ => exact complaint.fault_add position distance ahead
  | compileAlong => exact reports

/-- What a call comes to, with positions and names raised. -/
def raiseResult (distance names : Nat) : Except Fault Machine → Except Fault Machine
  | .ok machine => .ok (machine.rename (raise names))
  | .error fault => .error (fault.onward distance)

/-- A compiler is ahead of another by some characters and some names, with the same characters
ahead of it. -/
structure Compiler.Onward (far near : Compiler) (distance names : Nat) : Prop where
  ahead : far.ahead = near.ahead
  cursor : far.cursor = near.cursor + distance
  names : far.names = near.names + names

namespace Compiler.Onward

variable {far near : Compiler} {distance names : Nat}

theorem prepare (onward : far.Onward near distance names) (call : Call) :
    (call.prepare far).Onward (call.prepare near) distance names := by
  cases call <;> exact ⟨onward.ahead, onward.cursor, onward.names⟩

theorem take (onward : far.Onward near distance names) (tree : Tree) :
    (far.take tree).Onward (near.take tree) distance names where
  ahead := by rw [ahead_take, ahead_take, onward.ahead]
  cursor := by
    change far.cursor + tree.text.length = near.cursor + tree.text.length + distance
    rw [onward.cursor, Nat.add_right_comm]
  names := by
    change far.names + tree.names = near.names + tree.names + names
    rw [onward.names, Nat.add_right_comm]

theorem leave (onward : far.Onward near distance names) (failure : Failure) :
    (far.leave failure).Onward (near.leave failure) distance names where
  ahead := by
    have left (content : Compiler) : (content.leave failure).ahead =
        content.ahead.drop (content.ahead.length - failure.rest.length) := List.drop_drop.symm
    rw [left, left, onward.ahead]
  cursor := by
    simp only [Compiler.leave, onward.ahead, onward.cursor, Nat.add_right_comm]
  names := by
    simp only [Compiler.leave, onward.names, Nat.add_right_comm]

end Compiler.Onward

namespace Call

/-- **A call depends only on what lies ahead**, but for positions and names that are raised. -/
theorem outcome_onward {far near : Compiler} {distance names : Nat}
    (onward : far.Onward near distance names) (call : Call) :
    (call.outcome far).1 = raiseResult distance names (call.outcome near).1 ∧
      (call.outcome far).2.Onward (call.outcome near).2 distance names := by
  cases read : call.read near.ahead with
  | ok tree =>
      simp only [outcome, onward.ahead, read, onward.names]
      refine ⟨?_, (onward.prepare call).take tree⟩
      rw [tree.fragment_add, ← Fragment.rename_machine (tree.nodup_names_fragment _)]
      rfl
  | error failure =>
      have left := (onward.prepare call).leave failure
      simp only [outcome, onward.ahead, read, left.ahead, left.cursor]
      exact ⟨congrArg Except.error (call.fault_add failure.complaint _ _ _), left⟩

end Call

namespace Store

/-- **Reading depends only on what lies ahead.** A call at the end of one text, with another
text ahead and some names given out, comes to the same as a call on a compiler that has read
nothing of that other text alone: the same machine with its names raised, or the same fault
that far on, and the cursor and the count of names have gone as far. Nothing else of the two
compilers, or of the stores they are in, has a part in it. -/
theorem answer_onward {store other : Store} {compiler alone : CompilerRef}
    {behind ahead : List Char} {names : Nat} {literals noted : StringSet}
    (held : compiler ∈ store.compilers) (heldAlone : alone ∈ other.compilers)
    (stands : store.compilers.get compiler =
      { pattern := behind ++ ahead, cursor := behind.length, names, literals })
    (begins : other.compilers.get alone = { pattern := ahead, literals := noted })
    (call : Call) :
    (store.answer compiler call).value =
        raiseResult behind.length names (other.answer alone call).value ∧
      (store.answer compiler call).left.cursor =
        (other.answer alone call).left.cursor + behind.length ∧
      (store.answer compiler call).left.names =
        (other.answer alone call).left.names + names := by
  have onward : (store.compilers.get compiler).Onward (other.compilers.get alone)
      behind.length names := by
    rw [stands, begins]
    exact ⟨List.drop_left, (Nat.zero_add _).symm, (Nat.zero_add _).symm⟩
  obtain ⟨value, left⟩ := call.outcome_onward onward
  rw [← seen_answer held, ← seen_answer heldAlone] at value left
  exact ⟨value, left.cursor, left.names⟩

/-- What stands in a group behind another letter, and the same on its own. -/
theorem answer_onward_in_group :
    let store := (Store.reading ['x', '(', 'a', '*', ')']).changeCompiler ⟨0⟩
      ({ · with cursor := 2, names := 2, literals := StringSet.ofList ["x"] })
    let other := Store.reading ['a', '*', ')']
    (⟨0⟩ : CompilerRef) ∈ store.compilers ∧ (⟨0⟩ : CompilerRef) ∈ other.compilers ∧
      store.compilers.get ⟨0⟩ =
        { pattern := ['x', '('] ++ ['a', '*', ')'], cursor := ['x', '('].length, names := 2
          literals := StringSet.ofList ["x"] } ∧
      other.compilers.get ⟨0⟩ = { pattern := ['a', '*', ')'] } ∧
      (store.answer ⟨0⟩ (.parse .regex)).value =
        raiseResult 2 2 (other.answer ⟨0⟩ (.parse .regex)).value ∧
      (store.answer ⟨0⟩ (.parse .regex)).left.cursor =
        (other.answer ⟨0⟩ (.parse .regex)).left.cursor + 2 ∧
      (store.answer ⟨0⟩ (.parse .regex)).left.names =
        (other.answer ⟨0⟩ (.parse .regex)).left.names + 2 := by
  intro store other
  have held : (⟨0⟩ : CompilerRef) ∈ store.compilers := by decide
  have heldAlone : (⟨0⟩ : CompilerRef) ∈ other.compilers := by decide
  have stands : store.compilers.get ⟨0⟩ =
      { pattern := ['x', '('] ++ ['a', '*', ')'], cursor := ['x', '('].length, names := 2
        literals := StringSet.ofList ["x"] } := rfl
  have begins : other.compilers.get ⟨0⟩ = { pattern := ['a', '*', ')'] } := rfl
  exact ⟨held, heldAlone, stands, begins,
    answer_onward held heldAlone stands begins (.parse .regex)⟩

end Store

end PatternAutomata
