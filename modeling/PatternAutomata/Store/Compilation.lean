import PatternAutomata.Pattern.Reader
import PatternAutomata.Store.Construction

/-! # Compiling at the cursor

A compiler reads its pattern from the cursor on. Reading comes first and building
after it, which comes to the same as building while reading: building what was
read cannot fail, and what a failed reading had finished leaves no trace but the
names and the literals it used up (`abandon`).
-/

namespace PatternAutomata.Action

/-- The characters ahead of the cursor. -/
def ahead (compiler : CompilerRef) : Action (List Char) := do
  return (← Action.compiler compiler).ahead

/-- Whether a character is left. -/
def more (compiler : CompilerRef) : Action Bool := do
  return !(← ahead compiler).isEmpty

/-- Fails at the cursor. -/
def complain {α : Type} (compiler : CompilerRef) (complaint : Complaint) : Action α := do
  let content ← Action.compiler compiler
  throw (complaint.fault content.cursor content.ahead)

/-- Reports at the cursor that an action was refused, if it was. -/
def reporting {α : Type} (compiler : CompilerRef) (action : Action α) : Action α :=
  tryCatch action fun fault => do
    let content ← Action.compiler compiler
    throw (fault.reported content.cursor content.ahead)

section Reporting

variable {α : Type} {compiler : CompilerRef} {action : Action α} {store after : Store}

/-- What a refused action changed stays changed, so it is reported where it left the cursor. -/
theorem run_reporting (compiler : CompilerRef) (action : Action α) (store : Store) :
    (reporting compiler action).run store =
      match action.run store with
      | .ok value after => .ok value after
      | .error fault after =>
          .error (fault.reported (after.compilers.get compiler).cursor
            (after.compilers.get compiler).ahead) after := by
  change EStateM.tryCatch action _ store = _
  delta EStateM.tryCatch
  cases ran : action.run store with
  | ok value after => rw [show action store = _ from ran]
  | error fault after =>
      rw [show action store = _ from ran]
      rfl

theorem run_reporting_of_ok {value : α} (ran : action.run store = .ok value after) :
    (reporting compiler action).run store = .ok value after := by
  rw [run_reporting, ran]

theorem run_reporting_of_error {fault : Fault} (ran : action.run store = .error fault after) :
    (reporting compiler action).run store =
      .error (fault.reported (after.compilers.get compiler).cursor
        (after.compilers.get compiler).ahead) after := by
  rw [run_reporting, ran]

end Reporting

/-- The next character. -/
def peek (compiler : CompilerRef) : Action Char := do
  match ← ahead compiler with
  | [] => complain compiler .noCharacterLeft
  | next :: _ => return next

/-- Moves the cursor forward. -/
def advance (compiler : CompilerRef) (distance : Nat) : Action Unit :=
  modify (·.changeCompiler compiler fun content =>
    { content with cursor := content.cursor + distance })

/-- Puts the cursor at a position. -/
def seek (compiler : CompilerRef) (position : Nat) : Action Unit :=
  modify (·.changeCompiler compiler ({ · with cursor := position }))

/-- Takes the next character, which must be the given text. -/
def expect (compiler : CompilerRef) (text : String) : Action Unit := do
  match ← ahead compiler with
  | [] => complain compiler (.expected text)
  | next :: _ =>
      if String.singleton next = text then advance compiler 1
      else complain compiler (.expected text)

/-- Takes the next character, whatever it is. -/
def next (compiler : CompilerRef) : Action Char := do
  let character ← peek compiler
  expect compiler (String.singleton character)
  return character

/-- Leaves a failed reading: the cursor goes to the place of the failure, the
trees finished by then have used up their names and literals, and the complaint
is made there. -/
def abandon {α : Type} (compiler : CompilerRef) (failure : Failure) : Action α := do
  modify (·.changeCompiler compiler fun content =>
    { content with
      cursor := content.cursor + (content.ahead.length - failure.rest.length)
      names := content.names + failure.names
      literals := content.literals.insertAll (failure.literals.map String.singleton) })
  complain compiler failure.complaint

/-- Reads one part of the pattern at the cursor and builds its automaton. -/
def parse (compiler : CompilerRef) (rule : Rule) : Action AutomatonRef := do
  let characters ← ahead compiler
  match rule.read characters with
  | .error failure => abandon compiler failure
  | .ok (tree, rest) =>
      advance compiler (characters.length - rest.length)
      build compiler tree

/-- Reads all that lies ahead as one regex and builds its automaton. The literals
are cleared at the start and become the alphabet at the end; the cursor and the
names go on from where they are. A refusal is reported with its place. -/
def compile (compiler : CompilerRef) : Action AutomatonRef := do
  modify (·.changeCompiler compiler ({ · with literals := ∅ }))
  let characters ← ahead compiler
  match readPattern characters with
  | .error failure => reporting compiler (abandon compiler failure)
  | .ok tree =>
      advance compiler characters.length
      let automaton ← build compiler tree
      addLetters automaton (← Action.compiler compiler).literals.toList
      return automaton

end PatternAutomata.Action
