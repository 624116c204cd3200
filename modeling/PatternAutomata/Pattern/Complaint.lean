import PatternAutomata.Fault

/-! # Complaints about a pattern

A complaint says what is wrong at a place of a pattern. Together with the place
and what lies ahead of it, it becomes a fault: an unexpected end where nothing
lies ahead, and a fault near the next character otherwise. A refusal to nest more
deeply becomes a fault without a place, and is given one where it is reported.
-/

namespace PatternAutomata

/-- What is wrong at a place of a pattern. -/
inductive Complaint
  /-- A character is asked for and none is left. -/
  | noCharacterLeft
  /-- Only this text may come next. -/
  | expected (text : String)
  /-- A term has no factor. -/
  | emptyTerm
  /-- The pattern is read, but this character is left over. -/
  | unread (character : Char)
  /-- A complaint in the words of the caller. -/
  | said (words : String)
  /-- One more group or alternative would be nested too deeply. -/
  | tooDeep
deriving DecidableEq

/-- A fault as it is reported at a position with the given characters ahead: a refusal is given
this place. All other faults are reported as they are. -/
def Fault.reported (position : Nat) (ahead : List Char) : Fault → Fault
  | tooDeep => badPattern (.tooDeep position (ahead.head?.map String.singleton))
  | fault => fault

namespace Complaint

/-- The wording of a complaint where nothing lies ahead. -/
def words : Complaint → String
  | noCharacterLeft => "Unexpected end of pattern"
  | expected text => "Expected '" ++ text ++ "' but reached end of pattern"
  | emptyTerm => "Expected a character or '('"
  | unread character => "Unexpected '" ++ String.singleton character ++ "'"
  | said words => words
  | tooDeep => Fault.tooDeep.message

/-- The fault of a complaint at a position with the given characters ahead. -/
def fault (complaint : Complaint) (position : Nat) (ahead : List Char) : Fault :=
  match complaint, ahead with
  | tooDeep, _ => .tooDeep
  | complaint, [] => .badPattern (.unexpectedEnd complaint.words position none)
  | expected text, next :: _ => .badPattern (.mismatch text (String.singleton next) position)
  | complaint, next :: _ =>
      .badPattern (.unexpected complaint.words position (some (String.singleton next)))

/-- The fault that is reported for a complaint at a position with the given characters ahead. -/
def report (complaint : Complaint) (position : Nat) (ahead : List Char) : Fault :=
  (complaint.fault position ahead).reported position ahead

end Complaint

end PatternAutomata
