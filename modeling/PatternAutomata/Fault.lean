import PatternAutomata.Text.Quoted

/-! # Faults

Everything that can go wrong is a cause of type `Fault`; its wording is given in
one place (`Fault.message`). Faults of a pattern are a type of their own
(`SyntaxError`), because they carry a position and the text near it.
-/

namespace PatternAutomata

/-- A pattern that cannot be read, with the position at which this shows and the
text found there, if any. -/
inductive SyntaxError
  /-- A character stands where it may not. -/
  | unexpected (what : String) (position : Int) (found : Option String)
  /-- The pattern ends where more is needed. -/
  | unexpectedEnd (what : String) (position : Int) (found : Option String)
  /-- Another character is found than the only one allowed. -/
  | mismatch (expected found : String) (position : Int)
  /-- Groups and alternatives nest too deeply to be read on. -/
  | tooDeep (position : Int) (found : Option String)
deriving DecidableEq

namespace SyntaxError

/-- What is wrong, without the place. -/
def message : SyntaxError → String
  | unexpected what _ _ => what
  | unexpectedEnd what _ _ => what
  | mismatch expected found _ => "Expected '" ++ expected ++ "' but got '" ++ found ++ "'"
  | tooDeep _ _ => "Pattern nested too deeply"

/-- The place, counted in characters from the start of the pattern. -/
def position : SyntaxError → Int
  | unexpected _ position _ => position
  | unexpectedEnd _ position _ => position
  | mismatch _ _ position => position
  | tooDeep position _ => position

/-- The text at the place, or `EOL` where there is none. -/
def near : SyntaxError → String
  | unexpected _ _ found => found.getD "EOL"
  | unexpectedEnd _ _ found => found.getD "EOL"
  | mismatch _ found _ => found
  | tooDeep _ found => found.getD "EOL"

/-- The whole report: what is wrong, where, and near what. -/
def text (error : SyntaxError) : String :=
  error.message ++ " at position " ++ toString error.position ++
    " - near '" ++ error.near ++ "'"

end SyntaxError

/-- Why an operation fails. -/
inductive Fault
  /-- The pattern cannot be read. -/
  | badPattern (error : SyntaxError)
  /-- A part of a pattern nests groups and alternatives too deeply to be read. This fault has no
  place; compiling the pattern reports it with one (`SyntaxError.tooDeep`). -/
  | tooDeep
  /-- The start state is asked for before one is set. -/
  | missingStart
  /-- The automaton already owns another state of this name. -/
  | duplicateState (name : String)
  /-- The automaton owns no state of this name. -/
  | unowned (name : String)
  /-- Epsilon is offered to an alphabet. -/
  | epsilonInAlphabet
  /-- A text that is not a symbol stands where a symbol is wanted. -/
  | badSymbol (text : String)
  /-- Something other than a text stands where a text is wanted. -/
  | notText
  /-- A state is given without a name. -/
  | missingName
deriving DecidableEq

/-- The wording of a fault. -/
def Fault.message : Fault → String
  | badPattern error => error.text
  | tooDeep => "Pattern nested too deeply"
  | missingStart => "Automaton has no start state"
  | duplicateState name => "State " ++ name ++ " is already owned by this automaton"
  | unowned name => name
  | epsilonInAlphabet => "Epsilon is not an alphabet symbol"
  | badSymbol text =>
      "Value error, Symbol must be epsilon or a single character, got " ++ Text.quoted text
  | notText => "Input should be a valid string"
  | missingName => "Field required"

end PatternAutomata
