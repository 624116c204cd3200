import PatternAutomata.Machine.Basic

/-! # The printed form of a machine

A machine is printed as its five parts: the names `Q`, the alphabet `Sigma`, the
transitions `delta` with one line for each, the start `q0` and the accepting
names `F`. Printing goes line by line, so what stands above the start is there
also when the start state cannot be found.
-/

namespace PatternAutomata

/-- What printing leaves: the text, and the fault that stopped it, if any. -/
structure Printout where
  /-- The text printed. -/
  text : String
  /-- Why printing stopped before its end. -/
  fault : Option Fault := none
deriving DecidableEq

namespace Printout

/-- Every line with its line end. -/
def lines (content : List String) : String :=
  String.join (content.map (· ++ "\n"))

/-- A title and a list of items between braces, with a space around each item. -/
def listing (title : String) (items : List String) : String :=
  title ++ " = \x7b " ++ " ".intercalate items ++ " \x7d"

/-- How a symbol is shown: epsilon by its letter, a character by itself. -/
def label (symbol : String) : String :=
  if symbol = epsilon then "ε" else symbol

/-- The line of one transition. -/
def transition (source symbol target : String) : String :=
  source ++ "," ++ label symbol ++ "," ++ target

/-- The lines of the transitions of a state, symbols in the order of their first
use and targets in increasing order. -/
def transitions (state : State) : List String :=
  state.transitions.entries.flatMap fun entry =>
    entry.2.toList.map fun target => transition state.name entry.1 target

end Printout

namespace Machine

/-- The printed lines above the start. -/
def linesAboveStart (machine : Machine) : List String :=
  Printout.listing "Q" machine.states.keys ::
    Printout.listing "Sigma" machine.alphabet.toList ::
    "delta =" :: machine.states.values.flatMap Printout.transitions

/-- The printed form of a machine. -/
def print (machine : Machine) : Printout :=
  match machine.startState with
  | .ok start =>
      { text := Printout.lines (machine.linesAboveStart ++
          ["q0 = " ++ start.name, Printout.listing "F" machine.accepting]) }
  | .error fault => { text := Printout.lines machine.linesAboveStart, fault := some fault }

end Machine

end PatternAutomata
