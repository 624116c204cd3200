import PatternAutomata.Pattern.Fragment
import PatternAutomata.Pattern.Reader

/-! # Compiled patterns

Compiling a pattern is reading it as a whole and taking the machine of its tree.
-/

namespace PatternAutomata

/-- What compiling a pattern gives. -/
structure Compiled where
  /-- The machine of the pattern. -/
  machine : Machine
  /-- The number of characters read. -/
  cursor : Nat
  /-- The number of state names given out. -/
  names : Nat
deriving DecidableEq

/-- Compiles a pattern. -/
def compile (pattern : List Char) : Except Fault Compiled :=
  match readPattern pattern with
  | .error failure =>
      .error (failure.complaint.report (pattern.length - failure.rest.length) failure.rest)
  | .ok tree =>
      .ok { machine := tree.machine, cursor := pattern.length, names := tree.names }

end PatternAutomata
