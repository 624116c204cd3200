import PatternAutomata.Pattern.Tree
import PatternAutomata.Store.Ownership

/-! # Building automata from patterns

Each form of pattern is built from the automata of its parts. A literal makes two
new states, an alternative one, a concatenation and a star none. A concatenation
changes its first part and gives it back, a star changes its only part, and an
alternative leaves its parts alone and shares their states.
-/

namespace PatternAutomata.Action

/-- Gives out the next state name of a compiler, a decimal numeral. -/
def freshName (compiler : CompilerRef) : Action String :=
  modifyGet fun store =>
    (Nat.repr (store.compilers.get compiler).names,
      store.changeCompiler compiler fun content => { content with names := content.names + 1 })

/-- Notes a literal, unless it is noted already. -/
def noteLiteral (compiler : CompilerRef) (symbol : String) : Action Unit := do
  if symbol ∈ (← Action.compiler compiler).literals then
    return
  else
    checkLetter symbol
    modify (·.changeCompiler compiler fun content =>
      { content with literals := content.literals.insert symbol })

/-- Builds the automaton of a literal: a transition on it from a new start to a
new accepting state. -/
def literal (compiler : CompilerRef) (symbol : String) : Action AutomatonRef := do
  noteLiteral compiler symbol
  let automaton ← newAutomaton
  let start ← addStart automaton (← freshName compiler)
  let accepting ← addAccepting automaton (← freshName compiler)
  connect symbol start accepting
  return automaton

/-- Builds the automaton of an alternative: a new start with silent moves to the
starts of both parts. -/
def alternative (compiler : CompilerRef) (first second : AutomatonRef) :
    Action AutomatonRef := do
  let automaton ← newAutomaton
  let start ← addStart automaton (← freshName compiler)
  adopt automaton (← ownedBy first)
  adopt automaton (← ownedBy second)
  connect epsilon start (← startOf first)
  connect epsilon start (← startOf second)
  return automaton

/-- Appends an automaton to another, which it changes: its accepting states no
longer accept but lead on silently to the start of the appended one. -/
def append (first second : AutomatonRef) : Action Unit := do
  let entry ← startOf second
  (← acceptingIn first).forM fun state => do
    demote first state
    connect epsilon state entry
  adopt first (← ownedBy second)

/-- Builds the automaton of a concatenation whose first part may be missing. -/
def concatenation (first : Option AutomatonRef) (second : AutomatonRef) :
    Action AutomatonRef := do
  match first with
  | some first => append first second; return first
  | none => return second

/-- Makes an automaton repeat: silent moves lead from its start to each accepting
state and back. -/
def repetition (automaton : AutomatonRef) : Action AutomatonRef := do
  let start ← startOf automaton
  (← acceptingIn automaton).forM fun state => do
    connect epsilon start state
    connect epsilon state start
  return automaton

/-- Builds the automaton of a tree, parts from left to right. -/
def build (compiler : CompilerRef) : Tree → Action AutomatonRef
  | .literal character => literal compiler (String.singleton character)
  | .escaped character => literal compiler (String.singleton character)
  | .group inner => build compiler inner
  | .star inner => do
      repetition (← build compiler inner)
  | .concat first second => do
      let first ← build compiler first
      let second ← build compiler second
      concatenation first second
  | .alt first second => do
      let first ← build compiler first
      let second ← build compiler second
      alternative compiler first second

end PatternAutomata.Action
