import PatternAutomata.Machine.Acceptance
import PatternAutomata.Machine.Printout
import PatternAutomata.Store.Compilation

/-! # Commands

Every single step that can be taken on a store is a command. Performing one gives
an outcome or a fault, and the store afterwards in both cases, so that a run of
commands goes on behind one that failed.

Names and symbols come from outside, where something other than a text may stand;
such an argument is refused before anything is changed. Four arguments are never
checked: the symbol whose targets or moves are asked for, the name by which a state
is looked up, and the name that a transition leads to. They are texts here, and what
becomes of anything else is left out. The symbol of a literal is looked up among the
literals noted before it is checked; what cannot be looked up is left out there.
-/

namespace PatternAutomata

/-- What stands where a text is wanted. -/
inductive Argument
  /-- A text. -/
  | text (content : String)
  /-- Something else. -/
  | other
deriving DecidableEq

/-- The text of an argument. -/
def Argument.read : Argument → Action String
  | text content => return content
  | other => throw .notText

/-- The parts of an automaton that can be listed. -/
inductive Listing
  | states
  | accepting
  | alphabet
deriving DecidableEq

/-- A step on the store. -/
inductive Command
  /-- Makes an automaton; neither the start nor the alphabet is checked. -/
  | newAutomaton (start : Option Argument) (alphabet : List Argument)
  /-- Makes a state that no automaton owns; its symbols are not checked. -/
  | newState (name : Option Argument) (accepting : Bool)
      (transitions : List (Argument × List Argument))
  | addStart (automaton : AutomatonRef) (name : Argument)
  | addAccepting (automaton : AutomatonRef) (name : Argument)
  | connect (symbol : Argument) (state target : StateRef)
  | connectToName (state : StateRef) (symbol : Argument) (target : String)
  | clear (state : StateRef)
  | targets (state : StateRef) (symbol : String)
  | demote (automaton : AutomatonRef) (state : StateRef)
  | adopt (automaton : AutomatonRef) (states : List StateRef)
  /-- Makes an automaton own all that another one owns. -/
  | adoptFrom (automaton source : AutomatonRef)
  | addLetters (automaton : AutomatonRef) (symbols : List Argument)
  | startOf (automaton : AutomatonRef)
  | stateNamed (automaton : AutomatonRef) (name : String)
  | acceptingIn (automaton : AutomatonRef)
  | moves (automaton : AutomatonRef) (state : StateRef) (symbol : String)
  | closure (automaton : AutomatonRef) (state : StateRef)
  | print (automaton : AutomatonRef)
  | accepts (automaton : AutomatonRef) (word : List Char)
  /-- Asks whether two references lead to one state. -/
  | same (first second : StateRef)
  | list (automaton : AutomatonRef) (listing : Listing)
  /-- Asks whether a text is a symbol. -/
  | symbol (value : Argument)
  | newCounter (next : Int)
  | count (counter : CounterRef)
  | newCompiler (pattern : List Char)
  | peek (compiler : CompilerRef)
  | next (compiler : CompilerRef)
  | more (compiler : CompilerRef)
  | expect (compiler : CompilerRef) (text : String)
  /-- Makes a complaint at the cursor. -/
  | complain (compiler : CompilerRef) (words : String)
  | seek (compiler : CompilerRef) (position : Nat)
  | parse (compiler : CompilerRef) (rule : Rule)
  | compile (compiler : CompilerRef)
  | literal (compiler : CompilerRef) (symbol : Argument)
  | alternative (compiler : CompilerRef) (first second : AutomatonRef)
  | concatenation (first : Option AutomatonRef) (second : AutomatonRef)
  | repetition (automaton : AutomatonRef)
deriving DecidableEq

/-- What a command gives when it does not fail. -/
inductive Outcome
  /-- Nothing but the change to the store. -/
  | done
  | state (ref : StateRef)
  | automaton (ref : AutomatonRef)
  | counter (ref : CounterRef)
  | compiler (ref : CompilerRef)
  | states (contents : List State)
  | names (names : List String)
  | text (content : String)
  | truth (holds : Bool)
  | printout (printed : Printout)
deriving DecidableEq

namespace Action

/-- Takes a result over from a function that reads the store. -/
def ofResult {α : Type} : Except Fault α → Action α
  | .ok value => return value
  | .error fault => throw fault

/-- The targets of each symbol of a state that is made. -/
def readTransitions (transitions : List (Argument × List Argument)) :
    Action (Table StringSet) := do
  let entries ← transitions.mapM fun (symbol, targets) => do
    let symbol ← symbol.read
    let targets ← targets.mapM Argument.read
    return (symbol, StringSet.ofList targets)
  return Table.ofList entries

/-- Makes a state that no automaton owns. -/
def makeState (name : Option Argument) (accepting : Bool)
    (transitions : List (Argument × List Argument)) : Action StateRef := do
  let some name := name | throw .missingName
  let name ← name.read
  let transitions ← readTransitions transitions
  newState { name, accepting, transitions }

/-- Makes an automaton that owns no states. -/
def makeAutomaton (start : Option Argument) (alphabet : List Argument) :
    Action AutomatonRef := do
  let start ← start.mapM Argument.read
  let alphabet ← alphabet.mapM Argument.read
  newAutomaton { start, alphabet := StringSet.ofList alphabet }

/-- The names in a part of an automaton. -/
def list (automaton : AutomatonRef) : Listing → Action (List String)
  | .states => return (← Action.automaton automaton).owned.keys
  | .accepting => return (← Action.automaton automaton).accepting.keys
  | .alphabet => return (← Action.automaton automaton).alphabet.toList

/-- Performs a command. -/
def perform : Command → Action Outcome
  | .newAutomaton start alphabet => return .automaton (← makeAutomaton start alphabet)
  | .newState name accepting transitions =>
      return .state (← makeState name accepting transitions)
  | .addStart automaton name => return .state (← Action.addStart automaton (← name.read))
  | .addAccepting automaton name => return .state (← Action.addAccepting automaton (← name.read))
  | .connect symbol state target => do
      Action.connect (← symbol.read) state target
      return .done
  | .connectToName state symbol target => do
      Action.connectToName state (← symbol.read) target
      return .state state
  | .clear state => do
      Action.clear state
      return .state state
  | .targets state symbol => return .names ((← Action.state state).targets symbol).toList
  | .demote automaton state => do
      Action.demote automaton state
      return .done
  | .adopt automaton states => do
      Action.adopt automaton states
      return .done
  | .adoptFrom automaton source => do
      Action.adopt automaton (← ownedBy source)
      return .done
  | .addLetters automaton symbols => do
      symbols.forM fun symbol => do addLetter automaton (← symbol.read)
      return .done
  | .startOf automaton => return .state (← Action.startOf automaton)
  | .stateNamed automaton name => return .state (← Action.stateNamed automaton name)
  | .acceptingIn automaton =>
      return .states (← (← Action.acceptingIn automaton).mapM Action.state)
  | .moves automaton state symbol => do
      let machine ← Action.machine automaton
      return .states (← ofResult (machine.moves (← Action.state state) symbol))
  | .closure automaton state => do
      let machine ← Action.machine automaton
      return .names (← ofResult (machine.closure (← Action.state state).name)).toList
  | .print automaton => return .printout (← Action.machine automaton).print
  | .accepts automaton word => do
      let machine ← Action.machine automaton
      return .truth (← ofResult (machine.accepts word))
  | .same first second => return .truth (first = second)
  | .list automaton listing => return .names (← Action.list automaton listing)
  | .symbol value => do
      let text ← value.read
      checkSymbol text
      return .text text
  | .newCounter next => return .counter (← Action.newCounter next)
  | .count counter => return .text (toString (← Action.count counter))
  | .newCompiler pattern => return .compiler (← Action.newCompiler pattern)
  | .peek compiler => return .text (String.singleton (← Action.peek compiler))
  | .next compiler => return .text (String.singleton (← Action.next compiler))
  | .more compiler => return .truth (← Action.more compiler)
  | .expect compiler text => do
      Action.expect compiler text
      return .done
  | .complain compiler words => Action.complain compiler (.said words)
  | .seek compiler position => do
      Action.seek compiler position
      return .done
  | .parse compiler rule => return .automaton (← Action.parse compiler rule)
  | .compile compiler => return .automaton (← Action.compile compiler)
  | .literal compiler symbol => return .automaton (← Action.literal compiler (← symbol.read))
  | .alternative compiler first second =>
      return .automaton (← Action.alternative compiler first second)
  | .concatenation first second => return .automaton (← Action.concatenation first second)
  | .repetition automaton => return .automaton (← Action.repetition automaton)

end Action

namespace Store

/-- Performs a command on a store: the outcome or the fault, and the store
afterwards. -/
def perform (store : Store) (command : Command) : Except Fault Outcome × Store :=
  match (Action.perform command).run store with
  | .ok outcome after => (.ok outcome, after)
  | .error fault after => (.error fault, after)

/-- Performs commands one after another, going on behind those that fail. -/
def run (store : Store) (commands : List Command) : Store :=
  commands.foldl (fun store command => (store.perform command).2) store

section Giving

variable {store after : Store} {command : Command} {action : Action AutomatonRef}
  {automaton : AutomatonRef} {fault : Fault}

/-- A command that gives the automaton of an action succeeds with it. -/
theorem perform_of_ok (gives : Action.perform command = (do return .automaton (← action)))
    (ran : action.run store = .ok automaton after) :
    store.perform command = (.ok (.automaton automaton), after) := by
  rw [perform, gives, Action.run_bind_of_ok ran]
  rfl

/-- A command that gives the automaton of an action fails with it. -/
theorem perform_of_error (gives : Action.perform command = (do return .automaton (← action)))
    (ran : action.run store = .error fault after) :
    store.perform command = (.error fault, after) := by
  rw [perform, gives, Action.run_bind_of_error ran]

end Giving

end Store

end PatternAutomata
