import PatternAutomata.Store.Basic

/-! # Owning states

An automaton owns states under their names, one state for each name. Owning a
state again changes nothing in the order of the owned states, and enters the
state as accepting if its flag says so; no flag ever takes an entry away.
-/

namespace PatternAutomata

namespace Automaton

/-- Whether a name is owned by another state than the given one. -/
def clashes (automaton : Automaton) (state : StateRef) (name : String) : Bool :=
  match automaton.owned.find? name with
  | some owner => owner ≠ state
  | none => false

/-- Enters a state among the owned ones, and among the accepting ones if its
flag says so. -/
def enter (automaton : Automaton) (ref : StateRef) (state : State) : Automaton :=
  { automaton with
    owned := automaton.owned.insert state.name ref
    accepting :=
      if state.accepting then automaton.accepting.insert state.name ref
      else automaton.accepting }

/-- Takes a name out of the accepting ones. -/
def withdraw (automaton : Automaton) (name : String) : Automaton :=
  { automaton with accepting := automaton.accepting.erase name }

/-- Adds a character to the alphabet. -/
def learn (automaton : Automaton) (symbol : String) : Automaton :=
  { automaton with alphabet := automaton.alphabet.insert symbol }

end Automaton

namespace Action

/-- Makes an automaton own a state, unless it owns another one of that name. -/
def claim (automaton : AutomatonRef) (ref : StateRef) : Action Unit := do
  let state ← Action.state ref
  if (← Action.automaton automaton).clashes ref state.name then
    throw (.duplicateState state.name)
  else
    modify (·.changeAutomaton automaton (·.enter ref state))

/-- Makes an automaton own states, one by one up to the first that clashes. -/
def adopt (automaton : AutomatonRef) (states : List StateRef) : Action Unit :=
  states.forM (claim automaton)

/-- The owned states of an automaton, oldest first. -/
def ownedBy (automaton : AutomatonRef) : Action (List StateRef) := do
  return (← Action.automaton automaton).owned.values

/-- The states entered as accepting in an automaton, oldest entry first. -/
def acceptingIn (automaton : AutomatonRef) : Action (List StateRef) := do
  return (← Action.automaton automaton).accepting.values

/-- Adds a new state that an automaton owns. -/
def addState (automaton : AutomatonRef) (state : State) : Action StateRef := do
  if state.name ∈ (← Action.automaton automaton).owned.keys then
    throw (.duplicateState state.name)
  else
    let ref ← newState state
    modify (·.changeAutomaton automaton (·.enter ref state))
    return ref

/-- Adds a new state to an automaton and makes it the start. -/
def addStart (automaton : AutomatonRef) (name : String) : Action StateRef := do
  let ref ← addState automaton { name }
  modify (·.changeAutomaton automaton ({ · with start := some name }))
  return ref

/-- Adds a new accepting state to an automaton. -/
def addAccepting (automaton : AutomatonRef) (name : String) : Action StateRef :=
  addState automaton { name, accepting := true }

/-- Refuses a text that is not a symbol. -/
def checkSymbol (text : String) : Action Unit :=
  if IsSymbol text then pure () else throw (.badSymbol text)

/-- Adds a transition to a state; the target is a name. -/
def connectToName (state : StateRef) (symbol target : String) : Action Unit := do
  checkSymbol symbol
  modify (·.changeState state (·.connect symbol target))

/-- Adds a transition from a state to a state. -/
def connect (symbol : String) (state target : StateRef) : Action Unit := do
  connectToName state symbol (← Action.state target).name

/-- Takes the accepting flag from a state. -/
def clear (state : StateRef) : Action Unit :=
  modify (·.changeState state State.clear)

/-- Takes the accepting flag from a state and its name out of the accepting ones
of an automaton. -/
def demote (automaton : AutomatonRef) (state : StateRef) : Action Unit := do
  let name := (← Action.state state).name
  clear state
  modify (·.changeAutomaton automaton (·.withdraw name))

/-- Refuses a text that is not a character. -/
def checkLetter (text : String) : Action Unit :=
  if text = epsilon then throw .epsilonInAlphabet else checkSymbol text

/-- Adds a character to the alphabet of an automaton. -/
def addLetter (automaton : AutomatonRef) (symbol : String) : Action Unit := do
  checkLetter symbol
  modify (·.changeAutomaton automaton (·.learn symbol))

/-- Adds characters to the alphabet of an automaton, one by one up to the first
text that is not a character. -/
def addLetters (automaton : AutomatonRef) (symbols : List String) : Action Unit :=
  symbols.forM (addLetter automaton)

/-- The state owned under a name. -/
def stateNamed (automaton : AutomatonRef) (name : String) : Action StateRef := do
  match (← Action.automaton automaton).owned.find? name with
  | some ref => return ref
  | none => throw (.unowned name)

/-- The start state of an automaton. -/
def startOf (automaton : AutomatonRef) : Action StateRef := do
  match (← Action.automaton automaton).start with
  | some name => stateNamed automaton name
  | none => throw .missingStart

section Run

variable (store : Store)

theorem run_claim (automaton : AutomatonRef) (ref : StateRef) :
    (claim automaton ref).run store =
      if (store.automata.get automaton).clashes ref (store.states.get ref).name then
        .error (.duplicateState (store.states.get ref).name) store
      else
        .ok () (store.changeAutomaton automaton (·.enter ref (store.states.get ref))) := by
  simp only [claim, EStateM.run_bind, run_state, run_automaton]
  split <;> rfl

theorem adopt_nil (automaton : AutomatonRef) : adopt automaton [] = pure () := rfl

theorem adopt_cons (automaton : AutomatonRef) (ref : StateRef) (rest : List StateRef) :
    adopt automaton (ref :: rest) = (do claim automaton ref; adopt automaton rest) := rfl

@[simp] theorem run_ownedBy (automaton : AutomatonRef) :
    (ownedBy automaton).run store = .ok (store.automata.get automaton).owned.values store := rfl

@[simp] theorem run_acceptingIn (automaton : AutomatonRef) :
    (acceptingIn automaton).run store =
      .ok (store.automata.get automaton).accepting.values store := rfl

theorem run_addState (automaton : AutomatonRef) (state : State) :
    (addState automaton state).run store =
      if state.name ∈ (store.automata.get automaton).owned.keys then
        .error (.duplicateState state.name) store
      else
        .ok store.states.fresh
          (({ store with states := store.states.add state } : Store).changeAutomaton automaton
            (·.enter store.states.fresh state)) := by
  simp only [addState, EStateM.run_bind, run_automaton]
  split <;> rfl

theorem run_checkSymbol (text : String) :
    (checkSymbol text).run store =
      if IsSymbol text then .ok () store else .error (.badSymbol text) store := by
  unfold checkSymbol
  split <;> rfl

theorem run_connectToName (state : StateRef) (symbol target : String) :
    (connectToName state symbol target).run store =
      if IsSymbol symbol then .ok () (store.changeState state (·.connect symbol target))
      else .error (.badSymbol symbol) store := by
  simp only [connectToName, EStateM.run_bind, run_checkSymbol]
  by_cases proper : IsSymbol symbol
  · simp only [proper, if_true]
    rfl
  · simp only [proper, if_false]

@[simp] theorem run_connect (symbol : String) (state target : StateRef) :
    (connect symbol state target).run store =
      (connectToName state symbol (store.states.get target).name).run store :=
  run_bind_of_ok (run_state store target)

@[simp] theorem run_clear (state : StateRef) :
    (clear state).run store = .ok () (store.changeState state State.clear) := rfl

@[simp] theorem run_demote (automaton : AutomatonRef) (state : StateRef) :
    (demote automaton state).run store =
      .ok () ((store.changeState state State.clear).changeAutomaton automaton
        (·.withdraw (store.states.get state).name)) := rfl

theorem run_checkLetter (text : String) :
    (checkLetter text).run store =
      if text = epsilon then .error .epsilonInAlphabet store
      else (checkSymbol text).run store := by
  unfold checkLetter
  split <;> rfl

theorem run_addLetter (automaton : AutomatonRef) (symbol : String) :
    (addLetter automaton symbol).run store =
      if symbol = epsilon then .error .epsilonInAlphabet store
      else if IsSymbol symbol then .ok () (store.changeAutomaton automaton (·.learn symbol))
      else .error (.badSymbol symbol) store := by
  simp only [addLetter, EStateM.run_bind, run_checkLetter, run_checkSymbol]
  by_cases silent : symbol = epsilon
  · simp only [silent, if_true]
  · by_cases proper : IsSymbol symbol
    · simp only [silent, proper, if_false, if_true]
      rfl
    · simp only [silent, proper, if_false]

theorem addLetters_nil (automaton : AutomatonRef) : addLetters automaton [] = pure () := rfl

theorem addLetters_cons (automaton : AutomatonRef) (symbol : String) (rest : List String) :
    addLetters automaton (symbol :: rest) =
      (do addLetter automaton symbol; addLetters automaton rest) := rfl

theorem run_stateNamed (automaton : AutomatonRef) (name : String) :
    (stateNamed automaton name).run store =
      match (store.automata.get automaton).owned.find? name with
      | some ref => .ok ref store
      | none => .error (.unowned name) store := by
  simp only [stateNamed, EStateM.run_bind, run_automaton]
  split <;> rfl

theorem run_startOf (automaton : AutomatonRef) :
    (startOf automaton).run store =
      match (store.automata.get automaton).start with
      | some name => (stateNamed automaton name).run store
      | none => .error .missingStart store := by
  simp only [startOf, EStateM.run_bind, run_automaton]
  split <;> rfl

end Run

end Action

end PatternAutomata
