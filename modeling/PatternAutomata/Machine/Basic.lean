import PatternAutomata.Data.StringSet
import PatternAutomata.Data.Table
import PatternAutomata.Symbol
import PatternAutomata.Fault

/-! # Machines

A machine is the value of an automaton at one moment: its states in the order in
which it came to own them, its start and its accepting names, and its alphabet.
Nothing ties these parts together here. A start may be unowned, a target may
lead nowhere, and a state's own flag may disagree with the accepting names; what
holds of machines built in a certain way is a matter of that way.
-/

namespace PatternAutomata

/-- A state: its name, whether it says of itself that it accepts, and the names
of its targets for each symbol. -/
@[ext]
structure State where
  /-- The name, fixed for the life of the state. -/
  name : String
  /-- The state's own accepting flag. -/
  accepting : Bool := false
  /-- The targets of each symbol, symbols in the order of their first use. -/
  transitions : Table StringSet := ∅
deriving DecidableEq, Inhabited

namespace State

/-- The names of the states reached on a symbol. -/
def targets (state : State) (symbol : String) : StringSet :=
  (state.transitions.find? symbol).getD ∅

/-- Adds a target to those of a symbol. -/
def connect (state : State) (symbol target : String) : State :=
  { state with
    transitions := state.transitions.insert symbol ((state.targets symbol).insert target) }

/-- Takes the accepting flag away. -/
def clear (state : State) : State :=
  { state with accepting := false }

@[simp] theorem name_connect (state : State) (symbol target : String) :
    (state.connect symbol target).name = state.name := rfl

@[simp] theorem accepting_connect (state : State) (symbol target : String) :
    (state.connect symbol target).accepting = state.accepting := rfl

@[simp] theorem name_clear (state : State) : state.clear.name = state.name := rfl

@[simp] theorem accepting_clear (state : State) : state.clear.accepting = false := rfl

@[simp] theorem targets_clear (state : State) (symbol : String) :
    state.clear.targets symbol = state.targets symbol := rfl

theorem mem_targets_iff {state : State} {symbol target : String} :
    target ∈ state.targets symbol ↔
      ∃ targets, state.transitions.find? symbol = some targets ∧ target ∈ targets := by
  unfold targets
  cases state.transitions.find? symbol with
  | none => simp
  | some targets => simp

theorem targets_connect (state : State) (symbol target other : String) :
    (state.connect symbol target).targets other =
      if other = symbol then (state.targets symbol).insert target else state.targets other := by
  unfold targets connect
  rw [Table.find?_insert]
  split <;> rfl

theorem mem_targets_connect {state : State} {symbol target other name : String} :
    name ∈ (state.connect symbol target).targets other ↔
      name ∈ state.targets other ∨ other = symbol ∧ name = target := by
  rw [targets_connect]
  by_cases same : other = symbol
  · subst same
    simp [or_comm]
  · simp [same]

/-- The targets of one symbol are a set: their order of coming does not show. -/
theorem connect_comm (state : State) (symbol first second : String) :
    (state.connect symbol first).connect symbol second =
      (state.connect symbol second).connect symbol first := by
  have twice (before after : String) : (state.connect symbol before).connect symbol after =
      { state with
        transitions := state.transitions.insert symbol
          (((state.targets symbol).insert before).insert after) } := by
    simp only [connect, targets, Table.find?_insert, if_true, Option.getD_some, Table.insert_insert]
  rw [twice, twice, StringSet.insert_comm]

end State

/-- The value of an automaton at one moment. -/
@[ext]
structure Machine where
  /-- The name of the start state, if one is set. -/
  start : Option String := none
  /-- The owned states, oldest first. -/
  states : Table State := ∅
  /-- The names entered as accepting, oldest entry first. -/
  accepting : List String := []
  /-- The alphabet. -/
  alphabet : StringSet := ∅
deriving DecidableEq, Inhabited

namespace Machine

/-- The state owned under a name. -/
def stateNamed (machine : Machine) (name : String) : Except Fault State :=
  match machine.states.find? name with
  | some state => .ok state
  | none => .error (.unowned name)

/-- The start state. -/
def startState (machine : Machine) : Except Fault State :=
  match machine.start with
  | some name => machine.stateNamed name
  | none => .error .missingStart

/-- The owned states that a state reaches by one move on a symbol, by name. -/
def moves (machine : Machine) (state : State) (symbol : String) : Except Fault (List State) :=
  (state.targets symbol).toList.mapM machine.stateNamed

end Machine

end PatternAutomata
