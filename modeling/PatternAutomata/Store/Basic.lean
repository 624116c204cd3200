import PatternAutomata.Data.Heap
import PatternAutomata.Machine.Basic

/-! # The store

States are shared: two automata may own one state, and a change made through one
of them shows in the other. The store therefore keeps states, automata, counters
and compilers on heaps, and automata refer to their states. An action works on the
store; when it fails, what it changed before stays changed.

The value of an automaton at a moment is a machine (`Store.machine`).
-/

namespace PatternAutomata

/-- A reference to a shared state. -/
abbrev StateRef := Ref State

/-- An automaton: states owned under their names, some of them entered as
accepting. -/
@[ext]
structure Automaton where
  /-- The name of the start state, if one is set. -/
  start : Option String := none
  /-- The owned states, oldest first. -/
  owned : Table StateRef := ∅
  /-- The states entered as accepting, oldest entry first. -/
  accepting : Table StateRef := ∅
  /-- The alphabet. -/
  alphabet : StringSet := ∅
deriving DecidableEq, Inhabited

/-- A reference to an automaton. -/
abbrev AutomatonRef := Ref Automaton

/-- A source of names: it gives out the integers in turn. -/
@[ext]
structure Counter where
  /-- The integer to be given out next. -/
  next : Int := 0
deriving DecidableEq, Inhabited

/-- A reference to a counter. -/
abbrev CounterRef := Ref Counter

/-- A compiler at work on a pattern. -/
@[ext]
structure Compiler where
  /-- The pattern. -/
  pattern : List Char
  /-- The number of characters that lie behind; it may exceed their number. -/
  cursor : Nat := 0
  /-- The number of state names given out. -/
  names : Nat := 0
  /-- The literals met since they were last cleared. -/
  literals : StringSet := ∅
deriving DecidableEq, Inhabited

/-- The characters that lie ahead of the cursor. -/
def Compiler.ahead (compiler : Compiler) : List Char :=
  compiler.pattern.drop compiler.cursor

/-- A reference to a compiler. -/
abbrev CompilerRef := Ref Compiler

/-- All shared values. -/
@[ext]
structure Store where
  states : Heap State := {}
  automata : Heap Automaton := {}
  counters : Heap Counter := {}
  compilers : Heap Compiler := {}
deriving Inhabited

/-- An action on the store, which may fail half-way. -/
abbrev Action := EStateM Fault Store

namespace Store

/-- The value of an automaton. -/
def machine (store : Store) (automaton : AutomatonRef) : Machine :=
  let content := store.automata.get automaton
  { start := content.start
    states := content.owned.map store.states.get
    accepting := content.accepting.keys
    alphabet := content.alphabet }

/-- Changes a state. -/
def changeState (store : Store) (state : StateRef) (update : State → State) : Store :=
  { store with states := store.states.change state update }

/-- Changes an automaton. -/
def changeAutomaton (store : Store) (automaton : AutomatonRef)
    (update : Automaton → Automaton) : Store :=
  { store with automata := store.automata.change automaton update }

/-- Changes a counter. -/
def changeCounter (store : Store) (counter : CounterRef) (update : Counter → Counter) : Store :=
  { store with counters := store.counters.change counter update }

/-- Changes a compiler. -/
def changeCompiler (store : Store) (compiler : CompilerRef)
    (update : Compiler → Compiler) : Store :=
  { store with compilers := store.compilers.change compiler update }

end Store

namespace Action

/-- The state behind a reference. -/
def state (ref : StateRef) : Action State := do
  return (← get).states.get ref

/-- The automaton behind a reference. -/
def automaton (ref : AutomatonRef) : Action Automaton := do
  return (← get).automata.get ref

/-- The value of an automaton. -/
def machine (ref : AutomatonRef) : Action Machine := do
  return (← get).machine ref

/-- The compiler behind a reference. -/
def compiler (ref : CompilerRef) : Action Compiler := do
  return (← get).compilers.get ref

/-- Adds a state that no automaton owns. -/
def newState (state : State) : Action StateRef :=
  modifyGet fun store => (store.states.fresh, { store with states := store.states.add state })

/-- Adds an automaton. -/
def newAutomaton (automaton : Automaton := {}) : Action AutomatonRef :=
  modifyGet fun store =>
    (store.automata.fresh, { store with automata := store.automata.add automaton })

/-- Adds a counter. -/
def newCounter (next : Int) : Action CounterRef :=
  modifyGet fun store =>
    (store.counters.fresh, { store with counters := store.counters.add { next } })

/-- Adds a compiler for a pattern. -/
def newCompiler (pattern : List Char) : Action CompilerRef :=
  modifyGet fun store =>
    (store.compilers.fresh, { store with compilers := store.compilers.add { pattern } })

/-- Gives out the next integer of a counter. -/
def count (counter : CounterRef) : Action Int :=
  modifyGet fun store =>
    ((store.counters.get counter).next,
      store.changeCounter counter fun content => { content with next := content.next + 1 })

section Run

/-- An action goes on with what the one before it returned. -/
theorem run_bind_of_ok {α β : Type} {action : Action α} {next : α → Action β} {value : α}
    {store after : Store} (ran : action.run store = .ok value after) :
    (action >>= next).run store = (next value).run after := by
  rw [EStateM.run_bind, ran]

/-- An action ends with the fault of the one before it. -/
theorem run_bind_of_error {α β : Type} {action : Action α} {next : α → Action β}
    {fault : Fault} {store after : Store} (ran : action.run store = .error fault after) :
    (action >>= next).run store = .error fault after := by
  rw [EStateM.run_bind, ran]

variable (store : Store)

theorem run_fail {α : Type} (fault : Fault) :
    EStateM.run (throw fault : Action α) store = .error fault store := rfl

@[simp] theorem run_state (ref : StateRef) :
    (state ref).run store = .ok (store.states.get ref) store := rfl

@[simp] theorem run_automaton (ref : AutomatonRef) :
    (automaton ref).run store = .ok (store.automata.get ref) store := rfl

@[simp] theorem run_machine (ref : AutomatonRef) :
    (machine ref).run store = .ok (store.machine ref) store := rfl

@[simp] theorem run_compiler (ref : CompilerRef) :
    (compiler ref).run store = .ok (store.compilers.get ref) store := rfl

@[simp] theorem run_newState (content : State) :
    (newState content).run store =
      .ok store.states.fresh { store with states := store.states.add content } := rfl

@[simp] theorem run_newAutomaton (content : Automaton) :
    (newAutomaton content).run store =
      .ok store.automata.fresh { store with automata := store.automata.add content } := rfl

end Run

end Action

end PatternAutomata
