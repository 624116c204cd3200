import PatternAutomata.Machine.Basic

/-! # Reading words

A machine reads a word by keeping the set of names it may be in. The set starts
as the closure of the start state under silent moves; each character moves every
member along its transitions and closes the result again. A word is accepted
when some name reached belongs to a state that says of itself that it accepts.
-/

namespace PatternAutomata.Machine

/-- Expands the pending names one by one, adding the targets of their silent
moves to the names found. A name becomes pending once, when it is found, so no
more expansions succeed than there are owned states; `steps` counts those left,
and a name still pending when none is left has no owner. -/
def explore (machine : Machine) :
    (steps : Nat) → (found : StringSet) → (pending : List String) → Except Fault StringSet
  | _, found, [] => .ok found
  | 0, _, name :: _ => .error (.unowned name)
  | steps + 1, found, name :: pending =>
      match machine.stateNamed name with
      | .error fault => .error fault
      | .ok state =>
          let fresh := (state.targets epsilon).toList.filter fun target => target ∉ found
          machine.explore steps (found.insertAll fresh) (fresh ++ pending)

/-- Adds to a set that silent moves do not leave the names reachable from a name
by silent moves alone, that name included. Names of the set are explored already,
so what is met outside the set is what is met from the name alone. -/
def extend (machine : Machine) (found : StringSet) (name : String) : Except Fault StringSet :=
  if name ∈ found then .ok found
  else machine.explore machine.states.keys.length (found.insert name) [name]

/-- The names reachable from a name by silent moves alone, that name included. -/
def closure (machine : Machine) (name : String) : Except Fault StringSet :=
  machine.extend ∅ name

/-- Adds to a set that silent moves do not leave the names reached from a name by
one move on a symbol and any number of silent moves. All targets of the move are
looked up first; then they are closed under silent moves in increasing order, and
the first that meets a name without an owner gives the fault. -/
def stepFrom (machine : Machine) (symbol : String) (found : StringSet) (name : String) :
    Except Fault StringSet := do
  let state ← machine.stateNamed name
  let targets ← machine.moves state symbol
  targets.foldlM (fun found target => machine.extend found target.name) found

/-- The names reached from a set of names by one move on a symbol and any number
of silent moves after it. -/
def step (machine : Machine) (reached : StringSet) (symbol : String) : Except Fault StringSet :=
  reached.toList.foldlM (machine.stepFrom symbol) ∅

/-- The names reached from the start state along a word. -/
def reach (machine : Machine) (word : List Char) : Except Fault StringSet := do
  let start ← machine.startState
  let initial ← machine.closure start.name
  word.foldlM (fun reached character => machine.step reached (String.singleton character)) initial

/-- Whether a word leads to a state that accepts. -/
def accepts (machine : Machine) (word : List Char) : Except Fault Bool := do
  let reached ← machine.reach word
  let states ← reached.toList.mapM machine.stateNamed
  return states.any (·.accepting)

end PatternAutomata.Machine
