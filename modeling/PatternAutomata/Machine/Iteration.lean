import PatternAutomata.Machine.Acceptance

/-! # Going through sets in any order

A set has no order of its own, and whoever goes through one may meet its members in any. Here
words are read with that left open. Whenever names are gone through, a schedule says how they are
arranged this time (`Schedule`), and it may arrange the same names differently at another turn.

Nothing is carried over from one closure to the next: every target of a move has its silent moves
followed anew. Among the names that wait for this, the schedule may prefer any.
-/

namespace PatternAutomata

/-- How names are arranged, turn by turn. -/
structure Schedule where
  /-- The names in the order in which they are gone through at a turn. -/
  arrange : (turn : Nat) → (names : List String) → List String
  /-- No name is added, left out or repeated. -/
  rearranges : ∀ turn names, (arrange turn names).Perm names

/-- An action that goes from turn to turn and may fail. -/
abbrev Turns := StateT Nat (Except Fault)

/-- Arranges names as the turn has it, and goes on to the next turn. -/
def Schedule.next (schedule : Schedule) (names : List String) : Turns (List String) :=
  modifyGet fun turn => (schedule.arrange turn names, turn + 1)

/-- Names are always gone through as they are listed. -/
def Schedule.asListed : Schedule where
  arrange _ names := names
  rearranges _ names := .refl names

/-- Names are gone through in turn as they are listed and from the last to the first. -/
def Schedule.backAndForth : Schedule where
  arrange turn names := if turn % 2 = 0 then names else names.reverse
  rearranges turn names := by
    split
    · exact .refl names
    · exact names.reverse_perm

namespace Machine

variable (machine : Machine) (schedule : Schedule)

/-- Expands the pending names one by one, in any order, adding the targets of their silent moves
to the names found. -/
def exploreBy : (steps : Nat) → (found : StringSet) → (pending : List String) → Turns StringSet
  | _, found, [] => return found
  | 0, _, name :: _ => throw (.unowned name)
  | steps + 1, found, name :: pending => do
      let state ← machine.stateNamed name
      let fresh := (state.targets epsilon).toList.filter fun target => target ∉ found
      let waiting ← schedule.next (fresh ++ pending)
      exploreBy steps (found.insertAll fresh) waiting

/-- A search with no bound to its steps: the names taken from those that wait, one at each turn,
and how the search ends. -/
inductive Searches : (turn : Nat) → (found : StringSet) → (pending taken : List String) →
    Except Fault StringSet → Prop
  | done (turn : Nat) (found : StringSet) : Searches turn found [] [] (.ok found)
  | stray {turn : Nat} {found : StringSet} {name : String} {pending : List String}
      (unowned : machine.states.find? name = none) :
      Searches turn found (name :: pending) [name] (.error (.unowned name))
  | follow {turn : Nat} {found : StringSet} {name : String} {pending taken fresh : List String}
      {state : State} {outcome : Except Fault StringSet}
      (owned : machine.states.find? name = some state)
      (new : fresh = (state.targets epsilon).toList.filter fun target => target ∉ found)
      (onward : Searches (turn + 1) (found.insertAll fresh)
        (schedule.arrange turn (fresh ++ pending)) taken outcome) :
      Searches turn found (name :: pending) (name :: taken) outcome

/-- The names reachable from a name by silent moves alone, that name included. -/
def closureBy (name : String) : Turns StringSet :=
  machine.exploreBy schedule machine.states.keys.length (StringSet.ofList [name]) [name]

/-- Adds to a set the names reached from a name by one move on a symbol and any number of silent
moves. The targets of the move are gone through in increasing order. -/
def stepFromBy (symbol : String) (found : StringSet) (name : String) : Turns StringSet := do
  let state ← machine.stateNamed name
  let targets ← machine.moves state symbol
  targets.foldlM (fun found target => do
    return found ∪ (← machine.closureBy schedule target.name)) found

/-- The names reached from a set of names, gone through in any order, by one move on a symbol and
any number of silent moves after it. -/
def stepBy (reached : StringSet) (symbol : String) : Turns StringSet := do
  let names ← schedule.next reached.toList
  names.foldlM (machine.stepFromBy schedule symbol) ∅

/-- The names reached from the start state along a word. -/
def reachBy (word : List Char) : Turns StringSet := do
  let start ← machine.startState
  let initial ← machine.closureBy schedule start.name
  word.foldlM (fun reached character => machine.stepBy schedule reached (String.singleton character))
    initial

/-- Whether a state under one of some names accepts; the names behind the first such one are not
looked up. -/
def anyAccepts : List String → Except Fault Bool
  | [] => return false
  | name :: names => do
      let state ← machine.stateNamed name
      if state.accepting then return true else anyAccepts names

/-- Whether a word leads to a state that accepts, with sets gone through as a schedule has it. -/
def acceptsBy (word : List Char) : Turns Bool := do
  let reached ← machine.reachBy schedule word
  let names ← schedule.next reached.toList
  machine.anyAccepts names

/-- The answer for a word, from the first turn on. -/
def acceptsUnder (word : List Char) : Except Fault Bool :=
  (machine.acceptsBy schedule word).run' 0

end Machine

end PatternAutomata
