import PatternAutomata.Machine.Basic
import PatternAutomata.Pattern.Tree

/-! # The machine of a pattern

The machine of a tree is put together from the fragments of its parts, by
recursion on the tree. States are named by numbers in the order in which the
parts are finished, so the fragment of a tree is determined by the tree and the
first number (`Tree.fragment`).

A literal has two states. A concatenation keeps the states of both its parts, and
the accepting ones of the first lead on silently to the second instead. An
alternative puts a new start before its parts. A star adds no state: silent moves
lead from the start to each accepting state and back.
-/

namespace PatternAutomata

/-- Takes the accepting flag from a state that has it and makes the state lead on
silently to another one. -/
def State.handOver (entry : String) (state : State) : State :=
  if state.accepting then state.clear.connect epsilon entry else state

/-- Makes a state lead on silently to several others. -/
def State.branch (entries : List String) (state : State) : State :=
  entries.foldl (fun state entry => state.connect epsilon entry) state

namespace State

@[simp] theorem name_handOver (entry : String) (state : State) :
    (state.handOver entry).name = state.name := by
  unfold handOver
  split <;> simp

@[simp] theorem accepting_handOver (entry : String) (state : State) :
    (state.handOver entry).accepting = false := by
  unfold handOver
  by_cases accepts : state.accepting = true
  · simp [accepts]
  · simp [accepts]

@[simp] theorem branch_nil (state : State) : state.branch [] = state := rfl

@[simp] theorem branch_cons (entry : String) (entries : List String) (state : State) :
    state.branch (entry :: entries) = (state.connect epsilon entry).branch entries := rfl

@[simp] theorem name_branch (entries : List String) (state : State) :
    (state.branch entries).name = state.name := by
  induction entries generalizing state with
  | nil => rfl
  | cons entry entries ih => rw [branch_cons, ih, name_connect]

@[simp] theorem accepting_branch (entries : List String) (state : State) :
    (state.branch entries).accepting = state.accepting := by
  induction entries generalizing state with
  | nil => rfl
  | cons entry entries ih => rw [branch_cons, ih, accepting_connect]

theorem mem_targets_handOver {state : State} {entry symbol name : String} :
    name ∈ (state.handOver entry).targets symbol ↔
      name ∈ state.targets symbol ∨ symbol = epsilon ∧ state.accepting = true ∧ name = entry := by
  unfold handOver
  by_cases accepts : state.accepting = true
  · simp [accepts, mem_targets_connect]
  · simp [accepts]

theorem mem_targets_branch {state : State} {entries : List String} {symbol name : String} :
    name ∈ (state.branch entries).targets symbol ↔
      name ∈ state.targets symbol ∨ symbol = epsilon ∧ name ∈ entries := by
  induction entries generalizing state with
  | nil => simp
  | cons entry entries ih =>
      rw [branch_cons, ih, mem_targets_connect, List.mem_cons, or_assoc, and_or_left]

end State

/-- States that are to be part of a machine, with the name of their start. Those
accept that say so of themselves. -/
@[ext]
structure Fragment where
  /-- The name of the start. -/
  start : String
  /-- The states, in the order in which they are to be owned. -/
  states : List State
deriving DecidableEq

namespace Fragment

/-- The names of the accepting states. -/
def accepting (fragment : Fragment) : List String :=
  (fragment.states.filter (·.accepting)).map (·.name)

/-- Two states and a transition on a character. -/
def literal (first : Nat) (character : Char) : Fragment where
  start := first.repr
  states := [
    ({ name := first.repr } : State).connect (String.singleton character) (first + 1).repr,
    { name := (first + 1).repr, accepting := true }]

/-- One fragment after another. -/
def concat (first second : Fragment) : Fragment where
  start := first.start
  states := first.states.map (State.handOver second.start) ++ second.states

/-- One fragment or another, from a new start with the given number. -/
def alt (start : Nat) (first second : Fragment) : Fragment where
  start := start.repr
  states :=
    ({ name := start.repr } : State).branch [first.start, second.start] ::
      first.states ++ second.states

/-- What a star makes of a state: the start leads to each accepting state, and each
of them leads back. -/
def around (fragment : Fragment) (state : State) : State :=
  let onward := if state.name = fragment.start then state.branch fragment.accepting else state
  if state.accepting then onward.connect epsilon fragment.start else onward

/-- A fragment repeated. -/
def star (fragment : Fragment) : Fragment where
  start := fragment.start
  states := fragment.states.map fragment.around

@[simp] theorem name_around (fragment : Fragment) (state : State) :
    (fragment.around state).name = state.name := by
  unfold around
  split <;> split <;> simp

@[simp] theorem accepting_around (fragment : Fragment) (state : State) :
    (fragment.around state).accepting = state.accepting := by
  unfold around
  split <;> split <;> simp

/-- The machine of a fragment. -/
def machine (fragment : Fragment) (alphabet : StringSet) : Machine where
  start := some fragment.start
  states := Table.ofList (fragment.states.map fun state => (state.name, state))
  accepting := fragment.accepting
  alphabet := alphabet

end Fragment

namespace Tree

/-- The fragment of a tree, with states numbered from the given number on. -/
def fragment (first : Nat) : Tree → Fragment
  | literal character => Fragment.literal first character
  | escaped character => Fragment.literal first character
  | group inner => inner.fragment first
  | star inner => (inner.fragment first).star
  | concat left right => (left.fragment first).concat (right.fragment (first + left.names))
  | alt left right =>
      let second := first + left.names
      Fragment.alt (second + right.names) (left.fragment first) (right.fragment second)

/-- The characters that stand for themselves, as a set of symbols. -/
def alphabet (tree : Tree) : StringSet :=
  StringSet.ofList (tree.literals.map String.singleton)

/-- The machine of a tree. -/
def machine (tree : Tree) : Machine :=
  (tree.fragment 0).machine tree.alphabet

end Tree

end PatternAutomata
