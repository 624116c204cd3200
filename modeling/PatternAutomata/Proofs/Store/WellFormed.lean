import PatternAutomata.Machine.Printout
import PatternAutomata.Proofs.Machine.Acceptance
import PatternAutomata.Proofs.Pattern.Labels
import PatternAutomata.Proofs.Store.Holding

/-! # Well-formed automata

What nothing in a store enforces, but holds of the automata of patterns: the start is owned
and does not accept, some state accepts, transitions have proper labels and lead to owned
states, and the accepting states are the owned ones that say so of themselves
(`Store.WellFormed`). Nothing that is asked of such an automaton can fail.
-/

namespace PatternAutomata

namespace Machine.Whole

variable {machine : Machine}

theorem exists_startState (whole : machine.Whole) : ∃ state, machine.startState = .ok state := by
  obtain ⟨name, owned, started⟩ := whole.start
  obtain ⟨state, found⟩ := owned_iff.mp owned
  exact ⟨state, by simp only [startState, started, stateNamed, found]⟩

theorem exists_closure (whole : machine.Whole) {name : String}
    (owned : name ∈ machine.states.keys) : ∃ names, machine.closure name = .ok names := by
  have empty : machine.Settled ∅ := fun name member => absurd member (StringSet.not_mem_empty name)
  obtain ⟨names, closed, _⟩ := whole.extend_eq empty owned
  exact ⟨names, closed⟩

theorem exists_moves (whole : machine.Whole) {name : String} {state : State}
    (found : machine.states.find? name = some state) (symbol : String) :
    ∃ states, machine.moves state symbol = .ok states := by
  obtain ⟨states, moved, _⟩ := whole.mapM_stateNamed fun target member =>
    whole.targets name symbol target ⟨state, found, member⟩
  exact ⟨states, moved⟩

theorem print_fault (whole : machine.Whole) : machine.print.fault = none := by
  obtain ⟨state, started⟩ := whole.exists_startState
  simp only [print, started]

end Machine.Whole

namespace Store

/-- An automaton whose parts fit together. -/
structure WellFormed (store : Store) (automaton : AutomatonRef) : Prop where
  /-- The start is owned, does not accept and is not entered as accepting. -/
  start : ∃ name ref, (store.automata.get automaton).start = some name ∧
    (store.automata.get automaton).owned.find? name = some ref ∧
    (store.states.get ref).accepting = false ∧
    name ∉ (store.automata.get automaton).accepting.keys
  /-- Some state is entered as accepting. -/
  accepts : (store.automata.get automaton).accepting.keys ≠ []
  /-- States are owned under their own names. -/
  named : ∀ name ref, (store.automata.get automaton).owned.find? name = some ref →
    (store.states.get ref).name = name
  /-- The targets of owned states are owned. -/
  targets : ∀ ref ∈ (store.automata.get automaton).owned.values, ∀ symbol,
    ∀ target ∈ (store.states.get ref).targets symbol,
      target ∈ (store.automata.get automaton).owned.keys
  /-- The symbols of owned states are epsilon or characters, and have targets. -/
  labels : ∀ ref ∈ (store.automata.get automaton).owned.values, (store.states.get ref).Labelled
  /-- The states entered as accepting are those owned states that say so of themselves, in
  the order in which they are owned. -/
  accepting : (store.automata.get automaton).accepting.entries =
    (store.automata.get automaton).owned.entries.filter fun entry =>
      (store.states.get entry.2).accepting

variable {store : Store} {automaton : AutomatonRef} {refs : List StateRef}
  {fragment : Fragment} {alphabet : StringSet}

/-- An automaton that holds a proper fragment is well formed. -/
theorem Holds.wellFormed (holds : store.Holds automaton refs fragment alphabet)
    (proper : fragment.Proper) (labelled : fragment.Labelled) : store.WellFormed automaton := by
  have inStates {ref : StateRef} (member : ref ∈ refs) :
      store.states.get ref ∈ fragment.states :=
    holds.states ▸ List.mem_map_of_mem member
  have exits (name : String) :
      name ∈ (store.automata.get automaton).accepting.keys ↔ name ∈ fragment.exits := by
    rw [holds.acceptingKeys]
    rfl
  refine ⟨?_, ?_, ?_, ?_, ?_, ?_⟩
  · obtain ⟨entry, member, named, _⟩ := holds.run_startOf proper.start
    refine ⟨fragment.start, entry, holds.start, ?_, ?_, (exits _).not.mpr proper.quiet⟩
    · rw [Table.find?_eq_some_iff, holds.owned, ← named]
      exact List.mem_map_of_mem member
    · apply Bool.eq_false_of_not_eq_true
      intro accepts
      exact proper.quiet (Fragment.mem_exits.mpr ⟨_, inStates member, accepts, named⟩)
  · obtain ⟨exit, member⟩ := proper.exits
    exact List.ne_nil_of_mem ((exits exit).mpr member)
  · intro name ref found
    rw [Table.find?_eq_some_iff, holds.owned] at found
    obtain ⟨_, _, same⟩ := List.mem_map.mp found
    cases same
    rfl
  · rw [holds.ownedValues, holds.ownedKeys]
    intro ref member symbol target leads
    exact (proper.within _ _ _ ⟨_, inStates member, rfl, leads⟩).2
  · rw [holds.ownedValues]
    exact fun ref member => labelled _ (inStates member)
  · rw [holds.accepting]
    exact holds.entries_flagged

namespace WellFormed

/-- The value of a well-formed automaton owns its start and all targets. -/
theorem whole (formed : store.WellFormed automaton) : (store.machine automaton).Whole := by
  have keys : (store.machine automaton).states.keys =
      (store.automata.get automaton).owned.keys :=
    Table.keys_map _ _
  have found (name : String) : (store.machine automaton).states.find? name =
      ((store.automata.get automaton).owned.find? name).map store.states.get :=
    Table.find?_map _ _ name
  refine ⟨?_, ?_, ?_⟩
  · obtain ⟨name, ref, started, owned, _⟩ := formed.start
    refine ⟨name, ?_, started⟩
    rw [keys]
    exact Table.mem_keys_of_find? owned
  · rintro source symbol target ⟨state, owner, leads⟩
    rw [found, Option.map_eq_some_iff] at owner
    obtain ⟨ref, owned, rfl⟩ := owner
    rw [keys]
    exact formed.targets ref (Table.mem_values_of_find? owned) symbol target leads
  · intro name state owner
    rw [found, Option.map_eq_some_iff] at owner
    obtain ⟨ref, owned, rfl⟩ := owner
    exact formed.named name ref owned

theorem find?_machine (formed : store.WellFormed automaton) {ref : StateRef}
    (member : ref ∈ (store.automata.get automaton).owned.values) :
    (store.machine automaton).states.find? (store.states.get ref).name =
      some (store.states.get ref) := by
  obtain ⟨⟨name, _⟩, inside, rfl⟩ := List.mem_map.mp member
  have owned := Table.find?_eq_some_iff.mpr inside
  rw [formed.named name _ owned]
  change ((store.automata.get automaton).owned.map store.states.get).find? name = _
  rw [Table.find?_map, owned]
  rfl

/-- **Nothing that is asked of a well-formed automaton fails:** neither the closure of one
of its states, nor the moves of one, nor the answer for a word, nor its printed form. -/
theorem answers (formed : store.WellFormed automaton) :
    (∀ ref ∈ (store.automata.get automaton).owned.values,
        (∃ names, (store.machine automaton).closure (store.states.get ref).name = .ok names) ∧
        ∀ symbol, ∃ states,
          (store.machine automaton).moves (store.states.get ref) symbol = .ok states) ∧
      (∀ word, ∃ answer, (store.machine automaton).accepts word = .ok answer) ∧
      (store.machine automaton).print.fault = none := by
  have whole := formed.whole
  refine ⟨fun ref member => ?_, fun word => ?_, whole.print_fault⟩
  · have found := formed.find?_machine member
    exact ⟨whole.exists_closure (Machine.owned_iff.mpr ⟨_, found⟩), whole.exists_moves found⟩
  · obtain ⟨answer, answered, _⟩ := whole.accepts_eq word
    exact ⟨answer, answered⟩

end WellFormed

end Store

end PatternAutomata
