import PatternAutomata.Proofs.Machine.Iteration
import PatternAutomata.Proofs.Ownership

/-! # Acceptance by trails

An automaton may be built by any run of commands and have silent moves in circles. As long as it
owns its start and all targets, it answers for every word, and the answer is whether a trail from
the start to an accepting state spells the word (`Store.accepts_iff_trail`). In which order sets are
gone through on the way makes no difference.
-/

namespace PatternAutomata

namespace Machine

/-- The start and all targets are owned. -/
structure Complete (machine : Machine) : Prop where
  start : ∃ name ∈ machine.states.keys, machine.start = some name
  targets : ∀ state ∈ machine.states.values, ∀ targets ∈ state.transitions.values,
    ∀ target ∈ targets.toList, target ∈ machine.states.keys

instance (machine : Machine) : Decidable machine.Complete :=
  decidable_of_iff
    ((∃ name ∈ machine.states.keys, machine.start = some name) ∧
      ∀ state ∈ machine.states.values, ∀ targets ∈ state.transitions.values,
        ∀ target ∈ targets.toList, target ∈ machine.states.keys)
    ⟨fun both => ⟨both.1, both.2⟩, fun complete => ⟨complete.start, complete.targets⟩⟩

/-- A trail from the start to an owned state that accepts, along labels that spell a word. -/
structure Accepting (machine : Machine) (word : List Char) (labels : List String) : Prop where
  trail : ∃ start last state, machine.start = some start ∧ machine.Leads.Trail start labels last ∧
    machine.states.find? last = some state ∧ state.accepting = true
  spells : labels.filter (· ≠ epsilon) = word.map String.singleton

theorem recognises_iff_accepting {machine : Machine} {word : List Char} :
    machine.Recognises word ↔ ∃ labels, machine.Accepting word labels := by
  constructor
  · rintro ⟨start, last, state, started, path, owned, accepts⟩
    obtain ⟨labels, trail, spelled⟩ := Moves.path_iff_trail.mp path
    exact ⟨labels, ⟨start, last, state, started, trail, owned, accepts⟩, spelled⟩
  · rintro ⟨labels, ⟨start, last, state, started, trail, owned, accepts⟩, spelled⟩
    have path := Moves.path_iff_trail.mpr ⟨labels, trail, spelled⟩
    exact ⟨start, last, state, started, path, owned, accepts⟩

/-- A target is listed under some symbol of the state that leads to it. -/
theorem exists_targets_of_leads {machine : Machine} {source symbol target : String}
    (leads : machine.Leads source symbol target) :
    ∃ state ∈ machine.states.values, ∃ targets ∈ state.transitions.values, target ∈ targets := by
  obtain ⟨state, owned, listed⟩ := leads
  obtain ⟨targets, found, member⟩ := State.mem_targets_iff.mp listed
  exact ⟨state, Table.mem_values_of_find? owned, targets, Table.mem_values_of_find? found, member⟩

end Machine

namespace Store

/-- Where tables are in step, a complete value is whole. -/
theorem Orderly.whole {store : Store} (orderly : store.Orderly) {automaton : AutomatonRef}
    (complete : (store.machine automaton).Complete) : (store.machine automaton).Whole where
  start := complete.start
  targets source symbol target leads := by
    obtain ⟨state, owned, targets, listed, member⟩ := Machine.exists_targets_of_leads leads
    exact complete.targets state owned targets listed target member
  named name state found := by
    change ((store.automata.get automaton).owned.map store.states.get).find? name = _ at found
    rw [Table.find?_map, Option.map_eq_some_iff] at found
    obtain ⟨ref, owned, rfl⟩ := found
    exact (orderly automaton).named _ (Table.find?_eq_some_iff.mp owned)

theorem perform_accepts {store : Store} {automaton : AutomatonRef} {word : List Char}
    {answer : Bool} (answered : (store.machine automaton).accepts word = .ok answer) :
    store.perform (.accepts automaton word) = (.ok (.truth answer), store) := by
  have ran : (Action.perform (.accepts automaton word)).run store =
      (Action.ofResult ((store.machine automaton).accepts word) >>= fun answer =>
        return .truth answer : Action Outcome).run store :=
    rfl
  rw [perform, ran, answered]
  rfl

/-- **Acceptance is decided by trails.** An automaton that a run of commands has built, with start
and targets owned, answers for every word and nothing is changed by asking. The answer is whether
a trail to an accepting state spells the word, in whatever order sets are gone through. -/
theorem accepts_iff_trail (commands : List Command) (admitted : Admits {} commands)
    (automaton : AutomatonRef) (complete : ((run {} commands).machine automaton).Complete)
    (word : List Char) :
    let store := run {} commands
    let machine := store.machine automaton
    ∃ answer, store.perform (.accepts automaton word) = (.ok (.truth answer), store) ∧
      (answer = true ↔ ∃ labels, machine.Accepting word labels) ∧
      ∀ schedule, machine.acceptsUnder schedule word = .ok answer := by
  intro store machine
  have whole : machine.Whole := (orderly_run orderly_empty admitted).whole complete
  obtain ⟨answer, answered, decides⟩ := whole.accepts_eq word
  refine ⟨answer, perform_accepts answered, ?_, fun schedule => ?_⟩
  · rw [decides, Machine.recognises_iff_accepting]
  · rw [whole.acceptsUnder_eq schedule word, answered]

/-- Two states lead to each other silently; a letter is read between. -/
theorem accepts_iff_trail_circle :
    let commands : List Command :=
      [.newAutomaton none [], .addStart ⟨0⟩ (.text "p"), .addAccepting ⟨0⟩ (.text "q"),
        .connect (.text "") ⟨0⟩ ⟨1⟩, .connect (.text "") ⟨1⟩ ⟨0⟩, .connect (.text "a") ⟨0⟩ ⟨0⟩]
    let store := run {} commands
    Admits {} commands ∧ (store.machine ⟨0⟩).Complete ∧
      (store.machine ⟨0⟩).Accepting ['a'] ["a", ""] ∧
      store.perform (.accepts ⟨0⟩ ['a']) = (.ok (.truth true), store) ∧
      (store.machine ⟨0⟩).acceptsUnder .backAndForth ['a'] = .ok true := by
  intro commands store
  have admitted : Admits {} commands := by decide
  have complete : (store.machine ⟨0⟩).Complete := by decide
  have around : (store.machine ⟨0⟩).Leads "p" "a" "p" := ⟨_, rfl, by decide⟩
  have across : (store.machine ⟨0⟩).Leads "p" "" "q" := ⟨_, rfl, by decide⟩
  have accepting : (store.machine ⟨0⟩).Accepting ['a'] ["a", ""] :=
    ⟨⟨"p", "q", _, rfl, .move around (.move across (.here _)), rfl, by decide⟩, by decide⟩
  obtain ⟨answer, performed, decides, same⟩ :=
    accepts_iff_trail commands admitted ⟨0⟩ complete ['a']
  rw [decides.mpr ⟨_, accepting⟩] at performed same
  exact ⟨admitted, complete, accepting, performed, same _⟩

end Store

end PatternAutomata
