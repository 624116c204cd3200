import PatternAutomata.Proofs.Recognition
import PatternAutomata.Proofs.Simulation

/-! # Operands

The forms of pattern can be applied to any automata of a store, not only to those that were built
from patterns. What they need of an automaton is that its tables are in step and that it owns its
start and all targets (`Store.Usable`). Two of them also go by what is entered as accepting, which
then has to be what the states say of themselves (`Store.Coherent`).

Such an automaton bears a fragment (`Store.Usable.exists_fragment`), whatever its transitions, and
the words that it accepts are those that lead through the fragment (`Store.Bears.decides`).
-/

namespace PatternAutomata

namespace Machine

variable {machine : Machine} {fragment : Fragment}

/-- The words that a machine accepts. -/
def language (machine : Machine) : Language Char :=
  {word | machine.accepts word = .ok true}

theorem Presents.sound (presents : machine.Presents fragment) (distinct : fragment.names.Nodup)
    (complete : machine.Complete) : fragment.Sound where
  distinct := distinct
  start := by
    obtain ⟨name, owned, started⟩ := complete.start
    obtain rfl := Option.some.inj (presents.start.symm.trans started)
    exact presents.mem_keys_iff.mp owned
  within source symbol target move := by
    rw [← presents.leads] at move
    obtain ⟨state, owned, targets, listed, member⟩ := exists_targets_of_leads move
    have toOwned := complete.targets state owned targets listed target member
    obtain ⟨leaving, found, _⟩ := move
    have fromOwned := Table.mem_keys_of_find? found
    exact ⟨presents.mem_keys_iff.mp fromOwned, presents.mem_keys_iff.mp toOwned⟩

/-- A machine that presents a sound fragment answers for every word, and accepts what leads
through the fragment. -/
theorem Presents.accepts_eq (presents : machine.Presents fragment) (sound : fragment.Sound)
    (word : List Char) :
    ∃ answer, machine.accepts word = .ok answer ∧
      (answer = true ↔ word ∈ fragment.passages.through) := by
  obtain ⟨answer, answered, decides⟩ := (presents.whole sound).accepts_eq word
  exact ⟨answer, answered, decides.trans presents.recognises_iff⟩

theorem Presents.language_eq (presents : machine.Presents fragment) (sound : fragment.Sound) :
    machine.language = fragment.passages.through := by
  ext word
  obtain ⟨answer, answered, decides⟩ := presents.accepts_eq sound word
  have accepted : word ∈ machine.language ↔ machine.accepts word = .ok true := Iff.rfl
  rw [accepted, answered, ← decides, Except.ok.injEq]

end Machine

namespace Store

variable {store : Store} {automaton : AutomatonRef} {refs : List StateRef} {fragment : Fragment}

/-- An automaton answers for every word, by whether it belongs to a language, and asking changes
nothing. -/
def Decides (store : Store) (automaton : AutomatonRef) (language : Language Char) : Prop :=
  ∀ word, ∃ answer, store.perform (.accepts automaton word) = (.ok (.truth answer), store) ∧
    (answer = true ↔ word ∈ language)

/-- What an automaton that bears a sound fragment accepts are the words that lead through it. -/
theorem Bears.decides (bears : store.Bears automaton refs fragment) (sound : fragment.Sound) :
    store.Decides automaton fragment.passages.through := by
  intro word
  obtain ⟨answer, answered, decides⟩ := bears.presents.accepts_eq sound word
  exact ⟨answer, perform_accepts answered, decides⟩

/-- The tables of an automaton are in step, as every run of commands leaves them (`usable_run`), and
it owns its start and all targets. -/
structure Usable (store : Store) (automaton : AutomatonRef) : Prop where
  orderly : (store.automata.get automaton).Orderly store.states
  complete : (store.machine automaton).Complete

/-- Moreover the accepting entries of the automaton are exactly its owned states that say of
themselves that they accept. -/
structure Coherent (store : Store) (automaton : AutomatonRef) : Prop
    extends Usable store automaton where
  accepting : ∀ entry, entry ∈ (store.automata.get automaton).accepting.entries ↔
    entry ∈ (store.automata.get automaton).owned.entries ∧
      (store.states.get entry.2).accepting = true

/-- Whatever a run of commands has built is usable if it owns its start and all targets. -/
theorem usable_run {commands : List Command} (admitted : Admits {} commands)
    (complete : ((run {} commands).machine automaton).Complete) :
    (run {} commands).Usable automaton :=
  ⟨orderly_run orderly_empty admitted automaton, complete⟩

/-- A usable automaton is coherent if it has entered the states that accept in the order in which
it owns them. -/
theorem Usable.coherent (usable : store.Usable automaton)
    (entered : (store.automata.get automaton).accepting.entries =
      (store.automata.get automaton).owned.entries.filter fun entry =>
        (store.states.get entry.2).accepting) :
    store.Coherent automaton where
  toUsable := usable
  accepting entry := by rw [entered, List.mem_filter]

/-- The states that a usable automaton owns make a sound fragment. -/
theorem Usable.exists_fragment (usable : store.Usable automaton) :
    ∃ fragment, store.Bears automaton (store.automata.get automaton).owned.values fragment ∧
      fragment.Sound := by
  obtain ⟨start, _, started⟩ := usable.complete.start
  have held : automaton ∈ store.automata := by
    by_contra absent
    have unset : (store.automata.get automaton).start = none := by
      rw [Heap.get_of_not_mem absent]
      rfl
    cases unset.symm.trans started
  have owned : (store.automata.get automaton).owned.entries =
      store.states.entries (store.automata.get automaton).owned.values := by
    rw [Heap.entries, Table.values, List.map_map, List.map_congr_left, List.map_id]
    intro entry member
    exact Prod.ext (usable.orderly.named entry member) rfl
  have bears : store.Bears automaton (store.automata.get automaton).owned.values
      { start, states := (store.automata.get automaton).owned.values.map store.states.get } := by
    refine ⟨held, fun ref member => ?_, rfl, started, owned⟩
    obtain ⟨entry, inside, rfl⟩ := List.mem_map.mp member
    exact usable.orderly.held entry inside
  exact ⟨_, bears, bears.presents.sound bears.nodup_names usable.complete⟩

/-- A usable automaton accepts what leads from its start to an accepting state. -/
theorem Usable.language_eq (usable : store.Usable automaton) {start : String}
    (started : (store.machine automaton).start = some start) :
    (store.machine automaton).language = ((store.machine automaton).passages start).through := by
  obtain ⟨fragment, bears, sound⟩ := usable.exists_fragment
  obtain rfl := Option.some.inj (bears.presents.start.symm.trans started)
  rw [bears.presents.language_eq sound, bears.presents.passages]

/-- A coherent automaton has entered the states that accept, in some order. -/
theorem Coherent.marks (coherent : store.Coherent automaton)
    (bears : store.Bears automaton refs fragment) : store.Marks automaton refs := by
  have entered : (store.automata.get automaton).accepting.entries.Nodup :=
    (store.automata.get automaton).accepting.nodup_keys.of_map _
  have owned : (store.automata.get automaton).owned.entries.Nodup :=
    (store.automata.get automaton).owned.nodup_keys.of_map _
  rw [Marks, bears.entries_flagged, List.perm_ext_iff_of_nodup entered (owned.filter _)]
  intro entry
  rw [coherent.accepting, List.mem_filter]

/-- Where the values of two automata have no common name, neither have their fragments. -/
theorem Bears.disjoint_names {first second : AutomatonRef} {firstRefs secondRefs : List StateRef}
    {left right : Fragment} (bearsFirst : store.Bears first firstRefs left)
    (bearsSecond : store.Bears second secondRefs right)
    (apart : ∀ name ∈ (store.machine first).states.keys,
      name ∉ (store.machine second).states.keys) :
    left.names.Disjoint right.names := by
  intro name inLeft inRight
  have ownedFirst := bearsFirst.presents.mem_keys_iff.mpr inLeft
  have ownedSecond := bearsSecond.presents.mem_keys_iff.mpr inRight
  exact apart name ownedFirst ownedSecond

end Store

end PatternAutomata
