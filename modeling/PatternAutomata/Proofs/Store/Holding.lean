import PatternAutomata.Proofs.Pattern.Wiring
import PatternAutomata.Proofs.Store.Loops

/-! # Fragments in a store

An automaton of a store bears a fragment when the states that it owns have the
fragment's as their values (`Store.Bears`), and holds it when what it has entered as
accepting goes with that, in the same order (`Store.Holds`) or in another one
(`Store.Marks`). An automaton that holds a fragment has the machine of the fragment as
its value (`Store.Holds.machine_eq`). Other automata may own the same states; that does not show
in the value, and what is kept is held on (`Store.Holds.kept`).
-/

namespace PatternAutomata.Store

/-- An automaton owns some states, each under its own name, and their values are the
states of a fragment. -/
structure Bears (store : Store) (automaton : AutomatonRef) (refs : List StateRef)
    (fragment : Fragment) : Prop where
  held : automaton ∈ store.automata
  refsHeld : ∀ ref ∈ refs, ref ∈ store.states
  states : refs.map store.states.get = fragment.states
  start : (store.automata.get automaton).start = some fragment.start
  owned : (store.automata.get automaton).owned.entries = store.states.entries refs

namespace Bears

variable {store later : Store} {automaton other : AutomatonRef} {refs others : List StateRef}
  {fragment second : Fragment}

theorem names (bears : store.Bears automaton refs fragment) :
    refs.map (fun ref => (store.states.get ref).name) = fragment.names := by
  rw [Fragment.names, ← bears.states, List.map_map]
  rfl

theorem ownedValues (bears : store.Bears automaton refs fragment) :
    (store.automata.get automaton).owned.values = refs := by
  rw [Table.values, bears.owned, Heap.entries, List.map_map]
  exact List.map_id refs

theorem ownedKeys (bears : store.Bears automaton refs fragment) :
    (store.automata.get automaton).owned.keys = fragment.names := by
  rw [← bears.names, Table.keys, bears.owned, Heap.entries, List.map_map]
  rfl

/-- The names of an automaton's states are distinct, since they are the keys of a table. -/
theorem nodup_names (bears : store.Bears automaton refs fragment) : fragment.names.Nodup :=
  bears.ownedKeys ▸ (store.automata.get automaton).owned.nodup_keys

theorem flaggedNames (bears : store.Bears automaton refs fragment) :
    (store.states.flagged refs).map (fun ref => (store.states.get ref).name) =
      fragment.accepting := by
  rw [Fragment.accepting, ← bears.states, List.filter_map, List.map_map]
  rfl

/-- The entries of the states that accept, in the order in which they are owned. -/
theorem entries_flagged (bears : store.Bears automaton refs fragment) :
    store.states.entries (store.states.flagged refs) =
      (store.automata.get automaton).owned.entries.filter fun entry =>
        (store.states.get entry.2).accepting := by
  rw [bears.owned, Heap.entries, Heap.entries, List.filter_map]
  rfl

theorem distinct (bears : store.Bears automaton refs fragment) : refs.Nodup := by
  have names := bears.nodup_names
  rw [← bears.names] at names
  exact names.of_map _

/-- The states of an automaton that bears a fragment are those of its machine. -/
theorem states_machine (bears : store.Bears automaton refs fragment)
    (names : fragment.names.Nodup) (alphabet : StringSet) :
    (store.machine automaton).states = (fragment.machine alphabet).states := by
  apply Table.ext
  rw [Fragment.entries_machine names, ← bears.states, List.map_map]
  change (store.automata.get automaton).owned.entries.map _ = _
  rw [bears.owned, Heap.entries, List.map_map]
  rfl

/-- The value of an automaton that bears a fragment has its start and its states. -/
theorem presents (bears : store.Bears automaton refs fragment) :
    (store.machine automaton).Presents fragment where
  start := bears.start
  find?_iff name state := by
    change ((store.automata.get automaton).owned.map store.states.get).find? name = _ ↔ _
    rw [Table.find?_map, Option.map_eq_some_iff, ← bears.states]
    simp only [Table.find?_eq_some_iff, bears.owned]
    constructor
    · rintro ⟨ref, member, rfl⟩
      obtain ⟨_, inside, same⟩ := List.mem_map.mp member
      cases same
      exact ⟨List.mem_map_of_mem inside, rfl⟩
    · rintro ⟨member, rfl⟩
      obtain ⟨ref, inside, rfl⟩ := List.mem_map.mp member
      exact ⟨ref, List.mem_map_of_mem inside, rfl⟩

/-- A fragment is borne on where the automaton and its states stay as they are. -/
theorem congr (bears : store.Bears automaton refs fragment)
    (automatonKept : automaton ∈ later.automata ∧
      later.automata.get automaton = store.automata.get automaton)
    (refsKept : ∀ ref ∈ refs, ref ∈ later.states ∧
      later.states.get ref = store.states.get ref) :
    later.Bears automaton refs fragment := by
  obtain ⟨held, content⟩ := automatonKept
  have same : ∀ ref ∈ refs, later.states.get ref = store.states.get ref := fun ref member =>
    (refsKept ref member).2
  have entries : later.states.entries refs = store.states.entries refs :=
    Heap.entries_congr fun ref member => by rw [same ref member]
  refine ⟨held, fun ref member => (refsKept ref member).1, ?_, ?_, ?_⟩
  · rw [← bears.states]
    exact List.map_congr_left same
  · rw [content]
    exact bears.start
  · rw [content, entries]
    exact bears.owned

theorem kept (bears : store.Bears automaton refs fragment) (kept : store.KeptIn later) :
    later.Bears automaton refs fragment :=
  bears.congr (kept.automata automaton bears.held) fun ref member =>
    kept.states ref (bears.refsHeld ref member)

theorem changesOnly (bears : store.Bears automaton refs fragment)
    {changed : List StateRef} {automata : List AutomatonRef}
    (changes : store.ChangesOnly later changed automata) (apart : automaton ∉ automata)
    (refsApart : ∀ ref ∈ refs, ref ∉ changed) : later.Bears automaton refs fragment := by
  apply bears.congr
  · obtain ⟨held, same⟩ := changes.automata automaton bears.held
    exact ⟨held, same apart⟩
  · intro ref member
    obtain ⟨held, same⟩ := changes.states ref (bears.refsHeld ref member)
    exact ⟨held, same (refsApart ref member)⟩

/-- Where states change but for their names, the fragment changes with them. -/
theorem changeStates (bears : store.Bears automaton refs fragment)
    {states : Heap State} (refsHeld : ∀ ref ∈ refs, ref ∈ states)
    (named : ∀ ref ∈ refs, (states.get ref).name = (store.states.get ref).name)
    (values : refs.map states.get = second.states) (start : second.start = fragment.start) :
    ({ store with states } : Store).Bears automaton refs second where
  held := bears.held
  refsHeld := refsHeld
  states := values
  start := start ▸ bears.start
  owned := bears.owned.trans (Heap.entries_congr named).symm

/-- The start of a fragment is found among the states. -/
theorem run_startOf (bears : store.Bears automaton refs fragment)
    (started : fragment.start ∈ fragment.names) :
    ∃ entry ∈ refs, (store.states.get entry).name = fragment.start ∧
      (Action.startOf automaton).run store = .ok entry store := by
  rw [← bears.names] at started
  obtain ⟨entry, member, named⟩ := List.mem_map.mp started
  have found : (store.automata.get automaton).owned.find? fragment.start = some entry := by
    rw [Table.find?_eq_some_iff, bears.owned, ← named]
    exact List.mem_map_of_mem member
  refine ⟨entry, member, named, ?_⟩
  rw [Action.run_startOf, bears.start]
  change (Action.stateNamed automaton fragment.start).run store = _
  rw [Action.run_stateNamed, found]

/-- Fragments without a common name are borne with no common state. -/
theorem disjoint (bears : store.Bears automaton refs fragment)
    (bearsOther : store.Bears other others second)
    (apart : fragment.names.Disjoint second.names) : refs.Disjoint others := by
  intro ref inRefs inOthers
  have name : (store.states.get ref).name ∈ fragment.names :=
    bears.names ▸ List.mem_map_of_mem inRefs
  have otherName : (store.states.get ref).name ∈ second.names :=
    bearsOther.names ▸ List.mem_map_of_mem inOthers
  exact apart name otherName

/-- The states of an automaton are told apart by their names. -/
theorem name_eq_iff (bears : store.Bears automaton refs fragment) {ref ref' : StateRef}
    (member : ref ∈ refs) (member' : ref' ∈ refs) :
    (store.states.get ref).name = (store.states.get ref').name ↔ ref = ref' := by
  have distinct := bears.nodup_names
  rw [← bears.names] at distinct
  constructor
  · intro same
    exact List.inj_on_of_nodup_map distinct member member' same
  · intro same
    rw [same]

theorem ne (bears : store.Bears automaton refs fragment)
    (bearsOther : store.Bears other others second)
    (started : fragment.start ∈ fragment.names)
    (apart : fragment.names.Disjoint second.names) : automaton ≠ other := by
  rintro rfl
  have same : fragment.names = second.names := bears.ownedKeys.symm.trans bearsOther.ownedKeys
  exact apart started (same ▸ started)

end Bears

/-- An automaton has entered as accepting, in whatever order, those of some states that say
so of themselves. -/
def Marks (store : Store) (automaton : AutomatonRef) (refs : List StateRef) : Prop :=
  (store.automata.get automaton).accepting.entries.Perm
    (store.states.entries (store.states.flagged refs))

section Marks

variable {store : Store} {automaton : AutomatonRef} {refs : List StateRef} {fragment : Fragment}

theorem Marks.values (marks : store.Marks automaton refs) :
    (store.automata.get automaton).accepting.values.Perm (store.states.flagged refs) := by
  have same := marks.map Prod.snd
  rw [Heap.entries, List.map_map] at same
  exact same.trans (.of_eq (List.map_id _))

/-- Accepting entries are made under the names of their states. -/
theorem Marks.named (marks : store.Marks automaton refs) {entry : String × StateRef}
    (member : entry ∈ (store.automata.get automaton).accepting.entries) :
    (store.states.get entry.2).name = entry.1 := by
  obtain ⟨ref, _, rfl⟩ := List.mem_map.mp (marks.mem_iff.mp member)
  rfl

theorem Bears.markedNames (bears : store.Bears automaton refs fragment)
    (marks : store.Marks automaton refs) :
    ((store.automata.get automaton).accepting.values.map
      fun ref => (store.states.get ref).name).Perm fragment.accepting :=
  (marks.values.map _).trans (.of_eq bears.flaggedNames)

end Marks

/-- An automaton bears a fragment and has entered those of its states as accepting that
say so of themselves, in the order in which it owns them. -/
structure Holds (store : Store) (automaton : AutomatonRef) (refs : List StateRef)
    (fragment : Fragment) (alphabet : StringSet) : Prop
    extends Bears store automaton refs fragment where
  accepting : (store.automata.get automaton).accepting.entries =
    store.states.entries (store.states.flagged refs)
  alphabet : (store.automata.get automaton).alphabet = alphabet

namespace Holds

variable {store later : Store} {automaton : AutomatonRef} {refs : List StateRef}
  {fragment second : Fragment} {alphabet : StringSet}

theorem marks (holds : store.Holds automaton refs fragment alphabet) :
    store.Marks automaton refs :=
  .of_eq holds.accepting

theorem acceptingKeys (holds : store.Holds automaton refs fragment alphabet) :
    (store.automata.get automaton).accepting.keys = fragment.accepting := by
  rw [← holds.flaggedNames, Table.keys, holds.accepting, Heap.entries, List.map_map]
  rfl

/-- The value of an automaton that holds a fragment is the machine of the fragment. -/
theorem machine_eq (holds : store.Holds automaton refs fragment alphabet)
    (names : fragment.names.Nodup) :
    store.machine automaton = fragment.machine alphabet := by
  apply Machine.ext
  · exact holds.start
  · exact holds.states_machine names alphabet
  · exact holds.acceptingKeys
  · exact holds.alphabet

/-- A fragment is held on where the automaton and its states stay as they are. -/
theorem congr (holds : store.Holds automaton refs fragment alphabet)
    (automatonKept : automaton ∈ later.automata ∧
      later.automata.get automaton = store.automata.get automaton)
    (refsKept : ∀ ref ∈ refs, ref ∈ later.states ∧
      later.states.get ref = store.states.get ref) :
    later.Holds automaton refs fragment alphabet := by
  refine ⟨holds.toBears.congr automatonKept refsKept, ?_, ?_⟩
  · rw [automatonKept.2, Heap.entries_flagged_congr fun ref member => (refsKept ref member).2]
    exact holds.accepting
  · rw [automatonKept.2]
    exact holds.alphabet

theorem kept (holds : store.Holds automaton refs fragment alphabet) (kept : store.KeptIn later) :
    later.Holds automaton refs fragment alphabet :=
  holds.congr (kept.automata automaton holds.held) fun ref member =>
    kept.states ref (holds.refsHeld ref member)

theorem changeCompiler (holds : store.Holds automaton refs fragment alphabet)
    (compiler : CompilerRef) (update : Compiler → Compiler) :
    (store.changeCompiler compiler update).Holds automaton refs fragment alphabet :=
  ⟨⟨holds.held, holds.refsHeld, holds.states, holds.start, holds.owned⟩, holds.accepting,
    holds.alphabet⟩

/-- Where states change but for their flags, whatever fragment is borne then is held. -/
theorem ofBears (holds : store.Holds automaton refs fragment alphabet) {states : Heap State}
    (bears : ({ store with states } : Store).Bears automaton refs second)
    (flagged : ∀ ref ∈ refs, (states.get ref).accepting = (store.states.get ref).accepting) :
    ({ store with states } : Store).Holds automaton refs second alphabet where
  toBears := bears
  accepting := by
    have entries : states.entries refs = store.states.entries refs :=
      bears.owned.symm.trans holds.owned
    have same : states.flagged refs = store.states.flagged refs := Heap.flagged_congr flagged
    rw [same, Heap.entries_congr]
    · exact holds.accepting
    · intro ref member
      have entry := List.map_inj_left.mp entries ref (store.states.flagged_subset refs member)
      exact congrArg Prod.fst entry
  alphabet := holds.alphabet

/-- Where states change but for their names and flags, the fragment changes with them. -/
theorem changeStates (holds : store.Holds automaton refs fragment alphabet)
    {states : Heap State} (refsHeld : ∀ ref ∈ refs, ref ∈ states)
    (named : ∀ ref ∈ refs, (states.get ref).name = (store.states.get ref).name)
    (flagged : ∀ ref ∈ refs, (states.get ref).accepting = (store.states.get ref).accepting)
    (values : refs.map states.get = second.states) (start : second.start = fragment.start) :
    ({ store with states } : Store).Holds automaton refs second alphabet :=
  holds.ofBears (holds.toBears.changeStates refsHeld named values start) flagged

end Holds

end PatternAutomata.Store
