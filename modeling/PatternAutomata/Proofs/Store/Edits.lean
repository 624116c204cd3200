import Mathlib.Logic.Relation
import PatternAutomata.Proofs.Store.Keeping
import PatternAutomata.Store.Ownership

/-! # Elementary changes

Whatever an action does to a store comes down to a few elementary changes of one state or one
automaton (`Store.Edit`). None of them renames a state or takes an owned state away
(`Store.Edit.grows`), and each keeps the tables of all automata in step
(`Store.Edit.orderly`), however the automata share their states. So does every sequence of them
(`Store.Edits`).
-/

namespace PatternAutomata

/-- A change of a state: it gets a transition or loses its flag. -/
inductive State.Edit (state : State) : State → Prop
  | connect (symbol target : String) (proper : IsSymbol symbol) :
      Edit state (state.connect symbol target)
  | clear : Edit state state.clear

theorem State.Edit.name_eq {state after : State} (edit : state.Edit after) :
    after.name = state.name := by
  cases edit with
  | connect symbol target proper => exact state.name_connect symbol target
  | clear => exact state.name_clear

namespace Automaton

/-- A change of an automaton over shared states. -/
inductive Edit (states : Heap State) (automaton : Automaton) : Automaton → Prop
  | enter (ref : StateRef) (held : ref ∈ states)
      (free : automaton.clashes ref (states.get ref).name = false) :
      Edit states automaton (automaton.enter ref (states.get ref))
  | start (name : String) (owned : name ∈ automaton.owned.keys) :
      Edit states automaton { automaton with start := some name }
  | withdraw (name : String) : Edit states automaton (automaton.withdraw name)
  | learn (symbol : String) (proper : IsSymbol symbol) (loud : symbol ≠ epsilon) :
      Edit states automaton (automaton.learn symbol)

/-- An automaton whose tables are in step: an owned state is kept under its own name, and an
accepting entry is an entry of the owned states. -/
structure Orderly (states : Heap State) (automaton : Automaton) : Prop where
  held : ∀ entry ∈ automaton.owned.entries, entry.2 ∈ states
  named : ∀ entry ∈ automaton.owned.entries, (states.get entry.2).name = entry.1
  accepted : automaton.accepting.entries ⊆ automaton.owned.entries

/-- An automaton whose start is unset or owned. -/
def Settled (automaton : Automaton) : Prop :=
  ∀ name, automaton.start = some name → name ∈ automaton.owned.keys

section Entering

variable {automaton : Automaton} {ref : StateRef} {state : State}

theorem find?_of_free (free : automaton.clashes ref state.name = false) {owner : StateRef}
    (found : automaton.owned.find? state.name = some owner) : owner = ref := by
  simpa [clashes, found] using free

/-- Entering a state that does not clash adds it at the end, or finds it owned already. -/
theorem entries_enter (free : automaton.clashes ref state.name = false) :
    (automaton.enter ref state).owned.entries = automaton.owned.entries ∨
      (automaton.enter ref state).owned.entries =
        automaton.owned.entries ++ [(state.name, ref)] := by
  cases found : automaton.owned.find? state.name with
  | none => exact Or.inr (Table.entries_insert_of_not_mem (Table.find?_eq_none_iff.mp found))
  | some owner =>
      rw [find?_of_free free found] at found
      exact Or.inl (congrArg _ (Table.insert_of_find? found))

theorem mem_accepting_enter {entry : String × StateRef}
    (member : entry ∈ (automaton.enter ref state).accepting.entries) :
    entry = (state.name, ref) ∨ entry ∈ automaton.accepting.entries := by
  unfold enter at member
  split at member
  · exact Table.mem_entries_insert member
  · exact Or.inr member

theorem mem_owned_enter (automaton : Automaton) (ref : StateRef) (state : State) :
    (state.name, ref) ∈ (automaton.enter ref state).owned.entries := by
  rw [← Table.find?_eq_some_iff, enter, Table.find?_insert, if_pos rfl]

end Entering

variable {states : Heap State} {automaton after : Automaton}

/-- A new state is entered as soon as it is held. -/
theorem Edit.enterNew (state : State)
    (free : automaton.clashes states.fresh state.name = false) :
    automaton.Edit (states.add state) (automaton.enter states.fresh state) := by
  have content : (states.add state).get states.fresh = state := states.get_add_fresh state
  have held : states.fresh ∈ states.add state := Heap.mem_add.mpr (Or.inr rfl)
  have entered : automaton.Edit (states.add state)
      (automaton.enter states.fresh ((states.add state).get states.fresh)) :=
    .enter states.fresh held (content.symm ▸ free)
  rwa [content] at entered

/-- No change takes an owned state away, moves it, or puts another one in its place. -/
theorem Edit.keeps_owned (edit : automaton.Edit states after) :
    automaton.owned.entries <+: after.owned.entries := by
  cases edit with
  | enter ref held free =>
      rcases entries_enter free with same | added
      · exact same ▸ List.prefix_rfl
      · exact added ▸ List.prefix_append _ _
  | start name owned => exact List.prefix_rfl
  | withdraw name => exact List.prefix_rfl
  | learn symbol proper loud => exact List.prefix_rfl

/-- No change makes an automaton own a state that is not there. -/
theorem Edit.held (edit : automaton.Edit states after)
    (held : ∀ entry ∈ automaton.owned.entries, entry.2 ∈ states) :
    ∀ entry ∈ after.owned.entries, entry.2 ∈ states := by
  cases edit with
  | enter ref there free =>
      intro entry member
      rcases Table.mem_entries_insert member with rfl | before
      · exact there
      · exact held entry before
  | start name owned => exact held
  | withdraw name => exact held
  | learn symbol proper loud => exact held

theorem Edit.orderly (edit : automaton.Edit states after) (orderly : automaton.Orderly states) :
    after.Orderly states := by
  have held := edit.held orderly.held
  cases edit with
  | enter ref there free =>
      refine ⟨held, fun entry member => ?_, fun entry member => ?_⟩
      · rcases Table.mem_entries_insert member with rfl | before
        · rfl
        · exact orderly.named entry before
      · rcases mem_accepting_enter member with rfl | before
        · exact mem_owned_enter automaton ref _
        · exact (Edit.enter ref there free).keeps_owned.subset (orderly.accepted before)
  | start name owned => exact ⟨held, orderly.named, orderly.accepted⟩
  | withdraw name =>
      refine ⟨held, orderly.named, fun entry member => ?_⟩
      exact orderly.accepted (List.mem_filter.mp member).1
  | learn symbol proper loud => exact ⟨held, orderly.named, orderly.accepted⟩

theorem Edit.settled (edit : automaton.Edit states after) (settled : automaton.Settled) :
    after.Settled := by
  have kept {name} (owned : name ∈ automaton.owned.keys) : name ∈ after.owned.keys :=
    (edit.keeps_owned.map Prod.fst).subset owned
  cases edit with
  | enter ref held free => exact fun name same => kept (settled name same)
  | start name owned =>
      intro other same
      cases same
      exact kept owned
  | withdraw name => exact settled
  | learn symbol proper loud => exact settled

end Automaton

namespace Store

/-- An elementary change of a store. Of what counters and compilers hold it is of account only
that no compiler comes to note anything but characters. -/
inductive Edit (store : Store) : Store → Prop
  | newState (name : String) (accepting : Bool) :
      Edit store { store with states := store.states.add { name, accepting } }
  | newAutomaton : Edit store { store with automata := store.automata.add {} }
  | state (ref : StateRef) (update : State → State)
      (edit : (store.states.get ref).Edit (update (store.states.get ref))) :
      Edit store (store.changeState ref update)
  | automaton (ref : AutomatonRef) (update : Automaton → Automaton)
      (edit : ref ∈ store.automata →
        (store.automata.get ref).Edit store.states (update (store.automata.get ref))) :
      Edit store (store.changeAutomaton ref update)
  | aside (counters : Heap Counter) (compilers : Heap Compiler)
      (noted : ∀ ref, ∀ symbol ∈ (compilers.get ref).literals,
        symbol ∈ (store.compilers.get ref).literals ∨ symbol.length = 1) :
      Edit store { store with counters, compilers }

/-- A sequence of elementary changes. -/
def Edits : Store → Store → Prop :=
  Relation.ReflTransGen Edit

/-- What a store holds is still there later: states under the same names, and automata with
all that they owned, in the same order. -/
structure Grows (before after : Store) : Prop where
  states : ∀ ref ∈ before.states,
    ref ∈ after.states ∧ (after.states.get ref).name = (before.states.get ref).name
  automata : ∀ ref ∈ before.automata, ref ∈ after.automata
  owned : ∀ ref,
    (before.automata.get ref).owned.entries <+: (after.automata.get ref).owned.entries

/-- A store whose automata own only states that are there. -/
def Closed (store : Store) : Prop :=
  ∀ ref, ∀ entry ∈ (store.automata.get ref).owned.entries, entry.2 ∈ store.states

/-- A store in which the tables of every automaton are in step. -/
def Orderly (store : Store) : Prop :=
  ∀ ref, (store.automata.get ref).Orderly store.states

theorem Orderly.closed {store : Store} (orderly : store.Orderly) : store.Closed :=
  fun ref => (orderly ref).held

namespace Grows

variable {before middle after : Store}

theorem refl (store : Store) : store.Grows store :=
  ⟨fun _ held => ⟨held, rfl⟩, fun _ held => held, fun _ => List.prefix_rfl⟩

theorem trans (first : before.Grows middle) (second : middle.Grows after) :
    before.Grows after where
  states ref held := by
    obtain ⟨heldThen, sameThen⟩ := first.states ref held
    obtain ⟨heldAfter, sameAfter⟩ := second.states ref heldThen
    exact ⟨heldAfter, sameAfter.trans sameThen⟩
  automata ref held := second.automata ref (first.automata ref held)
  owned ref := (first.owned ref).trans (second.owned ref)

/-- Adding a state that no automaton owns. -/
theorem addState (store : Store) (state : State) :
    store.Grows { store with states := store.states.add state } where
  states _ held := ⟨Heap.mem_add.mpr (Or.inl held), congrArg State.name (Heap.get_add_of_mem held)⟩
  automata _ held := held
  owned _ := List.prefix_rfl

/-- The tables of an automaton stay in step as states are added and changed. -/
theorem orderly_automaton (grows : before.Grows after) {automaton : Automaton}
    (orderly : automaton.Orderly before.states) : automaton.Orderly after.states where
  held entry member := (grows.states _ (orderly.held entry member)).1
  named entry member :=
    (grows.states _ (orderly.held entry member)).2.trans (orderly.named entry member)
  accepted := orderly.accepted

end Grows

section Editing

variable {before after : Store}

/-- What a state was becomes what it is by at most one change, unless it is new. -/
theorem Edit.state_cases (edit : before.Edit after) (ref : StateRef) :
    after.states.get ref = before.states.get ref ∨
      (before.states.get ref).Edit (after.states.get ref) ∨
      ref ∉ before.states ∧ ∃ name accepting, after.states.get ref = { name, accepting } := by
  cases edit with
  | newState name accepting =>
      by_cases new : ref = before.states.fresh
      · subst new
        exact Or.inr (Or.inr ⟨before.states.fresh_not_mem, name, accepting,
          before.states.get_add_fresh _⟩)
      · exact Or.inl (Heap.get_add_of_ne new)
  | newAutomaton => exact Or.inl rfl
  | state other update edit =>
      rcases Heap.get_change_eq_or before.states other ref update with same | ⟨rfl, _, new⟩
      · exact Or.inl same
      · refine Or.inr (Or.inl ?_)
        rw [Store.changeState, new]
        exact edit
  | automaton other update edit => exact Or.inl rfl
  | aside counters compilers noted => exact Or.inl rfl

/-- What an automaton was becomes what it is by at most one change. -/
theorem Edit.automaton_eq_or (edit : before.Edit after) (ref : AutomatonRef) :
    after.automata.get ref = before.automata.get ref ∨
      (before.automata.get ref).Edit before.states (after.automata.get ref) ∧
        after.states = before.states := by
  cases edit with
  | newState name accepting => exact Or.inl rfl
  | newAutomaton => exact Or.inl (Heap.get_add_default before.automata ref)
  | state other update edit => exact Or.inl rfl
  | automaton other update edit =>
      rcases Heap.get_change_eq_or before.automata other ref update with same | ⟨rfl, held, new⟩
      · exact Or.inl same
      · refine Or.inr ⟨?_, rfl⟩
        rw [automata_changeAutomaton, new]
        exact edit held
  | aside counters compilers noted => exact Or.inl rfl

theorem Edit.grows (edit : before.Edit after) : before.Grows after where
  states ref held := by
    cases edit with
    | newState name accepting => exact (Grows.addState before _).states ref held
    | newAutomaton => exact ⟨held, rfl⟩
    | state other update edit =>
        refine ⟨Heap.mem_change.mpr held, ?_⟩
        rcases Heap.get_change_eq_or before.states other ref update with same | ⟨rfl, _, new⟩
        · exact congrArg State.name same
        · exact (congrArg State.name new).trans edit.name_eq
    | automaton other update edit => exact ⟨held, rfl⟩
    | aside counters compilers noted => exact ⟨held, rfl⟩
  automata ref held := by
    cases edit with
    | newState name accepting => exact held
    | newAutomaton => exact Heap.mem_add.mpr (Or.inl held)
    | state other update edit => exact held
    | automaton other update edit => exact Heap.mem_change.mpr held
    | aside counters compilers noted => exact held
  owned ref := by
    rcases edit.automaton_eq_or ref with same | ⟨changed, _⟩
    · exact same ▸ List.prefix_rfl
    · exact changed.keeps_owned

theorem Edit.closed (edit : before.Edit after) (closed : before.Closed) : after.Closed := by
  intro ref
  rcases edit.automaton_eq_or ref with same | ⟨changed, states⟩
  · rw [same]
    exact fun entry member => (edit.grows.states _ (closed ref entry member)).1
  · rw [states]
    exact changed.held (closed ref)

theorem Edit.orderly (edit : before.Edit after) (orderly : before.Orderly) : after.Orderly := by
  intro ref
  rcases edit.automaton_eq_or ref with same | ⟨changed, states⟩
  · rw [same]
    exact edit.grows.orderly_automaton (orderly ref)
  · rw [states]
    exact changed.orderly (orderly ref)

theorem Edit.settled (edit : before.Edit after) {ref : AutomatonRef}
    (settled : (before.automata.get ref).Settled) : (after.automata.get ref).Settled := by
  rcases edit.automaton_eq_or ref with same | ⟨changed, _⟩
  · exact same ▸ settled
  · exact changed.settled settled

namespace Edits

theorem refl (store : Store) : store.Edits store :=
  Relation.ReflTransGen.refl

theorem trans {middle : Store} (first : before.Edits middle) (second : middle.Edits after) :
    before.Edits after :=
  Relation.ReflTransGen.trans first second

theorem grows (edits : before.Edits after) : before.Grows after := by
  induction edits with
  | refl => exact Grows.refl before
  | tail _ edit ih => exact ih.trans edit.grows

theorem closed (edits : before.Edits after) (closed : before.Closed) : after.Closed := by
  induction edits with
  | refl => exact closed
  | tail _ edit ih => exact edit.closed ih

theorem orderly (edits : before.Edits after) (orderly : before.Orderly) : after.Orderly := by
  induction edits with
  | refl => exact orderly
  | tail _ edit ih => exact edit.orderly ih

theorem settled (edits : before.Edits after) {ref : AutomatonRef}
    (settled : (before.automata.get ref).Settled) : (after.automata.get ref).Settled := by
  induction edits with
  | refl => exact settled
  | tail _ edit ih => exact edit.settled ih

end Edits

end Editing

end Store

end PatternAutomata
