import PatternAutomata.Proofs.Ownership
import PatternAutomata.Proofs.Pattern.Labels

/-! # Automata only grow

Nothing is ever taken from an automaton, and nothing in it changes its place. Along a run of
commands owned states stay, transitions stay in the order of their symbols, letters stay in the
alphabet, and a flag that is lost is not regained (`Store.LastsIn`). Failing commands are no
exception, nor does it matter which automata share which states.

Symbols are checked wherever a transition or a letter is added, but not where a state or an
automaton is made as it is told. So all symbols are legal all through a run in which what is
told is legal (`Store.Legal`, `Store.ToldLegal`).
-/

namespace PatternAutomata

/-- What a state was is part of what it is later: it has the same name, all its transitions with
their symbols in the same order, and no flag that it did not have. -/
structure State.LastsIn (before after : State) : Prop where
  name_eq : after.name = before.name
  symbols : before.transitions.keys <+: after.transitions.keys
  targets : ∀ symbol, ∀ target ∈ before.targets symbol, target ∈ after.targets symbol
  accepting : after.accepting = true → before.accepting = true

/-- What an automaton was is part of what it is later: it owns the same states in the same
order, and has all its letters. -/
structure Automaton.LastsIn (before after : Automaton) : Prop where
  owned : before.owned.entries <+: after.owned.entries
  alphabet : ∀ symbol ∈ before.alphabet, symbol ∈ after.alphabet

/-- What the states and automata of a store were is part of what they are later. -/
structure Store.LastsIn (before after : Store) : Prop where
  states : ∀ ref ∈ before.states,
    ref ∈ after.states ∧ (before.states.get ref).LastsIn (after.states.get ref)
  automata : ∀ ref ∈ before.automata,
    ref ∈ after.automata ∧ (before.automata.get ref).LastsIn (after.automata.get ref)

/-- A store in which every transition is on epsilon or a character and leads somewhere, and
every alphabet, those that compilers gather included, has nothing but characters in it. -/
structure Store.Legal (store : Store) : Prop where
  states : ∀ ref, (store.states.get ref).Labelled
  alphabets : ∀ ref, ∀ symbol ∈ (store.automata.get ref).alphabet, symbol.length = 1
  literals : ∀ ref, ∀ symbol ∈ (store.compilers.get ref).literals, symbol.length = 1

namespace State

variable {before middle after : State}

theorem LastsIn.refl (state : State) : state.LastsIn state :=
  ⟨rfl, List.prefix_rfl, fun _ _ member => member, id⟩

theorem LastsIn.trans (first : before.LastsIn middle) (second : middle.LastsIn after) :
    before.LastsIn after where
  name_eq := second.name_eq.trans first.name_eq
  symbols := first.symbols.trans second.symbols
  targets symbol target member := second.targets symbol target (first.targets symbol target member)
  accepting flag := first.accepting (second.accepting flag)

theorem Edit.lastsIn (edit : before.Edit after) : before.LastsIn after := by
  cases edit with
  | connect symbol target proper =>
      refine ⟨rfl, ?_, fun other name member => mem_targets_connect.mpr (Or.inl member), id⟩
      rw [State.connect, Table.keys_insert]
      split
      · exact List.prefix_rfl
      · exact List.prefix_append _ _
  | clear =>
      exact ⟨rfl, List.prefix_rfl, fun _ _ member => member,
        fun flag => absurd flag Bool.false_ne_true⟩

theorem Edit.labelled (edit : before.Edit after) (labelled : before.Labelled) : after.Labelled := by
  cases edit with
  | connect symbol target proper => exact labelled_connect labelled proper target
  | clear => exact labelled

/-- Whether all labels are proper can be told from the entries. -/
theorem labelled_iff {state : State} :
    state.Labelled ↔
      ∀ entry ∈ state.transitions.entries, IsSymbol entry.1 ∧ entry.2.toList ≠ [] := by
  constructor
  · intro labelled entry member
    obtain ⟨proper, target, leads⟩ := labelled _ _ (Table.find?_eq_some_iff.mpr member)
    exact ⟨proper, List.ne_nil_of_mem leads⟩
  · intro each symbol targets found
    obtain ⟨proper, some⟩ := each _ (Table.find?_eq_some_iff.mp found)
    exact ⟨proper, List.exists_mem_of_ne_nil _ some⟩

instance (state : State) : Decidable state.Labelled :=
  decidable_of_iff _ labelled_iff.symm

end State

namespace Automaton

variable {states : Heap State} {before middle after : Automaton}

theorem LastsIn.refl (automaton : Automaton) : automaton.LastsIn automaton :=
  ⟨List.prefix_rfl, fun _ member => member⟩

theorem LastsIn.trans (first : before.LastsIn middle) (second : middle.LastsIn after) :
    before.LastsIn after where
  owned := first.owned.trans second.owned
  alphabet symbol member := second.alphabet symbol (first.alphabet symbol member)

theorem Edit.lastsIn (edit : before.Edit states after) : before.LastsIn after where
  owned := edit.keeps_owned
  alphabet symbol member := by
    cases edit with
    | enter ref held free => exact member
    | start name owned => exact member
    | withdraw name => exact member
    | learn letter proper loud => exact StringSet.mem_insert.mpr (Or.inr member)

theorem Edit.letters (edit : before.Edit states after)
    (letters : ∀ symbol ∈ before.alphabet, symbol.length = 1) :
    ∀ symbol ∈ after.alphabet, symbol.length = 1 := by
  cases edit with
  | enter ref held free => exact letters
  | start name owned => exact letters
  | withdraw name => exact letters
  | learn letter proper loud =>
      intro symbol member
      rcases StringSet.mem_insert.mp member with rfl | before
      · exact proper.resolve_left loud
      · exact letters symbol before

end Automaton

namespace Store

variable {store before middle after : Store} {command : Command}
  {commands earlier later : List Command}

theorem LastsIn.refl (store : Store) : store.LastsIn store :=
  ⟨fun _ held => ⟨held, .refl _⟩, fun _ held => ⟨held, .refl _⟩⟩

theorem LastsIn.trans (first : before.LastsIn middle) (second : middle.LastsIn after) :
    before.LastsIn after where
  states ref held := by
    obtain ⟨heldThen, lasting⟩ := first.states ref held
    obtain ⟨heldAfter, lastingOn⟩ := second.states ref heldThen
    exact ⟨heldAfter, lasting.trans lastingOn⟩
  automata ref held := by
    obtain ⟨heldThen, lasting⟩ := first.automata ref held
    obtain ⟨heldAfter, lastingOn⟩ := second.automata ref heldThen
    exact ⟨heldAfter, lasting.trans lastingOn⟩

/-- Adding a state changes none that was there. -/
theorem LastsIn.addState (store : Store) (state : State) :
    store.LastsIn { store with states := store.states.add state } where
  states ref held := by
    refine ⟨Heap.mem_add.mpr (Or.inl held), ?_⟩
    rw [Heap.get_add_of_mem held]
    exact .refl _
  automata _ held := ⟨held, .refl _⟩

/-- Adding an automaton changes none that was there. -/
theorem LastsIn.addAutomaton (store : Store) (automaton : Automaton) :
    store.LastsIn { store with automata := store.automata.add automaton } where
  states _ held := ⟨held, .refl _⟩
  automata ref held := by
    refine ⟨Heap.mem_add.mpr (Or.inl held), ?_⟩
    rw [Heap.get_add_of_mem held]
    exact .refl _

section Editing

theorem Edit.lastsIn (edit : before.Edit after) : before.LastsIn after where
  states ref held := by
    refine ⟨(edit.grows.states ref held).1, ?_⟩
    rcases edit.state_cases ref with same | changed | ⟨new, _⟩
    · exact same ▸ .refl _
    · exact changed.lastsIn
    · exact absurd held new
  automata ref held := by
    refine ⟨edit.grows.automata ref held, ?_⟩
    rcases edit.automaton_eq_or ref with same | ⟨changed, _⟩
    · exact same ▸ .refl _
    · exact changed.lastsIn

/-- Compilers go on noting nothing but characters. -/
theorem Edit.noted (edit : before.Edit after)
    (noted : ∀ ref, ∀ symbol ∈ (before.compilers.get ref).literals, symbol.length = 1) :
    ∀ ref, ∀ symbol ∈ (after.compilers.get ref).literals, symbol.length = 1 := by
  cases edit with
  | newState name accepting => exact noted
  | newAutomaton => exact noted
  | state other update edit => exact noted
  | automaton other update edit => exact noted
  | aside counters compilers added =>
      exact fun ref symbol member => (added ref symbol member).elim (noted ref symbol) id

theorem Edit.legal (edit : before.Edit after) (legal : before.Legal) : after.Legal where
  states ref := by
    rcases edit.state_cases ref with same | changed | ⟨_, name, accepting, bare⟩
    · exact same ▸ legal.states ref
    · exact changed.labelled (legal.states ref)
    · exact bare ▸ State.labelled_bare name accepting
  alphabets ref := by
    rcases edit.automaton_eq_or ref with same | ⟨changed, _⟩
    · exact same ▸ legal.alphabets ref
    · exact changed.letters (legal.alphabets ref)
  literals := edit.noted legal.literals

namespace Edits

theorem lastsIn (edits : before.Edits after) : before.LastsIn after := by
  induction edits with
  | refl => exact .refl before
  | tail _ edit ih => exact ih.trans edit.lastsIn

theorem legal (edits : before.Edits after) (legal : before.Legal) : after.Legal := by
  induction edits with
  | refl => exact legal
  | tail _ edit ih => exact edit.legal ih

end Edits

end Editing

/-- What a command makes as it is told, if it makes anything, is legal. -/
def TellsLegal (store : Store) (command : Command) : Prop :=
  command.makes = true →
    ((store.perform command).2.states.get store.states.fresh).Labelled ∧
      ∀ symbol ∈ ((store.perform command).2.automata.get store.automata.fresh).alphabet.toList,
        symbol.length = 1

instance (store : Store) (command : Command) : Decidable (store.TellsLegal command) :=
  inferInstanceAs (Decidable (_ → _ ∧ _))

/-- A run in which what is made as it is told is legal when it is made. -/
def ToldLegal : Store → List Command → Prop
  | _, [] => True
  | store, command :: later =>
      store.TellsLegal command ∧ (store.perform command).2.ToldLegal later

instance ToldLegal.decidable : (store : Store) → (commands : List Command) →
    Decidable (store.ToldLegal commands)
  | _, [] => inferInstanceAs (Decidable True)
  | store, command :: later =>
      have := ToldLegal.decidable (store.perform command).2 later
      inferInstanceAs (Decidable (_ ∧ _))

namespace Effect

theorem lastsIn (effect : store.Effect command after) : store.LastsIn after := by
  cases effect with
  | edits edits => exact edits.lastsIn
  | newState state made => exact .addState store state
  | newAutomaton start alphabet made told => exact .addAutomaton store _

theorem closed (effect : store.Effect command after) (closed : store.Closed) : after.Closed := by
  cases effect with
  | edits edits => exact edits.closed closed
  | newState state made =>
      exact fun ref entry member => Heap.mem_add.mpr (Or.inl (closed ref entry member))
  | newAutomaton start alphabet made told =>
      intro ref
      by_cases new : ref = store.automata.fresh
      · rw [new, Heap.get_add_fresh]
        exact fun _ => nofun
      · rw [Heap.get_add_of_ne new]
        exact closed ref

/-- Only what is made as it is told could break the rules for symbols. -/
theorem legal (effect : store.Effect command after) (legal : store.Legal)
    (told : command.makes = true → (after.states.get store.states.fresh).Labelled ∧
      ∀ symbol ∈ (after.automata.get store.automata.fresh).alphabet.toList, symbol.length = 1) :
    after.Legal := by
  cases effect with
  | edits edits => exact edits.legal legal
  | newState state made =>
      refine ⟨fun ref => ?_, legal.alphabets, legal.literals⟩
      by_cases new : ref = store.states.fresh
      · exact new ▸ (told made).1
      · rw [Heap.get_add_of_ne new]
        exact legal.states ref
  | newAutomaton start alphabet made untold =>
      refine ⟨legal.states, fun ref => ?_, legal.literals⟩
      by_cases new : ref = store.automata.fresh
      · exact new ▸ (told made).2
      · rw [Heap.get_add_of_ne new]
        exact legal.alphabets ref

end Effect

section Running

variable (closed : store.Closed) (admitted : store.Admits commands)

include closed admitted

theorem closed_run : (store.run commands).Closed := by
  induction commands generalizing store with
  | nil => exact closed
  | cons command commands ih =>
      exact ih ((effect_of_closed closed admitted.1).closed closed) admitted.2

theorem lastsIn_run : store.LastsIn (store.run commands) := by
  induction commands generalizing store with
  | nil => exact .refl store
  | cons command commands ih =>
      have effect := effect_of_closed closed admitted.1
      exact effect.lastsIn.trans (ih (effect.closed closed) admitted.2)

theorem legal_run (legal : store.Legal) (told : store.ToldLegal commands) :
    (store.run commands).Legal := by
  induction commands generalizing store with
  | nil => exact legal
  | cons command commands ih =>
      have effect := effect_of_closed closed admitted.1
      exact ih (effect.closed closed) admitted.2 (effect.legal legal told.1) told.2

end Running

theorem legal_empty : Legal {} :=
  ⟨fun _ => State.labelled_bare "" false, fun _ _ => nofun, fun _ _ => nofun⟩

/-- **Automata only grow, and only with legal symbols.** What the states and automata of a store
are at some point of a run is part of what they are at every later point; and if the store was
legal, and so is whatever is made as it is told, the store is legal at every point. -/
theorem only_grows (closed : store.Closed) (earlier later : List Command)
    (admitted : store.Admits (earlier ++ later)) :
    (store.run earlier).LastsIn (store.run (earlier ++ later)) ∧
      (store.Legal → store.ToldLegal (earlier ++ later) →
        (store.run (earlier ++ later)).Legal) := by
  refine ⟨?_, legal_run closed admitted⟩
  obtain ⟨admittedEarlier, admittedLater⟩ := admits_append.mp admitted
  rw [run_append]
  exact lastsIn_run (closed_run closed admittedEarlier) admittedLater

/-- A state is made with a transition as it is told, an automaton adopts it, and another
transition is refused before one is added and the flag is taken away. -/
theorem only_grows_told :
    let earlier : List Command :=
      [.newState (some (.text "p")) true [(.text "a", [.text "q"])],
        .newAutomaton none [.text "a"], .adopt ⟨0⟩ [⟨0⟩], .addStart ⟨0⟩ (.text "q")]
    let later : List Command :=
      [.connect (.text "ab") ⟨0⟩ ⟨0⟩, .connect (.text "a") ⟨0⟩ ⟨0⟩, .demote ⟨0⟩ ⟨0⟩]
    Closed {} ∧ Admits {} (earlier ++ later) ∧
      (run {} earlier).LastsIn (run {} (earlier ++ later)) ∧
      Legal {} ∧ ToldLegal {} (earlier ++ later) ∧ (run {} (earlier ++ later)).Legal ∧
      (run {} (earlier ++ later)).states.get ⟨0⟩ =
        { name := "p", transitions := Table.ofList [("a", StringSet.ofList ["p", "q"])] } := by
  intro earlier later
  have admitted : Admits {} (earlier ++ later) := by decide
  have told : ToldLegal {} (earlier ++ later) := by decide
  obtain ⟨lasts, legal⟩ := only_grows orderly_empty.closed earlier later admitted
  refine ⟨orderly_empty.closed, admitted, lasts, legal_empty, told, legal legal_empty told, ?_⟩
  decide

end Store

end PatternAutomata
