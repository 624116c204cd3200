import PatternAutomata.Proofs.Operands
import PatternAutomata.Proofs.Pattern.Shape

/-! # Repetition

Repetition joins the start of an automaton with its accepting states, both ways. What it makes of an
automaton is the closure of all words that led between any two of these states
(`Store.repetition_loops`). That is the closure of the words accepted before where nothing led back
to the start or on from an accepting state; else it may be more.

A second repetition finds the silent moves there that it would add, so it changes nothing, and this
is so in any store.
-/

namespace PatternAutomata

open scoped Computability

namespace Heap

variable {states : Heap State} {start source target ref : StateRef} {refs : List StateRef}

/-- A state, if it is there, leads on silently to another. -/
def Joins (states : Heap State) (source target : StateRef) : Prop :=
  source ∈ states → (states.get target).name ∈ (states.get source).targets epsilon

/-- Where a state leads on to another, making it do so changes nothing. -/
theorem Joins.change_eq (joins : states.Joins source target) :
    states.change source (·.connect epsilon (states.get target).name) = states := by
  by_cases held : source ∈ states
  · exact change_eq_self (State.connect_of_mem (joins held))
  · exact change_of_not_mem held _

theorem joins_change (states : Heap State) (source target : StateRef) :
    (states.change source (·.connect epsilon (states.get target).name)).Joins source target := by
  intro held
  rw [name_get_change _ (State.name_connect · epsilon _), get_change_self (mem_change.mp held),
    State.mem_targets_connect]
  exact Or.inr ⟨rfl, rfl⟩

/-- Further silent moves leave those that are there. -/
theorem Joins.change (joins : states.Joins source target) (ref : StateRef) (entry : String) :
    (states.change ref (·.connect epsilon entry)).Joins source target := by
  intro held
  have already := joins (mem_change.mp held)
  rw [name_get_change _ (State.name_connect · epsilon entry)]
  rcases states.get_change_eq_or ref source (·.connect epsilon entry) with same | ⟨rfl, _, same⟩
  · rw [same]
    exact already
  · rw [same, State.mem_targets_connect]
    exact Or.inl already

theorem Joins.surround (joins : states.Joins source target) (start : StateRef)
    (refs : List StateRef) : (states.surround start refs).Joins source target := by
  induction refs generalizing states with
  | nil => exact joins
  | cons ref refs ih =>
      rw [surround_cons]
      exact ih ((joins.change start _).change ref _)

/-- A surrounded start leads on to each of the others, and each of them leads back. -/
theorem joins_surround (states : Heap State) (start : StateRef) (refs : List StateRef) :
    ∀ ref ∈ refs, (states.surround start refs).Joins start ref ∧
      (states.surround start refs).Joins ref start := by
  induction refs generalizing states with
  | nil => exact fun ref member => absurd member List.not_mem_nil
  | cons ref refs ih =>
      rw [surround_cons]
      refine List.forall_mem_cons.mpr ⟨⟨?_, ?_⟩, ih _⟩
      · exact ((states.joins_change start ref).change ref _).surround start refs
      · have named := name_get_change states
          (State.name_connect · epsilon (states.get ref).name) start start
        have joined := joins_change
          (states.change start (·.connect epsilon (states.get ref).name)) ref start
        rw [named] at joined
        exact joined.surround start refs

/-- A start that leads on to others and back is surrounded already. -/
theorem surround_of_joins
    (joins : ∀ ref ∈ refs, states.Joins start ref ∧ states.Joins ref start) :
    states.surround start refs = states := by
  induction refs with
  | nil => rfl
  | cons ref refs ih =>
      obtain ⟨⟨onward, back⟩, others⟩ := List.forall_mem_cons.mp joins
      rw [surround_cons, onward.change_eq, back.change_eq, ih others]

theorem surround_surround (states : Heap State) (start : StateRef) (refs : List StateRef) :
    (states.surround start refs).surround start refs = states.surround start refs :=
  surround_of_joins (joins_surround states start refs)

end Heap

/-- Transitions lead one way where no state has the start among its targets and no accepting state
has targets. -/
theorem Machine.oneWay_of_values {machine : Machine} {start : String}
    (unentered : ∀ state ∈ machine.states.values, ∀ targets ∈ state.transitions.values,
      start ∉ targets)
    (unleft : ∀ state ∈ machine.states.values, state.accepting = true →
      state.transitions.values = []) :
    machine.Leads.OneWay start machine.exits where
  start source symbol leads := by
    obtain ⟨state, owned, targets, listed, member⟩ := exists_targets_of_leads leads
    exact unentered state owned targets listed member
  exits := by
    rintro source ⟨state, found, accepts⟩ symbol target ⟨other, foundOther, listed⟩
    obtain rfl : state = other := Option.some.inj (found.symm.trans foundOther)
    obtain ⟨targets, under, _⟩ := State.mem_targets_iff.mp listed
    have some := Table.mem_values_of_find? under
    rw [unleft state (Table.mem_values_of_find? found) accepts] at some
    cases some

namespace Store

variable {store : Store} {automaton : AutomatonRef} {start : StateRef} {fault : Fault}
  {refs : List StateRef} {fragment : Fragment}

/-- Where something is entered as accepting, the fragment has an exit. -/
theorem Bears.exits_nonempty (bears : store.Bears automaton refs fragment)
    (marks : store.Marks automaton refs)
    (some : (store.automata.get automaton).accepting.entries ≠ []) : fragment.exits.Nonempty := by
  obtain ⟨entry, member⟩ := List.exists_mem_of_ne_nil _ some
  have value : entry.2 ∈ (store.automata.get automaton).accepting.values :=
    List.mem_map_of_mem member
  exact ⟨_, (bears.markedNames marks).mem_iff.mp (List.mem_map_of_mem value)⟩

/-- The start of an automaton, if it owns one. -/
theorem run_startOf_eq_ok_iff {after : Store} :
    (Action.startOf automaton).run store = .ok start after ↔
      after = store ∧ ∃ name, (store.automata.get automaton).start = some name ∧
        (store.automata.get automaton).owned.find? name = some start := by
  rw [Action.run_startOf]
  cases (store.automata.get automaton).start with
  | none => simp
  | some name =>
      simp only [Action.run_stateNamed, Option.some.injEq, exists_eq_left']
      cases (store.automata.get automaton).owned.find? name with
      | none => simp
      | some ref => simp [eq_comm, and_comm]

/-- Repetition of an automaton that owns its start changes states alone. -/
theorem perform_repetition_of_start
    (found : (Action.startOf automaton).run store = .ok start store) :
    store.perform (.repetition automaton) = (.ok (.automaton automaton), { store with
      states := store.states.surround start (store.automata.get automaton).accepting.values }) :=
  perform_of_ok rfl (Action.run_repetition_of_start found)

theorem perform_repetition_of_error
    (missing : (Action.startOf automaton).run store = .error fault store) :
    store.perform (.repetition automaton) = (.error fault, store) :=
  perform_of_error rfl (Action.run_bind_of_error missing)

/-- Looking for the start changes nothing, and finds it or not. -/
theorem startOf_cases (store : Store) (automaton : AutomatonRef) :
    (∃ start, (Action.startOf automaton).run store = .ok start store) ∨
      ∃ fault, (Action.startOf automaton).run store = .error fault store := by
  have reads := Action.reads_startOf automaton store
  cases ran : (Action.startOf automaton).run store with
  | ok start after =>
      rw [Action.ending_of_ok ran] at reads
      exact Or.inl ⟨start, by rw [reads]⟩
  | error fault after =>
      rw [Action.ending_of_error ran] at reads
      exact Or.inr ⟨fault, by rw [reads]⟩

theorem perform_repetition_of_nil
    (none : (store.automata.get automaton).accepting.entries = []) :
    (store.perform (.repetition automaton)).2 = store := by
  have values : (store.automata.get automaton).accepting.values = [] := by
    rw [Table.values, none, List.map_nil]
  rcases store.startOf_cases automaton with ⟨start, found⟩ | ⟨fault, missing⟩
  · rw [perform_repetition_of_start found, values]
    rfl
  · rw [perform_repetition_of_error missing]

/-- A second repetition ends like the first and changes nothing. -/
theorem perform_repetition_again (store : Store) (automaton : AutomatonRef) :
    (store.perform (.repetition automaton)).2.perform (.repetition automaton) =
      store.perform (.repetition automaton) := by
  rcases store.startOf_cases automaton with ⟨start, found⟩ | ⟨fault, missing⟩
  · have performed := perform_repetition_of_start found
    let after : Store := { store with
      states := store.states.surround start (store.automata.get automaton).accepting.values }
    obtain ⟨_, named⟩ := run_startOf_eq_ok_iff.mp found
    have foundAgain : (Action.startOf automaton).run after = .ok start after :=
      run_startOf_eq_ok_iff.mpr ⟨rfl, named⟩
    have settled : after.states.surround start (after.automata.get automaton).accepting.values =
        after.states :=
      Heap.surround_surround _ _ _
    rw [performed]
    change after.perform (.repetition automaton) = (.ok (.automaton automaton), after)
    rw [perform_repetition_of_start foundAgain, settled]
  · have performed := perform_repetition_of_error missing
    rw [performed, performed]

/-- Repetition makes a loop of what a coherent automaton bears. -/
theorem Coherent.perform_repetition (coherent : store.Coherent automaton) :
    ∃ start after, (store.machine automaton).start = some start ∧
      store.perform (.repetition automaton) = (.ok (.automaton automaton), after) ∧
      ((store.automata.get automaton).accepting.entries ≠ [] →
        after.Decides automaton ((store.machine automaton).passages start).all∗) := by
  obtain ⟨fragment, bears, sound⟩ := coherent.exists_fragment
  have marks := coherent.marks bears
  obtain ⟨states, ran, repeated, _⟩ := Action.run_repetition_bears bears marks sound.start
  refine ⟨fragment.start, { store with states }, bears.presents.start, perform_of_ok rfl ran,
    fun some => ?_⟩
  have through := repeated.decides (Fragment.sound_star sound)
  rw [Fragment.passages_star sound (bears.exits_nonempty marks some),
    ← bears.presents.passages] at through
  exact through

/-- **Repetition joins the start with the accepting states.** A coherent automaton, whatever its
transitions, then accepts the closure of all words that led between any two of these, if there are
accepting states; where no transition entered the start and none left an accepting state, this is
the closure of what it accepted before. Without accepting states nothing changes, and a second
repetition never changes anything. -/
theorem repetition_loops (store : Store) (automaton : AutomatonRef) :
    let machine := store.machine automaton
    let accepting := (store.automata.get automaton).accepting.entries
    (store.Coherent automaton → ∃ start after, machine.start = some start ∧
        store.perform (.repetition automaton) = (.ok (.automaton automaton), after) ∧
        (accepting ≠ [] → after.Decides automaton (machine.passages start).all∗ ∧
          (machine.Leads.OneWay start machine.exits →
            after.Decides automaton machine.language∗))) ∧
      (accepting = [] → (store.perform (.repetition automaton)).2 = store) ∧
      (store.perform (.repetition automaton)).2.perform (.repetition automaton) =
        store.perform (.repetition automaton) := by
  intro machine accepting
  refine ⟨fun coherent => ?_, perform_repetition_of_nil, store.perform_repetition_again automaton⟩
  obtain ⟨start, after, started, performed, decides⟩ := coherent.perform_repetition
  refine ⟨start, after, started, performed, fun some => ⟨decides some, fun oneWay => ?_⟩⟩
  have language : machine.language∗ = (machine.passages start).all∗ :=
    calc machine.language∗ = (machine.passages start).through∗ := by
          rw [coherent.language_eq started]
      _ = (machine.passages start).all∗ := oneWay.kstar_all.symm
  rw [language]
  exact decides some

/-- One automaton leads back from its accepting state, one leads one way only, and one has no
accepting state. -/
theorem repetition_loops_three :
    let commands : List Command :=
      [.newAutomaton none [], .addStart ⟨0⟩ (.text "p"), .addAccepting ⟨0⟩ (.text "q"),
        .connect (.text "a") ⟨0⟩ ⟨1⟩, .connect (.text "b") ⟨1⟩ ⟨0⟩,
        .newAutomaton none [], .addStart ⟨1⟩ (.text "r"), .addAccepting ⟨1⟩ (.text "s"),
        .connect (.text "a") ⟨2⟩ ⟨3⟩, .newAutomaton none [], .addStart ⟨2⟩ (.text "t")]
    let store := run {} commands
    (store.Coherent ⟨0⟩ ∧ ∃ after,
        store.perform (.repetition ⟨0⟩) = (.ok (.automaton ⟨0⟩), after) ∧
        after.perform (.accepts ⟨0⟩ ['b']) = (.ok (.truth true), after)) ∧
      (store.Coherent ⟨1⟩ ∧ (store.machine ⟨1⟩).Leads.OneWay "r" (store.machine ⟨1⟩).exits ∧
        ∃ after, store.perform (.repetition ⟨1⟩) = (.ok (.automaton ⟨1⟩), after) ∧
          after.perform (.accepts ⟨1⟩ ['a', 'a']) = (.ok (.truth true), after)) ∧
      (store.perform (.repetition ⟨2⟩)).2 = store := by
  intro commands store
  have admitted : Admits {} commands := by decide
  have circle : store.Coherent ⟨0⟩ := (usable_run admitted (by decide)).coherent (by decide)
  have line : store.Coherent ⟨1⟩ := (usable_run admitted (by decide)).coherent (by decide)
  have oneWay : (store.machine ⟨1⟩).Leads.OneWay "r" (store.machine ⟨1⟩).exits :=
    Machine.oneWay_of_values (by decide) (by decide)
  refine ⟨⟨circle, ?_⟩, ⟨line, oneWay, ?_⟩, (repetition_loops store ⟨2⟩).2.1 (by decide)⟩
  · obtain ⟨start, after, started, performed, loops⟩ := (repetition_loops store ⟨0⟩).1 circle
    obtain rfl : "p" = start := Option.some.inj started
    have back : (store.machine ⟨0⟩).Leads "q" "b" "p" := ⟨_, rfl, by decide⟩
    have exit : "q" ∈ (store.machine ⟨0⟩).exits := ⟨_, rfl, rfl⟩
    have inAll : ['b'] ∈ ((store.machine ⟨0⟩).passages "p").all :=
      Or.inr ⟨"q", exit, "p", rfl, .read back (.here _)⟩
    have once : ((store.machine ⟨0⟩).passages "p").all ≤ ((store.machine ⟨0⟩).passages "p").all∗ :=
      le_kstar
    obtain ⟨answer, answered, decides⟩ := (loops (by decide)).1 ['b']
    rw [decides.mpr (once inAll)] at answered
    exact ⟨after, performed, answered⟩
  · obtain ⟨start, after, started, performed, loops⟩ := (repetition_loops store ⟨1⟩).1 line
    obtain rfl : "r" = start := Option.some.inj started
    have accepted : (store.machine ⟨1⟩).accepts ['a'] = .ok true := by decide
    have one : ['a'] ∈ (store.machine ⟨1⟩).language := accepted
    have two : ['a', 'a'] ∈ (store.machine ⟨1⟩).language∗ :=
      Moves.append_mem_kstar one (Moves.append_mem_kstar one (Language.nil_mem_kstar _))
    obtain ⟨answer, answered, decides⟩ := (loops (by decide)).2 oneWay ['a', 'a']
    rw [decides.mpr two] at answered
    exact ⟨after, performed, answered⟩

end Store

end PatternAutomata
