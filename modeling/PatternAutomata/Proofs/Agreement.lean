import PatternAutomata.Proofs.Atomicity
import PatternAutomata.Proofs.Ownership
import PatternAutomata.Proofs.Paths.Passages

/-! # Flags and accepting entries

An automaton keeps the states that accept by their names, while the flag that says so is on the
state. The two agree at first, and what is done to the automaton keeps them in agreement, with one
exception: demoting a state that the automaton does not own, under whose name it owns another one
that accepts, takes that other one out of the accepting entries and leaves it its flag
(`Store.Mistakes`). So they agree all through a run exactly if that never happens
(`Store.accepting_agrees`), and where they agree, what is printed as accepting is what
words are accepted by.
-/

namespace PatternAutomata

/-- Whether a command is one of those by which an automaton itself is changed. -/
def Command.tends (automaton : AutomatonRef) : Command → Bool
  | addStart other _ | addAccepting other _ | adopt other _ | adoptFrom other _ | demote other _ =>
      other = automaton
  | connect _ _ _ => true
  | _ => false

namespace Store

/-- The accepting entries are those owned entries whose state says that it accepts. -/
def Agrees (store : Store) (automaton : AutomatonRef) : Prop :=
  ∀ entry, entry ∈ (store.automata.get automaton).accepting.entries ↔
    entry ∈ (store.automata.get automaton).owned.entries ∧
      (store.states.get entry.2).accepting = true

/-- A command leaves an automaton and the flags of all states as they are. -/
structure LeavesAlone (store : Store) (automaton : AutomatonRef) (command : Command) : Prop where
  automaton : (store.perform command).2.automata.get automaton = store.automata.get automaton
  flags : ∀ ref ∈ store.states,
    ((store.perform command).2.states.get ref).accepting = (store.states.get ref).accepting

/-- A run in which an automaton and the flags of all states are changed by the automaton's own
commands alone. -/
def Tends (automaton : AutomatonRef) : Store → List Command → Prop
  | _, [] => True
  | store, command :: later =>
      (command.tends automaton = true ∨ store.LeavesAlone automaton command) ∧
        (store.perform command).2.Tends automaton later

/-- A command demotes a state under whose name another one is owned that accepts. -/
def Mistakes (store : Store) (automaton : AutomatonRef) (command : Command) : Prop :=
  ∃ state, command = .demote automaton state ∧ ∃ other ≠ state,
    ((store.states.get state).name, other) ∈ (store.automata.get automaton).owned.entries ∧
      (store.states.get other).accepting = true

/-- A run without a mistake. -/
def Careful (automaton : AutomatonRef) : Store → List Command → Prop
  | _, [] => True
  | store, command :: later =>
      ¬ store.Mistakes automaton command ∧ (store.perform command).2.Careful automaton later

section Steps

variable {store after : Store} {automaton : AutomatonRef} {command : Command}

/-- Agreement is a matter of the two tables and of the flags of the states owned. -/
theorem Agrees.congr (agrees : store.Agrees automaton)
    (held : ∀ entry ∈ (store.automata.get automaton).owned.entries, entry.2 ∈ store.states)
    (owned : (after.automata.get automaton).owned = (store.automata.get automaton).owned)
    (accepting : (after.automata.get automaton).accepting =
      (store.automata.get automaton).accepting)
    (flags : ∀ ref ∈ store.states,
      (after.states.get ref).accepting = (store.states.get ref).accepting) :
    after.Agrees automaton := by
  intro entry
  rw [owned, accepting, agrees entry]
  exact and_congr_right fun member => by rw [flags entry.2 (held entry member)]

theorem Agrees.adopt (agrees : store.Agrees automaton) (held : automaton ∈ store.automata)
    (refs : List StateRef) (ran : (Action.adopt automaton refs).run store = .ok () after) :
    after.Agrees automaton := by
  have states : after.states = store.states := by rw [Action.store_of_run_adopt ran]; rfl
  have accepted : (store.automata.get automaton).accepting.entries ⊆
      (store.automata.get automaton).owned.entries :=
    fun entry member => ((agrees entry).mp member).1
  intro entry
  rw [Action.mem_owned_of_run_adopt held ran, Action.mem_accepting_of_run_adopt held accepted ran,
    states, agrees entry, or_and_right, and_comm (a := (store.states.get entry.2).accepting = true)]

/-- Adopting ends as adopting some of the first states does, also where it fails. -/
theorem exists_run_adopt (held : automaton ∈ store.automata) (refs : List StateRef) :
    ∃ earlier, (Action.adopt automaton earlier).run store =
      .ok () (Action.ending (Action.adopt automaton refs) store) := by
  cases ran : (Action.adopt automaton refs).run store with
  | ok _ after =>
      rw [Action.ending_of_ok ran]
      exact ⟨refs, ran⟩
  | error fault after =>
      rw [Action.ending_of_error ran]
      obtain ⟨earlier, _, _, _, went, _⟩ := (Action.run_adopt_eq_error_iff held).mp ran
      exact ⟨earlier, went⟩

theorem Agrees.addState (agrees : store.Agrees automaton) (orderly : store.Orderly)
    (held : automaton ∈ store.automata) (state : State) :
    (Action.ending (Action.addState automaton state) store).Agrees automaton := by
  by_cases owned : state.name ∈ (store.automata.get automaton).owned.keys
  · rw [Action.ending_of_error (Action.run_addState_of_owned store automaton owned)]
    exact agrees
  · rw [Action.ending_of_ok ((Action.run_addState store automaton state).trans (if_neg owned))]
    -- adding a state comes to making it and adopting it
    let made : Store := { store with states := store.states.add state }
    have content : made.states.get store.states.fresh = state := Heap.get_add_fresh _ state
    have madeAgrees : made.Agrees automaton :=
      agrees.congr (orderly automaton).held rfl rfl fun ref member =>
        congrArg State.accepting (Heap.get_add_of_mem member)
    have free : (made.automata.get automaton).clashes store.states.fresh
        (made.states.get store.states.fresh).name = false := by
      rw [content, Automaton.clashes, Table.find?_eq_none_iff.mpr owned]
    have claimed := Action.run_claim_eq_ok_iff.mpr ⟨free, rfl⟩
    rw [content] at claimed
    exact madeAgrees.adopt held [store.states.fresh] (Action.run_forM_cons claimed)

theorem Agrees.addStart (agrees : store.Agrees automaton) (orderly : store.Orderly)
    (held : automaton ∈ store.automata) (name : String) :
    (Action.ending (Action.addStart automaton name) store).Agrees automaton := by
  have added := agrees.addState orderly held { name }
  cases ran : (Action.addState automaton { name }).run store with
  | ok ref middle =>
      rw [Action.ending_of_ok ran] at added
      rw [Action.addStart, Action.ending_bind_of_ok ran]
      intro entry
      change entry ∈ ((middle.automata.change automaton _).get automaton).accepting.entries ↔
        entry ∈ ((middle.automata.change automaton _).get automaton).owned.entries ∧
          (middle.states.get entry.2).accepting = true
      rcases Heap.get_change_eq_or middle.automata automaton automaton
        ({ · with start := some name }) with same | ⟨_, _, same⟩
      · rw [same]
        exact added entry
      · rw [same]
        exact added entry
  | error fault middle =>
      rw [Action.ending_of_error ran] at added
      rw [Action.addStart, Action.ending_bind_of_error ran]
      exact added

section Demoting

/-- Demoting a state takes what is entered under its name out of the accepting entries. -/
theorem get_demote (held : automaton ∈ store.automata) (state : StateRef) :
    (store.perform (.demote automaton state)).2.automata.get automaton =
      (store.automata.get automaton).withdraw (store.states.get state).name :=
  Heap.get_change_self held _

/-- Of the states owned it takes the flag from none but the one demoted. -/
theorem Orderly.flag_demote (orderly : store.Orderly) (state : StateRef)
    {entry : String × StateRef} (member : entry ∈ (store.automata.get automaton).owned.entries) :
    ((store.perform (.demote automaton state)).2.states.get entry.2).accepting = true ↔
      (store.states.get entry.2).accepting = true ∧ entry.2 ≠ state := by
  let after := (store.perform (.demote automaton state)).2
  by_cases same : entry.2 = state
  · have there : state ∈ store.states := same ▸ (orderly automaton).held entry member
    have changed : after.states.get state = (store.states.get state).clear :=
      Heap.get_change_self there _
    simp [same, after, changed]
  · have kept : after.states.get entry.2 = store.states.get entry.2 :=
      Heap.get_change_of_ne same _
    simp [same, after, kept]

/-- **Demoting a state** keeps the agreement unless another one with its name is owned and
accepts. -/
theorem Agrees.demote_iff (agrees : store.Agrees automaton) (orderly : store.Orderly)
    (held : automaton ∈ store.automata) (state : StateRef) :
    (store.perform (.demote automaton state)).2.Agrees automaton ↔
      ¬ store.Mistakes automaton (.demote automaton state) := by
  let name := (store.states.get state).name
  let after := (store.perform (.demote automaton state)).2
  have remains (entry : String × StateRef) :
      entry ∈ (after.automata.get automaton).accepting.entries ↔
        (entry ∈ (store.automata.get automaton).owned.entries ∧
          (store.states.get entry.2).accepting = true) ∧ entry.1 ≠ name := by
    rw [get_demote held, Automaton.withdraw, Table.erase, List.mem_filter, agrees entry]
    exact and_congr_right fun _ => decide_eq_true_iff
  have owned : (after.automata.get automaton).owned = (store.automata.get automaton).owned := by
    rw [get_demote held, Automaton.withdraw]
  constructor
  · rintro agreesAfter ⟨_, same, other, apart, member, flag⟩
    cases same
    have listed := (agreesAfter (name, other)).mpr
      ⟨owned ▸ member, (orderly.flag_demote state member).mpr ⟨flag, apart⟩⟩
    exact ((remains (name, other)).mp listed).2 rfl
  · intro correct entry
    rw [remains, owned, and_assoc]
    refine and_congr_right fun member => ?_
    rw [orderly.flag_demote state member]
    refine and_congr_right fun flag => not_congr ⟨fun same => ?_, fun same => ?_⟩
    · have under : (name, entry.2) ∈ (store.automata.get automaton).owned.entries := by
        rw [← same]
        exact member
      by_contra apart
      exact correct ⟨state, rfl, entry.2, apart, under, flag⟩
    · have named := (orderly automaton).named entry member
      rw [same] at named
      exact named.symm

end Demoting

/-- An argument is read before anything is changed. -/
theorem Agrees.read {α : Type} {next : String → Action α} (agrees : store.Agrees automaton)
    (argument : Argument)
    (later : ∀ text, (Action.ending (next text) store).Agrees automaton) :
    (Action.ending (argument.read >>= next) store).Agrees automaton := by
  rcases (Action.reads_argument argument).ending_bind next store with same | ⟨text, same⟩
  · rw [same]
    exact agrees
  · rw [same]
    exact later text

theorem Agrees.adopting (agrees : store.Agrees automaton) (held : automaton ∈ store.automata)
    (refs : List StateRef) :
    (Action.ending (Action.adopt automaton refs) store).Agrees automaton := by
  obtain ⟨earlier, went⟩ := exists_run_adopt held refs
  exact agrees.adopt held earlier went

theorem Agrees.connect (agrees : store.Agrees automaton) (orderly : store.Orderly)
    (symbol : String) (state target : StateRef) :
    (Action.ending (Action.connect symbol state target) store).Agrees automaton := by
  have ran := Action.run_connect store symbol state target
  rw [Action.run_connectToName] at ran
  by_cases proper : IsSymbol symbol
  · rw [if_pos proper] at ran
    rw [Action.ending_of_ok ran]
    refine agrees.congr (orderly automaton).held rfl rfl fun ref _ => ?_
    rcases Heap.get_change_eq_or store.states state ref (·.connect symbol _) with
      same | ⟨rfl, _, same⟩
    · rw [changeState, same]
    · rw [changeState, same, State.accepting_connect]
  · rw [if_neg proper] at ran
    rw [Action.ending_of_error ran]
    exact agrees

/-- The other commands keep the agreement, also where they fail. -/
theorem Agrees.perform (agrees : store.Agrees automaton) (orderly : store.Orderly)
    (held : automaton ∈ store.automata)
    (concerns : command.tends automaton = true ∨ store.LeavesAlone automaton command)
    (others : ∀ state, command ≠ .demote automaton state) :
    (store.perform command).2.Agrees automaton := by
  rcases concerns with tends | alone
  · cases command with
    | addStart other name =>
        obtain rfl : other = automaton := of_decide_eq_true tends
        rw [perform_eq_ending, Action.perform]
        refine agrees.read name fun text => ?_
        rw [Action.ending_giving]
        exact agrees.addStart orderly held text
    | addAccepting other name =>
        obtain rfl : other = automaton := of_decide_eq_true tends
        rw [perform_eq_ending, Action.perform]
        refine agrees.read name fun text => ?_
        rw [Action.ending_giving]
        exact agrees.addState orderly held _
    | connect symbol state target =>
        rw [perform_eq_ending, Action.perform]
        refine agrees.read symbol fun text => ?_
        rw [Action.ending_giving _ fun _ => Outcome.done]
        exact agrees.connect orderly text state target
    | adopt other states =>
        obtain rfl : other = automaton := of_decide_eq_true tends
        rw [perform_eq_ending, Action.perform, Action.ending_giving _ fun _ => Outcome.done]
        exact agrees.adopting held states
    | adoptFrom other source =>
        obtain rfl : other = automaton := of_decide_eq_true tends
        rw [perform_eq_ending, Action.perform,
          Action.ending_bind_of_ok (Action.run_ownedBy store source),
          Action.ending_giving _ fun _ => Outcome.done]
        exact agrees.adopting held _
    | demote other state =>
        obtain rfl : other = automaton := of_decide_eq_true tends
        exact absurd rfl (others state)
    | _ => cases tends
  · exact agrees.congr (orderly automaton).held (congrArg _ alone.automaton)
      (congrArg _ alone.automaton) alone.flags

end Steps

section Running

variable {store : Store} {automaton : AutomatonRef} {command : Command}
  {commands earlier later : List Command}

theorem not_mistakes (others : ∀ state, command ≠ .demote automaton state) :
    ¬ store.Mistakes automaton command := by
  rintro ⟨state, same, _⟩
  exact others state same

/-- Demoting a state that the automaton owns is no mistake. -/
theorem not_mistakes_of_owned {state : StateRef}
    (owned : ((store.states.get state).name, state) ∈
      (store.automata.get automaton).owned.entries) :
    ¬ store.Mistakes automaton (.demote automaton state) := by
  rintro ⟨_, same, other, apart, member, _⟩
  cases same
  exact apart (Table.value_unique member owned)

/-- Nor is demoting one under whose name it owns none. -/
theorem not_mistakes_of_unknown {state : StateRef}
    (unknown : (store.states.get state).name ∉ (store.automata.get automaton).owned.keys) :
    ¬ store.Mistakes automaton (.demote automaton state) := by
  rintro ⟨_, same, other, _, member, _⟩
  cases same
  exact unknown (List.mem_map_of_mem member)

/-- One step keeps the agreement exactly if it is no mistake. -/
theorem Agrees.perform_iff (agrees : store.Agrees automaton) (orderly : store.Orderly)
    (held : automaton ∈ store.automata)
    (concerns : command.tends automaton = true ∨ store.LeavesAlone automaton command) :
    (store.perform command).2.Agrees automaton ↔ ¬ store.Mistakes automaton command := by
  by_cases demotes : ∃ state, command = .demote automaton state
  · obtain ⟨state, rfl⟩ := demotes
    exact agrees.demote_iff orderly held state
  · have others : ∀ state, command ≠ .demote automaton state := not_exists.mp demotes
    exact iff_of_true (agrees.perform orderly held concerns others) (not_mistakes others)

/-- **Flags and accepting entries agree all through a run** if and only if no step of it is a
mistake. -/
theorem Agrees.run_iff (agrees : store.Agrees automaton) (orderly : store.Orderly)
    (held : automaton ∈ store.automata) (tends : store.Tends automaton commands)
    (admitted : store.Admits commands) :
    (∀ earlier later, commands = earlier ++ later → (store.run earlier).Agrees automaton) ↔
      store.Careful automaton commands := by
  induction commands generalizing store with
  | nil =>
      refine iff_of_true (fun earlier later split => ?_) trivial
      obtain ⟨rfl, _⟩ := List.append_eq_nil_iff.mp split.symm
      exact agrees
  | cons command commands ih =>
      have effect := effect_perform orderly admitted.1
      have step := agrees.perform_iff orderly held tends.1
      have onward (agreesAfter : (store.perform command).2.Agrees automaton) :=
        ih agreesAfter (effect.orderly orderly) (effect.grows.automata automaton held) tends.2
          admitted.2
      constructor
      · intro always
        have agreesAfter := always [command] commands rfl
        refine ⟨step.mp agreesAfter, (onward agreesAfter).mp fun earlier later split => ?_⟩
        exact always (command :: earlier) later (by rw [split, List.cons_append])
      · rintro ⟨correct, careful⟩ earlier later split
        cases earlier with
        | nil => exact agrees
        | cons first earlier =>
            obtain ⟨rfl, rfl⟩ := List.cons.inj split
            exact (onward (step.mpr correct)).mpr careful earlier later rfl

end Running

end Store

/-- Among the states of some names one accepts if and only if one of the names is that of an
accepting state. -/
theorem Machine.any_accepting_iff {machine : Machine} {names : List String} {states : List State}
    (looked : names.mapM machine.stateNamed = .ok states) :
    states.any (·.accepting) = true ↔ ∃ name ∈ names, name ∈ machine.exits := by
  induction names generalizing states with
  | nil =>
      cases looked
      simp
  | cons name names ih =>
      rw [List.mapM_cons] at looked
      cases found : machine.states.find? name with
      | none =>
          rw [stateNamed, found] at looked
          cases looked
      | some state =>
          rw [stateNamed, found] at looked
          cases rest : names.mapM machine.stateNamed with
          | error fault =>
              rw [rest] at looked
              cases looked
          | ok others =>
              rw [rest] at looked
              cases looked
              have exit : name ∈ machine.exits ↔ state.accepting = true := by
                simp [exits, found]
              simp [ih rest, exit]

namespace Store

section Seeing

variable {store : Store} {automaton : AutomatonRef}

theorem mem_exits_iff {name : String} :
    name ∈ (store.machine automaton).exits ↔
      ∃ ref, (name, ref) ∈ (store.automata.get automaton).owned.entries ∧
        (store.states.get ref).accepting = true := by
  simp only [Machine.exits, machine, Set.mem_ofPred_eq, Table.find?_map, Option.map_eq_some_iff,
    Table.find?_eq_some_iff]
  constructor
  · rintro ⟨_, ⟨ref, member, rfl⟩, flag⟩
    exact ⟨ref, member, flag⟩
  · rintro ⟨ref, member, flag⟩
    exact ⟨_, ⟨ref, member, rfl⟩, flag⟩

/-- Flags and accepting entries agree if and only if what is listed as accepting is what accepts. -/
theorem Orderly.agrees_iff (orderly : store.Orderly) :
    store.Agrees automaton ↔ ∀ name,
      name ∈ (store.machine automaton).accepting ↔ name ∈ (store.machine automaton).exits := by
  have listed (name : String) : name ∈ (store.machine automaton).accepting ↔
      ∃ ref, (name, ref) ∈ (store.automata.get automaton).accepting.entries := by
    simp [machine, Table.keys]
  simp only [listed, mem_exits_iff]
  constructor
  · intro agrees name
    exact exists_congr fun ref => agrees (name, ref)
  · rintro same ⟨name, ref⟩
    constructor
    · intro member
      have owned := (orderly automaton).accepted member
      obtain ⟨other, ownedOther, flag⟩ := (same name).mp ⟨ref, member⟩
      obtain rfl := Table.value_unique owned ownedOther
      exact ⟨owned, flag⟩
    · rintro ⟨owned, flag⟩
      obtain ⟨other, member⟩ := (same name).mpr ⟨ref, owned, flag⟩
      obtain rfl := Table.value_unique owned ((orderly automaton).accepted member)
      exact member

/-- Words are accepted by the names of accepting states. -/
theorem accepts_iff_exits {machine : Machine} {word : List Char} {reached : StringSet}
    {answer : Bool} (ended : machine.reach word = .ok reached)
    (answered : machine.accepts word = .ok answer) :
    answer = true ↔ ∃ name ∈ reached, name ∈ machine.exits := by
  rw [Machine.accepts, ended] at answered
  change (reached.toList.mapM machine.stateNamed >>= fun states => _) = _ at answered
  cases looked : reached.toList.mapM machine.stateNamed with
  | error fault =>
      rw [looked] at answered
      cases answered
  | ok states =>
      rw [looked] at answered
      cases answered
      exact Machine.any_accepting_iff looked

/-- The last line printed lists what is entered as accepting. -/
theorem exists_print_accepting {machine : Machine} (printed : machine.print.fault = none) :
    ∃ above, machine.print.text =
      Printout.lines (above ++ [Printout.listing "F" machine.accepting]) := by
  cases started : machine.startState with
  | error fault =>
      rw [Machine.print, started] at printed
      cases printed
  | ok start =>
      refine ⟨machine.linesAboveStart ++ ["q0 = " ++ start.name], ?_⟩
      rw [Machine.print, started, List.append_assoc]
      rfl

end Seeing

/-- Making a state leaves automata and flags alone. -/
theorem leavesAlone_newState (store : Store) (automaton : AutomatonRef) (name : Option Argument)
    (accepting : Bool) (transitions : List (Argument × List Argument)) :
    store.LeavesAlone automaton (.newState name accepting transitions) := by
  have made : (store.perform (.newState name accepting transitions)).2 = store ∨
      ∃ state, (store.perform (.newState name accepting transitions)).2 =
        { store with states := store.states.add state } := by
    rw [perform_eq_ending, Action.perform, Action.ending_giving _ Outcome.state]
    exact Action.ending_makeState name accepting transitions store
  rcases made with same | ⟨state, added⟩
  · exact ⟨by rw [same], fun ref _ => by rw [same]⟩
  · refine ⟨by rw [added], fun ref held => ?_⟩
    rw [added]
    exact congrArg State.accepting (Heap.get_add_of_mem held)

/-- **Flags and accepting entries agree all through a run** of an automaton's own commands, from
when it was made without arguments, if and only if no step of the run is a mistake. Where they
agree, the names that the last line of the printout lists are those by which words are accepted. -/
theorem accepting_agrees {store : Store} (orderly : store.Orderly) (commands : List Command) :
    let automaton := store.automata.fresh
    let begun := (store.perform (.newAutomaton none [])).2
    begun.Tends automaton commands → begun.Admits commands →
      ((∀ earlier later, commands = earlier ++ later → (begun.run earlier).Agrees automaton) ↔
        begun.Careful automaton commands) ∧
      ∀ earlier later, commands = earlier ++ later →
        let machine := (begun.run earlier).machine automaton
        ((begun.run earlier).Agrees automaton ↔
          ∀ name, name ∈ machine.accepting ↔ name ∈ machine.exits) ∧
        (machine.print.fault = none → ∃ above, machine.print.text =
          Printout.lines (above ++ [Printout.listing "F" machine.accepting])) ∧
        ∀ word reached answer, machine.reach word = .ok reached →
          machine.accepts word = .ok answer →
            (answer = true ↔ ∃ name ∈ reached, name ∈ machine.exits) := by
  intro automaton begun tends admitted
  have begunOrderly : begun.Orderly := (effect_newAutomaton none []).orderly orderly
  have held : automaton ∈ begun.automata := Heap.mem_add.mpr (Or.inr rfl)
  have empty : begun.automata.get automaton = {} := Heap.get_add_fresh _ _
  have agrees : begun.Agrees automaton := by
    intro entry
    rw [empty]
    exact iff_of_false List.not_mem_nil fun both => List.not_mem_nil both.1
  refine ⟨agrees.run_iff begunOrderly held tends admitted, ?_⟩
  rintro earlier later rfl machine
  have orderlyThen := orderly_run begunOrderly (admits_append.mp admitted).1
  exact ⟨orderlyThen.agrees_iff, exists_print_accepting,
    fun word reached answer ended answered => accepts_iff_exits ended answered⟩

/-- A state clashes and is not adopted, then the owned one is demoted and one that is not owned;
the flags agree with the entries all the time. -/
theorem accepting_agrees_twice :
    let commands : List Command :=
      [.addStart ⟨0⟩ (.text "q"), .addAccepting ⟨0⟩ (.text "p"),
        .newState (some (.text "p")) true [], .adopt ⟨0⟩ [⟨2⟩], .demote ⟨0⟩ ⟨1⟩,
        .newState (some (.text "r")) true [], .demote ⟨0⟩ ⟨3⟩]
    let begun := (perform {} (.newAutomaton none [])).2
    begun.Tends ⟨0⟩ commands ∧ begun.Admits commands ∧ begun.Careful ⟨0⟩ commands ∧
      (begun.run commands).Agrees ⟨0⟩ := by
  intro commands begun
  have tends : begun.Tends ⟨0⟩ commands :=
    ⟨Or.inl rfl, Or.inl rfl, Or.inr (leavesAlone_newState ..), Or.inl rfl, Or.inl rfl,
      Or.inr (leavesAlone_newState ..), Or.inl rfl, trivial⟩
  have admitted : begun.Admits commands := by decide
  have careful : begun.Careful ⟨0⟩ commands := by
    refine ⟨not_mistakes nofun, not_mistakes nofun, not_mistakes nofun, not_mistakes nofun,
      not_mistakes_of_owned ?_, not_mistakes nofun, not_mistakes_of_unknown ?_, trivial⟩
    · decide
    · decide
  have agree := (accepting_agrees orderly_empty commands tends admitted).1.mpr careful
  exact ⟨tends, admitted, careful, agree commands [] (List.append_nil _).symm⟩

/-- A state that is not owned, but has the name of an accepting one, is demoted. The automaton goes
on accepting and lists nothing as accepting. -/
theorem accepting_disagrees :
    let commands : List Command :=
      [.addStart ⟨0⟩ (.text "q"), .addAccepting ⟨0⟩ (.text "p"),
        .connect (.text "") ⟨0⟩ ⟨1⟩, .newState (some (.text "p")) false [], .demote ⟨0⟩ ⟨2⟩]
    let begun := (perform {} (.newAutomaton none [])).2
    let store := begun.run commands
    begun.Tends ⟨0⟩ commands ∧ begun.Admits commands ∧ ¬ store.Agrees ⟨0⟩ ∧
      (store.machine ⟨0⟩).accepting = [] ∧ (store.machine ⟨0⟩).accepts [] = .ok true := by
  intro commands begun store
  have tends : begun.Tends ⟨0⟩ commands :=
    ⟨Or.inl rfl, Or.inl rfl, Or.inl rfl, Or.inr (leavesAlone_newState ..), Or.inl rfl, trivial⟩
  refine ⟨tends, by decide, fun agrees => ?_, by decide, by decide⟩
  have listed := (agrees ("p", ⟨1⟩)).mpr ⟨by decide, by decide⟩
  exact absurd listed (by decide)

end Store

end PatternAutomata
