import PatternAutomata.Pattern.Fragment
import PatternAutomata.Proofs.Store.Keeping
import PatternAutomata.Store.Construction

/-! # The loops of the construction

The construction walks over the states of an automaton in three places: to own them,
to hand their acceptance over to a start, and to connect them with a start both ways.
Each loop is run here once and for all, on any store, and is given as one change to it.
-/

namespace PatternAutomata

namespace Heap

variable (states : Heap State)

/-- The entries under which states are owned, each under its own name. -/
def entries (refs : List StateRef) : List (String × StateRef) :=
  refs.map fun ref => ((states.get ref).name, ref)

/-- Those states that say of themselves that they accept. -/
def flagged (refs : List StateRef) : List StateRef :=
  refs.filter fun ref => (states.get ref).accepting

theorem flagged_subset (refs : List StateRef) : states.flagged refs ⊆ refs :=
  List.filter_sublist.subset

/-- Makes those of some states that accept lead on silently to a name instead. -/
def handOver (refs : List StateRef) (entry : String) : Heap State :=
  states.changeAll (states.flagged refs) (·.clear.connect epsilon entry)

/-- Connects a state with others silently, to each of them and back. -/
def surround (start : StateRef) (refs : List StateRef) : Heap State :=
  refs.foldl (fun states ref =>
    (states.change start (·.connect epsilon (states.get ref).name)).change ref
      (·.connect epsilon (states.get start).name)) states

/-- A change that keeps the name of a state keeps the names of all. -/
theorem name_get_change {update : State → State}
    (named : ∀ state, (update state).name = state.name) (ref other : StateRef) :
    ((states.change ref update).get other).name = (states.get other).name := by
  by_cases same : other = ref
  · subst same
    by_cases held : other ∈ states
    · rw [get_change_self held, named]
    · rw [change_of_not_mem held]
  · rw [get_change_of_ne same]

/-- The entries of states depend on their names alone. -/
theorem entries_congr {states later : Heap State} {refs : List StateRef}
    (named : ∀ ref ∈ refs, (later.get ref).name = (states.get ref).name) :
    later.entries refs = states.entries refs :=
  List.map_congr_left fun ref member => by rw [named ref member]

theorem flagged_append (refs others : List StateRef) :
    states.flagged (refs ++ others) = states.flagged refs ++ states.flagged others :=
  List.filter_append _ _

theorem flagged_congr {states later : Heap State} {refs : List StateRef}
    (same : ∀ ref ∈ refs, (later.get ref).accepting = (states.get ref).accepting) :
    later.flagged refs = states.flagged refs :=
  List.filter_congr fun ref member => by rw [same ref member]

/-- The accepting entries of states depend on these states alone. -/
theorem entries_flagged_congr {states later : Heap State} {refs : List StateRef}
    (same : ∀ ref ∈ refs, later.get ref = states.get ref) :
    later.entries (later.flagged refs) = states.entries (states.flagged refs) := by
  have flagged : later.flagged refs = states.flagged refs :=
    flagged_congr fun ref member => by rw [same ref member]
  rw [flagged]
  exact entries_congr fun ref member => by rw [same ref (states.flagged_subset refs member)]

@[simp] theorem mem_handOver {refs : List StateRef} {entry : String} {other : StateRef} :
    other ∈ states.handOver refs entry ↔ other ∈ states :=
  mem_changeAll

theorem get_handOver {states : Heap State} {refs : List StateRef}
    (held : ∀ ref ∈ refs, ref ∈ states) (distinct : refs.Nodup) (entry : String)
    (other : StateRef) :
    (states.handOver refs entry).get other =
      if other ∈ refs then (states.get other).handOver entry else states.get other := by
  have flaggedHeld : ∀ ref ∈ states.flagged refs, ref ∈ states := fun ref member =>
    held ref (states.flagged_subset refs member)
  rw [handOver, get_changeAll flaggedHeld (distinct.filter _)]
  by_cases member : other ∈ refs
  · simp [flagged, member, State.handOver]
  · simp [flagged, member]

theorem surround_cons (start ref : StateRef) (refs : List StateRef) :
    states.surround start (ref :: refs) =
      ((states.change start (·.connect epsilon (states.get ref).name)).change ref
        (·.connect epsilon (states.get start).name)).surround start refs := rfl

@[simp] theorem mem_surround {start other : StateRef} {refs : List StateRef} :
    other ∈ states.surround start refs ↔ other ∈ states := by
  induction refs generalizing states with
  | nil => rfl
  | cons ref refs ih => rw [surround_cons, ih, mem_change, mem_change]

end Heap

theorem State.branch_connect (state : State) (name : String) (entries : List String) :
    (state.connect epsilon name).branch entries = (state.branch entries).connect epsilon name := by
  induction entries generalizing state with
  | nil => rfl
  | cons entry entries ih =>
      rw [branch_cons, connect_comm, ih, branch_cons]

/-- It does not matter in which order a state is made to lead on to others. -/
theorem State.branch_perm (state : State) {entries others : List String}
    (same : entries.Perm others) : state.branch entries = state.branch others :=
  same.foldl_eq' (fun first _ second _ state => state.connect_comm epsilon first second) state

/-- What surrounding makes of a state: the start leads on to the others, and each of
them leads back. -/
theorem Heap.get_surround {states : Heap State} {start : StateRef} {refs : List StateRef}
    (startHeld : start ∈ states) (held : ∀ ref ∈ refs, ref ∈ states) (distinct : refs.Nodup)
    (other : StateRef) :
    (states.surround start refs).get other =
      let onward :=
        if other = start then (states.get other).branch (refs.map fun ref => (states.get ref).name)
        else states.get other
      if other ∈ refs then onward.connect epsilon (states.get start).name else onward := by
  induction refs generalizing states with
  | nil => simp [surround]
  | cons ref refs ih =>
      have ⟨single, restDistinct⟩ := List.nodup_cons.mp distinct
      have refHeld := held ref List.mem_cons_self
      have named (name : String) (state : State) : (state.connect epsilon name).name = state.name :=
        State.name_connect state epsilon name
      rw [surround_cons, ih (by simpa using startHeld)
        (fun ref' member => by simpa using held ref' (List.mem_cons_of_mem _ member)) restDistinct]
      simp only [name_get_change _ (named _)]
      by_cases atStart : other = start
      · subst atStart
        by_cases atRef : other = ref
        · subst atRef
          simp [single, get_change_self startHeld, get_change_self (mem_change.mpr startHeld),
            State.branch_connect]
        · simp [atRef, get_change_of_ne atRef, get_change_self startHeld]
      · by_cases atRef : other = ref
        · subst atRef
          simp [single, atStart, get_change_of_ne atStart, get_change_self (mem_change.mpr refHeld)]
        · simp [atStart, atRef, get_change_of_ne atStart, get_change_of_ne atRef]

theorem Table.entries_foldl_erase {α : Type} (table : Table α) (keys : List String) :
    (keys.foldl Table.erase table).entries = table.entries.filter fun entry => entry.1 ∉ keys := by
  induction keys generalizing table with
  | nil => exact (List.filter_eq_self.mpr fun _ _ => decide_eq_true List.not_mem_nil).symm
  | cons key keys ih =>
      rw [List.foldl_cons, ih]
      simp [erase, List.filter_filter, Bool.and_comm]

namespace Automaton

/-- Takes names out of the accepting ones. -/
def withdrawAll (automaton : Automaton) (names : List String) : Automaton :=
  { automaton with accepting := names.foldl Table.erase automaton.accepting }

/-- Adds characters to the alphabet. -/
def learnAll (automaton : Automaton) (symbols : List String) : Automaton :=
  { automaton with alphabet := automaton.alphabet.insertAll symbols }

/-- Enters states one after another. -/
def enterAll (automaton : Automaton) (states : Heap State) (refs : List StateRef) : Automaton :=
  refs.foldl (fun automaton ref => automaton.enter ref (states.get ref)) automaton

variable {automaton : Automaton} {states : Heap State}

theorem enterAll_cons (ref : StateRef) (refs : List StateRef) :
    automaton.enterAll states (ref :: refs) =
      (automaton.enter ref (states.get ref)).enterAll states refs := rfl

@[simp] theorem start_enterAll (refs : List StateRef) :
    (automaton.enterAll states refs).start = automaton.start := by
  induction refs generalizing automaton with
  | nil => rfl
  | cons ref refs ih => rw [enterAll_cons, ih, enter]

@[simp] theorem alphabet_enterAll (refs : List StateRef) :
    (automaton.enterAll states refs).alphabet = automaton.alphabet := by
  induction refs generalizing automaton with
  | nil => rfl
  | cons ref refs ih => rw [enterAll_cons, ih, enter]

theorem keys_enter {ref : StateRef} {state : State} (fresh : state.name ∉ automaton.owned.keys) :
    (automaton.enter ref state).owned.keys = automaton.owned.keys ++ [state.name] := by
  rw [enter, Table.keys_insert, if_neg fresh]

/-- States whose names are not in use are entered at the end. -/
theorem owned_enterAll {refs : List StateRef}
    (apart : (automaton.owned.keys ++ refs.map fun ref => (states.get ref).name).Nodup) :
    (automaton.enterAll states refs).owned.entries =
      automaton.owned.entries ++ states.entries refs := by
  induction refs generalizing automaton with
  | nil => exact (List.append_nil _).symm
  | cons ref refs ih =>
      have fresh : (states.get ref).name ∉ automaton.owned.keys := fun member =>
        (List.nodup_append.mp apart).2.2 _ member _ List.mem_cons_self rfl
      rw [enterAll_cons, ih (by rw [keys_enter fresh]; simpa using apart), enter,
        Table.entries_insert_of_not_mem fresh, List.append_assoc]
      rfl

/-- States whose names are not in use are entered at the end of the accepting ones if
they accept. -/
theorem accepting_enterAll {refs : List StateRef}
    (apart : (automaton.accepting.keys ++ refs.map fun ref => (states.get ref).name).Nodup) :
    (automaton.enterAll states refs).accepting.entries =
      automaton.accepting.entries ++ states.entries (states.flagged refs) := by
  induction refs generalizing automaton with
  | nil => exact (List.append_nil _).symm
  | cons ref refs ih =>
      have fresh : (states.get ref).name ∉ automaton.accepting.keys := fun member =>
        (List.nodup_append.mp apart).2.2 _ member _ List.mem_cons_self rfl
      by_cases accepts : (states.get ref).accepting = true
      · have entered : (automaton.enter ref (states.get ref)).accepting =
            automaton.accepting.insert (states.get ref).name ref := by
          rw [enter, if_pos accepts]
        rw [enterAll_cons, ih, entered, Table.entries_insert_of_not_mem fresh, List.append_assoc]
        · simp [Heap.flagged, Heap.entries, accepts]
        · rw [entered, Table.keys_insert, if_neg fresh]
          simpa using apart
      · have entered : (automaton.enter ref (states.get ref)).accepting = automaton.accepting := by
          rw [enter, if_neg accepts]
        rw [enterAll_cons, ih, entered]
        · simp [Heap.flagged, accepts]
        · rw [entered]
          exact apart.sublist ((List.sublist_cons_self _ _).append_left _)

end Automaton

namespace Action

theorem run_forM_cons {α : Type} {body : α → Action Unit} {item : α} {items : List α}
    {store after : Store} (ran : (body item).run store = .ok () after) :
    ((item :: items).forM body).run store = (items.forM body).run after :=
  run_bind_of_ok ran

theorem run_connect_epsilon (store : Store) (state target : StateRef) :
    (connect epsilon state target).run store =
      .ok () (store.changeState state (·.connect epsilon (store.states.get target).name)) := by
  rw [run_connect, run_connectToName, if_pos isSymbol_epsilon]

/-- States whose names are not in use are owned one after another. -/
theorem run_adopt {store : Store} {automaton : AutomatonRef} {refs : List StateRef}
    (held : automaton ∈ store.automata)
    (apart : ((store.automata.get automaton).owned.keys ++
      refs.map fun ref => (store.states.get ref).name).Nodup) :
    (adopt automaton refs).run store =
      .ok () (store.changeAutomaton automaton (·.enterAll store.states refs)) := by
  induction refs generalizing store with
  | nil =>
      have same : store.changeAutomaton automaton (·.enterAll store.states []) = store :=
        store.changeAutomaton_id automaton
      rw [same]
      rfl
  | cons ref refs ih =>
      have fresh : (store.states.get ref).name ∉ (store.automata.get automaton).owned.keys :=
        fun member => (List.nodup_append.mp apart).2.2 _ member _ List.mem_cons_self rfl
      have clear :
          (store.automata.get automaton).clashes ref (store.states.get ref).name = false := by
        rw [Automaton.clashes, Table.find?_eq_none_iff.mpr fresh]
      have claimed := run_claim store automaton ref
      rw [clear] at claimed
      have keys : (((store.changeAutomaton automaton
          (·.enter ref (store.states.get ref))).automata).get automaton).owned.keys =
            (store.automata.get automaton).owned.keys ++ [(store.states.get ref).name] := by
        rw [Store.automata_changeAutomaton, Heap.get_change_self held, Automaton.keys_enter fresh]
      rw [adopt_cons, run_bind_of_ok claimed, ih]
      · rw [Store.changeAutomaton, Store.changeAutomaton, Heap.change_change]
        rfl
      · exact Heap.mem_change.mpr held
      · rw [keys, Store.states_changeAutomaton]
        simpa using apart

/-- Handing acceptance over to a state changes the states and the accepting entries that
it is taken from. -/
theorem run_handOver (automaton : AutomatonRef) (entry : StateRef) (refs : List StateRef)
    (store : Store) :
    (refs.forM fun state => do
        demote automaton state
        connect epsilon state entry).run store =
      .ok () { store with
        states := store.states.changeAll refs
          (·.clear.connect epsilon (store.states.get entry).name)
        automata := store.automata.change automaton
          (·.withdrawAll (refs.map fun ref => (store.states.get ref).name)) } := by
  induction refs generalizing store with
  | nil =>
      have same : store.automata.change automaton (·.withdrawAll []) = store.automata :=
        Heap.change_eq_self rfl
      rw [List.map_nil, same]
      rfl
  | cons ref refs ih =>
      have named (name : String) (state : State) :
          (state.clear.connect epsilon name).name = state.name := rfl
      have stepped : (do demote automaton ref; connect epsilon ref entry : Action Unit).run store =
          .ok () { store with
            states := store.states.change ref
              (·.clear.connect epsilon (store.states.get entry).name)
            automata := store.automata.change automaton
              (·.withdraw (store.states.get ref).name) } := by
        rw [run_bind_of_ok (run_demote store automaton ref), run_connect_epsilon]
        simp only [Store.changeState, Store.changeAutomaton, Heap.change_change,
          Heap.name_get_change _ State.name_clear]
      refine Eq.trans (run_forM_cons stepped) ?_
      rw [ih]
      simp only [Heap.name_get_change _ (named _), Heap.change_change, Heap.changeAll_cons,
        List.map_cons]
      rfl

/-- Connecting states with a start both ways changes nothing but states. -/
theorem run_surround (start : StateRef) (refs : List StateRef) (store : Store) :
    (refs.forM fun state => do
        connect epsilon start state
        connect epsilon state start).run store =
      .ok () { store with states := store.states.surround start refs } := by
  induction refs generalizing store with
  | nil => rfl
  | cons ref refs ih =>
      have stepped :
          (do connect epsilon start ref; connect epsilon ref start : Action Unit).run store =
            .ok () { store with
              states := (store.states.change start
                (·.connect epsilon (store.states.get ref).name)).change ref
                  (·.connect epsilon (store.states.get start).name) } := by
        rw [run_bind_of_ok (run_connect_epsilon store start ref), run_connect_epsilon]
        simp only [Store.changeState, Heap.name_get_change _ (State.name_connect · epsilon _)]
      refine Eq.trans (run_forM_cons stepped) ?_
      rw [ih]
      rfl

/-- Characters are added to an alphabet one after another. -/
theorem run_addLetters {store : Store} {automaton : AutomatonRef} {symbols : List String}
    (letters : ∀ symbol ∈ symbols, symbol ≠ epsilon ∧ IsSymbol symbol) :
    (addLetters automaton symbols).run store =
      .ok () (store.changeAutomaton automaton (·.learnAll symbols)) := by
  induction symbols generalizing store with
  | nil =>
      have same : store.changeAutomaton automaton (·.learnAll []) = store :=
        store.changeAutomaton_id automaton
      rw [same]
      rfl
  | cons symbol symbols ih =>
      have ⟨⟨loud, proper⟩, rest⟩ := List.forall_mem_cons.mp letters
      have added := run_addLetter store automaton symbol
      rw [if_neg loud, if_pos proper] at added
      rw [addLetters_cons, run_bind_of_ok added, ih rest, Store.changeAutomaton,
        Store.changeAutomaton, Heap.change_change]
      rfl

end Action

end PatternAutomata
