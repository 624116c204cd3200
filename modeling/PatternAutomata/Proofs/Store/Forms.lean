import PatternAutomata.Proofs.Store.Holding

/-! # The forms of pattern on held fragments

What the forms of pattern make of automata that hold fragments. The resulting automaton
holds the fragment that is put together in the same way, and only states of the part
that is rebuilt are changed.
-/

namespace PatternAutomata

/-- The states of one fragment and those of another after them. -/
def Fragment.merge (first second : Fragment) : Fragment where
  start := first.start
  states := first.states ++ second.states

/-- A fragment whose accepting states lead on silently to a name instead. -/
def Fragment.handOver (fragment : Fragment) (entry : String) : Fragment where
  start := fragment.start
  states := fragment.states.map (State.handOver entry)

@[simp] theorem Fragment.names_handOver (fragment : Fragment) (entry : String) :
    (fragment.handOver entry).names = fragment.names := by
  simp [names, handOver, Function.comp_def]

namespace Action

variable {store : Store} {automaton first second : AutomatonRef}
  {refs added firstRefs secondRefs : List StateRef} {fragment left right : Fragment}
  {alphabet : StringSet}

/-- The first state of a new automaton is its start. -/
theorem run_addStart_new (held : automaton ∈ store.automata)
    (empty : store.automata.get automaton = {}) (name : String) :
    ∃ after, (addStart automaton name).run store = .ok store.states.fresh after ∧
      after.Holds automaton [store.states.fresh] { start := name, states := [{ name }] } ∅ ∧
      store.ChangesOnly after [] [automaton] := by
  have unused : name ∉ (store.automata.get automaton).owned.keys := by
    rw [empty]
    exact List.not_mem_nil
  have added := (run_addState store automaton { name }).trans (if_neg unused)
  have content : ((store.automata.change automaton (·.enter store.states.fresh { name })).change
      automaton ({ · with start := some name })).get automaton =
        { start := some name, owned := (∅ : Table StateRef).insert name store.states.fresh } := by
    rw [Heap.change_change, Heap.get_change_self held, empty]
    rfl
  have value : (store.states.add { name }).get store.states.fresh = { name } :=
    Heap.get_add_fresh _ _
  refine ⟨{ store with
    states := store.states.add { name }
    automata := (store.automata.change automaton (·.enter store.states.fresh { name })).change
      automaton ({ · with start := some name }) }, ?_, ⟨⟨?_, ?_, ?_, ?_, ?_⟩, ?_, ?_⟩, ?_⟩
  · rw [addStart, run_bind_of_ok added]
    rfl
  · exact Heap.mem_change.mpr (Heap.mem_change.mpr held)
  · intro ref member
    rw [List.mem_singleton.mp member]
    exact Heap.mem_add.mpr (Or.inr rfl)
  · rw [List.map_singleton, value]
  · rw [content]
  · rw [content, Heap.entries, List.map_singleton, value]
    rfl
  · rw [content, Heap.flagged, List.filter_singleton, value]
    rfl
  · rw [content]
  · refine ⟨Heap.changesOnly_add _ _, ?_, rfl, rfl⟩
    exact (Heap.changesOnly_change _ _ _).trans (Heap.changesOnly_change _ _ _)

/-- Entering states of new names adds them at the end of the fragment. -/
theorem holds_enterAll (holds : store.Holds automaton refs left alphabet)
    (addedHeld : ∀ ref ∈ added, ref ∈ store.states)
    (values : added.map store.states.get = right.states)
    (apart : (left.names ++ right.names).Nodup) :
    (store.changeAutomaton automaton (·.enterAll store.states added)).Holds automaton
      (refs ++ added) (left.merge right) alphabet := by
  have names : added.map (fun ref => (store.states.get ref).name) = right.names := by
    rw [Fragment.names, ← values, List.map_map]
    rfl
  have ownedApart : ((store.automata.get automaton).owned.keys ++
      added.map fun ref => (store.states.get ref).name).Nodup := by
    rw [holds.ownedKeys, names]
    exact apart
  have acceptingApart : ((store.automata.get automaton).accepting.keys ++
      added.map fun ref => (store.states.get ref).name).Nodup := by
    rw [holds.acceptingKeys, names]
    exact apart.sublist ((List.filter_sublist.map _).append_right _)
  have content : (store.automata.change automaton (·.enterAll store.states added)).get automaton =
      (store.automata.get automaton).enterAll store.states added :=
    Heap.get_change_self holds.held _
  refine ⟨⟨Heap.mem_change.mpr holds.held, ?_, ?_, ?_, ?_⟩, ?_, ?_⟩
  · exact List.forall_mem_append.mpr ⟨holds.refsHeld, addedHeld⟩
  · rw [Store.states_changeAutomaton, List.map_append, holds.states, values]
    rfl
  · rw [Store.automata_changeAutomaton, content, Automaton.start_enterAll]
    exact holds.start
  · rw [Store.automata_changeAutomaton, content, Automaton.owned_enterAll ownedApart, holds.owned]
    exact (List.map_append ..).symm
  · rw [Store.automata_changeAutomaton, content, Automaton.accepting_enterAll acceptingApart,
      holds.accepting, Store.states_changeAutomaton, Heap.flagged_append]
    exact (List.map_append ..).symm
  · rw [Store.automata_changeAutomaton, content, Automaton.alphabet_enterAll]
    exact holds.alphabet

/-- A further state of a new name is added at the end of the fragment. -/
theorem run_addState_holds (holds : store.Holds automaton refs fragment alphabet)
    (state : State) (unused : state.name ∉ fragment.names) :
    ∃ after, (addState automaton state).run store = .ok store.states.fresh after ∧
      after.Holds automaton (refs ++ [store.states.fresh])
        (fragment.merge { start := state.name, states := [state] }) alphabet ∧
      store.ChangesOnly after [] [automaton] := by
  have ownedUnused : state.name ∉ (store.automata.get automaton).owned.keys := by
    rw [holds.ownedKeys]
    exact unused
  have ran := (run_addState store automaton state).trans (if_neg ownedUnused)
  have value : (store.states.add state).get store.states.fresh = state := Heap.get_add_fresh _ _
  have holdsAdded : Store.Holds { store with states := store.states.add state } automaton refs
      fragment alphabet := by
    refine holds.congr ⟨holds.held, rfl⟩ fun ref member => ⟨?_, ?_⟩
    · exact Heap.mem_add.mpr (Or.inl (holds.refsHeld ref member))
    · exact Heap.get_add_of_mem (holds.refsHeld ref member)
  have entered : (Store.changeAutomaton { store with states := store.states.add state } automaton
      (·.enterAll (store.states.add state) [store.states.fresh])).Holds automaton
        (refs ++ [store.states.fresh])
        (fragment.merge { start := state.name, states := [state] }) alphabet := by
    apply holds_enterAll holdsAdded
    · intro ref member
      rw [List.mem_singleton.mp member]
      exact Heap.mem_add.mpr (Or.inr rfl)
    · rw [List.map_singleton, value]
    · refine List.nodup_append.mpr ⟨holds.nodup_names, List.nodup_singleton _, ?_⟩
      intro name member other single same
      rw [same, List.mem_singleton.mp single] at member
      exact unused member
  have single : (fun content : Automaton =>
      content.enterAll (store.states.add state) [store.states.fresh]) =
        (·.enter store.states.fresh state) := by
    funext content
    change content.enter _ ((store.states.add state).get store.states.fresh) = _
    rw [value]
  rw [single] at entered
  refine ⟨_, ran, entered, ?_⟩
  exact ⟨Heap.changesOnly_add _ _, Heap.changesOnly_change _ _ _, rfl, rfl⟩

/-- Owning the states of another automaton adds its fragment. -/
theorem run_adopt_holds (holds : store.Holds first firstRefs left alphabet)
    (bears : store.Bears second secondRefs right)
    (disjoint : left.names.Disjoint right.names) :
    ∃ after, (adopt first secondRefs).run store = .ok () after ∧
      after.Holds first (firstRefs ++ secondRefs) (left.merge right) alphabet ∧
      store.ChangesOnly after [] [first] := by
  have apart : (left.names ++ right.names).Nodup :=
    holds.nodup_names.append bears.nodup_names disjoint
  have ownedApart : ((store.automata.get first).owned.keys ++
      secondRefs.map fun ref => (store.states.get ref).name).Nodup := by
    rw [holds.ownedKeys, bears.names]
    exact apart
  refine ⟨_, run_adopt holds.held ownedApart, ?_, ?_⟩
  · exact holds_enterAll holds bears.refsHeld bears.states apart
  · exact ⟨.refl _ _, Heap.changesOnly_change _ _ _, rfl, rfl⟩

/-- A transition from the first state of a fragment changes that state alone. -/
theorem run_connect_holds {start : StateRef} {name : String} {state : State} {rest : List State}
    (holds : store.Holds automaton (start :: refs) { start := name, states := state :: rest }
      alphabet)
    {symbol : String} (proper : IsSymbol symbol)
    (target : StateRef) :
    ∃ after, (connect symbol start target).run store = .ok () after ∧
      after.Holds automaton (start :: refs)
        { start := name
          states := state.connect symbol (store.states.get target).name :: rest } alphabet ∧
      store.ChangesOnly after [start] [] := by
  have ran := (run_connect store symbol start target).trans
    ((run_connectToName store start symbol _).trans (if_pos proper))
  have ⟨first, later⟩ := List.cons.inj holds.states
  have startHeld := holds.refsHeld start List.mem_cons_self
  have startValue := Heap.get_change_self startHeld
    (·.connect symbol (store.states.get target).name)
  have otherValue : ∀ ref ∈ refs, (store.states.change start
      (·.connect symbol (store.states.get target).name)).get ref = store.states.get ref := by
    intro ref member
    have apart : ref ≠ start := by
      intro same
      rw [same] at member
      exact (List.nodup_cons.mp holds.distinct).1 member
    exact Heap.get_change_of_ne apart _
  refine ⟨_, ran, ?_, Heap.changesOnly_change _ _ _, .refl _ _, rfl, rfl⟩
  apply holds.changeStates
  · exact fun ref member => Heap.mem_change.mpr (holds.refsHeld ref member)
  · exact fun ref _ => Heap.name_get_change _ (State.name_connect · symbol _) start ref
  · refine List.forall_mem_cons.mpr ⟨?_, fun ref member => ?_⟩
    · rw [startValue, State.accepting_connect]
    · rw [otherValue ref member]
  · rw [List.map_cons, startValue, first, List.map_congr_left otherValue, later]
  · rfl

/-- The first state of a fragment is made to lead on silently to two starts. -/
theorem run_fork_holds {start : StateRef} {name : String} {state : State} {rest : List State}
    (holds : store.Holds automaton (start :: refs) { start := name, states := state :: rest }
      alphabet)
    (bearsFirst : store.Bears first firstRefs left)
    (bearsSecond : store.Bears second secondRefs right)
    (leftStart : left.start ∈ left.names) (rightStart : right.start ∈ right.names)
    (apart : start ∉ secondRefs) :
    ∃ after, (∀ {α : Type} (next : Action α),
        (do
          connect epsilon start (← startOf first)
          connect epsilon start (← startOf second)
          next).run store = next.run after) ∧
      after.Holds automaton (start :: refs)
        { start := name, states := state.branch [left.start, right.start] :: rest } alphabet ∧
      store.ChangesOnly after [start] [] := by
  obtain ⟨leftEntry, _, leftNamed, leftFound⟩ := bearsFirst.run_startOf leftStart
  obtain ⟨middle, connectedLeft, holdsMiddle, changesLeft⟩ :=
    run_connect_holds holds isSymbol_epsilon leftEntry
  have secondKept : middle.Bears second secondRefs right := by
    apply bearsSecond.changesOnly changesLeft List.not_mem_nil
    intro ref member single
    rw [List.mem_singleton.mp single] at member
    exact apart member
  obtain ⟨rightEntry, _, rightNamed, rightFound⟩ := secondKept.run_startOf rightStart
  obtain ⟨after, connectedRight, holdsAfter, changesRight⟩ :=
    run_connect_holds holdsMiddle isSymbol_epsilon rightEntry
  rw [leftNamed, rightNamed] at holdsAfter
  refine ⟨after, fun next => ?_, holdsAfter, changesLeft.trans changesRight⟩
  rw [run_bind_of_ok leftFound, run_bind_of_ok connectedLeft, run_bind_of_ok rightFound,
    run_bind_of_ok connectedRight]

/-- Handing acceptance over leaves an automaton without accepting states. -/
theorem run_handOver_holds (bears : store.Bears automaton refs fragment)
    (marks : store.Marks automaton refs) (entry : StateRef) :
    ∃ after, ((store.automata.get automaton).accepting.values.forM fun state => do
        demote automaton state
        connect epsilon state entry).run store = .ok () after ∧
      after.Holds automaton refs (fragment.handOver (store.states.get entry).name)
        (store.automata.get automaton).alphabet ∧
      store.ChangesOnly after refs [automaton] := by
  have value := Heap.get_handOver bears.refsHeld bears.distinct (store.states.get entry).name
  have inRefs : ∀ ref ∈ refs, (store.states.handOver refs (store.states.get entry).name).get ref =
      (store.states.get ref).handOver (store.states.get entry).name := by
    intro ref member
    rw [value, if_pos member]
  have handed := run_handOver automaton entry (store.automata.get automaton).accepting.values store
  rw [Heap.changeAll_perm marks.values, ← Heap.handOver] at handed
  generalize demoted : (store.automata.get automaton).accepting.values.map
    (fun ref => (store.states.get ref).name) = names at handed
  have content : (store.automata.change automaton (·.withdrawAll names)).get automaton =
      (store.automata.get automaton).withdrawAll names :=
    Heap.get_change_self bears.held _
  refine ⟨_, handed, ⟨⟨?_, ?_, ?_, ?_, ?_⟩, ?_, ?_⟩, ?_⟩
  · exact Heap.mem_change.mpr bears.held
  · exact fun ref member => store.states.mem_handOver.mpr (bears.refsHeld ref member)
  · rw [Fragment.handOver, ← bears.states, List.map_map]
    exact List.map_congr_left inRefs
  · rw [content]
    exact bears.start
  · rw [content]
    refine bears.owned.trans (Heap.entries_congr fun ref member => ?_).symm
    exact (congrArg State.name (inRefs ref member)).trans (State.name_handOver _ _)
  · have none : (store.states.handOver refs (store.states.get entry).name).flagged refs = [] := by
      apply List.filter_eq_nil_iff.mpr
      intro ref member
      rw [inRefs ref member, State.accepting_handOver]
      exact Bool.false_ne_true
    have gone : ((store.automata.get automaton).withdrawAll names).accepting.entries = [] := by
      rw [Automaton.withdrawAll, Table.entries_foldl_erase, ← demoted]
      apply List.filter_eq_nil_iff.mpr
      intro entry member
      have inside : entry.2 ∈ (store.automata.get automaton).accepting.values :=
        List.mem_map_of_mem member
      have taken := List.mem_map_of_mem (f := fun ref => (store.states.get ref).name) inside
      rw [marks.named member] at taken
      simpa using taken
    rw [content, gone, none]
    rfl
  · rw [content]
    rfl
  · refine ⟨?_, Heap.changesOnly_change _ _ _, rfl, rfl⟩
    intro ref member
    refine ⟨store.states.mem_handOver.mpr member, fun outside => ?_⟩
    exact (value ref).trans (if_neg outside)

/-- Appending one borne fragment to another gives their concatenation, in the states of
both. -/
theorem run_append_holds (bearsFirst : store.Bears first firstRefs left)
    (marks : store.Marks first firstRefs) (bearsSecond : store.Bears second secondRefs right)
    (leftStart : left.start ∈ left.names) (rightStart : right.start ∈ right.names)
    (disjoint : left.names.Disjoint right.names) :
    ∃ after, (append first second).run store = .ok () after ∧
      after.Holds first (firstRefs ++ secondRefs) (left.concat right)
        (store.automata.get first).alphabet ∧
      store.ChangesOnly after firstRefs [first] := by
  have refsApart : firstRefs.Disjoint secondRefs := bearsFirst.disjoint bearsSecond disjoint
  have apart : first ≠ second := bearsFirst.ne bearsSecond leftStart disjoint
  obtain ⟨entry, _, entryNamed, started⟩ := bearsSecond.run_startOf rightStart
  obtain ⟨middle, handed, holdsMiddle, changes⟩ :=
    run_handOver_holds bearsFirst marks entry
  rw [entryNamed] at holdsMiddle
  have secondKept : middle.Bears second secondRefs right :=
    bearsSecond.changesOnly changes (fun member => apart (List.mem_singleton.mp member).symm)
      fun ref inSecond inFirst => refsApart inFirst inSecond
  obtain ⟨after, adopted, holdsAfter, adoptChanges⟩ :=
    run_adopt_holds holdsMiddle secondKept (left.names_handOver _ ▸ disjoint)
  refine ⟨after, ?_, holdsAfter, ?_⟩
  · rw [append, run_bind_of_ok started, run_bind_of_ok (run_acceptingIn store first),
      run_bind_of_ok handed, run_bind_of_ok (run_ownedBy middle second), secondKept.ownedValues]
    exact adopted
  · exact changes.trans (adoptChanges.mono (List.nil_subset _) (List.Subset.refl _))

/-- Repetition surrounds the start with the states entered as accepting. -/
theorem run_repetition_of_start {start : StateRef}
    (found : (startOf automaton).run store = .ok start store) :
    (repetition automaton).run store = .ok automaton { store with
      states := store.states.surround start (store.automata.get automaton).accepting.values } := by
  rw [repetition, run_bind_of_ok found, run_bind_of_ok (run_acceptingIn store automaton),
    run_bind_of_ok (run_surround start _ store)]
  rfl

/-- Repetition makes of each state what the fragment repeated makes of it. -/
theorem run_repetition_around (bears : store.Bears automaton refs fragment)
    (marks : store.Marks automaton refs) (started : fragment.start ∈ fragment.names) :
    ∃ states, (repetition automaton).run store = .ok automaton { store with states } ∧
      (∀ ref ∈ refs, states.get ref = fragment.around (store.states.get ref)) ∧
      store.states.ChangesOnly states refs := by
  obtain ⟨start, startIn, startNamed, found⟩ := bears.run_startOf started
  have inRefs {ref : StateRef} :
      ref ∈ (store.automata.get automaton).accepting.values ↔ ref ∈ store.states.flagged refs :=
    marks.values.mem_iff
  have acceptingHeld : ∀ ref ∈ (store.automata.get automaton).accepting.values,
      ref ∈ store.states := fun ref member =>
    bears.refsHeld ref (store.states.flagged_subset refs (inRefs.mp member))
  have acceptingDistinct : (store.automata.get automaton).accepting.values.Nodup :=
    marks.values.nodup_iff.mpr (bears.distinct.filter _)
  have value := Heap.get_surround (bears.refsHeld start startIn) acceptingHeld acceptingDistinct
  simp only [State.branch_perm _ (bears.markedNames marks), startNamed] at value
  refine ⟨_, run_repetition_of_start found, fun ref member => ?_, fun ref member => ?_⟩
  · have atStart : ref = start ↔ (store.states.get ref).name = fragment.start := by
      rw [← startNamed, bears.name_eq_iff member startIn]
    have accepts : ref ∈ store.states.flagged refs ↔ (store.states.get ref).accepting = true := by
      rw [Heap.flagged, List.mem_filter]
      exact and_iff_right member
    rw [value, Fragment.around]
    simp only [atStart, inRefs, accepts]
  · refine ⟨store.states.mem_surround.mpr member, fun outside => ?_⟩
    have notStart : ref ≠ start := fun same => outside (same ▸ startIn)
    have notAccepting : ref ∉ (store.automata.get automaton).accepting.values := fun inside =>
      outside (store.states.flagged_subset refs (inRefs.mp inside))
    rw [value]
    simp only [notStart, notAccepting, if_false]

/-- Repetition gives the fragment repeated, in the same states. -/
theorem run_repetition_bears (bears : store.Bears automaton refs fragment)
    (marks : store.Marks automaton refs) (started : fragment.start ∈ fragment.names) :
    ∃ states, (repetition automaton).run store = .ok automaton { store with states } ∧
      ({ store with states } : Store).Bears automaton refs fragment.star ∧
      (∀ ref ∈ refs, (states.get ref).accepting = (store.states.get ref).accepting) ∧
      store.states.ChangesOnly states refs := by
  obtain ⟨states, ran, around, changes⟩ := run_repetition_around bears marks started
  refine ⟨states, ran, ?_, fun ref member => ?_, changes⟩
  · apply bears.changeStates
    · exact fun ref member => (changes ref (bears.refsHeld ref member)).1
    · intro ref member
      rw [around ref member, Fragment.name_around]
    · rw [Fragment.star, ← bears.states, List.map_map]
      exact List.map_congr_left around
    · rfl
  · rw [around ref member, Fragment.accepting_around]

theorem run_repetition_holds (holds : store.Holds automaton refs fragment alphabet)
    (started : fragment.start ∈ fragment.names) :
    ∃ after, (repetition automaton).run store = .ok automaton after ∧
      after.Holds automaton refs fragment.star alphabet ∧ store.ChangesOnly after refs [] := by
  obtain ⟨states, ran, repeated, flagged, changes⟩ :=
    run_repetition_bears holds.toBears holds.marks started
  exact ⟨_, ran, holds.ofBears repeated flagged, changes, .refl _ _, rfl, rfl⟩

end Action

end PatternAutomata
