import PatternAutomata.Proofs.Store.Performing

/-! # Ownership in the course of a run

However automata come to share states, and whichever commands fail, the tables of every
automaton are in step all through a run: what is owned is kept under its own name, what is
entered as accepting is owned, and nothing that is owned is dropped, moved or replaced. A start
that was not told when its automaton was made is unset or owned.

A run may not have an automaton adopt a state that is not there (`Store.Admits`). There is
nothing else that a run could go wrong at: references are stored by adopting only, and those
that are asked or changed without being there read as the default and stay unchanged.
-/

namespace PatternAutomata

/-- A run that has automata adopt only states that are there when their turn comes. -/
def Store.Admits : Store → List Command → Prop
  | _, [] => True
  | store, command :: later =>
      (∀ ref ∈ command.adoptees, ref ∈ store.states) ∧ (store.perform command).2.Admits later

namespace Store

instance Admits.decidable : (store : Store) → (commands : List Command) →
    Decidable (store.Admits commands)
  | _, [] => inferInstanceAs (Decidable True)
  | store, command :: later =>
      have := Admits.decidable (store.perform command).2 later
      inferInstanceAs (Decidable (_ ∧ _))

variable {store after : Store} {command : Command} {commands earlier later : List Command}

/-- Adding an automaton that owns nothing. -/
theorem Grows.addAutomaton (store : Store) {automaton : Automaton} :
    store.Grows { store with automata := store.automata.add automaton } where
  states _ held := ⟨held, rfl⟩
  automata _ held := Heap.mem_add.mpr (Or.inl held)
  owned ref := by
    by_cases same : ref = store.automata.fresh
    · rw [same, Heap.get_of_not_mem store.automata.fresh_not_mem]
      exact List.nil_prefix
    · have kept : (store.automata.add automaton).get ref = store.automata.get ref :=
        Heap.get_add_of_ne same
      exact kept ▸ List.prefix_rfl

namespace Effect

theorem grows (effect : store.Effect command after) : store.Grows after := by
  cases effect with
  | edits edits => exact edits.grows
  | newState state made => exact .addState store state
  | newAutomaton start alphabet made told => exact .addAutomaton store

theorem orderly (effect : store.Effect command after) (orderly : store.Orderly) :
    after.Orderly := by
  cases effect with
  | edits edits => exact edits.orderly orderly
  | newState state made =>
      exact fun ref => (Grows.addState store state).orderly_automaton (orderly ref)
  | newAutomaton start alphabet made told =>
      intro ref
      by_cases same : ref = store.automata.fresh
      · rw [same, Heap.get_add_fresh]
        exact ⟨fun _ => nofun, fun _ => nofun, fun _ => nofun⟩
      · rw [Heap.get_add_of_ne same]
        exact orderly ref

/-- A settled automaton stays settled, also one that is yet to be made and is not told its
start. -/
theorem settled (effect : store.Effect command after) {ref : AutomatonRef}
    (untold : ref ∈ store.automata ∨ command.tellsStart = false)
    (settled : (store.automata.get ref).Settled) : (after.automata.get ref).Settled := by
  cases effect with
  | edits edits => exact edits.settled settled
  | newState state made => exact settled
  | newAutomaton start alphabet made told =>
      by_cases same : ref = store.automata.fresh
      · have fresh : ref ∉ store.automata := same ▸ store.automata.fresh_not_mem
        rw [same, Heap.get_add_fresh, told (untold.resolve_left fresh)]
        exact fun name => nofun
      · rw [Heap.get_add_of_ne same]
        exact settled

end Effect

theorem run_append (store : Store) (earlier later : List Command) :
    store.run (earlier ++ later) = (store.run earlier).run later :=
  List.foldl_append

theorem admits_append :
    store.Admits (earlier ++ later) ↔
      store.Admits earlier ∧ (store.run earlier).Admits later := by
  induction earlier generalizing store with
  | nil => exact iff_of_eq (true_and _).symm
  | cons command earlier ih => exact (and_congr_right fun _ => ih).trans and_assoc.symm

section Running

variable (orderly : store.Orderly) (admitted : store.Admits commands)

include orderly admitted

theorem orderly_run : (store.run commands).Orderly := by
  induction commands generalizing store with
  | nil => exact orderly
  | cons command commands ih =>
      have effect := effect_perform orderly admitted.1
      exact ih (effect.orderly orderly) admitted.2

theorem grows_run : store.Grows (store.run commands) := by
  induction commands generalizing store with
  | nil => exact .refl store
  | cons command commands ih =>
      have effect := effect_perform orderly admitted.1
      exact effect.grows.trans (ih (effect.orderly orderly) admitted.2)

theorem settled_run {ref : AutomatonRef} (held : ref ∈ store.automata)
    (settled : (store.automata.get ref).Settled) :
    ((store.run commands).automata.get ref).Settled := by
  induction commands generalizing store with
  | nil => exact settled
  | cons command commands ih =>
      have effect := effect_perform orderly admitted.1
      exact ih (effect.orderly orderly) admitted.2 (effect.grows.automata ref held)
        (effect.settled (Or.inl held) settled)

end Running

theorem orderly_empty : Orderly {} :=
  fun _ => ⟨fun _ => nofun, fun _ => nofun, fun _ => nofun⟩

/-- **The tables of every automaton are in step all through a run.** At its end, and so at every
point of it, owned states are kept under their own names, and accepting entries are entries of
the owned states; what was owned at any point before stands unchanged at the front of what is
owned at the end; and an automaton made without a start has one that is unset or owned. -/
theorem owned_in_step (earlier later : List Command)
    (admitted : Admits {} (earlier ++ later)) :
    let middle := run {} earlier
    let last := run {} (earlier ++ later)
    (∀ automaton, ∀ entry ∈ (last.automata.get automaton).owned.entries,
        entry.2 ∈ last.states ∧ (last.states.get entry.2).name = entry.1) ∧
      (∀ automaton, (middle.automata.get automaton).owned.entries <+:
        (last.automata.get automaton).owned.entries) ∧
      (∀ automaton, (last.automata.get automaton).accepting.entries ⊆
        (last.automata.get automaton).owned.entries) ∧
      ∀ command rest, later = command :: rest → command.tellsStart = false →
        ∀ automaton ∈ (middle.perform command).2.automata, automaton ∉ middle.automata →
          ∀ name, (last.automata.get automaton).start = some name →
            name ∈ (last.automata.get automaton).owned.keys := by
  intro middle last
  obtain ⟨admittedEarlier, admittedLater⟩ := admits_append.mp admitted
  have middleOrderly : middle.Orderly := orderly_run orderly_empty admittedEarlier
  have lastOrderly : last.Orderly := orderly_run orderly_empty admitted
  have onward : middle.run later = last := (run_append {} earlier later).symm
  refine ⟨fun automaton entry member => ?_, fun automaton => ?_, fun automaton => ?_, ?_⟩
  · exact ⟨(lastOrderly automaton).held entry member, (lastOrderly automaton).named entry member⟩
  · exact onward ▸ (grows_run middleOrderly admittedLater).owned automaton
  · exact (lastOrderly automaton).accepted
  · rintro command rest rfl untold automaton made new
    have effect := effect_perform middleOrderly admittedLater.1
    -- before it is made it reads as an automaton without a start
    have unset : (middle.automata.get automaton).Settled := by
      rw [Heap.get_of_not_mem new]
      exact fun name => nofun
    exact onward ▸ settled_run (effect.orderly middleOrderly) admittedLater.2 made
      (effect.settled (Or.inr untold) unset)

/-- Two automata come to share a state; one of them is led on to the other, and the last command
fails because its states clash. -/
theorem owned_in_step_shared :
    let earlier : List Command :=
      [.newAutomaton none [], .addStart ⟨0⟩ (.text "p"), .addAccepting ⟨0⟩ (.text "q"),
        .newAutomaton none [], .addStart ⟨1⟩ (.text "r"), .adopt ⟨1⟩ [⟨1⟩]]
    let later : List Command :=
      [.concatenation (some ⟨0⟩) ⟨1⟩, .newState (some (.text "p")) true [], .adopt ⟨0⟩ [⟨3⟩]]
    Admits {} (earlier ++ later) ∧
      ((run {} earlier).automata.get ⟨0⟩).owned.entries <+:
        ((run {} (earlier ++ later)).automata.get ⟨0⟩).owned.entries ∧
      ((run {} (earlier ++ later)).automata.get ⟨0⟩).owned.keys = ["p", "q", "r"] ∧
      ((run {} (earlier ++ later)).automata.get ⟨1⟩).accepting.entries ⊆
        ((run {} (earlier ++ later)).automata.get ⟨1⟩).owned.entries := by
  intro earlier later
  have admitted : Admits {} (earlier ++ later) := by decide
  obtain ⟨_, front, accepted, _⟩ := owned_in_step earlier later admitted
  exact ⟨admitted, front ⟨0⟩, by decide, accepted ⟨1⟩⟩

end Store

end PatternAutomata
