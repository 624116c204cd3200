import PatternAutomata.Proofs.Operands

/-! # Concatenation

Concatenation takes the acceptance from the accepting states of its first operand, leads them on
silently to the start of the second, and makes the first own the states of the second. As long as no
state of one operand has the name of one of the other, the first operand then accepts exactly what
it accepted before followed by what the second accepts (`Store.concatenation_exact`), whatever
transitions lead around in them. The second operand is left as it was.
-/

namespace PatternAutomata

namespace Store

variable {store after : Store} {first second : AutomatonRef} {firstRefs secondRefs : List StateRef}
  {left right : Fragment}

/-- Of the states of a concatenation those of its second part alone accept. -/
theorem Bears.flagged_concat
    (bears : after.Bears first (firstRefs ++ secondRefs) (left.concat right))
    (length : firstRefs.length = left.states.length) :
    after.states.flagged (firstRefs ++ secondRefs) = after.states.flagged secondRefs := by
  have states : firstRefs.map after.states.get ++ secondRefs.map after.states.get =
      left.states.map (State.handOver right.start) ++ right.states :=
    List.map_append.symm.trans bears.states
  have handed : firstRefs.map after.states.get = left.states.map (State.handOver right.start) := by
    refine (List.append_inj states ?_).1
    rw [List.length_map, List.length_map, length]
  have none : after.states.flagged firstRefs = [] := by
    apply List.filter_eq_nil_iff.mpr
    intro ref member
    have value : after.states.get ref ∈ left.states.map (State.handOver right.start) :=
      handed ▸ List.mem_map_of_mem member
    obtain ⟨state, _, same⟩ := List.mem_map.mp value
    rw [← same, State.accepting_handOver]
    exact Bool.false_ne_true
  rw [Heap.flagged_append, none, List.nil_append]

/-- **Concatenation is exact.** Of two coherent automata without a common name the first is given
back. It then accepts exactly what it accepted followed by what the second accepts, with exactly the
accepting states of the second entered as accepting, in their order; and the second accepts what it
accepted before. -/
theorem concatenation_exact (store : Store) (first second : AutomatonRef)
    (coherentFirst : store.Coherent first) (coherentSecond : store.Coherent second)
    (apart : ∀ name ∈ (store.machine first).states.keys,
      name ∉ (store.machine second).states.keys) :
    ∃ after, store.perform (.concatenation first second) = (.ok (.automaton first), after) ∧
      after.Decides first ((store.machine first).language * (store.machine second).language) ∧
      (after.automata.get first).accepting.entries =
        ((store.automata.get second).owned.entries.filter fun entry =>
          (store.states.get entry.2).accepting) ∧
      after.Decides second (store.machine second).language := by
  obtain ⟨left, bearsFirst, leftSound⟩ := coherentFirst.exists_fragment
  obtain ⟨right, bearsSecond, rightSound⟩ := coherentSecond.exists_fragment
  have disjoint := bearsFirst.disjoint_names bearsSecond apart
  obtain ⟨after, appended, holds, changes⟩ :=
    Action.run_append_holds bearsFirst (coherentFirst.marks bearsFirst) bearsSecond leftSound.start
      rightSound.start disjoint
  have refsApart := bearsFirst.disjoint bearsSecond disjoint
  have ne := bearsFirst.ne bearsSecond leftSound.start disjoint
  have bearsAfter : after.Bears second _ right :=
    bearsSecond.changesOnly changes (fun single => ne (List.mem_singleton.mp single).symm)
      fun ref inSecond inFirst => refsApart inFirst inSecond
  have ran : (Action.concatenation first second).run store = .ok first after :=
    Action.run_bind_of_ok appended
  refine ⟨after, perform_of_ok rfl ran, ?_, ?_, ?_⟩
  · have decides := holds.decides (Fragment.sound_concat leftSound rightSound disjoint)
    rw [Fragment.passages_concat leftSound rightSound disjoint] at decides
    rw [bearsFirst.presents.language_eq leftSound, bearsSecond.presents.language_eq rightSound]
    exact decides
  · have length : (store.automata.get first).owned.values.length = left.states.length := by
      rw [← bearsFirst.states, List.length_map]
    have kept : ∀ ref ∈ (store.automata.get second).owned.values,
        after.states.get ref = store.states.get ref := fun ref member =>
      (changes.states ref (bearsSecond.refsHeld ref member)).2 fun inFirst =>
        refsApart inFirst member
    rw [holds.accepting, holds.flagged_concat length, Heap.entries_flagged_congr kept]
    exact bearsSecond.entries_flagged
  · rw [bearsSecond.presents.language_eq rightSound]
    exact bearsAfter.decides rightSound

/-- Both operands go round in circles through their starts. -/
theorem concatenation_exact_circles :
    let commands : List Command :=
      [.newAutomaton none [], .addStart ⟨0⟩ (.text "p"), .addAccepting ⟨0⟩ (.text "q"),
        .connect (.text "a") ⟨0⟩ ⟨1⟩, .connect (.text "a") ⟨1⟩ ⟨0⟩,
        .newAutomaton none [], .addStart ⟨1⟩ (.text "r"), .addAccepting ⟨1⟩ (.text "s"),
        .connect (.text "b") ⟨2⟩ ⟨3⟩, .connect (.text "b") ⟨3⟩ ⟨2⟩]
    let store := run {} commands
    store.Coherent ⟨0⟩ ∧ store.Coherent ⟨1⟩ ∧
      ∃ after, store.perform (.concatenation (some ⟨0⟩) ⟨1⟩) = (.ok (.automaton ⟨0⟩), after) ∧
        after.perform (.accepts ⟨0⟩ ['a', 'b']) = (.ok (.truth true), after) ∧
        after.perform (.accepts ⟨1⟩ ['b']) = (.ok (.truth true), after) := by
  intro commands store
  have admitted : Admits {} commands := by decide
  have first : store.Coherent ⟨0⟩ := (usable_run admitted (by decide)).coherent (by decide)
  have second : store.Coherent ⟨1⟩ := (usable_run admitted (by decide)).coherent (by decide)
  obtain ⟨after, performed, joined, _, kept⟩ :=
    concatenation_exact store ⟨0⟩ ⟨1⟩ first second (by decide)
  have acceptedFirst : (store.machine ⟨0⟩).accepts ['a'] = .ok true := by decide
  have acceptedSecond : (store.machine ⟨1⟩).accepts ['b'] = .ok true := by decide
  have both : ['a'] ++ ['b'] ∈ (store.machine ⟨0⟩).language * (store.machine ⟨1⟩).language :=
    Language.append_mem_mul acceptedFirst acceptedSecond
  obtain ⟨_, answered, decides⟩ := joined ['a', 'b']
  rw [decides.mpr both] at answered
  obtain ⟨_, answeredSecond, decidesSecond⟩ := kept ['b']
  rw [decidesSecond.mpr acceptedSecond] at answeredSecond
  exact ⟨first, second, after, performed, answered, answeredSecond⟩

end Store

end PatternAutomata
