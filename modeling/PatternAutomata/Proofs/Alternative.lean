import PatternAutomata.Proofs.Operands

/-! # Alternatives

An alternative is a new automaton, with a new start that leads on silently to the starts of both
operands. It owns the very states of the operands, and adds nothing to them: whatever the store held
is as it was. As long as no two of the names are the same, what leads into one operand never leaves
it, so the alternative accepts exactly what one operand or the other accepts
(`Store.alternative_exact`), even where transitions lead back to a start.
-/

namespace PatternAutomata

namespace Store

variable {store after : Store} {automaton first second : AutomatonRef} {start : StateRef}
  {firstRefs secondRefs : List StateRef} {left right : Fragment} {number : Nat}

/-- An alternative owns its start, and behind it the states of both parts. -/
theorem Bears.owned_alt
    (bears : store.Bears automaton (start :: (firstRefs ++ secondRefs)) (.alt number left right))
    (bearsFirst : store.Bears first firstRefs left)
    (bearsSecond : store.Bears second secondRefs right) :
    (store.automata.get automaton).owned.entries =
      (number.repr, start) :: ((store.automata.get first).owned.entries ++
        (store.automata.get second).owned.entries) := by
  have named : (store.states.get start).name = number.repr := by
    rw [(List.cons.inj bears.states).1, State.name_branch]
  rw [bears.owned, bearsFirst.owned, bearsSecond.owned]
  simp only [Heap.entries, List.map_cons, List.map_append, named]

/-- What a usable automaton is made of is in the store, and is kept with it. -/
theorem Usable.kept (usable : store.Usable automaton) (kept : store.KeptIn after) :
    after.automata.get automaton = store.automata.get automaton ∧
      ∀ ref ∈ (store.automata.get automaton).owned.values,
        after.states.get ref = store.states.get ref := by
  obtain ⟨_, bears, _⟩ := usable.exists_fragment
  exact ⟨(kept.automata automaton bears.held).2, fun ref member =>
    (kept.states ref (bears.refsHeld ref member)).2⟩

/-- **Alternatives are exact and leave their operands alone.** Of two usable automata without a
common name, neither of which owns the next name of the compiler, a new automaton is made. It
accepts exactly what one or the other accepts and owns the very states of both behind a new start;
and both operands, their states and whatever else the store held are as they were. -/
theorem alternative_exact (store : Store) (compiler : CompilerRef) (first second : AutomatonRef)
    (usableFirst : store.Usable first) (usableSecond : store.Usable second)
    (apart : ∀ name ∈ (store.machine first).states.keys,
      name ∉ (store.machine second).states.keys)
    (freshFirst : (store.compilers.get compiler).names.repr ∉ (store.machine first).states.keys)
    (freshSecond :
      (store.compilers.get compiler).names.repr ∉ (store.machine second).states.keys) :
    ∃ automaton after start,
      store.perform (.alternative compiler first second) = (.ok (.automaton automaton), after) ∧
      automaton ∉ store.automata ∧ start ∉ store.states ∧
      after.Decides automaton
        ((store.machine first).language + (store.machine second).language) ∧
      (after.automata.get automaton).owned.entries =
        ((store.compilers.get compiler).names.repr, start) ::
          ((store.automata.get first).owned.entries ++
            (store.automata.get second).owned.entries) ∧
      (∀ operand ∈ [first, second],
        after.automata.get operand = store.automata.get operand ∧
          ∀ ref ∈ (store.automata.get operand).owned.values,
            after.states.get ref = store.states.get ref) ∧
      store.KeptIn after := by
  obtain ⟨left, bearsFirst, leftSound⟩ := usableFirst.exists_fragment
  obtain ⟨right, bearsSecond, rightSound⟩ := usableSecond.exists_fragment
  have disjoint := bearsFirst.disjoint_names bearsSecond apart
  have freshLeft := bearsFirst.presents.mem_keys_iff.not.mp freshFirst
  have freshRight := bearsSecond.presents.mem_keys_iff.not.mp freshSecond
  have unused : (store.compilers.get compiler).names.repr ∉ left.names ++ right.names :=
    fun member => (List.mem_append.mp member).elim freshLeft freshRight
  obtain ⟨automaton, after, start, ran, holds, kept, made, startMade, _⟩ :=
    Action.run_alternative_holds compiler bearsFirst bearsSecond leftSound.start rightSound.start
      disjoint unused
  have keptFirst := usableFirst.kept kept
  have keptSecond := usableSecond.kept kept
  have owned := holds.owned_alt (bearsFirst.kept kept) (bearsSecond.kept kept)
  rw [keptFirst.1, keptSecond.1] at owned
  have decides := holds.decides
    (Fragment.sound_alt leftSound rightSound disjoint freshLeft freshRight)
  rw [Fragment.passages_alt leftSound rightSound disjoint freshLeft freshRight] at decides
  rw [bearsFirst.presents.language_eq leftSound, bearsSecond.presents.language_eq rightSound]
  exact ⟨automaton, after, start, perform_of_ok rfl ran, made, startMade, decides, owned,
    List.forall_mem_cons.mpr ⟨keptFirst, List.forall_mem_singleton.mpr keptSecond⟩, kept⟩

/-- Both operands lead back to their starts. A word that begins in one of them is not finished in
the other. -/
theorem alternative_exact_circles :
    let commands : List Command :=
      [.newAutomaton none [], .addStart ⟨0⟩ (.text "p"), .addAccepting ⟨0⟩ (.text "q"),
        .connect (.text "a") ⟨0⟩ ⟨1⟩, .connect (.text "a") ⟨1⟩ ⟨0⟩,
        .newAutomaton none [], .addStart ⟨1⟩ (.text "r"), .addAccepting ⟨1⟩ (.text "s"),
        .connect (.text "b") ⟨2⟩ ⟨3⟩, .connect (.text "b") ⟨3⟩ ⟨2⟩, .newCompiler []]
    let store := run {} commands
    store.Usable ⟨0⟩ ∧ store.Usable ⟨1⟩ ∧
      ∃ automaton after,
        store.perform (.alternative ⟨0⟩ ⟨0⟩ ⟨1⟩) = (.ok (.automaton automaton), after) ∧
        after.perform (.accepts automaton ['b']) = (.ok (.truth true), after) ∧
        after.perform (.accepts automaton ['a', 'b']) = (.ok (.truth false), after) ∧
        store.KeptIn after := by
  intro commands store
  have admitted : Admits {} commands := by decide
  have first : store.Usable ⟨0⟩ := usable_run admitted (by decide)
  have second : store.Usable ⟨1⟩ := usable_run admitted (by decide)
  obtain ⟨automaton, after, start, performed, _, _, joined, _, _, kept⟩ :=
    alternative_exact store ⟨0⟩ ⟨0⟩ ⟨1⟩ first second (by decide) (by decide) (by decide)
  have accepted : (store.machine ⟨1⟩).accepts ['b'] = .ok true := by decide
  have refusedFirst : (store.machine ⟨0⟩).accepts ['a', 'b'] ≠ .ok true := by decide
  have refusedSecond : (store.machine ⟨1⟩).accepts ['a', 'b'] ≠ .ok true := by decide
  obtain ⟨_, answered, decides⟩ := joined ['b']
  rw [decides.mpr (Or.inr accepted)] at answered
  obtain ⟨answer, answeredBoth, decidesBoth⟩ := joined ['a', 'b']
  have refused : answer = false := Bool.eq_false_of_not_eq_true fun truth =>
    (decidesBoth.mp truth).elim refusedFirst refusedSecond
  rw [refused] at answeredBoth
  exact ⟨first, second, automaton, after, performed, answered, answeredBoth, kept⟩

end Store

end PatternAutomata
