import PatternAutomata.Proofs.Store.Edits
import PatternAutomata.Proofs.Store.Loops

/-! # Loops that stop

A loop over a list stops at the first item at which its body fails, and what it has done for the
items before stays done (`Action.run_forM_eq_error_iff`). Adopting states is such a loop. Where it
goes through, the automaton owns what it owned and the states besides
(`Action.mem_owned_of_run_adopt`); where it stops, it has done what adopting the states before the
one that clashes does (`Action.run_adopt_eq_error_iff`).
-/

namespace PatternAutomata

/-- A state clashes behind others if another one has its name and is owned already, or is one of
those before it. -/
def Store.ClashesBehind (store : Store) (automaton : AutomatonRef) (earlier : List StateRef)
    (ref : StateRef) : Prop :=
  ∃ other ≠ ref,
    ((store.states.get ref).name, other) ∈ (store.automata.get automaton).owned.entries ∨
      other ∈ earlier ∧ (store.states.get other).name = (store.states.get ref).name

namespace Automaton

variable {automaton : Automaton} {states : Heap State} {ref : StateRef}

theorem clashes_iff {name : String} :
    automaton.clashes ref name = true ↔
      ∃ other ≠ ref, (name, other) ∈ automaton.owned.entries := by
  simp only [clashes, ← Table.find?_eq_some_iff]
  cases automaton.owned.find? name with
  | none => simp
  | some owner => simp

/-- Entering a state that does not clash makes it owned and takes nothing away. -/
theorem mem_owned_enter_iff {state : State}
    (free : automaton.clashes ref state.name = false) {entry : String × StateRef} :
    entry ∈ (automaton.enter ref state).owned.entries ↔
      entry ∈ automaton.owned.entries ∨ entry = (state.name, ref) := by
  have entered := automaton.mem_owned_enter ref state
  rcases entries_enter free with same | added
  · rw [same] at entered ⊢
    exact (or_iff_left_of_imp fun equal => equal ▸ entered).symm
  · rw [added, List.mem_append, List.mem_singleton]

/-- It makes it accepting too if its flag says so, and takes nothing away there either. -/
theorem mem_accepting_enter_iff {state : State}
    (free : automaton.clashes ref state.name = false)
    (accepted : automaton.accepting.entries ⊆ automaton.owned.entries)
    {entry : String × StateRef} :
    entry ∈ (automaton.enter ref state).accepting.entries ↔
      entry ∈ automaton.accepting.entries ∨
        state.accepting = true ∧ entry = (state.name, ref) := by
  unfold enter
  split
  · rename_i flag
    constructor
    · intro member
      exact (Table.mem_entries_insert member).elim (fun same => Or.inr ⟨flag, same⟩) Or.inl
    · obtain ⟨name, owner⟩ := entry
      rw [← Table.find?_eq_some_iff, ← Table.find?_eq_some_iff, Table.find?_insert]
      rintro (before | ⟨_, same⟩)
      · by_cases named : name = state.name
        · subst named
          have owned := accepted (Table.find?_eq_some_iff.mp before)
          rw [if_pos rfl, find?_of_free free (Table.find?_eq_some_iff.mpr owned)]
        · rwa [if_neg named]
      · obtain ⟨rfl, rfl⟩ := Prod.mk.inj same
        exact if_pos rfl
  · rename_i unflagged
    exact (or_iff_left fun both => unflagged both.1).symm

end Automaton

namespace Action

/-- Doing something with a result does not fail by itself. -/
theorem run_return_eq_error_iff {α β : Type} {action : Action α} (value : α → β)
    {store after : Store} {fault : Fault} :
    (do return value (← action) : Action β).run store = .error fault after ↔
      action.run store = .error fault after := by
  cases ran : action.run store with
  | ok result middle =>
      rw [run_bind_of_ok ran]
      simp only [EStateM.run_pure, reduceCtorEq]
  | error other middle =>
      rw [run_bind_of_error ran]
      simp only [EStateM.Result.error.injEq]

section Loops

variable {α : Type} {body : α → Action Unit} {item : α} {items : List α} {store after : Store}
  {fault : Fault}

theorem run_forM_cons_error (failed : (body item).run store = .error fault after) :
    ((item :: items).forM body).run store = .error fault after :=
  run_bind_of_error failed

/-- A loop fails where its body fails at some item, behind items for which it went through. -/
theorem run_forM_eq_error_iff :
    (items.forM body).run store = .error fault after ↔
      ∃ earlier item later middle, items = earlier ++ item :: later ∧
        (earlier.forM body).run store = .ok () middle ∧
        (body item).run middle = .error fault after := by
  induction items generalizing store with
  | nil =>
      refine ⟨fun failed => ?_, fun given => ?_⟩
      · cases failed
      · obtain ⟨earlier, item, later, _, split, _⟩ := given
        exact absurd split.symm (List.append_ne_nil_of_right_ne_nil _ (List.cons_ne_nil _ _))
  | cons first items ih =>
      cases ran : (body first).run store with
      | ok _ middle =>
          rw [run_forM_cons ran, ih]
          constructor
          · rintro ⟨earlier, item, later, last, rfl, went, failed⟩
            exact ⟨first :: earlier, item, later, last, rfl, (run_forM_cons ran).trans went, failed⟩
          · rintro ⟨earlier, item, later, last, split, went, failed⟩
            cases earlier with
            | nil =>
                obtain ⟨rfl, rfl⟩ := List.cons.inj split
                cases went
                cases ran.symm.trans failed
            | cons next earlier =>
                obtain ⟨rfl, rfl⟩ := List.cons.inj split
                rw [run_forM_cons ran] at went
                exact ⟨earlier, item, later, last, rfl, went, failed⟩
      | error _ left =>
          rw [run_forM_cons_error ran]
          constructor
          · intro failed
            exact ⟨[], first, items, store, rfl, rfl, ran.trans failed⟩
          · rintro ⟨earlier, item, later, last, split, went, failed⟩
            cases earlier with
            | nil =>
                obtain ⟨rfl, rfl⟩ := List.cons.inj split
                cases went
                exact ran.symm.trans failed
            | cons next earlier =>
                obtain ⟨rfl, _⟩ := List.cons.inj split
                rw [run_forM_cons_error ran] at went
                cases went

/-- A loop fails if and only if its body does at some item, or would as far as it gets there. -/
theorem forM_fails_iff {offends : List α → α → Prop}
    (fails : ∀ {earlier item middle}, (earlier.forM body).run store = .ok () middle →
      ((∃ fault after, (body item).run middle = .error fault after) ↔ offends earlier item)) :
    (∃ fault after, (items.forM body).run store = .error fault after) ↔
      ∃ earlier item later, items = earlier ++ item :: later ∧ offends earlier item := by
  constructor
  · rintro ⟨fault, after, failed⟩
    obtain ⟨earlier, item, later, middle, split, went, stopped⟩ := run_forM_eq_error_iff.mp failed
    exact ⟨earlier, item, later, split, (fails went).mp ⟨fault, after, stopped⟩⟩
  · rintro ⟨earlier, item, later, rfl, offends⟩
    cases went : (earlier.forM body).run store with
    | ok _ middle =>
        obtain ⟨fault, after, stopped⟩ := (fails went).mpr offends
        exact ⟨fault, after,
          run_forM_eq_error_iff.mpr ⟨earlier, item, later, middle, rfl, went, stopped⟩⟩
    | error fault after =>
        obtain ⟨first, culprit, second, middle, rfl, started, stopped⟩ :=
          run_forM_eq_error_iff.mp went
        refine ⟨fault, after, run_forM_eq_error_iff.mpr
          ⟨first, culprit, second ++ item :: later, middle, ?_, started, stopped⟩⟩
        rw [List.append_assoc, List.cons_append]

end Loops

section Adopting

variable {store after : Store} {automaton : AutomatonRef} {refs : List StateRef} {ref : StateRef}
  {fault : Fault}

theorem run_claim_eq_ok_iff :
    (claim automaton ref).run store = .ok () after ↔
      (store.automata.get automaton).clashes ref (store.states.get ref).name = false ∧
        after = store.changeAutomaton automaton (·.enter ref (store.states.get ref)) := by
  rw [run_claim]
  split
  · simp [*]
  · simp [*, eq_comm]

theorem run_claim_eq_error_iff :
    (claim automaton ref).run store = .error fault after ↔
      (store.automata.get automaton).clashes ref (store.states.get ref).name = true ∧
        fault = .duplicateState (store.states.get ref).name ∧ after = store := by
  rw [run_claim]
  split
  · simp [*, eq_comm]
  · simp [*]

/-- Adopting that goes through enters the states one after another. -/
theorem store_of_run_adopt (ran : (adopt automaton refs).run store = .ok () after) :
    after = store.changeAutomaton automaton (·.enterAll store.states refs) := by
  induction refs generalizing store with
  | nil =>
      cases ran
      exact (Store.changeAutomaton_id _ automaton).symm
  | cons ref refs ih =>
      cases claimed : (claim automaton ref).run store with
      | error _ left =>
          rw [adopt, run_forM_cons_error claimed] at ran
          cases ran
      | ok _ middle =>
          rw [adopt, run_forM_cons claimed] at ran
          obtain ⟨_, rfl⟩ := run_claim_eq_ok_iff.mp claimed
          rw [ih ran, Store.changeAutomaton, Store.changeAutomaton, Heap.change_change]
          rfl

/-- Where adopting goes through, the automaton owns what it owned and the states besides. -/
theorem mem_owned_of_run_adopt (held : automaton ∈ store.automata)
    (ran : (adopt automaton refs).run store = .ok () after) {entry : String × StateRef} :
    entry ∈ (after.automata.get automaton).owned.entries ↔
      entry ∈ (store.automata.get automaton).owned.entries ∨
        entry ∈ store.states.entries refs := by
  induction refs generalizing store with
  | nil =>
      cases ran
      exact (or_iff_left List.not_mem_nil).symm
  | cons ref refs ih =>
      cases claimed : (claim automaton ref).run store with
      | error _ left =>
          rw [adopt, run_forM_cons_error claimed] at ran
          cases ran
      | ok _ middle =>
          rw [adopt, run_forM_cons claimed] at ran
          obtain ⟨free, rfl⟩ := run_claim_eq_ok_iff.mp claimed
          rw [ih (Heap.mem_change.mpr held) ran, Store.automata_changeAutomaton,
            Heap.get_change_self held, Automaton.mem_owned_enter_iff free, or_assoc]
          exact or_congr_right List.mem_cons.symm

/-- Where adopting goes through, those of the states that accept are accepting besides. -/
theorem mem_accepting_of_run_adopt (held : automaton ∈ store.automata)
    (accepted : (store.automata.get automaton).accepting.entries ⊆
      (store.automata.get automaton).owned.entries)
    (ran : (adopt automaton refs).run store = .ok () after) {entry : String × StateRef} :
    entry ∈ (after.automata.get automaton).accepting.entries ↔
      entry ∈ (store.automata.get automaton).accepting.entries ∨
        (store.states.get entry.2).accepting = true ∧ entry ∈ store.states.entries refs := by
  induction refs generalizing store with
  | nil =>
      cases ran
      exact (or_iff_left fun both => absurd both.2 List.not_mem_nil).symm
  | cons ref refs ih =>
      cases claimed : (claim automaton ref).run store with
      | error _ left =>
          rw [adopt, run_forM_cons_error claimed] at ran
          cases ran
      | ok _ middle =>
          rw [adopt, run_forM_cons claimed] at ran
          obtain ⟨free, rfl⟩ := run_claim_eq_ok_iff.mp claimed
          have entered : (((store.changeAutomaton automaton
              (·.enter ref (store.states.get ref))).automata).get automaton) =
                (store.automata.get automaton).enter ref (store.states.get ref) := by
            rw [Store.automata_changeAutomaton, Heap.get_change_self held]
          rw [ih (Heap.mem_change.mpr held) ?_ ran, entered,
            Automaton.mem_accepting_enter_iff free accepted, or_assoc]
          · refine or_congr_right ⟨?_, ?_⟩
            · rintro (⟨flag, rfl⟩ | ⟨flag, member⟩)
              · exact ⟨flag, List.mem_cons_self⟩
              · exact ⟨flag, List.mem_cons_of_mem _ member⟩
            · rintro ⟨flag, member⟩
              rcases List.mem_cons.mp member with rfl | later
              · exact Or.inl ⟨flag, rfl⟩
              · exact Or.inr ⟨flag, later⟩
          · intro own member
            rw [entered] at member ⊢
            rw [Automaton.mem_owned_enter_iff free]
            exact ((Automaton.mem_accepting_enter_iff free accepted).mp member).imp
              (accepted ·) And.right

/-- Where adopting went through, a state clashes if it does behind those that were adopted. -/
theorem clashes_of_run_adopt (held : automaton ∈ store.automata)
    (ran : (adopt automaton refs).run store = .ok () after) :
    (after.automata.get automaton).clashes ref (after.states.get ref).name = true ↔
      store.ClashesBehind automaton refs ref := by
  have states : after.states = store.states := by rw [store_of_run_adopt ran]; rfl
  rw [Automaton.clashes_iff, states, Store.ClashesBehind]
  refine exists_congr fun other => and_congr_right fun _ => ?_
  rw [mem_owned_of_run_adopt held ran, Heap.entries, List.mem_map]
  refine or_congr_right ⟨?_, fun before => ⟨other, before.1, Prod.ext before.2 rfl⟩⟩
  rintro ⟨_, before, same⟩
  obtain ⟨named, rfl⟩ := Prod.mk.inj same
  exact ⟨before, named⟩

/-- **Adopting stops at the first state that clashes**, and leaves what adopting the states
before it does. -/
theorem run_adopt_eq_error_iff (held : automaton ∈ store.automata) :
    (adopt automaton refs).run store = .error fault after ↔
      ∃ earlier ref later, refs = earlier ++ ref :: later ∧
        (adopt automaton earlier).run store = .ok () after ∧
        store.ClashesBehind automaton earlier ref ∧
        fault = .duplicateState (store.states.get ref).name := by
  rw [adopt, run_forM_eq_error_iff]
  constructor
  · rintro ⟨earlier, ref, later, middle, rfl, went, failed⟩
    obtain ⟨clashes, rfl, rfl⟩ := run_claim_eq_error_iff.mp failed
    have states : after.states = store.states := by rw [store_of_run_adopt went]; rfl
    rw [states]
    exact ⟨earlier, ref, later, rfl, went, (clashes_of_run_adopt held went).mp clashes, rfl⟩
  · rintro ⟨earlier, ref, later, rfl, went, clashes, rfl⟩
    have states : after.states = store.states := by rw [store_of_run_adopt went]; rfl
    rw [← states]
    exact ⟨earlier, ref, later, after, rfl, went,
      run_claim_eq_error_iff.mpr ⟨(clashes_of_run_adopt held went).mpr clashes, rfl, rfl⟩⟩

/-- Adopting fails if and only if a state clashes with the owned ones or with one before it. -/
theorem adopt_fails_iff (held : automaton ∈ store.automata) :
    (∃ fault after, (adopt automaton refs).run store = .error fault after) ↔
      ∃ earlier ref later, refs = earlier ++ ref :: later ∧
        store.ClashesBehind automaton earlier ref := by
  refine forM_fails_iff fun {earlier ref middle} went => ?_
  rw [← clashes_of_run_adopt held went]
  constructor
  · rintro ⟨fault, after, failed⟩
    exact (run_claim_eq_error_iff.mp failed).1
  · intro clashes
    exact ⟨_, _, run_claim_eq_error_iff.mpr ⟨clashes, rfl, rfl⟩⟩

end Adopting

end Action

end PatternAutomata
