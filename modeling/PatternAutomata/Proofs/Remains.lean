import PatternAutomata.Proofs.Atomicity
import PatternAutomata.Proofs.Growth
import PatternAutomata.Proofs.Repetition
import PatternAutomata.Proofs.Store.Compiling

/-! # What a failed construction leaves

A literal and a repetition that fail leave everything as it was. An alternative that fails has used
up a name and made things of its own, and nothing else shows it (`Action.Keeps`). A concatenation
has handed the acceptance of its first automaton over before it adopts the states of the second
one; it fails where one of these clashes, and what it leaves then is told exactly
(`Store.HalfAppended`).
-/

namespace PatternAutomata

/-- An entry clashes with those owned by an automaton if another state is owned under its name. -/
def Store.Clashes (store : Store) (automaton : AutomatonRef) (entry : String × StateRef) : Prop :=
  ∃ other ≠ entry.2, (entry.1, other) ∈ (store.automata.get automaton).owned.entries

namespace Store

section Noting

variable {store after : Store} {command : Command} {commands : List Command}

theorem Edits.noted (edits : store.Edits after)
    (noted : ∀ ref, ∀ symbol ∈ (store.compilers.get ref).literals, symbol.length = 1) :
    ∀ ref, ∀ symbol ∈ (after.compilers.get ref).literals, symbol.length = 1 := by
  induction edits with
  | refl => exact noted
  | tail _ edit ih => exact edit.noted ih

end Noting

section Handing

variable {store : Store} {first : AutomatonRef}

namespace Orderly

variable (orderly : store.Orderly)
include orderly

end Orderly

end Handing

end Store

namespace Action

section Literals

variable {store after : Store} {compiler : CompilerRef} {symbol : String} {fault : Fault}

end Literals

section Keeping

variable {α β : Type} {base : Store}

/-- An action that keeps what was held, and the compilers, whether it fails or not. -/
def Keeps (base : Store) (action : Action α) : Prop :=
  ∀ store, base.KeptIn store →
    base.KeptIn (ending action store) ∧ (ending action store).compilers = store.compilers

theorem Reads.keeps {action : Action α} (reads : Reads action) : Keeps base action := by
  intro store kept
  rw [reads store]
  exact ⟨kept, rfl⟩

theorem Keeps.bind {action : Action α} {next : α → Action β} (keeps : Keeps base action)
    (later : ∀ value, Keeps base (next value)) : Keeps base (action >>= next) := by
  intro store kept
  have first := keeps store kept
  cases ran : action.run store with
  | ok value middle =>
      rw [ending_of_ok ran] at first
      rw [ending_bind_of_ok ran]
      have second := later value middle first.1
      exact ⟨second.1, second.2.trans first.2⟩
  | error fault middle =>
      rw [ending_of_error ran] at first
      rw [ending_bind_of_error ran]
      exact first

theorem Keeps.forM {body : α → Action Unit} (keeps : ∀ item, Keeps base (body item))
    (items : List α) : Keeps base (items.forM body) := by
  induction items with
  | nil => exact (reads_pure ()).keeps
  | cons item items ih => exact (keeps item).bind fun _ => ih

end Keeping

section Appending

variable {store after : Store} {first second : AutomatonRef} {start : StateRef} {fault : Fault}

end Appending

end Action

namespace Store

section Appending

variable {store after : Store} {first second : AutomatonRef} {start : StateRef} {fault : Fault}
  {front back : List (String × StateRef)} {entry : String × StateRef}

/-- An automaton clashes with none of its own states. -/
theorem Clashes.ne (clashes : store.Clashes first entry)
    (member : entry ∈ (store.automata.get second).owned.entries) : second ≠ first := by
  rintro rfl
  obtain ⟨other, apart, owned⟩ := clashes
  exact apart (Table.value_unique owned member)

end Appending

variable {store : Store}

end Store

end PatternAutomata
