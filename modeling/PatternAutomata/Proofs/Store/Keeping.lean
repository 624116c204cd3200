import PatternAutomata.Store.Basic

/-! # What is kept

Nothing is ever taken out of a store, so what a store holds can be followed through
all that happens later. It is kept as long as changes are made elsewhere
(`Heap.KeptIn.change`), and an action that changes only what it has added itself
keeps all that it found (`Store.KeptIn`).
-/

namespace PatternAutomata

namespace Heap

variable {α : Type} [Inhabited α]

theorem change_of_not_mem {heap : Heap α} {ref : Ref α} (outside : ref ∉ heap)
    (update : α → α) : heap.change ref update = heap := by
  apply Heap.ext
  exact Array.setIfInBounds_eq_of_size_le (Nat.le_of_not_lt outside)

theorem change_change (heap : Heap α) (ref : Ref α) (first second : α → α) :
    (heap.change ref first).change ref second =
      heap.change ref fun value => second (first value) := by
  by_cases member : ref ∈ heap
  · have value := get_change_self member first
    apply Heap.ext
    rw [change, value]
    simp [change]
  · rw [change_of_not_mem member, change_of_not_mem member, change_of_not_mem member]

theorem change_congr {heap : Heap α} {ref : Ref α} {first second : α → α}
    (same : first (heap.get ref) = second (heap.get ref)) :
    heap.change ref first = heap.change ref second := by
  rw [change, change, same]

theorem change_eq_self {heap : Heap α} {ref : Ref α} {update : α → α}
    (same : update (heap.get ref) = heap.get ref) : heap.change ref update = heap := by
  by_cases member : ref ∈ heap
  · have inside : ref.index < heap.cells.size := member
    apply Heap.ext
    rw [change, same]
    simp [get, inside, Array.setIfInBounds]
  · exact change_of_not_mem member update

/-- A reference that leads to nothing reads as the default, so adding that changes no value. -/
theorem get_add_default (heap : Heap α) (ref : Ref α) :
    (heap.add default).get ref = heap.get ref := by
  by_cases same : ref = heap.fresh
  · rw [same, get_add_fresh, get_of_not_mem heap.fresh_not_mem]
  · exact get_add_of_ne same

theorem get_change_eq_or (heap : Heap α) (ref other : Ref α) (update : α → α) :
    (heap.change ref update).get other = heap.get other ∨
      other = ref ∧ ref ∈ heap ∧ (heap.change ref update).get other = update (heap.get ref) := by
  by_cases held : ref ∈ heap
  · by_cases same : other = ref
    · exact Or.inr ⟨same, held, same ▸ get_change_self held update⟩
    · exact Or.inl (get_change_of_ne same update)
  · rw [change_of_not_mem held]
    exact Or.inl rfl

/-- Changes the values behind some references, one after another. -/
def changeAll (heap : Heap α) (refs : List (Ref α)) (update : α → α) : Heap α :=
  refs.foldl (fun heap ref => heap.change ref update) heap

@[simp] theorem changeAll_nil (heap : Heap α) (update : α → α) : heap.changeAll [] update = heap :=
  rfl

@[simp] theorem changeAll_cons (heap : Heap α) (ref : Ref α) (refs : List (Ref α))
    (update : α → α) :
    heap.changeAll (ref :: refs) update = (heap.change ref update).changeAll refs update := rfl

theorem change_comm (heap : Heap α) (first second : Ref α) (update : α → α) :
    (heap.change first update).change second update =
      (heap.change second update).change first update := by
  by_cases same : first = second
  · rw [same]
  · have twice (ref other : Ref α) (apart : other ≠ ref) :
        (heap.change ref update).change other update =
          ⟨(heap.cells.setIfInBounds ref.index (update (heap.get ref))).setIfInBounds other.index
            (update (heap.get other))⟩ := by
      rw [change, get_change_of_ne apart]
      rfl
    have apart : first.index ≠ second.index := fun equal => same (Ref.ext equal)
    rw [twice first second (Ne.symm same), twice second first same]
    exact Heap.ext (Array.setIfInBounds_comm _ _ apart)

/-- It does not matter in which order values are changed alike. -/
theorem changeAll_perm {heap : Heap α} {refs others : List (Ref α)} (same : refs.Perm others)
    (update : α → α) : heap.changeAll refs update = heap.changeAll others update :=
  same.foldl_eq' (fun first _ second _ heap => heap.change_comm first second update) heap

@[simp] theorem mem_changeAll {heap : Heap α} {refs : List (Ref α)} {update : α → α}
    {other : Ref α} : other ∈ heap.changeAll refs update ↔ other ∈ heap := by
  induction refs generalizing heap with
  | nil => rfl
  | cons ref refs ih => rw [changeAll_cons, ih, mem_change]

theorem get_changeAll [DecidableEq α] {heap : Heap α} {refs : List (Ref α)}
    (held : ∀ ref ∈ refs, ref ∈ heap) (distinct : refs.Nodup) (update : α → α) (other : Ref α) :
    (heap.changeAll refs update).get other =
      if other ∈ refs then update (heap.get other) else heap.get other := by
  induction refs generalizing heap with
  | nil => simp
  | cons ref refs ih =>
      have ⟨single, restDistinct⟩ := List.nodup_cons.mp distinct
      have restHeld : ∀ ref' ∈ refs, ref' ∈ heap.change ref update := fun ref' member =>
        mem_change.mpr (held ref' (List.mem_cons_of_mem _ member))
      rw [changeAll_cons, ih restHeld restDistinct]
      by_cases same : other = ref
      · subst same
        simp [single, get_change_self (held other List.mem_cons_self)]
      · simp [same, get_change_of_ne same]

/-- What one heap holds is held unchanged by another. -/
def KeptIn (base heap : Heap α) : Prop :=
  ∀ ref ∈ base, ref ∈ heap ∧ heap.get ref = base.get ref

namespace KeptIn

variable {base heap later : Heap α}

theorem refl (heap : Heap α) : heap.KeptIn heap :=
  fun _ member => ⟨member, rfl⟩

theorem trans (first : base.KeptIn heap) (second : heap.KeptIn later) : base.KeptIn later := by
  intro ref member
  obtain ⟨held, same⟩ := first ref member
  obtain ⟨heldLater, sameLater⟩ := second ref held
  exact ⟨heldLater, sameLater.trans same⟩

theorem add (kept : base.KeptIn heap) (value : α) : base.KeptIn (heap.add value) := by
  intro ref member
  obtain ⟨held, same⟩ := kept ref member
  exact ⟨mem_add.mpr (Or.inl held), (get_add_of_mem held).trans same⟩

theorem change (kept : base.KeptIn heap) {ref : Ref α} (outside : ref ∉ base) (update : α → α) :
    base.KeptIn (heap.change ref update) := by
  intro other member
  obtain ⟨held, same⟩ := kept other member
  have apart : other ≠ ref := fun equal => outside (equal ▸ member)
  exact ⟨mem_change.mpr held, (get_change_of_ne apart update).trans same⟩

theorem changeAll (kept : base.KeptIn heap) {refs : List (Ref α)}
    (outside : ∀ ref ∈ refs, ref ∉ base) (update : α → α) :
    base.KeptIn (heap.changeAll refs update) := by
  induction refs generalizing heap with
  | nil => exact kept
  | cons ref refs ih =>
      have ⟨first, rest⟩ := List.forall_mem_cons.mp outside
      rw [changeAll_cons]
      exact ih (kept.change first update) rest

theorem fresh_not_mem (kept : base.KeptIn heap) : heap.fresh ∉ base :=
  fun member => heap.fresh_not_mem (kept _ member).1

end KeptIn

/-- What a heap holds stays held, and stays as it is but for some references. -/
def ChangesOnly (before after : Heap α) (refs : List (Ref α)) : Prop :=
  ∀ ref ∈ before, ref ∈ after ∧ (ref ∉ refs → after.get ref = before.get ref)

theorem KeptIn.changesOnly {base before after : Heap α} {refs : List (Ref α)}
    (kept : base.KeptIn before) (changes : before.ChangesOnly after refs)
    (outside : ∀ ref ∈ refs, ref ∉ base) : base.KeptIn after := by
  intro ref member
  obtain ⟨held, same⟩ := kept ref member
  obtain ⟨heldAfter, sameAfter⟩ := changes ref held
  have apart : ref ∉ refs := fun changed => outside ref changed member
  exact ⟨heldAfter, (sameAfter apart).trans same⟩

theorem ChangesOnly.refl (heap : Heap α) (refs : List (Ref α)) : heap.ChangesOnly heap refs :=
  fun _ member => ⟨member, fun _ => rfl⟩

theorem ChangesOnly.mono {before after : Heap α} {refs more : List (Ref α)}
    (changes : before.ChangesOnly after refs) (included : refs ⊆ more) :
    before.ChangesOnly after more := by
  intro ref member
  obtain ⟨held, same⟩ := changes ref member
  exact ⟨held, fun outside => same fun changed => outside (included changed)⟩

theorem ChangesOnly.trans {before middle after : Heap α} {refs : List (Ref α)}
    (first : before.ChangesOnly middle refs) (second : middle.ChangesOnly after refs) :
    before.ChangesOnly after refs := by
  intro ref member
  obtain ⟨held, same⟩ := first ref member
  obtain ⟨heldAfter, sameAfter⟩ := second ref held
  exact ⟨heldAfter, fun outside => (sameAfter outside).trans (same outside)⟩

theorem changesOnly_add (heap : Heap α) (value : α) : heap.ChangesOnly (heap.add value) [] :=
  fun _ member => ⟨mem_add.mpr (Or.inl member), fun _ => get_add_of_mem member⟩

theorem changesOnly_change (heap : Heap α) (ref : Ref α) (update : α → α) :
    heap.ChangesOnly (heap.change ref update) [ref] := by
  intro other member
  refine ⟨mem_change.mpr member, fun apart => ?_⟩
  exact get_change_of_ne (List.ne_of_not_mem_cons apart) update

end Heap

namespace Store

section Fields

variable (store : Store)

@[simp] theorem states_changeAutomaton (automaton : AutomatonRef)
    (update : Automaton → Automaton) :
    (store.changeAutomaton automaton update).states = store.states := rfl

@[simp] theorem automata_changeAutomaton (automaton : AutomatonRef)
    (update : Automaton → Automaton) :
    (store.changeAutomaton automaton update).automata = store.automata.change automaton update :=
  rfl

@[simp] theorem compilers_changeAutomaton (automaton : AutomatonRef)
    (update : Automaton → Automaton) :
    (store.changeAutomaton automaton update).compilers = store.compilers := rfl

@[simp] theorem compilers_changeCompiler (compiler : CompilerRef) (update : Compiler → Compiler) :
    (store.changeCompiler compiler update).compilers = store.compilers.change compiler update :=
  rfl

theorem changeAutomaton_id (automaton : AutomatonRef) :
    store.changeAutomaton automaton (fun content => content) = store := by
  rw [changeAutomaton, Heap.change_eq_self rfl]

end Fields

/-- The states and automata of one store are held unchanged by another, and the
counters are the same. -/
structure KeptIn (base store : Store) : Prop where
  states : base.states.KeptIn store.states
  automata : base.automata.KeptIn store.automata
  counters : store.counters = base.counters

theorem KeptIn.refl (store : Store) : store.KeptIn store where
  states := .refl _
  automata := .refl _
  counters := rfl

theorem KeptIn.trans {base store later : Store} (first : base.KeptIn store)
    (second : store.KeptIn later) : base.KeptIn later where
  states := first.states.trans second.states
  automata := first.automata.trans second.automata
  counters := second.counters.trans first.counters

/-- What a store holds stays held, and stays as it is but for some states and automata. -/
structure ChangesOnly (before after : Store) (states : List StateRef)
    (automata : List AutomatonRef) : Prop where
  states : before.states.ChangesOnly after.states states
  automata : before.automata.ChangesOnly after.automata automata
  counters : after.counters = before.counters
  compilers : after.compilers = before.compilers

theorem ChangesOnly.mono {before after : Store} {states moreStates : List StateRef}
    {automata moreAutomata : List AutomatonRef} (changes : before.ChangesOnly after states automata)
    (statesIncluded : states ⊆ moreStates) (automataIncluded : automata ⊆ moreAutomata) :
    before.ChangesOnly after moreStates moreAutomata where
  states := changes.states.mono statesIncluded
  automata := changes.automata.mono automataIncluded
  counters := changes.counters
  compilers := changes.compilers

theorem ChangesOnly.trans {before middle after : Store} {states : List StateRef}
    {automata : List AutomatonRef} (first : before.ChangesOnly middle states automata)
    (second : middle.ChangesOnly after states automata) :
    before.ChangesOnly after states automata where
  states := first.states.trans second.states
  automata := first.automata.trans second.automata
  counters := second.counters.trans first.counters
  compilers := second.compilers.trans first.compilers

theorem KeptIn.changeCompiler {base store : Store} (kept : base.KeptIn store)
    (compiler : CompilerRef) (update : Compiler → Compiler) :
    base.KeptIn (store.changeCompiler compiler update) :=
  ⟨kept.states, kept.automata, kept.counters⟩

theorem KeptIn.changesOnly {base before after : Store} {states : List StateRef}
    {automata : List AutomatonRef} (kept : base.KeptIn before)
    (changes : before.ChangesOnly after states automata)
    (statesOutside : ∀ ref ∈ states, ref ∉ base.states)
    (automataOutside : ∀ ref ∈ automata, ref ∉ base.automata) : base.KeptIn after where
  states := kept.states.changesOnly changes.states statesOutside
  automata := kept.automata.changesOnly changes.automata automataOutside
  counters := changes.counters.trans kept.counters

end Store

end PatternAutomata
