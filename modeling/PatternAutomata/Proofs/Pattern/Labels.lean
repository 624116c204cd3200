import PatternAutomata.Pattern.Fragment

/-! # The labels of transitions

Connecting is the only way in which the states of a fragment get transitions, so every
symbol of theirs labels some transition, and is epsilon or a character
(`Tree.labelled_fragment`).
-/

namespace PatternAutomata

namespace State

/-- Every symbol with an entry is epsilon or a character, and has targets. -/
def Labelled (state : State) : Prop :=
  ∀ symbol targets, state.transitions.find? symbol = some targets →
    IsSymbol symbol ∧ ∃ target, target ∈ targets

variable {state : State}

theorem labelled_connect (labelled : state.Labelled) {symbol : String} (proper : IsSymbol symbol)
    (target : String) : (state.connect symbol target).Labelled := by
  intro other targets found
  rw [connect, Table.find?_insert] at found
  split at found
  · rename_i same
    cases found
    exact ⟨same ▸ proper, target, StringSet.mem_insert.mpr (Or.inl rfl)⟩
  · exact labelled other targets found

theorem labelled_branch (labelled : state.Labelled) (entries : List String) :
    (state.branch entries).Labelled := by
  induction entries generalizing state with
  | nil => exact labelled
  | cons entry entries ih => exact ih (labelled_connect labelled isSymbol_epsilon entry)

theorem labelled_handOver (labelled : state.Labelled) (entry : String) :
    (state.handOver entry).Labelled := by
  unfold handOver
  split
  · have cleared : state.clear.Labelled := labelled
    exact labelled_connect cleared isSymbol_epsilon entry
  · exact labelled

/-- A state without transitions. -/
theorem labelled_bare (name : String) (accepting : Bool) :
    ({ name, accepting } : State).Labelled := by
  intro symbol targets found
  cases found

end State

namespace Fragment

/-- Every state has proper labels. -/
def Labelled (fragment : Fragment) : Prop :=
  ∀ state ∈ fragment.states, state.Labelled

theorem labelled_literal (first : Nat) (character : Char) : (literal first character).Labelled := by
  refine List.forall_mem_cons.mpr ⟨?_, List.forall_mem_singleton.mpr (State.labelled_bare _ _)⟩
  exact State.labelled_connect (State.labelled_bare _ _) (isSymbol_singleton character) _

variable {first second : Fragment}

theorem labelled_concat (firstLabelled : first.Labelled) (secondLabelled : second.Labelled) :
    (first.concat second).Labelled := by
  refine List.forall_mem_append.mpr ⟨List.forall_mem_map.mpr fun state member => ?_, secondLabelled⟩
  exact State.labelled_handOver (firstLabelled state member) second.start

theorem labelled_alt (start : Nat) (firstLabelled : first.Labelled)
    (secondLabelled : second.Labelled) : (alt start first second).Labelled := by
  refine List.forall_mem_cons.mpr ⟨?_, List.forall_mem_append.mpr ⟨firstLabelled, secondLabelled⟩⟩
  exact State.labelled_branch (State.labelled_bare _ _) _

theorem labelled_around {state : State} (labelled : state.Labelled) :
    (first.around state).Labelled := by
  have onward : (if state.name = first.start then state.branch first.accepting
      else state).Labelled := by
    split
    · exact State.labelled_branch labelled _
    · exact labelled
  by_cases accepts : state.accepting = true
  · simp only [around, accepts, if_true]
    exact State.labelled_connect onward isSymbol_epsilon first.start
  · simp only [around, accepts]
    exact onward

theorem labelled_star (labelled : first.Labelled) : first.star.Labelled :=
  List.forall_mem_map.mpr fun state member => labelled_around (labelled state member)

end Fragment

theorem Tree.labelled_fragment (tree : Tree) (first : Nat) : (tree.fragment first).Labelled := by
  induction tree generalizing first with
  | literal character => exact Fragment.labelled_literal first character
  | escaped character => exact Fragment.labelled_literal first character
  | group _ ih => exact ih first
  | star _ ih => exact Fragment.labelled_star (ih first)
  | concat _ _ leftIH rightIH => exact Fragment.labelled_concat (leftIH first) (rightIH _)
  | alt _ _ leftIH rightIH => exact Fragment.labelled_alt _ (leftIH first) (rightIH _)

end PatternAutomata
