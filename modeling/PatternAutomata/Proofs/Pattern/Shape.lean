import PatternAutomata.Proofs.Pattern.Wiring

/-! # The shape of a tree

Much that is written in a pattern leaves no trace in what is built from it: groups, the
backslash before a character, the place from which a row of factors is put together, and
a second star behind a first. The shape of a tree (`Tree.shape`) is what remains without
them. Trees of one shape have the same fragment (`Tree.fragment_shape`), since handing
acceptance over is done once for each state, and since repeating what is repeated adds no
transition that is not there.
-/

namespace PatternAutomata

namespace State

variable {state : State}

/-- A target that is there already is not added. -/
theorem connect_of_mem {symbol target : String} (member : target ∈ state.targets symbol) :
    state.connect symbol target = state := by
  have found : state.transitions.find? symbol = some (state.targets symbol) := by
    rw [targets] at member ⊢
    cases found : state.transitions.find? symbol with
    | none =>
        rw [found] at member
        exact absurd member (StringSet.not_mem_empty target)
    | some targets => rfl
  rw [connect, StringSet.insert_of_mem member, Table.insert_of_find? found]

theorem branch_of_mem {entries : List String}
    (members : ∀ entry ∈ entries, entry ∈ state.targets epsilon) : state.branch entries = state := by
  induction entries with
  | nil => rfl
  | cons entry entries ih =>
      obtain ⟨first, others⟩ := List.forall_mem_cons.mp members
      rw [branch_cons, connect_of_mem first, ih others]

/-- Acceptance that was handed over is not there to be handed over again. -/
theorem handOver_handOver (first second : String) :
    (state.handOver first).handOver second = state.handOver first := by
  conv_lhs => rw [handOver, accepting_handOver]
  rfl

end State

namespace Fragment

/-- It does not matter in which order fragments are put one after another. -/
theorem concat_assoc (first second third : Fragment) :
    (first.concat second).concat third = first.concat (second.concat third) := by
  apply Fragment.ext
  · rfl
  · have handed : State.handOver third.start ∘ State.handOver second.start =
        State.handOver second.start :=
      funext fun state => state.handOver_handOver _ _
    simp only [concat, List.map_append, List.map_map, List.append_assoc, handed]

@[simp] theorem accepting_star (fragment : Fragment) :
    fragment.star.accepting = fragment.accepting := by
  simp [accepting, star, List.filter_map, Function.comp_def]

/-- What a star makes of a state it makes but once: all the transitions are there. -/
theorem around_around (fragment : Fragment) (state : State) :
    fragment.around (fragment.around state) = fragment.around state := by
  have onward : (if state.name = fragment.start then
      (fragment.around state).branch fragment.accepting else fragment.around state) =
        fragment.around state := by
    split
    · rename_i atStart
      apply State.branch_of_mem
      exact fun entry exit => mem_targets_around.mpr (Or.inr ⟨rfl, Or.inl ⟨atStart, exit⟩⟩)
    · rfl
  conv_lhs => rw [around, name_around, accepting_around]
  simp only [onward]
  split
  · rename_i accepts
    apply State.connect_of_mem
    exact mem_targets_around.mpr (Or.inr ⟨rfl, Or.inr ⟨accepts, rfl⟩⟩)
  · rfl

/-- Repeating what is repeated changes nothing. -/
theorem star_star (fragment : Fragment) : fragment.star.star = fragment.star := by
  have same : fragment.star.around = fragment.around := by
    funext state
    rw [around, accepting_star]
    rfl
  apply Fragment.ext
  · rfl
  · change (fragment.states.map fragment.around).map fragment.star.around =
      fragment.states.map fragment.around
    rw [same, List.map_map]
    exact List.map_congr_left fun state _ => fragment.around_around state

end Fragment

namespace Tree

/-- A row of factors and another one behind it, as one row. Rows are put together from
their ends. -/
def beside : Tree → Tree → Tree
  | concat first second, last => concat first (second.beside last)
  | first, last => concat first last

/-- A star, unless there is one already. -/
def repeated : Tree → Tree
  | star inner => star inner
  | tree => star tree

/-- What remains of a tree without groups and backslashes, with rows of factors put
together from their ends and with one star for several. Without groups, alternatives in the
last branch of alternatives are further branches, as they are where no group was written. -/
def shape : Tree → Tree
  | literal character => literal character
  | escaped character => literal character
  | group inner => inner.shape
  | star inner => inner.shape.repeated
  | concat first second => first.shape.beside second.shape
  | alt first second => alt first.shape second.shape

theorem names_beside (first last : Tree) : (first.beside last).names = first.names + last.names := by
  induction first with
  | concat first second _ ih => rw [beside, names, ih, names, Nat.add_assoc]
  | _ => rfl

theorem literals_beside (first last : Tree) :
    (first.beside last).literals = first.literals ++ last.literals := by
  induction first with
  | concat first second _ ih => rw [beside, literals, ih, literals, List.append_assoc]
  | _ => rfl

theorem fragment_beside (first last : Tree) (count : Nat) :
    (first.beside last).fragment count = (concat first last).fragment count := by
  induction first generalizing count with
  | concat first second _ ih =>
      simp only [beside, fragment, ih, names, Fragment.concat_assoc, Nat.add_assoc]
  | _ => rfl

theorem names_repeated (tree : Tree) : tree.repeated.names = tree.names := by
  cases tree with
  | _ => rfl

theorem literals_repeated (tree : Tree) : tree.repeated.literals = tree.literals := by
  cases tree with
  | _ => rfl

theorem fragment_repeated (tree : Tree) (count : Nat) :
    tree.repeated.fragment count = (star tree).fragment count := by
  cases tree with
  | star inner => exact ((inner.fragment count).star_star).symm
  | _ => rfl

/-- Trees of one shape take as many names. -/
theorem names_shape (tree : Tree) : tree.shape.names = tree.names := by
  induction tree with
  | literal _ => rfl
  | escaped _ => rfl
  | group _ ih => exact ih
  | star _ ih => rw [shape, names_repeated, ih, names]
  | concat _ _ firstIH secondIH => rw [shape, names_beside, firstIH, secondIH, names]
  | alt _ _ firstIH secondIH => rw [shape, names, firstIH, secondIH, names]

theorem literals_shape (tree : Tree) : tree.shape.literals = tree.literals := by
  induction tree with
  | literal _ => rfl
  | escaped _ => rfl
  | group _ ih => exact ih
  | star _ ih => rw [shape, literals_repeated, ih, literals]
  | concat _ _ firstIH secondIH => rw [shape, literals_beside, firstIH, secondIH, literals]
  | alt _ _ firstIH secondIH => rw [shape, literals, firstIH, secondIH, literals]

theorem alphabet_shape (tree : Tree) : tree.shape.alphabet = tree.alphabet := by
  rw [alphabet, literals_shape, alphabet]

/-- **Trees of one shape have the same fragment.** -/
theorem fragment_shape (tree : Tree) (count : Nat) :
    tree.shape.fragment count = tree.fragment count := by
  induction tree generalizing count with
  | literal _ => rfl
  | escaped _ => rfl
  | group _ ih => exact ih count
  | star _ ih => rw [shape, fragment_repeated, fragment, ih, fragment]
  | concat _ _ firstIH secondIH =>
      rw [shape, fragment_beside, fragment, firstIH, names_shape, secondIH, fragment]
  | alt _ _ firstIH secondIH =>
      simp only [shape, fragment, firstIH, secondIH, names_shape]

end Tree

end PatternAutomata
