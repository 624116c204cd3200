import PatternAutomata.Proofs.Machine.Printout
import PatternAutomata.Proofs.Pattern.Wiring

/-! # Where literals open

Of the states of a fragment some have a transition on a character, which then stands before all
silent ones: they are the first states of literals (`Tree.opens_fragment`). Which states these are
can be told from the numbers of the states in their order (`Tree.openings_numbers`): a new start of
an alternative has a larger number than the state behind it, and the states of a literal follow each
other with their numbers.
-/

namespace PatternAutomata

namespace Table

variable {α : Type}

/-- A key that does not occur at the front is put in behind it. -/
theorem insertInto_append {key : String} {front : List (String × α)}
    (absent : key ∉ front.map Prod.fst) (value : α) (rest : List (String × α)) :
    insertInto key value (front ++ rest) = front ++ insertInto key value rest := by
  induction front with
  | nil => rfl
  | cons entry front ih =>
      have apart : entry.1 ≠ key := (List.ne_of_not_mem_cons absent).symm
      rw [List.cons_append, insertInto, if_neg apart, ih (List.not_mem_of_not_mem_cons absent),
        List.cons_append]

end Table

namespace State

variable {state : State} {opens : Bool} {letter : Option (Char × String)}

/-- Silent moves are added behind a transition on a character. -/
theorem Arranged.connect (arranged : state.Arranged letter) (target : String) :
    (state.connect epsilon target).Arranged letter := by
  have loud : epsilon ∉
      (letter.toList.map fun own =>
        (String.singleton own.1, StringSet.ofList [own.2])).map Prod.fst := by
    intro member
    obtain ⟨entry, inside, silent⟩ := List.mem_map.mp member
    obtain ⟨own, _, rfl⟩ := List.mem_map.mp inside
    exact singleton_ne_epsilon own.1 silent
  have targets : (state.connect epsilon target).targets epsilon =
      (state.targets epsilon).insert target := by
    rw [targets_connect, if_pos rfl]
  have added : target ∈ ((state.targets epsilon).insert target).toList :=
    StringSet.mem_insert.mpr (Or.inl rfl)
  have some := List.ne_nil_of_mem added
  have entries : (state.connect epsilon target).transitions.entries =
      Table.insertInto epsilon ((state.targets epsilon).insert target)
        state.transitions.entries := rfl
  rw [Arranged, entries, arranged, Table.insertInto_append loud, silent, silent, targets,
    if_neg some]
  split
  · rfl
  · rw [Table.insertInto, if_pos rfl]

theorem Opens.connect (opening : state.Opens opens) (target : String) :
    (state.connect epsilon target).Opens opens := by
  obtain ⟨letter, given, arranged⟩ := opening
  exact ⟨letter, given, arranged.connect target⟩

theorem Opens.branch (opening : state.Opens opens) (entries : List String) :
    (state.branch entries).Opens opens := by
  induction entries generalizing state with
  | nil => exact opening
  | cons entry entries ih => exact ih (opening.connect entry)

theorem Opens.handOver (opening : state.Opens opens) (entry : String) :
    (state.handOver entry).Opens opens := by
  unfold State.handOver
  split
  · have cleared : state.clear.Opens opens := opening
    exact cleared.connect entry
  · exact opening

theorem Opens.around (opening : state.Opens opens) (fragment : Fragment) :
    (fragment.around state).Opens opens := by
  have onward : (if state.name = fragment.start then state.branch fragment.accepting
      else state).Opens opens := by
    split
    · exact opening.branch _
    · exact opening
  by_cases accepts : state.accepting = true
  · simp only [Fragment.around, accepts, if_true]
    exact onward.connect fragment.start
  · simp only [Fragment.around, accepts]
    exact onward

/-- A state without transitions opens nothing. -/
theorem opens_bare (name : String) (accepting : Bool) :
    ({ name, accepting } : State).Opens false :=
  ⟨none, rfl, rfl⟩

theorem opens_letter (name target : String) (character : Char) :
    (({ name } : State).connect (String.singleton character) target).Opens true := by
  have none : (({ name } : State).connect (String.singleton character) target).targets epsilon =
      ∅ := by
    rw [targets_connect, if_neg (singleton_ne_epsilon character).symm]
    rfl
  refine ⟨some (character, target), rfl, ?_⟩
  rw [Arranged, silent, none]
  rfl

end State

namespace Tree

/-- Which states of the fragment open a literal. -/
def openings : Tree → List Bool
  | literal _ => [true, false]
  | escaped _ => [true, false]
  | group inner => inner.openings
  | star inner => inner.openings
  | concat first second => first.openings ++ second.openings
  | alt first second => false :: (first.openings ++ second.openings)

/-- The first states of literals have a transition on a character, and all others have none. -/
theorem opens_fragment (tree : Tree) (first : Nat) :
    List.Forall₂ State.Opens tree.openings (tree.fragment first).states := by
  induction tree generalizing first with
  | literal character => exact .cons (State.opens_letter _ _ _) (.cons (State.opens_bare _ _) .nil)
  | escaped character => exact .cons (State.opens_letter _ _ _) (.cons (State.opens_bare _ _) .nil)
  | group _ ih => exact ih first
  | star _ ih =>
      refine List.forall₂_map_right_iff.mpr ((ih first).imp fun _ state opening => ?_)
      exact opening.around _
  | concat left right leftIH rightIH =>
      refine List.rel_append (List.forall₂_map_right_iff.mpr ?_) (rightIH _)
      exact (leftIH first).imp fun _ state opening => opening.handOver _
  | alt left right leftIH rightIH =>
      refine .cons ((State.opens_bare _ _).branch _) ?_
      exact List.rel_append (leftIH first) (rightIH _)

/-- The numbers of the states of the fragment, in the order of the states. -/
def numbers (first : Nat) : Tree → List Nat
  | literal _ => [first, first + 1]
  | escaped _ => [first, first + 1]
  | group inner => inner.numbers first
  | star inner => inner.numbers first
  | concat left right => left.numbers first ++ right.numbers (first + left.names)
  | alt left right =>
      (first + left.names + right.names) ::
        (left.numbers first ++ right.numbers (first + left.names))

theorem names_eq_map_numbers (tree : Tree) (first : Nat) :
    (tree.fragment first).names = (tree.numbers first).map Nat.repr := by
  induction tree generalizing first with
  | literal _ => rfl
  | escaped _ => rfl
  | group _ ih => exact ih first
  | star _ ih => rw [fragment, Fragment.names_star, ih, numbers]
  | concat left right leftIH rightIH =>
      rw [fragment, Fragment.names_concat, leftIH, rightIH, numbers, List.map_append]
  | alt left right leftIH rightIH =>
      rw [fragment, Fragment.names_alt, leftIH, rightIH, numbers, List.map_cons, List.map_append]

/-- The first of the numbers is one of those that the tree takes. -/
theorem exists_numbers_cons (tree : Tree) (first : Nat) :
    ∃ number rest, tree.numbers first = number :: rest ∧ number < first + tree.names := by
  have names := tree.names_eq_map_numbers first
  cases listed : tree.numbers first with
  | nil =>
      have start := (tree.proper_fragment first).start
      rw [names, listed] at start
      cases start
  | cons number rest =>
      have named : number.repr ∈ (tree.fragment first).names := by
        rw [names, listed]
        exact List.mem_cons_self
      obtain ⟨other, _, below, same⟩ := mem_names_fragment.mp named
      exact ⟨number, rest, rfl, Nat.repr_injective same ▸ below⟩

end Tree

/-- Which of some states open a literal, as their numbers tell: one with a larger number than the
next does not, and any other does, while the one behind it does not. -/
def openings : List Nat → List Bool
  | number :: next :: rest =>
      if next < number then false :: openings (next :: rest) else true :: false :: openings rest
  | _ => []

theorem openings_literal (first : Nat) (rest : List Nat) :
    openings (first :: (first + 1) :: rest) = true :: false :: openings rest :=
  if_neg (Nat.not_lt.mpr (Nat.le_succ first))

theorem openings_of_lt {number next : Nat} (below : next < number) (rest : List Nat) :
    openings (number :: next :: rest) = false :: openings (next :: rest) :=
  if_pos below

/-- **Numbers tell where literals open.** -/
theorem Tree.openings_numbers (tree : Tree) (first : Nat) (rest : List Nat) :
    PatternAutomata.openings (tree.numbers first ++ rest) =
      tree.openings ++ PatternAutomata.openings rest := by
  induction tree generalizing first rest with
  | literal _ => exact openings_literal first rest
  | escaped _ => exact openings_literal first rest
  | group _ ih => exact ih first rest
  | star _ ih => exact ih first rest
  | concat left right leftIH rightIH =>
      rw [numbers, List.append_assoc, leftIH, rightIH, openings, List.append_assoc]
  | alt left right leftIH rightIH =>
      obtain ⟨number, more, listed, below⟩ := left.exists_numbers_cons first
      have head := openings_of_lt (Nat.lt_add_right right.names below)
        (more ++ (right.numbers (first + left.names) ++ rest))
      rw [← List.cons_append, ← listed, leftIH, rightIH] at head
      rw [numbers, List.cons_append, List.append_assoc, head, openings, List.cons_append,
        List.append_assoc]

end PatternAutomata
