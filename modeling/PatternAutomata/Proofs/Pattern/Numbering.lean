import Mathlib
import PatternAutomata.Pattern.Fragment

/-! # The names of a fragment

A tree whose states are numbered from some number on takes exactly the next
`Tree.names` numbers, each for one state (`Tree.names_fragment`). So names never
repeat, and the parts of a tree, numbered one after another, have no name in common.
How many numbers these are can be told from the literals and the bars of the tree
(`Tree.names_eq`).
-/

namespace PatternAutomata

namespace Fragment

/-- The names of the states, in their order. -/
def names (fragment : Fragment) : List String :=
  fragment.states.map (·.name)

@[simp] theorem names_literal (first : Nat) (character : Char) :
    (literal first character).names = [first.repr, (first + 1).repr] := rfl

@[simp] theorem names_concat (first second : Fragment) :
    (first.concat second).names = first.names ++ second.names := by
  simp [names, concat, Function.comp_def]

@[simp] theorem names_alt (start : Nat) (first second : Fragment) :
    (alt start first second).names = start.repr :: (first.names ++ second.names) := by
  simp [names, alt]

@[simp] theorem names_star (fragment : Fragment) : fragment.star.names = fragment.names := by
  simp [names, star, Function.comp_def]

end Fragment

namespace Tree

/-- The names of a fragment are the next numerals, in some order. -/
theorem names_fragment (tree : Tree) (first : Nat) :
    (tree.fragment first).names.Perm ((List.range' first tree.names).map Nat.repr) := by
  induction tree generalizing first with
  | literal _ => exact .refl _
  | escaped _ => exact .refl _
  | group _ ih => exact ih first
  | star _ ih =>
      rw [fragment, Fragment.names_star]
      exact ih first
  | concat left right leftIH rightIH =>
      rw [fragment, Fragment.names_concat, names, ← List.range'_append_1, List.map_append]
      exact (leftIH first).append (rightIH (first + left.names))
  | alt left right leftIH rightIH =>
      have parts := (leftIH first).append (rightIH (first + left.names))
      rw [fragment, Fragment.names_alt, names, ← List.range'_append_1, ← List.range'_append_1,
        List.map_append, List.map_append, List.range'_one, List.map_singleton, ← Nat.add_assoc]
      exact (parts.cons _).trans (List.perm_append_singleton _ _).symm

theorem mem_names_fragment {tree : Tree} {first : Nat} {name : String} :
    name ∈ (tree.fragment first).names ↔
      ∃ number, first ≤ number ∧ number < first + tree.names ∧ number.repr = name := by
  rw [(tree.names_fragment first).mem_iff, List.mem_map]
  simp only [List.mem_range'_1, and_assoc]

/-- No name is taken twice. -/
theorem nodup_names_fragment (tree : Tree) (first : Nat) : (tree.fragment first).names.Nodup := by
  rw [(tree.names_fragment first).nodup_iff]
  exact (List.nodup_range' 1).map fun _ _ => Nat.repr_injective

/-- Trees numbered one after another have no name in common. -/
theorem disjoint_names_fragment (left right : Tree) {first second : Nat}
    (later : first + left.names ≤ second) :
    (left.fragment first).names.Disjoint (right.fragment second).names := by
  intro name inLeft inRight
  obtain ⟨number, _, below, rfl⟩ := mem_names_fragment.mp inLeft
  obtain ⟨other, above, _, same⟩ := mem_names_fragment.mp inRight
  have equal := Nat.repr_injective same
  omega

/-- A number outside its range names no state of a fragment. -/
theorem repr_not_mem_names_fragment {tree : Tree} {first number : Nat}
    (outside : number < first ∨ first + tree.names ≤ number) :
    number.repr ∉ (tree.fragment first).names := by
  intro member
  obtain ⟨other, above, below, same⟩ := mem_names_fragment.mp member
  have equal := Nat.repr_injective same
  omega

/-- The number of alternatives of a tree. -/
def bars : Tree → Nat
  | literal _ => 0
  | escaped _ => 0
  | group inner => inner.bars
  | star inner => inner.bars
  | concat first second => first.bars + second.bars
  | alt first second => first.bars + second.bars + 1

theorem names_eq (tree : Tree) : tree.names = 2 * tree.literals.length + tree.bars := by
  induction tree with
  | literal _ => rfl
  | escaped _ => rfl
  | group _ ih => exact ih
  | star _ ih => exact ih
  | concat _ _ leftIH rightIH =>
      rw [names, literals, bars, leftIH, rightIH, List.length_append]
      omega
  | alt _ _ leftIH rightIH =>
      rw [names, literals, bars, leftIH, rightIH, List.length_append]
      omega

/-- A bar that is written down stands between alternatives or is a literal. -/
theorem count_bar_text (tree : Tree) :
    tree.text.count '|' = tree.bars + tree.literals.count '|' := by
  induction tree with
  | literal character => exact (Nat.zero_add _).symm
  | escaped character =>
      rw [text, List.count_cons_of_ne (by decide)]
      exact (Nat.zero_add _).symm
  | group inner ih =>
      rw [text, List.cons_append, List.count_cons_of_ne (by decide), List.count_append, ih]
      rfl
  | star inner ih =>
      rw [text, List.count_append, ih]
      rfl
  | concat _ _ leftIH rightIH =>
      rw [text, literals, bars, List.count_append, List.count_append, leftIH, rightIH]
      omega
  | alt _ _ leftIH rightIH =>
      rw [text, literals, bars, List.count_append, List.count_append, List.count_cons_self, leftIH,
        rightIH]
      omega

end Tree

end PatternAutomata
