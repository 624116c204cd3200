import PatternAutomata.Pattern.Role
import PatternAutomata.Proofs.Pattern.Liveness

/-! # Where transitions come from

Every transition on a character of the fragment of a tree was made for one literal that the
tree writes down, and every literal makes one (`Tree.moves_fragment_iff`). The literals are found
by recursion on the tree, each with the position at which it stands and the number of the state
that it leads from (`Tree.occurrences`). No two have a state in common
(`Tree.occurrences_increase`), and they stand exactly where the roles of the tree have literals
(`Tree.exists_occurrence_iff`).
-/

namespace PatternAutomata

theorem Fragment.moves_literal_iff {number : Nat} {letter character : Char}
    {source target : String} :
    (Fragment.literal number letter).moves source (String.singleton character) target ↔
      letter = character ∧ source = number.repr ∧ target = (number + 1).repr := by
  rw [moves_literal, Moves.single, String.singleton_inj]
  constructor
  · rintro ⟨leaves, same, enters⟩
    exact ⟨same.symm, leaves, enters⟩
  · rintro ⟨same, leaves, enters⟩
    exact ⟨leaves, same.symm, enters⟩

/-- A literal in a pattern. -/
structure Occurrence where
  /-- The position at which it stands. -/
  position : Nat
  /-- The number of the state that it leads from. -/
  number : Nat
  /-- The character that it stands for. -/
  character : Char

namespace Tree

/-- The literals that a tree writes down from a position on, with states numbered from the
given number on. -/
def occurrences (position first : Nat) : Tree → List Occurrence
  | literal character => [{ position, number := first, character }]
  | escaped character => [{ position := position + 1, number := first, character }]
  | group inner => inner.occurrences (position + 1) first
  | star inner => inner.occurrences position first
  | concat left right =>
      left.occurrences position first ++
        right.occurrences (position + left.text.length) (first + left.names)
  | alt left right =>
      left.occurrences position first ++
        right.occurrences (position + left.text.length + 1) (first + left.names)

/-- **Where transitions come from.** A transition on a character leads from the state of an
occurrence of the character to the next state, and each occurrence has one. -/
theorem moves_fragment_iff (tree : Tree) (position first : Nat) {source target : String}
    {character : Char} :
    (tree.fragment first).moves source (String.singleton character) target ↔
      ∃ occurrence ∈ tree.occurrences position first, occurrence.character = character ∧
        source = occurrence.number.repr ∧ target = (occurrence.number + 1).repr := by
  induction tree generalizing position first with
  | literal other =>
      rw [fragment, Fragment.moves_literal_iff, occurrences]
      simp only [List.mem_singleton, exists_eq_left]
  | escaped other =>
      rw [fragment, Fragment.moves_literal_iff, occurrences]
      simp only [List.mem_singleton, exists_eq_left]
  | group inner ih => exact ih (position + 1) first
  | star inner ih =>
      rw [fragment, Fragment.moves_star (inner.proper_fragment first).start, Moves.loop,
        ih position first]
      simp only [singleton_ne_epsilon, false_and, or_false]
      rfl
  | concat left right leftIH rightIH =>
      rw [fragment, Fragment.moves_concat, Moves.chain, leftIH position first,
        rightIH (position + left.text.length)]
      simp only [singleton_ne_epsilon, false_and, or_false, occurrences, List.mem_append,
        or_and_right, exists_or]
  | alt left right leftIH rightIH =>
      rw [fragment, Fragment.moves_alt, Moves.fork, leftIH position first,
        rightIH (position + left.text.length + 1)]
      simp only [singleton_ne_epsilon, false_and, or_false, occurrences, List.mem_append,
        or_and_right, exists_or]

/-- The states of an occurrence are among those that the tree is numbered with. -/
theorem number_of_mem_occurrences {tree : Tree} {position first : Nat} {occurrence : Occurrence}
    (member : occurrence ∈ tree.occurrences position first) :
    first ≤ occurrence.number ∧ occurrence.number + 1 < first + tree.names := by
  induction tree generalizing position first with
  | literal _ =>
      cases List.mem_singleton.mp member
      exact ⟨Nat.le_refl _, Nat.lt_succ_self _⟩
  | escaped _ =>
      cases List.mem_singleton.mp member
      exact ⟨Nat.le_refl _, Nat.lt_succ_self _⟩
  | group _ ih => exact ih member
  | star _ ih => exact ih member
  | concat left right leftIH rightIH =>
      rw [names]
      rcases List.mem_append.mp member with inLeft | inRight
      · have within := leftIH inLeft
        omega
      · have within := rightIH inRight
        omega
  | alt left right leftIH rightIH =>
      rw [names]
      rcases List.mem_append.mp member with inLeft | inRight
      · have within := leftIH inLeft
        omega
      · have within := rightIH inRight
        omega

/-- From left to right the occurrences have ever greater numbers, so no two have states in
common. -/
theorem occurrences_increase (tree : Tree) (position first : Nat) :
    (tree.occurrences position first).Pairwise fun before after =>
      before.number + 1 < after.number := by
  induction tree generalizing position first with
  | literal _ => exact List.pairwise_singleton _ _
  | escaped _ => exact List.pairwise_singleton _ _
  | group _ ih => exact ih (position + 1) first
  | star _ ih => exact ih position first
  | concat left right leftIH rightIH =>
      refine List.pairwise_append.mpr ⟨leftIH _ _, rightIH _ _, fun before inLeft after inRight => ?_⟩
      have below := number_of_mem_occurrences inLeft
      have above := number_of_mem_occurrences inRight
      omega
  | alt left right leftIH rightIH =>
      refine List.pairwise_append.mpr ⟨leftIH _ _, rightIH _ _, fun before inLeft after inRight => ?_⟩
      have below := number_of_mem_occurrences inLeft
      have above := number_of_mem_occurrences inRight
      omega

end Tree

/-- The positions of the literals among characters whose roles are given, and what stands
there. -/
def Role.literalsFrom (position : Nat) (text : List Char) (roles : List Role) :
    List (Nat × Char) :=
  (((text.zip roles).zipIdx position).filter fun entry => entry.1.2.isLiteral).map
    fun entry => (entry.2, entry.1.1)

namespace Role

theorem literalsFrom_append (position : Nat) {first second : List Char}
    {firstRoles secondRoles : List Role} (lengths : first.length = firstRoles.length) :
    literalsFrom position (first ++ second) (firstRoles ++ secondRoles) =
      literalsFrom position first firstRoles ++
        literalsFrom (position + first.length) second secondRoles := by
  rw [literalsFrom, List.zip_append lengths, List.zipIdx_append, List.filter_append,
    List.map_append, List.length_zip, ← lengths, Nat.min_self]
  rfl

theorem mem_literalsFrom_iff {text : List Char} {roles : List Role} {position : Nat}
    {character : Char} :
    (position, character) ∈ literalsFrom 0 text roles ↔
      text[position]? = some character ∧
        ∃ role, roles[position]? = some role ∧ role.isLiteral = true := by
  simp only [literalsFrom, List.mem_map, List.mem_filter, Prod.exists, List.mk_mem_zipIdx_iff_getElem?,
    List.getElem?_zip_eq_some, Prod.mk.injEq]
  constructor
  · rintro ⟨_, role, _, ⟨⟨found, own⟩, isLiteral⟩, rfl, rfl⟩
    exact ⟨found, role, own, isLiteral⟩
  · rintro ⟨found, role, own, isLiteral⟩
    exact ⟨character, role, position, ⟨⟨found, own⟩, isLiteral⟩, rfl, rfl⟩

end Role

namespace Tree

/-- The occurrences stand where the roles are those of literals. -/
theorem literalsFrom_roles (tree : Tree) (position first : Nat) :
    (tree.occurrences position first).map (fun occurrence =>
        (occurrence.position, occurrence.character)) =
      Role.literalsFrom position tree.text tree.roles := by
  induction tree generalizing position first with
  | literal _ => rfl
  | escaped _ => rfl
  | group inner ih =>
      change _ = Role.literalsFrom (position + 1) (inner.text ++ [')']) (inner.roles ++ [.closing])
      rw [Role.literalsFrom_append _ inner.length_roles.symm, occurrences, ih]
      exact (List.append_nil _).symm
  | star inner ih =>
      rw [text, roles, Role.literalsFrom_append _ inner.length_roles.symm, occurrences, ih]
      exact (List.append_nil _).symm
  | concat left right leftIH rightIH =>
      rw [text, roles, Role.literalsFrom_append _ left.length_roles.symm, occurrences,
        List.map_append, leftIH, rightIH]
  | alt left right leftIH rightIH =>
      rw [text, roles, Role.literalsFrom_append _ left.length_roles.symm, occurrences,
        List.map_append, leftIH, rightIH]
      rfl

/-- A literal occurs at a position if and only if the character there is one. -/
theorem exists_occurrence_iff (tree : Tree) (first : Nat) {position : Nat} {character : Char} :
    (∃ occurrence ∈ tree.occurrences 0 first,
        occurrence.position = position ∧ occurrence.character = character) ↔
      tree.text[position]? = some character ∧
        ∃ role, tree.roles[position]? = some role ∧ role.isLiteral = true := by
  rw [← Role.mem_literalsFrom_iff, ← tree.literalsFrom_roles 0 first, List.mem_map]
  simp only [Prod.mk.injEq]

end Tree

end PatternAutomata
