import PatternAutomata.Pattern.Tree

/-! # The grammar of patterns

A *regex* is a term, or a term, a bar and a regex. A *term* is one factor or more.
A *factor* is a base and any number of stars. A *base* is a group, a backslash and
any character, or a plain character. A plain character is none of `(`, `)`, `|`
and the backslash; a star is plain where a factor begins, but not behind another
factor, which would take it.

Trees keep all that was written, so a derivation is a tree: `Tree.Fits` says which
trees are derivations, and `Tree.text` which pattern each of them derives.
-/

namespace PatternAutomata

/-- The parts of a pattern that the grammar names. -/
inductive Rule
  /-- Terms with bars between them. -/
  | regex
  /-- One factor or more. -/
  | term
  /-- A base and the stars behind it. -/
  | factor
  /-- A group or a single character. -/
  | base
deriving DecidableEq

namespace Tree

/-- The characters that are never plain. -/
def reserved : List Char := ['(', ')', '|', '\\']

/-- The trees that are derivations of a part of a pattern. -/
inductive Fits : Rule → Tree → Prop
  | literal {character : Char} (plain : character ∉ reserved) : Fits .base (literal character)
  | escaped {character : Char} : Fits .base (escaped character)
  | group {inner : Tree} : Fits .regex inner → Fits .base (group inner)
  | ofBase {tree : Tree} : Fits .base tree → Fits .factor tree
  | star {inner : Tree} : Fits .factor inner → Fits .factor (star inner)
  | ofFactor {tree : Tree} : Fits .factor tree → Fits .term tree
  | concat {first second : Tree} : Fits .term first → Fits .factor second →
      second.text.head? ≠ some '*' → Fits .term (concat first second)
  | ofTerm {tree : Tree} : Fits .term tree → Fits .regex tree
  | alt {first second : Tree} : Fits .term first → Fits .regex second →
      Fits .regex (alt first second)

/-- The number of frames that reading a tree takes up at the deepest place: four
for each group around the place and one for each bar before it that is still
waiting for its right side. -/
def frames : Tree → Nat
  | literal _ => 0
  | escaped _ => 0
  | group inner => inner.frames + 4
  | star inner => inner.frames
  | concat first second => max first.frames second.frames
  | alt first second => max first.frames (second.frames + 1)

theorem text_ne_nil (tree : Tree) : tree.text ≠ [] := by
  induction tree with
  | literal _ => simp [text]
  | escaped _ => simp [text]
  | group _ _ => simp [text]
  | star _ _ => simp [text]
  | concat first second firstText _ => simp [text, firstText]
  | alt _ _ _ _ => simp [text]

end Tree

end PatternAutomata
