/-! # Pattern trees

The tree of a pattern keeps everything that was written: a group is a node of its
own, and a character written with a backslash differs from one written plainly.
Writing a tree down (`Tree.text`) therefore gives back the pattern that was read.
-/

namespace PatternAutomata

/-- A pattern as it was written. -/
inductive Tree
  /-- A character that stands for itself. -/
  | literal (character : Char)
  /-- A character written with a backslash before it. -/
  | escaped (character : Char)
  /-- A pattern in parentheses. -/
  | group (inner : Tree)
  /-- A pattern repeated any number of times. -/
  | star (inner : Tree)
  /-- One pattern after another. -/
  | concat (first second : Tree)
  /-- One pattern or another. -/
  | alt (first second : Tree)
deriving DecidableEq, Inhabited

namespace Tree

/-- The tree written down. -/
def text : Tree → List Char
  | literal character => [character]
  | escaped character => ['\\', character]
  | group inner => '(' :: inner.text ++ [')']
  | star inner => inner.text ++ ['*']
  | concat first second => first.text ++ second.text
  | alt first second => first.text ++ '|' :: second.text

/-- The characters that stand for themselves, from left to right. -/
def literals : Tree → List Char
  | literal character => [character]
  | escaped character => [character]
  | group inner => inner.literals
  | star inner => inner.literals
  | concat first second => first.literals ++ second.literals
  | alt first second => first.literals ++ second.literals

/-- The number of state names that building the tree takes: two for each literal
and one for each alternative. -/
def names : Tree → Nat
  | literal _ => 2
  | escaped _ => 2
  | group inner => inner.names
  | star inner => inner.names
  | concat first second => first.names + second.names
  | alt first second => first.names + second.names + 1

end Tree

end PatternAutomata
