import Mathlib.Computability.Language
import PatternAutomata.Pattern.Tree

/-! # The language of a pattern

A pattern denotes a regular language: a character denotes itself, groups change
nothing, and stars, concatenations and alternatives denote the operations of that
name on languages.
-/

namespace PatternAutomata.Tree

open scoped Computability

/-- The regular language that a tree denotes. -/
def language : Tree → Language Char
  | literal character => {[character]}
  | escaped character => {[character]}
  | group inner => inner.language
  | star inner => inner.language∗
  | concat first second => first.language * second.language
  | alt first second => first.language + second.language

end PatternAutomata.Tree
