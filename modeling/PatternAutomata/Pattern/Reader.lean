import PatternAutomata.Pattern.Complaint
import PatternAutomata.Pattern.Grammar

/-! # Reading patterns

Patterns are read from left to right without going back, one reader for each part
that the grammar names. A reader returns the tree and the rest of the pattern. When
it fails it returns the complaint, the rest at that place and the trees that were
finished by then, since a failed reading still uses up names and characters.

Nesting is bounded. An open group takes up four frames, and a bar one while its
right side is read; where the frames left do not suffice, reading
fails (`Complaint.tooDeep`).

A base takes any character, so a closing parenthesis, a bar or a star is a literal
where a base is asked for; a term never asks for a base before the first two.
-/

namespace PatternAutomata

/-- What is known when reading fails. -/
structure Failure where
  /-- What is wrong. -/
  complaint : Complaint
  /-- The pattern from that place on. -/
  rest : List Char
  /-- The trees finished before that place, from left to right; none is part of
  another. -/
  finished : List Tree := []
deriving DecidableEq

namespace Failure

/-- The number of state names that building the finished trees takes. -/
def names (failure : Failure) : Nat :=
  failure.finished.foldr (fun tree count => tree.names + count) 0

/-- The literals of the finished trees, from left to right. -/
def literals (failure : Failure) : List Char :=
  failure.finished.flatMap Tree.literals

/-- The failure of a reader that had finished a tree before. -/
def behind (tree : Tree) (failure : Failure) : Failure :=
  { failure with finished := tree :: failure.finished }

end Failure

/-- A reader takes a tree off the front of a pattern. -/
abbrev Reader := List Char → Except Failure (Tree × List Char)

namespace Reader

/-- Refuses to read on, for want of frames. -/
def refuse : Reader := fun ahead => .error { complaint := .tooDeep, rest := ahead }

/-- Reads a base; `inside` reads what stands in a group. -/
def base (inside : Reader) : Reader
  | [] => .error { complaint := .noCharacterLeft, rest := [] }
  | '(' :: ahead =>
      match inside ahead with
      | .error failure => .error failure
      | .ok (tree, ')' :: rest) => .ok (.group tree, rest)
      | .ok (tree, rest) => .error { complaint := .expected ")", rest, finished := [tree] }
  | ['\\'] => .error { complaint := .noCharacterLeft, rest := [] }
  | '\\' :: character :: rest => .ok (.escaped character, rest)
  | character :: rest => .ok (.literal character, rest)

/-- Takes all the stars in front and puts them on a tree. -/
def stars (tree : Tree) : List Char → Tree × List Char
  | '*' :: rest => stars (.star tree) rest
  | rest => (tree, rest)

/-- Reads a factor. -/
def factor (inside : Reader) : Reader := fun ahead =>
  match base inside ahead with
  | .error failure => .error failure
  | .ok (tree, rest) => .ok (stars tree rest)

/-- Whether a term ends here. -/
def endsTerm : List Char → Bool
  | [] => true
  | next :: _ => next = ')' || next = '|'

/-- Reads the factors up to the end of a term and puts them behind a tree. Each
factor takes up a character, so as many `steps` as there are characters do. -/
def factors (inside : Reader) : (steps : Nat) → (before : Tree) → Reader
  | 0, before, ahead => .ok (before, ahead)
  | steps + 1, before, ahead =>
      if endsTerm ahead then .ok (before, ahead)
      else
        match factor inside ahead with
        | .error failure => .error (failure.behind before)
        | .ok (tree, rest) => factors inside steps (.concat before tree) rest

/-- Reads a term. -/
def term (inside : Reader) : Reader := fun ahead =>
  if endsTerm ahead then .error { complaint := .emptyTerm, rest := ahead }
  else
    match factor inside ahead with
    | .error failure => .error failure
    | .ok (tree, rest) => factors inside rest.length tree rest

/-- Reads a term and, after a bar, what `further` reads. -/
def alternatives (inside further : Reader) : Reader := fun ahead =>
  match term inside ahead with
  | .error failure => .error failure
  | .ok (first, '|' :: rest) =>
      match further rest with
      | .error failure => .error (failure.behind first)
      | .ok (second, rest) => .ok (.alt first second, rest)
  | .ok (first, rest) => .ok (first, rest)

/-- Reads a regex with the given number of frames left. -/
def regex : (frames : Nat) → Reader
  | 0, ahead => alternatives refuse refuse ahead
  | frames + 4, ahead =>
      alternatives (fun rest => regex frames rest) (fun rest => regex (frames + 3) rest) ahead
  | frames + 1, ahead => alternatives refuse (fun rest => regex frames rest) ahead

/-- Reads what stands in a group, with the given number of frames left around
the group. -/
def inGroup : (frames : Nat) → Reader
  | frames + 4 => regex frames
  | _ => refuse

/-- Reads what stands behind a bar, with the given number of frames left before
the bar. -/
def behindBar : (frames : Nat) → Reader
  | frames + 1 => regex frames
  | 0 => refuse

/-- A regex is a term and, after a bar, a regex with one frame less; groups in
the term have four frames less. -/
theorem regex_eq (frames : Nat) :
    regex frames = alternatives (inGroup frames) (behindBar frames) := by
  funext ahead
  match frames with
  | 0 => rfl
  | 1 => rfl
  | 2 => rfl
  | 3 => rfl
  | frames + 4 => rfl

end Reader

/-- The number of frames that a pattern may take up: a thousand, less those that are taken up
around it and those in which a character is taken. -/
def frameBound : Nat := 987

/-- Reads one part of a pattern off its front. -/
def Rule.read : Rule → Reader
  | .regex => Reader.regex frameBound
  | .term => Reader.term (Reader.inGroup frameBound)
  | .factor => Reader.factor (Reader.inGroup frameBound)
  | .base => Reader.base (Reader.inGroup frameBound)

/-- Reads a whole pattern: a regex with nothing left over. -/
def readPattern (pattern : List Char) : Except Failure Tree :=
  match Rule.regex.read pattern with
  | .error failure => .error failure
  | .ok (tree, []) => .ok tree
  | .ok (tree, next :: rest) =>
      .error { complaint := .unread next, rest := next :: rest, finished := [tree] }

end PatternAutomata
