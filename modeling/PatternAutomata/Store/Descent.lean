import PatternAutomata.Store.Compilation

/-! # Building while reading

Here reading and building are one: each part of the grammar looks at the next character,
moves the cursor past what it takes, and gives an automaton for it, which its caller uses
at once. The functions correspond to the readers one by one. `Action.compile` reads first
and builds after it; both come to the same (`Descent.compile_agrees`).
-/

namespace PatternAutomata.Descent

open PatternAutomata.Action

variable (compiler : CompilerRef)

/-- Whether a given character comes next. -/
def sees (character : Char) : Action Bool := do
  if ← more compiler then
    return (← peek compiler) = character
  else
    return false

/-- Whether a term goes on. -/
def goesOn : Action Bool := do
  if ← more compiler then
    return (← peek compiler) ≠ ')' ∧ (← peek compiler) ≠ '|'
  else
    return false

/-- Refuses to go on, for want of frames. -/
def refuse : Action AutomatonRef :=
  complain compiler .tooDeep

/-- A single character, whatever it is. -/
def single : Action AutomatonRef := do
  literal compiler (String.singleton (← next compiler))

/-- A base; `inside` takes what stands in a group. -/
def base (inside : Action AutomatonRef) : Action AutomatonRef := do
  let character ← peek compiler
  if character = '(' then
    expect compiler "("
    let automaton ← inside
    expect compiler ")"
    return automaton
  else if character = '\\' then
    expect compiler "\\"
    single compiler
  else
    single compiler

/-- The stars behind an automaton. Each takes up a character, so as many `steps` as there
are characters do. -/
def stars : (steps : Nat) → AutomatonRef → Action AutomatonRef
  | 0, automaton => return automaton
  | steps + 1, automaton => do
      if ← sees compiler '*' then
        expect compiler "*"
        stars steps (← repetition automaton)
      else
        return automaton

/-- A base and the stars behind it. -/
def factor (inside : Action AutomatonRef) : Action AutomatonRef := do
  let automaton ← base compiler inside
  stars compiler (← ahead compiler).length automaton

/-- The factors up to the end of a term, behind an automaton that may be missing. -/
def factors (inside : Action AutomatonRef) :
    (steps : Nat) → Option AutomatonRef → Action (Option AutomatonRef)
  | 0, before => return before
  | steps + 1, before => do
      if ← goesOn compiler then
        let automaton ← factor compiler inside
        factors inside steps (some (← concatenation before automaton))
      else
        return before

/-- What the factors of a term came to. -/
def whole : Option AutomatonRef → Action AutomatonRef
  | some automaton => return automaton
  | none => complain compiler .emptyTerm

/-- A term. -/
def term (inside : Action AutomatonRef) : Action AutomatonRef := do
  whole compiler (← factors compiler inside (← ahead compiler).length none)

/-- A term and, after a bar, what `further` takes. -/
def alternatives (inside further : Action AutomatonRef) : Action AutomatonRef := do
  let first ← term compiler inside
  if ← sees compiler '|' then
    expect compiler "|"
    alternative compiler first (← further)
  else
    return first

/-- A regex, with the given number of frames left. -/
def regex : (frames : Nat) → Action AutomatonRef
  | 0 => alternatives compiler (refuse compiler) (refuse compiler)
  | frames + 4 => alternatives compiler (regex frames) (regex (frames + 3))
  | frames + 1 => alternatives compiler (refuse compiler) (regex frames)

/-- What stands in a group, with the given number of frames left around it. -/
def inGroup : (frames : Nat) → Action AutomatonRef
  | frames + 4 => regex compiler frames
  | _ => refuse compiler

/-- What stands behind a bar, with the given number of frames left before it. -/
def behindBar : (frames : Nat) → Action AutomatonRef
  | frames + 1 => regex compiler frames
  | 0 => refuse compiler

theorem regex_eq (frames : Nat) :
    regex compiler frames =
      alternatives compiler (inGroup compiler frames) (behindBar compiler frames) := by
  match frames with
  | 0 => rfl
  | 1 => rfl
  | 2 => rfl
  | 3 => rfl
  | frames + 4 => rfl

/-- One part of the pattern at the cursor. -/
def part : Rule → Action AutomatonRef
  | .regex => regex compiler frameBound
  | .term => term compiler (inGroup compiler frameBound)
  | .factor => factor compiler (inGroup compiler frameBound)
  | .base => base compiler (inGroup compiler frameBound)

/-- All that lies ahead, as one regex. The literals are cleared at the start and become the
alphabet at the end. A refusal is reported at the place where the regex leaves the cursor. -/
def compile : Action AutomatonRef := do
  modify (·.changeCompiler compiler ({ · with literals := ∅ }))
  let automaton ← reporting compiler (part compiler .regex)
  match ← ahead compiler with
  | next :: _ => complain compiler (.unread next)
  | [] =>
      addLetters automaton (← Action.compiler compiler).literals.toList
      return automaton

end PatternAutomata.Descent
