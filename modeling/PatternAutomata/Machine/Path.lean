import PatternAutomata.Machine.Basic

/-! # Paths

A path leads from name to name along labelled transitions and spells the
characters of the symbols on its way; silent moves spell nothing. The transitions
of a machine are those of its owned states, so the names at the ends of a path
need not be owned, unless the path leaves them.

A trail keeps all the labels on its way instead. It is a path if its labels but for epsilon
are characters, and these are what the path spells (`Moves.path_iff_trail`).
-/

namespace PatternAutomata

/-- Labelled transitions between names: a source, a symbol and a target. -/
abbrev Moves := String → String → String → Prop

namespace Moves

variable {moves : Moves}

/-- A path leads from a name to a name and spells a word. -/
inductive Path (moves : Moves) : String → List Char → String → Prop
  | here (name : String) : Path moves name [] name
  | silent {source target last : String} {word : List Char} :
      moves source epsilon target → Path moves target word last → Path moves source word last
  | read {source target last : String} {character : Char} {word : List Char} :
      moves source (String.singleton character) target → Path moves target word last →
        Path moves source (character :: word) last

namespace Path

/-- One path after another spells one word after the other. -/
theorem trans {source middle last : String} {left right : List Char}
    (first : moves.Path source left middle) (second : moves.Path middle right last) :
    moves.Path source (left ++ right) last := by
  induction first with
  | here _ => exact second
  | silent move _ ih => exact .silent move (ih second)
  | read move _ ih => exact .read move (ih second)

/-- A path that spells a word in two parts passes a name between them. -/
theorem exists_middle {source last : String} {left right : List Char}
    (path : moves.Path source (left ++ right) last) :
    ∃ middle, moves.Path source left middle ∧ moves.Path middle right last := by
  generalize spelled : left ++ right = word at path
  induction path generalizing left with
  | here name =>
      obtain ⟨rfl, rfl⟩ := List.append_eq_nil_iff.mp spelled
      exact ⟨name, .here name, .here name⟩
  | silent move _ ih =>
      obtain ⟨middle, before, after⟩ := ih spelled
      exact ⟨middle, .silent move before, after⟩
  | read move rest ih =>
      cases left with
      | nil =>
          rw [List.nil_append] at spelled
          exact ⟨_, .here _, spelled ▸ .read move rest⟩
      | cons head tail =>
          obtain ⟨rfl, spelledTail⟩ := List.cons.inj spelled
          obtain ⟨middle, before, after⟩ := ih spelledTail
          exact ⟨middle, .read move before, after⟩

/-- A path along a word and one more character ends with a move on the character and
silent moves behind it. -/
theorem snoc_iff {source last : String} {word : List Char} {character : Char} :
    moves.Path source (word ++ [character]) last ↔
      ∃ middle, moves.Path source word middle ∧ ∃ target,
        moves middle (String.singleton character) target ∧ moves.Path target [] last := by
  constructor
  · intro path
    obtain ⟨middle, before, after⟩ := path.exists_middle
    generalize spelled : [character] = rest at after
    induction after generalizing word with
    | here _ => cases spelled
    | silent move _ ih =>
        have further := before.trans (.silent move (.here _))
        rw [List.append_nil] at further
        exact ih path further spelled
    | read move rest _ =>
        cases spelled
        exact ⟨_, before, _, move, rest⟩
  · intro given
    obtain ⟨middle, before, target, move, after⟩ := given
    exact before.trans (.read move after)

/-- A path stays a path where there are more transitions. -/
theorem mono {more : Moves} (included : ∀ source symbol target,
      moves source symbol target → more source symbol target)
    {source last : String} {word : List Char} (path : moves.Path source word last) :
    more.Path source word last := by
  induction path with
  | here name => exact .here name
  | silent move _ ih => exact .silent (included _ _ _ move) ih
  | read move _ ih => exact .read (included _ _ _ move) ih

end Path

/-- A trail leads from a name to a name, with the labels of its transitions in turn. -/
inductive Trail (moves : Moves) : String → List String → String → Prop
  | here (name : String) : Trail moves name [] name
  | move {source symbol target last : String} {labels : List String} :
      moves source symbol target → Trail moves target labels last →
        Trail moves source (symbol :: labels) last

/-- The labels of a path are what it spells, with epsilon anywhere in between. -/
theorem path_iff_trail {source last : String} {word : List Char} :
    moves.Path source word last ↔ ∃ labels, moves.Trail source labels last ∧
      labels.filter (· ≠ epsilon) = word.map String.singleton := by
  constructor
  · intro path
    induction path with
    | here name => exact ⟨[], .here name, rfl⟩
    | silent move _ ih =>
        obtain ⟨labels, trail, spelled⟩ := ih
        refine ⟨epsilon :: labels, .move move trail, ?_⟩
        rw [List.filter_cons_of_neg (by simp), spelled]
    | @read _ _ _ character _ move _ ih =>
        obtain ⟨labels, trail, spelled⟩ := ih
        have loud := singleton_ne_epsilon character
        refine ⟨String.singleton character :: labels, .move move trail, ?_⟩
        rw [List.filter_cons_of_pos (by simpa using loud), spelled, List.map_cons]
  · rintro ⟨labels, trail, spelled⟩
    induction trail generalizing word with
    | here name =>
        rw [List.map_eq_nil_iff.mp spelled.symm]
        exact .here name
    | @move _ symbol _ _ _ move _ ih =>
        by_cases silent : symbol = epsilon
        · rw [List.filter_cons_of_neg (by simpa using silent)] at spelled
          exact .silent (silent ▸ move) (ih spelled)
        · rw [List.filter_cons_of_pos (by simpa using silent)] at spelled
          obtain ⟨character, word, rfl, rfl, later⟩ := List.map_eq_cons_iff.mp spelled.symm
          exact .read move (ih later.symm)

end Moves

namespace Machine

/-- A transition on a symbol leads from an owned state to a name. -/
def Leads (machine : Machine) : Moves := fun source symbol target =>
  ∃ state, machine.states.find? source = some state ∧ target ∈ state.targets symbol

/-- A path along the transitions of the owned states. -/
abbrev Path (machine : Machine) : String → List Char → String → Prop :=
  machine.Leads.Path

/-- A word labels a path from the start to an owned state that says of itself that
it accepts. -/
def Recognises (machine : Machine) (word : List Char) : Prop :=
  ∃ start last state, machine.start = some start ∧ machine.Path start word last ∧
    machine.states.find? last = some state ∧ state.accepting = true

end Machine

end PatternAutomata
