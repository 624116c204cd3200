import PatternAutomata.Proofs.Paths.Composition

/-! # Passages between two ends

A part of an automaton has two ends, its start and its accepting states. What other
parts can make of it is settled by four languages: the words that lead from each end
to each (`Passages`). The passages of a composed part are a function of those of its
parts (`Moves.passages_chain`, `Moves.passages_fork`, `Moves.passages_loop`); the
words that lead through the whole are not a function of those that lead through the
parts, since a loop also joins what leads around its start and among its exits.
-/

namespace PatternAutomata

open scoped Computability

/-- The words that lead between the start and the accepting states. -/
@[ext]
structure Passages where
  /-- From the start to the start. -/
  around : Language Char
  /-- From the start to an accepting state. -/
  through : Language Char
  /-- From an accepting state to an accepting state. -/
  among : Language Char
  /-- From an accepting state to the start. -/
  back : Language Char

namespace Passages

/-- One transition on a character. -/
def letter (character : Char) : Passages where
  around := 1
  through := {[character]}
  among := 1
  back := 0

/-- One part after another. -/
def chain (first second : Passages) : Passages where
  around := first.around
  through := first.through * second.through
  among := second.among
  back := 0

/-- One part or another, from a new start. -/
def fork (first second : Passages) : Passages where
  around := 1
  through := first.through + second.through
  among := first.among + second.among
  back := 0

/-- All four languages together. -/
def all (passages : Passages) : Language Char :=
  passages.around + passages.through + passages.among + passages.back

/-- A part again and again, with its ends joined. -/
def loop (passages : Passages) : Passages where
  around := passages.all∗
  through := passages.all∗
  among := passages.all∗
  back := passages.all∗

end Passages

namespace Moves

/-- The words that transitions lead along between a start and exits. -/
def passages (moves : Moves) (start : String) (exits : Set String) : Passages where
  around := moves.words {start} {start}
  through := moves.words {start} exits
  among := moves.words exits exits
  back := moves.words exits {start}

/-- A single transition. -/
def single (source : String) (character : Char) (target : String) : Moves :=
  fun leaving symbol reached =>
    leaving = source ∧ symbol = String.singleton character ∧ reached = target

section Single

variable {source target : String} {character : Char}

theorem path_single_target {last : String} {word : List Char} (apart : source ≠ target) :
    (single source character target).Path target word last ↔ last = target ∧ word = [] := by
  constructor
  · intro path
    cases path with
    | here _ => exact ⟨rfl, rfl⟩
    | silent move _ => exact absurd move.1.symm apart
    | read move _ => exact absurd move.1.symm apart
  · intro given
    obtain ⟨rfl, rfl⟩ := given
    exact .here last

theorem path_single_source {last : String} {word : List Char} (apart : source ≠ target) :
    (single source character target).Path source word last ↔
      last = source ∧ word = [] ∨ last = target ∧ word = [character] := by
  constructor
  · intro path
    cases path with
    | here _ => exact Or.inl ⟨rfl, rfl⟩
    | silent move _ => exact absurd move.2.1.symm (singleton_ne_epsilon character)
    | read move rest =>
        obtain ⟨_, same, rfl⟩ := move
        obtain ⟨rfl, rfl⟩ := (path_single_target apart).mp rest
        rw [String.singleton_inj.mp same]
        exact Or.inr ⟨rfl, rfl⟩
  · intro given
    rcases given with ⟨rfl, rfl⟩ | ⟨rfl, rfl⟩
    · exact .here last
    · exact .read ⟨rfl, rfl, rfl⟩ (.here last)

theorem passages_single (apart : source ≠ target) :
    (single source character target).passages source {target} = Passages.letter character := by
  apply Passages.ext
  · ext word
    simp [passages, Passages.letter, mem_words, path_single_source apart, apart]
  · ext word
    have spelled : word ∈ ({[character]} : Language Char) ↔ word = [character] := Iff.rfl
    simp [passages, Passages.letter, mem_words, path_single_source apart, apart.symm, spelled]
  · ext word
    simp [passages, Passages.letter, mem_words, path_single_target apart]
  · ext word
    simp [passages, Passages.letter, mem_words, path_single_target apart, apart]

end Single

/-- The passages of a chain, with the exits of its second part. -/
theorem passages_chain {first second : Moves} {firstNames secondNames : Set String}
    (apart : Apart first second firstNames secondNames) {start entry : String}
    {exits lastExits : Set String} (startInside : start ∈ firstNames)
    (exitsInside : exits ⊆ firstNames) (entryInside : entry ∈ secondNames)
    (lastInside : lastExits ⊆ secondNames) :
    (chain first second exits entry).passages start lastExits =
      (first.passages start exits).chain (second.passages entry lastExits) := by
  have atStart : {start} ⊆ firstNames := Set.singleton_subset_iff.mpr startInside
  apply Passages.ext
  · exact words_chain_first apart exitsInside entryInside atStart atStart
  · exact words_chain_across apart exitsInside entryInside atStart lastInside
  · exact words_chain_second apart exitsInside lastInside
  · exact words_chain_back apart exitsInside lastInside atStart

/-- The passages of a fork, with the exits of both its parts. -/
theorem passages_fork {start left right : String} {first second : Moves}
    {firstNames secondNames : Set String} (apart : Apart first second firstNames secondNames)
    (freshFirst : start ∉ firstNames) (freshSecond : start ∉ secondNames)
    (leftInside : left ∈ firstNames) (rightInside : right ∈ secondNames)
    {leftExits rightExits : Set String} (leftExitsInside : leftExits ⊆ firstNames)
    (rightExitsInside : rightExits ⊆ secondNames) :
    (fork start first second left right).passages start (leftExits ∪ rightExits) =
      (first.passages left leftExits).fork (second.passages right rightExits) := by
  have apartFirst : Disjoint firstNames rightExits := apart.disjoint.mono_right rightExitsInside
  have apartSecond : Disjoint secondNames leftExits :=
    apart.symm.disjoint.mono_right leftExitsInside
  have elsewhere : start ∉ leftExits ∪ rightExits := fun atExit =>
    atExit.elim (fun first => freshFirst (leftExitsInside first)) fun second =>
      freshSecond (rightExitsInside second)
  have atLeft : {left} ⊆ firstNames := Set.singleton_subset_iff.mpr leftInside
  have atRight : {right} ⊆ secondNames := Set.singleton_subset_iff.mpr rightInside
  apply Passages.ext
  · exact words_fork_around apart freshFirst freshSecond leftInside rightInside
  · change words _ _ _ = first.words _ _ + second.words _ _
    rw [words_fork_start apart freshFirst freshSecond leftInside rightInside elsewhere,
      words_union_targets, words_union_targets, apart.first.words_eq_zero atLeft apartFirst,
      apart.second.words_eq_zero atRight apartSecond, add_zero, zero_add]
  · change words _ _ _ = first.words _ _ + second.words _ _
    rw [words_union_sources, words_fork_first apart freshFirst leftExitsInside,
      words_fork_second apart freshSecond rightExitsInside, words_union_targets,
      words_union_targets, apart.first.words_eq_zero leftExitsInside apartFirst,
      apart.second.words_eq_zero rightExitsInside apartSecond, add_zero, zero_add]
  · change words _ _ _ = 0
    rw [words_union_sources, words_fork_first apart freshFirst leftExitsInside,
      words_fork_second apart freshSecond rightExitsInside,
      apart.first.words_eq_zero leftExitsInside (Set.disjoint_singleton_right.mpr freshFirst),
      apart.second.words_eq_zero rightExitsInside (Set.disjoint_singleton_right.mpr freshSecond),
      add_zero]

/-- A loop with an exit joins its ends: whatever leads between two of them leads
between any. -/
theorem passages_loop {moves : Moves} {start : String} {exits : Set String}
    (some : exits.Nonempty) :
    (moves.loop start exits).passages start exits = (moves.passages start exits).loop := by
  have atStart : {start} ⊆ insert start exits :=
    Set.singleton_subset_iff.mpr (Set.mem_insert start exits)
  have atExits : exits ⊆ insert start exits := Set.subset_insert start exits
  have one : ({start} : Set String).Nonempty := Set.singleton_nonempty start
  have rounds : (moves.words (insert start exits) (insert start exits))∗ =
      (moves.passages start exits).all∗ := by
    rw [words_hubs]
    rfl
  apply Passages.ext
  · exact (words_loop atStart atStart one one).trans rounds
  · exact (words_loop atStart atExits one some).trans rounds
  · exact (words_loop atExits atExits some some).trans rounds
  · exact (words_loop atExits atStart some one).trans rounds

/-- Only the empty path leads to a name that no transition enters. -/
theorem Path.eq_of_unentered {moves : Moves} {source target : String} {word : List Char}
    (unentered : ∀ source symbol, ¬ moves source symbol target)
    (path : moves.Path source word target) : word = [] ∧ source = target := by
  induction path with
  | here name => exact ⟨rfl, rfl⟩
  | silent move _ ih =>
      obtain ⟨_, rfl⟩ := ih unentered
      exact absurd move (unentered _ _)
  | read move _ ih =>
      obtain ⟨_, rfl⟩ := ih unentered
      exact absurd move (unentered _ _)

/-- Only the empty path leads on from a name that no transition leaves. -/
theorem Path.eq_of_unleft {moves : Moves} {source target : String} {word : List Char}
    (unleft : ∀ symbol target, ¬ moves source symbol target)
    (path : moves.Path source word target) : word = [] ∧ source = target := by
  cases path with
  | here _ => exact ⟨rfl, rfl⟩
  | silent move _ => exact absurd move (unleft _ _)
  | read move _ => exact absurd move (unleft _ _)

/-- No transition enters the start, and none leaves an exit. -/
structure OneWay (moves : Moves) (start : String) (exits : Set String) : Prop where
  start : ∀ source symbol, ¬ moves source symbol start
  exits : ∀ source ∈ exits, ∀ symbol target, ¬ moves source symbol target

/-- Where transitions lead one way only, the closure of all passages is that of the words
that lead through. -/
theorem OneWay.kstar_all {moves : Moves} {start : String} {exits : Set String}
    (oneWay : moves.OneWay start exits) :
    (moves.passages start exits).all∗ = (moves.passages start exits).through∗ := by
  have around : (moves.passages start exits).around ≤ 1 := by
    rintro word ⟨_, _, _, rfl, path⟩
    exact (path.eq_of_unentered oneWay.start).1
  have among : (moves.passages start exits).among ≤ 1 := by
    rintro word ⟨source, exit, _, _, path⟩
    exact (path.eq_of_unleft (oneWay.exits source exit)).1
  have back : (moves.passages start exits).back ≤ 1 := by
    rintro word ⟨source, exit, _, _, path⟩
    exact (path.eq_of_unleft (oneWay.exits source exit)).1
  generalize moves.passages start exits = passages at around among back
  have one : 1 ≤ passages.through∗ := one_le_kstar
  apply le_antisymm
  · calc passages.all∗ ≤ passages.through∗∗ := by
          apply kstar_mono
          rw [Passages.all]
          exact add_le (add_le (add_le (around.trans one) le_kstar) (among.trans one))
            (back.trans one)
      _ = passages.through∗ := kstar_idem _
  · apply kstar_mono
    intro word through
    exact Or.inl (Or.inl (Or.inr through))

end Moves

namespace Machine

/-- The names of the owned states that accept. -/
def exits (machine : Machine) : Set String :=
  {name | ∃ state, machine.states.find? name = some state ∧ state.accepting = true}

/-- The words that lead between a start and the accepting states. -/
def passages (machine : Machine) (start : String) : Passages :=
  machine.Leads.passages start machine.exits

theorem recognises_iff_through {machine : Machine} {start : String}
    (started : machine.start = some start) {word : List Char} :
    machine.Recognises word ↔ word ∈ (machine.passages start).through := by
  constructor
  · rintro ⟨_, last, state, same, path, owned, accepts⟩
    obtain rfl := Option.some.inj (started.symm.trans same)
    exact ⟨start, rfl, last, ⟨state, owned, accepts⟩, path⟩
  · rintro ⟨_, rfl, last, ⟨state, owned, accepts⟩, path⟩
    exact ⟨_, last, state, started, path, owned, accepts⟩

end Machine

end PatternAutomata
