import Mathlib
import PatternAutomata.Machine.Path

/-! # Paths through composed transitions

Transitions are composed in three ways, by silent moves alone: one part after
another (`Moves.chain`), one part or another (`Moves.fork`), and one part again and
again (`Moves.loop`). A path through the whole is cut where it takes one of the
silent moves that were added, which leaves paths through the parts.

Chains and forks need parts whose names are apart. A loop needs nothing: whatever
enters the start or leaves an exit already becomes one more way round
(`Moves.path_loop_iff`).
-/

namespace PatternAutomata.Moves

open scoped Computability

/-- The words that lead from one of some names to one of others. -/
def words (moves : Moves) (sources targets : Set String) : Language Char :=
  {word | ∃ source ∈ sources, ∃ target ∈ targets, moves.Path source word target}

/-- Every transition leads between some names. -/
def Within (moves : Moves) (names : Set String) : Prop :=
  ∀ source symbol target, moves source symbol target → source ∈ names ∧ target ∈ names

/-- One part after another: the exits of the first lead on to the entry of the
second. -/
def chain (first second : Moves) (exits : Set String) (entry : String) : Moves :=
  fun source symbol target =>
    first source symbol target ∨ second source symbol target ∨
      symbol = epsilon ∧ source ∈ exits ∧ target = entry

/-- One part or another: a start leads to the entries of both. -/
def fork (start : String) (first second : Moves) (left right : String) : Moves :=
  fun source symbol target =>
    first source symbol target ∨ second source symbol target ∨
      symbol = epsilon ∧ source = start ∧ (target = left ∨ target = right)

/-- One part again and again: the start leads to every exit, and every exit back. -/
def loop (moves : Moves) (start : String) (exits : Set String) : Moves :=
  fun source symbol target =>
    moves source symbol target ∨
      symbol = epsilon ∧ (source = start ∧ target ∈ exits ∨ source ∈ exits ∧ target = start)

/-- One word of a language before a word of its closure makes a word of the closure. -/
theorem append_mem_kstar {language : Language Char} {left right : List Char}
    (first : left ∈ language) (later : right ∈ language∗) : left ++ right ∈ language∗ := by
  have absorbed : language * language∗ ≤ language∗ := mul_kstar_le_kstar
  exact absorbed (Language.append_mem_mul first later)

theorem mem_words {moves : Moves} {sources targets : Set String} {word : List Char} :
    word ∈ moves.words sources targets ↔
      ∃ source ∈ sources, ∃ target ∈ targets, moves.Path source word target := Iff.rfl

/-- A path from one of the names that hold all transitions ends at one of them. -/
theorem Within.target_mem {moves : Moves} {names : Set String} (within : moves.Within names)
    {source target : String} {word : List Char} (path : moves.Path source word target)
    (inside : source ∈ names) : target ∈ names := by
  induction path with
  | here _ => exact inside
  | silent move _ ih => exact ih (within _ _ _ move).2
  | read move _ ih => exact ih (within _ _ _ move).2

theorem words_union_sources {moves : Moves} {sources others targets : Set String} :
    moves.words (sources ∪ others) targets =
      moves.words sources targets + moves.words others targets := by
  ext word
  constructor
  · intro given
    obtain ⟨source, atSource | atOther, rest⟩ := given
    · exact Or.inl ⟨source, atSource, rest⟩
    · exact Or.inr ⟨source, atOther, rest⟩
  · intro given
    rcases given with ⟨source, atSource, rest⟩ | ⟨source, atOther, rest⟩
    · exact ⟨source, Or.inl atSource, rest⟩
    · exact ⟨source, Or.inr atOther, rest⟩

theorem words_union_targets {moves : Moves} {sources targets others : Set String} :
    moves.words sources (targets ∪ others) =
      moves.words sources targets + moves.words sources others := by
  ext word
  constructor
  · intro given
    obtain ⟨source, atSource, target, atTarget | atOther, path⟩ := given
    · exact Or.inl ⟨source, atSource, target, atTarget, path⟩
    · exact Or.inr ⟨source, atSource, target, atOther, path⟩
  · intro given
    rcases given with ⟨source, atSource, target, atTarget, path⟩ |
      ⟨source, atSource, target, atOther, path⟩
    · exact ⟨source, atSource, target, Or.inl atTarget, path⟩
    · exact ⟨source, atSource, target, Or.inr atOther, path⟩

/-- No word leads from names that hold all transitions to names outside. -/
theorem Within.words_eq_zero {moves : Moves} {names sources targets : Set String}
    (within : moves.Within names) (inside : sources ⊆ names) (outside : Disjoint names targets) :
    moves.words sources targets = 0 := by
  ext word
  refine ⟨?_, fun none => absurd none (Language.notMem_zero word)⟩
  intro given
  obtain ⟨source, atSource, target, atTarget, path⟩ := given
  have stayed := within.target_mem path (inside atSource)
  exact absurd atTarget (Set.disjoint_left.mp outside stayed)

/-- Where all that leaves some names belongs to a part and comes back to them, a path
from one of them is a path of the part. -/
theorem Path.restrict {whole part : Moves} {names : Set String}
    (stays : ∀ source symbol target, source ∈ names → whole source symbol target →
      part source symbol target ∧ target ∈ names)
    {source target : String} {word : List Char} (path : whole.Path source word target)
    (inside : source ∈ names) : part.Path source word target := by
  induction path with
  | here name => exact .here name
  | silent move _ ih =>
      obtain ⟨own, kept⟩ := stays _ _ _ inside move
      exact .silent own (ih kept)
  | read move _ ih =>
      obtain ⟨own, kept⟩ := stays _ _ _ inside move
      exact .read own (ih kept)

section Loop

variable {moves : Moves} {start : String} {exits : Set String}

theorem path_loop_of_path {source target : String} {word : List Char}
    (path : moves.Path source word target) :
    (moves.loop start exits).Path source word target :=
  path.mono fun _ _ _ move => Or.inl move

/-- In a loop the start and the exits are one: silent moves lead from each to each. -/
theorem path_loop_hubs {source target : String} (fromHub : source ∈ insert start exits)
    (toHub : target ∈ insert start exits) :
    (moves.loop start exits).Path source [] target := by
  have toStart : (moves.loop start exits).Path source [] start := by
    rcases fromHub with rfl | exit
    · exact .here source
    · exact .silent (Or.inr ⟨rfl, Or.inr ⟨exit, rfl⟩⟩) (.here start)
  have ofStart : (moves.loop start exits).Path start [] target := by
    rcases toHub with rfl | exit
    · exact .here target
    · exact .silent (Or.inr ⟨rfl, Or.inl ⟨rfl, exit⟩⟩) (.here target)
  exact toStart.trans ofStart

/-- A path of a loop to the start or an exit runs through the part to the first of
these that it takes an added move from, and then round and round. -/
theorem path_loop_split {source target : String} {word : List Char}
    (path : (moves.loop start exits).Path source word target)
    (toHub : target ∈ insert start exits) :
    ∃ left middle right, left ++ right = word ∧ middle ∈ insert start exits ∧
      moves.Path source left middle ∧
      right ∈ (moves.words (insert start exits) (insert start exits))∗ := by
  induction path with
  | here name => exact ⟨[], name, [], rfl, toHub, .here name, Language.nil_mem_kstar _⟩
  | @silent source next last word move rest ih =>
      obtain ⟨left, middle, right, rfl, hub, before, after⟩ := ih toHub
      rcases move with move | ⟨_, added⟩
      · exact ⟨left, middle, right, rfl, hub, .silent move before, after⟩
      · -- the added move leaves from a hub and reaches one, so what follows is a way round
        have fromHub : source ∈ insert start exits :=
          added.elim (fun out => Or.inl out.1) fun back => Or.inr back.1
        have nextHub : next ∈ insert start exits :=
          added.elim (fun out => Or.inr out.2) fun back => Or.inl back.2
        have round : left ∈ moves.words (insert start exits) (insert start exits) :=
          ⟨next, nextHub, middle, hub, before⟩
        refine ⟨[], source, left ++ right, rfl, fromHub, .here source, ?_⟩
        exact append_mem_kstar round after
  | read move rest ih =>
      obtain ⟨left, middle, right, rfl, hub, before, after⟩ := ih toHub
      rcases move with move | ⟨silent, _⟩
      · exact ⟨_ :: left, middle, right, rfl, hub, .read move before, after⟩
      · exact absurd silent (singleton_ne_epsilon _)

/-- Between the start and the exits of a loop lead the words that lead between them
through the part, any number of them one after another. -/
theorem path_loop_iff {source target : String} {word : List Char}
    (fromHub : source ∈ insert start exits) (toHub : target ∈ insert start exits) :
    (moves.loop start exits).Path source word target ↔
      word ∈ (moves.words (insert start exits) (insert start exits))∗ := by
  constructor
  · intro path
    obtain ⟨left, middle, right, rfl, hub, before, after⟩ := path_loop_split path toHub
    have round : left ∈ moves.words (insert start exits) (insert start exits) :=
      ⟨source, fromHub, middle, hub, before⟩
    exact append_mem_kstar round after
  · intro given
    obtain ⟨rounds, rfl, each⟩ := given
    induction rounds generalizing source with
    | nil => exact path_loop_hubs fromHub toHub
    | cons round rounds ih =>
        obtain ⟨first, firstHub, last, lastHub, path⟩ := each round List.mem_cons_self
        have rest := ih lastHub fun other member => each other (List.mem_cons_of_mem _ member)
        exact (path_loop_hubs fromHub firstHub).trans ((path_loop_of_path path).trans rest)

/-- The words between any of the start and the exits of a loop. -/
theorem words_loop {sources targets : Set String} (fromHubs : sources ⊆ insert start exits)
    (toHubs : targets ⊆ insert start exits) (someSource : sources.Nonempty)
    (someTarget : targets.Nonempty) :
    (moves.loop start exits).words sources targets =
      (moves.words (insert start exits) (insert start exits))∗ := by
  ext word
  constructor
  · intro given
    obtain ⟨source, atSource, target, atTarget, path⟩ := given
    exact (path_loop_iff (fromHubs atSource) (toHubs atTarget)).mp path
  · intro rounds
    obtain ⟨source, atSource⟩ := someSource
    obtain ⟨target, atTarget⟩ := someTarget
    exact ⟨source, atSource, target, atTarget,
      (path_loop_iff (fromHubs atSource) (toHubs atTarget)).mpr rounds⟩

/-- The words between the start and the exits, sorted by where they begin and end. -/
theorem words_hubs :
    moves.words (insert start exits) (insert start exits) =
      moves.words {start} {start} + moves.words {start} exits + moves.words exits exits +
        moves.words exits {start} := by
  ext word
  simp only [Language.mem_add, mem_words, Set.mem_insert_iff, Set.mem_singleton_iff,
    exists_eq_or_imp, exists_eq_left]
  constructor
  · intro given
    rcases given with (path | path) | ⟨source, atSource, path | path⟩
    · exact Or.inl (Or.inl (Or.inl path))
    · exact Or.inl (Or.inl (Or.inr path))
    · exact Or.inr ⟨source, atSource, path⟩
    · exact Or.inl (Or.inr ⟨source, atSource, path⟩)
  · intro given
    rcases given with ((path | path) | ⟨source, atSource, path⟩) | ⟨source, atSource, path⟩
    · exact Or.inl (Or.inl path)
    · exact Or.inl (Or.inr path)
    · exact Or.inr ⟨source, atSource, Or.inr path⟩
    · exact Or.inr ⟨source, atSource, Or.inl path⟩

end Loop

/-- Two parts lie apart: the transitions of each stay among its own names. -/
structure Apart (first second : Moves) (firstNames secondNames : Set String) : Prop where
  first : first.Within firstNames
  second : second.Within secondNames
  disjoint : Disjoint firstNames secondNames

theorem Apart.symm {first second : Moves} {firstNames secondNames : Set String}
    (apart : Apart first second firstNames secondNames) :
    Apart second first secondNames firstNames :=
  ⟨apart.second, apart.first, apart.disjoint.symm⟩

theorem Apart.not_mem_second {first second : Moves} {firstNames secondNames : Set String}
    (apart : Apart first second firstNames secondNames) {name : String}
    (inside : name ∈ firstNames) : name ∉ secondNames :=
  Set.disjoint_left.mp apart.disjoint inside

theorem Within.chain {first second : Moves} {firstNames secondNames exits : Set String}
    {entry : String} (firstWithin : first.Within firstNames)
    (secondWithin : second.Within secondNames) (exitsInside : exits ⊆ firstNames)
    (entryInside : entry ∈ secondNames) :
    (chain first second exits entry).Within (firstNames ∪ secondNames) := by
  intro source symbol target move
  rcases move with move | move | ⟨_, exit, rfl⟩
  · have ends := firstWithin _ _ _ move
    exact ⟨Or.inl ends.1, Or.inl ends.2⟩
  · have ends := secondWithin _ _ _ move
    exact ⟨Or.inr ends.1, Or.inr ends.2⟩
  · exact ⟨Or.inl (exitsInside exit), Or.inr entryInside⟩

theorem Within.fork {start left right : String} {first second : Moves}
    {firstNames secondNames : Set String} (firstWithin : first.Within firstNames)
    (secondWithin : second.Within secondNames) (leftInside : left ∈ firstNames)
    (rightInside : right ∈ secondNames) :
    (fork start first second left right).Within (insert start (firstNames ∪ secondNames)) := by
  intro source symbol target move
  rcases move with move | move | ⟨_, rfl, rfl | rfl⟩
  · have ends := firstWithin _ _ _ move
    exact ⟨Or.inr (Or.inl ends.1), Or.inr (Or.inl ends.2)⟩
  · have ends := secondWithin _ _ _ move
    exact ⟨Or.inr (Or.inr ends.1), Or.inr (Or.inr ends.2)⟩
  · exact ⟨Or.inl rfl, Or.inr (Or.inl leftInside)⟩
  · exact ⟨Or.inl rfl, Or.inr (Or.inr rightInside)⟩

theorem Within.loop {moves : Moves} {names exits : Set String} {start : String}
    (within : moves.Within names) (startInside : start ∈ names) (exitsInside : exits ⊆ names) :
    (moves.loop start exits).Within names := by
  intro source symbol target move
  rcases move with move | ⟨_, ⟨rfl, exit⟩ | ⟨exit, rfl⟩⟩
  · exact within _ _ _ move
  · exact ⟨startInside, exitsInside exit⟩
  · exact ⟨exitsInside exit, startInside⟩

section Chain

variable {first second : Moves} {firstNames secondNames : Set String}
  {exits : Set String} {entry : String}

theorem path_chain_of_first {source target : String} {word : List Char}
    (path : first.Path source word target) :
    (chain first second exits entry).Path source word target :=
  path.mono fun _ _ _ move => Or.inl move

theorem path_chain_of_second {source target : String} {word : List Char}
    (path : second.Path source word target) :
    (chain first second exits entry).Path source word target :=
  path.mono fun _ _ _ move => Or.inr (Or.inl move)

theorem path_chain_second (apart : Apart first second firstNames secondNames)
    (exitsInside : exits ⊆ firstNames) {source target : String} {word : List Char}
    (inside : source ∈ secondNames) :
    (chain first second exits entry).Path source word target ↔ second.Path source word target := by
  refine ⟨fun path => path.restrict ?_ inside, path_chain_of_second⟩
  rintro source symbol target inside (move | move | ⟨_, exit, _⟩)
  · exact absurd inside (apart.not_mem_second (apart.first _ _ _ move).1)
  · exact ⟨move, (apart.second _ _ _ move).2⟩
  · exact absurd inside (apart.not_mem_second (exitsInside exit))

/-- A path of a chain that begins in the first part stays there, or leaves it once
through an exit. -/
theorem path_chain_cut (apart : Apart first second firstNames secondNames)
    (exitsInside : exits ⊆ firstNames) (entryInside : entry ∈ secondNames)
    {source target : String} {word : List Char} (inside : source ∈ firstNames)
    (path : (chain first second exits entry).Path source word target) :
    first.Path source word target ∨
      ∃ left right, left ++ right = word ∧ (∃ exit ∈ exits, first.Path source left exit) ∧
        second.Path entry right target := by
  induction path with
  | here name => exact Or.inl (.here name)
  | @silent source next last word move rest ih =>
      rcases move with move | move | ⟨_, exit, rfl⟩
      · rcases ih (apart.first _ _ _ move).2 with stay | ⟨left, right, rfl, before, after⟩
        · exact Or.inl (.silent move stay)
        · obtain ⟨exit, atExit, before⟩ := before
          exact Or.inr ⟨left, right, rfl, ⟨exit, atExit, .silent move before⟩, after⟩
      · exact absurd (apart.second _ _ _ move).1 (apart.not_mem_second inside)
      · have after := (path_chain_second apart exitsInside entryInside).mp rest
        exact Or.inr ⟨[], word, rfl, ⟨source, exit, .here source⟩, after⟩
  | read move rest ih =>
      rcases move with move | move | ⟨silent, _⟩
      · rcases ih (apart.first _ _ _ move).2 with stay | ⟨left, right, rfl, before, after⟩
        · exact Or.inl (.read move stay)
        · obtain ⟨exit, atExit, before⟩ := before
          exact Or.inr ⟨_ :: left, right, rfl, ⟨exit, atExit, .read move before⟩, after⟩
      · exact absurd (apart.second _ _ _ move).1 (apart.not_mem_second inside)
      · exact absurd silent (singleton_ne_epsilon _)

variable {sources targets : Set String}

theorem words_chain_first (apart : Apart first second firstNames secondNames)
    (exitsInside : exits ⊆ firstNames) (entryInside : entry ∈ secondNames)
    (fromFirst : sources ⊆ firstNames) (toFirst : targets ⊆ firstNames) :
    (chain first second exits entry).words sources targets = first.words sources targets := by
  ext word
  constructor
  · intro given
    obtain ⟨source, atSource, target, atTarget, path⟩ := given
    refine ⟨source, atSource, target, atTarget, ?_⟩
    rcases path_chain_cut apart exitsInside entryInside (fromFirst atSource) path with
      stay | ⟨_, _, _, _, after⟩
    · exact stay
    · have crossed := apart.second.target_mem after entryInside
      exact absurd crossed (apart.not_mem_second (toFirst atTarget))
  · intro given
    obtain ⟨source, atSource, target, atTarget, path⟩ := given
    exact ⟨source, atSource, target, atTarget, path_chain_of_first path⟩

theorem words_chain_second (apart : Apart first second firstNames secondNames)
    (exitsInside : exits ⊆ firstNames) (fromSecond : sources ⊆ secondNames) :
    (chain first second exits entry).words sources targets = second.words sources targets := by
  ext word
  constructor
  · intro given
    obtain ⟨source, atSource, target, atTarget, path⟩ := given
    exact ⟨source, atSource, target, atTarget,
      (path_chain_second apart exitsInside (fromSecond atSource)).mp path⟩
  · intro given
    obtain ⟨source, atSource, target, atTarget, path⟩ := given
    exact ⟨source, atSource, target, atTarget,
      (path_chain_second apart exitsInside (fromSecond atSource)).mpr path⟩

/-- From the first part of a chain to the second leads a word to an exit and then a
word from the entry. -/
theorem words_chain_across (apart : Apart first second firstNames secondNames)
    (exitsInside : exits ⊆ firstNames) (entryInside : entry ∈ secondNames)
    (fromFirst : sources ⊆ firstNames) (toSecond : targets ⊆ secondNames) :
    (chain first second exits entry).words sources targets =
      first.words sources exits * second.words {entry} targets := by
  ext word
  constructor
  · intro given
    obtain ⟨source, atSource, target, atTarget, path⟩ := given
    rcases path_chain_cut apart exitsInside entryInside (fromFirst atSource) path with
      stay | ⟨left, right, rfl, ⟨exit, atExit, before⟩, after⟩
    · have stayed := apart.first.target_mem stay (fromFirst atSource)
      exact absurd (toSecond atTarget) (apart.not_mem_second stayed)
    · exact Language.append_mem_mul ⟨source, atSource, exit, atExit, before⟩
        ⟨entry, rfl, target, atTarget, after⟩
  · rw [Language.mem_mul]
    rintro ⟨left, ⟨source, atSource, exit, atExit, before⟩, right,
      ⟨_, rfl, target, atTarget, after⟩, rfl⟩
    refine ⟨source, atSource, target, atTarget, (path_chain_of_first before).trans ?_⟩
    exact .silent (Or.inr (Or.inr ⟨rfl, atExit, rfl⟩)) (path_chain_of_second after)

/-- Nothing leads from the second part of a chain to the first. -/
theorem words_chain_back (apart : Apart first second firstNames secondNames)
    (exitsInside : exits ⊆ firstNames) (fromSecond : sources ⊆ secondNames)
    (toFirst : targets ⊆ firstNames) :
    (chain first second exits entry).words sources targets = 0 := by
  rw [words_chain_second apart exitsInside fromSecond]
  exact apart.second.words_eq_zero fromSecond (apart.disjoint.symm.mono_right toFirst)

end Chain

section Fork

variable {start left right : String} {first second : Moves}
  {firstNames secondNames : Set String}

theorem fork_swap : fork start first second left right = fork start second first right left := by
  funext source symbol target
  apply propext
  unfold fork
  constructor <;> rintro (move | move | ⟨silent, atStart, entry⟩)
  · exact Or.inr (Or.inl move)
  · exact Or.inl move
  · exact Or.inr (Or.inr ⟨silent, atStart, entry.symm⟩)
  · exact Or.inr (Or.inl move)
  · exact Or.inl move
  · exact Or.inr (Or.inr ⟨silent, atStart, entry.symm⟩)

theorem path_fork_first (apart : Apart first second firstNames secondNames)
    (fresh : start ∉ firstNames) {source target : String} {word : List Char}
    (inside : source ∈ firstNames) :
    (fork start first second left right).Path source word target ↔
      first.Path source word target := by
  refine ⟨fun path => path.restrict ?_ inside, fun path => path.mono fun _ _ _ move => Or.inl move⟩
  rintro source symbol target inside (move | move | ⟨_, rfl, _⟩)
  · exact ⟨move, (apart.first _ _ _ move).2⟩
  · exact absurd (apart.second _ _ _ move).1 (apart.not_mem_second inside)
  · exact absurd inside fresh

theorem path_fork_second (apart : Apart first second firstNames secondNames)
    (fresh : start ∉ secondNames) {source target : String} {word : List Char}
    (inside : source ∈ secondNames) :
    (fork start first second left right).Path source word target ↔
      second.Path source word target := by
  rw [fork_swap]
  exact path_fork_first apart.symm fresh inside

/-- A path of a fork from its start stays there or runs through one of the parts. -/
theorem path_fork_start (apart : Apart first second firstNames secondNames)
    (freshFirst : start ∉ firstNames) (freshSecond : start ∉ secondNames)
    (leftInside : left ∈ firstNames) (rightInside : right ∈ secondNames)
    {target : String} {word : List Char} :
    (fork start first second left right).Path start word target ↔
      (target = start ∧ word = []) ∨ first.Path left word target ∨
        second.Path right word target := by
  constructor
  · intro path
    cases path with
    | here _ => exact Or.inl ⟨rfl, rfl⟩
    | silent move rest =>
        rcases move with move | move | ⟨_, _, rfl | rfl⟩
        · exact absurd (apart.first _ _ _ move).1 freshFirst
        · exact absurd (apart.second _ _ _ move).1 freshSecond
        · exact Or.inr (Or.inl ((path_fork_first apart freshFirst leftInside).mp rest))
        · exact Or.inr (Or.inr ((path_fork_second apart freshSecond rightInside).mp rest))
    | read move rest =>
        rcases move with move | move | ⟨silent, _⟩
        · exact absurd (apart.first _ _ _ move).1 freshFirst
        · exact absurd (apart.second _ _ _ move).1 freshSecond
        · exact absurd silent (singleton_ne_epsilon _)
  · intro given
    rcases given with ⟨rfl, rfl⟩ | path | path
    · exact .here target
    · exact .silent (Or.inr (Or.inr ⟨rfl, rfl, Or.inl rfl⟩))
        ((path_fork_first apart freshFirst leftInside).mpr path)
    · exact .silent (Or.inr (Or.inr ⟨rfl, rfl, Or.inr rfl⟩))
        ((path_fork_second apart freshSecond rightInside).mpr path)

variable {sources targets : Set String}

theorem words_fork_first (apart : Apart first second firstNames secondNames)
    (fresh : start ∉ firstNames) (fromFirst : sources ⊆ firstNames) :
    (fork start first second left right).words sources targets = first.words sources targets := by
  ext word
  constructor
  · intro given
    obtain ⟨source, atSource, target, atTarget, path⟩ := given
    exact ⟨source, atSource, target, atTarget,
      (path_fork_first apart fresh (fromFirst atSource)).mp path⟩
  · intro given
    obtain ⟨source, atSource, target, atTarget, path⟩ := given
    exact ⟨source, atSource, target, atTarget,
      (path_fork_first apart fresh (fromFirst atSource)).mpr path⟩

theorem words_fork_second (apart : Apart first second firstNames secondNames)
    (fresh : start ∉ secondNames) (fromSecond : sources ⊆ secondNames) :
    (fork start first second left right).words sources targets = second.words sources targets := by
  rw [fork_swap]
  exact words_fork_first apart.symm fresh fromSecond

/-- From the start of a fork to other names lead the words from either entry. -/
theorem words_fork_start (apart : Apart first second firstNames secondNames)
    (freshFirst : start ∉ firstNames) (freshSecond : start ∉ secondNames)
    (leftInside : left ∈ firstNames) (rightInside : right ∈ secondNames)
    (elsewhere : start ∉ targets) :
    (fork start first second left right).words {start} targets =
      first.words {left} targets + second.words {right} targets := by
  have fromStart {target : String} {word : List Char} :
      (fork start first second left right).Path start word target ↔
        (target = start ∧ word = []) ∨ first.Path left word target ∨
          second.Path right word target :=
    path_fork_start apart freshFirst freshSecond leftInside rightInside
  ext word
  constructor
  · intro given
    obtain ⟨_, rfl, target, atTarget, path⟩ := given
    rcases fromStart.mp path with ⟨rfl, _⟩ | path | path
    · exact absurd atTarget elsewhere
    · exact Or.inl ⟨left, rfl, target, atTarget, path⟩
    · exact Or.inr ⟨right, rfl, target, atTarget, path⟩
  · intro given
    rcases given with ⟨_, rfl, target, atTarget, path⟩ | ⟨_, rfl, target, atTarget, path⟩
    · exact ⟨start, rfl, target, atTarget, fromStart.mpr (Or.inr (Or.inl path))⟩
    · exact ⟨start, rfl, target, atTarget, fromStart.mpr (Or.inr (Or.inr path))⟩

/-- Only the empty word leads from the start of a fork back to it. -/
theorem words_fork_around (apart : Apart first second firstNames secondNames)
    (freshFirst : start ∉ firstNames) (freshSecond : start ∉ secondNames)
    (leftInside : left ∈ firstNames) (rightInside : right ∈ secondNames) :
    (fork start first second left right).words {start} {start} = 1 := by
  ext word
  have notFirst : ¬ first.Path left word start := fun path =>
    freshFirst (apart.first.target_mem path leftInside)
  have notSecond : ¬ second.Path right word start := fun path =>
    freshSecond (apart.second.target_mem path rightInside)
  simp [mem_words, path_fork_start apart freshFirst freshSecond leftInside rightInside,
    notFirst, notSecond]

end Fork

end PatternAutomata.Moves
