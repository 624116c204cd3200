import PatternAutomata.Proofs.Pattern.Wiring

/-! # No dead parts

Every state of the fragment of a tree lies on a path from the start to an accepting state
(`Tree.live_fragment`), and the characters on its transitions are the literals of the tree
(`Tree.letters_fragment`). So every literal is read on the way to acceptance, and nothing else
is. A concatenation takes acceptance from its first part and an alternative the start from
both parts; in either case the silent moves that are added make up for it.
-/

namespace PatternAutomata

namespace Moves

variable {moves : Moves} {source target : String} {word : List Char} {character : Char}

/-- A character that a path reads is on a transition. -/
theorem Path.exists_move_of_mem (path : moves.Path source word target) (member : character ∈ word) :
    ∃ leaving reached, moves leaving (String.singleton character) reached := by
  induction path with
  | here _ => exact nomatch member
  | silent _ _ ih => exact ih member
  | read move _ ih =>
      rcases List.mem_cons.mp member with rfl | later
      · exact ⟨_, _, move⟩
      · exact ih later

end Moves

namespace Fragment

/-- Every state is reached from the start, and leads on to an accepting state. -/
structure Live (fragment : Fragment) : Prop where
  reached : ∀ name ∈ fragment.names, ∃ word, fragment.moves.Path fragment.start word name
  leads : ∀ name ∈ fragment.names, ∃ word, ∃ last ∈ fragment.exits,
    fragment.moves.Path name word last

section Paths

variable {first second : Fragment} {source target : String} {word : List Char}

theorem path_concat_of_first (path : first.moves.Path source word target) :
    (first.concat second).moves.Path source word target := by
  rw [moves_concat]
  exact Moves.path_chain_of_first path

theorem path_concat_of_second (path : second.moves.Path source word target) :
    (first.concat second).moves.Path source word target := by
  rw [moves_concat]
  exact Moves.path_chain_of_second path

theorem path_alt_of_first (start : Nat) (path : first.moves.Path source word target) :
    (alt start first second).moves.Path source word target := by
  rw [moves_alt]
  exact path.mono fun _ _ _ move => Or.inl move

theorem path_alt_of_second (start : Nat) (path : second.moves.Path source word target) :
    (alt start first second).moves.Path source word target := by
  rw [moves_alt]
  exact path.mono fun _ _ _ move => Or.inr (Or.inl move)

theorem path_star (owned : first.start ∈ first.names) (path : first.moves.Path source word target) :
    first.star.moves.Path source word target := by
  rw [moves_star owned]
  exact Moves.path_loop_of_path path

end Paths

variable {first second : Fragment}

theorem live_literal (number : Nat) (character : Char) : (literal number character).Live := by
  have across : (literal number character).moves.Path number.repr [character]
      (number + 1).repr := by
    rw [moves_literal]
    exact .read ⟨rfl, rfl, rfl⟩ (.here _)
  have exit : (number + 1).repr ∈ (literal number character).exits := by
    rw [exits_literal]
    rfl
  constructor
  · refine List.forall_mem_cons.mpr ⟨⟨[], .here _⟩, List.forall_mem_singleton.mpr ?_⟩
    exact ⟨_, across⟩
  · refine List.forall_mem_cons.mpr ⟨⟨_, _, exit, across⟩, List.forall_mem_singleton.mpr ?_⟩
    exact ⟨[], _, exit, .here _⟩

/-- The first part leads on to the second from where it accepted. -/
theorem live_concat (firstLive : first.Live) (secondLive : second.Live)
    (firstStart : first.start ∈ first.names) (secondStart : second.start ∈ second.names) :
    (first.concat second).Live := by
  -- from any state of the first part the start of the second is reached
  have across {name : String} (member : name ∈ first.names) :
      ∃ word, (first.concat second).moves.Path name word second.start := by
    obtain ⟨word, last, exit, path⟩ := firstLive.leads name member
    have handed : (first.concat second).moves last epsilon second.start := by
      rw [moves_concat]
      exact Or.inr (Or.inr ⟨rfl, exit, rfl⟩)
    exact ⟨_, (path_concat_of_first path).trans (.silent handed (.here _))⟩
  constructor
  · rw [names_concat]
    refine List.forall_mem_append.mpr ⟨fun name member => ?_, fun name member => ?_⟩
    · obtain ⟨word, path⟩ := firstLive.reached name member
      exact ⟨word, path_concat_of_first path⟩
    · obtain ⟨before, entered⟩ := across firstStart
      obtain ⟨word, path⟩ := secondLive.reached name member
      exact ⟨_, entered.trans (path_concat_of_second path)⟩
  · rw [names_concat, exits_concat]
    refine List.forall_mem_append.mpr ⟨fun name member => ?_, fun name member => ?_⟩
    · obtain ⟨before, entered⟩ := across member
      obtain ⟨word, last, exit, path⟩ := secondLive.leads second.start secondStart
      exact ⟨_, last, exit, entered.trans (path_concat_of_second path)⟩
    · obtain ⟨word, last, exit, path⟩ := secondLive.leads name member
      exact ⟨word, last, exit, path_concat_of_second path⟩

/-- The new start leads to those of both parts. -/
theorem live_alt (start : Nat) (firstLive : first.Live) (secondLive : second.Live)
    (firstStart : first.start ∈ first.names) : (alt start first second).Live := by
  have toFirst : (alt start first second).moves start.repr epsilon first.start := by
    rw [moves_alt]
    exact Or.inr (Or.inr ⟨rfl, rfl, Or.inl rfl⟩)
  have toSecond : (alt start first second).moves start.repr epsilon second.start := by
    rw [moves_alt]
    exact Or.inr (Or.inr ⟨rfl, rfl, Or.inr rfl⟩)
  constructor
  · rw [names_alt]
    refine List.forall_mem_cons.mpr ⟨⟨[], .here _⟩, List.forall_mem_append.mpr ⟨?_, ?_⟩⟩
    · intro name member
      obtain ⟨word, path⟩ := firstLive.reached name member
      exact ⟨word, .silent toFirst (path_alt_of_first start path)⟩
    · intro name member
      obtain ⟨word, path⟩ := secondLive.reached name member
      exact ⟨word, .silent toSecond (path_alt_of_second start path)⟩
  · rw [names_alt, exits_alt]
    refine List.forall_mem_cons.mpr ⟨?_, List.forall_mem_append.mpr ⟨?_, ?_⟩⟩
    · obtain ⟨word, last, exit, path⟩ := firstLive.leads first.start firstStart
      exact ⟨word, last, Or.inl exit, .silent toFirst (path_alt_of_first start path)⟩
    · intro name member
      obtain ⟨word, last, exit, path⟩ := firstLive.leads name member
      exact ⟨word, last, Or.inl exit, path_alt_of_first start path⟩
    · intro name member
      obtain ⟨word, last, exit, path⟩ := secondLive.leads name member
      exact ⟨word, last, Or.inr exit, path_alt_of_second start path⟩

theorem live_star (live : first.Live) (owned : first.start ∈ first.names) : first.star.Live := by
  constructor
  · rw [names_star]
    intro name member
    obtain ⟨word, path⟩ := live.reached name member
    exact ⟨word, path_star owned path⟩
  · rw [names_star, exits_star]
    intro name member
    obtain ⟨word, last, exit, path⟩ := live.leads name member
    exact ⟨word, last, exit, path_star owned path⟩

/-- The characters on the transitions. -/
def letters (fragment : Fragment) : Set Char :=
  {character | ∃ source target, fragment.moves source (String.singleton character) target}

theorem letters_literal (number : Nat) (character : Char) :
    (literal number character).letters = {character} := by
  ext other
  simp only [letters, moves_literal, Moves.single, Set.mem_ofPred_eq, Set.mem_singleton_iff]
  constructor
  · rintro ⟨_, _, _, same, _⟩
    exact String.singleton_inj.mp same
  · rintro rfl
    exact ⟨_, _, rfl, rfl, rfl⟩

theorem letters_concat (first second : Fragment) :
    (first.concat second).letters = first.letters ∪ second.letters := by
  ext character
  simp only [letters, moves_concat, Moves.chain, singleton_ne_epsilon, false_and, or_false,
    exists_or, Set.mem_ofPred_eq, Set.mem_union]

theorem letters_alt (start : Nat) (first second : Fragment) :
    (alt start first second).letters = first.letters ∪ second.letters := by
  ext character
  simp only [letters, moves_alt, Moves.fork, singleton_ne_epsilon, false_and, or_false,
    exists_or, Set.mem_ofPred_eq, Set.mem_union]

theorem letters_star {fragment : Fragment} (owned : fragment.start ∈ fragment.names) :
    fragment.star.letters = fragment.letters := by
  ext character
  simp only [letters, moves_star owned, Moves.loop, singleton_ne_epsilon, false_and, or_false]

end Fragment

namespace Tree

/-- **Every state of the fragment of a tree is of use.** -/
theorem live_fragment (tree : Tree) (first : Nat) : (tree.fragment first).Live := by
  induction tree generalizing first with
  | literal character => exact Fragment.live_literal first character
  | escaped character => exact Fragment.live_literal first character
  | group _ ih => exact ih first
  | star inner ih => exact Fragment.live_star (ih first) (inner.proper_fragment first).start
  | concat left right leftIH rightIH =>
      exact Fragment.live_concat (leftIH first) (rightIH _) (left.proper_fragment first).start
        (right.proper_fragment _).start
  | alt left right leftIH rightIH =>
      exact Fragment.live_alt _ (leftIH first) (rightIH _) (left.proper_fragment first).start

/-- The characters on the transitions are the literals. -/
theorem letters_fragment (tree : Tree) (first : Nat) :
    (tree.fragment first).letters = {character | character ∈ tree.literals} := by
  induction tree generalizing first with
  | literal character =>
      rw [fragment, Fragment.letters_literal]
      exact Set.ext fun _ => List.mem_singleton.symm
  | escaped character =>
      rw [fragment, Fragment.letters_literal]
      exact Set.ext fun _ => List.mem_singleton.symm
  | group _ ih => exact ih first
  | star inner ih =>
      rw [fragment, Fragment.letters_star (inner.proper_fragment first).start]
      exact ih first
  | concat left right leftIH rightIH =>
      rw [fragment, Fragment.letters_concat, leftIH, rightIH]
      exact Set.ext fun _ => List.mem_append.symm
  | alt left right leftIH rightIH =>
      rw [fragment, Fragment.letters_alt, leftIH, rightIH]
      exact Set.ext fun _ => List.mem_append.symm

end Tree

end PatternAutomata
