import PatternAutomata.Proofs.Pattern.Numbering
import PatternAutomata.Proofs.Pattern.Passages

/-! # The transitions of a fragment

The transitions of a fragment are composed as the tree is: a concatenation chains
those of its parts, an alternative forks to them and a star closes a loop. As long as
names do not clash and no transition leads outside (`Fragment.Sound`), this gives the
words between the ends of the whole. With the numbering of names it gives those between
the ends of the fragment of a tree (`Tree.passages_fragment`), and so the words that
its machine recognises (`Tree.recognises_fragment_iff`).
-/

namespace PatternAutomata

namespace Fragment

/-- The transitions of the states of a fragment. -/
def moves (fragment : Fragment) : Moves := fun source symbol target =>
  ∃ state ∈ fragment.states, state.name = source ∧ target ∈ state.targets symbol

/-- The names of the accepting states, as a set. -/
def exits (fragment : Fragment) : Set String :=
  {name | name ∈ fragment.accepting}

/-- The words that lead between the start and the accepting states. -/
def passages (fragment : Fragment) : Passages :=
  fragment.moves.passages fragment.start fragment.exits

theorem mem_accepting {fragment : Fragment} {name : String} :
    name ∈ fragment.accepting ↔
      ∃ state ∈ fragment.states, state.accepting = true ∧ state.name = name := by
  simp only [accepting, List.mem_map, List.mem_filter, and_assoc]

theorem mem_exits {fragment : Fragment} {name : String} :
    name ∈ fragment.exits ↔
      ∃ state ∈ fragment.states, state.accepting = true ∧ state.name = name :=
  mem_accepting

theorem exits_subset_names (fragment : Fragment) :
    fragment.exits ⊆ {name | name ∈ fragment.names} := by
  intro name exit
  obtain ⟨state, member, _, named⟩ := mem_exits.mp exit
  exact List.mem_map.mpr ⟨state, member, named⟩

theorem moves_literal (first : Nat) (character : Char) :
    (literal first character).moves =
      Moves.single first.repr character (first + 1).repr := by
  funext source symbol target
  apply propext
  have bare (name symbol : String) : ({ name } : State).targets symbol = ∅ := rfl
  have plain (name symbol : String) :
      ({ name, accepting := true } : State).targets symbol = ∅ := rfl
  simp only [moves, literal, List.mem_cons, List.not_mem_nil, or_false, exists_eq_or_imp,
    exists_eq_left, State.name_connect, State.mem_targets_connect, bare, plain,
    StringSet.not_mem_empty, false_or, and_false, Moves.single]
  exact and_congr_left fun _ => eq_comm

theorem moves_concat (first second : Fragment) :
    (first.concat second).moves =
      Moves.chain first.moves second.moves first.exits second.start := by
  funext source symbol target
  apply propext
  simp only [moves, concat, List.mem_append, List.mem_map, or_and_right, exists_or,
    Moves.chain, mem_exits]
  constructor
  · intro given
    rcases given with ⟨_, ⟨state, member, rfl⟩, named, leads⟩ | later
    · rw [State.name_handOver] at named
      rcases State.mem_targets_handOver.mp leads with own | ⟨silent, accepts, entry⟩
      · exact Or.inl ⟨state, member, named, own⟩
      · exact Or.inr (Or.inr ⟨silent, ⟨state, member, accepts, named⟩, entry⟩)
    · exact Or.inr (Or.inl later)
  · intro given
    rcases given with ⟨state, member, named, own⟩ | later |
      ⟨silent, ⟨state, member, accepts, named⟩, entry⟩
    · exact Or.inl ⟨_, ⟨state, member, rfl⟩, by rw [State.name_handOver, named],
        State.mem_targets_handOver.mpr (Or.inl own)⟩
    · exact Or.inr later
    · exact Or.inl ⟨_, ⟨state, member, rfl⟩, by rw [State.name_handOver, named],
        State.mem_targets_handOver.mpr (Or.inr ⟨silent, accepts, entry⟩)⟩

theorem moves_alt (start : Nat) (first second : Fragment) :
    (alt start first second).moves =
      Moves.fork start.repr first.moves second.moves first.start second.start := by
  funext source symbol target
  apply propext
  have bare (symbol : String) : ({ name := start.repr } : State).targets symbol = ∅ := rfl
  simp only [moves, alt, List.cons_append, List.mem_cons, List.mem_append, or_and_right,
    exists_or, exists_eq_left, State.name_branch, State.mem_targets_branch, bare,
    StringSet.not_mem_empty, false_or, List.not_mem_nil, or_false, Moves.fork]
  constructor
  · intro given
    rcases given with ⟨rfl, silent, entry⟩ | own | own
    · exact Or.inr (Or.inr ⟨silent, rfl, entry⟩)
    · exact Or.inl own
    · exact Or.inr (Or.inl own)
  · intro given
    rcases given with own | own | ⟨silent, rfl, entry⟩
    · exact Or.inr (Or.inl own)
    · exact Or.inr (Or.inr own)
    · exact Or.inl ⟨rfl, silent, entry⟩

/-- A star adds its silent moves to the state that is the start and to those that
accept. -/
theorem mem_targets_around {fragment : Fragment} {state : State} {symbol target : String} :
    target ∈ (fragment.around state).targets symbol ↔
      target ∈ state.targets symbol ∨ symbol = epsilon ∧
        (state.name = fragment.start ∧ target ∈ fragment.exits ∨
          state.accepting = true ∧ target = fragment.start) := by
  unfold around
  by_cases atStart : state.name = fragment.start
  · by_cases accepts : state.accepting = true
    · simp [atStart, accepts, State.mem_targets_connect, State.mem_targets_branch, exits,
        or_assoc, and_or_left]
    · simp [atStart, accepts, State.mem_targets_branch, exits]
  · by_cases accepts : state.accepting = true
    · simp [atStart, accepts, State.mem_targets_connect]
    · simp [atStart, accepts]

theorem moves_star {fragment : Fragment} (owned : fragment.start ∈ fragment.names) :
    fragment.star.moves = fragment.moves.loop fragment.start fragment.exits := by
  funext source symbol target
  apply propext
  constructor
  · intro given
    obtain ⟨_, member, named, leads⟩ := given
    obtain ⟨state, inside, rfl⟩ := List.mem_map.mp member
    rw [name_around] at named
    rcases mem_targets_around.mp leads with own | ⟨silent, ⟨atStart, exit⟩ | ⟨accepts, home⟩⟩
    · exact Or.inl ⟨state, inside, named, own⟩
    · exact Or.inr ⟨silent, Or.inl ⟨named.symm.trans atStart, exit⟩⟩
    · exact Or.inr ⟨silent, Or.inr ⟨mem_exits.mpr ⟨state, inside, accepts, named⟩, home⟩⟩
  · intro given
    rcases given with ⟨state, inside, named, own⟩ | ⟨silent, ⟨rfl, exit⟩ | ⟨exit, home⟩⟩
    · exact ⟨_, List.mem_map_of_mem inside, (name_around fragment state).trans named,
        mem_targets_around.mpr (Or.inl own)⟩
    · obtain ⟨state, inside, named⟩ := List.mem_map.mp owned
      exact ⟨_, List.mem_map_of_mem inside, (name_around fragment state).trans named,
        mem_targets_around.mpr (Or.inr ⟨silent, Or.inl ⟨named, exit⟩⟩)⟩
    · obtain ⟨state, inside, accepts, named⟩ := mem_exits.mp exit
      exact ⟨_, List.mem_map_of_mem inside, (name_around fragment state).trans named,
        mem_targets_around.mpr (Or.inr ⟨silent, Or.inr ⟨accepts, home⟩⟩)⟩

@[simp] theorem exits_literal (first : Nat) (character : Char) :
    (literal first character).exits = {(first + 1).repr} := by
  ext name
  exact List.mem_singleton

@[simp] theorem exits_concat (first second : Fragment) :
    (first.concat second).exits = second.exits := by
  ext name
  simp [exits, accepting, concat, List.filter_map, Function.comp_def]

@[simp] theorem exits_alt (start : Nat) (first second : Fragment) :
    (alt start first second).exits = first.exits ∪ second.exits := by
  ext name
  simp [exits, accepting, alt]

@[simp] theorem exits_star (fragment : Fragment) : fragment.star.exits = fragment.exits := by
  ext name
  simp [exits, accepting, star, List.filter_map, Function.comp_def]

/-- What fragments need to be put together: no name is taken twice, the start is owned,
and no transition leads outside. -/
structure Sound (fragment : Fragment) : Prop where
  distinct : fragment.names.Nodup
  start : fragment.start ∈ fragment.names
  within : fragment.moves.Within {name | name ∈ fragment.names}

section Sound

variable {fragment first second : Fragment} {start : Nat}

theorem Sound.apart (firstSound : first.Sound) (secondSound : second.Sound)
    (disjoint : first.names.Disjoint second.names) :
    Moves.Apart first.moves second.moves {name | name ∈ first.names}
      {name | name ∈ second.names} where
  first := firstSound.within
  second := secondSound.within
  disjoint := Set.disjoint_left.mpr fun _ inFirst inSecond => disjoint inFirst inSecond

theorem sound_concat (firstSound : first.Sound) (secondSound : second.Sound)
    (disjoint : first.names.Disjoint second.names) : (first.concat second).Sound where
  distinct := by
    rw [names_concat]
    exact firstSound.distinct.append secondSound.distinct disjoint
  start := by
    rw [names_concat]
    exact List.mem_append_left _ firstSound.start
  within := by
    rw [moves_concat, names_concat]
    simp only [List.mem_append]
    exact firstSound.within.chain secondSound.within first.exits_subset_names secondSound.start

theorem sound_alt (firstSound : first.Sound) (secondSound : second.Sound)
    (disjoint : first.names.Disjoint second.names)
    (freshFirst : start.repr ∉ first.names) (freshSecond : start.repr ∉ second.names) :
    (alt start first second).Sound where
  distinct := by
    rw [names_alt]
    refine List.nodup_cons.mpr ⟨?_, firstSound.distinct.append secondSound.distinct disjoint⟩
    exact fun member => (List.mem_append.mp member).elim freshFirst freshSecond
  start := by
    rw [names_alt]
    exact List.mem_cons_self
  within := by
    rw [moves_alt, names_alt]
    simp only [List.mem_cons, List.mem_append]
    exact firstSound.within.fork secondSound.within firstSound.start secondSound.start

theorem sound_star (sound : fragment.Sound) : fragment.star.Sound where
  distinct := by
    rw [names_star]
    exact sound.distinct
  start := by
    rw [names_star]
    exact sound.start
  within := by
    rw [moves_star sound.start, names_star]
    exact sound.within.loop sound.start fragment.exits_subset_names

theorem passages_concat (firstSound : first.Sound) (secondSound : second.Sound)
    (disjoint : first.names.Disjoint second.names) :
    (first.concat second).passages = first.passages.chain second.passages := by
  rw [passages, moves_concat, exits_concat]
  exact Moves.passages_chain (firstSound.apart secondSound disjoint) firstSound.start
    first.exits_subset_names secondSound.start second.exits_subset_names

theorem passages_alt (firstSound : first.Sound) (secondSound : second.Sound)
    (disjoint : first.names.Disjoint second.names)
    (freshFirst : start.repr ∉ first.names) (freshSecond : start.repr ∉ second.names) :
    (alt start first second).passages = first.passages.fork second.passages := by
  rw [passages, moves_alt, exits_alt]
  exact Moves.passages_fork (firstSound.apart secondSound disjoint) freshFirst freshSecond
    firstSound.start secondSound.start first.exits_subset_names second.exits_subset_names

theorem passages_star (sound : fragment.Sound) (some : fragment.exits.Nonempty) :
    fragment.star.passages = fragment.passages.loop := by
  rw [passages, moves_star sound.start, exits_star]
  exact Moves.passages_loop some

end Sound

/-- What holds of the fragment of every tree: no name is taken twice, the start is
owned and does not accept, some state accepts, and no transition leads outside. -/
structure Proper (fragment : Fragment) : Prop where
  distinct : fragment.names.Nodup
  start : fragment.start ∈ fragment.names
  quiet : fragment.start ∉ fragment.exits
  exits : fragment.exits.Nonempty
  within : fragment.moves.Within {name | name ∈ fragment.names}

theorem Proper.sound {fragment : Fragment} (proper : fragment.Proper) : fragment.Sound :=
  ⟨proper.distinct, proper.start, proper.within⟩

theorem Sound.proper {fragment : Fragment} (sound : fragment.Sound)
    (quiet : fragment.start ∉ fragment.exits) (exits : fragment.exits.Nonempty) :
    fragment.Proper :=
  ⟨sound.distinct, sound.start, quiet, exits, sound.within⟩

theorem repr_ne_repr_succ (number : Nat) : number.repr ≠ (number + 1).repr := by
  intro same
  have equal := Nat.repr_injective same
  omega

theorem proper_literal (first : Nat) (character : Char) : (literal first character).Proper := by
  refine ⟨?_, ?_, ?_, ?_, ?_⟩
  · rw [names_literal]
    exact List.nodup_cons.mpr
      ⟨fun member => repr_ne_repr_succ first (List.mem_singleton.mp member), List.nodup_singleton _⟩
  · exact List.mem_cons_self
  · rw [exits_literal]
    exact repr_ne_repr_succ first
  · rw [exits_literal]
    exact Set.singleton_nonempty _
  · rw [moves_literal]
    rintro source symbol target ⟨rfl, _, rfl⟩
    exact ⟨List.mem_cons_self, List.mem_cons_of_mem _ List.mem_cons_self⟩

theorem passages_literal (first : Nat) (character : Char) :
    (literal first character).passages = .letter character := by
  rw [passages, moves_literal, exits_literal]
  exact Moves.passages_single (repr_ne_repr_succ first)

theorem proper_concat {first second : Fragment} (firstProper : first.Proper)
    (secondProper : second.Proper) (disjoint : first.names.Disjoint second.names) :
    (first.concat second).Proper := by
  apply (sound_concat firstProper.sound secondProper.sound disjoint).proper
  · rw [exits_concat]
    intro exit
    exact disjoint firstProper.start (second.exits_subset_names exit)
  · rw [exits_concat]
    exact secondProper.exits

theorem proper_alt {start : Nat} {first second : Fragment} (firstProper : first.Proper)
    (secondProper : second.Proper) (disjoint : first.names.Disjoint second.names)
    (freshFirst : start.repr ∉ first.names) (freshSecond : start.repr ∉ second.names) :
    (alt start first second).Proper := by
  apply (sound_alt firstProper.sound secondProper.sound disjoint freshFirst freshSecond).proper
  · rw [exits_alt]
    intro given
    rcases given with exit | exit
    · exact freshFirst (first.exits_subset_names exit)
    · exact freshSecond (second.exits_subset_names exit)
  · rw [exits_alt]
    exact firstProper.exits.inl

theorem proper_star {fragment : Fragment} (proper : fragment.Proper) : fragment.star.Proper := by
  apply (sound_star proper.sound).proper
  · rw [exits_star]
    exact proper.quiet
  · rw [exits_star]
    exact proper.exits

end Fragment

namespace Tree

theorem proper_fragment (tree : Tree) (first : Nat) : (tree.fragment first).Proper := by
  induction tree generalizing first with
  | literal character => exact Fragment.proper_literal first character
  | escaped character => exact Fragment.proper_literal first character
  | group _ ih => exact ih first
  | star _ ih => exact Fragment.proper_star (ih first)
  | concat left right leftIH rightIH =>
      exact Fragment.proper_concat (leftIH first) (rightIH _)
        (disjoint_names_fragment left right le_rfl)
  | alt left right leftIH rightIH =>
      refine Fragment.proper_alt (leftIH first) (rightIH _)
        (disjoint_names_fragment left right le_rfl) ?_ ?_
      · exact repr_not_mem_names_fragment (Or.inr (by omega))
      · exact repr_not_mem_names_fragment (Or.inr le_rfl)

/-- **The passages of a tree** are the words between the ends of its fragment,
wherever its numbers begin. -/
theorem passages_fragment (tree : Tree) (first : Nat) :
    (tree.fragment first).passages = tree.passages := by
  induction tree generalizing first with
  | literal character => exact Fragment.passages_literal first character
  | escaped character => exact Fragment.passages_literal first character
  | group _ ih => exact ih first
  | star inner ih =>
      have proper := inner.proper_fragment first
      rw [fragment, passages, ← ih first]
      exact Fragment.passages_star proper.sound proper.exits
  | concat left right leftIH rightIH =>
      have leftProper := left.proper_fragment first
      have rightProper := right.proper_fragment (first + left.names)
      rw [fragment, passages, ← leftIH first, ← rightIH]
      exact Fragment.passages_concat leftProper.sound rightProper.sound
        (disjoint_names_fragment left right le_rfl)
  | alt left right leftIH rightIH =>
      have leftProper := left.proper_fragment first
      have rightProper := right.proper_fragment (first + left.names)
      rw [fragment, passages, ← leftIH first, ← rightIH]
      exact Fragment.passages_alt leftProper.sound rightProper.sound
        (disjoint_names_fragment left right le_rfl)
        (repr_not_mem_names_fragment (Or.inr (by omega)))
        (repr_not_mem_names_fragment (Or.inr le_rfl))

end Tree

namespace Fragment

variable {fragment : Fragment} {alphabet : StringSet}

theorem entries_machine (distinct : fragment.names.Nodup) :
    (fragment.machine alphabet).states.entries =
      fragment.states.map fun state => (state.name, state) := by
  have keys : (fragment.states.map fun state => (state.name, state)).map Prod.fst =
      fragment.names := by
    rw [List.map_map]
    rfl
  exact Table.entries_ofList (keys ▸ distinct)

theorem keys_machine (distinct : fragment.names.Nodup) :
    (fragment.machine alphabet).states.keys = fragment.names := by
  rw [Table.keys, entries_machine distinct, List.map_map]
  rfl

theorem find?_machine (distinct : fragment.names.Nodup) {name : String} {state : State} :
    (fragment.machine alphabet).states.find? name = some state ↔
      state ∈ fragment.states ∧ state.name = name := by
  rw [Table.find?_eq_some_iff, entries_machine distinct, List.mem_map]
  constructor
  · intro given
    obtain ⟨_, member, same⟩ := given
    cases same
    exact ⟨member, rfl⟩
  · intro given
    obtain ⟨member, rfl⟩ := given
    exact ⟨state, member, rfl⟩

end Fragment

/-- A machine has the start and the states of a fragment, and owns each state under the
state's own name. -/
structure Machine.Presents (machine : Machine) (fragment : Fragment) : Prop where
  start : machine.start = some fragment.start
  find?_iff : ∀ name state, machine.states.find? name = some state ↔
    state ∈ fragment.states ∧ state.name = name

namespace Machine.Presents

variable {machine : Machine} {fragment : Fragment}

theorem mem_keys_iff (presents : machine.Presents fragment) {name : String} :
    name ∈ machine.states.keys ↔ name ∈ fragment.names := by
  rw [Table.mem_keys_iff, Fragment.names, List.mem_map]
  simp only [presents.find?_iff]

theorem leads (presents : machine.Presents fragment) : machine.Leads = fragment.moves := by
  funext source symbol target
  apply propext
  simp only [Machine.Leads, presents.find?_iff, Fragment.moves, and_assoc]

theorem exits (presents : machine.Presents fragment) : machine.exits = fragment.exits := by
  ext name
  have exit : name ∈ machine.exits ↔
      ∃ state, machine.states.find? name = some state ∧ state.accepting = true := Iff.rfl
  simp only [exit, presents.find?_iff, Fragment.mem_exits, and_assoc, and_comm]

theorem passages (presents : machine.Presents fragment) :
    machine.passages fragment.start = fragment.passages := by
  rw [Machine.passages, presents.leads, presents.exits]
  rfl

/-- A machine recognises what leads through the fragment that it presents. -/
theorem recognises_iff (presents : machine.Presents fragment) {word : List Char} :
    machine.Recognises word ↔ word ∈ fragment.passages.through := by
  rw [Machine.recognises_iff_through presents.start, presents.passages]

end Machine.Presents

namespace Fragment

variable {fragment : Fragment} {alphabet : StringSet}

theorem presents_machine (distinct : fragment.names.Nodup) :
    (fragment.machine alphabet).Presents fragment where
  start := rfl
  find?_iff _ _ := find?_machine distinct

theorem leads_machine (distinct : fragment.names.Nodup) :
    (fragment.machine alphabet).Leads = fragment.moves :=
  (presents_machine distinct).leads

end Fragment

/-- The machine of a tree recognises the words that lead through the tree. -/
theorem Tree.recognises_fragment_iff {tree : Tree} {first : Nat} {alphabet : StringSet}
    {word : List Char} :
    ((tree.fragment first).machine alphabet).Recognises word ↔ word ∈ tree.passages.through := by
  have presents : ((tree.fragment first).machine alphabet).Presents (tree.fragment first) :=
    Fragment.presents_machine (tree.nodup_names_fragment first)
  rw [presents.recognises_iff, tree.passages_fragment]

end PatternAutomata
