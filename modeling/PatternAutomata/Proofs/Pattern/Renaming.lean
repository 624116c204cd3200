import PatternAutomata.Proofs.Pattern.Wiring

/-! # Renaming states

A machine may give its states other names (`Machine.rename`): they stay in their order, as do
the symbols of their transitions, and targets change with the states that they name. The
fragment of a tree that is numbered from further on is the same fragment under other names,
each numeral raised by the same amount (`Tree.fragment_add`).
-/

namespace PatternAutomata

namespace StringSet

/-- The set of what a function makes of the members. -/
def map (change : String → String) (set : StringSet) : StringSet :=
  ofList (set.toList.map change)

theorem mem_map {change : String → String} {set : StringSet} {text : String} :
    text ∈ set.map change ↔ ∃ other ∈ set, change other = text := by
  rw [map, mem_ofList, List.mem_map]
  rfl

theorem map_insert (change : String → String) (set : StringSet) (text : String) :
    (set.insert text).map change = (set.map change).insert (change text) := by
  apply eq_of_mem_iff
  intro other
  simp only [mem_map, mem_insert, exists_eq_or_imp]
  exact or_congr_left eq_comm

end StringSet

theorem Table.map_insert {α β : Type} (change : α → β) (table : Table α) (key : String)
    (value : α) : (table.insert key value).map change = (table.map change).insert key (change value) := by
  obtain ⟨entries, distinct⟩ := table
  apply Table.ext
  change (insertInto key value entries).map (fun entry => (entry.1, change entry.2)) =
    insertInto key (change value) (entries.map fun entry => (entry.1, change entry.2))
  clear distinct
  induction entries with
  | nil => rfl
  | cons entry rest ih =>
      by_cases same : entry.1 = key
      · simp only [insertInto, same, if_true, List.map_cons]
      · simp only [insertInto, same, if_false, List.map_cons, ih]

namespace State

/-- The state under another name, with targets renamed. -/
def rename (change : String → String) (state : State) : State where
  name := change state.name
  accepting := state.accepting
  transitions := state.transitions.map (·.map change)

variable {change : String → String} {state : State}

@[simp] theorem accepting_rename : (state.rename change).accepting = state.accepting := rfl

@[simp] theorem targets_rename (symbol : String) :
    (state.rename change).targets symbol = (state.targets symbol).map change := by
  rw [targets, rename, Table.find?_map, targets]
  cases state.transitions.find? symbol with
  | none => rfl
  | some targets => rfl

theorem rename_connect (symbol target : String) :
    (state.connect symbol target).rename change =
      (state.rename change).connect symbol (change target) := by
  apply State.ext
  · rfl
  · rfl
  · change (state.transitions.insert symbol _).map _ = _
    rw [Table.map_insert, StringSet.map_insert, ← targets_rename]
    rfl

theorem rename_handOver (entry : String) :
    (state.handOver entry).rename change = (state.rename change).handOver (change entry) := by
  unfold handOver
  by_cases accepts : state.accepting = true
  · rw [accepting_rename, if_pos accepts, if_pos accepts, rename_connect]
    rfl
  · rw [accepting_rename, if_neg accepts, if_neg accepts]

theorem rename_branch (entries : List String) :
    (state.branch entries).rename change = (state.rename change).branch (entries.map change) := by
  induction entries generalizing state with
  | nil => rfl
  | cons entry entries ih => rw [branch_cons, ih, rename_connect, List.map_cons, branch_cons]

/-- A state without transitions. -/
theorem rename_bare (name : String) (accepting : Bool) :
    ({ name, accepting } : State).rename change = { name := change name, accepting } := rfl

end State

namespace Fragment

/-- The fragment with its states renamed. -/
def rename (change : String → String) (fragment : Fragment) : Fragment where
  start := change fragment.start
  states := fragment.states.map (State.rename change)

variable {change : String → String} {fragment : Fragment}

@[simp] theorem accepting_rename :
    (fragment.rename change).accepting = fragment.accepting.map change := by
  rw [accepting, accepting, rename, List.filter_map, List.map_map, List.map_map]
  rfl

theorem rename_concat (first second : Fragment) :
    (first.concat second).rename change = (first.rename change).concat (second.rename change) := by
  apply Fragment.ext
  · rfl
  · simp only [rename, concat, List.map_append, List.map_map]
    congr 1
    exact List.map_congr_left fun state _ => state.rename_handOver second.start

/-- A star asks which state is the start, so the start must keep a name of its own. -/
theorem rename_star (apart : ∀ state ∈ fragment.states,
      change state.name = change fragment.start → state.name = fragment.start) :
    fragment.star.rename change = (fragment.rename change).star := by
  apply Fragment.ext
  · rfl
  · simp only [rename, star, List.map_map]
    refine List.map_congr_left fun state member => ?_
    have start : (state.rename change).name = (fragment.rename change).start ↔
        state.name = fragment.start := ⟨apart state member, congrArg change⟩
    have onward : (if state.name = fragment.start then state.branch fragment.accepting
        else state).rename change =
          if (state.rename change).name = (fragment.rename change).start then
            (state.rename change).branch (fragment.rename change).accepting
          else state.rename change := by
      simp only [start, accepting_rename]
      split
      · exact State.rename_branch _
      · rfl
    change (fragment.around state).rename change =
      (fragment.rename change).around (state.rename change)
    rw [around, around, State.accepting_rename]
    split
    · rw [State.rename_connect, onward]
      rfl
    · exact onward

end Fragment

/-- The machine with its states renamed. -/
def Machine.rename (change : String → String) (machine : Machine) : Machine where
  start := machine.start.map change
  states := Table.ofList (machine.states.entries.map fun entry =>
    (change entry.1, entry.2.rename change))
  accepting := machine.accepting.map change
  alphabet := machine.alphabet

theorem Fragment.rename_machine {fragment : Fragment} (distinct : fragment.names.Nodup)
    (change : String → String) (alphabet : StringSet) :
    (fragment.machine alphabet).rename change = (fragment.rename change).machine alphabet := by
  apply Machine.ext
  · rfl
  · change Table.ofList ((fragment.machine alphabet).states.entries.map _) = Table.ofList _
    rw [entries_machine distinct, rename, List.map_map, List.map_map]
    rfl
  · exact accepting_rename.symm
  · rfl

/-- Raises a numeral; what is no numeral stays as it is. -/
def raise (amount : Nat) (name : String) : String :=
  match name.toNat? with
  | some number => (number + amount).repr
  | none => name

@[simp] theorem raise_repr (amount number : Nat) : raise amount number.repr = (number + amount).repr := by
  rw [raise, Nat.toNat?_repr]

namespace Tree

/-- **A fragment that is numbered from further on** is the same under raised names. -/
theorem fragment_add (tree : Tree) (first amount : Nat) :
    tree.fragment (first + amount) = (tree.fragment first).rename (raise amount) := by
  have literal (first : Nat) (character : Char) : Fragment.literal (first + amount) character =
      (Fragment.literal first character).rename (raise amount) := by
    simp only [Fragment.literal, Fragment.rename, List.map_cons, List.map_nil,
      State.rename_connect, State.rename_bare, raise_repr, Nat.add_right_comm first 1 amount]
  induction tree generalizing first with
  | literal character => exact literal first character
  | escaped character => exact literal first character
  | group _ ih => exact ih first
  | star inner ih =>
      rw [fragment, fragment, ih, Fragment.rename_star]
      intro state member same
      obtain ⟨number, _, _, named⟩ := mem_names_fragment.mp (List.mem_map_of_mem member)
      obtain ⟨start, _, _, started⟩ := mem_names_fragment.mp (inner.proper_fragment first).start
      rw [← named, ← started, raise_repr, raise_repr] at same
      rw [← named, ← started, Nat.add_right_cancel (Nat.repr_injective same)]
  | concat left right leftIH rightIH =>
      rw [fragment, fragment, Fragment.rename_concat, leftIH, Nat.add_right_comm, rightIH]
  | alt left right leftIH rightIH =>
      simp only [fragment]
      rw [leftIH, Nat.add_right_comm first amount, rightIH,
        Nat.add_right_comm (first + left.names) amount]
      apply Fragment.ext
      · exact (raise_repr _ _).symm
      · simp only [Fragment.alt, Fragment.rename, List.map_cons, List.map_append, List.cons_append,
          State.rename_branch, State.rename_bare, raise_repr, List.map_nil]

end Tree

end PatternAutomata
