import PatternAutomata.Proofs.Pattern.Openings
import PatternAutomata.Proofs.Recognition

/-! # Printouts of compiled patterns

The printout of a compiled pattern tells all of its automaton (`Action.print_compile_injective`),
although it has no escaping and any character can be a literal, also a line end, a separator or the
letter that is shown for epsilon. The names in the first line are numerals, whose order tells which
states open a literal; with this the lines of transitions can be read one after another, and the
lists are read from brace to brace.
-/

namespace PatternAutomata

namespace Fragment

variable {fragment other : Fragment} {alphabet : StringSet}

/-- The text of a fragment's machine, spelled out. -/
def printed (fragment : Fragment) (alphabet : StringSet) : List Char :=
  Printout.spell [Printout.listing "Q" fragment.names,
      Printout.listing "Sigma" alphabet.toList, "delta ="]
    (Printout.spellStates fragment.states
      (Printout.spell ["q0 = " ++ fragment.start, Printout.listing "F" fragment.accepting] []))

/-- Printing the machine of a fragment that owns its start comes to its end. -/
theorem toList_print (distinct : fragment.names.Nodup) (owned : fragment.start ∈ fragment.names) :
    (fragment.machine alphabet).print.text.toList = fragment.printed alphabet := by
  obtain ⟨start, member, named⟩ := List.mem_map.mp owned
  have found : (fragment.machine alphabet).startState = .ok start := by
    change (fragment.machine alphabet).stateNamed fragment.start = .ok start
    rw [Machine.stateNamed, (find?_machine distinct).mpr ⟨member, named⟩]
  have values : (fragment.machine alphabet).states.values = fragment.states := by
    rw [Table.values, entries_machine distinct, List.map_map]
    exact List.map_id _
  have above : (fragment.machine alphabet).linesAboveStart =
      [Printout.listing "Q" fragment.names, Printout.listing "Sigma" alphabet.toList, "delta ="] ++
        fragment.states.flatMap Printout.transitions := by
    rw [Machine.linesAboveStart, keys_machine distinct, values]
    rfl
  rw [Machine.print, found]
  simp only [above, named, Printout.toList_lines, Printout.spell_append]
  rfl

/-- The names of states are numerals, and so are the targets of their transitions. -/
structure Numbered (fragment : Fragment) : Prop where
  names : ∀ name ∈ fragment.names, IsNumeral name
  targets : ∀ state ∈ fragment.states, state.LeadsToNumerals

theorem Proper.numbered (proper : fragment.Proper)
    (numerals : ∀ name ∈ fragment.names, IsNumeral name) : fragment.Numbered where
  names := numerals
  targets state member entry listed target inside := by
    have found := Table.find?_eq_some_iff.mpr listed
    have leads : target ∈ state.targets entry.1 :=
      State.mem_targets_iff.mpr ⟨entry.2, found, StringSet.mem_def.mpr inside⟩
    exact numerals target (proper.within _ _ _ ⟨state, member, rfl, leads⟩).2

theorem Proper.names_ne_nil (proper : fragment.Proper) : fragment.names ≠ [] :=
  List.ne_nil_of_mem proper.start

theorem Proper.accepting_ne_nil (proper : fragment.Proper) : fragment.accepting ≠ [] := by
  obtain ⟨name, exit⟩ := proper.exits
  exact List.ne_nil_of_mem exit

theorem Numbered.isItem (numbered : fragment.Numbered) :
    ∀ name ∈ fragment.names, Printout.IsItem name :=
  fun name member => Printout.isItem_of_isNumeral (numbered.names name member)

theorem Numbered.isItem_accepting (numbered : fragment.Numbered) :
    ∀ name ∈ fragment.accepting, Printout.IsItem name :=
  fun name member => numbered.isItem name (fragment.exits_subset_names member)

/-- The last two lines tell the start and the accepting names. -/
theorem Proper.end_unique (proper : fragment.Proper) (properOther : other.Proper)
    (numbered : fragment.Numbered) (numberedOther : other.Numbered)
    (same : Printout.spell ["q0 = " ++ fragment.start, Printout.listing "F" fragment.accepting] [] =
      Printout.spell ["q0 = " ++ other.start, Printout.listing "F" other.accepting] []) :
    fragment.start = other.start ∧ fragment.accepting = other.accepting := by
  rw [Printout.spell_titled, Printout.spell_titled] at same
  obtain ⟨start, lists⟩ := Printout.cut
    ((numbered.names _ proper.start).not_mem (by decide))
    ((numberedOther.names _ properOther.start).not_mem (by decide)) (List.append_cancel_left same)
  rw [Printout.spell_listing _ proper.accepting_ne_nil,
    Printout.spell_listing _ properOther.accepting_ne_nil] at lists
  obtain ⟨accepting, _⟩ := Printout.spaced_unique numbered.isItem_accepting
    numberedOther.isItem_accepting (List.append_cancel_left lists)
  exact ⟨String.toList_inj.mp start, accepting⟩

/-- States accept exactly if they are listed as accepting. -/
theorem accepting_iff (distinct : fragment.names.Nodup) {state : State}
    (member : state ∈ fragment.states) :
    state.accepting = true ↔ state.name ∈ fragment.accepting := by
  rw [mem_accepting]
  constructor
  · exact fun accepts => ⟨state, member, accepts, rfl⟩
  · rintro ⟨twin, inside, accepts, same⟩
    obtain rfl := List.inj_on_of_nodup_map distinct inside member same
    exact accepts

end Fragment

/-- States in a row are known by their names, flags and transitions. -/
theorem State.list_eq {states others : List State}
    (names : states.map (·.name) = others.map (·.name))
    (transitions : states.map (·.transitions) = others.map (·.transitions))
    (flags : ∀ state ∈ states, ∀ other ∈ others, state.name = other.name →
      (state.accepting = true ↔ other.accepting = true)) : states = others := by
  induction states generalizing others with
  | nil => exact (List.map_eq_nil_iff.mp names.symm).symm
  | cons state states ih =>
      cases others with
      | nil => cases names
      | cons other others =>
          obtain ⟨named, namesRest⟩ := List.cons.inj names
          obtain ⟨moves, movesRest⟩ := List.cons.inj transitions
          have flag := flags state List.mem_cons_self other List.mem_cons_self named
          have same : state = other := State.ext named (Bool.eq_iff_iff.mpr flag) moves
          rw [same, ih namesRest movesRest fun state member other inside =>
            flags state (List.mem_cons_of_mem _ member) other (List.mem_cons_of_mem _ inside)]

namespace Tree

theorem literals_ne_nil (tree : Tree) : tree.literals ≠ [] := by
  induction tree with
  | literal character => exact List.cons_ne_nil _ _
  | escaped character => exact List.cons_ne_nil _ _
  | group _ ih => exact ih
  | star _ ih => exact ih
  | concat _ _ leftIH _ => exact List.append_ne_nil_of_left_ne_nil leftIH _
  | alt _ _ leftIH _ => exact List.append_ne_nil_of_left_ne_nil leftIH _

theorem alphabet_ne_nil (tree : Tree) : tree.alphabet.toList ≠ [] := by
  obtain ⟨character, member⟩ := List.exists_mem_of_ne_nil _ tree.literals_ne_nil
  have letter : String.singleton character ∈ tree.alphabet :=
    StringSet.mem_ofList.mpr (List.mem_map_of_mem member)
  exact List.ne_nil_of_mem letter

theorem isItem_of_mem_alphabet {tree : Tree} {symbol : String}
    (member : symbol ∈ tree.alphabet.toList) : Printout.IsItem symbol := by
  obtain ⟨loud, proper⟩ := letter_of_mem_alphabet (StringSet.mem_def.mpr member)
  obtain ⟨character, rfl⟩ := exists_singleton_of_isSymbol proper loud
  exact Printout.isItem_singleton character

theorem numbered_fragment (tree : Tree) (first : Nat) : (tree.fragment first).Numbered := by
  refine (tree.proper_fragment first).numbered fun name member => ?_
  obtain ⟨number, _, _, rfl⟩ := mem_names_fragment.mp member
  exact isNumeral_repr number

/-- Fragments with the same names have the same states opening literals. -/
theorem openings_of_names {tree other : Tree} {first count : Nat}
    (names : (tree.fragment first).names = (other.fragment count).names) :
    tree.openings = other.openings := by
  rw [names_eq_map_numbers, names_eq_map_numbers] at names
  have numbers := List.map_injective_iff.mpr (fun _ _ => Nat.repr_injective) names
  have left := tree.openings_numbers first []
  have right := other.openings_numbers count []
  rw [numbers] at left
  exact List.append_cancel_right (left.symm.trans right)

/-- **A fragment can be told from its printed form.** -/
theorem fragment_of_printed {tree other : Tree} {first count : Nat}
    (same : (tree.fragment first).printed tree.alphabet =
      (other.fragment count).printed other.alphabet) :
    tree.fragment first = other.fragment count ∧ tree.alphabet = other.alphabet := by
  have proper := tree.proper_fragment first
  have properOther := other.proper_fragment count
  have numbered := tree.numbered_fragment first
  have numberedOther := other.numbered_fragment count
  unfold Fragment.printed at same
  -- the names
  rw [Printout.spell_listing _ proper.names_ne_nil,
    Printout.spell_listing _ properOther.names_ne_nil] at same
  obtain ⟨names, same⟩ := Printout.spaced_unique numbered.isItem numberedOther.isItem
    (List.append_cancel_left same)
  -- the characters
  rw [Printout.spell_listing _ tree.alphabet_ne_nil,
    Printout.spell_listing _ other.alphabet_ne_nil] at same
  obtain ⟨letters, same⟩ := Printout.spaced_unique (fun _ => isItem_of_mem_alphabet)
    (fun _ => isItem_of_mem_alphabet) (List.append_cancel_left same)
  -- the transitions, once it is known which states open a literal
  have body := Printout.spell_cancel same
  rw [Printout.spell_nil, Printout.spell_nil] at body
  obtain ⟨transitions, same⟩ := Printout.transitions_unique (tree.opens_fragment first)
    (openings_of_names names ▸ other.opens_fragment count) names proper.distinct
    (fun state member => numbered.names _ (List.mem_map_of_mem member)) numbered.targets
    numberedOther.targets (Printout.isForeign_start _ _) (Printout.isForeign_start _ _)
    body
  -- the start, and which states accept
  obtain ⟨start, accepting⟩ := proper.end_unique properOther numbered numberedOther same
  have states := State.list_eq names transitions fun state member twin inside named => by
    rw [Fragment.accepting_iff proper.distinct member,
      Fragment.accepting_iff properOther.distinct inside, accepting, named]
  exact ⟨Fragment.ext start states, StringSet.ext letters⟩

end Tree

namespace Action

/-- **A printout loses nothing.** Compiled patterns with the same printout have automata of the same
value: the same states in the same order with the same flags and transitions, the same start, the
same accepting names in the same order and the same alphabet. -/
theorem print_compile_injective {store store' after after' : Store}
    {compiler compiler' : CompilerRef} {automaton automaton' : AutomatonRef}
    (held : compiler ∈ store.compilers) (held' : compiler' ∈ store'.compilers)
    (ran : (compile compiler).run store = .ok automaton after)
    (ran' : (compile compiler').run store' = .ok automaton' after')
    (same : (after.machine automaton).print.text = (after'.machine automaton').print.text) :
    after.machine automaton = after'.machine automaton' := by
  obtain ⟨tree, _, value⟩ := machine_of_compile held ran
  obtain ⟨tree', _, value'⟩ := machine_of_compile held' ran'
  have proper := tree.proper_fragment (store.compilers.get compiler).names
  have proper' := tree'.proper_fragment (store'.compilers.get compiler').names
  rw [value, value', ← String.toList_inj, Fragment.toList_print proper.distinct proper.start,
    Fragment.toList_print proper'.distinct proper'.start] at same
  obtain ⟨fragments, alphabets⟩ := Tree.fragment_of_printed same
  rw [value, value', fragments, alphabets]

/-- Two ways to write an alternative of a line end and the letter that is shown for epsilon. -/
theorem print_compile_injective_grouped :
    let left := ['\n', '|', 'ε']
    let right := ['(', '\n', ')', '|', 'ε']
    let text := "Q = \x7b 4 0 1 2 3 \x7d\nSigma = \x7b \n ε \x7d\ndelta =\n4,ε,0\n4,ε,2\n" ++
      "0,\n,1\n2,ε,3\nq0 = 4\nF = \x7b 1 3 \x7d\n"
    ∃ (automaton automaton' : AutomatonRef) (after after' : Store),
      (compile ⟨0⟩).run (.reading left) = .ok automaton after ∧
      (compile ⟨0⟩).run (.reading right) = .ok automaton' after' ∧
      (after.machine automaton).print.text = text ∧
      (after'.machine automaton').print.text = text ∧
      after.machine automaton = after'.machine automaton' := by
  intro left right text
  have read : readPattern left = .ok (.alt (.literal '\n') (.literal 'ε')) := by decide +kernel
  have read' : readPattern right = .ok (.alt (.group (.literal '\n')) (.literal 'ε')) := by
    decide +kernel
  have held (pattern : List Char) : (⟨0⟩ : CompilerRef) ∈ (Store.reading pattern).compilers :=
    Heap.mem_add.mpr (Or.inr rfl)
  obtain ⟨automaton, after, ran⟩ := exists_run_compile read
  obtain ⟨automaton', after', ran'⟩ := exists_run_compile read'
  obtain ⟨tree, readTree, value⟩ := machine_of_compile (held left) ran
  obtain ⟨tree', readTree', value'⟩ := machine_of_compile (held right) ran'
  cases readTree.symm.trans read
  cases readTree'.symm.trans read'
  have printed : (after.machine automaton).print.text = text := by
    rw [value]
    decide +kernel
  have printed' : (after'.machine automaton').print.text = text := by
    rw [value']
    decide +kernel
  exact ⟨automaton, automaton', after, after', ran, ran', printed, printed',
    print_compile_injective (held left) (held right) ran ran' (printed.trans printed'.symm)⟩

end Action

end PatternAutomata
