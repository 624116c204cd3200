import Mathlib.Data.List.Nodup
import PatternAutomata.Proofs.Machine.Acceptance
import PatternAutomata.Proofs.Machine.Printout

/-! # The lines of a printout

The lines of transitions can be told from a printout if states have numerals for names, targets are
owned and symbols are epsilon or one character: a line is then a numeral, a character between
commas and a numeral (`Printout.shown_unique`). The alphabet may hold any text, also one that looks
like lines of a printout; the title of the transitions is found as the last place where a `d` stands
before an `e` (`Printout.cut_last`).

What is told is how each transition is shown. Two transitions are shown alike only if they differ
in that one is silent and the other is on the letter that is shown for epsilon
(`Printout.count_shown`).
-/

namespace PatternAutomata

namespace Printout

section Title

/-- No `d` stands right before an `e`. -/
def Untitled (text : List Char) : Prop :=
  text.IsChain fun before after => before = 'd' → after ≠ 'e'

theorem untitled_cons {first : Char} {rest : List Char} (plain : first ≠ 'd')
    (untitled : Untitled rest) : Untitled (first :: rest) := by
  cases rest with
  | nil => exact List.isChain_singleton _
  | cons second rest =>
      exact List.isChain_cons_cons.mpr ⟨fun same => absurd same plain, untitled⟩

theorem untitled_append {left right : List Char} (plain : 'd' ∉ left) (untitled : Untitled right) :
    Untitled (left ++ right) := by
  induction left with
  | nil => exact untitled
  | cons first left ih =>
      exact untitled_cons (List.ne_of_not_mem_cons plain).symm
        (ih (List.not_mem_of_not_mem_cons plain))

theorem untitled_of_not_mem {text : List Char} (plain : 'd' ∉ text) : Untitled text := by
  have whole := untitled_append plain (List.isChain_nil : Untitled [])
  rwa [List.append_nil] at whole

/-- A title cannot stand behind another one that is the last. -/
theorem eq_nil_of_titled {between rest later : List Char} (untitled : Untitled ('e' :: rest))
    (same : 'd' :: 'e' :: rest = between ++ 'd' :: 'e' :: later) : between = [] := by
  cases between with
  | nil => rfl
  | cons head between =>
      have within : 'e' :: rest = between ++ 'd' :: 'e' :: later := (List.cons.inj same).2
      rw [within] at untitled
      exact absurd rfl ((List.isChain_append_cons_cons.mp untitled).2.1 rfl)

/-- The last place where a `d` stands before an `e` can be told. -/
theorem cut_last {left right rest later : List Char} (untitled : Untitled ('e' :: rest))
    (untitledLater : Untitled ('e' :: later))
    (same : left ++ 'd' :: 'e' :: rest = right ++ 'd' :: 'e' :: later) :
    left = right ∧ rest = later := by
  have lefts : left = right := by
    obtain ⟨between, rfl, tails⟩ | ⟨between, rfl, tails⟩ := List.append_eq_append_iff.mp same
    · rw [eq_nil_of_titled untitled tails, List.append_nil]
    · rw [eq_nil_of_titled untitledLater tails, List.append_nil]
  subst lefts
  exact ⟨rfl, (List.cons.inj (List.cons.inj (List.append_cancel_left same)).2).2⟩

end Title

/-- What is in a list between braces is in its title, in an item or around the items. -/
theorem not_mem_listing {mark : Char} {title : String} {items : List String}
    (notTitle : mark ∉ title.toList) (notItems : ∀ item ∈ items, mark ∉ item.toList)
    (plain : mark ∉ [' ', '=', '\x7b', '\x7d']) : mark ∉ (listing title items).toList := by
  have joined : mark ∉ (" ".intercalate items).toList := by
    induction items with
    | nil => exact List.not_mem_nil
    | cons item items ih =>
        obtain ⟨notItem, others⟩ := List.forall_mem_cons.mp notItems
        cases items with
        | nil => simpa using notItem
        | cons next items =>
            have notOthers := ih others
            rw [String.intercalate_cons_cons]
            simp_all
  simp_all [listing]

/-- A transition: the source, the symbol and the target. -/
abbrev Arrow := String × String × String

/-- The line of a transition. -/
def line (arrow : Arrow) : String :=
  transition arrow.1 arrow.2.1 arrow.2.2

/-- What the line shows of a transition. -/
def shown (arrow : Arrow) : Arrow :=
  (arrow.1, label arrow.2.1, arrow.2.2)

/-- A transition on a symbol between numerals. -/
structure Plain (arrow : Arrow) : Prop where
  source : IsNumeral arrow.1
  symbol : IsSymbol arrow.2.1
  target : IsNumeral arrow.2.2

/-- A symbol is shown by one character. -/
theorem exists_label {symbol : String} (proper : IsSymbol symbol) :
    ∃ character, (label symbol).toList = [character] := by
  by_cases silent : symbol = epsilon
  · exact ⟨'ε', by rw [label, if_pos silent]; rfl⟩
  · obtain ⟨character, rfl⟩ := exists_singleton_of_isSymbol proper silent
    exact ⟨character, by rw [label_singleton, String.toList_singleton]⟩

/-- The line of a plain transition, spelled out. -/
theorem spell_line (arrow : Arrow) (lines : List String) (rest : List Char) :
    spell (line arrow :: lines) rest = arrow.1.toList ++ ',' ::
      ((label arrow.2.1).toList ++ ',' :: (arrow.2.2.toList ++ '\n' :: spell lines rest)) := by
  rw [spell_cons, line, toList_transition]
  simp

theorem untitled_lines {arrows : List Arrow} (plain : ∀ arrow ∈ arrows, Plain arrow)
    {rest : List Char} (untitled : Untitled rest) : Untitled (spell (arrows.map line) rest) := by
  induction arrows with
  | nil => exact untitled
  | cons arrow arrows ih =>
      obtain ⟨head, others⟩ := List.forall_mem_cons.mp plain
      obtain ⟨character, labelled⟩ := exists_label head.symbol
      have behind : Untitled (',' :: (arrow.2.2.toList ++ '\n' :: spell (arrows.map line) rest)) :=
        untitled_cons (by decide) <|
          untitled_append (head.target.not_mem (by decide)) <|
            untitled_cons (by decide) (ih others)
      rw [List.map_cons, spell_line, labelled]
      refine untitled_append (head.source.not_mem (by decide)) (untitled_cons (by decide) ?_)
      exact List.isChain_cons_cons.mpr ⟨fun _ => by decide, behind⟩

/-- A line of a transition begins with a digit. -/
theorem not_isForeign_line {arrow : Arrow} (plain : Plain arrow) (lines : List String)
    (rest : List Char) : ¬ IsForeign (spell (line arrow :: lines) rest) := by
  intro foreign
  obtain ⟨first, others, spelled⟩ := List.exists_cons_of_ne_nil plain.source.1
  have digit := plain.source.2 first (spelled ▸ List.mem_cons_self)
  rw [spell_line, spelled] at foreign
  rw [foreign first rfl] at digit
  cases digit

/-- **Lines of plain transitions tell what they show**, and where they end. -/
theorem shown_unique {arrows others : List Arrow} (plain : ∀ arrow ∈ arrows, Plain arrow)
    (plainOthers : ∀ arrow ∈ others, Plain arrow) {rest later : List Char}
    (foreign : IsForeign rest) (foreignLater : IsForeign later)
    (same : spell (arrows.map line) rest = spell (others.map line) later) :
    arrows.map shown = others.map shown ∧ rest = later := by
  induction arrows generalizing others with
  | nil =>
      cases others with
      | nil => exact ⟨rfl, same⟩
      | cons other others =>
          rw [List.map_nil, spell_nil] at same
          exact absurd (same ▸ foreign)
            (not_isForeign_line (List.forall_mem_cons.mp plainOthers).1 _ later)
  | cons arrow arrows ih =>
      cases others with
      | nil =>
          rw [List.map_nil, spell_nil] at same
          exact absurd (same ▸ foreignLater)
            (not_isForeign_line (List.forall_mem_cons.mp plain).1 _ rest)
      | cons other others =>
          obtain ⟨head, tail⟩ := List.forall_mem_cons.mp plain
          obtain ⟨headOther, tailOther⟩ := List.forall_mem_cons.mp plainOthers
          obtain ⟨character, labelled⟩ := exists_label head.symbol
          obtain ⟨read, labelledOther⟩ := exists_label headOther.symbol
          rw [List.map_cons, List.map_cons, spell_line, spell_line, labelled, labelledOther] at same
          obtain ⟨source, behindSource⟩ := cut (head.source.not_mem (by decide))
            (headOther.source.not_mem (by decide)) same
          obtain ⟨rfl, behindLabel⟩ := List.cons.inj behindSource
          obtain ⟨target, behindTarget⟩ := cut (head.target.not_mem (by decide))
            (headOther.target.not_mem (by decide)) (List.cons.inj behindLabel).2
          obtain ⟨shownRest, rests⟩ := ih tail tailOther behindTarget
          have shownHead : shown arrow = shown other := by
            rw [shown, shown, String.toList_inj.mp source,
              String.toList_inj.mp (labelled.trans labelledOther.symm), String.toList_inj.mp target]
          rw [List.map_cons, List.map_cons, shownHead, shownRest]
          exact ⟨rfl, rests⟩

/-- Transitions on a character are shown as themselves, and silent ones as those on the letter that
is shown for epsilon. -/
theorem count_shown (arrows : List Arrow) {source symbol target : String}
    (loud : symbol ≠ epsilon) :
    (arrows.map shown).count (source, symbol, target) =
      arrows.count (source, symbol, target) +
        if symbol = "ε" then arrows.count (source, epsilon, target) else 0 := by
  induction arrows with
  | nil => simp
  | cons arrow arrows ih =>
      obtain ⟨first, read, last⟩ := arrow
      rw [List.map_cons, List.count_cons, List.count_cons, List.count_cons, ih]
      by_cases silent : read = epsilon
      · subst silent
        simp only [shown, label, if_true, beq_iff_eq, Prod.mk.injEq, loud.symm]
        by_cases letter : symbol = "ε"
        · simp [letter]
          omega
        · simp [letter, Ne.symm letter]
      · simp only [shown, label, beq_iff_eq, Prod.mk.injEq, silent]
        split
        · simp
          omega
        · simp

end Printout

namespace State

variable {state : State}

/-- The transitions of a state, in the order in which they are printed. -/
def arrows (state : State) : List Printout.Arrow :=
  state.transitions.entries.flatMap fun entry =>
    entry.2.toList.map fun target => (state.name, entry.1, target)

theorem map_line_arrows (state : State) :
    state.arrows.map Printout.line = Printout.transitions state := by
  simp only [arrows, Printout.transitions, List.map_flatMap, List.map_map]
  rfl

theorem mem_arrows {source symbol target : String} :
    (source, symbol, target) ∈ state.arrows ↔
      source = state.name ∧ target ∈ state.targets symbol := by
  simp only [arrows, List.mem_flatMap, List.mem_map, Prod.mk.injEq, mem_targets_iff,
    Table.find?_eq_some_iff]
  constructor
  · rintro ⟨⟨_, targets⟩, listed, _, member, rfl, rfl, rfl⟩
    exact ⟨rfl, targets, listed, member⟩
  · rintro ⟨rfl, targets, listed, member⟩
    exact ⟨(symbol, targets), listed, target, member, rfl, rfl, rfl⟩

theorem nodup_arrows (state : State) : state.arrows.Nodup := by
  have distinct : (state.transitions.entries.map Prod.fst).Nodup := state.transitions.distinct
  refine List.nodup_flatMap.mpr ⟨fun entry _ => ?_, ?_⟩
  · have members : entry.2.toList.Nodup := entry.2.sorted.imp fun {_ _} less => ne_of_lt less
    exact members.map fun _ _ same => (Prod.ext_iff.mp (Prod.ext_iff.mp same).2).2
  · refine (List.pairwise_map.mp distinct).imp fun {entry other} apart arrow member also => ?_
    obtain ⟨_, _, rfl⟩ := List.mem_map.mp member
    obtain ⟨_, _, same⟩ := List.mem_map.mp also
    exact apart (Prod.ext_iff.mp (Prod.ext_iff.mp same).2).1.symm

end State

namespace Machine

variable {machine : Machine}

/-- The transitions of the owned states, in the order in which they are printed. -/
def arrows (machine : Machine) : List Printout.Arrow :=
  machine.states.values.flatMap State.arrows

namespace Whole

theorem mem_values (whole : machine.Whole) {state : State} :
    state ∈ machine.states.values ↔ machine.states.find? state.name = some state := by
  constructor
  · intro member
    obtain ⟨⟨name, _⟩, listed, rfl⟩ := List.mem_map.mp member
    have found := Table.find?_eq_some_iff.mpr listed
    rwa [whole.named name _ found]
  · exact Table.mem_values_of_find?

theorem map_name_values (whole : machine.Whole) :
    machine.states.values.map (·.name) = machine.states.keys := by
  rw [Table.values, Table.keys, List.map_map]
  exact List.map_congr_left fun entry listed =>
    whole.named entry.1 entry.2 (Table.find?_eq_some_iff.mpr listed)

theorem mem_arrows (whole : machine.Whole) {source symbol target : String} :
    (source, symbol, target) ∈ machine.arrows ↔ machine.Leads source symbol target := by
  simp only [arrows, List.mem_flatMap, State.mem_arrows, whole.mem_values]
  constructor
  · rintro ⟨state, found, rfl, leads⟩
    exact ⟨state, found, leads⟩
  · rintro ⟨state, found, leads⟩
    obtain rfl := whole.named source state found
    exact ⟨state, found, rfl, leads⟩

theorem nodup_arrows (whole : machine.Whole) : machine.arrows.Nodup := by
  have distinct : (machine.states.values.map (·.name)).Nodup :=
    whole.map_name_values ▸ machine.states.nodup_keys
  refine List.nodup_flatMap.mpr ⟨fun state _ => state.nodup_arrows, ?_⟩
  refine (List.pairwise_map.mp distinct).imp fun {state other} apart arrow member also => ?_
  obtain ⟨source, symbol, target⟩ := arrow
  exact apart ((State.mem_arrows.mp member).1.symm.trans (State.mem_arrows.mp also).1)

/-- The text of a machine that owns its start and all targets, spelled out. -/
theorem toList_print (whole : machine.Whole) :
    ∃ start ∈ machine.states.keys, machine.start = some start ∧
      machine.print.text.toList =
        Printout.spell [Printout.listing "Q" machine.states.keys,
            Printout.listing "Sigma" machine.alphabet.toList, "delta ="]
          (Printout.spell (machine.arrows.map Printout.line)
            (Printout.spell ["q0 = " ++ start, Printout.listing "F" machine.accepting] [])) := by
  obtain ⟨start, owned, started⟩ := whole.start
  obtain ⟨state, found⟩ := owned_iff.mp owned
  have looked : machine.startState = .ok state := by
    simp only [startState, started, stateNamed, found]
  have lines : machine.states.values.flatMap Printout.transitions =
      machine.arrows.map Printout.line := by
    simp only [arrows, List.map_flatMap, State.map_line_arrows]
  have above : machine.linesAboveStart =
      [Printout.listing "Q" machine.states.keys, Printout.listing "Sigma" machine.alphabet.toList,
        "delta ="] ++ machine.arrows.map Printout.line := by
    rw [linesAboveStart, lines]
    rfl
  refine ⟨start, owned, started, ?_⟩
  rw [print, looked]
  simp only [above, whole.named start state found, Printout.toList_lines, Printout.spell_append]

end Whole

end Machine

end PatternAutomata
