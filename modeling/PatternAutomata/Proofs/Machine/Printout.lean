import Mathlib.Data.List.Forall2
import PatternAutomata.Machine.Printout

/-! # Reading a printout

A printout has no escaping, so what it says can be told from the text only by what is known of the
machine. A list between braces can be told if its items have neither spaces nor line ends behind
their first character (`Printout.listing_unique`). The lines of transitions can be told if the names
are numerals and it is known which states have a transition on a character, that one standing first
and the silent ones behind it (`State.Arranged`, `Printout.transitions_unique`).
-/

namespace PatternAutomata

/-- A decimal numeral, or anything else made of digits. -/
def IsNumeral (text : String) : Prop :=
  text.toList ≠ [] ∧ ∀ character ∈ text.toList, character.isDigit = true

theorem isNumeral_repr (number : Nat) : IsNumeral number.repr := by
  rw [IsNumeral, Nat.toList_repr]
  exact ⟨Nat.toDigits_ne_nil, fun _ => Nat.isDigit_of_mem_toDigits (by decide) (by decide)⟩

theorem IsNumeral.not_mem {text : String} (numeral : IsNumeral text) {mark : Char}
    (plain : mark.isDigit = false) : mark ∉ text.toList := by
  intro member
  rw [numeral.2 mark member] at plain
  cases plain

namespace Printout

/-- Where a mark occurs in neither of two texts, it can be told where they end before it. -/
theorem cut {mark : Char} {left right rest later : List Char} (inLeft : mark ∉ left)
    (inRight : mark ∉ right) (same : left ++ mark :: rest = right ++ mark :: later) :
    left = right ∧ rest = later := by
  induction left generalizing right with
  | nil =>
      cases right with
      | nil => exact ⟨rfl, (List.cons.inj same).2⟩
      | cons head right =>
          obtain ⟨rfl, _⟩ := List.cons.inj same
          exact absurd List.mem_cons_self inRight
  | cons head left ih =>
      cases right with
      | nil =>
          obtain ⟨rfl, _⟩ := List.cons.inj same
          exact absurd List.mem_cons_self inLeft
      | cons other right =>
          obtain ⟨rfl, tails⟩ := List.cons.inj same
          obtain ⟨rfl, rests⟩ := ih (List.not_mem_of_not_mem_cons inLeft)
            (List.not_mem_of_not_mem_cons inRight) tails
          exact ⟨rfl, rests⟩

section Listing

/-- A text that can be told in a list: behind its first character it has neither spaces nor line
ends. -/
def IsItem (text : String) : Prop :=
  ∃ first rest, text.toList = first :: rest ∧ ' ' ∉ rest ∧ '\n' ∉ rest

theorem isItem_singleton (character : Char) : IsItem (String.singleton character) :=
  ⟨character, [], String.toList_singleton character, List.not_mem_nil, List.not_mem_nil⟩

theorem isItem_of_isNumeral {text : String} (numeral : IsNumeral text) : IsItem text := by
  obtain ⟨first, rest, spelled⟩ := List.exists_cons_of_ne_nil numeral.1
  have outside {mark : Char} (plain : mark.isDigit = false) : mark ∉ rest := by
    intro member
    have inside : mark ∈ text.toList := spelled ▸ List.mem_cons_of_mem _ member
    exact numeral.not_mem plain inside
  exact ⟨first, rest, spelled, outside (by decide), outside (by decide)⟩

/-- Items with a space behind each, up to a brace at the end of a line. -/
def spaced (items : List String) (rest : List Char) : List Char :=
  items.flatMap (fun item => item.toList ++ [' ']) ++ '\x7d' :: '\n' :: rest

theorem spaced_nil (rest : List Char) : spaced [] rest = '\x7d' :: '\n' :: rest := rfl

theorem spaced_cons (item : String) (items : List String) (rest : List Char) :
    spaced (item :: items) rest = item.toList ++ ' ' :: spaced items rest := by
  simp [spaced]

/-- An item is not the brace that ends a list. -/
theorem spaced_ne {item : String} (proper : IsItem item) {items : List String}
    {rest later : List Char} : spaced (item :: items) rest ≠ spaced [] later := by
  obtain ⟨first, tail, spelled, _, unbroken⟩ := proper
  rw [spaced_cons, spaced_nil, spelled]
  intro same
  obtain ⟨_, same⟩ := List.cons.inj same
  cases tail with
  | nil => exact absurd (List.cons.inj same).1 (by decide)
  | cons second tail => exact unbroken ((List.cons.inj same).1 ▸ List.mem_cons_self)

theorem spaced_unique {items others : List String} {rest later : List Char}
    (proper : ∀ item ∈ items, IsItem item) (properOthers : ∀ item ∈ others, IsItem item)
    (same : spaced items rest = spaced others later) : items = others ∧ rest = later := by
  induction items generalizing others with
  | nil =>
      cases others with
      | nil => exact ⟨rfl, by simpa [spaced] using same⟩
      | cons other others =>
          exact absurd same.symm (spaced_ne (properOthers other List.mem_cons_self))
  | cons item items ih =>
      cases others with
      | nil => exact absurd same (spaced_ne (proper item List.mem_cons_self))
      | cons other others =>
          obtain ⟨itemProper, itemsProper⟩ := List.forall_mem_cons.mp proper
          obtain ⟨otherProper, othersProper⟩ := List.forall_mem_cons.mp properOthers
          obtain ⟨first, tail, spelled, unspaced, _⟩ := itemProper
          obtain ⟨second, ending, spelledOther, unspacedOther, _⟩ := otherProper
          rw [spaced_cons, spaced_cons, spelled, spelledOther] at same
          obtain ⟨rfl, tails⟩ := List.cons.inj same
          obtain ⟨rfl, rests⟩ := cut unspaced unspacedOther tails
          obtain ⟨rfl, ends⟩ := ih itemsProper othersProper rests
          exact ⟨by rw [String.toList_inj.mp (spelled.trans spelledOther.symm)], ends⟩

end Listing

end Printout

namespace State

/-- The silent transitions, as they stand among all. -/
def silent (state : State) : List (String × StringSet) :=
  if (state.targets epsilon).toList = [] then [] else [(epsilon, state.targets epsilon)]

/-- A state that has a transition on the character to the target given, if any, and behind it none
but silent ones. -/
def Arranged (letter : Option (Char × String)) (state : State) : Prop :=
  state.transitions.entries =
    (letter.toList.map fun own => (String.singleton own.1, StringSet.ofList [own.2])) ++
      state.silent

/-- Whether a state has a transition on a character before its silent ones. -/
def Opens (opens : Bool) (state : State) : Prop :=
  ∃ letter, Option.isSome letter = opens ∧ state.Arranged letter

/-- All targets of a state are numerals. -/
def LeadsToNumerals (state : State) : Prop :=
  ∀ entry ∈ state.transitions.entries, ∀ target ∈ entry.2.toList, IsNumeral target

variable {state other : State} {letter : Option (Char × String)}

theorem LeadsToNumerals.targets (leads : state.LeadsToNumerals) (symbol : String) :
    ∀ target ∈ (state.targets symbol).toList, IsNumeral target := by
  intro target member
  obtain ⟨targets, found, inside⟩ := mem_targets_iff.mp (StringSet.mem_def.mpr member)
  exact leads _ (Table.find?_eq_some_iff.mp found) target inside

/-- Such a state is known by that transition and the silent targets. -/
theorem Arranged.transitions_eq (arranged : state.Arranged letter)
    (arrangedOther : other.Arranged letter)
    (same : (state.targets epsilon).toList = (other.targets epsilon).toList) :
    state.transitions = other.transitions := by
  apply Table.ext
  rw [arranged, arrangedOther, silent, silent, StringSet.ext same]

/-- Its transitions are printed in this order. -/
theorem Arranged.lines (arranged : state.Arranged letter) :
    Printout.transitions state =
      (letter.toList.map fun own =>
        Printout.transition state.name (String.singleton own.1) own.2) ++
      (state.targets epsilon).toList.map (Printout.transition state.name epsilon) := by
  have letters (own : Char × String) : (StringSet.ofList [own.2]).toList = [own.2] := rfl
  have silents : (state.silent.flatMap fun entry =>
      entry.2.toList.map fun target => Printout.transition state.name entry.1 target) =
        (state.targets epsilon).toList.map (Printout.transition state.name epsilon) := by
    unfold silent
    split
    · rename_i none
      rw [none]
      rfl
    · exact List.append_nil _
  rw [Printout.transitions, arranged, List.flatMap_append, silents, List.flatMap_map]
  cases letter with
  | none => rfl
  | some own => rfl

end State

namespace Printout

section Lines

/-- Lines spelled out before some rest. -/
def spell (lines : List String) (rest : List Char) : List Char :=
  lines.flatMap (fun line => line.toList ++ ['\n']) ++ rest

theorem spell_nil (rest : List Char) : spell [] rest = rest := rfl

theorem spell_cons (line : String) (lines : List String) (rest : List Char) :
    spell (line :: lines) rest = line.toList ++ '\n' :: spell lines rest := by
  simp [spell]

/-- A line that two texts begin with makes no difference. -/
theorem spell_cancel {line : String} {lines others : List String} {rest later : List Char}
    (same : spell (line :: lines) rest = spell (line :: others) later) :
    spell lines rest = spell others later := by
  rw [spell_cons, spell_cons] at same
  exact (List.cons.inj (List.append_cancel_left same)).2

/-- A line of a title and something behind it. -/
theorem spell_titled (title content : String) (lines : List String) (rest : List Char) :
    spell ((title ++ content) :: lines) rest =
      title.toList ++ (content.toList ++ '\n' :: spell lines rest) := by
  rw [spell_cons, String.toList_append, List.append_assoc]

theorem spell_append (lines more : List String) (rest : List Char) :
    spell (lines ++ more) rest = spell lines (spell more rest) := by
  simp [spell]

/-- The line of a list that is not empty. -/
theorem spell_listing (title : String) {items : List String} (some : items ≠ [])
    (lines : List String) (rest : List Char) :
    spell (listing title items :: lines) rest =
      title.toList ++ [' ', '=', ' ', '\x7b', ' '] ++ spaced items (spell lines rest) := by
  have joined : (" ".intercalate items).toList ++ [' '] =
      items.flatMap fun item => item.toList ++ [' '] := by
    induction items with
    | nil => exact absurd rfl some
    | cons item items ih =>
        cases items with
        | nil => simp
        | cons next items =>
            rw [String.intercalate_cons_cons]
            simp [← ih (List.cons_ne_nil _ _)]
  rw [spell_cons, spaced, ← joined]
  simp [listing]

theorem toList_lines (content : List String) : (lines content).toList = spell content [] := by
  simp [lines, spell, List.flatMap_map]

/-- A text that goes on with the transitions of a source. -/
def GoesOn (source : String) (text : List Char) : Prop :=
  source.toList ++ [','] <+: text

theorem toList_transition (source symbol target : String) :
    (transition source symbol target).toList =
      source.toList ++ ',' :: ((label symbol).toList ++ ',' :: target.toList) := by
  simp [transition]

theorem label_singleton (character : Char) :
    label (String.singleton character) = String.singleton character :=
  if_neg (singleton_ne_epsilon character)

/-- As long as a text goes on with a source, a further silent move of it is told. -/
theorem silent_unique {source : String} {targets others : List String} {rest later : List Char}
    (numerals : ∀ target ∈ targets, IsNumeral target)
    (numeralsOthers : ∀ target ∈ others, IsNumeral target)
    (ends : ¬ GoesOn source rest) (endsLater : ¬ GoesOn source later)
    (same : spell (targets.map (transition source epsilon)) rest =
      spell (others.map (transition source epsilon)) later) :
    targets = others ∧ rest = later := by
  have goesOn (target : String) (lines : List String) (text : List Char) :
      GoesOn source (spell (transition source epsilon target :: lines) text) := by
    rw [spell_cons, toList_transition, GoesOn]
    simp
  induction targets generalizing others with
  | nil =>
      cases others with
      | nil => exact ⟨rfl, same⟩
      | cons other others =>
          rw [List.map_nil, spell_nil] at same
          exact absurd (same ▸ goesOn other _ later) ends
  | cons target targets ih =>
      cases others with
      | nil =>
          rw [List.map_nil, spell_nil] at same
          exact absurd (same ▸ goesOn target _ rest) endsLater
      | cons other others =>
          obtain ⟨numeral, rests⟩ := List.forall_mem_cons.mp numerals
          obtain ⟨numeralOther, restsOther⟩ := List.forall_mem_cons.mp numeralsOthers
          simp only [List.map_cons, spell_cons, toList_transition, List.append_assoc,
            List.cons_append, List.append_cancel_left_eq, List.cons.injEq, true_and] at same
          obtain ⟨targetSame, remaining⟩ := cut (numeral.not_mem (by decide))
            (numeralOther.not_mem (by decide)) same
          obtain ⟨rfl, ended⟩ := ih rests restsOther remaining
          exact ⟨by rw [String.toList_inj.mp targetSame], ended⟩

/-- A transition on a character is told where it is known that there is one. -/
theorem letter_unique {source target other : String} {character read : Char}
    {rest later : List Char} (numeral : IsNumeral target) (numeralOther : IsNumeral other)
    (same : (transition source (String.singleton character) target).toList ++ '\n' :: rest =
      (transition source (String.singleton read) other).toList ++ '\n' :: later) :
    character = read ∧ target = other ∧ rest = later := by
  simp only [toList_transition, label_singleton, String.toList_singleton, List.append_assoc,
    List.cons_append, List.nil_append, List.append_cancel_left_eq, List.cons.injEq, true_and]
    at same
  obtain ⟨rfl, same⟩ := same
  obtain ⟨targetSame, rests⟩ := cut (numeral.not_mem (by decide))
    (numeralOther.not_mem (by decide)) same
  exact ⟨rfl, String.toList_inj.mp targetSame, rests⟩

end Lines

section States

/-- The transitions of some states, spelled out before some rest. -/
def spellStates (states : List State) (rest : List Char) : List Char :=
  spell (states.flatMap transitions) rest

theorem spellStates_cons (state : State) (states : List State) (rest : List Char) :
    spellStates (state :: states) rest = spell (transitions state) (spellStates states rest) := by
  rw [spellStates, List.flatMap_cons, spell_append, spellStates]

/-- Nothing but transitions begins with a digit. -/
def IsForeign (text : List Char) : Prop :=
  ∀ first ∈ text.head?, first.isDigit = false

/-- The line of the start begins with a letter. -/
theorem isForeign_start (start : String) (lines : List String) :
    IsForeign (spell (("q0 = " ++ start) :: lines) []) := by
  intro first member
  rw [spell_cons, String.toList_append] at member
  cases member
  rfl

theorem not_goesOn_of_isForeign {source : String} (numeral : IsNumeral source) {text : List Char}
    (foreign : IsForeign text) : ¬ GoesOn source text := by
  obtain ⟨first, rest, spelled⟩ := List.exists_cons_of_ne_nil numeral.1
  rintro ⟨more, rfl⟩
  have digit := numeral.2 first (spelled ▸ List.mem_cons_self)
  have plain := foreign first (by rw [spelled]; rfl)
  rw [digit] at plain
  cases plain

/-- Behind the transitions of a source come those of others. -/
theorem not_goesOn_spellStates {source : String} (numeral : IsNumeral source)
    {states : List State} (numerals : ∀ state ∈ states, IsNumeral state.name)
    (new : source ∉ states.map (·.name)) {rest : List Char} (foreign : IsForeign rest) :
    ¬ GoesOn source (spellStates states rest) := by
  induction states with
  | nil => exact not_goesOn_of_isForeign numeral foreign
  | cons state states ih =>
      obtain ⟨numeralState, numeralsRest⟩ := List.forall_mem_cons.mp numerals
      have apart : source ≠ state.name := List.ne_of_not_mem_cons new
      have newRest : source ∉ states.map (·.name) := List.not_mem_of_not_mem_cons new
      rw [spellStates_cons]
      cases listed : transitions state with
      | nil => exact ih numeralsRest newRest
      | cons line lines =>
          have member : line ∈ transitions state := listed ▸ List.mem_cons_self
          obtain ⟨entry, _, inEntry⟩ := List.mem_flatMap.mp member
          obtain ⟨target, _, rfl⟩ := List.mem_map.mp inEntry
          rw [spell_cons, toList_transition]
          rintro ⟨more, same⟩
          rw [List.append_assoc, List.append_assoc] at same
          obtain ⟨named, _⟩ := cut (numeral.not_mem (by decide)) (numeralState.not_mem (by decide))
            same
          exact apart (String.toList_inj.mp named)

/-- The lines of one state, up to where those of its source end, tell its transitions. -/
theorem state_unique {opens : Bool} {state other : State} (opening : state.Opens opens)
    (openingOther : other.Opens opens) (named : state.name = other.name)
    (targets : state.LeadsToNumerals) (targetsOther : other.LeadsToNumerals)
    {rest later : List Char} (ends : ¬ GoesOn state.name rest)
    (endsLater : ¬ GoesOn state.name later)
    (same : spell (transitions state) rest = spell (transitions other) later) :
    state.transitions = other.transitions ∧ rest = later := by
  obtain ⟨letter, some, arranged⟩ := opening
  obtain ⟨letterOther, someOther, arrangedOther⟩ := openingOther
  rw [arranged.lines, arrangedOther.lines, spell_append, spell_append, ← named] at same
  have silents (remaining : spell ((state.targets epsilon).toList.map
        (transition state.name epsilon)) rest =
      spell ((other.targets epsilon).toList.map (transition state.name epsilon)) later) :
      (state.targets epsilon).toList = (other.targets epsilon).toList ∧ rest = later :=
    silent_unique (targets.targets epsilon) (targetsOther.targets epsilon) ends endsLater remaining
  cases letter with
  | none =>
      cases letterOther with
      | some own => cases some.trans someOther.symm
      | none =>
          obtain ⟨sameTargets, rests⟩ := silents same
          exact ⟨arranged.transitions_eq arrangedOther sameTargets, rests⟩
  | some own =>
      cases letterOther with
      | none => cases some.trans someOther.symm
      | some ownOther =>
          obtain ⟨character, target⟩ := own
          obtain ⟨read, targetOther⟩ := ownOther
          have entry : (String.singleton character, StringSet.ofList [target]) ∈
              state.transitions.entries := arranged ▸ List.mem_cons_self
          have entryOther : (String.singleton read, StringSet.ofList [targetOther]) ∈
              other.transitions.entries := arrangedOther ▸ List.mem_cons_self
          simp only [Option.toList_some, List.map_singleton, spell_cons, spell_nil] at same
          obtain ⟨rfl, rfl, remaining⟩ := letter_unique
            (targets _ entry target List.mem_cons_self)
            (targetsOther _ entryOther targetOther List.mem_cons_self) same
          obtain ⟨sameTargets, rests⟩ := silents remaining
          exact ⟨arranged.transitions_eq arrangedOther sameTargets, rests⟩

/-- **The lines of transitions tell the transitions**, once the names of the states are known, and
which of them have a transition on a character. -/
theorem transitions_unique {opens : List Bool} {states others : List State}
    (arranged : List.Forall₂ State.Opens opens states)
    (arrangedOthers : List.Forall₂ State.Opens opens others)
    (names : states.map (·.name) = others.map (·.name))
    (distinct : (states.map (·.name)).Nodup)
    (numerals : ∀ state ∈ states, IsNumeral state.name)
    (targets : ∀ state ∈ states, state.LeadsToNumerals)
    (targetsOthers : ∀ state ∈ others, state.LeadsToNumerals)
    {rest later : List Char} (foreign : IsForeign rest) (foreignLater : IsForeign later)
    (same : spellStates states rest = spellStates others later) :
    states.map (·.transitions) = others.map (·.transitions) ∧ rest = later := by
  induction arranged generalizing others with
  | nil =>
      cases arrangedOthers
      exact ⟨rfl, same⟩
  | @cons _ state _ states opening _ ih =>
      cases arrangedOthers with
      | @cons _ other _ others openingOther arrangedOthers =>
          obtain ⟨named, namesRest⟩ := List.cons.inj names
          obtain ⟨new, distinctRest⟩ := List.nodup_cons.mp distinct
          obtain ⟨numeral, numeralsRest⟩ := List.forall_mem_cons.mp numerals
          obtain ⟨leads, leadsRest⟩ := List.forall_mem_cons.mp targets
          obtain ⟨leadsOther, leadsOthers⟩ := List.forall_mem_cons.mp targetsOthers
          have numeralsOthers : ∀ state ∈ others, IsNumeral state.name := by
            rw [← List.forall_mem_map (P := IsNumeral), ← namesRest, List.forall_mem_map]
            exact numeralsRest
          rw [spellStates_cons, spellStates_cons] at same
          obtain ⟨transitions, remaining⟩ :=
            state_unique opening openingOther named leads leadsOther
              (not_goesOn_spellStates numeral numeralsRest new foreign)
              (not_goesOn_spellStates numeral numeralsOthers (namesRest ▸ new) foreignLater) same
          obtain ⟨transitionsRest, rests⟩ := ih arrangedOthers namesRest distinctRest numeralsRest
            leadsRest leadsOthers remaining
          rw [List.map_cons, List.map_cons, transitions, transitionsRest]
          exact ⟨rfl, rests⟩

end States

end Printout

end PatternAutomata
