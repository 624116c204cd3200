import PatternAutomata.Proofs.Machine.Lines
import PatternAutomata.Proofs.Paths.Passages
import PatternAutomata.Proofs.Simulation

/-! # Printouts of built automata

Automata that are built command by command can be told from their printouts up to one thing: a line
with the letter that is shown for epsilon stands for a silent move as well as for a move on that
letter (`Store.print_confuses_epsilon`). Where two automata with the same printout agree on which of
these moves are silent, they have the same transitions (`Store.print_tells_transitions`).
-/

namespace PatternAutomata

namespace Machine

/-- A machine whose printout can be read: start and targets are owned, the names are numerals, and
the symbols of transitions are epsilon or characters of the alphabet. -/
structure Legible (machine : Machine) : Prop where
  complete : machine.Complete
  names : ∀ name ∈ machine.states.keys, IsNumeral name
  symbols : ∀ arrow ∈ machine.arrows, IsSymbol arrow.2.1
  letters : ∀ arrow ∈ machine.arrows, arrow.2.1 ≠ epsilon → arrow.2.1 ∈ machine.alphabet

variable {machine other : Machine}

namespace Legible

/-- The names may be counted from zero. -/
theorem of_counted (count : Nat) (complete : machine.Complete)
    (counted : machine.states.keys = (List.range count).map Nat.repr)
    (symbols : ∀ arrow ∈ machine.arrows, IsSymbol arrow.2.1)
    (letters : ∀ arrow ∈ machine.arrows, arrow.2.1 ≠ epsilon → arrow.2.1 ∈ machine.alphabet) :
    machine.Legible where
  complete := complete
  names name member := by
    obtain ⟨number, _, rfl⟩ := List.mem_map.mp (counted ▸ member)
    exact isNumeral_repr number
  symbols := symbols
  letters := letters

theorem isItem (legible : machine.Legible) :
    ∀ name ∈ machine.states.keys, Printout.IsItem name :=
  fun name member => Printout.isItem_of_isNumeral (legible.names name member)

theorem plain (legible : machine.Legible) (whole : machine.Whole) :
    ∀ arrow ∈ machine.arrows, Printout.Plain arrow := by
  rintro ⟨source, symbol, target⟩ member
  obtain ⟨state, found, leads⟩ := whole.mem_arrows.mp member
  exact ⟨legible.names source (Table.mem_keys_of_find? found), legible.symbols _ member,
    legible.names target (whole.targets source symbol target ⟨state, found, leads⟩)⟩

/-- Behind the title of the transitions there is no further one. -/
theorem untitled (legible : machine.Legible) (whole : machine.Whole)
    (entered : machine.accepting ⊆ machine.states.keys) {start : String}
    (owned : start ∈ machine.states.keys) :
    Printout.Untitled ('e' :: ("lta =\n".toList ++
      Printout.spell (machine.arrows.map Printout.line)
        (Printout.spell ["q0 = " ++ start, Printout.listing "F" machine.accepting] []))) := by
  have named : 'd' ∉ start.toList := (legible.names start owned).not_mem (by decide)
  have listed : 'd' ∉ (Printout.listing "F" machine.accepting).toList :=
    Printout.not_mem_listing (by decide)
      (fun name member => (legible.names name (entered member)).not_mem (by decide)) (by decide)
  have ending : 'd' ∉
      Printout.spell ["q0 = " ++ start, Printout.listing "F" machine.accepting] [] := by
    simp [Printout.spell_cons, Printout.spell_nil, named, listed]
  have title : 'd' ∉ 'e' :: "lta =\n".toList := by decide
  exact Printout.untitled_append title <|
    Printout.untitled_lines (legible.plain whole) (Printout.untitled_of_not_mem ending)

/-- **What a printout tells of a machine**: the start, the names and how each transition is
shown. -/
theorem told (legible : machine.Legible) (legibleOther : other.Legible) (whole : machine.Whole)
    (wholeOther : other.Whole) (entered : machine.accepting ⊆ machine.states.keys)
    (enteredOther : other.accepting ⊆ other.states.keys)
    (same : machine.print.text = other.print.text) :
    machine.start = other.start ∧ machine.states.keys = other.states.keys ∧
      machine.arrows.map Printout.shown = other.arrows.map Printout.shown := by
  obtain ⟨start, owned, started, spelled⟩ := whole.toList_print
  obtain ⟨startOther, ownedOther, startedOther, spelledOther⟩ := wholeOther.toList_print
  rw [← String.toList_inj, spelled, spelledOther,
    Printout.spell_listing _ (List.ne_nil_of_mem owned),
    Printout.spell_listing _ (List.ne_nil_of_mem ownedOther)] at same
  -- the names
  obtain ⟨names, behindNames⟩ := Printout.spaced_unique legible.isItem legibleOther.isItem
    (List.append_cancel_left same)
  -- the alphabets, up to the title of the transitions
  have titled (alphabet : String) (rest : List Char) :
      Printout.spell [alphabet, "delta ="] rest =
        (alphabet.toList ++ ['\n']) ++ 'd' :: 'e' :: ("lta =\n".toList ++ rest) := by
    simp [Printout.spell_cons, Printout.spell_nil]
  rw [titled, titled] at behindNames
  obtain ⟨_, behindTitle⟩ := Printout.cut_last (legible.untitled whole entered owned)
    (legibleOther.untitled wholeOther enteredOther ownedOther) behindNames
  -- the transitions and the start
  obtain ⟨shown, behindLines⟩ := Printout.shown_unique (legible.plain whole)
    (legibleOther.plain wholeOther) (Printout.isForeign_start _ _) (Printout.isForeign_start _ _)
    (List.append_cancel_left behindTitle)
  rw [Printout.spell_titled, Printout.spell_titled] at behindLines
  obtain ⟨starts, _⟩ := Printout.cut ((legible.names _ owned).not_mem (by decide))
    ((legibleOther.names _ ownedOther).not_mem (by decide)) (List.append_cancel_left behindLines)
  rw [started, startedOther, String.toList_inj.mp starts]
  exact ⟨rfl, names, shown⟩

end Legible

namespace Whole

/-- Transitions that are shown alike are the same if they are neither silent nor on the letter
that is shown for epsilon. -/
theorem leads_iff_of_shown (whole : machine.Whole) (wholeOther : other.Whole)
    (shown : machine.arrows.map Printout.shown = other.arrows.map Printout.shown)
    {source symbol target : String} (loud : symbol ≠ epsilon) (apart : symbol ≠ "ε") :
    machine.Leads source symbol target ↔ other.Leads source symbol target := by
  have counts := congrArg (List.count (source, symbol, target)) shown
  rw [Printout.count_shown _ loud, Printout.count_shown _ loud, if_neg apart,
    whole.nodup_arrows.count, wholeOther.nodup_arrows.count] at counts
  rw [← whole.mem_arrows, ← wholeOther.mem_arrows]
  grind

/-- Machines whose transitions are shown alike agree on a silent move exactly if they agree on the
move on the letter that is shown for it. -/
theorem silent_iff_of_shown (whole : machine.Whole) (wholeOther : other.Whole)
    (shown : machine.arrows.map Printout.shown = other.arrows.map Printout.shown)
    (source target : String) :
    (machine.Leads source epsilon target ↔ other.Leads source epsilon target) ↔
      (machine.Leads source "ε" target ↔ other.Leads source "ε" target) := by
  have counts := congrArg (List.count (source, "ε", target)) shown
  rw [Printout.count_shown _ (by decide), Printout.count_shown _ (by decide), if_pos rfl,
    if_pos rfl, whole.nodup_arrows.count, whole.nodup_arrows.count,
    wholeOther.nodup_arrows.count, wholeOther.nodup_arrows.count] at counts
  simp only [← whole.mem_arrows, ← wholeOther.mem_arrows]
  grind

/-- Machines whose transitions are shown alike have the same ones exactly if their silent moves are
the same. -/
theorem leads_eq_iff (whole : machine.Whole) (wholeOther : other.Whole)
    (shown : machine.arrows.map Printout.shown = other.arrows.map Printout.shown) :
    machine.Leads = other.Leads ↔ ∀ source target,
      machine.Leads source epsilon target ↔ other.Leads source epsilon target := by
  constructor
  · intro same source target
    rw [same]
  · intro silent
    funext source symbol target
    apply propext
    by_cases quiet : symbol = epsilon
    · exact quiet ▸ silent source target
    · by_cases letter : symbol = "ε"
      · exact letter ▸ (whole.silent_iff_of_shown wholeOther shown source target).mp
          (silent source target)
      · exact whole.leads_iff_of_shown wholeOther shown quiet letter

end Whole

/-- No transition is on a character that is not in the alphabet. -/
theorem Legible.not_leads (legible : machine.Legible) (whole : machine.Whole) {symbol : String}
    (loud : symbol ≠ epsilon) (unknown : symbol ∉ machine.alphabet) (source target : String) :
    ¬ machine.Leads source symbol target :=
  fun leads => unknown (legible.letters _ (whole.mem_arrows.mpr leads) loud)

/-- The accepting states, from the entries of the owned ones. -/
theorem exits_eq (machine : Machine) :
    machine.exits =
      {name | name ∈ (machine.states.entries.filter (·.2.accepting)).map Prod.fst} := by
  ext name
  simp [exits, Table.find?_eq_some_iff]

/-- Which words are accepted depends on the start, the transitions and the accepting states. -/
theorem recognises_iff_of_leads_eq (whole : machine.Whole) (start : machine.start = other.start)
    (leads : machine.Leads = other.Leads) (exits : machine.exits = other.exits)
    (word : List Char) : machine.Recognises word ↔ other.Recognises word := by
  obtain ⟨name, _, started⟩ := whole.start
  rw [recognises_iff_through started, recognises_iff_through (start ▸ started), passages, passages,
    leads, exits]

end Machine

namespace Store

/-- What is entered as accepting is owned. -/
theorem Orderly.accepting_subset {store : Store} (orderly : store.Orderly)
    (automaton : AutomatonRef) :
    (store.machine automaton).accepting ⊆ (store.machine automaton).states.keys := by
  have keys : (store.machine automaton).states.keys = (store.automata.get automaton).owned.keys :=
    Table.keys_map _ _
  rw [keys]
  exact List.map_subset _ (orderly automaton).accepted

/-- **Printouts tell the transitions, up to epsilon.** Two automata that runs of commands have built
and whose printouts can be read are printed alike only if they have the same start, the same names
and transitions that are shown alike in the same order. They have the same transitions exactly if
their silent moves are the same, so at any rate if the letter that is shown for epsilon is in
neither alphabet; if their accepting states are the same too, they answer the same for every
word. -/
theorem print_tells_transitions (commands commands' : List Command)
    (admitted : Admits {} commands) (admitted' : Admits {} commands')
    (automaton automaton' : AutomatonRef)
    (legible : ((run {} commands).machine automaton).Legible)
    (legible' : ((run {} commands').machine automaton').Legible)
    (same : ((run {} commands).machine automaton).print.text =
      ((run {} commands').machine automaton').print.text) :
    let store := run {} commands
    let store' := run {} commands'
    let machine := store.machine automaton
    let machine' := store'.machine automaton'
    machine.start = machine'.start ∧ machine.states.keys = machine'.states.keys ∧
      machine.arrows.map Printout.shown = machine'.arrows.map Printout.shown ∧
      (machine.Leads = machine'.Leads ↔ ∀ source target,
        machine.Leads source epsilon target ↔ machine'.Leads source epsilon target) ∧
      ("ε" ∉ machine.alphabet → "ε" ∉ machine'.alphabet → machine.Leads = machine'.Leads) ∧
      (machine.Leads = machine'.Leads → machine.exits = machine'.exits →
        ∀ word, ∃ answer,
          store.perform (.accepts automaton word) = (.ok (.truth answer), store) ∧
          store'.perform (.accepts automaton' word) = (.ok (.truth answer), store')) := by
  intro store store' machine machine'
  have orderly : store.Orderly := orderly_run orderly_empty admitted
  have orderly' : store'.Orderly := orderly_run orderly_empty admitted'
  have whole : machine.Whole := orderly.whole legible.complete
  have whole' : machine'.Whole := orderly'.whole legible'.complete
  obtain ⟨start, names, shown⟩ := legible.told legible' whole whole'
    (orderly.accepting_subset automaton) (orderly'.accepting_subset automaton') same
  have leads := whole.leads_eq_iff whole' shown
  refine ⟨start, names, shown, leads, fun unknown unknown' => ?_, fun moves exits word => ?_⟩
  · refine leads.mpr fun source target => ?_
    refine (whole.silent_iff_of_shown whole' shown source target).mpr (iff_of_false ?_ ?_)
    · exact legible.not_leads whole (by decide) unknown source target
    · exact legible'.not_leads whole' (by decide) unknown' source target
  · obtain ⟨answer, answered, decides⟩ := whole.accepts_eq word
    obtain ⟨answer', answered', decides'⟩ := whole'.accepts_eq word
    have agree : answer = answer' := by
      rw [Bool.eq_iff_iff, decides, decides',
        Machine.recognises_iff_of_leads_eq whole start moves exits word]
    exact ⟨answer, perform_accepts answered, agree ▸ perform_accepts answered'⟩

/-- A separator and a line end are characters of the alphabet; two ways to build the same automaton
with them. -/
theorem print_tells_transitions_separators :
    let commands : List Command :=
      [.newAutomaton none [.text "\n", .text ","], .addStart ⟨0⟩ (.text "0"),
        .addAccepting ⟨0⟩ (.text "1"), .connect (.text ",") ⟨0⟩ ⟨1⟩, .connect (.text "\n") ⟨1⟩ ⟨0⟩,
        .connect (.text "") ⟨1⟩ ⟨0⟩]
    let commands' : List Command :=
      [.newState (some (.text "1")) true [(.text "\n", [.text "0"])],
        .connectToName ⟨0⟩ (.text "") "0", .newAutomaton none [],
        .addLetters ⟨0⟩ [.text ",", .text "\n"], .addStart ⟨0⟩ (.text "0"),
        .connectToName ⟨1⟩ (.text ",") "1", .adopt ⟨0⟩ [⟨0⟩]]
    let store := run {} commands
    let store' := run {} commands'
    Admits {} commands ∧ Admits {} commands' ∧ (store.machine ⟨0⟩).Legible ∧
      (store'.machine ⟨0⟩).Legible ∧
      (store.machine ⟨0⟩).print.text = (store'.machine ⟨0⟩).print.text ∧
      (store.machine ⟨0⟩).Leads = (store'.machine ⟨0⟩).Leads := by
  intro commands commands' store store'
  have admitted : Admits {} commands := by decide
  have admitted' : Admits {} commands' := by decide
  have legible : (store.machine ⟨0⟩).Legible :=
    .of_counted 2 (by decide) (by decide) (by decide) (by decide)
  have legible' : (store'.machine ⟨0⟩).Legible :=
    .of_counted 2 (by decide) (by decide) (by decide) (by decide)
  have same : (store.machine ⟨0⟩).print.text = (store'.machine ⟨0⟩).print.text := by
    decide +kernel
  have unknown : "ε" ∉ (store.machine ⟨0⟩).alphabet := by decide
  have unknown' : "ε" ∉ (store'.machine ⟨0⟩).alphabet := by decide
  obtain ⟨_, _, _, _, told, _⟩ :=
    print_tells_transitions commands commands' admitted admitted' ⟨0⟩ ⟨0⟩ legible legible' same
  exact ⟨admitted, admitted', legible, legible', same, told unknown unknown'⟩

/-- **A silent move is printed like a move on the letter that is shown for epsilon.** Of two
automata with the same printout and the same accepting states, one accepts the empty word and the
other does not. -/
theorem print_confuses_epsilon :
    let commands : List Command :=
      [.newAutomaton none [.text "ε"], .addStart ⟨0⟩ (.text "0"), .addAccepting ⟨0⟩ (.text "1"),
        .connect (.text "ε") ⟨0⟩ ⟨1⟩,
        .newAutomaton none [.text "ε"], .addStart ⟨1⟩ (.text "0"), .addAccepting ⟨1⟩ (.text "1"),
        .connect (.text "") ⟨2⟩ ⟨3⟩]
    let store := run {} commands
    Admits {} commands ∧ (store.machine ⟨0⟩).Legible ∧ (store.machine ⟨1⟩).Legible ∧
      (store.machine ⟨0⟩).print.text = (store.machine ⟨1⟩).print.text ∧
      (store.machine ⟨0⟩).exits = (store.machine ⟨1⟩).exits ∧
      ¬ (store.machine ⟨0⟩).Leads "0" epsilon "1" ∧ (store.machine ⟨1⟩).Leads "0" epsilon "1" ∧
      store.perform (.accepts ⟨0⟩ []) = (.ok (.truth false), store) ∧
      store.perform (.accepts ⟨1⟩ []) = (.ok (.truth true), store) := by
  intro commands store
  have legible : (store.machine ⟨0⟩).Legible :=
    .of_counted 2 (by decide) (by decide) (by decide) (by decide)
  have legible' : (store.machine ⟨1⟩).Legible :=
    .of_counted 2 (by decide) (by decide) (by decide) (by decide)
  refine ⟨by decide, legible, legible', by decide +kernel, ?_, ?_, ⟨_, rfl, by decide⟩, ?_, ?_⟩
  · rw [Machine.exits_eq, Machine.exits_eq]
    rfl
  · rintro ⟨state, found, leads⟩
    cases found
    exact absurd leads (by decide)
  · exact perform_accepts (by decide)
  · exact perform_accepts (by decide)

end Store

end PatternAutomata
