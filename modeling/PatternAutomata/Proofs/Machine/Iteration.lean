import PatternAutomata.Machine.Iteration
import PatternAutomata.Proofs.Machine.Acceptance

/-! # The order in which sets are gone through does not matter

A search ends alike in any order (`Machine.exploreBy_ends`), so a closure has exactly the names that
silent moves reach, unless one of them has no owner (`Machine.closureBy_cases`).

In a machine whose start and targets are owned, every schedule leads to the same answer for a
word, and the answer is that of paths (`Machine.Whole.acceptsUnder_eq`).
-/

namespace PatternAutomata

namespace Turns

variable {α β : Type} {good : α → Prop} {better : β → Prop}

/-- An action gives a value of which something holds, at whatever turn it begins. -/
def Yields (action : Turns α) (good : α → Prop) : Prop :=
  ∀ turn, ∃ value next, action.run turn = .ok (value, next) ∧ good value

theorem yields_pure {value : α} (holds : good value) : Yields (pure value) good :=
  fun turn => ⟨value, turn, rfl, holds⟩

/-- What is read without fault is given at any turn. -/
theorem yields_lift {result : Except Fault α} {value : α} (read : result = .ok value)
    (holds : good value) : Yields (liftM result) good := by
  subst read
  exact fun turn => ⟨value, turn, rfl, holds⟩

/-- An action goes on with what was read without fault. -/
theorem yields_lift_bind {result : Except Fault α} {value : α} {onward : α → Turns β}
    (read : result = .ok value) (second : Yields (onward value) better) :
    Yields (liftM result >>= onward) better := by
  subst read
  exact second

theorem Yields.bind {action : Turns α} {onward : α → Turns β} (first : Yields action good)
    (second : ∀ value, good value → Yields (onward value) better) :
    Yields (action >>= onward) better := by
  intro turn
  obtain ⟨value, later, ran, holds⟩ := first turn
  obtain ⟨result, last, ended, better⟩ := second value holds later
  refine ⟨result, last, ?_, better⟩
  rw [StateT.run_bind, ran]
  exact ended

theorem Yields.mono {action : Turns α} {weaker : α → Prop} (yields : Yields action good)
    (follows : ∀ value, good value → weaker value) : Yields action weaker := by
  intro turn
  obtain ⟨value, next, ran, holds⟩ := yields turn
  exact ⟨value, next, ran, follows value holds⟩

/-- Where the value alone is known to be given, an action yields it. -/
theorem yields_of_run' {action : Turns α}
    (gives : ∀ turn, ∃ value, action.run' turn = .ok value ∧ good value) : Yields action good := by
  intro turn
  obtain ⟨value, ran, holds⟩ := gives turn
  change (action.run turn).map Prod.fst = .ok value at ran
  cases ended : action.run turn with
  | error fault =>
      rw [ended] at ran
      cases ran
  | ok result =>
      rw [ended] at ran
      cases ran
      exact ⟨result.1, result.2, rfl, holds⟩

theorem Yields.run' {action : Turns α} (yields : Yields action good) (turn : Nat) :
    ∃ value, action.run' turn = .ok value ∧ good value := by
  obtain ⟨value, next, ran, holds⟩ := yields turn
  refine ⟨value, ?_, holds⟩
  change (action.run turn).map Prod.fst = .ok value
  rw [ran]
  rfl

theorem yields_next (schedule : Schedule) (names : List String) :
    Yields (schedule.next names) fun arranged => ∀ name, name ∈ arranged ↔ name ∈ names :=
  fun turn => ⟨_, turn + 1, rfl, fun _ => (schedule.rearranges turn names).mem_iff⟩

/-- A loop whose every step adds to a set what some relation reaches from the item adds what the
relation reaches from any of the items. -/
theorem yields_foldlM {grow : StringSet → α → Turns StringSet} {reaches : α → String → Prop}
    {items : List α} (each : ∀ item ∈ items, ∀ found, Yields (grow found item) fun result =>
      ∀ name, name ∈ result ↔ name ∈ found ∨ reaches item name) (found : StringSet) :
    Yields (items.foldlM grow found) fun result =>
      ∀ name, name ∈ result ↔ name ∈ found ∨ ∃ item ∈ items, reaches item name := by
  induction items generalizing found with
  | nil =>
      apply yields_pure
      exact fun name => ⟨Or.inl, fun either => either.resolve_right nofun⟩
  | cons item items ih =>
      rw [List.foldlM_cons]
      apply (each item List.mem_cons_self found).bind
      intro next grown
      apply (ih (fun other member => each other (List.mem_cons_of_mem _ member)) next).mono
      intro result exactly name
      rw [exactly, grown, or_assoc, List.exists_mem_cons_iff]

end Turns

namespace Machine

open Turns

variable {machine : Machine}

/-- **A closure is the same in any order:** it has exactly the names that silent moves reach, or
one of these has no owner. -/
theorem closureBy_cases (schedule : Schedule) (name : String) (turn : Nat) :
    (∃ result, (machine.closureBy schedule name).run' turn = .ok result ∧ machine.Settled result ∧
      ∀ other, other ∈ result ↔ machine.Path name [] other) ∨
    (∃ missing, machine.Path name [] missing ∧ missing ∉ machine.states.keys ∧
      (machine.closureBy schedule name).run' turn = .error (.unowned missing)) := by
  have ends := exploreBy_ends schedule (machine.explored_one name) (List.length_filter_le _ _) turn
  exact ends.of_one

/-- Whether one of some owned states accepts is found without fault. -/
theorem anyAccepts_eq {names : List String} (owned : ∀ name ∈ names, name ∈ machine.states.keys) :
    ∃ answer, machine.anyAccepts names = .ok answer ∧
      (answer = true ↔ ∃ name ∈ names, ∃ state, machine.states.find? name = some state ∧
        state.accepting = true) := by
  induction names with
  | nil => exact ⟨false, rfl, ⟨nofun, nofun⟩⟩
  | cons name names ih =>
      obtain ⟨state, found⟩ := owned_iff.mp (owned name List.mem_cons_self)
      obtain ⟨answer, answered, decides⟩ := ih fun other member =>
        owned other (List.mem_cons_of_mem _ member)
      have looked : machine.anyAccepts (name :: names) =
          if state.accepting then .ok true else machine.anyAccepts names := by
        simp only [anyAccepts, stateNamed, found]
        rfl
      simp only [List.exists_mem_cons_iff, found, Option.some_inj, exists_eq_left']
      cases accepts : state.accepting with
      | true =>
          rw [accepts] at looked
          exact ⟨true, looked, ⟨fun _ => Or.inl rfl, fun _ => rfl⟩⟩
      | false =>
          rw [accepts] at looked
          refine ⟨answer, looked.trans answered, decides.trans ?_⟩
          exact ⟨Or.inr, fun either => either.resolve_left nofun⟩

namespace Whole

variable (whole : machine.Whole) (schedule : Schedule)

include whole

theorem yields_closureBy {name : String} (owned : name ∈ machine.states.keys) :
    Yields (machine.closureBy schedule name) fun result =>
      ∀ other, other ∈ result ↔ machine.Path name [] other := by
  apply yields_of_run'
  intro turn
  rcases closureBy_cases schedule name turn with ⟨result, ended, _, exactly⟩ |
    ⟨missing, path, absent, _⟩
  · exact ⟨result, ended, exactly⟩
  · exact absurd (whole.owned_of_path owned path) absent

/-- A step from an owned name adds what one move on the symbol and silent moves after it reach. -/
theorem yields_stepFromBy (symbol : String) (found : StringSet) {name : String}
    (owned : name ∈ machine.states.keys) :
    Yields (machine.stepFromBy schedule symbol found name) fun result =>
      ∀ other, other ∈ result ↔ other ∈ found ∨
        ∃ target, machine.Leads name symbol target ∧ machine.Path target [] other := by
  obtain ⟨state, states, looked, moved, isTarget⟩ := whole.exists_targets symbol owned
  have each : ∀ target ∈ states, ∀ found : StringSet,
      Yields (do return found ∪ (← machine.closureBy schedule target.name)) fun result =>
        ∀ other, other ∈ result ↔ other ∈ found ∨ machine.Path target.name [] other := by
    intro target member found
    have leads := (isTarget target.name).mp (List.mem_map_of_mem member)
    apply (whole.yields_closureBy schedule (whole.targets _ _ _ leads)).bind
    intro closed exactly
    apply yields_pure
    intro other
    rw [StringSet.mem_union, exactly]
  apply yields_lift_bind looked
  apply yields_lift_bind moved
  apply (yields_foldlM each found).mono
  intro result exactly other
  rw [exactly]
  simp only [← isTarget, List.mem_map, exists_exists_and_eq_and]

/-- A step from a set of owned names gives what one move on the symbol and silent moves after it
reach from any of them. -/
theorem yields_stepBy {reached : StringSet} (owned : ∀ name ∈ reached, name ∈ machine.states.keys)
    (symbol : String) :
    Yields (machine.stepBy schedule reached symbol) fun result =>
      ∀ other, other ∈ result ↔ ∃ name ∈ reached, ∃ target,
        machine.Leads name symbol target ∧ machine.Path target [] other := by
  apply (yields_next schedule reached.toList).bind
  intro names arranged
  have each : ∀ name ∈ names, ∀ found, Yields (machine.stepFromBy schedule symbol found name)
      fun result => ∀ other, other ∈ result ↔ other ∈ found ∨
        ∃ target, machine.Leads name symbol target ∧ machine.Path target [] other :=
    fun name member found =>
      whole.yields_stepFromBy schedule symbol found (owned name ((arranged name).mp member))
  apply (yields_foldlM each ∅).mono
  intro result exactly other
  rw [exactly, or_iff_right (StringSet.not_mem_empty other)]
  simp only [arranged, StringSet.mem_def]

/-- Reading a word on from the names that a path along an earlier word reaches gives those that a
path along both words reaches. -/
theorem yields_steps {start : String} (owned : start ∈ machine.states.keys) {before : List Char}
    {reached : StringSet} (exactly : ∀ name, name ∈ reached ↔ machine.Path start before name)
    (word : List Char) :
    Yields (word.foldlM (fun reached character =>
        machine.stepBy schedule reached (String.singleton character)) reached) fun result =>
      ∀ name, name ∈ result ↔ machine.Path start (before ++ word) name := by
  induction word generalizing before reached with
  | nil =>
      apply yields_pure
      rw [List.append_nil]
      exact exactly
  | cons character word ih =>
      have reachedOwned : ∀ name ∈ reached, name ∈ machine.states.keys := fun name member =>
        whole.owned_of_path owned ((exactly name).mp member)
      rw [List.foldlM_cons]
      apply (whole.yields_stepBy schedule reachedOwned (String.singleton character)).bind
      intro next nextExactly
      have nextReached : ∀ name, name ∈ next ↔ machine.Path start (before ++ [character]) name := by
        intro name
        rw [nextExactly, Machine.Path, Moves.Path.snoc_iff]
        simp only [exactly]
      apply (ih nextReached).mono
      intro result resultExactly name
      rw [resultExactly, List.append_assoc, List.singleton_append]

/-- The names reached along a word do not depend on the schedule. -/
theorem yields_reachBy (word : List Char) :
    ∃ start ∈ machine.states.keys, machine.start = some start ∧
      Yields (machine.reachBy schedule word) fun result =>
        ∀ name, name ∈ result ↔ machine.Path start word name := by
  obtain ⟨start, owned, started⟩ := whole.start
  obtain ⟨state, found⟩ := owned_iff.mp owned
  have looked : machine.startState = .ok state := by
    simp only [startState, started, stateNamed, found]
  refine ⟨start, owned, started, ?_⟩
  apply yields_lift_bind looked
  rw [whole.named start state found]
  apply (whole.yields_closureBy schedule owned).bind
  intro initial initially
  exact whole.yields_steps schedule owned initially word

theorem yields_acceptsBy (word : List Char) :
    Yields (machine.acceptsBy schedule word) fun answer =>
      answer = true ↔ machine.Recognises word := by
  obtain ⟨start, owned, started, reaches⟩ := whole.yields_reachBy schedule word
  apply reaches.bind
  intro reached exactly
  apply (yields_next schedule reached.toList).bind
  intro names arranged
  have along (name : String) : name ∈ names ↔ machine.Path start word name :=
    (arranged name).trans (exactly name)
  obtain ⟨answer, answered, decides⟩ := anyAccepts_eq fun name member =>
    whole.owned_of_path owned ((along name).mp member)
  apply yields_lift answered
  simp only [decides, Recognises, along, started, Option.some_inj]
  constructor
  · rintro ⟨last, path, state, found, accepts⟩
    exact ⟨start, last, state, rfl, path, found, accepts⟩
  · rintro ⟨_, last, state, rfl, path, found, accepts⟩
    exact ⟨last, path, state, found, accepts⟩

/-- **The answer does not depend on the order in which sets are gone through.** -/
theorem acceptsUnder_eq (word : List Char) :
    machine.acceptsUnder schedule word = machine.accepts word := by
  obtain ⟨answer, answered, decides⟩ := whole.accepts_eq word
  obtain ⟨other, ended, otherDecides⟩ := (whole.yields_acceptsBy schedule word).run' 0
  rw [answered, acceptsUnder, ended, Bool.eq_iff_iff.mpr (otherDecides.trans decides.symm)]

end Whole

end Machine

end PatternAutomata
