import PatternAutomata.Proofs.Machine.Search

/-! # Reading words decides acceptance by paths

In a machine whose start and targets are owned nothing can go wrong: reading a word
keeps exactly the names that a path from the start along the word reaches
(`Machine.Whole.reach_eq`), so the answer says whether such a path ends at a state
that accepts (`Machine.Whole.accepts_eq`).
-/

namespace PatternAutomata.Machine

variable {machine : Machine}

/-- The start and every target are owned, each state under its own name. -/
structure Whole (machine : Machine) : Prop where
  start : ∃ name ∈ machine.states.keys, machine.start = some name
  targets : ∀ source symbol target, machine.Leads source symbol target →
    target ∈ machine.states.keys
  named : ∀ name state, machine.states.find? name = some state → state.name = name

/-- A step of a loop that only ever adds to a settled set what some relation reaches,
taken for each of some items, adds what the relation reaches from any of them. -/
theorem foldlM_grows {α : Type} {grow : StringSet → α → Except Fault StringSet}
    {reaches : α → String → Prop} {items : List α}
    (each : ∀ item ∈ items, ∀ found, machine.Settled found →
      ∃ result, grow found item = .ok result ∧ machine.Settled result ∧
        ∀ name, name ∈ result ↔ name ∈ found ∨ reaches item name)
    {found : StringSet} (settled : machine.Settled found) :
    ∃ result, items.foldlM grow found = .ok result ∧ machine.Settled result ∧
      ∀ name, name ∈ result ↔ name ∈ found ∨ ∃ item ∈ items, reaches item name := by
  induction items generalizing found with
  | nil =>
      refine ⟨found, rfl, settled, fun name => ⟨Or.inl, fun either => ?_⟩⟩
      exact either.resolve_right nofun
  | cons item items ih =>
      obtain ⟨next, grown, nextSettled, nextExactly⟩ := each item List.mem_cons_self found settled
      obtain ⟨result, ended, resultSettled, exactly⟩ :=
        ih (fun other member => each other (List.mem_cons_of_mem _ member)) nextSettled
      refine ⟨result, ?_, resultSettled, fun name => ?_⟩
      · rw [List.foldlM_cons, grown]
        exact ended
      · rw [exactly, nextExactly, or_assoc, List.exists_mem_cons_iff]

namespace Whole

/-- Owned names are looked up without fault. -/
theorem mapM_stateNamed (whole : machine.Whole) {names : List String}
    (owned : ∀ name ∈ names, name ∈ machine.states.keys) :
    ∃ states, names.mapM machine.stateNamed = .ok states ∧ states.map (·.name) = names ∧
      ∀ state ∈ states, machine.states.find? state.name = some state := by
  induction names with
  | nil => exact ⟨[], rfl, rfl, nofun⟩
  | cons name names ih =>
      obtain ⟨state, found⟩ := owned_iff.mp (owned name List.mem_cons_self)
      obtain ⟨states, mapped, named, each⟩ := ih fun other member =>
        owned other (List.mem_cons_of_mem _ member)
      have looked : machine.stateNamed name = .ok state := by
        simp only [stateNamed, found]
      have same : state.name = name := whole.named name state found
      refine ⟨state :: states, ?_, ?_, ?_⟩
      · rw [List.mapM_cons, looked, mapped]
        rfl
      · rw [List.map_cons, same, named]
      · exact List.forall_mem_cons.mpr ⟨same.symm ▸ found, each⟩

theorem owned_of_path (whole : machine.Whole) {source target : String} {word : List Char}
    (owned : source ∈ machine.states.keys) (path : machine.Path source word target) :
    target ∈ machine.states.keys := by
  induction path with
  | here _ => exact owned
  | silent move _ ih => exact ih (whole.targets _ _ _ move)
  | read move _ ih => exact ih (whole.targets _ _ _ move)

theorem extend_eq (whole : machine.Whole) {found : StringSet} (settled : machine.Settled found)
    {name : String} (owned : name ∈ machine.states.keys) :
    ∃ result, machine.extend found name = .ok result ∧ machine.Settled result ∧
      ∀ other, other ∈ result ↔ other ∈ found ∨ machine.Path name [] other := by
  rcases extend_cases settled name with ended | ⟨missing, path, absent, _⟩
  · exact ended
  · exact absurd (whole.owned_of_path owned path) absent

/-- The moves of an owned name on a symbol are looked up without fault. -/
theorem exists_targets (whole : machine.Whole) (symbol : String) {name : String}
    (owned : name ∈ machine.states.keys) :
    ∃ state states, machine.stateNamed name = .ok state ∧ machine.moves state symbol = .ok states ∧
      ∀ target, target ∈ states.map (·.name) ↔ machine.Leads name symbol target := by
  obtain ⟨state, found⟩ := owned_iff.mp owned
  have looked : machine.stateNamed name = .ok state := by
    simp only [stateNamed, found]
  have targetsOwned : ∀ target ∈ (state.targets symbol).toList, target ∈ machine.states.keys :=
    fun target leads => whole.targets name symbol target ⟨state, found, leads⟩
  obtain ⟨states, moved, named, _⟩ := whole.mapM_stateNamed targetsOwned
  refine ⟨state, states, looked, moved, fun target => ?_⟩
  rw [named]
  constructor
  · exact fun leads => ⟨state, found, leads⟩
  · intro given
    obtain ⟨other, otherFound, leads⟩ := given
    have same : state = other := Option.some.inj (found.symm.trans otherFound)
    exact same ▸ leads

/-- A step from an owned name adds what one move on the symbol and silent moves after
it reach. -/
theorem stepFrom_eq (whole : machine.Whole) {symbol : String} {found : StringSet}
    (settled : machine.Settled found) {name : String} (owned : name ∈ machine.states.keys) :
    ∃ result, machine.stepFrom symbol found name = .ok result ∧ machine.Settled result ∧
      ∀ other, other ∈ result ↔ other ∈ found ∨
        ∃ target, machine.Leads name symbol target ∧ machine.Path target [] other := by
  obtain ⟨state, states, looked, moved, isTarget⟩ := whole.exists_targets symbol owned
  have each : ∀ target ∈ states, ∀ found, machine.Settled found →
      ∃ result, machine.extend found target.name = .ok result ∧ machine.Settled result ∧
        ∀ other, other ∈ result ↔ other ∈ found ∨ machine.Path target.name [] other := by
    intro target member found settled
    have leads := (isTarget target.name).mp (List.mem_map_of_mem member)
    exact whole.extend_eq settled (whole.targets _ _ _ leads)
  obtain ⟨result, ended, resultSettled, exactly⟩ := foldlM_grows each settled
  refine ⟨result, ?_, resultSettled, fun other => (exactly other).trans (or_congr_right ?_)⟩
  · rw [stepFrom, looked]
    change (machine.moves state symbol >>= fun targets => _) = _
    rw [moved]
    exact ended
  · simp only [← isTarget, List.mem_map, exists_exists_and_eq_and]

/-- A step from a set of owned names gives what one move on a character and silent
moves after it reach from any of them. -/
theorem step_eq (whole : machine.Whole) {reached : StringSet}
    (owned : ∀ name ∈ reached, name ∈ machine.states.keys) (symbol : String) :
    ∃ result, machine.step reached symbol = .ok result ∧ machine.Settled result ∧
      ∀ other, other ∈ result ↔ ∃ name ∈ reached, ∃ target,
        machine.Leads name symbol target ∧ machine.Path target [] other := by
  have empty : machine.Settled ∅ := fun name member => absurd member (StringSet.not_mem_empty name)
  have each : ∀ name ∈ reached.toList, ∀ found, machine.Settled found →
      ∃ result, machine.stepFrom symbol found name = .ok result ∧ machine.Settled result ∧
        ∀ other, other ∈ result ↔ other ∈ found ∨
          ∃ target, machine.Leads name symbol target ∧ machine.Path target [] other := by
    intro name member found settled
    exact whole.stepFrom_eq settled (owned name member)
  obtain ⟨result, ended, settled, exactly⟩ := foldlM_grows each empty
  refine ⟨result, ended, settled, fun other => (exactly other).trans ?_⟩
  exact or_iff_right (StringSet.not_mem_empty other)

/-- Reading a word on from the names that a path along an earlier word reaches gives
those that a path along both words reaches. -/
theorem foldlM_step_eq (whole : machine.Whole) {start : String}
    (owned : start ∈ machine.states.keys) {before : List Char} {reached : StringSet}
    (exactly : ∀ name, name ∈ reached ↔ machine.Path start before name) (word : List Char) :
    ∃ result, word.foldlM (fun reached character =>
        machine.step reached (String.singleton character)) reached = .ok result ∧
      ∀ name, name ∈ result ↔ machine.Path start (before ++ word) name := by
  induction word generalizing before reached with
  | nil =>
      refine ⟨reached, rfl, fun name => ?_⟩
      rw [List.append_nil]
      exact exactly name
  | cons character word ih =>
      have reachedOwned : ∀ name ∈ reached, name ∈ machine.states.keys := fun name member =>
        whole.owned_of_path owned ((exactly name).mp member)
      obtain ⟨next, stepped, _, nextExactly⟩ :=
        whole.step_eq reachedOwned (String.singleton character)
      have nextReached : ∀ name, name ∈ next ↔ machine.Path start (before ++ [character]) name := by
        intro name
        rw [nextExactly, Machine.Path, Moves.Path.snoc_iff]
        simp only [exactly]
      obtain ⟨result, ended, resultExactly⟩ := ih nextReached
      refine ⟨result, ?_, fun name => ?_⟩
      · rw [List.foldlM_cons, stepped]
        exact ended
      · rw [resultExactly, List.append_assoc, List.singleton_append]

/-- Reading a word gives the names that a path from the start along the word reaches. -/
theorem reach_eq (whole : machine.Whole) (word : List Char) :
    ∃ start ∈ machine.states.keys, machine.start = some start ∧
      ∃ result, machine.reach word = .ok result ∧
        ∀ name, name ∈ result ↔ machine.Path start word name := by
  obtain ⟨start, owned, started⟩ := whole.start
  obtain ⟨state, found⟩ := owned_iff.mp owned
  have looked : machine.startState = .ok state := by
    simp only [startState, started, stateNamed, found]
  have empty : machine.Settled ∅ := fun name member => absurd member (StringSet.not_mem_empty name)
  obtain ⟨initial, closed, _, initially⟩ := whole.extend_eq empty owned
  have closure : machine.closure state.name = .ok initial := by
    rw [whole.named start state found]
    exact closed
  have initialExactly : ∀ name, name ∈ initial ↔ machine.Path start [] name := by
    intro name
    rw [initially]
    exact or_iff_right (StringSet.not_mem_empty name)
  obtain ⟨result, ended, exactly⟩ := whole.foldlM_step_eq owned initialExactly word
  refine ⟨start, owned, started, result, ?_, exactly⟩
  rw [reach, looked]
  change (machine.closure state.name >>= fun initial => _) = _
  rw [closure]
  exact ended

/-- **Acceptance is decided by paths.** A whole machine answers for every word, and
the answer is whether it recognises the word. -/
theorem accepts_eq (whole : machine.Whole) (word : List Char) :
    ∃ answer, machine.accepts word = .ok answer ∧ (answer = true ↔ machine.Recognises word) := by
  obtain ⟨start, owned, started, reached, ended, exactly⟩ := whole.reach_eq word
  have reachedOwned : ∀ name ∈ reached.toList, name ∈ machine.states.keys := fun name member =>
    whole.owned_of_path owned ((exactly name).mp member)
  obtain ⟨states, looked, named, found⟩ := whole.mapM_stateNamed reachedOwned
  refine ⟨states.any (·.accepting), ?_, ?_⟩
  · rw [accepts, ended]
    change (reached.toList.mapM machine.stateNamed >>= fun states => _) = _
    rw [looked]
    rfl
  · rw [List.any_eq_true]
    constructor
    · intro given
      obtain ⟨state, member, accepting⟩ := given
      have inside : state.name ∈ reached.toList := by
        rw [← named]
        exact List.mem_map_of_mem member
      exact ⟨start, state.name, state, started, (exactly _).mp inside, found state member,
        accepting⟩
    · intro given
      obtain ⟨origin, last, state, sameStart, path, owner, accepting⟩ := given
      have same : start = origin := Option.some.inj (started.symm.trans sameStart)
      have inside : last ∈ reached.toList := (exactly last).mpr (same ▸ path)
      rw [← named] at inside
      obtain ⟨other, member, rfl⟩ := List.mem_map.mp inside
      have equal : other = state := Option.some.inj ((found other member).symm.trans owner)
      exact ⟨other, member, equal ▸ accepting⟩

end Whole

end PatternAutomata.Machine
