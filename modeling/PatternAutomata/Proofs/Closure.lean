import PatternAutomata.Proofs.Machine.Iteration
import PatternAutomata.Store.Command

/-! # Closures

A closure may be asked of any automaton and for any state, owned or not. What counts is the name of
the state: a chain of silent moves leads on from it, as long as the automaton owns a state under the
name reached.

The search ends in whatever order names are gone through, and it takes no name twice. What it gives
is the least set of names that has the name of the state and that silent moves do not leave. It
fails just where a chain leads to a name without an owner (`Store.closure_least`).
-/

namespace PatternAutomata

namespace Machine

variable {machine : Machine} {name source target : String} {outcome : Except Fault StringSet}

/-- A chain of silent moves of owned states leads from a name to a name. -/
def LeadsSilently (machine : Machine) : String → String → Prop :=
  Relation.ReflTransGen fun source target => machine.Leads source epsilon target

/-- The silent moves of owned states do not leave a set of names. -/
def KeepsSilently (machine : Machine) (names : Set String) : Prop :=
  ∀ source ∈ names, ∀ target, machine.Leads source epsilon target → target ∈ names

/-- What the closure of a name is: the least set that has the name and that silent moves do not
leave, or the fault that they lead to a name without an owner. -/
def IsClosure (machine : Machine) (name : String) : Except Fault StringSet → Prop
  | .ok found =>
      (∀ other, machine.LeadsSilently name other → other ∈ machine.states.keys) ∧
        IsLeast {names | name ∈ names ∧ machine.KeepsSilently names} {other | other ∈ found}
  | .error fault =>
      ∃ missing, machine.LeadsSilently name missing ∧ missing ∉ machine.states.keys ∧
        fault = .unowned missing

theorem path_nil_iff : machine.Path source [] target ↔ machine.LeadsSilently source target := by
  constructor
  · intro path
    generalize spelled : ([] : List Char) = word at path
    induction path with
    | here name => exact .refl
    | silent move _ ih => exact .head move (ih spelled)
    | read _ _ _ => cases spelled
  · intro chain
    induction chain using Relation.ReflTransGen.head_induction_on with
    | refl => exact .here target
    | head move _ ih => exact .silent move ih

/-- A set that silent moves do not leave has all that chains of them lead to. -/
theorem KeepsSilently.reach {names : Set String} (keeps : machine.KeepsSilently names)
    (inside : source ∈ names) (chain : machine.LeadsSilently source target) : target ∈ names := by
  induction chain with
  | refl => exact inside
  | tail _ move ih => exact keeps _ ih _ move

/-- A search that begins with a name gives the closure of the name. -/
theorem Ends.isClosure (ends : machine.Ends (StringSet.ofList [name]) [name] outcome) :
    machine.IsClosure name outcome := by
  rcases ends.of_one with ⟨found, rfl, settled, exactly⟩ | ⟨missing, path, absent, rfl⟩
  · simp only [path_nil_iff] at exactly
    refine ⟨fun other chain => ?_, ⟨(exactly name).mpr .refl, ?_⟩, ?_⟩
    · obtain ⟨state, owned, _⟩ := settled other ((exactly other).mpr chain)
      exact owned_iff.mpr ⟨state, owned⟩
    · intro source member target move
      exact (exactly target).mpr (((exactly source).mp member).tail move)
    · rintro names ⟨inside, keeps⟩ other member
      exact keeps.reach inside ((exactly other).mp member)
  · exact ⟨missing, path_nil_iff.mp path, absent, rfl⟩

theorem closure_eq (machine : Machine) (name : String) (turn : Nat) :
    machine.closure name = (machine.closureBy .asListed name).run' turn := by
  rw [closure, extend, if_neg (StringSet.not_mem_empty name)]
  exact explore_eq _ turn _ _

/-- The search for a closure ends, takes no name twice, and gives what it should. -/
theorem exists_search (machine : Machine) (name : String) (schedule : Schedule) (turn : Nat) :
    ∃ taken, machine.Searches schedule turn (StringSet.ofList [name]) [name] taken
        ((machine.closureBy schedule name).run' turn) ∧
      taken.Nodup ∧ machine.IsClosure name ((machine.closureBy schedule name).run' turn) := by
  have explored := machine.explored_one name
  obtain ⟨taken, searches⟩ := exploreBy_searches schedule explored (List.length_filter_le _ _) turn
  exact ⟨taken, searches, (searches.distinct explored).1, (searches.ends explored).isClosure⟩

end Machine

namespace Store

theorem perform_closure (store : Store) (automaton : AutomatonRef) (state : StateRef) :
    store.perform (.closure automaton state) =
      (((store.machine automaton).closure (store.states.get state).name).map
        fun found => .names found.toList, store) := by
  have ran : (Action.perform (.closure automaton state)).run store =
      (Action.ofResult ((store.machine automaton).closure (store.states.get state).name) >>=
        fun found => return .names found.toList : Action Outcome).run store :=
    rfl
  rw [perform, ran]
  cases (store.machine automaton).closure (store.states.get state).name with
  | error fault => rfl
  | ok found => rfl

/-- **Closures are exact.** For any automaton and any state, and in whatever order names are gone
through, the search ends and takes no name twice. It gives the least set of names that has the name
of the state and that silent moves do not leave, and fails just where a chain of silent moves leads
to a name without an owner. Asking changes nothing. -/
theorem closure_least (store : Store) (automaton : AutomatonRef) (state : StateRef) :
    let machine := store.machine automaton
    let name := (store.states.get state).name
    (∀ schedule turn, ∃ taken outcome,
        machine.Searches schedule turn (StringSet.ofList [name]) [name] taken outcome ∧
          taken.Nodup ∧ (machine.closureBy schedule name).run' turn = outcome ∧
          machine.IsClosure name outcome) ∧
      ∃ outcome, machine.IsClosure name outcome ∧
        store.perform (.closure automaton state) =
          (outcome.map fun found => .names found.toList, store) := by
  intro machine name
  refine ⟨fun schedule turn => ?_, ?_⟩
  · obtain ⟨taken, searches, distinct, closes⟩ := machine.exists_search name schedule turn
    exact ⟨taken, _, searches, distinct, rfl, closes⟩
  · obtain ⟨_, _, _, closes⟩ := machine.exists_search name .asListed 0
    rw [← machine.closure_eq name 0] at closes
    exact ⟨_, closes, store.perform_closure automaton state⟩

end Store

end PatternAutomata
