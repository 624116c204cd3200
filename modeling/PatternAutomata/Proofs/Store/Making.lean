import PatternAutomata.Proofs.Store.Asking
import PatternAutomata.Proofs.Store.Compiling

/-! # How many states are made

Every name that building a tree takes is the name of one new state, so building makes as
many states as the tree takes names (`Action.makes_build`). States are made nowhere else: owning,
connecting and demoting states makes none. Where as many states are known as were made, these
are all of them (`Heap.mem_of_grown`).
-/

namespace PatternAutomata

namespace Heap

variable {α : Type}

/-- The number of values that a heap holds. -/
def size (heap : Heap α) : Nat :=
  heap.cells.size

@[simp] theorem size_add (heap : Heap α) (value : α) : (heap.add value).size = heap.size + 1 :=
  Array.size_push value

@[simp] theorem size_change [Inhabited α] (heap : Heap α) (ref : Ref α) (update : α → α) :
    (heap.change ref update).size = heap.size :=
  Array.size_setIfInBounds

/-- Distinct new references that are as many as a heap has grown by are all the new ones. -/
theorem mem_of_grown {before after : Heap α} {refs : List (Ref α)} (distinct : refs.Nodup)
    (made : ∀ ref ∈ refs, ref ∉ before) (held : ∀ ref ∈ refs, ref ∈ after)
    (grown : after.size = before.size + refs.length) (ref : Ref α) :
    ref ∈ refs ↔ ref ∈ after ∧ ref ∉ before := by
  refine ⟨fun member => ⟨held ref member, made ref member⟩, fun new => ?_⟩
  have indices : (refs.map Ref.index).Nodup := distinct.map fun _ _ => Ref.ext
  have within : refs.map Ref.index ⊆ List.range' before.size refs.length := by
    intro index member
    obtain ⟨other, inside, rfl⟩ := List.mem_map.mp member
    have below : other.index < after.size := held other inside
    have above : ¬ other.index < before.size := made other inside
    exact List.mem_range'_1.mpr ⟨Nat.le_of_not_lt above, grown ▸ below⟩
  -- distinct indices, as many as there are in the range, are the whole range
  have all : (refs.map Ref.index).Perm (List.range' before.size refs.length) := by
    apply (indices.subperm within).perm_of_length_le
    rw [List.length_map, List.length_range']
  have below : ref.index < after.size := new.1
  have above : ¬ ref.index < before.size := new.2
  have inRange : ref.index ∈ List.range' before.size refs.length :=
    List.mem_range'_1.mpr ⟨Nat.le_of_not_lt above, grown ▸ below⟩
  obtain ⟨other, inside, same⟩ := List.mem_map.mp (all.mem_iff.mpr inRange)
  exact Ref.ext same ▸ inside

end Heap

namespace Action

/-- An action that makes a number of states whenever it succeeds. -/
def Makes {α : Type} (count : Nat) (action : Action α) : Prop :=
  ∀ ⦃store after : Store⦄ ⦃value : α⦄, action.run store = .ok value after →
    after.states.size = store.states.size + count

variable {α β : Type} {count more : Nat} {compiler : CompilerRef}

theorem makes_pure (value : α) : Makes 0 (pure value : Action α) := by
  intro store after result ran
  cases ran
  rfl

/-- What only asks makes nothing. -/
theorem Reads.makes {action : Action α} (reads : Reads action) : Makes 0 action := by
  intro store after value ran
  have same : after = store := (ending_of_ok ran).symm.trans (reads store)
  rw [same, Nat.add_zero]

theorem makes_throw (count : Nat) (fault : Fault) : Makes count (throw fault : Action α) := by
  intro store after result ran
  cases ran

theorem Makes.bind {action : Action α} {next : α → Action β} (makes : Makes count action)
    (later : ∀ value, Makes more (next value)) : Makes (count + more) (action >>= next) := by
  intro store after result ran
  cases first : action.run store with
  | error fault middle =>
      rw [run_bind_of_error first] at ran
      cases ran
  | ok value middle =>
      rw [run_bind_of_ok first] at ran
      rw [later value ran, makes first, Nat.add_assoc]

/-- What makes none comes before what makes all. -/
theorem Makes.before {action : Action α} {next : α → Action β} (makes : Makes 0 action)
    (later : ∀ value, Makes count (next value)) : Makes count (action >>= next) := by
  have both := makes.bind later
  rwa [Nat.zero_add] at both

/-- What makes all comes before what makes none. -/
theorem Makes.only {action : Action α} {next : α → Action β} (makes : Makes count action)
    (later : ∀ value, Makes 0 (next value)) : Makes count (action >>= next) :=
  makes.bind later

theorem Makes.ite {condition : Prop} [Decidable condition] {yes no : Action α}
    (yesMakes : Makes count yes) (noMakes : Makes count no) :
    Makes count (if condition then yes else no) := by
  split
  · exact yesMakes
  · exact noMakes

theorem Makes.forM {body : α → Action Unit} (makes : ∀ item, Makes 0 (body item))
    (items : List α) : Makes 0 (items.forM body) := by
  induction items with
  | nil => exact makes_pure ()
  | cons item items ih => exact (makes item).before fun _ => ih

theorem makes_modify {update : Store → Store}
    (made : ∀ store, (update store).states.size = store.states.size + count) :
    Makes count (modify update : Action PUnit) := by
  intro store after result ran
  cases ran
  exact made store

theorem makes_changeAutomaton (automaton : AutomatonRef) (update : Automaton → Automaton) :
    Makes 0 (modify (·.changeAutomaton automaton update) : Action PUnit) :=
  makes_modify fun _ => rfl

theorem makes_changeCompiler (compiler : CompilerRef) (update : Compiler → Compiler) :
    Makes 0 (modify (·.changeCompiler compiler update) : Action PUnit) :=
  makes_modify fun _ => rfl

theorem makes_changeState (state : StateRef) (update : State → State) :
    Makes 0 (modify (·.changeState state update) : Action PUnit) :=
  makes_modify fun _ => Heap.size_change _ state update

theorem makes_newState (state : State) : Makes 1 (newState state) := by
  intro store after result ran
  cases ran
  exact Heap.size_add _ state

theorem makes_newAutomaton (automaton : Automaton) : Makes 0 (newAutomaton automaton) := by
  intro store after result ran
  cases ran
  rfl

theorem makes_freshName (compiler : CompilerRef) : Makes 0 (freshName compiler) := by
  intro store after result ran
  cases ran
  rfl

theorem makes_advance (compiler : CompilerRef) (distance : Nat) :
    Makes 0 (advance compiler distance) :=
  makes_changeCompiler compiler _

section Ownership

variable (automaton : AutomatonRef)

theorem makes_adopt (states : List StateRef) : Makes 0 (adopt automaton states) := by
  refine Makes.forM (fun ref => ?_) states
  refine (reads_state ref).makes.before fun state => ?_
  refine (reads_automaton automaton).makes.before fun content => ?_
  exact (makes_throw 0 _).ite (makes_changeAutomaton automaton _)

/-- The only way to come by a state. -/
theorem makes_addState (state : State) : Makes 1 (addState automaton state) := by
  refine (reads_automaton automaton).makes.before fun content => (makes_throw 1 _).ite ?_
  refine (makes_newState state).only fun ref => ?_
  exact (makes_changeAutomaton automaton _).before fun _ => makes_pure ref

theorem makes_addStart (name : String) : Makes 1 (addStart automaton name) := by
  refine (makes_addState automaton _).only fun ref => ?_
  exact (makes_changeAutomaton automaton _).before fun _ => makes_pure ref

theorem makes_connect (symbol : String) (state target : StateRef) :
    Makes 0 (connect symbol state target) := by
  refine (reads_state target).makes.before fun content => ?_
  refine (reads_checkSymbol symbol).makes.before fun _ => ?_
  exact makes_changeState state _

theorem makes_demote (state : StateRef) : Makes 0 (demote automaton state) := by
  refine (reads_state state).makes.before fun content => ?_
  refine (makes_changeState state _).before fun _ => ?_
  exact makes_changeAutomaton automaton _

theorem makes_addLetters (symbols : List String) : Makes 0 (addLetters automaton symbols) :=
  Makes.forM (fun symbol => (reads_checkLetter symbol).makes.before fun _ =>
    makes_changeAutomaton automaton _) symbols

end Ownership

section Construction

theorem makes_noteLiteral (symbol : String) : Makes 0 (noteLiteral compiler symbol) := by
  refine (reads_compiler compiler).makes.before fun content => (makes_pure _).ite ?_
  exact (reads_checkLetter symbol).makes.before fun _ => makes_changeCompiler compiler _

theorem makes_literal (symbol : String) : Makes 2 (literal compiler symbol) := by
  change Makes (1 + 1) _
  refine (makes_noteLiteral symbol).before fun _ => ?_
  refine (makes_newAutomaton _).before fun automaton => ?_
  refine (makes_freshName compiler).before fun name => ?_
  refine (makes_addStart automaton name).bind fun start => ?_
  refine (makes_freshName compiler).before fun name => ?_
  refine (makes_addState automaton _).only fun accepting => ?_
  exact (makes_connect symbol start accepting).before fun _ => makes_pure automaton

theorem makes_alternative (first second : AutomatonRef) :
    Makes 1 (alternative compiler first second) := by
  refine (makes_newAutomaton _).before fun automaton => ?_
  refine (makes_freshName compiler).before fun name => ?_
  refine (makes_addStart automaton name).only fun start => ?_
  refine (reads_ownedBy first).makes.before fun states => ?_
  refine (makes_adopt automaton states).before fun _ => ?_
  refine (reads_ownedBy second).makes.before fun states => ?_
  refine (makes_adopt automaton states).before fun _ => ?_
  refine (reads_startOf first).makes.before fun entry => ?_
  refine (makes_connect _ start entry).before fun _ => ?_
  refine (reads_startOf second).makes.before fun entry => ?_
  refine (makes_connect _ start entry).before fun _ => ?_
  exact makes_pure automaton

theorem makes_concatenation (first : Option AutomatonRef) (second : AutomatonRef) :
    Makes 0 (concatenation first second) := by
  cases first with
  | none => exact makes_pure second
  | some first =>
      refine Makes.before ?_ fun _ => makes_pure first
      refine (reads_startOf second).makes.before fun entry => ?_
      refine (reads_acceptingIn first).makes.before fun states => ?_
      refine Makes.before ?_ fun _ =>
        (reads_ownedBy second).makes.before fun _ => makes_adopt first _
      exact Makes.forM (fun state => (makes_demote first state).before fun _ =>
        makes_connect _ state entry) states

theorem makes_repetition (automaton : AutomatonRef) : Makes 0 (repetition automaton) := by
  refine (reads_startOf automaton).makes.before fun start => ?_
  refine (reads_acceptingIn automaton).makes.before fun states => ?_
  refine Makes.before ?_ fun _ => makes_pure automaton
  exact Makes.forM (fun state => (makes_connect _ start state).before fun _ =>
    makes_connect _ state start) states

/-- **Building a tree makes a state for every name** that it takes. -/
theorem makes_build (compiler : CompilerRef) (tree : Tree) :
    Makes tree.names (build compiler tree) := by
  induction tree with
  | literal character => exact makes_literal _
  | escaped character => exact makes_literal _
  | group _ ih => exact ih
  | star _ ih => exact ih.only makes_repetition
  | concat _ _ leftIH rightIH =>
      exact leftIH.bind fun first => rightIH.only fun second =>
        makes_concatenation (some first) second
  | alt left right leftIH rightIH =>
      rw [Tree.names, Nat.add_assoc]
      exact leftIH.bind fun first => rightIH.bind fun second => makes_alternative first second

end Construction

end Action

end PatternAutomata
