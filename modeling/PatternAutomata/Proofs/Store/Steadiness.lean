import PatternAutomata.Proofs.Store.Building
import PatternAutomata.Store.Compilation

/-! # Building does not look at the cursor

Building a tree gives the same automaton wherever the cursor stands, and leaves the cursor
there (`Action.steady_build`). So it makes no difference whether the cursor moves on before
a tree is built or after it.
-/

namespace PatternAutomata

/-- Moves the cursor forward. -/
def Compiler.move (compiler : Compiler) (distance : Nat) : Compiler :=
  { compiler with cursor := compiler.cursor + distance }

/-- Moves the cursor of a compiler forward. -/
def Store.move (store : Store) (compiler : CompilerRef) (distance : Nat) : Store :=
  store.changeCompiler compiler (·.move distance)

theorem Store.names_move (store : Store) (compiler : CompilerRef) (distance : Nat) :
    ((store.move compiler distance).compilers.get compiler).names =
      (store.compilers.get compiler).names := by
  by_cases held : compiler ∈ store.compilers
  · rw [move, compilers_changeCompiler, Heap.get_change_self held, Compiler.move]
  · rw [move, compilers_changeCompiler, Heap.change_of_not_mem held]

theorem Store.move_move (store : Store) (compiler : CompilerRef) (first second : Nat) :
    (store.move compiler first).move compiler second = store.move compiler (first + second) := by
  simp only [move, changeCompiler, Heap.change_change, Compiler.move, Nat.add_assoc]

/-- Moving a cursor, and a change that does not depend on it, can be done in either order. -/
theorem Store.changeCompiler_move {update : Compiler → Compiler}
    (commutes : ∀ (content : Compiler) (distance : Nat),
      update (content.move distance) = (update content).move distance)
    (store : Store) (compiler : CompilerRef) (distance : Nat) :
    (store.move compiler distance).changeCompiler compiler update =
      (store.changeCompiler compiler update).move compiler distance := by
  simp only [move, changeCompiler, Heap.change_change, commutes]

namespace Action

/-- An action that returns the same, and does the same, wherever the cursor of a compiler
stands. -/
def Steady {α : Type} (compiler : CompilerRef) (action : Action α) : Prop :=
  ∀ ⦃store after : Store⦄ ⦃value : α⦄ (distance : Nat), action.run store = .ok value after →
    action.run (store.move compiler distance) = .ok value (after.move compiler distance)

variable {α β : Type} {compiler : CompilerRef}

theorem steady_pure (value : α) : Steady compiler (pure value : Action α) := by
  intro store after result distance ran
  cases ran
  rfl

theorem steady_throw (fault : Fault) : Steady compiler (throw fault : Action α) := by
  intro store after result distance ran
  cases ran

theorem Steady.bind {action : Action α} {next : α → Action β} (steady : Steady compiler action)
    (later : ∀ value, Steady compiler (next value)) : Steady compiler (action >>= next) := by
  intro store after result distance ran
  cases first : action.run store with
  | error fault middle =>
      rw [run_bind_of_error first] at ran
      cases ran
  | ok value middle =>
      rw [run_bind_of_ok first] at ran
      rw [run_bind_of_ok (steady distance first)]
      exact later value distance ran

theorem Steady.ite {condition : Prop} [Decidable condition] {yes no : Action α}
    (yesSteady : Steady compiler yes) (noSteady : Steady compiler no) :
    Steady compiler (if condition then yes else no) := by
  split
  · exact yesSteady
  · exact noSteady

theorem Steady.forM {body : α → Action Unit} (steady : ∀ item, Steady compiler (body item))
    (items : List α) : Steady compiler (items.forM body) := by
  induction items with
  | nil => exact steady_pure ()
  | cons item items ih => exact (steady item).bind fun _ => ih

/-- What only states and automata have a part in does not depend on compilers. -/
theorem steady_modify {update : Store → Store}
    (commutes : ∀ store distance,
      update (store.move compiler distance) = (update store).move compiler distance) :
    Steady compiler (modify update : Action PUnit) := by
  intro store after result distance ran
  cases ran
  exact congrArg (EStateM.Result.ok PUnit.unit) (commutes store distance)

theorem steady_changeAutomaton (automaton : AutomatonRef) (update : Automaton → Automaton) :
    Steady compiler (modify (·.changeAutomaton automaton update) : Action PUnit) :=
  steady_modify fun _ _ => rfl

theorem steady_automaton (automaton : AutomatonRef) :
    Steady compiler (Action.automaton automaton) := by
  intro store after result distance ran
  cases ran
  rfl

theorem steady_state (ref : StateRef) : Steady compiler (Action.state ref) := by
  intro store after result distance ran
  cases ran
  rfl

theorem steady_newAutomaton : Steady compiler (newAutomaton {}) := by
  intro store after result distance ran
  cases ran
  rfl

theorem steady_newState (state : State) : Steady compiler (newState state) := by
  intro store after result distance ran
  cases ran
  rfl

theorem steady_ownedBy (automaton : AutomatonRef) : Steady compiler (ownedBy automaton) :=
  (steady_automaton automaton).bind fun _ => steady_pure _

theorem steady_acceptingIn (automaton : AutomatonRef) : Steady compiler (acceptingIn automaton) :=
  (steady_automaton automaton).bind fun _ => steady_pure _

theorem steady_adopt (automaton : AutomatonRef) (states : List StateRef) :
    Steady compiler (adopt automaton states) := by
  refine Steady.forM (fun ref => ?_) states
  refine (steady_state ref).bind fun state => (steady_automaton automaton).bind fun content => ?_
  exact (steady_throw _).ite (steady_changeAutomaton automaton _)

theorem steady_addState (automaton : AutomatonRef) (state : State) :
    Steady compiler (addState automaton state) := by
  refine (steady_automaton automaton).bind fun content => (steady_throw _).ite ?_
  refine (steady_newState state).bind fun ref => ?_
  exact (steady_changeAutomaton automaton _).bind fun _ => steady_pure ref

theorem steady_addStart (automaton : AutomatonRef) (name : String) :
    Steady compiler (addStart automaton name) := by
  refine (steady_addState automaton _).bind fun ref => ?_
  exact (steady_changeAutomaton automaton _).bind fun _ => steady_pure ref

theorem steady_connect (symbol : String) (state target : StateRef) :
    Steady compiler (connect symbol state target) := by
  refine (steady_state target).bind fun content => ?_
  refine ((steady_pure ()).ite (steady_throw _)).bind fun _ => ?_
  exact steady_modify fun _ _ => rfl

theorem steady_demote (automaton : AutomatonRef) (state : StateRef) :
    Steady compiler (demote automaton state) := by
  refine (steady_state state).bind fun content => ?_
  exact (steady_modify fun _ _ => rfl).bind fun _ => steady_changeAutomaton automaton _

theorem steady_stateNamed (automaton : AutomatonRef) (name : String) :
    Steady compiler (stateNamed automaton name) := by
  refine (steady_automaton automaton).bind fun content => ?_
  split
  · exact steady_pure _
  · exact steady_throw _

theorem steady_startOf (automaton : AutomatonRef) : Steady compiler (startOf automaton) := by
  refine (steady_automaton automaton).bind fun content => ?_
  split
  · exact steady_stateNamed automaton _
  · exact steady_throw _

theorem steady_freshName : Steady compiler (freshName compiler) := by
  intro store after result distance ran
  rw [run_freshName] at ran ⊢
  cases ran
  rw [Store.names_move]
  exact congrArg _ (Store.changeCompiler_move (fun _ _ => rfl) store compiler distance)

theorem steady_noteLiteral (character : Char) :
    Steady compiler (noteLiteral compiler (String.singleton character)) := by
  intro store after result distance ran
  rw [run_noteLiteral] at ran ⊢
  cases ran
  exact congrArg _ (Store.changeCompiler_move (fun _ _ => rfl) store compiler distance)

theorem steady_literal (character : Char) :
    Steady compiler (literal compiler (String.singleton character)) := by
  refine (steady_noteLiteral character).bind fun _ => steady_newAutomaton.bind fun automaton => ?_
  refine steady_freshName.bind fun startName => (steady_addStart automaton _).bind fun start => ?_
  refine steady_freshName.bind fun name => (steady_addState automaton _).bind fun accepting => ?_
  exact (steady_connect _ start accepting).bind fun _ => steady_pure automaton

theorem steady_alternative (first second : AutomatonRef) :
    Steady compiler (alternative compiler first second) := by
  refine steady_newAutomaton.bind fun automaton => steady_freshName.bind fun name => ?_
  refine (steady_addStart automaton name).bind fun start => ?_
  refine (steady_ownedBy first).bind fun states => (steady_adopt automaton states).bind fun _ => ?_
  refine (steady_ownedBy second).bind fun states => (steady_adopt automaton states).bind fun _ => ?_
  refine (steady_startOf first).bind fun entry => (steady_connect _ start entry).bind fun _ => ?_
  refine (steady_startOf second).bind fun entry => (steady_connect _ start entry).bind fun _ => ?_
  exact steady_pure automaton

theorem steady_concatenation (first : Option AutomatonRef) (second : AutomatonRef) :
    Steady compiler (concatenation first second) := by
  cases first with
  | none => exact steady_pure second
  | some first =>
      refine Steady.bind ?_ fun _ => steady_pure first
      refine (steady_startOf second).bind fun entry => (steady_acceptingIn first).bind fun states => ?_
      refine Steady.bind ?_ fun _ => (steady_ownedBy second).bind fun _ => steady_adopt first _
      exact Steady.forM (fun state => (steady_demote first state).bind fun _ =>
        steady_connect _ state entry) states

theorem steady_repetition (automaton : AutomatonRef) : Steady compiler (repetition automaton) := by
  refine (steady_startOf automaton).bind fun start => (steady_acceptingIn automaton).bind fun states => ?_
  refine Steady.bind ?_ fun _ => steady_pure automaton
  exact Steady.forM (fun state => (steady_connect _ start state).bind fun _ =>
    steady_connect _ state start) states

/-- Building does not depend on the cursor. -/
theorem steady_build (tree : Tree) : Steady compiler (build compiler tree) := by
  induction tree with
  | literal character => exact steady_literal character
  | escaped character => exact steady_literal character
  | group _ ih => exact ih
  | star _ ih => exact ih.bind steady_repetition
  | concat _ _ leftIH rightIH =>
      exact leftIH.bind fun first => rightIH.bind fun second =>
        steady_concatenation (some first) second
  | alt _ _ leftIH rightIH =>
      exact leftIH.bind fun first => rightIH.bind fun second => steady_alternative first second

end Action

end PatternAutomata
