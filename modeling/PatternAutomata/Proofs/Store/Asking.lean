import PatternAutomata.Store.Command

/-! # Actions that only ask

An action leaves a store behind whether it fails or not (`Action.ending`). Those that look up,
check and complain leave the store as it is (`Action.Reads`), and so does whatever is made of
such actions alone.
-/

namespace PatternAutomata

namespace Action

variable {α β : Type}

/-- The store in which an action ends, whether it fails or not. -/
def ending (action : Action α) (store : Store) : Store :=
  match action.run store with
  | .ok _ after => after
  | .error _ after => after

/-- An action that changes nothing, whether it fails or not. -/
def Reads (action : Action α) : Prop :=
  ∀ store, ending action store = store

section Ending

variable {action : Action α} {next : α → Action β} {store after : Store}

theorem ending_of_ok {value : α} (ran : action.run store = .ok value after) :
    ending action store = after := by
  rw [ending, ran]

theorem ending_of_error {fault : Fault} (ran : action.run store = .error fault after) :
    ending action store = after := by
  rw [ending, ran]

theorem ending_bind_of_ok {value : α} (ran : action.run store = .ok value after) :
    ending (action >>= next) store = ending (next value) after := by
  rw [ending, run_bind_of_ok ran, ending]

theorem ending_bind_of_error {fault : Fault} (ran : action.run store = .error fault after) :
    ending (action >>= next) store = after :=
  ending_of_error (run_bind_of_error ran)

end Ending

section Reading

variable {action : Action α} {next : α → Action β}

theorem reads_pure (value : α) : Reads (pure value : Action α) := fun _ => rfl

theorem reads_throw (fault : Fault) : Reads (throw fault : Action α) := fun _ => rfl

theorem Reads.bind (reads : Reads action) (later : ∀ value, Reads (next value)) :
    Reads (action >>= next) := by
  intro store
  have same := reads store
  cases ran : action.run store with
  | ok value after =>
      rw [ending_of_ok ran] at same
      rw [ending_bind_of_ok ran, later value, same]
  | error fault after =>
      rw [ending_of_error ran] at same
      rw [ending_bind_of_error ran, same]

theorem Reads.mapM {body : α → Action β} (reads : ∀ item, Reads (body item)) (items : List α) :
    Reads (items.mapM body) := by
  induction items with
  | nil =>
      rw [List.mapM_nil]
      exact reads_pure []
  | cons item items ih =>
      rw [List.mapM_cons]
      exact (reads item).bind fun _ => ih.bind fun _ => reads_pure _

theorem reads_ofResult (result : Except Fault α) : Reads (ofResult result) := by
  cases result with
  | ok value => exact reads_pure value
  | error fault => exact reads_throw fault

theorem reads_argument (argument : Argument) : Reads argument.read := by
  cases argument with
  | text content => exact reads_pure content
  | other => exact reads_throw _

theorem reads_state (ref : StateRef) : Reads (Action.state ref) := fun _ => rfl

theorem reads_automaton (automaton : AutomatonRef) : Reads (Action.automaton automaton) :=
  fun _ => rfl

theorem reads_machine (automaton : AutomatonRef) : Reads (Action.machine automaton) :=
  fun _ => rfl

theorem reads_compiler (compiler : CompilerRef) : Reads (Action.compiler compiler) :=
  fun _ => rfl

theorem reads_stateNamed (automaton : AutomatonRef) (name : String) :
    Reads (stateNamed automaton name) := by
  refine (reads_automaton automaton).bind fun content => ?_
  split
  · exact reads_pure _
  · exact reads_throw _

theorem reads_startOf (automaton : AutomatonRef) : Reads (startOf automaton) := by
  refine (reads_automaton automaton).bind fun content => ?_
  split
  · exact reads_stateNamed automaton _
  · exact reads_throw _

theorem reads_ownedBy (automaton : AutomatonRef) : Reads (ownedBy automaton) :=
  (reads_automaton automaton).bind fun _ => reads_pure _

theorem reads_acceptingIn (automaton : AutomatonRef) : Reads (acceptingIn automaton) :=
  (reads_automaton automaton).bind fun _ => reads_pure _

theorem reads_checkSymbol (text : String) : Reads (checkSymbol text) := by
  unfold checkSymbol
  split
  · exact reads_pure ()
  · exact reads_throw _

theorem reads_checkLetter (text : String) : Reads (checkLetter text) := by
  unfold checkLetter
  split
  · exact reads_throw _
  · exact reads_checkSymbol text

theorem reads_ahead (compiler : CompilerRef) : Reads (ahead compiler) :=
  (reads_compiler compiler).bind fun _ => reads_pure _

theorem reads_complain (compiler : CompilerRef) (complaint : Complaint) :
    Reads (complain compiler complaint : Action α) :=
  (reads_compiler compiler).bind fun _ => reads_throw _

theorem reads_peek (compiler : CompilerRef) : Reads (peek compiler) := by
  refine (reads_ahead compiler).bind fun characters => ?_
  split
  · exact reads_complain compiler _
  · exact reads_pure _

theorem reads_list (automaton : AutomatonRef) (listing : Listing) :
    Reads (list automaton listing) := by
  cases listing with
  | states => exact (reads_automaton automaton).bind fun _ => reads_pure _
  | accepting => exact (reads_automaton automaton).bind fun _ => reads_pure _
  | alphabet => exact (reads_automaton automaton).bind fun _ => reads_pure _

theorem reads_readTransitions (transitions : List (Argument × List Argument)) :
    Reads (readTransitions transitions) := by
  refine Reads.bind (Reads.mapM (fun transition => ?_) transitions) fun _ => reads_pure _
  refine (reads_argument transition.1).bind fun symbol => ?_
  exact (Reads.mapM reads_argument transition.2).bind fun targets => reads_pure _

end Reading

end Action

end PatternAutomata
