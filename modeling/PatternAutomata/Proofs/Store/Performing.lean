import PatternAutomata.Proofs.Store.Editing

/-! # What a command does

A command makes elementary changes, or it makes a state or an automaton as it is told
(`Store.effect_perform`). Nothing checks what these two are told, so they stand apart.
-/

namespace PatternAutomata

namespace Command

/-- The states that a command has an automaton adopt. -/
def adoptees : Command → List StateRef
  | adopt _ states => states
  | _ => []

/-- Whether a command makes a state or an automaton as it is told. -/
def makes : Command → Bool
  | newAutomaton _ _ => true
  | newState _ _ _ => true
  | _ => false

/-- Whether a command tells a new automaton its start. -/
def tellsStart : Command → Bool
  | newAutomaton (some _) _ => true
  | _ => false

end Command

namespace Store

/-- What a command may make of a store. -/
inductive Effect (store : Store) (command : Command) : Store → Prop
  | edits {after : Store} (edits : store.Edits after) : Effect store command after
  | newState (state : State) (made : command.makes = true) :
      Effect store command { store with states := store.states.add state }
  | newAutomaton (start : Option String) (alphabet : StringSet) (made : command.makes = true)
      (told : command.tellsStart = false → start = none) :
      Effect store command { store with automata := store.automata.add { start, alphabet } }

end Store

namespace Action

variable {α β : Type}

/-- An action that only asks changes nothing by itself, and ends in what is done with its
answer. -/
theorem Reads.ending_bind {action : Action α} (reads : Reads action) (next : α → Action β)
    (store : Store) :
    ending (action >>= next) store = store ∨
      ∃ value, ending (action >>= next) store = ending (next value) store := by
  have same := reads store
  cases ran : action.run store with
  | ok value after =>
      rw [ending_of_ok ran] at same
      rw [ending_bind_of_ok ran, same]
      exact Or.inr ⟨value, rfl⟩
  | error fault after =>
      rw [ending_of_error ran] at same
      rw [ending_bind_of_error ran, same]
      exact Or.inl rfl

theorem ending_makeState (name : Option Argument) (accepting : Bool)
    (transitions : List (Argument × List Argument)) (store : Store) :
    ending (makeState name accepting transitions) store = store ∨
      ∃ state, ending (makeState name accepting transitions) store =
        { store with states := store.states.add state } := by
  cases name with
  | none => exact Or.inl rfl
  | some name =>
      rcases (reads_argument name).ending_bind _ store with same | ⟨text, named⟩
      · exact Or.inl same
      · rcases (reads_readTransitions transitions).ending_bind _ store with same | ⟨table, read⟩
        · exact Or.inl (named.trans same)
        · exact Or.inr ⟨_, named.trans read⟩

theorem reads_start (argument : Argument) :
    Reads ((some argument).mapM Argument.read) := by
  cases argument with
  | text content => exact reads_pure (some content)
  | other => exact reads_throw _

theorem ending_makeAutomaton (start : Option Argument) (alphabet : List Argument)
    (store : Store) :
    ending (makeAutomaton start alphabet) store = store ∨
      ∃ name letters, (start = none → name = none) ∧
        ending (makeAutomaton start alphabet) store =
          { store with automata := store.automata.add { start := name, alphabet := letters } } := by
  have readAlphabet := Reads.mapM reads_argument alphabet
  cases start with
  | none =>
      rcases readAlphabet.ending_bind _ store with same | ⟨letters, read⟩
      · exact Or.inl same
      · exact Or.inr ⟨none, _, fun _ => rfl, read⟩
  | some argument =>
      rcases (reads_start argument).ending_bind _ store with same | ⟨name, named⟩
      · exact Or.inl same
      · rcases readAlphabet.ending_bind _ store with same | ⟨letters, read⟩
        · exact Or.inl (named.trans same)
        · exact Or.inr ⟨name, _, fun absent => absurd absent (Option.some_ne_none _), named.trans read⟩

/-- What the answer of an action is wrapped in makes no difference to the store. -/
theorem ending_giving (action : Action α) (outcome : α → β) (store : Store) :
    ending (do return outcome (← action)) store = ending action store := by
  cases ran : action.run store with
  | ok value after => exact (ending_bind_of_ok ran).trans (ending_of_ok ran).symm
  | error fault after => exact (ending_bind_of_error ran).trans (ending_of_error ran).symm

theorem Reads.giving {action : Action α} (reads : Reads action) (outcome : α → β) :
    Reads (do return outcome (← action)) :=
  fun store => (ending_giving action outcome store).trans (reads store)

theorem Leads.giving {action : Action α} {store : Store} (leads : Leads store action)
    (outcome : α → β) : Leads store (do return outcome (← action)) := by
  rw [Leads, ending_giving]
  exact leads

/-- Reading an argument comes before what is done with its text. -/
theorem Leads.of_argument {argument : Argument} {next : String → Action β} {store : Store}
    (leads : ∀ text, Leads store (next text)) : Leads store (argument.read >>= next) := by
  cases argument with
  | text content => exact Leads.of_ask rfl (leads content)
  | other => exact Store.Edits.refl store

end Action

namespace Store

variable {store : Store} {command : Command}

theorem perform_eq_ending (store : Store) (command : Command) :
    (store.perform command).2 = Action.ending (Action.perform command) store := by
  unfold perform Action.ending
  cases (Action.perform command).run store with
  | ok outcome after => rfl
  | error fault after => rfl

theorem effect_of_reads (reads : Action.Reads (Action.perform command)) :
    store.Effect command (store.perform command).2 := by
  rw [perform_eq_ending]
  exact .edits (reads.leads store)

theorem effect_of_leads (leads : Action.Leads store (Action.perform command)) :
    store.Effect command (store.perform command).2 := by
  rw [perform_eq_ending]
  exact .edits leads

open PatternAutomata.Action in
theorem effect_newState (name : Option Argument) (accepting : Bool)
    (transitions : List (Argument × List Argument)) :
    store.Effect (.newState name accepting transitions)
      (store.perform (.newState name accepting transitions)).2 := by
  have made := ending_giving (makeState name accepting transitions) Outcome.state store
  rw [perform_eq_ending, Action.perform, made]
  rcases ending_makeState name accepting transitions store with same | ⟨state, added⟩
  · rw [same]
    exact .edits (.refl store)
  · rw [added]
    exact .newState state rfl

open PatternAutomata.Action in
theorem effect_newAutomaton (start : Option Argument) (alphabet : List Argument) :
    store.Effect (.newAutomaton start alphabet)
      (store.perform (.newAutomaton start alphabet)).2 := by
  have made := ending_giving (makeAutomaton start alphabet) Outcome.automaton store
  rw [perform_eq_ending, Action.perform, made]
  rcases ending_makeAutomaton start alphabet store with same | ⟨name, letters, told, added⟩
  · rw [same]
    exact .edits (.refl store)
  · rw [added]
    refine .newAutomaton name letters rfl fun untold => told ?_
    cases start with
    | none => rfl
    | some argument => exact absurd untold Bool.noConfusion

theorem edit_counters (counters : Heap Counter) : store.Edit { store with counters } :=
  .aside counters store.compilers fun _ _ => Or.inl

/-- A new compiler has noted nothing. -/
theorem edit_newCompiler (pattern : List Char) :
    store.Edit { store with compilers := store.compilers.add { pattern } } := by
  refine .aside store.counters (store.compilers.add { pattern }) fun ref symbol member => ?_
  by_cases same : ref = store.compilers.fresh
  · rw [same, Heap.get_add_fresh] at member
    exact absurd member (StringSet.not_mem_empty symbol)
  · exact Or.inl (Heap.get_add_of_ne same ▸ member)

open PatternAutomata.Action in
/-- A command that has an automaton adopt only states that are there makes elementary changes,
or it makes a state or an automaton. -/
theorem effect_of_closed (closed : store.Closed)
    (held : ∀ ref ∈ command.adoptees, ref ∈ store.states) :
    store.Effect command (store.perform command).2 := by
  cases command with
  | newAutomaton start alphabet => exact effect_newAutomaton start alphabet
  | newState name accepting transitions => exact effect_newState name accepting transitions
  | addStart automaton name =>
      exact effect_of_leads (.of_argument fun text => (leads_addStart store automaton text).giving _)
  | addAccepting automaton name =>
      refine effect_of_leads (.of_argument fun text => ?_)
      exact (leads_addState store automaton text true).giving _
  | connect symbol state target =>
      refine effect_of_leads (.of_argument fun text => ?_)
      exact (leads_connect store text state target).giving _
  | connectToName state symbol target =>
      refine effect_of_leads (.of_argument fun text => ?_)
      exact (leads_connectToName store state text target).giving _
  | clear state =>
      exact effect_of_leads ((leads_modify (.state state State.clear .clear)).giving _)
  | targets state symbol => exact effect_of_reads ((reads_state state).giving _)
  | demote automaton state => exact effect_of_leads ((leads_demote store automaton state).giving _)
  | adopt automaton states => exact effect_of_leads ((leads_adopt store automaton held).giving _)
  | adoptFrom automaton source =>
      refine effect_of_leads (.of_ask (run_ownedBy store source) (Leads.giving ?_ _))
      exact leads_adopt store automaton fun ref owned => closed.held_of_owned owned
  | addLetters automaton symbols =>
      refine effect_of_leads (Leads.giving (.forM fun symbol _ after _ => ?_) _)
      exact .of_argument fun text => leads_addLetter after automaton text
  | startOf automaton => exact effect_of_reads ((reads_startOf automaton).giving _)
  | stateNamed automaton name =>
      exact effect_of_reads ((reads_stateNamed automaton name).giving _)
  | acceptingIn automaton =>
      refine effect_of_reads ((reads_acceptingIn automaton).bind fun states => ?_)
      exact (Reads.mapM reads_state states).giving _
  | moves automaton state symbol =>
      refine effect_of_reads ((reads_machine automaton).bind fun machine => ?_)
      exact (reads_state state).bind fun content => (reads_ofResult _).giving _
  | closure automaton state =>
      refine effect_of_reads ((reads_machine automaton).bind fun machine => ?_)
      exact (reads_state state).bind fun content => (reads_ofResult _).giving _
  | print automaton => exact effect_of_reads ((reads_machine automaton).giving _)
  | accepts automaton word =>
      refine effect_of_reads ((reads_machine automaton).bind fun machine => ?_)
      exact (reads_ofResult _).giving _
  | same first second => exact effect_of_reads (reads_pure _)
  | list automaton listing => exact effect_of_reads ((reads_list automaton listing).giving _)
  | symbol value =>
      refine effect_of_reads ((reads_argument value).bind fun text => ?_)
      exact (reads_checkSymbol text).giving _
  | newCounter next =>
      exact .edits (.single (edit_counters (store.counters.add { next })))
  | count counter =>
      exact .edits (.single (edit_counters (store.counters.change counter _)))
  | newCompiler pattern =>
      exact .edits (.single (edit_newCompiler pattern))
  | peek compiler => exact effect_of_reads ((reads_peek compiler).giving _)
  | next compiler => exact effect_of_leads ((leads_next store compiler).giving _)
  | more compiler =>
      exact effect_of_reads (((reads_ahead compiler).giving (!·.isEmpty)).giving _)
  | expect compiler text => exact effect_of_leads ((leads_expect store compiler text).giving _)
  | complain compiler words => exact effect_of_reads (reads_complain compiler _)
  | seek compiler position =>
      exact effect_of_leads ((leads_seek store compiler position).giving _)
  | parse compiler rule =>
      exact effect_of_leads ((leads_parse store compiler closed rule).giving _)
  | compile compiler => exact effect_of_leads ((leads_compile store compiler closed).giving _)
  | literal compiler symbol =>
      refine effect_of_leads (.of_argument fun text => ?_)
      exact (leads_literal store compiler text).giving _
  | alternative compiler first second =>
      exact effect_of_leads ((leads_alternative store compiler closed first second).giving _)
  | concatenation first second =>
      exact effect_of_leads ((leads_concatenation store closed first second).giving _)
  | repetition automaton => exact effect_of_leads ((leads_repetition store automaton).giving _)

theorem effect_perform (orderly : store.Orderly)
    (held : ∀ ref ∈ command.adoptees, ref ∈ store.states) :
    store.Effect command (store.perform command).2 :=
  effect_of_closed orderly.closed held

end Store

end PatternAutomata
