import PatternAutomata.Proofs.Store.Performing
import PatternAutomata.Proofs.Store.Stopping

/-! # What a failed command leaves

A command that checks what it is given before it changes anything leaves the store as it is when it
fails (`Action.Atomic`, `Command.atomic_perform`). The commands that work through a list stop at the
first item that offends, and leave what they make of the items before it (`Store.WorksThrough`,
`Store.faults_leave`).
-/

namespace PatternAutomata

namespace Action

variable {α β : Type}

/-- An action that changes nothing when it fails. -/
def Atomic (action : Action α) : Prop :=
  ∀ store fault after, action.run store = .error fault after → after = store

/-- An action that never fails. -/
def Succeeds (action : Action α) : Prop :=
  ∀ store, ∃ value after, action.run store = .ok value after

section Composing

variable {action : Action α} {next : α → Action β}

theorem succeeds_pure (value : α) : Succeeds (pure value : Action α) :=
  fun store => ⟨value, store, rfl⟩

theorem succeeds_modify (update : Store → Store) : Succeeds (modify update) :=
  fun store => ⟨(), update store, rfl⟩

theorem succeeds_modifyGet (update : Store → α × Store) : Succeeds (modifyGet update : Action α) :=
  fun store => ⟨(update store).1, (update store).2, rfl⟩

theorem Succeeds.bind (succeeds : Succeeds action) (later : ∀ value, Succeeds (next value)) :
    Succeeds (action >>= next) := by
  intro store
  obtain ⟨value, middle, ran⟩ := succeeds store
  rw [run_bind_of_ok ran]
  exact later value middle

theorem Succeeds.forM {body : α → Action Unit} (succeeds : ∀ item, Succeeds (body item))
    (items : List α) : Succeeds (items.forM body) := by
  induction items with
  | nil => exact succeeds_pure ()
  | cons item items ih => exact (succeeds item).bind fun _ => ih

theorem Succeeds.atomic (succeeds : Succeeds action) : Atomic action := by
  intro store fault after failed
  obtain ⟨value, middle, ran⟩ := succeeds store
  cases failed.symm.trans ran

theorem Reads.atomic (reads : Reads action) : Atomic action :=
  fun store _ _ failed => (ending_of_error failed).symm.trans (reads store)

/-- Asking first leaves it to what follows whether a fault leaves a change. -/
theorem Reads.atomic_bind (reads : Reads action) (later : ∀ value, Atomic (next value)) :
    Atomic (action >>= next) := by
  intro store fault after failed
  have same := reads store
  cases ran : action.run store with
  | ok value middle =>
      rw [ending_of_ok ran] at same
      rw [run_bind_of_ok ran, same] at failed
      exact later value store fault after failed
  | error other middle =>
      rw [ending_of_error ran] at same
      rw [run_bind_of_error ran, same] at failed
      cases failed
      rfl

/-- What cannot fail may follow anything. -/
theorem Atomic.bind (atomic : Atomic action) (later : ∀ value, Succeeds (next value)) :
    Atomic (action >>= next) := by
  intro store fault after failed
  cases ran : action.run store with
  | ok value middle =>
      obtain ⟨answer, last, went⟩ := later value middle
      rw [run_bind_of_ok ran, went] at failed
      cases failed
  | error other middle =>
      rw [run_bind_of_error ran] at failed
      cases failed
      exact atomic store fault after ran

theorem Atomic.giving (atomic : Atomic action) (outcome : α → β) :
    Atomic (do return outcome (← action)) :=
  atomic.bind fun _ => succeeds_pure _

end Composing

section Checking

theorem atomic_connectToName (state : StateRef) (symbol target : String) :
    Atomic (connectToName state symbol target) :=
  (reads_checkSymbol symbol).atomic_bind fun _ => (succeeds_modify _).atomic

theorem atomic_connect (symbol : String) (state target : StateRef) :
    Atomic (connect symbol state target) :=
  (reads_state target).atomic_bind fun content => atomic_connectToName state symbol content.name

theorem succeeds_connect_epsilon (state target : StateRef) :
    Succeeds (connect epsilon state target) := by
  intro store
  rw [run_connect, run_connectToName, if_pos isSymbol_epsilon]
  exact ⟨_, _, rfl⟩

theorem atomic_addLetter (automaton : AutomatonRef) (symbol : String) :
    Atomic (addLetter automaton symbol) :=
  (reads_checkLetter symbol).atomic_bind fun _ => (succeeds_modify _).atomic

theorem atomic_claim (automaton : AutomatonRef) (ref : StateRef) :
    Atomic (claim automaton ref) := by
  refine (reads_state ref).atomic_bind fun state => ?_
  refine (reads_automaton automaton).atomic_bind fun content => ?_
  split
  · exact (reads_throw _).atomic
  · exact (succeeds_modify _).atomic

theorem atomic_addState (automaton : AutomatonRef) (state : State) :
    Atomic (addState automaton state) := by
  refine (reads_automaton automaton).atomic_bind fun content => ?_
  split
  · exact (reads_throw _).atomic
  · refine ((succeeds_modifyGet _).bind fun ref => ?_).atomic
    exact (succeeds_modify _).bind fun _ => succeeds_pure ref

theorem atomic_addStart (automaton : AutomatonRef) (name : String) :
    Atomic (addStart automaton name) :=
  (atomic_addState automaton _).bind fun ref =>
    (succeeds_modify _).bind fun _ => succeeds_pure ref

theorem atomic_repetition (automaton : AutomatonRef) : Atomic (repetition automaton) := by
  refine (reads_startOf automaton).atomic_bind fun start => ?_
  refine (reads_acceptingIn automaton).atomic_bind fun states => Succeeds.atomic ?_
  refine (Succeeds.forM (fun state => ?_) states).bind fun _ => succeeds_pure automaton
  exact (succeeds_connect_epsilon start state).bind fun _ => succeeds_connect_epsilon state start

theorem atomic_makeState (name : Option Argument) (accepting : Bool)
    (transitions : List (Argument × List Argument)) :
    Atomic (makeState name accepting transitions) := by
  cases name with
  | none => exact (reads_throw _).atomic
  | some name =>
      refine (reads_argument name).atomic_bind fun text => ?_
      refine (reads_readTransitions transitions).atomic_bind fun table => ?_
      exact (succeeds_modifyGet _).atomic

theorem atomic_makeAutomaton (start : Option Argument) (alphabet : List Argument) :
    Atomic (makeAutomaton start alphabet) := by
  have later (name : Option String) : Atomic (do
      let alphabet ← alphabet.mapM Argument.read
      newAutomaton { start := name, alphabet := StringSet.ofList alphabet }) :=
    (Reads.mapM reads_argument alphabet).atomic_bind fun letters => (succeeds_modifyGet _).atomic
  cases start with
  | none => exact later none
  | some argument => exact (reads_start argument).atomic_bind later

theorem atomic_expect (compiler : CompilerRef) (text : String) : Atomic (expect compiler text) := by
  refine (reads_ahead compiler).atomic_bind fun characters => ?_
  split
  · exact (reads_complain compiler _).atomic
  · split
    · exact (succeeds_modify _).atomic
    · exact (reads_complain compiler _).atomic

theorem atomic_next (compiler : CompilerRef) : Atomic (next compiler) :=
  (reads_peek compiler).atomic_bind fun _ => (atomic_expect compiler _).giving _

end Checking

end Action

/-- Whether a command does several things that can fail, so that some of them may be done when it
does. -/
def Command.gradual : Command → Bool
  | adopt _ _ | adoptFrom _ _ | addLetters _ _ | parse _ _ | compile _ | literal _ _
  | alternative _ _ _ | concatenation _ _ => true
  | _ => false

open PatternAutomata.Action in
/-- A command that is not gradual checks before it changes anything. -/
theorem Command.atomic_perform {command : Command} (whole : command.gradual = false) :
    Action.Atomic (Action.perform command) := by
  cases command with
  | newAutomaton start alphabet => exact (atomic_makeAutomaton start alphabet).giving _
  | newState name accepting transitions =>
      exact (atomic_makeState name accepting transitions).giving _
  | addStart automaton name =>
      exact (reads_argument name).atomic_bind fun text => (atomic_addStart automaton text).giving _
  | addAccepting automaton name =>
      exact (reads_argument name).atomic_bind fun text => (atomic_addState automaton _).giving _
  | connect symbol state target =>
      refine (reads_argument symbol).atomic_bind fun text => ?_
      exact (atomic_connect text state target).giving _
  | connectToName state symbol target =>
      refine (reads_argument symbol).atomic_bind fun text => ?_
      exact (atomic_connectToName state text target).giving _
  | clear state => exact (succeeds_modify _).atomic.giving _
  | targets state symbol => exact ((reads_state state).giving _).atomic
  | demote automaton state =>
      refine ((reads_state state).atomic_bind fun content => Succeeds.atomic ?_).giving _
      exact (succeeds_modify _).bind fun _ => succeeds_modify _
  | startOf automaton => exact ((reads_startOf automaton).giving _).atomic
  | stateNamed automaton name => exact ((reads_stateNamed automaton name).giving _).atomic
  | acceptingIn automaton =>
      refine ((reads_acceptingIn automaton).bind fun states => ?_).atomic
      exact (Reads.mapM reads_state states).giving _
  | moves automaton state symbol =>
      refine ((reads_machine automaton).bind fun machine => ?_).atomic
      exact (reads_state state).bind fun content => (reads_ofResult _).giving _
  | closure automaton state =>
      refine ((reads_machine automaton).bind fun machine => ?_).atomic
      exact (reads_state state).bind fun content => (reads_ofResult _).giving _
  | print automaton => exact ((reads_machine automaton).giving _).atomic
  | accepts automaton word =>
      refine ((reads_machine automaton).bind fun machine => ?_).atomic
      exact (reads_ofResult _).giving _
  | same first second => exact (succeeds_pure _).atomic
  | list automaton listing => exact ((reads_list automaton listing).giving _).atomic
  | symbol value =>
      refine ((reads_argument value).bind fun text => ?_).atomic
      exact (reads_checkSymbol text).giving _
  | newCounter next => exact (succeeds_modifyGet _).atomic.giving _
  | count counter => exact (succeeds_modifyGet _).atomic.giving _
  | newCompiler pattern => exact (succeeds_modifyGet _).atomic.giving _
  | peek compiler => exact ((reads_peek compiler).giving _).atomic
  | next compiler => exact (atomic_next compiler).giving _
  | more compiler => exact (((reads_ahead compiler).giving (!·.isEmpty)).giving _).atomic
  | expect compiler text => exact (atomic_expect compiler text).giving _
  | complain compiler words => exact (reads_complain compiler _).atomic
  | seek compiler position => exact (succeeds_modify _).atomic.giving _
  | repetition automaton => exact (atomic_repetition automaton).giving _
  | adopt _ _ => cases whole
  | adoptFrom _ _ => cases whole
  | addLetters _ _ => cases whole
  | parse _ _ => cases whole
  | compile _ => cases whole
  | literal _ _ => cases whole
  | alternative _ _ _ => cases whole
  | concatenation _ _ => cases whole

namespace Store

/-- A command works through lists if it fails exactly where some item offends behind those before
it, and then has done what it does for the items before the first such one, which fails by itself
there in the same way. -/
def WorksThrough {α : Type} (store : Store) (command : List α → Command)
    (offends : List α → α → Prop) : Prop :=
  ∀ items,
    ((∃ fault after, store.perform (command items) = (.error fault, after)) ↔
      ∃ earlier item later, items = earlier ++ item :: later ∧ offends earlier item) ∧
    ∀ fault after, store.perform (command items) = (.error fault, after) →
      ∃ earlier item later, items = earlier ++ item :: later ∧ offends earlier item ∧
        store.perform (command earlier) = (.ok .done, after) ∧
        after.perform (command [item]) = (.error fault, after)

variable {store after : Store} {command : Command} {automaton : AutomatonRef}

theorem atomic_perform (whole : command.gradual = false) {fault : Fault}
    (failed : store.perform command = (.error fault, after)) : after = store := by
  have atomic := Command.atomic_perform whole store
  unfold perform at failed
  cases ran : (Action.perform command).run store with
  | ok outcome middle =>
      rw [ran] at failed
      cases failed
  | error other middle =>
      rw [ran] at failed
      cases failed
      exact atomic fault after ran

section Giving

variable {α : Type} {action : Action α} {fault : Fault}

/-- A command that gives what an action returns fails as the action does. -/
theorem perform_eq_error_iff (outcome : α → Outcome)
    (gives : Action.perform command = (do return outcome (← action))) :
    store.perform command = (.error fault, after) ↔ action.run store = .error fault after := by
  rw [← Action.run_return_eq_error_iff outcome, ← gives, perform]
  cases (Action.perform command).run store with
  | ok value middle => simp only [Prod.mk.injEq, reduceCtorEq, false_and]
  | error other middle =>
      simp only [Prod.mk.injEq, Except.error.injEq, EStateM.Result.error.injEq]

theorem perform_eq_done_iff {action : Action Unit}
    (does : Action.perform command = (do action; return .done)) :
    store.perform command = (.ok .done, after) ↔ action.run store = .ok () after := by
  rw [perform, does]
  cases ran : action.run store with
  | ok _ middle =>
      rw [Action.run_bind_of_ok ran]
      simp only [EStateM.run_pure, Prod.mk.injEq, EStateM.Result.ok.injEq, true_and]
  | error other middle =>
      rw [Action.run_bind_of_error ran]
      simp only [Prod.mk.injEq, reduceCtorEq, false_and]

end Giving

/-- A loop works through its list if its body changes nothing where it fails. -/
theorem worksThrough_of_forM {α : Type} (body : α → Action Unit) {command : List α → Command}
    {offends : List α → α → Prop}
    (does : ∀ items, Action.perform (command items) = (do items.forM body; return .done))
    (atomic : ∀ item, Action.Atomic (body item))
    (fails : ∀ items, (∃ fault after, (items.forM body).run store = .error fault after) ↔
      ∃ earlier item later, items = earlier ++ item :: later ∧ offends earlier item) :
    store.WorksThrough command offends := by
  intro items
  simp only [perform_eq_error_iff (fun _ => .done) (does _), perform_eq_done_iff (does _)]
  refine ⟨fails items, fun fault after failed => ?_⟩
  obtain ⟨earlier, item, later, middle, rfl, went, stopped⟩ :=
    Action.run_forM_eq_error_iff.mp failed
  obtain rfl := atomic item middle fault after stopped
  refine ⟨earlier, item, later, rfl, ?_, went, Action.run_forM_cons_error stopped⟩
  -- the items up to this one fail by themselves, and those before it do not
  obtain ⟨first, culprit, second, split, offending⟩ := (fails (earlier ++ [item])).mp
    ⟨fault, after, Action.run_forM_eq_error_iff.mpr
      ⟨earlier, item, [], after, rfl, went, stopped⟩⟩
  rcases List.eq_nil_or_concat second with rfl | ⟨second, last, rfl⟩
  · obtain ⟨rfl, rfl⟩ := List.append_singleton_inj.mp split
    exact offending
  · rw [List.concat_eq_append, ← List.cons_append, ← List.append_assoc] at split
    obtain ⟨rfl, rfl⟩ := List.append_singleton_inj.mp split
    obtain ⟨_, _, before⟩ := (fails _).mpr ⟨first, culprit, second, rfl, offending⟩
    cases before.symm.trans went

theorem worksThrough_adopt (held : automaton ∈ store.automata) :
    store.WorksThrough (.adopt automaton) (store.ClashesBehind automaton) :=
  worksThrough_of_forM (Action.claim automaton) (fun _ => rfl) (Action.atomic_claim automaton)
    fun _ => Action.adopt_fails_iff held

/-- An argument is refused as a letter unless it is a text of one character. -/
theorem letter_fails_iff (store : Store) (automaton : AutomatonRef) (symbol : Argument) :
    (∃ fault after, (do Action.addLetter automaton (← symbol.read) : Action Unit).run store =
        .error fault after) ↔
      ∀ character, symbol ≠ .text (String.singleton character) := by
  cases symbol with
  | other => exact ⟨fun _ _ => nofun, fun _ => ⟨.notText, store, rfl⟩⟩
  | text content =>
      change (∃ fault after,
        (Action.addLetter automaton content).run store = .error fault after) ↔ _
      rw [Action.run_addLetter]
      constructor
      · rintro ⟨fault, after, failed⟩ character same
        obtain rfl := Argument.text.inj same
        rw [if_neg (singleton_ne_epsilon character),
          if_pos (isSymbol_singleton character)] at failed
        cases failed
      · intro several
        by_cases silent : content = epsilon
        · rw [if_pos silent]
          exact ⟨_, _, rfl⟩
        · by_cases proper : IsSymbol content
          · obtain ⟨character, rfl⟩ := exists_singleton_of_isSymbol proper silent
            exact absurd rfl (several character)
          · rw [if_neg silent, if_neg proper]
            exact ⟨_, _, rfl⟩

theorem worksThrough_addLetters (store : Store) (automaton : AutomatonRef) :
    store.WorksThrough (.addLetters automaton)
      fun _ symbol => ∀ character, symbol ≠ .text (String.singleton character) := by
  refine worksThrough_of_forM (fun symbol => do Action.addLetter automaton (← symbol.read))
    (fun _ => rfl) (fun symbol => ?_) fun symbols => ?_
  · exact (Action.reads_argument symbol).atomic_bind fun text =>
      Action.atomic_addLetter automaton text
  · exact Action.forM_fails_iff fun {_ symbol middle} _ => letter_fails_iff middle automaton symbol

/-- **What a failed command leaves.** A command that does one thing leaves the store as it is when
it fails; printing never fails, whatever the printout says. Adopting states fails exactly where a
state has the name of another one that is owned or listed before it, adding letters exactly where
one is not a text of one character, and each leaves then what it makes of the items before the
first of these. -/
theorem faults_leave (store : Store) :
    (∀ command fault after, command.gradual = false →
        store.perform command = (.error fault, after) → after = store) ∧
      (∀ automaton, ∃ printout,
        store.perform (.print automaton) = (.ok (.printout printout), store)) ∧
      (∀ automaton ∈ store.automata,
        store.WorksThrough (.adopt automaton) (store.ClashesBehind automaton) ∧
          ∀ states fault after, store.perform (.adopt automaton states) = (.error fault, after) →
            ∃ state ∈ states, fault = .duplicateState (store.states.get state).name) ∧
      (∀ automaton source, store.perform (.adoptFrom automaton source) =
        store.perform (.adopt automaton (store.automata.get source).owned.values)) ∧
      ∀ automaton, store.WorksThrough (.addLetters automaton)
        fun _ symbol => ∀ character, symbol ≠ .text (String.singleton character) := by
  refine ⟨fun command fault after whole failed => atomic_perform whole failed,
    fun automaton => ⟨_, rfl⟩,
    fun automaton held => ⟨worksThrough_adopt held, fun states fault after failed => ?_⟩,
    fun automaton source => rfl, store.worksThrough_addLetters⟩
  obtain ⟨earlier, state, later, rfl, _, _, rfl⟩ := (Action.run_adopt_eq_error_iff held).mp
    ((perform_eq_error_iff (fun _ => .done) rfl).mp failed)
  exact ⟨state, List.mem_append_cons_self, rfl⟩

/-- A state refused for its name, states one of which clashes with one listed before it, and texts
one of which is not a character. -/
theorem faults_leave_three :
    let commands : List Command :=
      [.newAutomaton none [], .addStart ⟨0⟩ (.text "p"), .newState (some (.text "q")) true [],
        .newState (some (.text "q")) false [], .newState (some (.text "r")) false []]
    let states : List StateRef := [⟨1⟩, ⟨2⟩, ⟨3⟩]
    let symbols : List Argument := [.text "a", .text "bc", .text "d"]
    let store := run {} commands
    (store.perform (.addStart ⟨0⟩ (.text "p"))).2 = store ∧
      (∃ earlier state later after, states = earlier ++ state :: later ∧
        store.perform (.adopt ⟨0⟩ states) = (.error (.duplicateState "q"), after) ∧
        store.perform (.adopt ⟨0⟩ earlier) = (.ok .done, after)) ∧
      ∃ earlier symbol later after, symbols = earlier ++ symbol :: later ∧
        store.perform (.addLetters ⟨0⟩ symbols) = (.error (.badSymbol "bc"), after) ∧
        store.perform (.addLetters ⟨0⟩ earlier) = (.ok .done, after) := by
  intro commands states symbols store
  obtain ⟨whole, _, adopting, _, letters⟩ := faults_leave store
  refine ⟨whole (.addStart ⟨0⟩ (.text "p")) (.duplicateState "p") _ rfl rfl, ?_, ?_⟩
  · obtain ⟨earlier, state, later, split, _, done, _⟩ :=
      ((adopting ⟨0⟩ (by decide)).1 states).2 (.duplicateState "q") _ rfl
    exact ⟨earlier, state, later, _, split, rfl, done⟩
  · obtain ⟨earlier, symbol, later, split, _, done, _⟩ :=
      (letters ⟨0⟩ symbols).2 (.badSymbol "bc") _ rfl
    exact ⟨earlier, symbol, later, _, split, rfl, done⟩

end Store

end PatternAutomata
