import PatternAutomata.Proofs.Store.Asking
import PatternAutomata.Proofs.Store.Descent

/-! # Loops without a bound

A loop is carried out for as long as its test holds. What it comes to is told turn by turn
(`Action.Loops`), so a loop that goes on for ever comes to nothing, and one that ends comes to
one outcome (`Action.Loops.unique`).

The stars behind a base and the factors of a term are taken in a number of steps that is given
beforehand (`Descent.stars`, `Descent.factors`). With as many steps as characters lie ahead this
is what the loop without a bound comes to, because every turn takes a character
(`Descent.loops_stars_iff`, `Descent.loops_factors_iff`).
-/

namespace PatternAutomata

namespace Action

variable {σ : Type}

/-- What a loop comes to, from a value and a store: each turn makes a new value of the last
one, and the loop ends with the value that it has when the test fails to hold. -/
inductive Loops (test : Action Bool) (body : σ → Action σ) :
    σ → Store → EStateM.Result Fault Store σ → Prop
  | ends {value : σ} {store after : Store} :
      test.run store = .ok false after → Loops test body value store (.ok value after)
  | testFails {value : σ} {store after : Store} {fault : Fault} :
      test.run store = .error fault after → Loops test body value store (.error fault after)
  | bodyFails {value : σ} {store middle after : Store} {fault : Fault} :
      test.run store = .ok true middle → (body value).run middle = .error fault after →
        Loops test body value store (.error fault after)
  | goesOn {value next : σ} {store middle after : Store}
      {outcome : EStateM.Result Fault Store σ} :
      test.run store = .ok true middle → (body value).run middle = .ok next after →
        Loops test body next after outcome → Loops test body value store outcome

/-- The same loop with a bound on its turns; behind the last one the test is not made. -/
def turns (test : Action Bool) (body : σ → Action σ) : (bound : Nat) → σ → Action σ
  | 0, value => return value
  | bound + 1, value => do
      if ← test then turns test body bound (← body value) else return value

section Looping

variable {test : Action Bool} {body : σ → Action σ} {value : σ} {store : Store}
  {outcome other : EStateM.Result Fault Store σ}

/-- A loop comes to one outcome. -/
theorem Loops.unique (loops : Loops test body value store outcome)
    (also : Loops test body value store other) : outcome = other := by
  induction loops with
  | ends tested =>
      cases also with
      | ends again => cases tested.symm.trans again; rfl
      | testFails again | bodyFails again _ | goesOn again _ _ => cases tested.symm.trans again
  | testFails tested =>
      cases also with
      | testFails again => cases tested.symm.trans again; rfl
      | ends again | bodyFails again _ | goesOn again _ _ => cases tested.symm.trans again
  | bodyFails tested ran =>
      cases also with
      | ends again | testFails again => cases tested.symm.trans again
      | bodyFails again ranAgain =>
          cases tested.symm.trans again
          cases ran.symm.trans ranAgain
          rfl
      | goesOn again ranAgain _ =>
          cases tested.symm.trans again
          cases ran.symm.trans ranAgain
  | goesOn tested ran _ ih =>
      cases also with
      | ends again | testFails again => cases tested.symm.trans again
      | bodyFails again ranAgain =>
          cases tested.symm.trans again
          cases ran.symm.trans ranAgain
      | goesOn again ranAgain rest =>
          cases tested.symm.trans again
          cases ran.symm.trans ranAgain
          exact ih rest

end Looping

/-- A loop that takes characters: its test changes nothing and does not hold at the end, and
every turn that succeeds leaves fewer characters ahead. -/
structure Consumes (compiler : CompilerRef) (test : Action Bool) (body : σ → Action σ) :
    Prop where
  tests : ∀ store, ∃ holds, test.run store = .ok holds store ∧
    ((store.compilers.get compiler).ahead = [] → holds = false)
  shortens : ∀ ⦃store after : Store⦄ ⦃value next : σ⦄, compiler ∈ store.compilers →
    test.run store = .ok true store → (body value).run store = .ok next after →
      compiler ∈ after.compilers ∧
        (after.compilers.get compiler).ahead.length < (store.compilers.get compiler).ahead.length

namespace Consumes

variable {compiler : CompilerRef} {test : Action Bool} {body : σ → Action σ} {store : Store}

/-- With as many turns as characters lie ahead, a loop that takes characters ends by itself. -/
theorem loops_turns (consumes : Consumes compiler test body) (held : compiler ∈ store.compilers)
    {bound : Nat} (enough : (store.compilers.get compiler).ahead.length ≤ bound) (value : σ) :
    Loops test body value store ((turns test body bound value).run store) := by
  induction bound generalizing store value with
  | zero =>
      obtain ⟨holds, tested, atEnd⟩ := consumes.tests store
      cases atEnd (List.eq_nil_of_length_eq_zero (Nat.le_zero.mp enough))
      exact .ends tested
  | succ bound ih =>
      obtain ⟨holds, tested, _⟩ := consumes.tests store
      rw [turns, run_bind_of_ok tested]
      cases holds with
      | false => exact .ends tested
      | true =>
          simp only [if_true]
          cases ran : (body value).run store with
          | error fault after =>
              rw [run_bind_of_error ran]
              exact .bodyFails tested ran
          | ok next after =>
              obtain ⟨heldAfter, shorter⟩ := consumes.shortens held tested ran
              rw [run_bind_of_ok ran]
              exact .goesOn tested ran (ih heldAfter (by omega) next)

/-- What a loop that takes characters comes to without a bound. -/
theorem loops_iff (consumes : Consumes compiler test body) (held : compiler ∈ store.compilers)
    (value : σ) (outcome : EStateM.Result Fault Store σ) :
    Loops test body value store outcome ↔
      outcome = (turns test body (store.compilers.get compiler).ahead.length value).run store := by
  have ended := consumes.loops_turns held (Nat.le_refl _) value
  constructor
  · exact fun loops => loops.unique ended
  · rintro rfl
    exact ended

end Consumes

section Leaving

variable {α β : Type}

/-- An action that leaves the compilers as they are, whether it fails or not. -/
def LeavesCompilers (action : Action α) : Prop :=
  ∀ store, (ending action store).compilers = store.compilers

theorem Reads.leavesCompilers {action : Action α} (reads : Reads action) :
    LeavesCompilers action :=
  fun store => congrArg Store.compilers (reads store)

theorem LeavesCompilers.bind {action : Action α} {next : α → Action β}
    (leaves : LeavesCompilers action) (later : ∀ value, LeavesCompilers (next value)) :
    LeavesCompilers (action >>= next) := by
  intro store
  have first := leaves store
  cases ran : action.run store with
  | ok value middle =>
      rw [ending_of_ok ran] at first
      rw [ending_bind_of_ok ran, later value middle, first]
  | error fault middle =>
      rw [ending_of_error ran] at first
      rw [ending_bind_of_error ran, first]

theorem LeavesCompilers.forM {body : α → Action Unit}
    (leaves : ∀ item, LeavesCompilers (body item)) (items : List α) :
    LeavesCompilers (items.forM body) := by
  induction items with
  | nil => exact (reads_pure ()).leavesCompilers
  | cons item items ih => exact (leaves item).bind fun _ => ih

theorem leavesCompilers_connect (symbol : String) (state target : StateRef) :
    LeavesCompilers (connect symbol state target) := by
  refine (reads_state target).leavesCompilers.bind fun content => ?_
  exact (reads_checkSymbol symbol).leavesCompilers.bind fun _ store => rfl

theorem leavesCompilers_demote (automaton : AutomatonRef) (state : StateRef) :
    LeavesCompilers (demote automaton state) :=
  (reads_state state).leavesCompilers.bind fun _ _ => rfl

theorem leavesCompilers_adopt (automaton : AutomatonRef) (states : List StateRef) :
    LeavesCompilers (adopt automaton states) := by
  refine LeavesCompilers.forM (fun ref => ?_) states
  refine (reads_state ref).leavesCompilers.bind fun state => ?_
  refine (reads_automaton automaton).leavesCompilers.bind fun content => ?_
  split
  · exact (reads_throw _).leavesCompilers
  · exact fun store => rfl

theorem leavesCompilers_repetition (automaton : AutomatonRef) :
    LeavesCompilers (repetition automaton) := by
  refine (reads_startOf automaton).leavesCompilers.bind fun start => ?_
  refine (reads_acceptingIn automaton).leavesCompilers.bind fun states => ?_
  refine (LeavesCompilers.forM (fun state => ?_) states).bind fun _ =>
    (reads_pure automaton).leavesCompilers
  exact (leavesCompilers_connect epsilon start state).bind fun _ =>
    leavesCompilers_connect epsilon state start

theorem leavesCompilers_append (first second : AutomatonRef) :
    LeavesCompilers (append first second) := by
  refine (reads_startOf second).leavesCompilers.bind fun entry => ?_
  refine (reads_acceptingIn first).leavesCompilers.bind fun states => ?_
  refine (LeavesCompilers.forM (fun state => ?_) states).bind fun _ => ?_
  · exact (leavesCompilers_demote first state).bind fun _ =>
      leavesCompilers_connect epsilon state entry
  · exact (reads_ownedBy second).leavesCompilers.bind fun owned =>
      leavesCompilers_adopt first owned

theorem leavesCompilers_concatenation (first : Option AutomatonRef) (second : AutomatonRef) :
    LeavesCompilers (concatenation first second) := by
  cases first with
  | none => exact (reads_pure second).leavesCompilers
  | some first =>
      exact (leavesCompilers_append first second).bind fun _ =>
        (reads_pure first).leavesCompilers

end Leaving

end Action

namespace Descent

open PatternAutomata.Action

variable {compiler : CompilerRef} {store : Store}

/-- One turn of the loop over the stars behind an automaton. -/
def takeStar (compiler : CompilerRef) (automaton : AutomatonRef) : Action AutomatonRef := do
  expect compiler "*"
  repetition automaton

/-- One turn of the loop over the factors of a term. -/
def takeFactor (compiler : CompilerRef) (inside : Action AutomatonRef)
    (before : Option AutomatonRef) : Action (Option AutomatonRef) := do
  let automaton ← factor compiler inside
  return some (← concatenation before automaton)

theorem stars_eq_turns (compiler : CompilerRef) (steps : Nat) (automaton : AutomatonRef) :
    stars compiler steps automaton =
      turns (sees compiler '*') (takeStar compiler) steps automaton := by
  induction steps generalizing automaton with
  | zero => rfl
  | succ steps ih => simp only [stars, turns, takeStar, ih, bind_assoc]

theorem factors_eq_turns (compiler : CompilerRef) (inside : Action AutomatonRef) (steps : Nat)
    (before : Option AutomatonRef) :
    factors compiler inside steps before =
      turns (goesOn compiler) (takeFactor compiler inside) steps before := by
  induction steps generalizing before with
  | zero => rfl
  | succ steps ih => simp only [factors, turns, takeFactor, ih, bind_assoc, pure_bind]

/-- Every turn over the stars takes a star. -/
theorem consumes_takeStar (compiler : CompilerRef) :
    Consumes compiler (sees compiler '*') (takeStar compiler) where
  tests store := by
    refine ⟨_, run_sees rfl '*', fun ended => ?_⟩
    rw [ended]
    rfl
  shortens store after value next held tested ran := by
    rw [run_sees rfl '*'] at tested
    have star : (store.compilers.get compiler).ahead.head? = some '*' := by
      injection tested with holds
      exact of_decide_eq_true holds
    obtain ⟨rest, lies⟩ := List.head?_eq_some_iff.mp star
    have moved : compiler ∈ (store.move compiler 1).compilers := Heap.mem_change.mpr held
    have expected : (expect compiler "*").run store = .ok () (store.move compiler 1) :=
      run_expect lies rfl
    rw [takeStar, run_bind_of_ok expected] at ran
    have same := leavesCompilers_repetition value (store.move compiler 1)
    rw [ending_of_ok ran] at same
    rw [same, ahead_move held lies, lies]
    exact ⟨moved, Nat.lt_succ_self _⟩

/-- Every turn over the factors takes a factor, which has characters. -/
theorem consumes_takeFactor {inside : Action AutomatonRef} {reader : Reader}
    (follows : Follows compiler inside reader) (faithful : Reader.Faithful reader) :
    Consumes compiler (goesOn compiler) (takeFactor compiler inside) where
  tests store := by
    refine ⟨_, run_goesOn rfl, fun ended => ?_⟩
    rw [ended]
    rfl
  shortens store after value next held _ ran := by
    have came := follows_factor follows faithful held
    cases read : Reader.factor reader (store.compilers.get compiler).ahead with
    | error failure =>
        rw [read] at came
        obtain ⟨later, failed, _⟩ := came.stopped
        rw [takeFactor, run_bind_of_error failed] at ran
        cases ran
    | ok taking =>
        obtain ⟨tree, rest⟩ := taking
        rw [read] at came
        obtain ⟨automaton, middle, taken⟩ := exists_taken held tree
        have left := taken.ahead held (Reader.faithful_factor faithful read)
        rw [takeFactor, run_bind_of_ok (came.trans taken.ran)] at ran
        have same : after.compilers = middle.compilers := by
          rw [← ending_of_ok ran]
          exact (leavesCompilers_concatenation value automaton).bind
            (fun _ => (reads_pure _).leavesCompilers) middle
        rw [same, left]
        exact ⟨taken.held held,
          Reader.length_lt_of_read (Reader.faithful_factor faithful) read⟩

/-- **The loop over stars ends**, whatever automaton they stand behind. -/
theorem loops_stars_iff (held : compiler ∈ store.compilers) (automaton : AutomatonRef)
    (outcome : EStateM.Result Fault Store AutomatonRef) :
    Loops (sees compiler '*') (takeStar compiler) automaton store outcome ↔
      outcome = (stars compiler (store.compilers.get compiler).ahead.length automaton).run
        store := by
  rw [stars_eq_turns]
  exact (consumes_takeStar compiler).loops_iff held automaton outcome

/-- **The loop over factors ends**, whatever they stand behind. -/
theorem loops_factors_iff {inside : Action AutomatonRef} {reader : Reader}
    (follows : Follows compiler inside reader) (faithful : Reader.Faithful reader)
    (held : compiler ∈ store.compilers) (before : Option AutomatonRef)
    (outcome : EStateM.Result Fault Store (Option AutomatonRef)) :
    Loops (goesOn compiler) (takeFactor compiler inside) before store outcome ↔
      outcome = (factors compiler inside (store.compilers.get compiler).ahead.length before).run
        store := by
  rw [factors_eq_turns]
  exact (consumes_takeFactor follows faithful).loops_iff held before outcome

end Descent

end PatternAutomata
