import PatternAutomata.Proofs.Pattern.Foresight
import PatternAutomata.Proofs.Store.Taking
import PatternAutomata.Store.Descent

/-! # Reading first makes no difference

Building while reading comes to the same as reading first and building after it. Where a
reading succeeds, both give the same automaton and leave the same store. Where it fails,
both fail with the same fault and leave the compiler alike; what was built by then differs,
but nothing refers to it.
-/

namespace PatternAutomata.Descent

open PatternAutomata.Action

variable {store middle : Store} {compiler : CompilerRef} {automaton : AutomatonRef}
  {tree before : Tree} {next : Char} {rest ahead : List Char} {failure : Failure}

/-- An outcome stops at a failure: the compiler is left at its place and the complaint is
made there, and nothing else that was there before has changed. -/
structure Stops {α : Type} (compiler : CompilerRef) (store : Store)
    (outcome : EStateM.Result Fault Store α) (failure : Failure) : Prop where
  within : failure.rest <:+ (store.compilers.get compiler).ahead
  stopped : ∃ after, outcome = .error (failure.complaint.fault
      (after.compilers.get compiler).cursor (after.compilers.get compiler).ahead) after ∧
    store.KeptIn after ∧ after.compilers = store.compilers.change compiler (·.leave failure)

namespace Stops

variable {α β : Type}

theorem bind {action : Action α} {further : α → Action β}
    (stops : Stops compiler store (action.run middle) failure) :
    Stops compiler store ((action >>= further).run middle) failure := by
  obtain ⟨after, ran, kept, left⟩ := stops.stopped
  exact ⟨stops.within, after, run_bind_of_error ran, kept, left⟩

/-- What stops once some characters are passed over stops at the same place. -/
theorem ofMove {outcome : EStateM.Result Fault Store α} {distance : Nat}
    (stops : Stops compiler (store.move compiler distance) outcome failure)
    (held : compiler ∈ store.compilers)
    (inside : distance ≤ (store.compilers.get compiler).ahead.length) :
    Stops compiler store outcome failure := by
  have content : (store.move compiler distance).compilers.get compiler =
      (store.compilers.get compiler).move distance := Heap.get_change_self held _
  obtain ⟨within, after, ran, kept, left⟩ := stops
  rw [content] at within
  refine ⟨?_, after, ran, ((Store.KeptIn.refl store).changeCompiler compiler _).trans kept, ?_⟩
  · rw [Compiler.ahead_move] at within
    exact within.trans (List.drop_suffix _ _)
  · rw [left, Store.move, Store.compilers_changeCompiler, Heap.change_change]
    exact Heap.change_congr (Compiler.leave_move inside within)

/-- What stops once a tree is taken stops behind it. -/
theorem behind {outcome : EStateM.Result Fault Store α}
    (stops : Stops compiler middle outcome failure)
    (taken : Taken store compiler tree automaton middle) (held : compiler ∈ store.compilers)
    (begins : (store.compilers.get compiler).ahead = tree.text ++ rest) :
    Stops compiler store outcome (failure.behind tree) := by
  have content := (get_spent held taken.compilers).2
  obtain ⟨within, after, ran, kept, left⟩ := stops
  rw [content] at within
  refine ⟨?_, after, ran, taken.kept.trans kept, ?_⟩
  · rw [Compiler.ahead_take] at within
    exact within.trans (List.drop_suffix _ _)
  · rw [left, taken.compilers, Heap.change_change]
    refine Heap.change_congr (Compiler.leave_take ?_ within)
    rw [begins, List.length_append]
    exact Nat.le_add_right _ _

/-- A complaint stops where it is made. -/
theorem complain (store : Store) (compiler : CompilerRef) (complaint : Complaint) :
    Stops compiler store ((complain compiler complaint : Action α).run store)
      { complaint, rest := (store.compilers.get compiler).ahead } := by
  have same : (store.compilers.get compiler).leave
      { complaint, rest := (store.compilers.get compiler).ahead } =
        store.compilers.get compiler := by
    simp only [Compiler.leave, Nat.sub_self, Nat.add_zero]
    rfl
  refine ⟨List.suffix_rfl, store, rfl, .refl store, ?_⟩
  rw [Heap.change_eq_self same]

end Stops

/-- An outcome is what a result of reading asks for. -/
def Comes (compiler : CompilerRef) (store : Store)
    (outcome : EStateM.Result Fault Store AutomatonRef) : Reader.Result → Prop
  | .ok (tree, _) => outcome = (take compiler tree).run store
  | .error failure => Stops compiler store outcome failure

/-- An action follows a reader when it takes what the reader reads, wherever the cursor
stands. -/
def Follows (compiler : CompilerRef) (action : Action AutomatonRef) (reader : Reader) : Prop :=
  ∀ ⦃store : Store⦄, compiler ∈ store.compilers →
    Comes compiler store (action.run store) (reader (store.compilers.get compiler).ahead)

section Looking

theorem ahead_move (held : compiler ∈ store.compilers)
    (lies : (store.compilers.get compiler).ahead = next :: rest) :
    ((store.move compiler 1).compilers.get compiler).ahead = rest := by
  rw [Store.move, Store.compilers_changeCompiler, Heap.get_change_self held, Compiler.ahead_move,
    lies]
  rfl

theorem run_ahead (store : Store) (compiler : CompilerRef) :
    (Action.ahead compiler).run store = .ok (store.compilers.get compiler).ahead store := rfl

theorem run_peek_nil (lies : (store.compilers.get compiler).ahead = []) :
    (peek compiler).run store =
      (complain compiler .noCharacterLeft : Action Char).run store := by
  rw [peek, run_bind_of_ok (run_ahead store compiler), lies]

theorem run_peek (lies : (store.compilers.get compiler).ahead = next :: rest) :
    (peek compiler).run store = .ok next store := by
  rw [peek, run_bind_of_ok (run_ahead store compiler), lies]
  rfl

theorem run_expect {text : String}
    (lies : (store.compilers.get compiler).ahead = next :: rest)
    (named : String.singleton next = text) :
    (expect compiler text).run store = .ok () (store.move compiler 1) := by
  rw [expect, run_bind_of_ok (run_ahead store compiler), lies]
  simp only [named, if_true]
  rfl

/-- A text that does not come next is complained about. -/
theorem run_expect_missing {text : String}
    (missing : ∀ next rest, (store.compilers.get compiler).ahead = next :: rest →
      String.singleton next ≠ text) :
    (expect compiler text).run store = (complain compiler (.expected text) : Action Unit).run store := by
  rw [expect, run_bind_of_ok (run_ahead store compiler)]
  cases lies : (store.compilers.get compiler).ahead with
  | nil => rfl
  | cons next rest =>
      simp only [missing next rest lies, if_false]

theorem run_single (lies : (store.compilers.get compiler).ahead = next :: rest) :
    (single compiler).run store = (take compiler (.literal next)).run store := by
  have taken : (Action.next compiler).run store = .ok next (store.move compiler 1) :=
    (run_bind_of_ok (run_peek lies)).trans (run_bind_of_ok (run_expect lies rfl))
  exact run_bind_of_ok taken

theorem run_more (lies : (store.compilers.get compiler).ahead = ahead) :
    (more compiler).run store = .ok (!ahead.isEmpty) store := by
  rw [more, run_bind_of_ok (run_ahead store compiler), lies]
  rfl

theorem run_sees (lies : (store.compilers.get compiler).ahead = ahead) (character : Char) :
    (sees compiler character).run store = .ok (ahead.head? = some character) store := by
  rw [sees, run_bind_of_ok (run_more lies)]
  cases ahead with
  | nil => rfl
  | cons next rest =>
      rw [List.isEmpty_cons, Bool.not_false, if_pos rfl, run_bind_of_ok (run_peek lies)]
      simp only [List.head?_cons, Option.some.injEq]
      rfl

theorem run_goesOn (lies : (store.compilers.get compiler).ahead = ahead) :
    (goesOn compiler).run store = .ok (!Reader.endsTerm ahead) store := by
  rw [goesOn, run_bind_of_ok (run_more lies)]
  cases ahead with
  | nil => rfl
  | cons next rest =>
      rw [List.isEmpty_cons, Bool.not_false, if_pos rfl, run_bind_of_ok (run_peek lies),
        run_bind_of_ok (run_peek lies)]
      simp only [Reader.endsTerm, Bool.not_or, ← decide_not, Bool.decide_and]
      rfl

end Looking

variable {inside further : Action AutomatonRef} {reader readFurther : Reader}

theorem stops_complain {α : Type} {complaint : Complaint}
    (lies : (store.compilers.get compiler).ahead = rest) :
    Stops compiler store ((complain compiler complaint : Action α).run store)
      { complaint, rest } :=
  lies ▸ .complain store compiler complaint

/-- What stops once a character is passed over stops at the same place. -/
theorem Stops.passed {α : Type} {outcome : EStateM.Result Fault Store α}
    (stops : Stops compiler (store.move compiler 1) outcome failure)
    (held : compiler ∈ store.compilers)
    (lies : (store.compilers.get compiler).ahead = next :: rest) :
    Stops compiler store outcome failure := by
  refine stops.ofMove held ?_
  rw [lies, List.length_cons]
  exact Nat.le_add_left 1 _

/-- What stands behind a backslash. -/
theorem comes_escape (held : compiler ∈ store.compilers)
    (lies : (store.compilers.get compiler).ahead = '\\' :: rest) :
    Comes compiler store
      ((do expect compiler "\\"; single compiler : Action AutomatonRef).run store)
      (Reader.base reader ('\\' :: rest)) := by
  have moved := ahead_move held lies
  have expected : (expect compiler "\\").run store = .ok () (store.move compiler 1) :=
    run_expect lies rfl
  rw [run_bind_of_ok expected]
  cases rest with
  | nil =>
      refine Stops.passed (Stops.bind (Stops.bind ?_)) held lies
      rw [run_peek_nil moved]
      exact stops_complain moved
  | cons next rest =>
      change (single compiler).run _ = (take compiler (.escaped next)).run store
      rw [run_single moved, run_take, Store.move_move]
      rfl

/-- What stands in parentheses. -/
theorem comes_group (follows : Follows compiler inside reader) (faithful : Reader.Faithful reader)
    (held : compiler ∈ store.compilers)
    (lies : (store.compilers.get compiler).ahead = '(' :: rest) :
    Comes compiler store
      ((do
        expect compiler "("
        let automaton ← inside
        expect compiler ")"
        return automaton : Action AutomatonRef).run store)
      (Reader.base reader ('(' :: rest)) := by
  have moved := ahead_move held lies
  have movedHeld : compiler ∈ (store.move compiler 1).compilers := Heap.mem_change.mpr held
  have expected : (expect compiler "(").run store = .ok () (store.move compiler 1) :=
    run_expect lies rfl
  have came := follows movedHeld
  rw [moved] at came
  rw [run_bind_of_ok expected, Reader.base]
  split
  · rename_i failure read
    rw [read] at came
    exact Stops.passed (Stops.bind came) held lies
  · rename_i inner after read
    rw [read] at came
    obtain ⟨automaton, middle, taken⟩ := exists_taken movedHeld inner
    have closed : (expect compiler ")").run middle = .ok () (middle.move compiler 1) :=
      run_expect (taken.ahead movedHeld (moved.trans (faithful read))) rfl
    rw [run_bind_of_ok (came.trans taken.ran), run_bind_of_ok closed]
    exact taken.group.symm
  · rename_i inner after notClosed read
    rw [read] at came
    obtain ⟨automaton, middle, taken⟩ := exists_taken movedHeld inner
    have begins := moved.trans (faithful read)
    have left := taken.ahead movedHeld begins
    have stops : Stops compiler middle ((expect compiler ")").run middle)
        { complaint := .expected ")", rest := after } := by
      rw [run_expect_missing]
      · exact stops_complain left
      · intro next others remaining same
        have closes : ")" = String.singleton ')' := rfl
        cases String.singleton_inj.mp (same.trans closes)
        exact notClosed others (left.symm.trans remaining)
    rw [run_bind_of_ok (came.trans taken.ran)]
    exact (Stops.behind stops.bind taken movedHeld begins).passed held lies

theorem follows_base (follows : Follows compiler inside reader)
    (faithful : Reader.Faithful reader) :
    Follows compiler (base compiler inside) (Reader.base reader) := by
  intro store held
  generalize lies : (store.compilers.get compiler).ahead = ahead
  cases ahead with
  | nil =>
      refine Stops.bind ?_
      rw [run_peek_nil lies]
      exact stops_complain lies
  | cons next rest =>
      rw [base, run_bind_of_ok (run_peek lies)]
      by_cases opens : next = '('
      · subst opens
        exact comes_group follows faithful held lies
      · by_cases escapes : next = '\\'
        · subst escapes
          exact comes_escape held lies
        · rw [if_neg opens, if_neg escapes, Reader.base_of_plain opens escapes]
          exact run_single lies

/-- Each star repeats what was taken before it, which comes to taking both. -/
theorem run_stars (held : compiler ∈ store.compilers)
    (taken : Taken store compiler tree automaton middle)
    (begins : (store.compilers.get compiler).ahead = tree.text ++ ahead) {steps : Nat}
    (enough : ahead.length ≤ steps) :
    (stars compiler steps automaton).run middle =
      (take compiler (Reader.stars tree ahead).1).run store := by
  induction steps generalizing tree automaton middle ahead with
  | zero =>
      cases List.eq_nil_of_length_eq_zero (Nat.le_zero.mp enough)
      exact taken.ran.symm
  | succ steps ih =>
      have left := taken.ahead held begins
      rw [stars, run_bind_of_ok (run_sees left '*')]
      by_cases repeats : ahead.head? = some '*'
      · obtain ⟨rest, rfl⟩ := List.head?_eq_some_iff.mp repeats
        have expected : (expect compiler "*").run middle = .ok () (middle.move compiler 1) :=
          run_expect left rfl
        obtain ⟨starred, later, takenStar⟩ := exists_taken held (.star tree)
        have repeated := taken.star.symm.trans takenStar.ran
        simp only [repeats, decide_true, if_true]
        rw [run_bind_of_ok expected, run_bind_of_ok repeated, Reader.stars]
        refine ih takenStar ?_ (Nat.le_of_succ_le_succ enough)
        rw [begins, Tree.text, List.append_assoc]
        rfl
      · rw [Reader.stars_of_head? repeats]
        simp only [repeats, decide_false]
        exact taken.ran.symm

theorem follows_factor (follows : Follows compiler inside reader)
    (faithful : Reader.Faithful reader) :
    Follows compiler (factor compiler inside) (Reader.factor reader) := by
  intro store held
  have came := follows_base follows faithful held
  unfold Reader.factor
  split
  · rename_i failure read
    rw [read] at came
    exact Stops.bind came
  · rename_i plain after read
    rw [read] at came
    obtain ⟨automaton, middle, taken⟩ := exists_taken held plain
    have begins := Reader.faithful_base faithful read
    have left := taken.ahead held begins
    rw [factor, run_bind_of_ok (came.trans taken.ran), run_bind_of_ok (run_ahead middle compiler),
      left]
    exact run_stars held taken begins le_rfl

/-- The factors of a term behind its first ones. -/
theorem comes_factors (follows : Follows compiler inside reader)
    (faithful : Reader.Faithful reader) (held : compiler ∈ store.compilers)
    (taken : Taken store compiler before automaton middle)
    (begins : (store.compilers.get compiler).ahead = before.text ++ ahead) {steps : Nat}
    (enough : ahead.length ≤ steps) :
    Comes compiler store
      ((do whole compiler (← factors compiler inside steps (some automaton)) :
        Action AutomatonRef).run middle)
      (Reader.allFactors reader before ahead) := by
  induction steps generalizing before automaton middle ahead with
  | zero =>
      cases List.eq_nil_of_length_eq_zero (Nat.le_zero.mp enough)
      exact taken.ran.symm
  | succ steps ih =>
      have left := taken.ahead held begins
      rw [Reader.allFactors_eq faithful, factors, bind_assoc, run_bind_of_ok (run_goesOn left)]
      by_cases ends : Reader.endsTerm ahead = true
      · rw [if_pos ends, ends]
        exact taken.ran.symm
      · have came := follows_factor follows faithful (taken.held held)
        rw [left] at came
        rw [if_neg ends, Bool.eq_false_of_not_eq_true ends]
        simp only [Bool.not_false, if_true, bind_assoc]
        split
        · rename_i failure read
          rw [read] at came
          exact Stops.behind (Stops.bind came) taken held begins
        · rename_i next rest read
          rw [read] at came
          have consumed := Reader.faithful_factor faithful read
          have shorter := Reader.length_lt_of_read (Reader.faithful_factor faithful) read
          obtain ⟨joined, later, takenBoth⟩ := exists_taken held (.concat before next)
          obtain ⟨second, last, takenNext⟩ := exists_taken (taken.held held) next
          -- the new factor is joined at once, so the loop goes on behind a longer tree
          have joins := taken.concat next
          rw [run_bind_of_ok takenNext.ran, takenBoth.ran] at joins
          rw [run_bind_of_ok (came.trans takenNext.ran), run_bind_of_ok joins.symm]
          refine ih takenBoth ?_ (by omega)
          rw [begins, consumed, Tree.text, List.append_assoc]

theorem follows_term (follows : Follows compiler inside reader)
    (faithful : Reader.Faithful reader) :
    Follows compiler (term compiler inside) (Reader.term reader) := by
  intro store held
  generalize lies : (store.compilers.get compiler).ahead = ahead
  rw [term, run_bind_of_ok (run_ahead store compiler), lies]
  cases ahead with
  | nil => exact stops_complain lies
  | cons next rest =>
      rw [List.length_cons, factors, bind_assoc, run_bind_of_ok (run_goesOn lies), Reader.term]
      by_cases ends : Reader.endsTerm (next :: rest) = true
      · rw [if_pos ends, ends]
        exact stops_complain lies
      · have came := follows_factor follows faithful held
        rw [lies] at came
        rw [if_neg ends, Bool.eq_false_of_not_eq_true ends]
        simp only [Bool.not_false, if_true, bind_assoc]
        split
        · rename_i failure read
          rw [read] at came
          exact Stops.bind came
        · rename_i first after read
          rw [read] at came
          obtain ⟨automaton, middle, taken⟩ := exists_taken held first
          have begins := lies.trans (Reader.faithful_factor faithful read)
          have shorter := Reader.length_lt_of_read (Reader.faithful_factor faithful) read
          rw [run_bind_of_ok (came.trans taken.ran)]
          exact comes_factors follows faithful held taken begins (Nat.le_of_lt_succ shorter)

theorem follows_alternatives (follows : Follows compiler inside reader)
    (faithful : Reader.Faithful reader) (followsFurther : Follows compiler further readFurther) :
    Follows compiler (alternatives compiler inside further)
      (Reader.alternatives reader readFurther) := by
  intro store held
  have came := follows_term follows faithful held
  unfold Reader.alternatives
  split
  · rename_i failure read
    rw [read] at came
    exact Stops.bind came
  · rename_i first rest read
    rw [read] at came
    obtain ⟨automaton, middle, taken⟩ := exists_taken held first
    have begins := Reader.faithful_term faithful read
    have left := taken.ahead held begins
    have middleHeld := taken.held held
    have expected : (expect compiler "|").run middle = .ok () (middle.move compiler 1) :=
      run_expect left rfl
    have movedHeld : compiler ∈ (middle.move compiler 1).compilers := Heap.mem_change.mpr middleHeld
    have cameFurther := followsFurther movedHeld
    rw [ahead_move middleHeld left] at cameFurther
    rw [alternatives, run_bind_of_ok (came.trans taken.ran), run_bind_of_ok (run_sees left '|')]
    simp only [List.head?_cons, decide_true, if_true]
    rw [run_bind_of_ok expected]
    split
    · rename_i failure readSecond
      rw [readSecond] at cameFurther
      exact ((Stops.bind cameFurther).passed middleHeld left).behind taken held begins
    · rename_i second after readSecond
      rw [readSecond] at cameFurther
      obtain ⟨other, later, takenSecond⟩ := exists_taken movedHeld second
      have joins := taken.alt second
      rw [run_bind_of_ok takenSecond.ran] at joins
      rw [run_bind_of_ok (cameFurther.trans takenSecond.ran)]
      exact joins.symm
  · rename_i first rest noBar read
    rw [read] at came
    obtain ⟨automaton, middle, taken⟩ := exists_taken held first
    have left := taken.ahead held (Reader.faithful_term faithful read)
    have apart : rest.head? ≠ some '|' := by
      intro bar
      obtain ⟨others, same⟩ := List.head?_eq_some_iff.mp bar
      exact noBar others same
    rw [alternatives, run_bind_of_ok (came.trans taken.ran), run_bind_of_ok (run_sees left '|')]
    simp only [apart, decide_false]
    exact taken.ran.symm

theorem follows_refuse (compiler : CompilerRef) : Follows compiler (refuse compiler) Reader.refuse :=
  fun _ _ => stops_complain rfl

theorem follows_inGroup {frames : Nat}
    (smaller : ∀ fewer, fewer < frames → Follows compiler (regex compiler fewer) (Reader.regex fewer)) :
    Follows compiler (inGroup compiler frames) (Reader.inGroup frames) := by
  match frames with
  | 0 => exact follows_refuse compiler
  | 1 => exact follows_refuse compiler
  | 2 => exact follows_refuse compiler
  | 3 => exact follows_refuse compiler
  | frames + 4 => exact smaller frames (by omega)

theorem follows_behindBar {frames : Nat}
    (smaller : ∀ fewer, fewer < frames → Follows compiler (regex compiler fewer) (Reader.regex fewer)) :
    Follows compiler (behindBar compiler frames) (Reader.behindBar frames) := by
  cases frames with
  | zero => exact follows_refuse compiler
  | succ frames => exact smaller frames (Nat.lt_succ_self frames)

theorem follows_regex (compiler : CompilerRef) (frames : Nat) :
    Follows compiler (regex compiler frames) (Reader.regex frames) := by
  induction frames using Nat.strongRecOn with
  | ind frames smaller =>
      rw [regex_eq, Reader.regex_eq]
      exact follows_alternatives (follows_inGroup smaller)
        (Reader.faithful_inGroup fun fewer _ => Reader.faithful_regex fewer)
        (follows_behindBar smaller)

/-- **Every part is taken as it is read.** -/
theorem follows_part (compiler : CompilerRef) (rule : Rule) :
    Follows compiler (part compiler rule) rule.read := by
  have follows : Follows compiler (inGroup compiler frameBound) (Reader.inGroup frameBound) :=
    follows_inGroup fun fewer _ => follows_regex compiler fewer
  have faithful : Reader.Faithful (Reader.inGroup frameBound) :=
    Reader.faithful_inGroup fun fewer _ => Reader.faithful_regex fewer
  cases rule with
  | regex => exact follows_regex compiler frameBound
  | term => exact follows_term follows faithful
  | factor => exact follows_factor follows faithful
  | base => exact follows_base follows faithful

section Agreement

/-- Two outcomes from one store agree: they are the same, or both fail with one fault and
leave the compilers alike, and change nothing else that was in the store. -/
def Agree {α : Type} (store : Store) : (first second : EStateM.Result Fault Store α) → Prop
  | .ok value after, .ok other later => value = other ∧ after = later
  | .error fault after, .error other later =>
      fault = other ∧ after.compilers = later.compilers ∧ store.KeptIn after ∧ store.KeptIn later
  | _, _ => False

theorem Agree.of_eq {α : Type} {first second : EStateM.Result Fault Store α} {value : α}
    {after : Store} (same : first = second) (succeeds : second = .ok value after) :
    Agree store first second := by
  rw [same, succeeds]
  exact ⟨rfl, rfl⟩

theorem Agree.since {α : Type} {first second : EStateM.Result Fault Store α}
    (agree : Agree middle first second) (kept : store.KeptIn middle) :
    Agree store first second := by
  cases first with
  | ok value after =>
      cases second with
      | ok other later => exact agree
      | error other later => exact agree
  | error fault after =>
      cases second with
      | ok other later => exact agree
      | error other later =>
          obtain ⟨same, compilers, keptAfter, keptLater⟩ := agree
          exact ⟨same, compilers, kept.trans keptAfter, kept.trans keptLater⟩

/-- What stops at a failure agrees with leaving a reading that fails so. -/
theorem Stops.agree {α : Type} {outcome : EStateM.Result Fault Store α}
    (stops : Stops compiler store outcome failure) (held : compiler ∈ store.compilers) :
    Agree store outcome ((abandon compiler failure : Action α).run store) := by
  obtain ⟨_, after, ran, kept, left⟩ := stops
  rw [ran, run_abandon_eq held, left, Heap.get_change_self held]
  exact ⟨rfl, left, kept, (Store.KeptIn.refl store).changeCompiler compiler _⟩

/-- What stops at a failure is reported as leaving a reading that fails so is. -/
theorem Stops.agree_reporting {α β : Type} {action : Action α} {further : α → Action β}
    (stops : Stops compiler store (action.run store) failure)
    (held : compiler ∈ store.compilers) :
    Agree store ((reporting compiler action >>= further).run store)
      ((reporting compiler (abandon compiler failure : Action β)).run store) := by
  obtain ⟨_, after, ran, kept, left⟩ := stops
  rw [run_bind_of_error (run_reporting_of_error ran), run_reporting_abandon held, left,
    Heap.get_change_self held]
  exact ⟨rfl, left, kept, (Store.KeptIn.refl store).changeCompiler compiler _⟩

/-- **Parts may be read first.** Taking a part of a pattern agrees with reading it first and
building it then. -/
theorem part_agrees (held : compiler ∈ store.compilers) (rule : Rule) :
    Agree store ((part compiler rule).run store) ((parse compiler rule).run store) := by
  have came := follows_part compiler rule held
  rw [run_parse]
  split
  · rename_i failure read
    rw [read] at came
    exact Stops.agree came held
  · rename_i tree rest read
    rw [read] at came
    obtain ⟨automaton, middle, taken⟩ := exists_taken held tree
    exact .of_eq came taken.ran

/-- **Patterns may be read first.** Compiling while reading agrees with reading the whole
pattern first and building its automaton then. -/
theorem compile_agrees (held : compiler ∈ store.compilers) :
    Agree store ((compile compiler).run store) ((Action.compile compiler).run store) := by
  rw [run_compile held]
  generalize lies : (store.compilers.get compiler).ahead = ahead
  let cleared := store.changeCompiler compiler ({ · with literals := ∅ })
  have clearedHeld : compiler ∈ cleared.compilers := Heap.mem_change.mpr held
  have clearedLies : (cleared.compilers.get compiler).ahead = ahead := by
    rw [← lies, Store.compilers_changeCompiler, Heap.get_change_self held]
    rfl
  have kept : store.KeptIn cleared := (Store.KeptIn.refl store).changeCompiler compiler _
  refine Agree.since ?_ kept
  have came := follows_part compiler .regex clearedHeld
  rw [clearedLies] at came
  change Agree cleared
    ((reporting compiler (part compiler .regex) >>= _ : Action AutomatonRef).run cleared) _
  cases read : Rule.regex.read ahead with
  | error failure =>
      rw [read] at came
      simp only [readPattern, read]
      exact Stops.agree_reporting came clearedHeld
  | ok value =>
      obtain ⟨tree, rest⟩ := value
      rw [read] at came
      obtain ⟨automaton, middle, taken⟩ := exists_taken clearedHeld tree
      have spelled := Rule.faithful_read .regex read
      have left := taken.ahead clearedHeld (clearedLies.trans spelled)
      rw [run_bind_of_ok (run_reporting_of_ok (came.trans taken.ran)),
        run_bind_of_ok (run_ahead middle compiler), left]
      cases rest with
      | nil =>
          -- both add the same literals to the same automaton, and the one cannot fail
          have readAll : readPattern ahead = .ok tree := by simp only [readPattern, read]
          have length : ahead.length = tree.text.length := by rw [spelled, List.append_nil]
          obtain ⟨result, after, _, ran, _⟩ := run_compile_of_ok held (lies.symm ▸ readAll)
          rw [run_compile held, lies] at ran
          simp only [readAll, length] at ran ⊢
          have compiled : (do
              let automaton ← take compiler tree
              addLetters automaton (← Action.compiler compiler).literals.toList
              return automaton : Action AutomatonRef).run cleared = _ := run_bind_of_ok taken.ran
          exact .of_eq compiled.symm ran
      | cons next rest =>
          simp only [readPattern, read]
          -- what is left over is no refusal, so nothing is reported in another way
          rw [run_reporting_abandon_of_shallow clearedHeld (fun deep => by cases deep)]
          refine Stops.agree ?_ clearedHeld
          exact Stops.behind (stops_complain left) taken clearedHeld (clearedLies.trans spelled)

end Agreement

end PatternAutomata.Descent
