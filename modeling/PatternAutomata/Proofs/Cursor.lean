import PatternAutomata.Proofs.Recognition
import PatternAutomata.Proofs.Store.Looping
import PatternAutomata.Proofs.Store.Recursion

/-! # Where the cursor goes

Taking a part of a pattern moves the cursor forward and never past the end. It goes on to a
place that the part cannot go on from (`Rule.Precedes`), or stays at the place of the error;
at the end nothing is moved and nothing else is changed (`Action.Disciplined`). As every part
takes a character, the loops over stars and factors end, and so do the calls in groups and
behind bars (`Action.cursor_disciplined`). Where a whole pattern is compiled, a refusal is
reported at the cursor as well, so every fault has its place (`Action.place_of_compile_error`).
-/

namespace PatternAutomata

/-- The characters that a part of a pattern stops at. -/
def Rule.Precedes : Rule → Char → Prop
  | .regex, next => next = ')'
  | .term, next => next = ')' ∨ next = '|'
  | .factor, next => next ≠ '*'
  | .base, _ => True

/-- What is complained about where a part is asked for at the end. -/
def Rule.missing : Rule → Complaint
  | .regex => .emptyTerm
  | .term => .emptyTerm
  | .factor => .noCharacterLeft
  | .base => .noCharacterLeft

namespace Reader

variable {inside : Reader} {ahead rest : List Char} {tree : Tree}

theorem head?_stars (tree : Tree) (ahead : List Char) : (stars tree ahead).2.head? ≠ some '*' := by
  fun_induction stars tree ahead with
  | case1 tree rest ih => exact ih
  | case2 tree ahead notStar =>
      intro star
      obtain ⟨rest, same⟩ := List.head?_eq_some_iff.mp star
      exact notStar rest same

theorem head?_of_factor (read : factor inside ahead = .ok (tree, rest)) :
    rest.head? ≠ some '*' := by
  unfold factor at read
  split at read
  · cases read
  · rename_i plain after _
    have apart := head?_stars plain after
    rw [Except.ok.inj read] at apart
    exact apart

end Reader

/-- A part is read up to the end or a character that it stops at. -/
theorem Rule.precedes_of_read {frames : Nat} {ahead rest : List Char} {tree : Tree} (rule : Rule)
    (read : rule.readWithin frames ahead = .ok (tree, rest)) :
    ∀ next ∈ rest.head?, rule.Precedes next := by
  intro next first
  cases rule with
  | regex =>
      rcases Reader.closes_regex frames read with rfl | closed
      · exact nomatch first
      · exact (Option.some.inj (closed.symm.trans first)).symm
  | term =>
      have ends := Reader.endsTerm_of_term (Reader.faithful_inside frames) read
      obtain ⟨others, rfl⟩ := List.head?_eq_some_iff.mp first
      simpa only [Precedes, Reader.endsTerm, Bool.or_eq_true, decide_eq_true_eq] using ends
  | factor =>
      rintro rfl
      exact Reader.head?_of_factor read first
  | base => trivial

theorem Rule.readWithin_nil (frames : Nat) (rule : Rule) :
    rule.readWithin frames [] = .error { complaint := rule.missing, rest := [] } := by
  cases rule with
  | regex => rw [readWithin, Reader.regex_eq]; rfl
  | term => rfl
  | factor => rfl
  | base => rfl

/-- The text at the cursor, as errors name it. -/
def Compiler.near (compiler : Compiler) : String :=
  (compiler.pattern[compiler.cursor]?.map String.singleton).getD "EOL"

namespace Compiler

variable {compiler : Compiler} {failure : Failure} {tree : Tree} {rest : List Char}

theorem head?_ahead (compiler : Compiler) :
    compiler.ahead.head? = compiler.pattern[compiler.cursor]? :=
  List.head?_drop

theorem length_ahead (compiler : Compiler) :
    compiler.ahead.length = compiler.pattern.length - compiler.cursor :=
  List.length_drop

theorem ahead_eq_nil (beyond : compiler.pattern.length ≤ compiler.cursor) : compiler.ahead = [] :=
  List.drop_eq_nil_of_le beyond

/-- A tree that begins what lies ahead takes the cursor on, but not past the end. -/
theorem cursor_take (begins : compiler.ahead = tree.text ++ rest) :
    compiler.cursor < (compiler.take tree).cursor ∧
      (compiler.take tree).cursor ≤ compiler.pattern.length := by
  have long : 0 < tree.text.length := List.length_pos_iff.mpr tree.text_ne_nil
  have most := compiler.length_ahead
  rw [begins, List.length_append] at most
  change _ < compiler.cursor + tree.text.length ∧ compiler.cursor + tree.text.length ≤ _
  omega

/-- A failure takes the cursor on or leaves it, but does not take it past the end. -/
theorem cursor_leave_le (compiler : Compiler) (failure : Failure) :
    compiler.cursor ≤ (compiler.leave failure).cursor ∧
      (compiler.leave failure).cursor ≤ max compiler.cursor compiler.pattern.length := by
  rw [leave, compiler.length_ahead]
  dsimp only
  omega

end Compiler

/-- A complaint names its place and the text there. -/
theorem Complaint.fault_place (complaint : Complaint) (position : Nat) (ahead : List Char) :
    complaint.fault position ahead = .tooDeep ∨
      ∃ error, complaint.fault position ahead = .badPattern error ∧ error.position = position ∧
        error.near = (ahead.head?.map String.singleton).getD "EOL" := by
  unfold fault
  split
  · exact .inl rfl
  · exact .inr ⟨_, rfl, rfl, rfl⟩
  · exact .inr ⟨_, rfl, rfl, rfl⟩
  · exact .inr ⟨_, rfl, rfl, rfl⟩

/-- What is reported names its place and the text there, also if it is a refusal. -/
theorem Complaint.report_place (complaint : Complaint) (position : Nat) (ahead : List Char) :
    ∃ error, complaint.report position ahead = .badPattern error ∧ error.position = position ∧
      error.near = (ahead.head?.map String.singleton).getD "EOL" := by
  rcases complaint.fault_place position ahead with deep | placed
  · rw [report, deep]
    exact ⟨_, rfl, rfl, rfl⟩
  · obtain ⟨error, same, placed⟩ := placed
    rw [report, same]
    exact ⟨error, rfl, placed⟩

namespace Action

variable {store : Store} {compiler : CompilerRef} {rule : Rule} {action : Action AutomatonRef}
  {frames : Nat}

/-- How an action that takes a part of a pattern treats the cursor, and what it leaves at the
end. -/
structure Disciplined (rule : Rule) (compiler : CompilerRef) (store : Store)
    (action : Action AutomatonRef) : Prop where
  /-- The cursor never goes back. -/
  forward : (store.compilers.get compiler).cursor ≤
    ((ending action store).compilers.get compiler).cursor
  /-- Nor does it go past the end; if it lay beyond the end before, it stays. -/
  inside : ((ending action store).compilers.get compiler).cursor ≤
    max (store.compilers.get compiler).cursor (store.compilers.get compiler).pattern.length
  pattern : ((ending action store).compilers.get compiler).pattern =
    (store.compilers.get compiler).pattern
  /-- Success takes a character and stops where the part must stop. -/
  succeeds : ∀ automaton after, action.run store = .ok automaton after →
    (store.compilers.get compiler).cursor < (after.compilers.get compiler).cursor ∧
      ∀ next, (after.compilers.get compiler).pattern[(after.compilers.get compiler).cursor]? =
        some next → rule.Precedes next
  /-- A failure that is no refusal is an error at the cursor and names the character there. -/
  fails : ∀ fault after, action.run store = .error fault after →
    fault = .tooDeep ∨ ∃ error, fault = .badPattern error ∧
      error.position = (after.compilers.get compiler).cursor ∧
      error.near = (after.compilers.get compiler).near
  /-- Where no character is left, this is the error, and nothing is changed. -/
  atEnd : (store.compilers.get compiler).pattern.length ≤ (store.compilers.get compiler).cursor →
    ∃ what, action.run store = .error
      (.badPattern (.unexpectedEnd what (store.compilers.get compiler).cursor none)) store

section Following

variable (follows : Descent.Follows compiler action (rule.readWithin frames))
  (held : compiler ∈ store.compilers)
include follows held

/-- Where a part is taken, the cursor has gone on to a place that the part stops at. -/
theorem place_of_ok {automaton : AutomatonRef} {after : Store}
    (ran : action.run store = .ok automaton after) :
    (store.compilers.get compiler).cursor < (after.compilers.get compiler).cursor ∧
      (after.compilers.get compiler).cursor ≤ (store.compilers.get compiler).pattern.length ∧
      (after.compilers.get compiler).pattern = (store.compilers.get compiler).pattern ∧
      ∀ next ∈ (after.compilers.get compiler).ahead.head?, rule.Precedes next := by
  obtain ⟨tree, rest, read, taken⟩ := follows.taken held ran
  have begins := rule.faithful_readWithin frames read
  have content := (get_spent held taken.compilers).2
  obtain ⟨further, within⟩ := Compiler.cursor_take begins
  rw [taken.ahead held begins, content]
  exact ⟨further, within, rfl, rule.precedes_of_read read⟩

/-- Where a part is not taken, the cursor has gone on to the place of the error. -/
theorem place_of_error {fault : Fault} {after : Store}
    (ran : action.run store = .error fault after) :
    (store.compilers.get compiler).cursor ≤ (after.compilers.get compiler).cursor ∧
      (after.compilers.get compiler).cursor ≤
        max (store.compilers.get compiler).cursor (store.compilers.get compiler).pattern.length ∧
      (after.compilers.get compiler).pattern = (store.compilers.get compiler).pattern ∧
      (fault = .tooDeep ∨ ∃ error, fault = .badPattern error ∧
        error.position = (after.compilers.get compiler).cursor ∧
        error.near = (after.compilers.get compiler).near) := by
  obtain ⟨failure, _, _, left, rfl⟩ := follows.left held ran
  obtain ⟨further, within⟩ := (store.compilers.get compiler).cursor_leave_le failure
  have place := failure.complaint.fault_place (after.compilers.get compiler).cursor
    (after.compilers.get compiler).ahead
  rw [Compiler.head?_ahead] at place
  refine ⟨?_, ?_, ?_, place⟩
  · rw [left]
    exact further
  · rw [left]
    exact within
  · rw [left]
    rfl

/-- An action that follows a reader of a part keeps the discipline if it does so at the end. -/
theorem disciplined_of_follows
    (atEnd : (store.compilers.get compiler).ahead = [] → ∃ what, action.run store = .error
      (.badPattern (.unexpectedEnd what (store.compilers.get compiler).cursor none)) store) :
    Disciplined rule compiler store action := by
  have moves : (store.compilers.get compiler).cursor ≤
        ((ending action store).compilers.get compiler).cursor ∧
      ((ending action store).compilers.get compiler).cursor ≤
        max (store.compilers.get compiler).cursor (store.compilers.get compiler).pattern.length ∧
      ((ending action store).compilers.get compiler).pattern =
        (store.compilers.get compiler).pattern := by
    cases ran : action.run store with
    | ok automaton after =>
        obtain ⟨further, within, same, _⟩ := place_of_ok follows held ran
        rw [ending_of_ok ran]
        exact ⟨Nat.le_of_lt further, within.trans (Nat.le_max_right _ _), same⟩
    | error fault after =>
        obtain ⟨further, within, same, _⟩ := place_of_error follows held ran
        rw [ending_of_error ran]
        exact ⟨further, within, same⟩
  refine ⟨moves.1, moves.2.1, moves.2.2, fun automaton after ran => ?_, fun fault after ran => ?_,
    fun beyond => atEnd (Compiler.ahead_eq_nil beyond)⟩
  · obtain ⟨further, _, _, stops⟩ := place_of_ok follows held ran
    rw [Compiler.head?_ahead] at stops
    exact ⟨further, stops⟩
  · exact (place_of_error follows held ran).2.2.2

end Following

section Compiling

variable {fault : Fault} {after : Store}

/-- **Every fault of compiling has its place**: it is an error at the cursor and names the
character there. A refusal is no exception. -/
theorem place_of_compile_error (held : compiler ∈ store.compilers)
    (ran : (compile compiler).run store = .error fault after) :
    ∃ error, fault = .badPattern error ∧
      error.position = (after.compilers.get compiler).cursor ∧
      error.near = (after.compilers.get compiler).near := by
  cases read : readPattern (store.compilers.get compiler).ahead with
  | ok tree =>
      obtain ⟨_, _, _, compiled, _⟩ := run_compile_of_ok held read
      rw [compiled] at ran
      cases ran
  | error failure =>
      rw [run_compile_of_failure held read] at ran
      cases ran
      have place := failure.complaint.report_place
        ((store.compilers.get compiler).leave failure).cursor
        ((store.compilers.get compiler).leave failure).ahead
      rw [Compiler.head?_ahead] at place
      rw [Store.compilers_changeCompiler, Heap.get_change_self held]
      exact place

/-- The same holds where building goes on while reading does. -/
theorem place_of_descent_error (held : compiler ∈ store.compilers)
    (ran : (Descent.compile compiler).run store = .error fault after) :
    ∃ error, fault = .badPattern error ∧
      error.position = (after.compilers.get compiler).cursor ∧
      error.near = (after.compilers.get compiler).near := by
  have agree := Descent.compile_agrees held
  rw [ran] at agree
  cases compiled : (compile compiler).run store with
  | ok automaton later =>
      rw [compiled] at agree
      exact agree.elim
  | error other later =>
      rw [compiled] at agree
      obtain ⟨rfl, compilers, _⟩ := agree
      rw [compilers]
      exact place_of_compile_error held compiled

end Compiling

section AtEnd

/-- A complaint where nothing lies ahead. -/
theorem run_complain_nil {α : Type} {complaint : Complaint}
    (ended : (store.compilers.get compiler).ahead = []) (shallow : complaint ≠ .tooDeep) :
    (complain compiler complaint : Action α).run store =
      .error (.badPattern (.unexpectedEnd complaint.words (store.compilers.get compiler).cursor
        none)) store := by
  rw [← Complaint.fault_nil shallow, ← ended]
  rfl

/-- Where nothing lies ahead, no part is taken, and the store stays as it is. -/
theorem run_within_nil (ended : (store.compilers.get compiler).ahead = []) (frames : Nat)
    (rule : Rule) :
    (Descent.within compiler frames rule).run store = .error (.badPattern (.unexpectedEnd
      rule.missing.words (store.compilers.get compiler).cursor none)) store := by
  have base : (Descent.base compiler (Descent.inGroup compiler frames)).run store =
      .error (.badPattern (.unexpectedEnd Complaint.noCharacterLeft.words
        (store.compilers.get compiler).cursor none)) store := by
    refine run_bind_of_error ?_
    rw [Descent.run_peek_nil ended]
    exact run_complain_nil ended (by decide)
  have term : (Descent.term compiler (Descent.inGroup compiler frames)).run store =
      .error (.badPattern (.unexpectedEnd Complaint.emptyTerm.words
        (store.compilers.get compiler).cursor none)) store := by
    rw [Descent.term, run_bind_of_ok (Descent.run_ahead store compiler), ended]
    exact run_complain_nil ended (by decide)
  cases rule with
  | regex =>
      rw [Descent.within, Descent.regex_eq]
      exact run_bind_of_error term
  | term => exact term
  | factor => exact run_bind_of_error base
  | base => exact base

theorem run_parse_nil (held : compiler ∈ store.compilers)
    (ended : (store.compilers.get compiler).ahead = []) (rule : Rule) :
    (parse compiler rule).run store = .error (.badPattern (.unexpectedEnd
      rule.missing.words (store.compilers.get compiler).cursor none)) store := by
  have shallow : rule.missing ≠ .tooDeep := by cases rule <;> decide
  have same : (store.compilers.get compiler).leave { complaint := rule.missing, rest := [] } =
      store.compilers.get compiler := by
    rw [Compiler.leave, ended]
    rfl
  rw [run_parse, ended, rule.read_eq_readWithin, rule.readWithin_nil]
  change (abandon compiler _).run store = _
  rw [run_abandon_eq held, same, ended, Complaint.fault_nil shallow, Store.changeCompiler,
    Heap.change_eq_self same]

end AtEnd

/-- Reading a part first and building it then follows its reader. -/
theorem follows_parse (compiler : CompilerRef) (rule : Rule) :
    Descent.Follows compiler (parse compiler rule) rule.read := by
  intro store held
  have came := Descent.follows_part compiler rule held
  rw [run_parse]
  cases read : rule.read (store.compilers.get compiler).ahead with
  | ok taking => rfl
  | error failure =>
      rw [read] at came
      refine ⟨came.within, store.changeCompiler compiler (·.leave failure), ?_,
        (Store.KeptIn.refl store).changeCompiler compiler _, rfl⟩
      change (abandon compiler failure).run store = _
      rw [run_abandon_eq held, Store.compilers_changeCompiler, Heap.get_change_self held]

theorem disciplined_parse (held : compiler ∈ store.compilers) (rule : Rule) :
    Disciplined rule compiler store (parse compiler rule) := by
  have follows := follows_parse compiler rule
  rw [rule.read_eq_readWithin] at follows
  exact disciplined_of_follows follows held fun ended => ⟨_, run_parse_nil held ended rule⟩

theorem disciplined_within (held : compiler ∈ store.compilers) (frames : Nat) (rule : Rule) :
    Disciplined rule compiler store (Descent.within compiler frames rule) :=
  disciplined_of_follows (Descent.follows_within compiler frames rule) held fun ended =>
    ⟨_, run_within_nil ended frames rule⟩

/-- **Every part of a pattern treats the cursor with discipline**, wherever the cursor stands,
and whether the part is read first or built while it is read, with any number of frames left.
So the loops over stars and over factors end without a bound, as they do with as many steps as
characters lie ahead; and the calls in groups and behind bars end without a bound as well: with
four frames for each character ahead no part is refused, and more frames make no difference. -/
theorem cursor_disciplined (held : compiler ∈ store.compilers) (rule : Rule) :
    let length := (store.compilers.get compiler).ahead.length
    Disciplined rule compiler store (parse compiler rule) ∧
      Descent.part compiler rule = Descent.within compiler frameBound rule ∧
      ∀ frames,
        Disciplined rule compiler store (Descent.within compiler frames rule) ∧
        (∀ automaton outcome,
          Loops (Descent.sees compiler '*') (Descent.takeStar compiler) automaton store outcome ↔
            outcome = (Descent.stars compiler length automaton).run store) ∧
        (∀ before outcome,
          Loops (Descent.goesOn compiler)
              (Descent.takeFactor compiler (Descent.inGroup compiler frames)) before store outcome ↔
            outcome = (Descent.factors compiler (Descent.inGroup compiler frames) length
              before).run store) ∧
        (4 * length ≤ frames →
          (∀ after, (Descent.within compiler frames rule).run store ≠ .error .tooDeep after) ∧
            (Descent.within compiler frames rule).run store =
              (Descent.within compiler (4 * length) rule).run store) := by
  intro length
  refine ⟨disciplined_parse held rule, Descent.part_eq_within compiler rule, fun frames =>
    ⟨disciplined_within held frames rule, Descent.loops_stars_iff held,
      Descent.loops_factors_iff (Descent.follows_inside compiler frames)
        (Reader.faithful_inside frames) held, fun enough => ?_⟩⟩
  exact ⟨Descent.run_within_ne_tooDeep held enough rule,
    Descent.run_within_of_le held enough rule⟩

/-- A group that is not closed is complained about at the end, where the cursor is left; beyond
the end the cursor stays. -/
theorem cursor_disciplined_unclosed_group :
    let store : Store := { compilers :=
      (({} : Heap Compiler).add { pattern := ['(', 'a'] }).add { pattern := ['a'], cursor := 5 } }
    (⟨0⟩ : CompilerRef) ∈ store.compilers ∧ (⟨1⟩ : CompilerRef) ∈ store.compilers ∧
      (∃ error after, (parse ⟨0⟩ .regex).run store = .error (.badPattern error) after ∧
        (after.compilers.get ⟨0⟩).cursor = 2 ∧ error.position = 2 ∧ error.near = "EOL") ∧
      ∃ what, (parse ⟨1⟩ .regex).run store =
        .error (.badPattern (.unexpectedEnd what 5 none)) store := by
  intro store
  have held : (⟨0⟩ : CompilerRef) ∈ store.compilers := by decide
  have heldOther : (⟨1⟩ : CompilerRef) ∈ store.compilers := by decide
  have read : Rule.regex.read (store.compilers.get ⟨0⟩).ahead =
      .error { complaint := .expected ")", rest := [], finished := [.literal 'a'] } := by
    decide
  obtain ⟨after, ran, cursor⟩ : ∃ after, (parse ⟨0⟩ .regex).run store = .error
      (.badPattern (.unexpectedEnd "Expected ')' but reached end of pattern" 2 none)) after ∧
        (after.compilers.get ⟨0⟩).cursor = 2 := by
    rw [run_parse, read]
    exact ⟨_, run_abandon_eq held _, rfl⟩
  refine ⟨held, heldOther, ?_, ?_⟩
  · rcases (cursor_disciplined held .regex).1.fails _ after ran with deep | ⟨_, same, place, _⟩
    · cases deep
    · cases same
      exact ⟨_, after, ran, cursor, place.trans (congrArg Nat.cast cursor), rfl⟩
  · exact (cursor_disciplined heldOther .regex).1.atEnd (by decide)

end Action

end PatternAutomata
