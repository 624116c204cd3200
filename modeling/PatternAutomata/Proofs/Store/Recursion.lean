import PatternAutomata.Proofs.Pattern.Bounds
import PatternAutomata.Proofs.Store.Descent

/-! # Building with any number of frames

The parts of the grammar call each other, and each call inside a group or behind a bar has
fewer frames left. With more frames an action runs as it does with fewer, or the fewer did not
do (`Descent.upToRefusal_within`). Four frames for each character ahead do always
(`Descent.run_within_ne_tooDeep`), so from there on the number of frames makes no difference
(`Descent.run_within_of_le`): without a bound the calls come to an end as well.
-/

namespace PatternAutomata

/-- Reads one part of a pattern with the given number of frames left. -/
def Rule.readWithin (frames : Nat) : Rule → Reader
  | .regex => Reader.regex frames
  | .term => Reader.term (Reader.inGroup frames)
  | .factor => Reader.factor (Reader.inGroup frames)
  | .base => Reader.base (Reader.inGroup frames)

theorem Rule.read_eq_readWithin (rule : Rule) : rule.read = rule.readWithin frameBound := by
  cases rule <;> rfl

theorem Rule.faithful_readWithin (frames : Nat) (rule : Rule) :
    Reader.Faithful (rule.readWithin frames) := by
  have inside := Reader.faithful_inside frames
  cases rule with
  | regex => exact Reader.faithful_regex frames
  | term => exact Reader.faithful_term inside
  | factor => exact Reader.faithful_factor inside
  | base => exact Reader.faithful_base inside

namespace Reader

variable {inside further : Reader} {ahead : List Char} {frames : Nat}

theorem refused_alternatives (refused : Refused (term inside ahead)) :
    Refused (alternatives inside further ahead) := by
  obtain ⟨failure, failed, deep⟩ := refused
  refine ⟨failure, ?_, deep⟩
  rw [alternatives, failed]

/-- Where no term begins, no group does. -/
theorem not_refused_base_of_endsTerm (ends : endsTerm ahead = true) :
    ¬ Refused (base inside ahead) := by
  cases ahead with
  | nil =>
      rw [base, refused_error]
      decide
  | cons next rest =>
      simp only [endsTerm, Bool.or_eq_true, decide_eq_true_eq] at ends
      have notOpen : next ≠ '(' := by rcases ends with rfl | rfl <;> decide
      have notEscape : next ≠ '\\' := by rcases ends with rfl | rfl <;> decide
      rw [base_of_plain notOpen notEscape]
      exact not_refused_ok _

theorem refused_factor (refused : Refused (base inside ahead)) :
    Refused (factor inside ahead) := by
  obtain ⟨failure, failed, deep⟩ := refused
  refine ⟨failure, ?_, deep⟩
  rw [factor, failed]

theorem refused_term (refused : Refused (factor inside ahead)) : Refused (term inside ahead) := by
  obtain ⟨failure, failed, deep⟩ := refused
  refine ⟨failure, ?_, deep⟩
  by_cases ends : endsTerm ahead = true
  · exact absurd ⟨failure, base_of_factor_error failed, deep⟩ (not_refused_base_of_endsTerm ends)
  · rw [term, if_neg ends, failed]

end Reader

/-- Four frames for each character do for every part of a pattern. -/
theorem Rule.not_refused_readWithin {ahead : List Char} {frames : Nat}
    (enough : 4 * ahead.length ≤ frames) (rule : Rule) :
    ¬ Reader.Refused (rule.readWithin frames ahead) := by
  have regex : ¬ Reader.Refused (Reader.regex frames ahead) := Reader.not_refused_of_le enough
  have term : ¬ Reader.Refused (Reader.term (Reader.inGroup frames) ahead) := by
    rw [Reader.regex_eq] at regex
    exact mt Reader.refused_alternatives regex
  have factor := mt Reader.refused_term term
  cases rule with
  | regex => exact regex
  | term => exact term
  | factor => exact factor
  | base => exact mt Reader.refused_factor factor

namespace Descent

open PatternAutomata.Action

variable {α β : Type} {compiler : CompilerRef} {store : Store} {frames more : Nat}

/-- One part of the pattern at the cursor, with the given number of frames left. -/
def within (compiler : CompilerRef) (frames : Nat) : Rule → Action AutomatonRef
  | .regex => regex compiler frames
  | .term => term compiler (inGroup compiler frames)
  | .factor => factor compiler (inGroup compiler frames)
  | .base => base compiler (inGroup compiler frames)

theorem part_eq_within (compiler : CompilerRef) (rule : Rule) :
    part compiler rule = within compiler frameBound rule := by
  cases rule <;> rfl

theorem follows_inside (compiler : CompilerRef) (frames : Nat) :
    Follows compiler (inGroup compiler frames) (Reader.inGroup frames) :=
  follows_inGroup fun fewer _ => follows_regex compiler fewer

/-- Every part is taken as it is read with that number of frames. -/
theorem follows_within (compiler : CompilerRef) (frames : Nat) (rule : Rule) :
    Follows compiler (within compiler frames rule) (rule.readWithin frames) := by
  have follows := follows_inside compiler frames
  have faithful := Reader.faithful_inside frames
  cases rule with
  | regex => exact follows_regex compiler frames
  | term => exact follows_term follows faithful
  | factor => exact follows_factor follows faithful
  | base => exact follows_base follows faithful

section Frames

/-- The first action runs as the second one does, or is refused. -/
def UpToRefusal (first second : Action α) : Prop :=
  ∀ store, first.run store = second.run store ∨ ∃ after, first.run store = .error .tooDeep after

namespace UpToRefusal

theorem refl (action : Action α) : UpToRefusal action action :=
  fun _ => .inl rfl

theorem refuse (compiler : CompilerRef) (action : Action AutomatonRef) :
    UpToRefusal (Descent.refuse compiler) action :=
  fun store => .inr ⟨store, rfl⟩

theorem bind {first second : Action α} {next later : α → Action β}
    (upTo : UpToRefusal first second) (further : ∀ value, UpToRefusal (next value) (later value)) :
    UpToRefusal (first >>= next) (second >>= later) := by
  intro store
  rcases upTo store with same | ⟨after, refused⟩
  · cases ran : second.run store with
    | ok value middle =>
        rw [run_bind_of_ok (same.trans ran), run_bind_of_ok ran]
        exact further value middle
    | error fault middle =>
        rw [run_bind_of_error (same.trans ran), run_bind_of_error ran]
        exact .inl rfl
  · exact .inr ⟨after, run_bind_of_error refused⟩

end UpToRefusal

variable {inside richer further richerFurther : Action AutomatonRef}

theorem upToRefusal_base (upTo : UpToRefusal inside richer) :
    UpToRefusal (base compiler inside) (base compiler richer) := by
  refine (UpToRefusal.refl _).bind fun character => ?_
  split
  · exact (UpToRefusal.refl _).bind fun _ => upTo.bind fun _ => .refl _
  · exact .refl _

theorem upToRefusal_factor (upTo : UpToRefusal inside richer) :
    UpToRefusal (factor compiler inside) (factor compiler richer) :=
  (upToRefusal_base upTo).bind fun _ => .refl _

theorem upToRefusal_factors (upTo : UpToRefusal inside richer) (steps : Nat)
    (before : Option AutomatonRef) :
    UpToRefusal (factors compiler inside steps before) (factors compiler richer steps before) := by
  induction steps generalizing before with
  | zero => exact .refl _
  | succ steps ih =>
      refine (UpToRefusal.refl _).bind fun goes => ?_
      split
      · exact (upToRefusal_factor upTo).bind fun automaton =>
          (UpToRefusal.refl _).bind fun joined => ih joined
      · exact .refl _

theorem upToRefusal_term (upTo : UpToRefusal inside richer) :
    UpToRefusal (term compiler inside) (term compiler richer) :=
  (UpToRefusal.refl _).bind fun ahead =>
    (upToRefusal_factors upTo ahead.length none).bind fun _ => .refl _

theorem upToRefusal_alternatives (upTo : UpToRefusal inside richer)
    (upToFurther : UpToRefusal further richerFurther) :
    UpToRefusal (alternatives compiler inside further)
      (alternatives compiler richer richerFurther) := by
  refine (upToRefusal_term upTo).bind fun first => ?_
  refine (UpToRefusal.refl _).bind fun bar => ?_
  split
  · exact (UpToRefusal.refl _).bind fun _ => upToFurther.bind fun _ => .refl _
  · exact .refl _

theorem upToRefusal_inGroup (le : frames ≤ more)
    (smaller : ∀ fewer < frames, ∀ ⦃many⦄, fewer ≤ many →
      UpToRefusal (regex compiler fewer) (regex compiler many)) :
    UpToRefusal (inGroup compiler frames) (inGroup compiler more) := by
  match frames, more with
  | 0, _ | 1, _ | 2, _ | 3, _ => exact .refuse compiler _
  | fewer + 4, many + 4 => exact smaller fewer (by omega) (by omega)

theorem upToRefusal_behindBar (le : frames ≤ more)
    (smaller : ∀ fewer < frames, ∀ ⦃many⦄, fewer ≤ many →
      UpToRefusal (regex compiler fewer) (regex compiler many)) :
    UpToRefusal (behindBar compiler frames) (behindBar compiler more) := by
  match frames, more with
  | 0, _ => exact .refuse compiler _
  | fewer + 1, many + 1 => exact smaller fewer (Nat.lt_succ_self fewer) (Nat.le_of_succ_le_succ le)

theorem upToRefusal_regex (le : frames ≤ more) :
    UpToRefusal (regex compiler frames) (regex compiler more) := by
  induction frames using Nat.strongRecOn generalizing more with
  | ind frames smaller =>
      rw [regex_eq, regex_eq]
      exact upToRefusal_alternatives (upToRefusal_inGroup le smaller)
        (upToRefusal_behindBar le smaller)

/-- More frames make no difference but to what is refused with fewer. -/
theorem upToRefusal_within (le : frames ≤ more) (rule : Rule) :
    UpToRefusal (within compiler frames rule) (within compiler more rule) := by
  have inside : UpToRefusal (inGroup compiler frames) (inGroup compiler more) :=
    upToRefusal_inGroup le fun fewer _ many => upToRefusal_regex
  cases rule with
  | regex => exact upToRefusal_regex le
  | term => exact upToRefusal_term inside
  | factor => exact upToRefusal_factor inside
  | base => exact upToRefusal_base inside

end Frames

section Outcomes

variable {action : Action AutomatonRef} {reader : Reader} {automaton : AutomatonRef}
  {fault : Fault} {after : Store}

/-- Where an action that follows a reader succeeds, a tree was read and is taken. -/
theorem Follows.taken (follows : Follows compiler action reader)
    (held : compiler ∈ store.compilers) (ran : action.run store = .ok automaton after) :
    ∃ tree rest, reader (store.compilers.get compiler).ahead = .ok (tree, rest) ∧
      Taken store compiler tree automaton after := by
  have came := follows held
  cases read : reader (store.compilers.get compiler).ahead with
  | ok taking =>
      obtain ⟨tree, rest⟩ := taking
      rw [read] at came
      obtain ⟨other, middle, taken⟩ := exists_taken held tree
      cases ran.symm.trans (came.trans taken.ran)
      exact ⟨tree, rest, rfl, taken⟩
  | error failure =>
      rw [read] at came
      obtain ⟨later, failed, _⟩ := came.stopped
      cases ran.symm.trans failed

/-- Where an action that follows a reader fails, the reading did, and the compiler is left. -/
theorem Follows.left (follows : Follows compiler action reader)
    (held : compiler ∈ store.compilers) (ran : action.run store = .error fault after) :
    ∃ failure, reader (store.compilers.get compiler).ahead = .error failure ∧
      failure.rest <:+ (store.compilers.get compiler).ahead ∧
      after.compilers.get compiler = (store.compilers.get compiler).leave failure ∧
      fault = failure.complaint.fault (after.compilers.get compiler).cursor
        (after.compilers.get compiler).ahead := by
  have came := follows held
  cases read : reader (store.compilers.get compiler).ahead with
  | ok taking =>
      obtain ⟨other, middle, taken⟩ := exists_taken held taking.1
      rw [read] at came
      cases ran.symm.trans (came.trans taken.ran)
  | error failure =>
      rw [read] at came
      obtain ⟨within, later, failed, _, left⟩ := came
      cases ran.symm.trans failed
      exact ⟨failure, rfl, within, (get_spent held left).2, rfl⟩

end Outcomes

/-- Four frames for each character ahead do for every part. -/
theorem run_within_ne_tooDeep (held : compiler ∈ store.compilers)
    (enough : 4 * (store.compilers.get compiler).ahead.length ≤ frames) (rule : Rule)
    (after : Store) : (within compiler frames rule).run store ≠ .error .tooDeep after := by
  intro ran
  obtain ⟨failure, failed, _, _, same⟩ := (follows_within compiler frames rule).left held ran
  have deep : failure.complaint = .tooDeep := Complaint.fault_eq_tooDeep_iff.mp same.symm
  exact rule.not_refused_readWithin enough ⟨failure, failed, deep⟩

/-- **The calls come to an end without a bound.** From four frames for each character on, the
number of frames makes no difference. -/
theorem run_within_of_le (held : compiler ∈ store.compilers)
    (enough : 4 * (store.compilers.get compiler).ahead.length ≤ frames) (rule : Rule) :
    (within compiler frames rule).run store =
      (within compiler (4 * (store.compilers.get compiler).ahead.length) rule).run store := by
  rcases upToRefusal_within enough rule store with same | ⟨after, refused⟩
  · exact same.symm
  · exact absurd refused (run_within_ne_tooDeep held (Nat.le_refl _) rule after)

end Descent

end PatternAutomata
