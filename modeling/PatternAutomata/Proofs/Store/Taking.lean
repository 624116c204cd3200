import PatternAutomata.Proofs.Store.Failing
import PatternAutomata.Proofs.Store.Steadiness

/-! # Taking trees

A tree is taken by passing over its text and building it (`Action.take`). Parts that are
taken one after another, with the characters between them passed over, come to the same as
the whole: it is passed over first and built then, but building does not look at the cursor.
-/

namespace PatternAutomata

namespace Compiler

variable {compiler : Compiler} {failure : Failure} {distance : Nat}

theorem ahead_move (compiler : Compiler) (distance : Nat) :
    (compiler.move distance).ahead = compiler.ahead.drop distance :=
  List.drop_drop.symm

/-- What passing over the text of a tree and building it makes of a compiler. -/
def take (compiler : Compiler) (tree : Tree) : Compiler :=
  (compiler.move tree.text.length).spend tree

theorem ahead_take (compiler : Compiler) (tree : Tree) :
    (compiler.take tree).ahead = compiler.ahead.drop tree.text.length :=
  compiler.ahead_move _

theorem leave_move (within : distance ≤ compiler.ahead.length)
    (suffix : failure.rest <:+ (compiler.move distance).ahead) :
    (compiler.move distance).leave failure = compiler.leave failure := by
  have shorter := suffix.length_le
  rw [ahead_move, List.length_drop] at shorter
  rw [leave, leave, ahead_move, List.length_drop]
  simp only [move]
  congr 1
  omega

theorem leave_take {tree : Tree} (within : tree.text.length ≤ compiler.ahead.length)
    (suffix : failure.rest <:+ (compiler.take tree).ahead) :
    (compiler.take tree).leave failure = compiler.leave (failure.behind tree) := by
  apply Compiler.ext
  · rfl
  · change ((compiler.move tree.text.length).leave failure).cursor = (compiler.leave failure).cursor
    rw [leave_move within suffix]
  · exact Nat.add_assoc compiler.names tree.names failure.names
  · change (compiler.literals.insertAll _).insertAll _ = compiler.literals.insertAll _
    rw [← StringSet.insertAll_append, ← List.map_append]
    rfl

end Compiler

namespace Action

variable {store middle : Store} {compiler : CompilerRef} {automaton : AutomatonRef}
  {tree left right : Tree} {rest : List Char} {failure : Failure}

/-- Passes over the text of a tree and builds it. -/
def take (compiler : CompilerRef) (tree : Tree) : Action AutomatonRef := do
  advance compiler tree.text.length
  build compiler tree

theorem run_take (store : Store) (compiler : CompilerRef) (tree : Tree) :
    (take compiler tree).run store =
      (build compiler tree).run (store.move compiler tree.text.length) := rfl

/-- A part is read first, and then passed over and built. -/
theorem run_parse (store : Store) (compiler : CompilerRef) (rule : Rule) :
    (parse compiler rule).run store =
      (match rule.read (store.compilers.get compiler).ahead with
        | .error failure => abandon compiler failure
        | .ok (tree, _) => take compiler tree : Action AutomatonRef).run store := by
  have lies : (ahead compiler).run store = .ok (store.compilers.get compiler).ahead store := rfl
  rw [parse, run_bind_of_ok lies]
  cases read : rule.read (store.compilers.get compiler).ahead with
  | error failure => rfl
  | ok value =>
      have distance : (store.compilers.get compiler).ahead.length - value.2.length =
          value.1.text.length := by
        rw [Rule.faithful_read rule read, List.length_append, Nat.add_sub_cancel]
      change (do
        advance compiler ((store.compilers.get compiler).ahead.length - value.2.length)
        build compiler value.1 : Action AutomatonRef).run store = _
      rw [distance]
      rfl

/-- A tree was passed over and built. -/
structure Taken (store : Store) (compiler : CompilerRef) (tree : Tree) (automaton : AutomatonRef)
    (middle : Store) : Prop where
  ran : (take compiler tree).run store = .ok automaton middle
  kept : store.KeptIn middle
  compilers : middle.compilers = store.compilers.change compiler (·.take tree)

theorem exists_taken (held : compiler ∈ store.compilers) (tree : Tree) :
    ∃ automaton middle, Taken store compiler tree automaton middle := by
  have kept : store.KeptIn (store.move compiler tree.text.length) :=
    (Store.KeptIn.refl store).changeCompiler compiler _
  obtain ⟨automaton, middle, _, ran, built, spent⟩ :=
    builds compiler tree (store.move compiler tree.text.length) (Heap.mem_change.mpr held)
  refine ⟨automaton, middle, ran, kept.trans built.kept, ?_⟩
  rw [spent, Store.move, Store.compilers_changeCompiler, Heap.change_change]
  rfl

namespace Taken

theorem held (taken : Taken store compiler tree automaton middle)
    (held : compiler ∈ store.compilers) : compiler ∈ middle.compilers :=
  (get_spent held taken.compilers).1

theorem ahead (taken : Taken store compiler tree automaton middle)
    (held : compiler ∈ store.compilers)
    (begins : (store.compilers.get compiler).ahead = tree.text ++ rest) :
    (middle.compilers.get compiler).ahead = rest := by
  rw [(get_spent held taken.compilers).2, Compiler.ahead_take, begins, List.drop_left]

end Taken

/-- A tree may be built when the cursor is further on already. -/
theorem Taken.onward (taken : Taken store compiler tree automaton middle) (distance : Nat) :
    (build compiler tree).run (store.move compiler (tree.text.length + distance)) =
      .ok automaton (middle.move compiler distance) := by
  rw [← Store.move_move]
  exact steady_build tree distance taken.ran

theorem Taken.star (taken : Taken store compiler tree automaton middle) :
    (take compiler (.star tree)).run store = (repetition automaton).run (middle.move compiler 1) := by
  have longer : (Tree.star tree).text.length = tree.text.length + 1 := List.length_append
  rw [run_take, longer]
  exact run_bind_of_ok (taken.onward 1)

theorem Taken.concat (taken : Taken store compiler left automaton middle) (right : Tree) :
    (take compiler (.concat left right)).run store =
      (do concatenation (some automaton) (← take compiler right)).run middle := by
  have longer : (Tree.concat left right).text.length = left.text.length + right.text.length :=
    List.length_append
  rw [run_take, longer]
  exact run_bind_of_ok (taken.onward right.text.length)

theorem Taken.alt (taken : Taken store compiler left automaton middle) (right : Tree) :
    (take compiler (.alt left right)).run store =
      (do alternative compiler automaton (← take compiler right)).run (middle.move compiler 1) := by
  have longer : (Tree.alt left right).text.length =
      left.text.length + (1 + right.text.length) := by
    rw [Tree.text, List.length_append, List.length_cons, Nat.add_comm 1]
  rw [run_take, longer]
  refine (run_bind_of_ok (taken.onward (1 + right.text.length))).trans ?_
  rw [← Store.move_move]
  rfl

theorem Taken.group (taken : Taken (store.move compiler 1) compiler tree automaton middle) :
    (take compiler (.group tree)).run store = .ok automaton (middle.move compiler 1) := by
  have longer : (Tree.group tree).text.length = 1 + (tree.text.length + 1) := by
    simp only [Tree.text, List.cons_append, List.length_cons, List.length_append, List.length_nil]
    omega
  rw [run_take, longer, ← Store.move_move]
  exact taken.onward 1

end Action

end PatternAutomata
